import Columnar.Utf8
import Mathlib.Data.List.Forall2

/-!
# Well-formed text

Bytes are well-formed UTF-8 when they are the encodings of some characters, one after the other.
The scanner, which knows only which ranges of bytes may follow a leading byte, finds no fault
exactly in such bytes (`Utf8.fault?_eq_none_iff`).

A leading byte together with the ranges it calls for is what the encodings of characters look like:
every encoding has that form (`encode_follows`), and whatever has that form is the encoding of a
character (`exists_encode`).
-/

namespace Columnar.Utf8

/-- The bytes encode a sequence of characters. -/
def WellFormed (bytes : List UInt8) : Prop :=
  ∃ chars : List Char, bytes = chars.flatMap String.utf8EncodeChar

theorem wellFormed_nil : WellFormed [] := ⟨[], rfl⟩

/-! ### Bytes of one character -/

theorem ByteRange.contains_iff {r : ByteRange} {b : UInt8} :
    r.contains b = true ↔ r.first.toNat ≤ b.toNat ∧ b.toNat ≤ r.last.toNat := by
  simp [ByteRange.contains, UInt8.le_iff_toNat_le]

/-- The second byte of three.  It is restricted after two leading bytes. -/
def secondOfThree (lead : Nat) : ByteRange :=
  ⟨if lead = 0xE0 then 0xA0 else 0x80, if lead = 0xED then 0x9F else 0xBF⟩

/-- The second byte of four.  It is restricted after two leading bytes. -/
def secondOfFour (lead : Nat) : ByteRange :=
  ⟨if lead = 0xF0 then 0x90 else 0x80, if lead = 0xF4 then 0x8F else 0xBF⟩

theorem continuation_contains {x : UInt8} :
    continuation.contains x = true ↔ 0x80 ≤ x.toNat ∧ x.toNat ≤ 0xBF := ByteRange.contains_iff

theorem secondOfThree_contains {lead : Nat} {x : UInt8} :
    (secondOfThree lead).contains x = true ↔ (0x80 ≤ x.toNat ∧ x.toNat ≤ 0xBF) ∧
      (lead = 0xE0 → 0xA0 ≤ x.toNat) ∧ (lead = 0xED → x.toNat ≤ 0x9F) := by
  rw [ByteRange.contains_iff, secondOfThree]
  split_ifs <;> simp only [UInt8.reduceToNat] <;> omega

theorem secondOfFour_contains {lead : Nat} {x : UInt8} :
    (secondOfFour lead).contains x = true ↔ (0x80 ≤ x.toNat ∧ x.toNat ≤ 0xBF) ∧
      (lead = 0xF0 → 0x90 ≤ x.toNat) ∧ (lead = 0xF4 → x.toNat ≤ 0x8F) := by
  rw [ByteRange.contains_iff, secondOfFour]
  split_ifs <;> simp only [UInt8.reduceToNat] <;> omega

/-- The bytes that `following?` calls for, by the length of the encoding. -/
theorem following?_eq (b : UInt8) :
    following? b =
      if b.toNat < 0x80 then some []
      else if b.toNat < 0xC2 then none
      else if b.toNat < 0xE0 then some [continuation]
      else if b.toNat < 0xF0 then some [secondOfThree b.toNat, continuation]
      else if b.toNat < 0xF5 then some [secondOfFour b.toNat, continuation, continuation]
      else none := by
  simp only [following?, UInt8.lt_iff_toNat_lt, ← UInt8.toNat_inj, UInt8.reduceToNat]
  generalize b.toNat = n
  unfold secondOfThree secondOfFour
  split_ifs <;> first | rfl | omega

/-- The numbers of characters leave out the surrogates and everything above `0x10FFFF`. -/
theorem char_toNat_bounds (c : Char) :
    c.val.toNat < 0xD800 ∨ (0xDFFF < c.val.toNat ∧ c.val.toNat < 0x110000) := c.valid

/-- The encoding of a character begins with a leading byte, and goes on in the ranges that the
leading byte calls for. -/
theorem encode_follows (c : Char) : ∃ b tail next, String.utf8EncodeChar c = b :: tail ∧
    following? b = some next ∧ List.Forall₂ (fun r x => r.contains x = true) next tail := by
  have hc := char_toNat_bounds c
  unfold String.utf8EncodeChar
  generalize c.val.toNat = v at hc ⊢
  simp only
  split_ifs with h1 h2 h3
  · -- one byte
    refine ⟨_, _, [], rfl, ?_, .nil⟩
    rw [following?_eq, UInt8.toNat_ofNat', if_pos (by omega)]
  · -- two bytes
    refine ⟨_, _, [continuation], rfl, ?_, ?_⟩
    · rw [following?_eq, UInt8.toNat_ofNat', if_neg (by omega), if_neg (by omega),
        if_pos (by omega)]
    · simp only [List.forall₂_cons, List.Forall₂.nil, and_true, continuation_contains,
        UInt8.toNat_ofNat']
      omega
  · -- three bytes: below `0x800` and among the surrogates there are no characters
    refine ⟨_, _, [secondOfThree (v / 4096 % 16 + 0xE0), continuation], rfl, ?_, ?_⟩
    · rw [following?_eq, UInt8.toNat_ofNat', Nat.mod_eq_of_lt (by omega), if_neg (by omega),
        if_neg (by omega), if_neg (by omega), if_pos (by omega)]
    · simp only [List.forall₂_cons, List.Forall₂.nil, and_true, continuation_contains,
        secondOfThree_contains, UInt8.toNat_ofNat']
      omega
  · -- four bytes: neither below `0x10000` nor above `0x10FFFF`
    refine ⟨_, _, [secondOfFour (v / 262144 % 8 + 0xF0), continuation, continuation], rfl, ?_, ?_⟩
    · rw [following?_eq, UInt8.toNat_ofNat', Nat.mod_eq_of_lt (by omega), if_neg (by omega),
        if_neg (by omega), if_neg (by omega), if_neg (by omega), if_pos (by omega)]
    · simp only [List.forall₂_cons, List.Forall₂.nil, and_true, continuation_contains,
        secondOfFour_contains, UInt8.toNat_ofNat']
      omega

/-- A character by its number. -/
theorem exists_char {v : Nat} (h : v < 0xD800 ∨ (0xDFFF < v ∧ v < 0x110000)) :
    ∃ c : Char, c.val.toNat = v := by
  refine ⟨Char.ofNat v, ?_⟩
  have valid : v.isValidChar := h
  rw [Char.ofNat, dif_pos valid]
  rfl

/-- A leading byte followed by bytes in the ranges that it calls for encodes a character. -/
theorem exists_encode {b : UInt8} {tail : List UInt8} {next : List ByteRange}
    (hb : following? b = some next)
    (ht : List.Forall₂ (fun r x => r.contains x = true) next tail) :
    ∃ c, String.utf8EncodeChar c = b :: tail := by
  -- the number of the character is put together from the payload bits of its bytes
  have byte := b.toNat_lt
  rw [following?_eq] at hb
  split_ifs at hb with h1 h2 h3 h4 h5
  · cases hb
    cases ht
    obtain ⟨c, hc⟩ := exists_char (v := b.toNat) (by omega)
    refine ⟨c, ?_⟩
    simp only [String.utf8EncodeChar, hc]
    rw [if_pos (by omega), UInt8.ofNat_toNat]
  · cases hb
    obtain - | @⟨-, x, -, -, hx, - | -⟩ := ht
    rw [continuation_contains] at hx
    obtain ⟨c, hc⟩ := exists_char (v := (b.toNat - 0xC0) * 64 + (x.toNat - 0x80)) (by omega)
    refine ⟨c, ?_⟩
    simp only [String.utf8EncodeChar, hc]
    rw [if_neg (by omega), if_pos (by omega)]
    simp only [List.cons.injEq, ← UInt8.toNat_inj, UInt8.toNat_ofNat', and_true]
    omega
  · cases hb
    obtain - | @⟨-, x, -, -, hx, - | @⟨-, y, -, -, hy, - | -⟩⟩ := ht
    rw [secondOfThree_contains] at hx
    rw [continuation_contains] at hy
    obtain ⟨c, hc⟩ := exists_char
      (v := (b.toNat - 0xE0) * 4096 + (x.toNat - 0x80) * 64 + (y.toNat - 0x80)) (by omega)
    refine ⟨c, ?_⟩
    simp only [String.utf8EncodeChar, hc]
    rw [if_neg (by omega), if_neg (by omega), if_pos (by omega)]
    simp only [List.cons.injEq, ← UInt8.toNat_inj, UInt8.toNat_ofNat', and_true]
    omega
  · cases hb
    obtain - | @⟨-, x, -, -, hx, - | @⟨-, y, -, -, hy, - | @⟨-, z, -, -, hz, - | -⟩⟩⟩ := ht
    rw [secondOfFour_contains] at hx
    rw [continuation_contains] at hy hz
    obtain ⟨c, hc⟩ := exists_char
      (v := (b.toNat - 0xF0) * 262144 + (x.toNat - 0x80) * 4096 + (y.toNat - 0x80) * 64
        + (z.toNat - 0x80)) (by omega)
    refine ⟨c, ?_⟩
    simp only [String.utf8EncodeChar, hc]
    rw [if_neg (by omega), if_neg (by omega), if_neg (by omega)]
    simp only [List.cons.injEq, ← UInt8.toNat_inj, UInt8.toNat_ofNat', and_true]
    omega

/-! ### The scanner -/

/-- Bytes in the given ranges, one after the other, and then well-formed text. -/
def Continues : List ByteRange → List UInt8 → Prop
  | [], bytes => WellFormed bytes
  | _ :: _, [] => False
  | r :: pending, b :: rest => r.contains b = true ∧ Continues pending rest

theorem continues_iff {pending : List ByteRange} {bytes : List UInt8} :
    Continues pending bytes ↔ ∃ tail rest, bytes = tail ++ rest ∧
      List.Forall₂ (fun r x => r.contains x = true) pending tail ∧ WellFormed rest := by
  induction pending generalizing bytes with
  | nil => simp [Continues]
  | cons r pending ih =>
    cases bytes with
    | nil => simp [Continues, List.forall₂_cons_left_iff]
    | cons b bytes =>
      simp only [Continues, ih, List.forall₂_cons_left_iff]
      constructor
      · rintro ⟨hb, tail, rest, rfl, ht, hr⟩
        exact ⟨b :: tail, rest, rfl, ⟨b, tail, hb, ht, rfl⟩, hr⟩
      · rintro ⟨-, rest, e, ⟨x, tail, hx, ht, rfl⟩, hr⟩
        rw [List.cons_append, List.cons.injEq] at e
        obtain ⟨rfl, rfl⟩ := e
        exact ⟨hx, tail, rest, rfl, ht, hr⟩

/-- Well-formed text begins with a leading byte, and goes on as that byte calls for. -/
theorem wellFormed_cons {b : UInt8} {rest : List UInt8} :
    WellFormed (b :: rest) ↔ ∃ next, following? b = some next ∧ Continues next rest := by
  simp only [continues_iff]
  constructor
  · rintro ⟨chars, h⟩
    cases chars with
    | nil => simp at h
    | cons c chars =>
      obtain ⟨b', tail, next, hc, hn, ht⟩ := encode_follows c
      rw [List.flatMap_cons, hc, List.cons_append, List.cons.injEq] at h
      obtain ⟨rfl, rfl⟩ := h
      exact ⟨next, hn, tail, _, rfl, ht, chars, rfl⟩
  · rintro ⟨next, hn, tail, _, rfl, ht, chars, rfl⟩
    obtain ⟨c, hc⟩ := exists_encode hn ht
    exact ⟨c :: chars, by rw [List.flatMap_cons, hc, List.cons_append]⟩

theorem scan_eq_none_iff (bytes : List UInt8) (start i : Nat) (pending : List ByteRange) :
    scan start i pending bytes = none ↔ Continues pending bytes := by
  induction bytes generalizing start i pending with
  | nil => cases pending <;> simp [scan, Continues, wellFormed_nil]
  | cons b rest ih =>
    cases pending with
    | nil =>
      -- between characters
      rw [Continues, wellFormed_cons, scan]
      cases h : following? b with
      | none => simp
      | some next => simp [ih]
    | cons r pending =>
      -- inside a character
      rw [Continues, scan]
      by_cases h : r.contains b = true
      · simp [h, ih]
      · simp [h]

/-- **The scanner finds no fault exactly in the encodings of characters.** -/
theorem fault?_eq_none_iff {bytes : List UInt8} : fault? bytes = none ↔ WellFormed bytes :=
  scan_eq_none_iff bytes 0 0 []

end Columnar.Utf8
