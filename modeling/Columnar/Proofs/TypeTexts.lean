import Columnar.DataType.Text
import Columnar.Proofs.TypeParts
import Mathlib.Data.List.Basic

/-!
# Texts of types are unambiguous

The text of a type begins with an opening that tells its kind (`Kind.eq_of_opening`), and what comes
after it is separated by marks.  Where the names of struct fields are free of these marks, the text
of a type can be told from whatever follows it (`DataType.text_append_inj`), so no text has two
readings.  What a text does not tell is the nullability and the metadata of struct fields; the type
without them is `DataType.bare`, and two types have the same text exactly when they are the same
without them (`DataType.text_eq_iff_bare_eq`).

The names have to be free of marks: a field named `a: int8, b` is written like two fields.
-/

namespace Columnar

/-! ### Types without what a text leaves out -/

mutual

/-- The type without the nullability and the metadata of struct fields, which all become the
same. -/
def DataType.bare : DataType → DataType
  | .null => .null
  | .bool => .bool
  | .num t => .num t
  | .utf8 => .utf8
  | .binary => .binary
  | .list elem => .list elem.bare
  | .fixedList size elem => .fixedList size elem.bare
  | .struct fields => .struct (Field.bareAll fields)
  | .map key value sorted => .map key.bare value.bare sorted
  | .dictionary index value ordered => .dictionary index value.bare ordered

/-- The field with its name and bare type only. -/
def Field.bare : Field → Field
  | ⟨name, type, _, _⟩ => ⟨name, type.bare, true, []⟩

def Field.bareAll : List Field → List Field
  | [] => []
  | f :: fs => f.bare :: Field.bareAll fs

end

/-- The members after the first one, each behind a comma. -/
def Field.moreTexts : List Field → String
  | [] => ""
  | f :: fs => ", " ++ f.memberText ++ moreTexts fs

theorem Field.memberTexts_cons (f : Field) (fs : List Field) :
    memberTexts (f :: fs) = f.memberText ++ moreTexts fs := by
  induction fs generalizing f with
  | nil => simp only [memberTexts, moreTexts, String.append_empty]
  | cons g gs ih =>
    have another : g :: gs ≠ [] := List.cons_ne_nil g gs
    simp only [memberTexts, moreTexts, ih, String.append_assoc]

mutual

theorem DataType.text_bare : (t : DataType) → t.bare.text = t.text
  | .null | .bool | .num _ | .utf8 | .binary => rfl
  | .list elem => by
    rw [DataType.bare, DataType.text_list, DataType.text_list, DataType.text_bare elem]
  | .fixedList size elem => by
    rw [DataType.bare, DataType.text_fixedList, DataType.text_fixedList, DataType.text_bare elem]
  | .struct fields => by
    rw [DataType.bare, DataType.text_struct, DataType.text_struct,
      Field.memberTexts_bareAll fields]
  | .map key value sorted => by
    rw [DataType.bare, DataType.text_map, DataType.text_map, DataType.text_bare key,
      DataType.text_bare value]
  | .dictionary index value ordered => by
    rw [DataType.bare, DataType.text_dictionary, DataType.text_dictionary,
      DataType.text_bare value]

theorem Field.memberText_bare : (f : Field) → f.bare.memberText = f.memberText
  | ⟨_, type, _, _⟩ => by
    rw [Field.bare, Field.memberText_eq, Field.memberText_eq, DataType.text_bare type]

theorem Field.moreTexts_bareAll :
    (fs : List Field) → Field.moreTexts (Field.bareAll fs) = Field.moreTexts fs
  | [] => rfl
  | f :: fs => by
    rw [Field.bareAll, Field.moreTexts, Field.moreTexts, Field.memberText_bare f,
      Field.moreTexts_bareAll fs]

theorem Field.memberTexts_bareAll :
    (fs : List Field) → Field.memberTexts (Field.bareAll fs) = Field.memberTexts fs
  | [] => rfl
  | f :: fs => by
    rw [Field.bareAll, Field.memberTexts_cons, Field.memberTexts_cons, Field.memberText_bare f,
      Field.moreTexts_bareAll fs]

end

/-! ### Names without marks -/

/-- The name has none of the marks that separate the parts of a text. -/
def Field.IsPlain (f : Field) : Prop := ∀ mark ∈ [':', ',', '<', '>'], mark ∉ f.name.toList

namespace DataType

/-- The fields of a struct type have plain names. -/
def NamesPlain (t : DataType) : Prop := ∀ fields, t = .struct fields → ∀ f ∈ fields, f.IsPlain

/-- Every struct inside has plain names only. -/
def Plain (t : DataType) : Prop := ∀ d, Occurs d t → d.NamesPlain

variable {s t p : DataType} {r r' : List Char}

theorem plain_iff : t.Plain ↔ t.NamesPlain ∧ ∀ p ∈ t.parts, p.Plain := forall_occurs_iff

theorem Plain.part (h : t.Plain) (part : p ∈ t.parts) : p.Plain := (plain_iff.1 h).2 p part

theorem Plain.fields {fields : List Field} (h : (struct fields).Plain) :
    ∀ f ∈ fields, f.IsPlain ∧ f.type.Plain :=
  fun f hf => ⟨h _ .here fields rfl f hf, h.part (List.mem_map_of_mem hf)⟩

end DataType

/-! ### Openings -/

/-- How the text of a type of the kind begins.  That is the whole text of a type without parts. -/
def Kind.opening : Kind → String
  | .null => "null"
  | .bool => "bool"
  | .num t => t.name
  | .utf8 => "utf8"
  | .binary => "binary"
  | .list => "list<item: "
  | .fixedList => "fixed_size_list<size="
  | .struct => "struct<"
  | .map => "map<"
  | .dictionary => "dictionary<values="

/-- Every kind. -/
def Kind.all : List Kind :=
  [.null, .bool, .num (.int .int8), .num (.int .int16), .num (.int .int32), .num (.int .int64),
    .num (.int .uint8), .num (.int .uint16), .num (.int .uint32), .num (.int .uint64),
    .num .float32, .num .float64, .utf8, .binary, .list, .fixedList, .struct, .map, .dictionary]

theorem Kind.mem_all : (k : Kind) → k ∈ all := by
  rintro (_ | _ | (i | _ | _) | _)
  case num.int => cases i <;> decide
  all_goals decide

/-- No opening begins with another one. -/
theorem Kind.eq_of_begins : ∀ k ∈ all, ∀ k' ∈ all,
    k.opening.toList <+: k'.opening.toList → k = k' := by
  decide +kernel

theorem Kind.eq_of_opening {k k' : Kind} {r r' : List Char}
    (h : k.opening.toList ++ r = k'.opening.toList ++ r') : k = k' := by
  have first : k.opening.toList <+: k'.opening.toList ++ r' := ⟨r, h⟩
  -- two beginnings of one text: the shorter one begins the longer one
  rcases List.prefix_or_prefix_of_prefix first (List.prefix_append _ r') with shorter | longer
  · exact eq_of_begins k k.mem_all k' k'.mem_all shorter
  · exact (eq_of_begins k' k'.mem_all k k.mem_all longer).symm

/-- What follows the opening of the text. -/
def DataType.continuation : DataType → String
  | .null | .bool | .num _ | .utf8 | .binary => ""
  | .list elem => elem.text ++ ">"
  | .fixedList size elem => toString size ++ (", item: " ++ (elem.text ++ ">"))
  | .struct fields => Field.memberTexts fields ++ ">"
  | .map key value sorted =>
    key.text ++ (", " ++ (value.text ++ ((if sorted then ", keys_sorted" else "") ++ ">")))
  | .dictionary index value ordered =>
    value.text ++ (", indices=" ++ (index.name ++ (", ordered=" ++
      ((if ordered then "true" else "false") ++ ">"))))

theorem DataType.text_eq (t : DataType) : t.text = t.kind.opening ++ t.continuation := by
  cases t with
  | null | bool | num | utf8 | binary => rw [continuation, String.append_empty]; rfl
  | list => rw [text_list, String.append_assoc]; rfl
  | fixedList => simp only [text_fixedList, String.append_assoc]; rfl
  | struct => rw [text_struct, String.append_assoc]; rfl
  | map => simp only [text_map, String.append_assoc]; rfl
  | dictionary => simp only [text_dictionary, String.append_assoc]; rfl

/-- Texts that are alike are of one kind and go on alike. -/
theorem DataType.opened {s t : DataType} {r r' : List Char}
    (h : s.text.toList ++ r = t.text.toList ++ r') :
    s.kind = t.kind ∧ s.continuation.toList ++ r = t.continuation.toList ++ r' := by
  simp only [text_eq, String.toList_append, List.append_assoc] at h
  have kinds : s.kind = t.kind := Kind.eq_of_opening h
  exact ⟨kinds, List.append_cancel_left (kinds ▸ h)⟩

/-! ### Parts up to a mark -/

/-- What stands before the first separator is told from what stands behind it. -/
theorem before_separator_inj {mark : Char} {tail : List Char} (separator : String)
    {u v r r' : List Char} (begins : separator.toList = mark :: tail) (hu : mark ∉ u)
    (hv : mark ∉ v) (h : u ++ (separator.toList ++ r) = v ++ (separator.toList ++ r')) :
    u = v ∧ r = r' := by
  rw [begins] at h
  rcases List.append_eq_append_iff.1 h with ⟨_ | ⟨c, more⟩, rfl, rest⟩ | ⟨_ | ⟨c, more⟩, rfl, rest⟩
  · exact ⟨(List.append_nil u).symm, List.append_cancel_left rest⟩
  · exact absurd (by simp [(List.cons.inj rest).1]) hv
  · exact ⟨List.append_nil v, (List.append_cancel_left rest).symm⟩
  · exact absurd (by simp [(List.cons.inj rest).1]) hu

theorem comma_notMem_toString (n : Nat) : ',' ∉ (toString n).toList := by
  intro mem
  have digit : ','.isDigit :=
    Nat.isDigit_of_mem_toDigits (by decide) (by decide) (Nat.toList_repr ▸ mem)
  exact absurd digit (by decide)

theorem toString_nat_inj {m n : Nat} (h : (toString m).toList = (toString n).toList) : m = n := by
  have digits : Nat.toDigits 10 m = Nat.toDigits 10 n := by
    simpa only [Nat.toString_eq_repr, Nat.toList_repr] using h
  simpa using congrArg (Nat.ofDigitChars 10 · 0) digits

theorem IntType.comma_notMem_name (i : IntType) : ',' ∉ i.name.toList := by
  cases i <;> decide

theorem IntType.name_inj {i j : IntType} (h : i.name.toList = j.name.toList) : i = j := by
  revert h
  cases i <;> cases j <;> decide

section

variable {f : Field} {a b : Bool} {r r' : List Char}

theorem keysSorted_append_inj
    (h : (if a then ", keys_sorted" else "").toList ++ (">".toList ++ r) =
      (if b then ", keys_sorted" else "").toList ++ (">".toList ++ r')) : a = b ∧ r = r' := by
  cases a <;> cases b <;> simp_all

theorem truth_append_inj
    (h : (if a then "true" else "false").toList ++ (">".toList ++ r) =
      (if b then "true" else "false").toList ++ (">".toList ++ r')) : a = b ∧ r = r' := by
  cases a <;> cases b <;> simp_all

/-- A member does not begin like the end of a struct. -/
theorem Field.memberText_ne_end (hf : f.IsPlain) :
    f.memberText.toList ++ r ≠ ">".toList ++ r' := by
  intro h
  rw [memberText_eq, String.toList_append, String.toList_append, List.append_assoc,
    List.append_assoc] at h
  have free : '>' ∉ f.name.toList := hf '>' (by decide)
  cases name : f.name.toList with
  | nil => simp [name] at h
  | cons c rest =>
    have first : c = '>' := by
      rw [name, List.cons_append] at h
      exact (List.cons.inj h).1
    exact free (by simp [name, first])

end

/-! ### One text, one type -/

mutual

/-- The text of a type is told from whatever follows it, and it tells the bare type. -/
theorem DataType.text_append_inj : (s t : DataType) → s.Plain → t.Plain → {r r' : List Char} →
    s.text.toList ++ r = t.text.toList ++ r' → s.bare = t.bare ∧ r = r'
  | .null, t, _, _, _, _, h | .bool, t, _, _, _, _, h | .num _, t, _, _, _, _, h
  | .utf8, t, _, _, _, _, h | .binary, t, _, _, _, _, h => by
    obtain ⟨kinds, rest⟩ := DataType.opened h
    cases t <;> cases kinds
    exact ⟨rfl, rest⟩
  | .list a, t, hs, ht, r, r', h => by
    obtain ⟨kinds, rest⟩ := DataType.opened h
    cases t <;> cases kinds
    case list b =>
    simp only [DataType.continuation, String.toList_append, List.append_assoc] at rest
    obtain ⟨elems, rest⟩ := DataType.text_append_inj a b (hs.part (.head _)) (ht.part (.head _)) rest
    exact ⟨congrArg DataType.list elems, List.append_cancel_left rest⟩
  | .fixedList m a, t, hs, ht, r, r', h => by
    obtain ⟨kinds, rest⟩ := DataType.opened h
    cases t <;> cases kinds
    case fixedList n b =>
    simp only [DataType.continuation, String.toList_append, List.append_assoc] at rest
    obtain ⟨sizes, rest⟩ := before_separator_inj ", item: " rfl (comma_notMem_toString m)
      (comma_notMem_toString n) rest
    obtain ⟨elems, rest⟩ :=
      DataType.text_append_inj a b (hs.part (.head _)) (ht.part (.head _)) rest
    exact ⟨congrArg₂ DataType.fixedList (toString_nat_inj sizes) elems, List.append_cancel_left rest⟩
  | .struct fs, t, hs, ht, r, r', h => by
    obtain ⟨kinds, rest⟩ := DataType.opened h
    cases t <;> cases kinds
    case struct gs =>
    simp only [DataType.continuation, String.toList_append, List.append_assoc] at rest
    obtain ⟨members, rest⟩ := Field.memberTexts_append_inj fs gs hs.fields ht.fields rest
    exact ⟨congrArg DataType.struct members, rest⟩
  | .map k v sorted, t, hs, ht, r, r', h => by
    obtain ⟨kinds, rest⟩ := DataType.opened h
    cases t <;> cases kinds
    case map k' v' sorted' =>
    simp only [DataType.continuation, String.toList_append, List.append_assoc] at rest
    obtain ⟨keys, rest⟩ :=
      DataType.text_append_inj k k' (hs.part (.head _)) (ht.part (.head _)) rest
    obtain ⟨values, rest⟩ := DataType.text_append_inj v v' (hs.part (.tail _ (.head _)))
      (ht.part (.tail _ (.head _))) (List.append_cancel_left rest)
    obtain ⟨flags, rest⟩ := keysSorted_append_inj rest
    exact ⟨by rw [DataType.bare, DataType.bare, keys, values, flags], rest⟩
  | .dictionary i v ordered, t, hs, ht, r, r', h => by
    obtain ⟨kinds, rest⟩ := DataType.opened h
    cases t <;> cases kinds
    case dictionary i' v' ordered' =>
    simp only [DataType.continuation, String.toList_append, List.append_assoc] at rest
    obtain ⟨values, rest⟩ :=
      DataType.text_append_inj v v' (hs.part (.head _)) (ht.part (.head _)) rest
    obtain ⟨indices, rest⟩ := before_separator_inj ", ordered=" rfl i.comma_notMem_name
      i'.comma_notMem_name (List.append_cancel_left rest)
    obtain ⟨flags, rest⟩ := truth_append_inj rest
    exact ⟨by rw [DataType.bare, DataType.bare, IntType.name_inj indices, values, flags], rest⟩

theorem Field.memberText_append_inj : (f g : Field) → f.IsPlain ∧ f.type.Plain →
    g.IsPlain ∧ g.type.Plain → {r r' : List Char} →
    f.memberText.toList ++ r = g.memberText.toList ++ r' → f.bare = g.bare ∧ r = r'
  | ⟨name, type, _, _⟩, ⟨name', type', _, _⟩, hf, hg, r, r', h => by
    simp only [Field.memberText_eq, String.toList_append, List.append_assoc] at h
    obtain ⟨names, rest⟩ :=
      before_separator_inj ": " rfl (hf.1 ':' (by decide)) (hg.1 ':' (by decide)) h
    obtain ⟨types, rest⟩ := DataType.text_append_inj type type' hf.2 hg.2 rest
    obtain rfl : name = name' := String.toList_inj.1 names
    exact ⟨by rw [Field.bare, Field.bare, types], rest⟩

theorem Field.moreTexts_append_inj : (fs gs : List Field) →
    (∀ f ∈ fs, f.IsPlain ∧ f.type.Plain) → (∀ g ∈ gs, g.IsPlain ∧ g.type.Plain) →
    {r r' : List Char} →
    (Field.moreTexts fs).toList ++ (">".toList ++ r) = (Field.moreTexts gs).toList ++ (">".toList ++ r') →
    Field.bareAll fs = Field.bareAll gs ∧ r = r'
  | [], [], _, _, _, _, h => ⟨rfl, List.append_cancel_left (List.append_cancel_left h)⟩
  | [], _ :: _, _, _, _, _, h => by simp [Field.moreTexts] at h
  | _ :: _, [], _, _, _, _, h => by simp [Field.moreTexts] at h
  | f :: fs, g :: gs, hf, hg, r, r', h => by
    simp only [Field.moreTexts, String.toList_append, List.append_assoc] at h
    obtain ⟨first, rest⟩ := Field.memberText_append_inj f g (hf f (.head _)) (hg g (.head _))
      (List.append_cancel_left h)
    obtain ⟨more, rest⟩ := Field.moreTexts_append_inj fs gs (fun f mem => hf f (.tail _ mem))
      (fun g mem => hg g (.tail _ mem)) rest
    exact ⟨by rw [Field.bareAll, Field.bareAll, first, more], rest⟩

theorem Field.memberTexts_append_inj : (fs gs : List Field) →
    (∀ f ∈ fs, f.IsPlain ∧ f.type.Plain) → (∀ g ∈ gs, g.IsPlain ∧ g.type.Plain) →
    {r r' : List Char} →
    (Field.memberTexts fs).toList ++ (">".toList ++ r) = (Field.memberTexts gs).toList ++ (">".toList ++ r') →
    Field.bareAll fs = Field.bareAll gs ∧ r = r'
  | [], [], _, _, _, _, h => ⟨rfl, List.append_cancel_left (List.append_cancel_left h)⟩
  | [], g :: gs, _, hg, r, r', h => by
    rw [Field.memberTexts_cons, String.toList_append, List.append_assoc] at h
    exact absurd h.symm (Field.memberText_ne_end (hg g (.head _)).1)
  | f :: fs, [], hf, _, r, r', h => by
    rw [Field.memberTexts_cons, String.toList_append, List.append_assoc] at h
    exact absurd h (Field.memberText_ne_end (hf f (.head _)).1)
  | f :: fs, g :: gs, hf, hg, r, r', h => by
    simp only [Field.memberTexts_cons, String.toList_append, List.append_assoc] at h
    obtain ⟨first, rest⟩ :=
      Field.memberText_append_inj f g (hf f (.head _)) (hg g (.head _)) h
    obtain ⟨more, rest⟩ := Field.moreTexts_append_inj fs gs (fun f mem => hf f (.tail _ mem))
      (fun g mem => hg g (.tail _ mem)) rest
    exact ⟨by rw [Field.bareAll, Field.bareAll, first, more], rest⟩

end

namespace DataType

variable {s t : DataType}

/-- Two types have the same text exactly when they differ in nothing but the nullability and the
metadata of struct fields. -/
theorem text_eq_iff_bare_eq (hs : s.Plain) (ht : t.Plain) : s.text = t.text ↔ s.bare = t.bare := by
  constructor
  · intro texts
    have appended : s.text.toList ++ [] = t.text.toList ++ [] := by rw [texts]
    exact (text_append_inj s t hs ht appended).1
  · intro bares
    rw [← text_bare s, bares, text_bare t]

/-- Locations by name: a pair of coded texts and a struct without fields. -/
def located (nullable : Bool) (metadata : List (String × String)) (sorted : Bool) : DataType :=
  .map .utf8
    (.struct [⟨"at", .fixedList 2 (.dictionary .int8 .utf8 true), nullable, metadata⟩,
      ⟨"", .struct [], true, []⟩])
    sorted

theorem plain_located (nullable : Bool) (metadata : List (String × String)) (sorted : Bool) :
    (located nullable metadata sorted).Plain := by
  simp [located, plain_iff (t := map _ _ _), plain_iff (t := struct _), plain_iff (t := utf8),
    plain_iff (t := fixedList _ _), plain_iff (t := dictionary _ _ _), NamesPlain, parts,
    Field.IsPlain]

theorem located_texts :
    (located true [] true).text = (located false [("unit", "m")] true).text ∧
      (located true [] true).text ≠ (located true [] false).text := by
  constructor
  · exact (text_eq_iff_bare_eq (plain_located _ _ _) (plain_located _ _ _)).2 rfl
  · intro texts
    have bares := (text_eq_iff_bare_eq (plain_located _ _ _) (plain_located _ _ _)).1 texts
    exact absurd bares (by decide)

-- With marks in the names the text has two readings.
example :
    (struct [⟨"a: int8, b", .bool, true, []⟩]).text =
      (struct [⟨"a", .num (.int .int8), true, []⟩, ⟨"b", .bool, true, []⟩]).text := by
  decide

end DataType

end Columnar
