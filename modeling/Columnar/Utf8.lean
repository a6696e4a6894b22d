/-!
# Faults in UTF-8 text

`Utf8.fault? bytes` is `none` when `bytes` is well-formed UTF-8.  Otherwise it tells where the first
faulty character begins and how many bytes form its longest well-formed beginning, or that the
text ends inside a character.
-/

namespace Columnar.Utf8

/-- The first fault of a text: the position where the faulty character begins, and the number of
bytes that cannot be continued to a character, or `none` if the text ends too early. -/
structure Fault where
  start : Nat
  length? : Option Nat
  deriving DecidableEq, Repr

/-- A closed range of byte values. -/
structure ByteRange where
  first : UInt8
  last : UInt8
  deriving DecidableEq, Repr

def ByteRange.contains (r : ByteRange) (b : UInt8) : Bool := r.first ≤ b && b ≤ r.last

/-- Any byte after the second of a character. -/
def continuation : ByteRange := ⟨0x80, 0xBF⟩

/-- The ranges that the bytes after a leading byte lie in, one after the other.  A leading byte
whose second byte is restricted avoids overlong forms, surrogates and numbers above `0x10FFFF`. -/
def following? (lead : UInt8) : Option (List ByteRange) :=
  if lead < 0x80 then some []
  else if lead < 0xC2 then none
  else if lead < 0xE0 then some [continuation]
  else if lead = 0xE0 then some [⟨0xA0, 0xBF⟩, continuation]
  else if lead = 0xED then some [⟨0x80, 0x9F⟩, continuation]
  else if lead < 0xF0 then some [continuation, continuation]
  else if lead = 0xF0 then some [⟨0x90, 0xBF⟩, continuation, continuation]
  else if lead < 0xF4 then some [continuation, continuation, continuation]
  else if lead = 0xF4 then some [⟨0x80, 0x8F⟩, continuation, continuation]
  else none

/-- Reads on at position `i`, inside the character that began at `start` and expects `pending`. -/
def scan (start i : Nat) (pending : List ByteRange) : List UInt8 → Option Fault
  | [] => if pending.isEmpty then none else some ⟨start, none⟩
  | b :: rest =>
    match pending with
    | [] =>
      match following? b with
      | none => some ⟨i, some 1⟩
      | some next => scan i (i + 1) next rest
    | range :: later =>
      if range.contains b then scan start (i + 1) later rest else some ⟨start, some (i - start)⟩

/-- The first fault of a text, if it has one. -/
def fault? (bytes : List UInt8) : Option Fault := scan 0 0 [] bytes

/-- The fault in words. -/
def Fault.message (f : Fault) : String :=
  let start := f.start
  match f.length? with
  | some length => s!"invalid utf-8 sequence of {length} bytes from index {start}"
  | none => s!"incomplete utf-8 byte sequence from index {start}"

end Columnar.Utf8
