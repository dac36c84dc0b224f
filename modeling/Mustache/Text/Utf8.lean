/-!
# Mustache — bytes as text

Files hold bytes. They are a text when they are well-formed UTF-8;
`decode?` reads them then, and `decodeLossy` reads any bytes, putting the
replacement character for each part that is none: for the longest start
of a character that breaks off, or else for a single byte.
-/

namespace Mustache

namespace Text

/-- The bytes of a text in UTF-8. -/
def bytesOf (text : String) : List UInt8 := text.toUTF8.toList

/-- What a leading byte announces: the bits it contributes, how many bytes
follow, and between which bounds the first of these lies. -/
structure Lead where
  bits : Nat
  following : Nat
  low : Nat
  high : Nat

/-- The announcement of a leading byte, if it can lead a character. -/
def lead? (b : Nat) : Option Lead :=
  if b < 0x80 then some ⟨b, 0, 0x80, 0xBF⟩
  else if b < 0xC2 then none
  else if b < 0xE0 then some ⟨b - 0xC0, 1, 0x80, 0xBF⟩
  else if b = 0xE0 then some ⟨0, 2, 0xA0, 0xBF⟩
  else if b = 0xED then some ⟨0xD, 2, 0x80, 0x9F⟩
  else if b < 0xF0 then some ⟨b - 0xE0, 2, 0x80, 0xBF⟩
  else if b = 0xF0 then some ⟨0, 3, 0x90, 0xBF⟩
  else if b < 0xF4 then some ⟨b - 0xF0, 3, 0x80, 0xBF⟩
  else if b = 0xF4 then some ⟨4, 3, 0x80, 0x8F⟩
  else none

/-- Read the bytes that follow a leading byte. On the right, the number of
them that could still belong to a character before it broke off. -/
def following : (count low high bits taken : Nat) → List UInt8 → Except Nat Nat
  | 0, _, _, bits, _, _ => .ok bits
  | _ + 1, _, _, _, taken, [] => .error taken
  | count + 1, low, high, bits, taken, b :: r =>
    if low ≤ b.toNat ∧ b.toNat ≤ high then
      following count 0x80 0xBF (bits * 64 + (b.toNat - 0x80)) (taken + 1) r
    else .error taken

/-- The first character of some bytes and how many of them it takes; or
how many bytes stand in its place. -/
def firstChar (b : UInt8) (r : List UInt8) : Except Nat (Char × Nat) :=
  match lead? b.toNat with
  | none => .error 1
  | some lead =>
    match following lead.following lead.low lead.high lead.bits 0 r with
    | .ok bits => .ok (Char.ofNat bits, 1 + lead.following)
    | .error taken => .error (1 + taken)

/-- The characters that bytes encode, with `broken` for each part that
encodes none. -/
def decodeWith (broken : Option Char) : List UInt8 → Option (List Char)
  | [] => some []
  | b :: r =>
    match firstChar b r with
    | .ok (c, size) => (decodeWith broken (r.drop (size - 1))).map (c :: ·)
    | .error size =>
      match broken with
      | some c => (decodeWith broken (r.drop (size - 1))).map (c :: ·)
      | none => none
termination_by bytes => bytes.length
decreasing_by all_goals simp only [List.length_drop, List.length_cons]; omega

/-- The text that bytes encode, if they are well-formed. -/
def decode? (bytes : List UInt8) : Option String := (decodeWith none bytes).map String.ofList

/-- The text that bytes encode, with replacement characters for what is
not well-formed. -/
def decodeLossy (bytes : List UInt8) : String :=
  String.ofList ((decodeWith (some '\uFFFD') bytes).getD [])

end Text

end Mustache
