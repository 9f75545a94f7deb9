import SignedHttp.Text.Bytes

/-!
# UTF-8

Texts of the library are bytes without an encoding, but configuration sources have
to be UTF-8. A character is a first byte and up to three more, whose number and
range the first byte fixes. So a reader between two bytes owes a number of further
bytes, and the next one has to lie in a range (`Utf8.State`).

Only the shortest form of a character counts, and neither a surrogate nor a number
beyond `U+10FFFF` is one; this is what the narrower ranges after `E0`, `ED`, `F0` and
`F4` are for.

## Main definitions

* `Utf8.isValid`: Is a text a sequence of characters?
* `Utf8.encode`: The bytes of a character.
-/

namespace SignedHttp

namespace Utf8

/-- What a reader expects: how many bytes are owed, and the range of the next one. -/
structure State where
  owed : Nat := 0
  least : UInt8 := 0x80
  greatest : UInt8 := 0xbf
  deriving DecidableEq, Repr

/-- What is expected after the first byte of a character. -/
def start (b : UInt8) : Option State :=
  if b ≤ 0x7f then some {}
  else if 0xc2 ≤ b ∧ b ≤ 0xdf then some ⟨1, 0x80, 0xbf⟩
  else if b = 0xe0 then some ⟨2, 0xa0, 0xbf⟩
  else if b = 0xed then some ⟨2, 0x80, 0x9f⟩
  else if 0xe1 ≤ b ∧ b ≤ 0xef then some ⟨2, 0x80, 0xbf⟩
  else if b = 0xf0 then some ⟨3, 0x90, 0xbf⟩
  else if 0xf1 ≤ b ∧ b ≤ 0xf3 then some ⟨3, 0x80, 0xbf⟩
  else if b = 0xf4 then some ⟨3, 0x80, 0x8f⟩
  else none

/-- What is expected after one more byte. -/
def step (s : State) (b : UInt8) : Option State :=
  match s.owed with
  | 0 => start b
  | n + 1 => if s.least ≤ b ∧ b ≤ s.greatest then some ⟨n, 0x80, 0xbf⟩ else none

/-- Does a text fulfil an expectation and end between two characters? -/
def isValidFrom (s : State) : Bytes → Bool
  | [] => s.owed == 0
  | b :: rest =>
    match step s b with
    | some s => isValidFrom s rest
    | none => false

/-- Is a text a sequence of characters? -/
def isValid (s : Bytes) : Bool := isValidFrom {} s

/-- A byte that continues a character, with six bits of its number. -/
def tailByte (code : Nat) : UInt8 := 0x80 + (code % 64).toUInt8

/-- The bytes of the character of a number below `0x110000`. -/
def encode (code : Nat) : Bytes :=
  if code < 0x80 then [code.toUInt8]
  else if code < 0x800 then [0xc0 + (code / 64).toUInt8, tailByte code]
  else if code < 0x10000 then
    [0xe0 + (code / 4096).toUInt8, tailByte (code / 64), tailByte code]
  else
    [0xf0 + (code / 262144).toUInt8, tailByte (code / 4096), tailByte (code / 64),
      tailByte code]

end Utf8

end SignedHttp
