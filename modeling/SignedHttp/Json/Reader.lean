import SignedHttp.Json.Value
import SignedHttp.Text.Hex
import SignedHttp.Text.Utf8

/-!
# Reading JSON

A text is read strictly: what the grammar of RFC 8259 does not give is no value. A
byte order mark may come first, and the text has to be UTF-8.

Each reader takes a text and gives what it has read and the rest. The readers of
values, of items and of members call one another, and `fuel` bounds the depth of these
calls. There are at most two calls for each byte, so with twice the length of the text the
fuel is always more than what is left to read, and running out of it decides nothing.

## Main definitions

* `Json.parse?`: The value of a text.
* `Json.readValue`: The value that a text begins with.
* `Json.readString`, `Json.readNumber`: Strings and numbers.
-/

namespace SignedHttp

namespace Json

/-- A space between two tokens. -/
def isSpace (b : UInt8) : Bool :=
  b == Ascii.space || b == Ascii.tab || b == Ascii.lineFeed || b == Ascii.carriageReturn

/-- The text without the spaces it begins with. -/
def skipSpace (s : Bytes) : Bytes := s.dropWhile isSpace

/-- The number of four hexadecimal digits, and the rest. -/
def readUnit (s : Bytes) : Option (Nat × Bytes) :=
  if s.length < 4 then none
  else
    match Hex.decode (s.take 4) with
    | some [high, low] => some (256 * high.toNat + low.toNat, s.drop 4)
    | _ => none

/-- The bytes of the character after `\u`, which may take a second such escape, and the rest. -/
def readEscapedCode (s : Bytes) : Option (Bytes × Bytes) :=
  match readUnit s with
  | none => none
  | some (unit, rest) =>
    -- Outside of the surrogates a unit is a character, and a low surrogate cannot come first.
    if unit < 0xd800 ∨ 0xdfff < unit then some (Utf8.encode unit, rest)
    else if 0xdbff < unit then none
    else
      match (Bytes.after? "\\u" rest).bind readUnit with
      | none => none
      | some (second, rest) =>
        if second < 0xdc00 ∨ 0xdfff < second then none
        else some (Utf8.encode (0x10000 + 1024 * (unit - 0xd800) + (second - 0xdc00)), rest)

/-- The byte that an escape stands for, if it is not a numbered one. -/
def escapedByte? (b : UInt8) : Option UInt8 :=
  if b = Ascii.quote ∨ b = Ascii.backslash ∨ b = Ascii.slash then some b
  else if b = 0x62 then some 0x08
  else if b = 0x66 then some Ascii.formFeed
  else if b = 0x6e then some Ascii.lineFeed
  else if b = 0x72 then some Ascii.carriageReturn
  else if b = 0x74 then some Ascii.tab
  else none

/-- What the text after a backslash stands for, and the rest. -/
def readEscape : Bytes → Option (Bytes × Bytes)
  | [] => none
  | b :: rest =>
    if b = 0x75 then readEscapedCode rest else (escapedByte? b).map fun c => ([c], rest)

/-- The string whose opening quote has been read, and the rest. -/
def readString : Nat → Bytes → Option (Bytes × Bytes)
  | 0, _ => none
  | _ + 1, [] => none
  | fuel + 1, b :: rest =>
    if b = Ascii.quote then some ([], rest)
    else if b < 0x20 then none
    else
      match if b = Ascii.backslash then readEscape rest else some ([b], rest) with
      | none => none
      | some (part, rest) => (readString fuel rest).map fun r => (part ++ r.1, r.2)

/-- The digits that a text begins with, at least one, and the rest. -/
def readDigits (s : Bytes) : Option (Bytes × Bytes) :=
  let digits := s.takeWhile Ascii.isDigit
  if digits.isEmpty then none else some (digits, s.dropWhile Ascii.isDigit)

/-- The digits before the point: a lone zero, or digits that do not begin with zero. -/
def readWhole (s : Bytes) : Option (Bytes × Bytes) :=
  match s with
  | [] => none
  | b :: rest => if b = Ascii.zero then some ([b], rest) else readDigits s

/-- The digits after the point, if there is one. -/
def readFraction (s : Bytes) : Option (Option Bytes × Bytes) :=
  match s with
  | [] => some (none, [])
  | b :: rest =>
    if b = Ascii.dot then (readDigits rest).map fun r => (some r.1, r.2) else some (none, s)

/-- The exponent, if there is one. -/
def readExponent (s : Bytes) : Option (Option Int × Bytes) :=
  match s with
  | [] => some (none, [])
  | b :: rest =>
    if b = 0x65 ∨ b = 0x45 then
      let (negative, rest) := IntKind.int64.sign rest
      (readDigits rest).map fun r =>
        let magnitude : Int := Decimal.value r.1
        (some (if negative then -magnitude else magnitude), r.2)
    else some (none, s)

/-- The value of a number that is written in these parts. -/
def numberOf (negative : Bool) (whole : Bytes) (fraction : Option Bytes)
    (exponent : Option Int) : Json :=
  match fraction, exponent with
  | none, none =>
    let magnitude : Int := Decimal.value whole
    let value := if negative then -magnitude else magnitude
    if IntKind.int64.least ≤ value ∧ value ≤ IntKind.uint64.greatest then .integer value
    else .real (.ofDecimal negative (Decimal.value whole) 0)
  | _, _ =>
    -- Each digit after the point lowers the power of ten of the last digit by one.
    let part := fraction.getD []
    .real (.ofDecimal negative (Decimal.value (whole ++ part)) (exponent.getD 0 - part.length))

/-- The number that a text begins with, and the rest. -/
def readNumber (s : Bytes) : Option (Json × Bytes) := do
  let negative := s.head? == some Ascii.minus
  let (whole, s) ← readWhole (if negative then s.tail else s)
  let (fraction, s) ← readFraction s
  let (exponent, s) ← readExponent s
  return (numberOf negative whole fraction exponent, s)

/-- The value that one of the three words stands for, and the rest. -/
def readWord (s : Bytes) : Option (Json × Bytes) :=
  ([("null", .null), ("true", .flag true), ("false", .flag false)] : List (Bytes × Json)).findSome?
    fun (word, value) => (Bytes.after? word s).map fun rest => (value, rest)

mutual

/-- The value that a text begins with, and the rest. -/
def readValue : Nat → Bytes → Option (Json × Bytes)
  | 0, _ => none
  | _ + 1, [] => none
  | fuel + 1, b :: rest =>
    if b = Ascii.openBrace then
      (readMembers fuel true (skipSpace rest)).map fun r => (ofMembers r.1, r.2)
    else if b = Ascii.openBracket then
      (readItems fuel true (skipSpace rest)).map fun r => (.array r.1, r.2)
    else if b = Ascii.quote then
      (readString fuel rest).map fun r => (.text r.1, r.2)
    else if b = Ascii.minus ∨ Ascii.isDigit b then readNumber (b :: rest)
    else readWord (b :: rest)

/-- The items up to the closing bracket, and the rest; `first` if there was none before. -/
def readItems : Nat → Bool → Bytes → Option (List Json × Bytes)
  | 0, _, _ => none
  | _ + 1, _, [] => none
  | fuel + 1, first, b :: rest =>
    if b = Ascii.closeBracket then some ([], rest)
    else
      -- After a comma there has to be a value, so a comma before the bracket is refused.
      match if first then some (b :: rest) else Bytes.after? "," (b :: rest) with
      | none => none
      | some s =>
        match readValue fuel (skipSpace s) with
        | none => none
        | some (item, rest) =>
          (readItems fuel false (skipSpace rest)).map fun r => (item :: r.1, r.2)

/-- The members up to the closing brace, and the rest; `first` if there was none before. -/
def readMembers : Nat → Bool → Bytes → Option (List (Bytes × Json) × Bytes)
  | 0, _, _ => none
  | _ + 1, _, [] => none
  | fuel + 1, first, b :: rest =>
    if b = Ascii.closeBrace then some ([], rest)
    else
      match if first then some (b :: rest) else Bytes.after? "," (b :: rest) with
      | none => none
      | some s =>
        match (Bytes.after? "\"" (skipSpace s)).bind (readString fuel) with
        | none => none
        | some (key, rest) =>
          match Bytes.after? ":" (skipSpace rest) with
          | none => none
          | some rest =>
            match readValue fuel (skipSpace rest) with
            | none => none
            | some (value, rest) =>
              (readMembers fuel false (skipSpace rest)).map fun r => ((key, value) :: r.1, r.2)

end

/-- The text without the byte order mark it begins with. -/
def dropMark (s : Bytes) : Bytes := (Bytes.after? [0xef, 0xbb, 0xbf] s).getD s

/-- The value of a text, if it is one and nothing more. -/
def parse? (s : Bytes) : Option Json :=
  if Utf8.isValid s then
    match readValue (2 * s.length + 2) (skipSpace (dropMark s)) with
    | some (value, rest) => if (skipSpace rest).isEmpty then some value else none
    | none => none
  else none

end Json

end SignedHttp
