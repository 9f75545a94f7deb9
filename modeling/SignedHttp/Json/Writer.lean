import SignedHttp.Json.Value
import SignedHttp.Text.Hex

/-!
# Writing JSON

The compact text of a value: no spaces, members in the order of their keys, and
every byte of a string as it is, except quotes, backslashes and control characters.

## Main definitions

* `Json.write`: The text of a value.
-/

namespace SignedHttp

namespace Json

/-- A byte of a string, escaped if it has to be. -/
def escape (b : UInt8) : Bytes :=
  if b = Ascii.quote then "\\\""
  else if b = Ascii.backslash then "\\\\"
  else if b = 0x08 then "\\b"
  else if b = Ascii.formFeed then "\\f"
  else if b = Ascii.lineFeed then "\\n"
  else if b = Ascii.carriageReturn then "\\r"
  else if b = Ascii.tab then "\\t"
  else if b < 0x20 then "\\u00" ++ Hex.encode [b]
  else [b]

/-- A string in quotes. -/
def writeText (s : Bytes) : Bytes := Bytes.quoted (s.flatMap escape)

mutual

/-- The compact text of a value. -/
def write : Json → Bytes
  | .null => "null"
  | .flag value => if value then "true" else "false"
  | .integer value => Decimal.ofInt value
  | .real value => value.text
  | .text value => writeText value
  | .array items => "[" ++ (Bytes.join "," (writeItems items) ++ "]")
  | .object members => Ascii.openBrace :: (Bytes.join "," (writeMembers members)
      ++ [Ascii.closeBrace])

/-- The texts of items. -/
def writeItems : List Json → List Bytes
  | [] => []
  | item :: items => write item :: writeItems items

/-- The texts of members. -/
def writeMembers : List (Bytes × Json) → List Bytes
  | [] => []
  | (key, value) :: members => (writeText key ++ Ascii.colon :: write value) :: writeMembers members

end

end Json

end SignedHttp
