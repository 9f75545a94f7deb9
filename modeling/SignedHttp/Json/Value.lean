import SignedHttp.Text.Binary64
import SignedHttp.Text.Table

/-!
# JSON Values

The values of a configuration source. Strings are bytes. Numbers that are written
without fraction and exponent, and are not too large for a machine word, are
integers; all others are floating-point numbers. The members of an object are listed
in the order of their keys, each key once.

A value is read as a typed one by the functions `asText?`, `asFlag?` and so on. An
integer is read from any number, and from nothing else.

## Main definitions

* `Json`: A value.
* `Json.member?`: The member of an object.
* `Json.asInt64?`, `Json.asText?`, `Json.asFlag?`, `Json.asTexts?`: Typed readings.
-/

namespace SignedHttp

/-- A JSON value. -/
inductive Json
  | null
  | flag (value : Bool)
  | integer (value : Int)
  | real (value : Binary64)
  | text (value : Bytes)
  | array (items : List Json)
  | object (members : List (Bytes × Json))

namespace Json

/-- The object of members in the order of writing; of several with one key the last one stands. -/
def ofMembers (members : List (Bytes × Json)) : Json := .object (Table.ofList members).entries

/-- The member of an object under a key. -/
def member? (key : Bytes) : Json → Option Json
  | .object members => members.lookup key
  | _ => none

/-- An integer as a signed machine word: one that is too large wraps around. -/
def wrapInt64 (n : Int) : Int :=
  if IntKind.int64.greatest < n then n - (IntKind.uint64.greatest + 1) else n

/-- The integer that a number is read as. A fraction is dropped, and a floating-point number
beyond the range is read as the least integer. -/
def asInt64? : Json → Option Int
  | .integer n => some (wrapInt64 n)
  | .real x => some (if IntKind.int64.contains x.truncate then x.truncate else IntKind.int64.least)
  | _ => none

def asText? : Json → Option Bytes
  | .text s => some s
  | _ => none

def asFlag? : Json → Option Bool
  | .flag b => some b
  | _ => none

/-- The texts of an array of texts. -/
def asTexts? : Json → Option (List Bytes)
  | .array items => items.mapM asText?
  | _ => none

end Json

end SignedHttp
