import SignedHttp.Text.Decimal
import SignedHttp.Text.Hex

/-!
# Signature Parameters

When a signature was made, under which key, by which algorithm, and the nonce that
makes it unique. The parameters are written after the list of covered components,

```text
("@method" "date");created=1700000000;keyid="k";alg="ed25519";nonce="…"
```

and the values are written as they are, without escapes. What may stand in a key
identifier is decided by `isValidKeyId`, not by the text form.

A nonce is a version 4 UUID, and time stamps lie between the years 2000 and 2100.

## Main definitions

* `Params`: The parameters.
* `Params.render`: The text of covered components and parameters.
* `uuid`: The version 4 UUID of sixteen random bytes.
* `isValidNonce`, `isValidTimestamp`, `isValidKeyId`, `isValidHeaderName`: The
  admissible values.
-/

namespace SignedHttp

/-- The only algorithm in use. -/
def signatureAlgorithm : Bytes := "ed25519"

/-- The label of a signature, if none is configured. -/
def defaultLabel : Bytes := "sig1"

/-- The first second of the year 2000. -/
def earliestTimestamp : Int := 946684800

/-- The first second of the year 2100. -/
def latestTimestamp : Int := 4102444800

/-- The parameters of a signature. -/
structure Params where
  created : Int := 0
  keyId : Bytes := []
  algorithm : Bytes := signatureAlgorithm
  nonce : Bytes := []
  deriving DecidableEq

/-- The names of components, quoted, in parentheses. -/
def componentList (covered : List Bytes) : Bytes :=
  "(" ++ (Bytes.join " " (covered.map Bytes.quoted) ++ ")")

/-- The text of the covered components and the parameters. -/
def Params.render (covered : List Bytes) (p : Params) : Bytes :=
  componentList covered ++ (";created=" ++ (Decimal.ofInt p.created ++
    (";keyid=" ++ (Bytes.quoted p.keyId ++ (";alg=" ++ (Bytes.quoted p.algorithm ++
      (";nonce=" ++ Bytes.quoted p.nonce)))))))

/-- Does a time stamp lie between the years 2000 and 2100? -/
def isValidTimestamp (created : Int) : Bool :=
  earliestTimestamp ≤ created && created ≤ latestTimestamp

/-- The greatest length of a key identifier. -/
def maxKeyIdLength : Nat := 256

/-- Is a key identifier neither empty nor too long, and free of whitespace? -/
def isValidKeyId (keyId : Bytes) : Bool :=
  !keyId.isEmpty && keyId.length ≤ maxKeyIdLength && !keyId.any Ascii.isWhitespace

/-- A byte of a header name. -/
def isTokenByte (b : UInt8) : Bool :=
  Ascii.isLetter b || Ascii.isDigit b || (Bytes.ofString "!#$%&'*+-.^_`|~").contains b

/-- Is a header name a token? -/
def isValidHeaderName (name : Bytes) : Bool := !name.isEmpty && name.all isTokenByte

namespace Uuid

/-- What may stand at a place of a version 4 UUID: hyphens, the version, the variant, digits. -/
def admits (place : Nat) (b : UInt8) : Bool :=
  if place = 8 ∨ place = 13 ∨ place = 18 ∨ place = 23 then b == Ascii.minus
  else if place = 14 then b == 0x34
  else if place = 19 then (Bytes.ofString "89abAB").contains b
  else Ascii.isHexDigit b

/-- Does each byte of a text stand at a place that admits it, counted from `place`? -/
def admitsFrom (place : Nat) : Bytes → Bool
  | [] => true
  | b :: s => admits place b && admitsFrom (place + 1) s

/-- Sixteen bytes with the version and the variant set. -/
def stamp (random : Bytes) : Bytes :=
  random.mapIdx fun i b =>
    if i = 6 then b &&& 0x0f ||| 0x40 else if i = 8 then b &&& 0x3f ||| 0x80 else b

/-- Thirty-two digits in five groups. -/
def group (digits : Bytes) : Bytes :=
  digits.take 8 ++ Ascii.minus :: ((digits.drop 8).take 4 ++ Ascii.minus ::
    ((digits.drop 12).take 4 ++ Ascii.minus :: ((digits.drop 16).take 4 ++ Ascii.minus ::
      digits.drop 20)))

end Uuid

/-- The version 4 UUID of sixteen random bytes. -/
def uuid (random : Bytes) : Bytes := Uuid.group (Hex.encode (Uuid.stamp random))

/-- Is a nonce a version 4 UUID, in either case? -/
def isValidNonce (nonce : Bytes) : Bool := nonce.length == 36 && Uuid.admitsFrom 0 nonce

end SignedHttp
