import SignedHttp.Text.Bytes

/-!
# URLs

An absolute `http` or `https` URL, taken apart into the parts a signature needs.
The grammar is

```text
scheme "://" [userinfo "@"] host [":" port] [path] ["?" query] ["#" fragment]
```

where the host is a name or a bracketed address, the port has one to five digits,
and a path begins with a slash. Letters are ASCII and of either case, and the
parts keep the case they were written in. Anything else is no URL; nothing is
repaired.

Each part ends where a byte that it cannot hold begins, so the parts are read from
left to right without looking back: `span` takes the bytes of a class, and what is
left decides what comes next. The user information is dropped.

The target of a request (`Url.target`) is the path and the query; an empty path
stands for a slash.

## Main definitions

* `Url`: The parts of a URL.
* `Url.parse?`: The parts of a text, if it is a URL.
* `Url.target`: What `@target-uri` covers.
* `Url.hostAndPort`: The authority without user information.
-/

namespace SignedHttp

/-- An absolute URL; port, path, query and fragment may be empty. -/
structure Url where
  scheme : Bytes
  host : Bytes
  port : Bytes := []
  path : Bytes := []
  query : Bytes := []
  fragment : Bytes := []
  deriving DecidableEq

namespace Url

/-- The path, a slash if it is empty, and the query after a question mark if there is one. -/
def target (u : Url) : Bytes :=
  u.path.orElse "/" ++ (if u.query.isEmpty then [] else Ascii.question :: u.query)

/-- The host, and the port after a colon if there is one. -/
def hostAndPort (u : Url) : Bytes :=
  if u.port.isEmpty then u.host else u.host ++ Ascii.colon :: u.port

/-- A byte of a host name. -/
def isNameByte (b : UInt8) : Bool :=
  Ascii.isLetter b || Ascii.isDigit b
    || b == Ascii.minus || b == Ascii.dot || b == Ascii.underscore

/-- A byte of a bracketed address. -/
def isAddressByte (b : UInt8) : Bool := Ascii.isHexDigit b || b == Ascii.colon

/-- A byte that ends the user information. -/
def endsUserInfo (b : UInt8) : Bool :=
  b == Ascii.atSign || b == Ascii.slash || b == Ascii.question || b == Ascii.hash

/-- The longest beginning of a text whose bytes are in a class, and the rest. -/
def span (p : UInt8 → Bool) (s : Bytes) : Bytes × Bytes := (s.takeWhile p, s.dropWhile p)

/-- The scheme and what follows `://`. -/
def scheme? (s : Bytes) : Option (Bytes × Bytes) :=
  let (name, rest) := span Ascii.isLetter s
  if Bytes.lower name = "http" ∨ Bytes.lower name = "https" then
    (Bytes.after? "://" rest).map fun r => (name, r)
  else none

/-- What follows the user information, if there is any. -/
def dropUserInfo (s : Bytes) : Bytes :=
  -- After a slash, a question mark or a hash an `@` separates nothing any more.
  match s.dropWhile (!endsUserInfo ·) with
  | b :: rest => if b = Ascii.atSign then rest else s
  | [] => s

/-- The host and what follows it. -/
def host? (s : Bytes) : Option (Bytes × Bytes) :=
  match s with
  | [] => none
  | b :: rest =>
    if b = Ascii.openBracket then
      let (address, after) := span isAddressByte rest
      match after with
      | [] => none
      | c :: after =>
        if address.isEmpty ∨ c ≠ Ascii.closeBracket then none
        else some (b :: (address ++ [c]), after)
    else
      let (name, after) := span isNameByte s
      if name.isEmpty then none else some (name, after)

/-- The port, if a colon announces one, and what follows it. -/
def port? (s : Bytes) : Option (Bytes × Bytes) :=
  match s with
  | [] => some ([], [])
  | b :: rest =>
    if b = Ascii.colon then
      let (digits, after) := span Ascii.isDigit rest
      if digits.isEmpty ∨ 5 < digits.length then none else some (digits, after)
    else some ([], s)

/-- The part that `mark` announces, without the mark, up to a byte of `ends`, and the rest. -/
def part (mark : UInt8) (ends : List UInt8) (s : Bytes) : Bytes × Bytes :=
  match s with
  | [] => ([], [])
  | b :: rest => if b = mark then span (!ends.contains ·) rest else ([], s)

/-- The path with its slash, and the rest. -/
def pathPart (s : Bytes) : Bytes × Bytes :=
  match s with
  | [] => ([], [])
  | b :: _ =>
    if b = Ascii.slash then span (fun b => b ≠ Ascii.question ∧ b ≠ Ascii.hash) s else ([], s)

/-- The parts of a URL. -/
def parse? (s : Bytes) : Option Url :=
  match scheme? s with
  | none => none
  | some (scheme, s) =>
    match host? (dropUserInfo s) with
    | none => none
    | some (host, s) =>
      match port? s with
      | none => none
      | some (port, s) =>
        -- From here on every part may be missing, and only what is left over is a fault.
        let (path, s) := pathPart s
        let (query, s) := part Ascii.question [Ascii.hash] s
        let (fragment, s) := part Ascii.hash [] s
        if s.isEmpty then some ⟨scheme, host, port, path, query, fragment⟩ else none

end Url

end SignedHttp
