import SignedHttp.Digest
import SignedHttp.Message.Basic
import SignedHttp.Signature.Components
import SignedHttp.Signature.Params
import SignedHttp.Url

/-!
# Canonical Messages

The exact bytes that a signature is computed over: one line for each covered
component, and a last line with the covered components and the parameters, joined
by line feeds. Quotes in a value are escaped; the last line is not, because it has
to equal what the `Signature-Input` header says.

A canonical message is made in two ways. The signer makes it from its components,
in a fixed order, and leaves out headers that the message does not have
(`ofComponents`). The verifier makes it again from what was sent: the covered
components in the order they were listed, each of which has to be there
(`ofCovered`). Both give a list of name and value for each line, and both are
finished in the same way (`CanonicalMessage.ofLines`), so they give the same bytes
when they agree on that list.

## Main definitions

* `CanonicalMessage`: Lines, covered components, and the text of the parameters.
* `componentLine`: The line of a component.
* `targetUri`: The value of `@target-uri`.
* `CanonicalMessage.ofComponents`: The message that the signer signs.
* `CanonicalMessage.ofCovered`: The message that must have been signed.
-/

namespace SignedHttp

/-- The value with a backslash before every quote. -/
def escapeQuotes (value : Bytes) : Bytes :=
  value.flatMap fun b => if b = Ascii.quote then [Ascii.backslash, b] else [b]

/-- The line of a component: its quoted name, a colon, a space and its value. -/
def componentLine (name value : Bytes) : Bytes :=
  Bytes.quoted name ++ (": " ++ escapeQuotes value)

/-- What `@target-uri` covers of a URL. -/
def targetUri (url : Bytes) : Except SigningError Bytes :=
  match Url.parse? url with
  | some u => .ok u.target
  | none => .error (.invalidUrl url)

/-- A canonical message. -/
structure CanonicalMessage where
  lines : List Bytes
  covered : List Bytes
  signatureParams : Bytes
  deriving DecidableEq

namespace CanonicalMessage

/-- The bytes that are signed. -/
def text (c : CanonicalMessage) : Bytes := Bytes.join [Ascii.lineFeed] c.lines

/-- The canonical message of named values and parameters. -/
def ofLines (values : List (Bytes × Bytes)) (p : Params) : CanonicalMessage :=
  let covered := values.map (·.1)
  let params := p.render covered
  { lines := values.map (fun v => componentLine v.1 v.2)
      ++ [Bytes.quoted "@signature-params" ++ (": " ++ params)]
    covered
    signatureParams := params }

/-- The configured headers that the message has; a missing one is an error if `strict`. -/
def headerValues (m : Message) (strict : Bool) :
    List Bytes → Except SigningError (List (Bytes × Bytes))
  | [] => .ok []
  | name :: names =>
    match m.header name with
    | some value => (headerValues m strict names).map ((name, value) :: ·)
    | none => if strict then .error (.missingHeader name) else headerValues m strict names

/-- The named values of the components: method, target, headers, digest. -/
def componentValues (m : Message) (c : Components) (digest : Option ContentDigest)
    (strict : Bool) : Except SigningError (List (Bytes × Bytes)) := do
  let target ← if c.targetUri then (targetUri m.url).map fun t => [(("@target-uri" : Bytes), t)]
    else .ok []
  let headers ← headerValues m strict c.headers
  let method : List (Bytes × Bytes) := if c.method then [("@method", m.method.text)] else []
  let digest : List (Bytes × Bytes) :=
    if c.contentDigest then
      [("content-digest", (digest.getD (.ofBody .sha256 m.body)).headerValue)]
    else []
  return method ++ target ++ headers ++ digest

/-- The canonical message of chosen components; without a digest that of the body is computed. -/
def ofComponents (m : Message) (c : Components) (p : Params) (digest : Option ContentDigest)
    (strict : Bool) : Except SigningError CanonicalMessage :=
  (componentValues m c digest strict).map (ofLines · p)

/-- The value of a covered component; a digest is taken as it was sent. -/
def coveredValue (m : Message) (sentDigest : Option Bytes) (name : Bytes) :
    Except VerificationError Bytes :=
  if name = "@method" then .ok m.method.text
  else if name = "@target-uri" then
    match Url.parse? m.url with
    | some u => .ok u.target
    | none => .error (.uncoveredTarget name)
  else if name = "content-digest" then
    match sentDigest <|> m.header name with
    | some value => .ok value
    | none => .error (.missingDigest name)
  else if name.head? = some Ascii.atSign then .error (.unsupportedComponent name)
  else
    match m.header name with
    | some value => .ok value
    | none => .error (.missingCoveredHeader name)

/-- The values of covered components, in order. -/
def coveredValues (m : Message) (sentDigest : Option Bytes) :
    List Bytes → Except VerificationError (List (Bytes × Bytes))
  | [] => .ok []
  | name :: names =>
    match coveredValue m sentDigest name with
    | .error e => .error e
    | .ok value => (coveredValues m sentDigest names).map ((name, value) :: ·)

/-- The canonical message of covered components, from what was sent. -/
def ofCovered (m : Message) (covered : List Bytes) (p : Params) (sentDigest : Option Bytes) :
    Except VerificationError CanonicalMessage :=
  (coveredValues m sentDigest covered).map (ofLines · p)

end CanonicalMessage

end SignedHttp
