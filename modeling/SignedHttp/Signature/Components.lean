import SignedHttp.Text.Bytes

/-!
# Signature Components

Which facts of a message a signature is to cover: the method, the target, a list
of headers, and the digest of the body. Header names are kept in lower case. A
list that is given as a whole is kept as it is, repetitions included; a header
that is added to it is added only if it is not there.

## Main definitions

* `Components`: The facts to cover.
* `Components.setHeaders`, `Components.addHeader`: The changes to the headers.
* `Components.coversHeader`: Is a header listed?
-/

namespace SignedHttp

/-- The facts that a signature is to cover; header names in lower case. -/
structure Components where
  method : Bool := false
  targetUri : Bool := false
  headers : List Bytes := []
  contentDigest : Bool := false
  deriving DecidableEq

namespace Components

/-- The components with another list of headers. -/
def setHeaders (names : List Bytes) (c : Components) : Components :=
  { c with headers := names.map Bytes.lower }

/-- The components with header names of any case. -/
def create (method targetUri : Bool) (names : List Bytes) (contentDigest : Bool) : Components :=
  setHeaders names { method, targetUri, contentDigest }

/-- Is the header listed? -/
def coversHeader (name : Bytes) (c : Components) : Bool := c.headers.contains name.lower

/-- The components with a header put last in the list, unless it is listed. -/
def addHeader (name : Bytes) (c : Components) : Components :=
  if c.coversHeader name then c else { c with headers := c.headers ++ [name.lower] }

/-- Is there nothing to cover? -/
def isEmpty (c : Components) : Bool :=
  !c.method && !c.targetUri && !c.contentDigest && c.headers.isEmpty

end Components

end SignedHttp
