import SignedHttp.Message.Fields
import SignedHttp.Message.Method

/-!
# Messages

The facts of an HTTP message that a signature may cover: its method, its URL, its
header fields and its body, which may be absent. A message is never changed;
`Message.withHeader` and its kin give a message that differs in one fact.

An absent body and an empty one are different messages with the same content:
neither has content (`Message.hasBody`), and both have size zero.

## Main definitions

* `Message`: A request, or a response seen as a message.
* `Response`: A response, with the method and URL of the request it answers.
* `Response.asMessage`: The message that a signature of the response covers.
-/

namespace SignedHttp

/-- A message that can be signed. -/
structure Message where
  method : Method
  url : Bytes
  headers : Fields := {}
  body : Option Bytes := none
  deriving DecidableEq

namespace Message

/-- The message with a method of any name; the name has to be a standard one. -/
def ofVerb (verb : Verb) (url : Bytes) (headers : Fields) (body : Option Bytes) :
    Except ArgumentError Message :=
  verb.method.map fun method => ⟨method, url, headers, body⟩

/-- The value of a header, if it is present. -/
def header (name : Bytes) (m : Message) : Option Bytes := m.headers.find? name

def contentType (m : Message) : Option Bytes := m.header "content-type"

/-- The bytes of the body, none if it is absent. -/
def content (m : Message) : Bytes := m.body.getD []

def contentSize (m : Message) : Nat := m.content.length

/-- Is there a body that is not empty? -/
def hasBody (m : Message) : Bool := !m.content.isEmpty

def withHeader (name value : Bytes) (m : Message) : Message :=
  { m with headers := m.headers.set name value }

def withHeaders (fields : Fields) (m : Message) : Message :=
  { m with headers := m.headers.setAll fields }

def withoutHeader (name : Bytes) (m : Message) : Message :=
  { m with headers := m.headers.erase name }

def withBody (body : Option Bytes) (m : Message) : Message := { m with body }

end Message

/-- A response. -/
structure Response where
  status : Nat
  headers : Fields := {}
  body : Option Bytes := none
  url : Bytes
  verb : Verb := .standard .get
  deriving DecidableEq

namespace Response

/-- A response with a status from 100 to 599. -/
def create (status : Nat) (headers : Fields) (body : Option Bytes) (url : Bytes) (verb : Verb) :
    Except VerificationError Response :=
  if 100 ≤ status ∧ status ≤ 599 then .ok ⟨status, headers, body, url, verb⟩
  else .error (.invalidStatus status)

/-- The response as a message, with the method and URL of its request. -/
def asMessage (r : Response) : Except ArgumentError Message :=
  Message.ofVerb r.verb r.url r.headers r.body

def withHeaders (fields : Fields) (r : Response) : Response :=
  { r with headers := r.headers.setAll fields }

end Response

end SignedHttp
