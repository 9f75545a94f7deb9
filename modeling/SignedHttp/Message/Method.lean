import SignedHttp.Error.Cause

/-!
# Methods

A message that is signed or verified has one of the nine standard methods, so
`Method` has exactly these. A response may answer a request with any method; the
names beyond the standard ones are kept (`Verb.extension`), and a name that no
specification gives a meaning is `Verb.unknown`. Such a response cannot be
verified as a message: there is no text for its `@method`.

Names are case-sensitive, as they are in a request line.

## Main definitions

* `Method`: The standard methods.
* `Verb`: What a method name stands for.
* `Verb.method`: The standard method of a verb, or the reason why there is none.
-/

namespace SignedHttp

/-- A standard method. -/
inductive Method
  | get
  | head
  | post
  | put
  | delete
  | patch
  | options
  | connect
  | trace
  deriving DecidableEq, Repr

namespace Method

def all : List Method := [get, head, post, put, delete, patch, options, connect, trace]

def text : Method → Bytes
  | get => "GET"
  | head => "HEAD"
  | post => "POST"
  | put => "PUT"
  | delete => "DELETE"
  | patch => "PATCH"
  | options => "OPTIONS"
  | connect => "CONNECT"
  | trace => "TRACE"

/-- The standard method of a name. -/
def parse? (name : Bytes) : Option Method := all.find? (·.text == name)

theorem parse?_text (m : Method) : parse? m.text = some m := by
  cases m <;> decide

theorem text_injective {m n : Method} (h : m.text = n.text) : m = n := by
  have := parse?_text m
  rw [h, parse?_text] at this
  exact (Option.some.inj this).symm

end Method

/-- What a method name stands for. -/
inductive Verb
  | standard (method : Method)
  | extension (name : Bytes)
  | unknown
  deriving DecidableEq

namespace Verb

/-- The names of methods that are defined beside the standard ones. -/
def extensionNames : List Bytes :=
  ["COPY", "LOCK", "MKCOL", "MOVE", "PROPFIND", "PROPPATCH", "SEARCH", "UNLOCK", "BIND",
    "REBIND", "UNBIND", "ACL", "REPORT", "MKACTIVITY", "CHECKOUT", "MERGE", "M-SEARCH",
    "NOTIFY", "SUBSCRIBE", "UNSUBSCRIBE", "PURGE", "MKCALENDAR", "LINK", "UNLINK"]

/-- The verb of a name. -/
def parse (name : Bytes) : Verb :=
  match Method.parse? name with
  | some m => standard m
  | none => if name ∈ extensionNames then extension name else unknown

def text : Verb → Bytes
  | standard m => m.text
  | extension name => name
  | unknown => "<unknown>"

/-- The standard method that the verb is. -/
def method : Verb → Except ArgumentError Method
  | standard m => .ok m
  | v => .error (.unsupportedMethod v.text)

end Verb

end SignedHttp
