import SignedHttp.Crypto.Octets
import SignedHttp.Log.Entry
import SignedHttp.Text.Table
import SignedHttp.Timing.Timeout

/-!
# Key Sources

A public key is looked up by its identifier in sources that may be slow or broken.
The sources are asked in order, each for at most the timeout, and the first that
has the key settles the lookup. A source that fails, raises a failure or takes too
long is logged and passed over.

A lookup can be cancelled. Whether it was is looked at before a source is asked and
after it answered; a source that raised a failure is passed over before that.

## Main definitions

* `KeySource`: A place where keys are found, as a delay and an answer.
* `KeyTable`: Keys that are held in memory.
* `Lookup`: How a lookup ended, and how long it took.
* `resolve`: Asks sources in order.
* `resolveAll`: Looks up several keys under one signal.
-/

namespace SignedHttp

/-- What a source says of a key. -/
inductive KeyAnswer
  | found (key : PublicKey)
  | unknown
  | failed (cause : SystemError)
  | raised (text : Bytes)
  deriving DecidableEq

/-- A place where keys are found by their identifier. -/
structure KeySource where
  name : Bytes
  /-- The time it takes to answer. -/
  delay : Nat := 0
  /-- Does it give up when it is told to? -/
  stops : Bool := false
  answer : Bytes → KeyAnswer
  /-- What it says when it gives up: if nothing else, that it does not know the key. -/
  stoppedAnswer : Bytes → KeyAnswer := fun _ => .unknown

/-- A lookup in the source, as an operation. -/
def KeySource.ask (keyId : Bytes) (s : KeySource) : Operation KeyAnswer :=
  ⟨s.delay, s.stops, s.answer keyId, s.stoppedAnswer keyId⟩

/-- Keys that are held in memory. -/
structure KeyTable where
  name : Bytes
  keys : Table PublicKey := {}

namespace KeyTable

def get (keyId : Bytes) (t : KeyTable) : Option PublicKey := t.keys.find? keyId

def add (keyId : Bytes) (key : PublicKey) (t : KeyTable) : KeyTable :=
  { t with keys := t.keys.insert keyId key }

def remove (keyId : Bytes) (t : KeyTable) : KeyTable := { t with keys := t.keys.erase keyId }

/-- The answer of the table. -/
def answer (t : KeyTable) (keyId : Bytes) : KeyAnswer :=
  match t.get keyId with
  | some key => .found key
  | none => .unknown

/-- The table as a source, which answers after a delay and gives up when told to. -/
def source (delay : Nat) (t : KeyTable) : KeySource :=
  { name := t.name, delay, stops := true, answer := t.answer }

end KeyTable

/-- Why a lookup has no key. -/
inductive LookupError
  | notFound
  | canceled
  deriving DecidableEq, Repr

def LookupError.code : LookupError → ErrorCode
  | notFound => .verification .publicKeyNotFound
  | canceled => .system SystemError.canceled.number

/-- How a lookup ended. -/
structure Lookup where
  result : Except LookupError PublicKey
  elapsed : Nat
  /-- The caller's signal, seen from the end. -/
  abort : Abort
  log : Log

/-- A source is passed over, for a reason. -/
def passedOver (source keyId reason : Bytes) : Log.Entry :=
  .warn ("Key source " ++ source ++ " failed for key " ++ keyId ++ ": " ++ reason)

/-- What an answer and the cause of an interruption come to: a key, or nothing and a reason. -/
def KeyAnswer.verdict (a : KeyAnswer) (cause : Option SystemError) :
    Option PublicKey × Option Bytes :=
  match a, cause with
  | .raised text, _ => (none, some text)
  | _, some cause => (none, some (Bytes.quoted cause.message))
  | .failed cause, none => (none, some (Bytes.quoted cause.message))
  | .found key, none => (some key, none)
  | .unknown, none => (none, none)

/-- Does the answer come before any question of cancellation? -/
def KeyAnswer.isRaised : KeyAnswer → Bool
  | .raised _ => true
  | _ => false

/-- Asks the sources in order, each for at most `timeout`. -/
def resolve (timeout : Nat) (keyId : Bytes) : List KeySource → Abort → Lookup
  | [], abort => ⟨.error .notFound, 0, abort, []⟩
  | source :: rest, abort =>
    if abort = .fired then ⟨.error .canceled, 0, abort, []⟩
    else
      -- The next source is asked when this one has ended, and the signal is seen from there.
      let ending := supervise timeout abort (source.ask keyId)
      let abort := abort.since ending
      if abort = .fired ∧ ending.value.isRaised = false then
        ⟨.error .canceled, ending.elapsed, abort, []⟩
      else
        match ending.value.verdict ending.cause? with
        | (some key, _) =>
          ⟨.ok key, ending.elapsed, abort,
            [.debug ("Key " ++ keyId ++ " found in source " ++ source.name)]⟩
        | (none, reason) =>
          let later := resolve timeout keyId rest abort
          { later with
            elapsed := ending.elapsed + later.elapsed
            log := (reason.map (passedOver source.name keyId)).toList ++ later.log }

/-- Looks up keys one after the other, under one signal of the caller. -/
def resolveAll (timeout : Nat) (sources : List KeySource) : List Bytes → Abort → List Lookup
  | [], _ => []
  | keyId :: rest, abort =>
    let found := resolve timeout keyId sources abort
    found :: resolveAll timeout sources rest found.abort

end SignedHttp
