import SignedHttp.Error.Code

/-!
# Timeouts and Cancellation

An operation takes some time, and may or may not react to a signal to stop. While
it runs under a timeout two things can ask it to stop: the timer, when its time is
up, and the caller, who may abort. Whichever comes first fires the operation's own
signal, once, and is the cause that is reported. An operation that does not react
runs on to its end, and the cause is reported all the same.

What happens is an `agenda`: the end of the operation, the expiry of the timer and
the abort, each at its moment, in the order of time. `Watch.step` says what each of
them changes, and `run` goes through the agenda up to the end of the operation.

An abort that was fired before the start does not stop the operation: it cannot be
heard any more. It is still reported at the end.

## Main definitions

* `Operation`: Something that takes time.
* `Abort`: The caller's signal, as seen from the start of an operation.
* `Watch`: What has happened to an operation under a timeout.
* `supervise`: An operation under a timeout.
* `sleep`, `sleepWithin`: Waiting, which an abort cuts short.
-/

namespace SignedHttp

/-- An operation that takes time. -/
structure Operation (α : Type) where
  /-- The time it takes, if nothing stops it. -/
  delay : Nat
  /-- Does it react to its signal? -/
  stops : Bool
  result : α
  /-- What it yields when it reacts. -/
  stopped : α

/-- The signal of a caller, seen from some moment. -/
inductive Abort
  | never
  | fired
  | after (delay : Nat)
  deriving DecidableEq, Repr

/-- What can happen while an operation runs. -/
inductive Event
  | completion
  | abort
  | expiry
  deriving DecidableEq, Repr

/-- What has happened to an operation so far. -/
structure Watch where
  /-- How often the operation's own signal was fired. -/
  cancels : Nat := 0
  expired : Bool := false
  aborted : Bool := false
  deriving DecidableEq, Repr

namespace Watch

/-- An event is taken note of, and the first one that asks to stop fires the signal. -/
def step (e : Event) (w : Watch) : Watch :=
  match e with
  | .completion => w
  | .abort => { w with aborted := true, cancels := if w.cancels = 0 then 1 else w.cancels }
  | .expiry => if w.cancels = 0 then { w with cancels := 1, expired := true } else w

end Watch

/-- An agenda with an event put in its place, after those of the same moment. -/
def schedule (t : Nat) (e : Event) : List (Nat × Event) → List (Nat × Event)
  | [] => [(t, e)]
  | (u, f) :: rest => if t < u then (t, e) :: (u, f) :: rest else (u, f) :: schedule t e rest

/-- The events of an operation under a timeout, in the order of time. -/
def agenda (delay timeout : Nat) (abort : Abort) : List (Nat × Event) :=
  -- Of events at one moment the completion comes first, so an operation that ends in time wins.
  let events := schedule timeout .expiry [(delay, .completion)]
  match abort with
  | .after d => schedule d .abort events
  | _ => events

/-- How an operation under a timeout ended. -/
structure Ending (α : Type) where
  elapsed : Nat
  value : α
  watch : Watch

/-- The agenda, up to the completion of the operation or to the signal that stops it. -/
def run {α : Type} (op : Operation α) : List (Nat × Event) → Watch → Ending α
  | [], w => ⟨op.delay, op.result, w⟩
  | (t, e) :: rest, w =>
    if e = .completion then ⟨t, op.result, w⟩
    else
      let w := w.step e
      if op.stops ∧ 0 < w.cancels then ⟨t, op.stopped, w⟩ else run op rest w

/-- An operation that is asked to stop after `timeout`, or when the caller aborts. -/
def supervise {α : Type} (timeout : Nat) (abort : Abort) (op : Operation α) : Ending α :=
  run op (agenda op.delay timeout abort) { aborted := abort == .fired }

namespace Ending

/-- Why the operation was asked to stop, if it was. -/
def cause? {α : Type} (e : Ending α) : Option SystemError :=
  if e.watch.expired then some .timedOut
  else if e.watch.aborted then some .canceled
  else none

end Ending

namespace Abort

/-- The signal, seen from the end of an operation. -/
def since {α : Type} (e : Ending α) (a : Abort) : Abort :=
  if e.watch.aborted then .fired
  else
    match a with
    | .after d => .after (d - e.elapsed)
    | a => a

end Abort

/-- Waiting as an operation: it yields whether the time passed undisturbed. -/
def waiting (ms : Nat) : Operation Bool := ⟨ms, true, true, false⟩

/-- Waiting that an abort cuts short: the time it took, and whether it was undisturbed. -/
def sleep (ms : Nat) : Abort → Nat × Bool
  | .never => (ms, true)
  | .fired => (0, false)
  | .after d => if d < ms then (d, false) else (ms, true)

/-- Waiting under a timeout, if there is one: the time it took, whether it was undisturbed, and
why the timeout made an end of it. -/
def sleepWithin (timeout : Option Nat) (ms : Nat) (abort : Abort) :
    Nat × Bool × Option SystemError :=
  match timeout with
  | none => let (elapsed, undisturbed) := sleep ms abort; (elapsed, undisturbed, none)
  | some timeout =>
    let ending := supervise timeout abort (waiting ms)
    (ending.elapsed, ending.value, ending.cause?)

end SignedHttp
