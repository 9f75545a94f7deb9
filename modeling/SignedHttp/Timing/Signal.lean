/-!
# Signals

A signal is fired with a value, and calls everything that is connected to it: a
slot is called, and a child signal is fired in turn. A connection is good for one
call. Firing takes all connections of the signal first and then follows them in
order, so a signal that is fired twice calls a slot again only if the slot was
connected again in between, and a child that was reached once is reached again
only if it is fired itself.

Signals are numbered in the order of their creation, and a child is created after
its parent. So firing passes on to greater numbers only, and the number of signals
bounds how far it goes (`fire`).

## Main definitions

* `Signals`: Signals, their waiting connections, and how often each was called.
* `Signals.create`, `Signals.createChild`: New signals.
* `Signals.connect`, `Signals.disconnect`: A slot comes and goes.
* `Signals.fire`: A signal is fired; the slots that are called, in order.
* `Signals.drop`: A signal goes away.
-/

namespace SignedHttp

/-- The number of a signal, in the order of creation. -/
abbrev SignalId := Nat

/-- The number of a slot's connection, in the order of connecting. -/
abbrev SlotId := Nat

/-- What waits for a signal. -/
inductive Link
  | slot (id : SlotId)
  | child (id : SignalId)
  deriving DecidableEq, Repr

/-- A signal: how often it was called, and what waits for it, in order. -/
structure SignalState where
  calls : Nat := 0
  waiting : List Link := []
  deriving DecidableEq, Repr

/-- All signals, and how often each connected slot was called. -/
structure Signals where
  states : List SignalState := []
  slotCalls : List Nat := []
  deriving DecidableEq, Repr

namespace Signals

/-- The state of a signal. -/
def state (s : SignalId) (w : Signals) : SignalState := w.states.getD s {}

/-- How often a slot was called through its connection. -/
def callsOf (c : SlotId) (w : Signals) : Nat := w.slotCalls.getD c 0

/-- A new signal. -/
def create (w : Signals) : Signals × SignalId :=
  ({ w with states := w.states ++ [{}] }, w.states.length)

/-- The signal with something more waiting for it. -/
def await (s : SignalId) (l : Link) (w : Signals) : Signals :=
  { w with states := w.states.modify s fun st => { st with waiting := st.waiting ++ [l] } }

/-- A new signal that fires when its parent does. -/
def createChild (parent : SignalId) (w : Signals) : Signals × SignalId :=
  let (w, child) := w.create
  (w.await parent (.child child), child)

/-- A slot is connected to a signal. -/
def connect (s : SignalId) (w : Signals) : Signals × SlotId :=
  let id := w.slotCalls.length
  ({ w with slotCalls := w.slotCalls ++ [0] }.await s (.slot id), id)

/-- Nothing waits for this any more. -/
def unlink (l : Link) (w : Signals) : Signals :=
  { w with states := w.states.map fun st => { st with waiting := st.waiting.filter (· ≠ l) } }

/-- A slot goes away. -/
def disconnect (c : SlotId) (w : Signals) : Signals := w.unlink (.slot c)

/-- A signal goes away, and all that waits for it. -/
def drop (s : SignalId) (w : Signals) : Signals :=
  let w := w.unlink (.child s)
  { w with states := w.states.modify s fun st => { st with waiting := [] } }

/-- A signal is called: its connections are taken, and it is counted. -/
def take (s : SignalId) (w : Signals) : Signals :=
  { w with states := w.states.modify s fun st => { calls := st.calls + 1, waiting := [] } }

/-- A slot is called. -/
def count (c : SlotId) (w : Signals) : Signals :=
  { w with slotCalls := w.slotCalls.modify c (· + 1) }

/-- A signal is fired, passing on to `depth` generations; the slots called, in order. -/
def fireTo : Nat → SignalId → Signals → Signals × List SlotId
  | 0, _, w => (w, [])
  | depth + 1, s, w =>
    (w.state s).waiting.foldl (fun (w, called) l =>
      match l with
      | .slot c => (w.count c, called ++ [c])
      | .child s =>
        let (w, more) := fireTo depth s w
        (w, called ++ more)) (w.take s, [])

/-- A signal is fired; the slots that are called, in order. -/
def fire (s : SignalId) (w : Signals) : Signals × List SlotId := w.fireTo w.states.length s

end Signals

end SignedHttp
