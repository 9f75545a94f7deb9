import SignedHttp.Text.Bytes
import SignedHttp.Timing.Signal

/-!
# Held Connections

A slot waits for its signal as long as somebody holds the connection. Here the
connections are held under names. A name holds one connection at a time: whatever
takes the name of another connection makes the slot of that other one go away.
A connection keeps its slot when it moves to another name, so a slot is known by
the name it was connected under, and not by the one that holds it.

## Main definitions

* `Connections`: Signals, and the connections held under names.
* `Connections.connect`: A slot is connected, and the connection held under a name.
* `Connections.disconnect`: The connection of a name is let go.
* `Connections.move`: A connection moves to another name.
* `Connections.fire`: A signal is fired.
-/

namespace SignedHttp

/-- Signals, and the connections held under names. -/
structure Connections where
  signals : Signals := {}
  held : List (Bytes × SlotId) := []
  /-- The name that each slot was connected under. -/
  names : List Bytes := []
  deriving DecidableEq

namespace Connections

/-- The connection of a name is let go, and its slot goes away. -/
def disconnect (name : Bytes) (w : Connections) : Connections :=
  { w with
    signals := ((w.held.lookup name).map fun c => w.signals.disconnect c).getD w.signals
    held := w.held.filter (·.1 != name) }

/-- A slot is connected to a signal, and the connection held under a name. -/
def connect (name : Bytes) (s : SignalId) (w : Connections) : Connections :=
  let w := w.disconnect name
  let (signals, c) := w.signals.connect s
  { signals, held := (name, c) :: w.held, names := w.names ++ [name] }

/-- The connection of a name, if there is one, moves to another name. -/
def move (source target : Bytes) (w : Connections) : Connections :=
  match w.held.lookup source with
  | none => w
  | some c =>
    let w := if source = target then w else w.disconnect target
    { w with held := (target, c) :: w.held.filter (·.1 != source) }

/-- A new signal that fires when its parent does. -/
def createChild (parent : SignalId) (w : Connections) : Connections × SignalId :=
  let (signals, child) := w.signals.createChild parent
  ({ w with signals }, child)

/-- A signal goes away. -/
def drop (s : SignalId) (w : Connections) : Connections :=
  { w with signals := w.signals.drop s }

/-- A signal is fired; the names of the slots that are called, in order. -/
def fire (s : SignalId) (w : Connections) : Connections × List Bytes :=
  let (signals, called) := w.signals.fire s
  ({ w with signals }, called.map fun c => w.names.getD c [])

/-- How often the slot of each connection was called. -/
def calls (w : Connections) : List (Bytes × Nat) :=
  w.held.map fun h => (h.1, w.signals.callsOf h.2)

end Connections

end SignedHttp
