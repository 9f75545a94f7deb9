import SignedHttp.Crypto.Octets
import SignedHttp.Store.Replay
import SignedHttp.Timing.Clock

/-!
# The World

What an operation can find out and change besides its arguments: the time, the
random bytes it is given, how often each feed of values was drawn from, and what
the replay guards have seen. An operation takes the world as it is and returns the
world as it leaves it. So whatever an operation reads or changes is named in its
type, and two operations that are given the same world do the same.

A feed supplies values one after the other, for instance the nonces that an
application chooses. Several configurations may hold the same feed; they then
share the position, which is why the position is kept in the world, under the
number of the feed. Drawing a value may take time.

## Main definitions

* `World`: The surroundings of an operation.
* `Feed`: A supply of values.
* `Feed.draw`: The next value of a feed.
* `Feed.ofList`: The feed of a list.
* `World.randomBytes`: Sixteen random bytes.
* `World.cycling`: A random source made from a list.
-/

namespace SignedHttp

/-- The number of a feed. -/
abbrev FeedId := Nat

/-- The surroundings of an operation. -/
structure World where
  clock : Clock
  /-- The bytes that the random source gives at each request. -/
  random : Nat → Octets 16
  /-- How often random bytes were requested. -/
  requests : Nat := 0
  /-- How often each feed was drawn from. -/
  drawn : FeedId → Nat := fun _ => 0
  guards : Guards := .fresh

namespace World

/-- A random source that gives the same bytes at each request: those of a list, which begins
anew when it ends, or zeros if it is empty. -/
def cycling (source : Bytes) : Nat → Octets 16 :=
  fun _ => ⟨(List.range 16).map fun i => source.getD (i % source.length) 0, by simp⟩

/-- The world some milliseconds later. -/
def advance (ms : Nat) (w : World) : World := { w with clock := w.clock.advance ms }

/-- Sixteen random bytes. -/
def randomBytes (w : World) : Octets 16 × World :=
  (w.random w.requests, { w with requests := w.requests + 1 })

/-- Shows a nonce to a replay guard: is it new, and what is logged. -/
def checkNonce (id : GuardId) (nonce : Bytes) (created : Int) (w : World) :
    Bool × World × Log :=
  let (isNew, guards) := w.guards.check id w.clock.elapsed nonce
  (isNew, { w with guards }, ReplayGuard.checkLog isNew nonce created)

end World

/-- A supply of values. -/
structure Feed (α : Type) where
  id : FeedId
  /-- The value of each drawing. -/
  values : Nat → α
  /-- The milliseconds that a drawing takes. -/
  cost : Nat := 0

namespace Feed

/-- The next value of a feed. -/
def draw {α : Type} (f : Feed α) (w : World) : α × World :=
  (f.values (w.drawn f.id),
    { w.advance f.cost with drawn := fun i => if i = f.id then w.drawn i + 1 else w.drawn i })

/-- The values of a list one after the other, and then the last one again and again. -/
def ofList {α : Type} (id : FeedId) (default : α) (values : List α) (cost : Nat) : Feed α :=
  { id, values := fun n => values.getD n (values.getLastD default), cost }

end Feed

end SignedHttp
