import SignedHttp.Log.Entry
import SignedHttp.Store.Lru
import SignedHttp.Text.Decimal

/-!
# Replay Guards

A guard remembers the nonces it was shown. Showing it a nonce a second time within
its retention is a replay: the guard says so, and keeps the time of the first
showing. After the retention the nonce is taken as new. A guard is bounded, and
forgets the nonces that were not shown for the longest time.

Several verification rules and verifiers may share a guard. So guards are held in
`Guards`, under numbers, and whoever uses one names its number.

## Main definitions

* `ReplayGuard`: The nonces seen, and for how long they count.
* `ReplayGuard.check`: Shows a nonce to a guard.
* `Guards`: The guards in use.
-/

namespace SignedHttp

/-- The nonces seen, each with the moment when it was recorded. -/
structure ReplayGuard where
  /-- How many milliseconds a nonce counts as seen. -/
  retention : Int
  seen : Lru Nat
  deriving DecidableEq

namespace ReplayGuard

/-- A guard that has seen nothing. -/
def create (capacity : Nat) (retention : Int) : ReplayGuard := ⟨retention, { capacity }⟩

/-- Is a nonce recorded at `seen` still a replay at `now`? -/
def isRecent (now : Nat) (g : ReplayGuard) (seen : Nat) : Bool :=
  (now : Int) - seen ≤ g.retention

/-- Shows a nonce at a moment: is it new, and the guard afterwards. -/
def check (now : Nat) (nonce : Bytes) (g : ReplayGuard) : Bool × ReplayGuard :=
  -- A replay uses the entry but does not renew its time.
  let (found, seen) := g.seen.get nonce
  if found.any (g.isRecent now) then (false, { g with seen })
  else (true, { g with seen := seen.put nonce now })

/-- What is logged when a nonce is shown: nothing, unless it is a replay. -/
def checkLog (isNew : Bool) (nonce : Bytes) (created : Int) : Log :=
  if isNew then []
  else [.warn ("Replayed nonce: " ++ nonce ++ " created: " ++ Decimal.ofInt created)]

def clear (g : ReplayGuard) : ReplayGuard := { g with seen := g.seen.clear }

def size (g : ReplayGuard) : Nat := g.seen.size

/-- The capacity and the retention of a guard for which none are given. -/
def standard : ReplayGuard := create 10000 3600000

end ReplayGuard

/-- The number of a guard. -/
abbrev GuardId := Nat

/-- The guards in use, each under its number. -/
def Guards := GuardId → ReplayGuard

namespace Guards

/-- Every guard is one that has seen nothing. -/
def fresh : Guards := fun _ => .standard

/-- The guards with another one under a number. -/
def set (id : GuardId) (g : ReplayGuard) (gs : Guards) : Guards :=
  fun i => if i = id then g else gs i

@[simp]
theorem set_same (id : GuardId) (g : ReplayGuard) (gs : Guards) : gs.set id g id = g := by
  simp [set]

theorem set_other {id i : GuardId} (h : i ≠ id) (g : ReplayGuard) (gs : Guards) :
    gs.set id g i = gs i := by
  simp [set, h]

/-- Shows a nonce to the guard of a number. -/
def check (id : GuardId) (now : Nat) (nonce : Bytes) (gs : Guards) : Bool × Guards :=
  let (isNew, g) := (gs id).check now nonce
  (isNew, gs.set id g)

end Guards

end SignedHttp
