import SignedHttp.Text.Bytes

/-!
# Least Recently Used

A bounded store that forgets what was not used for the longest time. The entries
are listed from the most to the least recently used, one for each key. Putting an
entry and getting one both use it; looking at one does not.

When an entry too many is put, those at the end of the list are dropped, the last
one first. A store without capacity drops at once what is put into it.

## Main definitions

* `Lru`: The entries, and how many there may be.
* `Lru.put`, `Lru.get`: The operations that use an entry.
* `Lru.peek`, `Lru.erase`, `Lru.clear`: Those that do not.

## Theorems

* `length_put_le`: There are never more entries than allowed after a put.
-/

namespace SignedHttp

/-- A bounded store of values under keys, the most recently used entry first. -/
structure Lru (α : Type) where
  capacity : Nat
  entries : List (Bytes × α) := []
  deriving DecidableEq

namespace Lru

variable {α : Type}

/-- The value under a key. -/
def peek (key : Bytes) (s : Lru α) : Option α := s.entries.lookup key

def contains (key : Bytes) (s : Lru α) : Bool := (s.peek key).isSome

/-- The entries of other keys. -/
def others (key : Bytes) (s : Lru α) : List (Bytes × α) := s.entries.filter (·.1 != key)

/-- The entries with one put in front, more of them than there may be. -/
def overfull (key : Bytes) (value : α) (s : Lru α) : List (Bytes × α) :=
  (key, value) :: s.others key

/-- The store with a value put under a key. -/
def put (key : Bytes) (value : α) (s : Lru α) : Lru α :=
  { s with entries := (s.overfull key value).take s.capacity }

/-- The entries that a put drops, in the order of dropping. -/
def evictedBy (key : Bytes) (value : α) (s : Lru α) : List (Bytes × α) :=
  ((s.overfull key value).drop s.capacity).reverse

/-- The store with the entry of a key, if there is one, in front. -/
def touch (key : Bytes) (s : Lru α) : Lru α :=
  match s.peek key with
  | some value => { s with entries := (key, value) :: s.others key }
  | none => s

/-- The value under a key, which is thereby used. -/
def get (key : Bytes) (s : Lru α) : Option α × Lru α := (s.peek key, s.touch key)

def erase (key : Bytes) (s : Lru α) : Lru α := { s with entries := s.others key }

def clear (s : Lru α) : Lru α := { s with entries := [] }

def size (s : Lru α) : Nat := s.entries.length

theorem length_put_le (key : Bytes) (value : α) (s : Lru α) :
    (s.put key value).size ≤ s.capacity := by
  simp only [size, put, List.length_take]
  omega

end Lru

end SignedHttp
