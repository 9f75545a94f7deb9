import SignedHttp.Store.Lru
import SignedHttp.Text.Table

/-!
# Stores With an Index

What a bounded store does is said by `Lru`. Here it is done without searching the list: an index
leads from a key to the node of its entry. A node is known by a number, which it keeps wherever it
stands in the list, so it is moved to the front without a change to the index.

A put first pushes the new node and then takes out the one that the key had before, and the index
is turned to the new node. Only then are nodes dropped from the end, as long as the index has too
many keys. Each node that is dropped is announced before it is gone, the last one of the list
first. A store without capacity drops at once what is put into it, and has nothing to return.

## Main definitions

* `LinkedLru`: The nodes, the index and how many keys there may be.
* `LinkedLru.put`, `LinkedLru.get`: The operations that use an entry.
* `LinkedLru.peek`, `LinkedLru.contains`: Those that look at one.
* `LinkedLru.erase`, `LinkedLru.eraseAt`, `LinkedLru.clear`: Those that remove entries.
* `LinkedLru.Call`, `LinkedLru.run`: A store in use.
-/

namespace SignedHttp

/-- An entry in the list of a store, and the number that it is known by. -/
structure LinkedLru.Node (α : Type) where
  id : Nat
  key : Bytes
  value : α
  deriving DecidableEq

def LinkedLru.Node.entry {α : Type} (n : LinkedLru.Node α) : Bytes × α := (n.key, n.value)

/-- A bounded store of values under keys, the most recently used node first. -/
structure LinkedLru (α : Type) where
  capacity : Nat
  nodes : List (LinkedLru.Node α) := []
  /-- The numbers of the nodes by their keys. -/
  index : Table Nat := {}
  /-- The number of the next node. -/
  nextId : Nat := 0
  deriving DecidableEq

namespace LinkedLru

variable {α : Type}

/-- A store that is empty. -/
def create (capacity : Nat) : LinkedLru α := { capacity }

/-- The entries, the most recently used one first. -/
def entries (s : LinkedLru α) : List (Bytes × α) := s.nodes.map Node.entry

/-- The node that the index has for a key. -/
def node? (key : Bytes) (s : LinkedLru α) : Option (Node α) :=
  (s.index.find? key).bind fun id => s.nodes.find? (·.id == id)

/-- The store whose list lacks a node. -/
def unlink (id : Nat) (s : LinkedLru α) : LinkedLru α :=
  { s with nodes := s.nodes.filter (·.id != id) }

/-- Of nodes from the least recently used on, and their index, what remains of both when nodes are
dropped until there are few enough keys, and the entries that are dropped. -/
def dropOldest (capacity : Nat) :
    List (Node α) → Table Nat → List (Node α) × Table Nat × List (Bytes × α)
  | [], index => ([], index, [])
  | n :: rest, index =>
    if capacity < index.size then
      let (kept, index, dropped) := dropOldest capacity rest (index.erase n.key)
      (kept, index, n.entry :: dropped)
    else (n :: rest, index, [])

/-- The store without the nodes that are too many, and the entries that were dropped. -/
def shrink (s : LinkedLru α) : LinkedLru α × List (Bytes × α) :=
  let (kept, index, dropped) := dropOldest s.capacity s.nodes.reverse s.index
  ({ s with nodes := kept.reverse, index }, dropped)

/-- The store with a new node in front, in the place of the one that its key had. The nodes may
now be too many. -/
def push (key : Bytes) (value : α) (s : LinkedLru α) : LinkedLru α :=
  let pushed :=
    { s with nodes := ⟨s.nextId, key, value⟩ :: s.nodes, nextId := s.nextId + 1 }
  let linked := match s.index.find? key with
    | some old => pushed.unlink old
    | none => pushed
  { linked with index := s.index.insert key s.nextId }

/-- The value that stands first after a put, the store then, and the entries that were dropped. -/
def put (key : Bytes) (value : α) (s : LinkedLru α) : Option α × LinkedLru α × List (Bytes × α) :=
  let (kept, dropped) := (s.push key value).shrink
  (kept.nodes.head?.map (·.value), kept, dropped)

/-- The value under a key, whose node comes to the front. -/
def get (key : Bytes) (s : LinkedLru α) : Option α × LinkedLru α :=
  match s.node? key with
  | some n => (some n.value, { s with nodes := n :: (s.unlink n.id).nodes })
  | none => (none, s)

/-- The value under a key. -/
def peek (key : Bytes) (s : LinkedLru α) : Option α := (s.node? key).map (·.value)

def contains (key : Bytes) (s : LinkedLru α) : Bool := s.index.contains key

/-- The store without the entry of a key, and whether there was one. -/
def erase (key : Bytes) (s : LinkedLru α) : Bool × LinkedLru α :=
  match s.index.find? key with
  | some id => (true, { s.unlink id with index := s.index.erase key })
  | none => (false, s)

/-- The store without the entry at a place of the list, if there is one. The one behind it then
stands at this place. -/
def eraseAt (place : Nat) (s : LinkedLru α) : LinkedLru α :=
  match s.nodes[place]? with
  | some n => { s.unlink n.id with index := s.index.erase n.key }
  | none => s

def clear (s : LinkedLru α) : LinkedLru α := { s with nodes := [], index := {} }

def size (s : LinkedLru α) : Nat := s.index.size

/-- A use of a store. -/
inductive Call (α : Type)
  | put (key : Bytes) (value : α)
  | get (key : Bytes)
  | peek (key : Bytes)
  | contains (key : Bytes)
  | erase (key : Bytes)
  | eraseAt (place : Nat)
  | clear
  deriving DecidableEq

/-- The store after a call, and the entries that it dropped. -/
def call (s : LinkedLru α) : Call α → LinkedLru α × List (Bytes × α)
  | .put key value => (s.put key value).2
  | .get key => ((s.get key).2, [])
  | .peek _ => (s, [])
  | .contains _ => (s, [])
  | .erase key => ((s.erase key).2, [])
  | .eraseAt place => (s.eraseAt place, [])
  | .clear => (s.clear, [])

/-- The store after some calls. -/
def run (s : LinkedLru α) (calls : List (Call α)) : LinkedLru α :=
  calls.foldl (fun s c => (s.call c).1) s

end LinkedLru

end SignedHttp
