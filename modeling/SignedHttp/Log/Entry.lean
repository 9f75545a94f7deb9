import SignedHttp.Text.Bytes

/-!
# Log Entries

The operations of the library say what they did in log entries, which they return
beside their result in the order of writing. Every entry is returned, whatever its
level; it is the logger that leaves out those below its threshold. So what is
logged is part of what an operation is, and who listens is not.

## Main definitions

* `Log.Level`: The levels, in ascending order.
* `Log.Entry`: A level and a message.
-/

namespace SignedHttp

namespace Log

/-- How important an entry is. -/
inductive Level
  | silly
  | debug
  | verbose
  | info
  | warn
  | error
  | abort
  deriving DecidableEq, Repr

namespace Level

/-- The levels in ascending order. -/
def all : List Level := [silly, debug, verbose, info, warn, error, abort]

/-- The place of the level in the order. -/
def rank : Level → Nat
  | silly => 0
  | debug => 1
  | verbose => 2
  | info => 3
  | warn => 4
  | error => 5
  | abort => 6

def name : Level → Bytes
  | silly => "SILLY"
  | debug => "DEBUG"
  | verbose => "VERBOSE"
  | info => "INFO"
  | warn => "WARN"
  | error => "ERROR"
  | abort => "ABORT"

/-- The level of a name, in any case. -/
def parse? (name : Bytes) : Option Level := all.find? (·.name == name.upper)

/-- The level at a place in the order. -/
def ofRank? (rank : Int) : Option Level := if rank < 0 then none else all[rank.toNat]?

end Level

/-- One thing that was logged. -/
structure Entry where
  level : Level
  message : Bytes
  deriving DecidableEq

namespace Entry

def debug (message : Bytes) : Entry := ⟨.debug, message⟩

def warn (message : Bytes) : Entry := ⟨.warn, message⟩

end Entry

end Log

/-- The entries an operation wrote, first to last. -/
abbrev Log := List Log.Entry

end SignedHttp
