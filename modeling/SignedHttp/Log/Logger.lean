import SignedHttp.Log.Entry
import SignedHttp.Text.Milliseconds

/-!
# Loggers

A logger writes the entries from a threshold on to the terminal, to a file, or to
both. What it writes is given as a list of outputs, in order, so that logging is a
function and only the carrying out of the outputs is not.

On the terminal an entry is coloured: its level only for levels of little weight, and
the whole entry for others. In a file there are no colours, and each entry has a time
stamp, the seconds since the clock was started.

A file that has grown beyond its greatest size after an entry is emptied.

## Main definitions

* `Logger`: Where a logger writes to, and from which level on.
* `Logger.Output`: Something that is written.
* `Logger.log`: An entry is logged.
* `Logger.logTo`: Entries are written to a file from now on.
* `Logger.terminalText`: What the terminal shows of some entries.
* `Transcript`: What outputs leave behind.
-/

namespace SignedHttp

namespace Log

/-- What switches the terminal to the colours of a level. -/
def Level.colour : Level → Bytes
  | .silly => "\x1b[1;35;47m"
  | .debug => "\x1b[1;32m"
  | .verbose => "\x1b[1;37m"
  | .info => "\x1b[1;34m"
  | .warn => "\x1b[90;103m"
  | .error => "\x1b[31;40m"
  | .abort => "\x1b[1;31;40m"

/-- Is the message coloured too? -/
def Level.coloursMessage : Level → Bool
  | .silly => true
  | .debug => false
  | .verbose => false
  | .info => false
  | .warn => true
  | .error => true
  | .abort => true

end Log

/-- A file that entries are written to, and how large it is. -/
structure LogFile where
  name : Bytes
  size : Nat
  deriving DecidableEq

/-- Where entries are written to, and from which level on. -/
structure Logger where
  threshold : Log.Level := .info
  /-- Do entries on the terminal have a time stamp? -/
  stamped : Bool := false
  toTerminal : Bool := true
  file : Option LogFile := none
  deriving DecidableEq

namespace Logger

/-- Something that is written. -/
inductive Output
  | terminal (text : Bytes)
  | file (text : Bytes)
  /-- The file is emptied. -/
  | truncation
  deriving DecidableEq

/-- A logger with a threshold, or the usual one if there is none. -/
def create (threshold : Option Log.Level) : Logger := { threshold := threshold.getD .info }

/-- The logger with another threshold, if it is one. -/
def withThreshold (threshold : Option Log.Level) (l : Logger) : Logger :=
  { l with threshold := threshold.getD l.threshold }

/-- Would an entry of the level be written? -/
def admits (level : Log.Level) (l : Logger) : Bool := l.threshold.rank ≤ level.rank

/-- The size beyond which a file is emptied. -/
def maxFileSize : Nat := 15 * 1024 * 1024

/-- What a file begins with each time it is opened. -/
def fileHeading : Bytes := "\nHTTPSIG START\n"

/-- What switches the colours off. -/
def plain : Bytes := "\x1b[0m"

/-- The seconds that some milliseconds are, as a time stamp. -/
def stamp (elapsed : Nat) : Bytes := Milliseconds.fixed 4 ⟨false, elapsed, 1000⟩ ++ ": "

/-- A message with the name of the function it comes from, if that is given. -/
def located (origin message : Bytes) : Bytes :=
  if origin.isEmpty then message else origin ++ (": " ++ message)

/-- An entry as the terminal shows it, without time stamp. -/
def coloured (level : Log.Level) (text : Bytes) : Bytes :=
  if level.coloursMessage then level.colour ++ ("[" ++ (level.name ++ ("] " ++ (text ++ plain))))
  else level.colour ++ ("[" ++ (level.name ++ ("]" ++ (plain ++ (" " ++ text)))))

/-- The line on the terminal. -/
def terminalLine (l : Logger) (elapsed : Nat) (level : Log.Level) (text : Bytes) : Bytes :=
  (if l.stamped then stamp elapsed else []) ++ (coloured level text ++ "\n")

/-- The line in the file. -/
def fileLine (elapsed : Nat) (level : Log.Level) (text : Bytes) : Bytes :=
  stamp elapsed ++ ("[" ++ (level.name ++ ("] " ++ (text ++ "\n"))))

/-- A line is written to the file, which is emptied if it has grown too large. -/
def writeLine (line : Bytes) (f : LogFile) : LogFile × List Output :=
  let size := f.size + line.length
  if maxFileSize < size then ({ f with size := 0 }, [.file line, .truncation])
  else ({ f with size }, [.file line])

/-- An entry is logged some milliseconds after the start of the clock. -/
def log (elapsed : Nat) (level : Log.Level) (origin message : Bytes) (l : Logger) :
    Logger × List Output :=
  if l.admits level then
    let text := located origin message
    let shown :=
      if l.toTerminal then [Output.terminal (l.terminalLine elapsed level text)] else []
    match l.file with
    | none => (l, shown)
    | some f =>
      let (f, written) := writeLine (fileLine elapsed level text) f
      ({ l with file := some f }, shown ++ written)
  else (l, [])

/-- No file is written to any more. -/
def closeFile (l : Logger) : Logger := { l with file := none }

/-- Entries are written to a file from now on. If it can be opened, `existing` is its size. -/
def openFile (name : Bytes) (existing : Option Nat) (l : Logger) : Logger × List Output :=
  match existing with
  | none => (l.closeFile, [.terminal ("Failed to open log file " ++ name ++ "\n")])
  | some size =>
    ({ l with file := some ⟨name, size + fileHeading.length⟩ }, [.file fileHeading])

/-- Entries are written to the file of a name from now on, or to none if the name is empty. -/
def logTo (name : Bytes) (existing : Option Nat) (l : Logger) : Logger × List Output :=
  if name.isEmpty then (l.closeFile, [])
  else if l.file.any (·.name == name) then (l, [])
  else l.openFile name existing

/-- What the terminal shows of some entries, without time stamps. -/
def terminalText (l : Logger) (entries : Log) : Bytes :=
  (entries.filter fun e => l.admits e.level).flatMap fun e => coloured e.level e.message ++ "\n"

end Logger

/-- What outputs leave behind: the text on the terminal and the content of the file. -/
structure Transcript where
  terminal : Bytes := []
  file : Bytes := []
  deriving DecidableEq

namespace Transcript

/-- What an output adds or removes. -/
def write (t : Transcript) : Logger.Output → Transcript
  | .terminal text => { t with terminal := t.terminal ++ text }
  | .file text => { t with file := t.file ++ text }
  | .truncation => { t with file := [] }

/-- What several outputs in order leave behind. -/
def writeAll (outputs : List Logger.Output) (t : Transcript) : Transcript :=
  outputs.foldl write t

end Transcript

end SignedHttp
