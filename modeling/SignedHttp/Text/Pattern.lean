import SignedHttp.Text.Bytes

/-!
# Patterns

Regular expressions over bytes: literals, classes of bytes, the beginning and the end
of the text, sequence, choice and repetition.

Whether a pattern occurs in a text is decided byte by byte, without going back. What
is left of a pattern after a byte is again a pattern, or one of several
(`Pattern.residuals`); the search keeps all of them, and starts the whole pattern anew
at each byte. An occurrence ends where one of them can be empty.

Beginning and end are properties of a place, so being empty is asked at a place.

The text of a pattern follows the usual conventions. A repetition applies to the one
thing before it, a dot is any byte, a backslash makes a special byte an ordinary one,
and `\d`, `\w`, `\s` and their capitals are classes. A set is written in brackets. What
is not closed, and a repetition of nothing, is no pattern.

## Main definitions

* `Pattern`: A regular expression.
* `Pattern.parse?`: The pattern that a text describes.
* `Pattern.occursIn`: Does the pattern occur in a text?
-/

namespace SignedHttp

/-- A class of bytes: those in some ranges, or all others. -/
structure ByteClass where
  negated : Bool := false
  ranges : List (UInt8 × UInt8)
  deriving DecidableEq

namespace ByteClass

def contains (b : UInt8) (c : ByteClass) : Bool :=
  (c.ranges.any fun r => r.1 ≤ b && b ≤ r.2) != c.negated

/-- The bytes that a letter after a backslash stands for, if it is the name of a class. -/
def named? (letter : UInt8) : Option (List (UInt8 × UInt8)) :=
  ([(0x64, [(0x30, 0x39)]), (0x44, [(0x00, 0x2f), (0x3a, 0xff)]),
    (0x77, [(0x30, 0x39), (0x41, 0x5a), (0x5f, 0x5f), (0x61, 0x7a)]),
    (0x57, [(0x00, 0x2f), (0x3a, 0x40), (0x5b, 0x5e), (0x60, 0x60), (0x7b, 0xff)]),
    (0x73, [(0x09, 0x0d), (0x20, 0x20)]),
    (0x53, [(0x00, 0x08), (0x0e, 0x1f), (0x21, 0xff)])] :
      List (UInt8 × List (UInt8 × UInt8))).lookup letter

/-- The bytes that a byte after a backslash stands for: those of a class, or itself. -/
def escaped (b : UInt8) : List (UInt8 × UInt8) := (named? b).getD [(b, b)]

end ByteClass

/-- A regular expression over bytes. -/
inductive Pattern
  | empty
  | byte (c : ByteClass)
  /-- The beginning of the text. -/
  | start
  /-- The end of the text. -/
  | stop
  | seq (p q : Pattern)
  | alt (p q : Pattern)
  | star (p : Pattern)
  deriving DecidableEq

namespace Pattern

/-- Can the pattern be empty at a place? -/
def isNullable (atStart atEnd : Bool) : Pattern → Bool
  | empty => true
  | byte _ => false
  | start => atStart
  | stop => atEnd
  | seq p q => isNullable atStart atEnd p && isNullable atStart atEnd q
  | alt p q => isNullable atStart atEnd p || isNullable atStart atEnd q
  | star _ => true

/-- What may be left of the pattern after a byte. -/
def residuals (atStart : Bool) (b : UInt8) : Pattern → List Pattern
  | empty => []
  | byte c => if c.contains b then [empty] else []
  | start => []
  | stop => []
  -- The byte is the first one's, or the second one's if the first can be empty before it.
  | seq p q =>
    (residuals atStart b p).map (seq · q)
      ++ if isNullable atStart false p then residuals atStart b q else []
  | alt p q => residuals atStart b p ++ residuals atStart b q
  -- A round that takes no byte leaves everything as it is, so one that takes it is enough.
  | star p => (residuals atStart b p).map (seq · (star p))

/-- Does one of some patterns stand here, or the pattern here or later? -/
def occursFrom (p : Pattern) (atStart : Bool) (pending : List Pattern) : Bytes → Bool
  | [] => (p :: pending).any (isNullable atStart true)
  | b :: s =>
    (p :: pending).any (isNullable atStart false)
      || occursFrom p false ((p :: pending).flatMap (residuals atStart b)).eraseDups s

/-- Does the pattern occur in a text? -/
def occursIn (p : Pattern) (s : Bytes) : Bool := occursFrom p true [] s

/-- The bytes of a range whose lower end has been read, and the rest of the set. -/
def readRange (low : UInt8) (s : Bytes) : Option ((UInt8 × UInt8) × Bytes) :=
  match s with
  | dash :: high :: rest =>
    -- A dash before the closing bracket is a byte of the set.
    if dash ≠ Ascii.minus ∨ high = Ascii.closeBracket then some ((low, low), s)
    else if high < low then none
    else some ((low, high), rest)
  | _ => some ((low, low), s)

/-- The ranges of a set up to its closing bracket, and the rest; a bracket that comes `first`
is one of the bytes. -/
def readSet : Nat → Bool → Bytes → Option (List (UInt8 × UInt8) × Bytes)
  | 0, _, _ => none
  | _ + 1, _, [] => none
  | fuel + 1, first, b :: rest =>
    if b = Ascii.closeBracket ∧ !first then some ([], rest)
    else
      let part : Option (List (UInt8 × UInt8) × Bytes) :=
        if b = Ascii.backslash then
          match rest with
          | [] => none
          | c :: rest => some (ByteClass.escaped c, rest)
        else (readRange b rest).map fun r => ([r.1], r.2)
      match part with
      | none => none
      | some (ranges, rest) => (readSet fuel false rest).map fun r => (ranges ++ r.1, r.2)

/-- The class of a set whose opening bracket has been read, and the rest. -/
def readClass (s : Bytes) : Option (Pattern × Bytes) :=
  let negated := s.head? == some 0x5e
  (readSet (s.length + 1) true (if negated then s.tail else s)).map fun r =>
    (byte ⟨negated, r.1⟩, r.2)

/-- A byte that repeats what is before it. -/
def isRepetition (b : UInt8) : Bool := b == 0x2a || b == Ascii.plus || b == Ascii.question

/-- The pattern, repeated as a byte says. -/
def repeated (b : UInt8) (p : Pattern) : Pattern :=
  if b = 0x2a then star p else if b = Ascii.plus then seq p (star p) else alt p empty

/-- The pattern with the repetition that follows it, if there is one, and the rest. A question
mark after a repetition has no effect on what occurs. -/
def readRepetition (p : Pattern) (s : Bytes) : Pattern × Bytes :=
  match s with
  | [] => (p, [])
  | b :: rest =>
    if isRepetition b then
      (repeated b p, if rest.head? = some Ascii.question then rest.tail else rest)
    else (p, s)

/-- A byte that stands for itself, a dot, an escape or a set, and the rest. -/
def readSimple (b : UInt8) (rest : Bytes) : Option (Pattern × Bytes) :=
  if isRepetition b then none
  else if b = Ascii.dot then some (byte { negated := true, ranges := [] }, rest)
  else if b = Ascii.openBracket then readClass rest
  else if b = Ascii.backslash then
    match rest with
    | [] => none
    | c :: rest => some (byte { ranges := ByteClass.escaped c }, rest)
  else some (byte { ranges := [(b, b)] }, rest)

mutual

/-- A choice of sequences up to a closing parenthesis or the end, and the rest. -/
def readChoice : Nat → Bytes → Option (Pattern × Bytes)
  | 0, _ => none
  | fuel + 1, s =>
    match readSequence fuel s with
    | none => none
    | some (p, rest) =>
      match Bytes.after? "|" rest with
      | none => some (p, rest)
      | some rest => (readChoice fuel rest).map fun r => (alt p r.1, r.2)

/-- A sequence up to a bar, a closing parenthesis or the end, and the rest. -/
def readSequence : Nat → Bytes → Option (Pattern × Bytes)
  | 0, _ => none
  | _ + 1, [] => some (empty, [])
  | fuel + 1, b :: rest =>
    -- Bar and parenthesis belong to the caller, so they stay in the rest.
    if b = 0x7c ∨ b = Ascii.closeParen then some (empty, b :: rest)
    else if b = 0x5e then (readSequence fuel rest).map fun r => (seq start r.1, r.2)
    else if b = 0x24 then (readSequence fuel rest).map fun r => (seq stop r.1, r.2)
    else
      match if b = Ascii.openParen then readGroup fuel rest else readSimple b rest with
      | none => none
      | some (p, rest) =>
        let (p, rest) := readRepetition p rest
        (readSequence fuel rest).map fun r => (seq p r.1, r.2)

/-- The choice in a group whose opening parenthesis has been read, and the rest. -/
def readGroup : Nat → Bytes → Option (Pattern × Bytes)
  | 0, _ => none
  | fuel + 1, s =>
    match readChoice fuel ((Bytes.after? "?:" s).getD s) with
    | none => none
    | some (p, rest) => (Bytes.after? ")" rest).map fun rest => (p, rest)

end

/-- The pattern that a text describes. -/
def parse? (s : Bytes) : Option Pattern :=
  -- At most three calls are nested for each byte: group, choice and sequence.
  match readChoice (3 * s.length + 3) s with
  | some (p, []) => some p
  | _ => none

end Pattern

end SignedHttp
