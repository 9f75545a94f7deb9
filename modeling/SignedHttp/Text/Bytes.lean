/-!
# Byte Text

Everything a signature touches is a sequence of bytes: header names and values,
URLs, bodies, key identifiers, log lines. None of them is promised to be valid
in any character encoding, so the library has one text type, a list of bytes,
and never decodes it.

A string literal stands for its UTF-8 bytes. The conversion is a coercion, so a
wording such as `"Invalid header name: " ++ name` reads as it is written.

Two bytes are blank, the space and the tab, and letters are the ASCII letters
only: a byte above `0x7f` has no case. Cutting a text at the first occurrence of
a byte (`Bytes.cut`) is the step every header grammar of the library is made of.

## Main definitions

* `Bytes`: A text, as a list of bytes.
* `Ascii`: The bytes the grammars name, and the classes of bytes.
* `Bytes.lower`, `Bytes.upper`: A text with its ASCII letters in one case.
* `Bytes.trim`: A text without its surrounding blanks.
* `Bytes.cut`: The parts before and after the first occurrence of a byte.
* `Bytes.after?`: What follows a given beginning.
* `Bytes.join`: Texts joined by a separator.
* `Bytes.unquote`: A text without one pair of surrounding quotes.
-/

namespace SignedHttp

/-- A text: a sequence of bytes, in no particular encoding. -/
abbrev Bytes := List UInt8

namespace Ascii

abbrev tab : UInt8 := 0x09
abbrev lineFeed : UInt8 := 0x0a
abbrev verticalTab : UInt8 := 0x0b
abbrev formFeed : UInt8 := 0x0c
abbrev carriageReturn : UInt8 := 0x0d
abbrev space : UInt8 := 0x20
abbrev quote : UInt8 := 0x22
abbrev hash : UInt8 := 0x23
abbrev openParen : UInt8 := 0x28
abbrev closeParen : UInt8 := 0x29
abbrev plus : UInt8 := 0x2b
abbrev minus : UInt8 := 0x2d
abbrev dot : UInt8 := 0x2e
abbrev slash : UInt8 := 0x2f
abbrev zero : UInt8 := 0x30
abbrev colon : UInt8 := 0x3a
abbrev semicolon : UInt8 := 0x3b
abbrev equals : UInt8 := 0x3d
abbrev question : UInt8 := 0x3f
abbrev atSign : UInt8 := 0x40
abbrev openBracket : UInt8 := 0x5b
abbrev backslash : UInt8 := 0x5c
abbrev closeBracket : UInt8 := 0x5d
abbrev underscore : UInt8 := 0x5f
abbrev openBrace : UInt8 := 0x7b
abbrev closeBrace : UInt8 := 0x7d

def isUpper (b : UInt8) : Bool := 0x41 ≤ b && b ≤ 0x5a

def isLower (b : UInt8) : Bool := 0x61 ≤ b && b ≤ 0x7a

def isDigit (b : UInt8) : Bool := 0x30 ≤ b && b ≤ 0x39

def isLetter (b : UInt8) : Bool := isUpper b || isLower b

/-- A hexadecimal digit of either case. -/
def isHexDigit (b : UInt8) : Bool :=
  isDigit b || (0x61 ≤ b && b ≤ 0x66) || (0x41 ≤ b && b ≤ 0x46)

/-- A byte that trimming removes: a space or a tab. -/
def isBlank (b : UInt8) : Bool := b == space || b == tab

/-- A byte that may not stand in a key identifier. -/
def isWhitespace (b : UInt8) : Bool :=
  b == space || b == tab || b == carriageReturn || b == lineFeed
    || b == verticalTab || b == formFeed

def toLower (b : UInt8) : UInt8 := if isUpper b then b + 0x20 else b

def toUpper (b : UInt8) : UInt8 := if isLower b then b - 0x20 else b

/-- A property of all bytes may be checked value by value. -/
theorem forall_of_fin {p : UInt8 → Prop} (h : ∀ n : Fin 256, p (UInt8.ofNat n)) (b : UInt8) :
    p b := by
  have hb := h ⟨b.toNat, b.toNat_lt⟩
  simpa using hb

end Ascii

namespace Bytes

/-- The UTF-8 bytes of a character string. -/
def ofString (s : String) : Bytes := s.toList.flatMap String.utf8EncodeChar

end Bytes

instance : Coe String Bytes := ⟨Bytes.ofString⟩

namespace Bytes

/-- The text with its ASCII letters in lower case. -/
def lower (s : Bytes) : Bytes := s.map Ascii.toLower

/-- The text with its ASCII letters in upper case. -/
def upper (s : Bytes) : Bytes := s.map Ascii.toUpper

/-- The text without the blanks it ends with. -/
def trimRight (s : Bytes) : Bytes := (s.reverse.dropWhile Ascii.isBlank).reverse

/-- The text without the blanks around it. -/
def trim (s : Bytes) : Bytes := trimRight (s.dropWhile Ascii.isBlank)

/-- The parts before and after the first occurrence of `b`, if there is one. -/
def cut (b : UInt8) (s : Bytes) : Option (Bytes × Bytes) :=
  match s.dropWhile (· != b) with
  | [] => none
  | _ :: rest => some (s.takeWhile (· != b), rest)

/-- What follows `start`, if the text begins with it. -/
def after? : Bytes → Bytes → Option Bytes
  | [], s => some s
  | _ :: _, [] => none
  | p :: start, b :: s => if p = b then after? start s else none

/-- The texts one after the other, `sep` between two neighbours. -/
def join (sep : Bytes) : List Bytes → Bytes
  | [] => []
  | [x] => x
  | x :: y :: rest => x ++ (sep ++ join sep (y :: rest))

/-- Does `needle` occur in the text? -/
def occursIn (needle : Bytes) : Bytes → Bool
  | [] => needle.isEmpty
  | b :: s => needle.isPrefixOf (b :: s) || occursIn needle s

/-- Is the text enclosed in a pair of double quotes? -/
def isQuoted (s : Bytes) : Bool :=
  2 ≤ s.length && s.head? == some Ascii.quote && s.getLast? == some Ascii.quote

/-- The text without one pair of enclosing double quotes; a text that is not enclosed stays. -/
def unquote (s : Bytes) : Bytes := if isQuoted s then s.tail.dropLast else s

/-- The text between double quotes. -/
def quoted (s : Bytes) : Bytes := "\"" ++ (s ++ "\"")

/-- A list of texts in brackets. -/
def bracketed (items : List Bytes) : Bytes := "[" ++ join ", " items ++ "]"

/-- The text, or `fallback` if it is empty. -/
def orElse (s fallback : Bytes) : Bytes := if s.isEmpty then fallback else s

/-- Order of texts: the order of their bytes, a proper beginning first. -/
def lt (s t : Bytes) : Bool := decide (s < t)

theorem after?_eq_some_iff {start s rest : Bytes} :
    after? start s = some rest ↔ s = start ++ rest := by
  induction start generalizing s with
  | nil => simp [after?, eq_comm]
  | cons p start ih =>
    cases s with
    | nil => simp [after?]
    | cons b s =>
      by_cases h : p = b
      · simp [after?, h, ih]
      · simp [after?, h, Ne.symm h]

theorem exists_first_of_mem {b : UInt8} {s : Bytes} (h : b ∈ s) :
    ∃ x y, s = x ++ b :: y ∧ b ∉ x := by
  induction s with
  | nil => cases h
  | cons c s ih =>
    by_cases hc : c = b
    · exact ⟨[], s, by simp [hc], by simp⟩
    · obtain ⟨x, y, rfl, hx⟩ := ih ((List.mem_cons.1 h).resolve_left (Ne.symm hc))
      exact ⟨c :: x, y, by simp, by simp [hx, Ne.symm hc]⟩

theorem cut_eq_some_iff {b : UInt8} {s x y : Bytes} :
    cut b s = some (x, y) ↔ s = x ++ b :: y ∧ b ∉ x := by
  induction s generalizing x with
  | nil => simp [cut]
  | cons c s ih =>
    by_cases h : c = b
    · subst h
      constructor
      · intro hc
        simp [cut] at hc
        obtain ⟨rfl, rfl⟩ := hc
        simp
      · rintro ⟨he, hx⟩
        cases x with
        | nil => simp at he; simp [cut, he]
        | cons d x => simp at he hx; exact absurd he.1 hx.1
    · have hstep : cut b (c :: s) = (cut b s).map fun p => (c :: p.1, p.2) := by
        simp only [cut, List.dropWhile_cons, List.takeWhile_cons, bne_iff_ne, ne_eq, h,
          not_false_eq_true, if_true]
        cases s.dropWhile (· != b) <;> rfl
      rw [hstep, Option.map_eq_some_iff]
      constructor
      · rintro ⟨⟨u, v⟩, huv, hxy⟩
        simp at hxy
        obtain ⟨rfl, rfl⟩ := hxy
        obtain ⟨rfl, hu⟩ := ih.1 huv
        exact ⟨rfl, by simp [hu, Ne.symm h]⟩
      · rintro ⟨he, hx⟩
        cases x with
        | nil => simp at he; exact absurd he.1 h
        | cons d x =>
          simp at he hx
          exact ⟨(x, y), ih.2 ⟨he.2, hx.2⟩, by simp [he.1]⟩

theorem cut_eq_none_iff {b : UInt8} {s : Bytes} : cut b s = none ↔ b ∉ s := by
  constructor
  · intro h hm
    obtain ⟨x, y, hs, hx⟩ := exists_first_of_mem hm
    rw [cut_eq_some_iff.2 ⟨hs, hx⟩] at h
    cases h
  · intro h
    cases hc : cut b s with
    | none => rfl
    | some p => exact absurd (by rw [(cut_eq_some_iff.1 hc).1]; simp) h

end Bytes

end SignedHttp
