import SignedHttp.Timing.Date
import SignedHttp.Verify.Verdict

/-!
# Diagnostic Reports

A verdict as a text for a reader, in sections. Each section is a list of lines;
between most sections there is an empty line. Whatever is empty in the verdict is left
out, or named as not available.

## Main definitions

* `Verdict.report`: The text of a verdict.
-/

namespace SignedHttp

namespace Verdict

/-- Yes or no, in capitals. -/
def yesNo (b : Bool) : Bytes := if b then "YES" else "NO"

/-- A tick or a cross, and a space. -/
def mark (passed : Bool) : Bytes := if passed then "✓ " else "✗ "

/-- The text, or that there is none. -/
def available (s : Bytes) : Bytes := s.orElse "N/A"

/-- A name with spaces for underscores, in which every word begins with a capital;
`first` at the beginning of a word. -/
def titleFrom (first : Bool) : Bytes → Bytes
  | [] => []
  | b :: s =>
    if b = Ascii.underscore then Ascii.space :: titleFrom true s
    else (if first then Ascii.toUpper b else b) :: titleFrom false s

/-- The name of a check as a title. -/
def title (name : Bytes) : Bytes := titleFrom true name

/-- A line of a list. -/
def item (s : Bytes) : Bytes := "  - " ++ s

/-- A line that begins a section. -/
def heading (title : Bytes) : Bytes := "=== " ++ (title ++ " ===")

/-- A line with a name and a value. -/
def entry (name value : Bytes) : Bytes := name ++ (": " ++ value)

/-- A line with a name and a value, if there is one. -/
def optionalEntry (name : Bytes) (value : Option Bytes) : List Bytes :=
  (value.map (entry name)).toList

/-- A line with a name and some names in a row; nothing if there are none. -/
def namesEntry (name : Bytes) (names : List Bytes) : List Bytes :=
  if names.isEmpty then [] else [entry name (Bytes.join ", " names)]

/-- A list after a line that announces it; nothing if the list is empty. -/
def listLines (announcement items : List Bytes) : List Bytes :=
  if items.isEmpty then [] else announcement ++ items

/-- A duration in a report. -/
def duration (t : Milliseconds) : Bytes := t.fixed 2 ++ "ms"

def summaryLines (v : Verdict) : List Bytes :=
  [heading "RFC 9421 Signature Verification Report", [],
    entry "Overall Status" v.status.name.upper,
    entry "Signature Valid" (yesNo v.signatureValid), []]

def checkLines (v : Verdict) : List Bytes :=
  heading "Individual Checks" :: v.checks.items.map (fun c => mark c.2 ++ title c.1) ++ [[]]

def timeLines (s : SignatureAnalysis) : List Bytes :=
  if s.created = 0 then []
  else [entry "Created" (Date.text s.created), entry "Age" (Decimal.ofInt s.age ++ " seconds")]

def signatureLines (s : SignatureAnalysis) : List Bytes :=
  heading "Signature Analysis" :: entry "Algorithm" (available s.algorithm)
    :: entry "Key ID" (available s.keyId) :: timeLines s
    ++ [entry "Nonce" (available s.nonce),
      entry "Covered Components"
        (if s.covered.isEmpty then ("None" : Bytes) else Bytes.join ", " s.covered), []]

def contentLines (c : ContentAnalysis) : List Bytes :=
  heading "Content Analysis" :: entry "Has Content Digest" (yesNo c.hasDigest)
    :: optionalEntry "Digest Algorithm" c.digestAlgorithm
    ++ entry "Content Size" (Decimal.ofNat c.size ++ " bytes")
    :: optionalEntry "Content Type" c.contentType ++ [[]]

def ruleLine (r : RuleOutcome) : Bytes := mark r.passed ++ entry r.rule r.message

def complianceLines (c : Compliance) : List Bytes :=
  heading "Policy Compliance" :: entry "Policy" (available c.policy)
    :: namesEntry "Missing Required Components" c.missing
    ++ namesEntry "Extra Components" c.extra
    ++ listLines [[], heading "Custom Rule Results"] (c.rules.map ruleLine)

def securityLines (s : SecurityAnalysis) : List Bytes :=
  [] :: heading "Security Analysis" :: entry "Security Level" s.level.name.upper
    :: listLines [[], "Security Concerns:"] (s.concerns.map item)
    ++ listLines [[], "Recommendations:"] (s.recommendations.map item)

def performanceLines (p : Performance) : List Bytes :=
  [] :: heading "Performance" :: entry "Total Time" (duration p.total)
    :: listLines ["Step Timings:"] (p.steps.map fun s => item (entry s.1 (duration s.2)))

def faultLines (f : Fault) : List Bytes :=
  [] :: heading "Error Details" :: entry "Code" f.code :: entry "Message" f.message
    :: listLines ["Details:"] (f.details.entries.map fun d => item (entry d.1 d.2))

/-- The text of the verdict. -/
def report (v : Verdict) : Bytes :=
  Bytes.join "\n"
    (v.summaryLines ++ v.checkLines ++ signatureLines v.signature ++ contentLines v.content
      ++ complianceLines v.compliance ++ securityLines v.security
      ++ performanceLines v.performance ++ (v.fault.map faultLines).getD [])

end Verdict

end SignedHttp
