import Mathlib.Data.List.TakeWhile
import SignedHttp.Url

/-!
# URLs and Their Spellings

The grammar of a URL leaves out no more than it names: between the parts stand marks, and a part
may be missing together with its mark. A `Spelling` is a choice of the parts that obeys the
grammar, where a part that is missing differs from one that is empty. Its `text` puts them in a
row. So a text is a URL if it is the text of a spelling, and the grammar is unambiguous if it is
the text of one only.

The reader goes through the text from left to right. It takes the longest run of bytes that a part
may hold, and this is the part, since the byte behind it is a mark of one of the parts that may
follow (`BeginsIn`) and no part may hold a mark of what follows it. This is used in both
directions: each step of the reader gives a part that obeys the grammar, and it gives the part that
was written. The one step that looks further is the one past the user information, which ends at an
`@` before any other mark; a host has no `@`, so nothing else is taken for it.

A URL keeps less than its spelling. What is dropped is the user information, and whether an empty
query or fragment had its mark. The text of a URL (`Url.text`) is the spelling without these.

## Main definitions

* `IsScheme`, `IsHost`, `IsPort`, `IsPath`: What the parts may be.
* `Spelling`: The parts of a URL as they are written.
* `Spelling.text`, `Spelling.url`: The text that they make, and the URL that they are parts of.
* `Url.text`: The text that a URL is written as.

## Theorems

* `span_eq_iff`: A run of bytes of a class ends where another byte begins.
* `parse?_text`: A spelling is read as its URL.
* `exists_spelling`: A text that is read is that of a spelling.
* `Spelling.text_injective`: A text has one spelling.
* `parse?_reads_spelling`: Which texts are URLs, what their parts are, and that they are read back.
-/

namespace SignedHttp

namespace Url

variable {p : UInt8 → Bool} {s x y rest : Bytes} {marks : List UInt8}

/-- The name of a protocol, in any case. -/
def IsScheme (s : Bytes) : Prop := s.lower = "http" ∨ s.lower = "https"

/-- Bytes that may stand before an `@`. -/
def IsUserInfo (s : Bytes) : Prop := ∀ b ∈ s, endsUserInfo b = false

/-- A name, or an address in brackets. -/
inductive IsHost : Bytes → Prop
  | name {s : Bytes} (hne : s ≠ []) (h : ∀ b ∈ s, isNameByte b = true) : IsHost s
  | address {s : Bytes} (hne : s ≠ []) (h : ∀ b ∈ s, isAddressByte b = true) :
      IsHost (Ascii.openBracket :: (s ++ [Ascii.closeBracket]))

/-- One to five digits. -/
structure IsPort (s : Bytes) : Prop where
  ne_nil : s ≠ []
  length_le : s.length ≤ 5
  digit : ∀ b ∈ s, Ascii.isDigit b = true

/-- Nothing, or a slash and what follows it, without the marks of query and fragment. -/
structure IsPath (s : Bytes) : Prop where
  slash : ∀ b ∈ s.head?, b = Ascii.slash
  plain : ∀ b ∈ s, b ≠ Ascii.question ∧ b ≠ Ascii.hash

/-- The parts of a URL as they are written. -/
@[ext]
structure Spelling where
  scheme : Bytes
  userInfo : Option Bytes
  host : Bytes
  port : Option Bytes
  path : Bytes
  query : Option Bytes
  fragment : Option Bytes
  isScheme : IsScheme scheme
  isUserInfo : ∀ u ∈ userInfo, IsUserInfo u
  isHost : IsHost host
  isPort : ∀ d ∈ port, IsPort d
  isPath : IsPath path
  hash_not_mem : ∀ q ∈ query, Ascii.hash ∉ q

/-- A part behind its mark; nothing if it is missing. -/
def marked (mark : UInt8) (part : Option Bytes) : Bytes := part.elim [] (mark :: ·)

/-- User information with its mark behind it; nothing if it is missing. -/
def userInfoText (part : Option Bytes) : Bytes := part.elim [] (· ++ [Ascii.atSign])

namespace Spelling

/-- The parts in a row, each with its mark. -/
def text (w : Spelling) : Bytes :=
  w.scheme ++ ("://" ++ (userInfoText w.userInfo ++ (w.host ++ (marked Ascii.colon w.port ++
    (w.path ++ (marked Ascii.question w.query ++ marked Ascii.hash w.fragment))))))

/-- The URL that these are the parts of. -/
def url (w : Spelling) : Url :=
  ⟨w.scheme, w.host, w.port.getD [], w.path, w.query.getD [], w.fragment.getD []⟩

end Spelling

/-- The text of a URL: its parts with their marks, those that are empty left out. -/
def text (u : Url) : Bytes :=
  u.scheme ++ ("://" ++ (u.hostAndPort ++ (u.path ++
    ((if u.query.isEmpty then [] else Ascii.question :: u.query) ++
      (if u.fragment.isEmpty then [] else Ascii.hash :: u.fragment)))))

section Runs

/-- To go through the bytes of a text is enough, and takes less than to go through all bytes. -/
theorem forall_of_all {q : UInt8 → Prop} [DecidablePred q]
    (h : s.all (fun b => decide (q b)) = true) : ∀ b ∈ s, q b :=
  fun b hb => of_decide_eq_true (List.all_eq_true.1 h b hb)

/-- A run of bytes of a class ends with the text, or where a byte of another class begins. -/
theorem span_eq_iff : span p s = (x, y) ↔
    s = x ++ y ∧ (∀ b ∈ x, p b = true) ∧ ∀ b ∈ y.head?, p b = false := by
  constructor
  · intro h
    rw [span, Prod.mk.injEq] at h
    rcases h with ⟨rfl, rfl⟩
    refine ⟨List.takeWhile_append_dropWhile.symm, fun b hb => List.mem_takeWhile_imp hb, ?_⟩
    intro b hb
    have hhead := List.head?_dropWhile_not p s
    rw [Option.mem_def.1 hb] at hhead
    exact hhead
  · rintro ⟨rfl, hx, hy⟩
    rw [span, List.takeWhile_append_of_pos hx, List.dropWhile_append_of_pos hx]
    cases y with
    | nil => rw [List.takeWhile_nil, List.dropWhile_nil, List.append_nil]
    | cons b y =>
        have hb : ¬p b = true := Bool.eq_false_iff.1 (hy b rfl)
        rw [List.takeWhile_cons_of_neg hb, List.dropWhile_cons_of_neg hb, List.append_nil]

/-- The text is empty, or begins with one of the marks. -/
def BeginsIn (marks : List UInt8) (s : Bytes) : Prop := ∀ b ∈ s.head?, b ∈ marks

/-- A part that may be missing begins with its mark or is followed by another one. -/
theorem BeginsIn.append (hx : BeginsIn marks x) (hy : BeginsIn marks y) :
    BeginsIn marks (x ++ y) := by
  cases x with
  | nil => exact hy
  | cons b x => exact hx

theorem BeginsIn.mono {others : List UInt8} (h : BeginsIn marks s) (hsub : marks ⊆ others) :
    BeginsIn others s := fun b hb => hsub (h b hb)

/-- A part with a mark begins with it, unless it is missing. -/
theorem beginsIn_marked (mark : UInt8) (part : Option Bytes) :
    BeginsIn [mark] (marked mark part) := by
  intro b hb
  cases part with
  | none => cases hb
  | some x =>
      rw [marked, Option.elim_some, List.head?_cons, Option.mem_some_iff] at hb
      exact List.mem_singleton.2 hb.symm

/-- A run ends before a mark that is not of its class. -/
theorem span_append (hx : ∀ b ∈ x, p b = true) (hrest : BeginsIn marks rest)
    (hmarks : ∀ b ∈ marks, p b = false) : span p (x ++ rest) = (x, rest) :=
  span_eq_iff.2 ⟨rfl, hx, fun b hb => hmarks b (hrest b hb)⟩

end Runs

section Parts

theorem isLetter_of_isScheme (h : IsScheme s) : ∀ b ∈ s, Ascii.isLetter b = true := by
  have hlower : ∀ b : UInt8, Ascii.isLetter (Ascii.toLower b) = true → Ascii.isLetter b = true :=
    Ascii.forall_of_fin (by decide +kernel)
  have hletters : ∀ b ∈ s.lower, Ascii.isLetter b = true := by
    rcases h with h | h <;> rw [h] <;> exact forall_of_all (by decide)
  exact fun b hb => hlower b (hletters _ (List.mem_map_of_mem hb))

/-- A scheme that is written is read. -/
theorem scheme?_append (h : IsScheme s) (rest : Bytes) :
    scheme? (s ++ ("://" ++ rest)) = some (s, rest) := by
  have hcolon : BeginsIn [Ascii.colon] ("://" ++ rest) :=
    fun b hb => List.mem_singleton.2 (Option.mem_some_iff.1 hb).symm
  -- The letters end at the colon, which is none.
  have hspan : span Ascii.isLetter (s ++ ("://" ++ rest)) = (s, "://" ++ rest) :=
    span_append (isLetter_of_isScheme h) hcolon (forall_of_all (by decide))
  rw [scheme?, hspan]
  simp only [if_pos (show s.lower = "http" ∨ s.lower = "https" from h),
    Bytes.after?_eq_some_iff.2 rfl, Option.map_some]

/-- A scheme that is read was written, with its mark behind it. -/
theorem scheme?_eq_some (h : scheme? s = some (x, rest)) :
    IsScheme x ∧ s = x ++ ("://" ++ rest) := by
  rcases hspan : span Ascii.isLetter s with ⟨name, after⟩
  rw [scheme?, hspan] at h
  simp only at h
  split at h
  · next hscheme =>
    rcases Option.map_eq_some_iff.1 h with ⟨r, hafter, hpair⟩
    rw [Prod.mk.injEq] at hpair
    rcases hpair with ⟨rfl, rfl⟩
    rw [(span_eq_iff.1 hspan).1, Bytes.after?_eq_some_iff.1 hafter]
    exact ⟨hscheme, rfl⟩
  · cases h

/-- Past user information stands what follows its `@`. -/
theorem dropUserInfo_append (h : IsUserInfo x) (rest : Bytes) :
    dropUserInfo ((x ++ [Ascii.atSign]) ++ rest) = rest := by
  have hx : ∀ b ∈ x, (!endsUserInfo b) = true := fun b hb => by rw [h b hb]; rfl
  rw [dropUserInfo, List.append_assoc, List.dropWhile_append_of_pos hx]
  rfl

/-- Where another mark comes before any `@`, there is no user information. -/
theorem dropUserInfo_of_isUserInfo (h : IsUserInfo x)
    (hrest : BeginsIn [Ascii.slash, Ascii.question, Ascii.hash] rest) :
    dropUserInfo (x ++ rest) = x ++ rest := by
  have hx : ∀ b ∈ x, (!endsUserInfo b) = true := fun b hb => by rw [h b hb]; rfl
  rw [dropUserInfo, List.dropWhile_append_of_pos hx]
  cases rest with
  | nil => rfl
  | cons b rest =>
      have hb : b ∈ [Ascii.slash, Ascii.question, Ascii.hash] := hrest b rfl
      have hends : ∀ b ∈ [Ascii.slash, Ascii.question, Ascii.hash],
          endsUserInfo b = true ∧ b ≠ Ascii.atSign := forall_of_all (by decide)
      rw [List.dropWhile_cons_of_neg (by rw [(hends b hb).1]; decide)]
      simp only [if_neg (hends b hb).2]

/-- What is passed over is user information, or nothing. -/
theorem exists_userInfo (s : Bytes) :
    ∃ part : Option Bytes, (∀ u ∈ part, IsUserInfo u) ∧
      s = userInfoText part ++ dropUserInfo s := by
  have hsplit := span_eq_iff.1 (show span (!endsUserInfo ·) s = (s.takeWhile _, s.dropWhile _)
    from rfl)
  rw [dropUserInfo]
  -- Either no byte ends the search, or the first that does is an at sign or not.
  cases hrest : s.dropWhile (!endsUserInfo ·) with
  | nil => exact ⟨none, nofun, rfl⟩
  | cons b rest =>
      simp only
      split
      · next hb =>
        refine ⟨some (s.takeWhile (!endsUserInfo ·)), fun u hu c hc => ?_, ?_⟩
        · rw [← Option.mem_some_iff.1 hu] at hc
          have hplain : (!endsUserInfo c) = true := hsplit.2.1 c hc
          rwa [Bool.not_eq_true'] at hplain
        · rw [userInfoText, Option.elim_some, List.append_assoc, List.singleton_append, ← hb,
            ← hrest]
          exact hsplit.1
      · exact ⟨none, nofun, rfl⟩

/-- A host ends before the mark of a part that may follow it. -/
theorem host?_append (h : IsHost x)
    (hrest : BeginsIn [Ascii.colon, Ascii.slash, Ascii.question, Ascii.hash] rest) :
    host? (x ++ rest) = some (x, rest) := by
  cases h with
  | name hne h =>
      cases x with
      | nil => exact absurd rfl hne
      | cons b x =>
          have hb : b ≠ Ascii.openBracket := by
            rintro rfl
            exact absurd (h _ List.mem_cons_self) (by decide)
          rw [List.cons_append, host?, if_neg hb, ← List.cons_append,
            span_append h hrest (forall_of_all (by decide))]
          rfl
  | @address s hne h =>
      -- The address ends at the bracket that closes it.
      have hclose : BeginsIn [Ascii.closeBracket] (Ascii.closeBracket :: rest) :=
        fun b hb => List.mem_singleton.2 (Option.mem_some_iff.1 hb).symm
      have hspan : span isAddressByte (s ++ Ascii.closeBracket :: rest)
          = (s, Ascii.closeBracket :: rest) :=
        span_append h hclose (forall_of_all (by decide))
      rw [List.cons_append, List.append_assoc, List.singleton_append, host?, if_pos rfl, hspan]
      simp only [List.isEmpty_iff, hne, ne_eq, not_true_eq_false, or_self, if_false]

/-- A host that is read was written: an address between its brackets, or a name. -/
theorem host?_eq_some (h : host? s = some (x, rest)) : IsHost x ∧ s = x ++ rest := by
  cases s with
  | nil => cases h
  | cons b s =>
      rw [host?] at h
      split at h
      · next hb =>
        rcases hspan : span isAddressByte s with ⟨address, after⟩
        rcases span_eq_iff.1 hspan with ⟨hs, haddress, -⟩
        rw [hspan] at h
        -- Behind the address there has to be a bracket, and one that closes.
        cases after with
        | nil => cases h
        | cons c after =>
            simp only at h
            split at h
            · cases h
            · next hshape =>
              rw [not_or, List.isEmpty_iff, not_not] at hshape
              rw [Option.some.injEq, Prod.mk.injEq] at h
              rcases h with ⟨rfl, rfl⟩
              rw [hb, hshape.2]
              refine ⟨.address hshape.1 haddress, ?_⟩
              rw [hs, hshape.2, List.cons_append, List.append_assoc, List.singleton_append]
      · -- Without a bracket in front it is a name.
        rcases hspan : span isNameByte (b :: s) with ⟨name, after⟩
        rcases span_eq_iff.1 hspan with ⟨hs, hname, -⟩
        rw [hspan] at h
        simp only at h
        split at h
        · cases h
        · next hne =>
          rw [List.isEmpty_iff] at hne
          rw [Option.some.injEq, Prod.mk.injEq] at h
          rcases h with ⟨rfl, rfl⟩
          exact ⟨.name hne hname, hs⟩

/-- A port that is written is read, and none if it is missing. -/
theorem port?_append {port : Option Bytes} (h : ∀ d ∈ port, IsPort d)
    (hrest : BeginsIn [Ascii.slash, Ascii.question, Ascii.hash] rest) :
    port? (marked Ascii.colon port ++ rest) = some (port.getD [], rest) := by
  cases port with
  | none =>
      cases rest with
      | nil => rfl
      | cons b rest =>
          -- What follows a missing port begins with no colon.
          have hb : b ≠ Ascii.colon := by
            rintro rfl
            exact absurd (hrest _ rfl) (by decide)
          rw [marked, Option.elim_none, List.nil_append, port?, if_neg hb, Option.getD_none]
  | some d =>
      have hd := h d rfl
      rw [marked, Option.elim_some, List.cons_append, port?, if_pos rfl,
        span_append hd.digit hrest (forall_of_all (by decide))]
      simp only [List.isEmpty_iff, hd.ne_nil, Nat.not_lt.2 hd.length_le, or_self, if_false,
        Option.getD_some]

/-- What is read of a port was written with its colon, or is missing. -/
theorem port?_eq_some (h : port? s = some (x, rest)) :
    ∃ port : Option Bytes, (∀ d ∈ port, IsPort d) ∧ port.getD [] = x ∧
      s = marked Ascii.colon port ++ rest := by
  have hnone : ∀ d ∈ (none : Option Bytes), IsPort d := nofun
  cases s with
  | nil =>
      rw [port?, Option.some.injEq, Prod.mk.injEq] at h
      rcases h with ⟨rfl, rfl⟩
      exact ⟨none, hnone, rfl, rfl⟩
  | cons b s =>
      rw [port?] at h
      split at h
      · next hb =>
        rcases hspan : span Ascii.isDigit s with ⟨digits, after⟩
        -- The digits behind the colon are the port, if they are one to five.
        rcases span_eq_iff.1 hspan with ⟨hs, hdigits, -⟩
        rw [hspan] at h
        simp only at h
        split at h
        · cases h
        · next hshape =>
          rw [not_or, List.isEmpty_iff, Nat.not_lt] at hshape
          rw [Option.some.injEq, Prod.mk.injEq] at h
          rcases h with ⟨rfl, rfl⟩
          refine ⟨some digits, fun d hd => ?_, rfl, by rw [hb, hs]; rfl⟩
          rw [← Option.mem_some_iff.1 hd]
          exact ⟨hshape.1, hshape.2, hdigits⟩
      · rw [Option.some.injEq, Prod.mk.injEq] at h
        rcases h with ⟨rfl, rfl⟩
        exact ⟨none, hnone, rfl, rfl⟩

/-- A path that is written is read up to a mark of query or fragment. -/
theorem pathPart_append (h : IsPath x) (hrest : BeginsIn [Ascii.question, Ascii.hash] rest) :
    pathPart (x ++ rest) = (x, rest) := by
  cases x with
  | nil =>
      cases rest with
      | nil => rfl
      | cons b rest =>
          -- What follows an empty path begins with no slash.
          have hb : b ≠ Ascii.slash := by
            rintro rfl
            exact absurd (hrest _ rfl) (by decide)
          rw [List.nil_append, pathPart, if_neg hb]
  | cons b x =>
      rw [List.cons_append, pathPart, if_pos (h.slash b rfl), ← List.cons_append]
      exact span_append (fun c hc => decide_eq_true (h.plain c hc)) hrest
        (forall_of_all (by decide))

/-- What is read of a path is one. -/
theorem pathPart_spec (s : Bytes) :
    IsPath (pathPart s).1 ∧ s = (pathPart s).1 ++ (pathPart s).2 := by
  have hnone : IsPath [] := ⟨nofun, nofun⟩
  cases s with
  | nil => exact ⟨hnone, rfl⟩
  | cons b s =>
      rw [pathPart]
      split
      · next hb =>
        rcases hspan : span (fun b => b ≠ Ascii.question ∧ b ≠ Ascii.hash) (b :: s) with
          ⟨path, after⟩
        rcases span_eq_iff.1 hspan with ⟨hs, hpath, -⟩
        refine ⟨⟨fun c hc => ?_, fun c hc => of_decide_eq_true (hpath c hc)⟩, hs⟩
        -- A path that is not empty begins as the text does.
        cases path with
        | nil => cases hc
        | cons d path =>
            rw [List.head?_cons, Option.mem_some_iff] at hc
            rw [← hc, ← (List.cons.inj hs).1, hb]
      · exact ⟨hnone, rfl⟩

/-- Query and fragment are read up to the marks that they may not hold. -/
theorem part_append {mark : UInt8} {part : Option Bytes} (h : ∀ q ∈ part, ∀ b ∈ marks, b ∉ q)
    (hmark : mark ∉ marks) (hrest : BeginsIn marks rest) :
    Url.part mark marks (marked mark part ++ rest) = (part.getD [], rest) := by
  cases part with
  | none =>
      cases rest with
      | nil => rfl
      | cons b rest =>
          have hb : b ≠ mark := by
            rintro rfl
            exact hmark (hrest _ rfl)
          rw [marked, Option.elim_none, List.nil_append, Url.part, if_neg hb, Option.getD_none]
  | some q =>
      rw [marked, Option.elim_some, List.cons_append, Url.part, if_pos rfl]
      refine span_append (fun b hb => ?_) hrest (fun b hb => ?_)
      · rw [Bool.not_eq_true', Bool.eq_false_iff, Ne, List.contains_iff_mem]
        exact fun hmem => h q rfl b hmem hb
      · rw [List.contains_iff_mem.2 hb, Bool.not_true]

/-- What is read of one of them was written with its mark, or is missing. -/
theorem part_spec (mark : UInt8) (marks : List UInt8) (s : Bytes) :
    ∃ part : Option Bytes, (∀ q ∈ part, ∀ b ∈ marks, b ∉ q) ∧
      part.getD [] = (Url.part mark marks s).1 ∧
      s = marked mark part ++ (Url.part mark marks s).2 := by
  have hnone : ∀ q ∈ (none : Option Bytes), ∀ b ∈ marks, b ∉ q := nofun
  cases s with
  | nil => exact ⟨none, hnone, rfl, rfl⟩
  | cons b s =>
      rw [Url.part]
      split
      · next hb =>
        rcases hspan : span (!marks.contains ·) s with ⟨q, after⟩
        rcases span_eq_iff.1 hspan with ⟨hs, hq, -⟩
        refine ⟨some q, fun q' hq' c hc hmem => ?_, rfl, by rw [hb, hs]; rfl⟩
        rw [← Option.mem_some_iff.1 hq'] at hmem
        have hnot := hq c hmem
        rw [List.contains_iff_mem.2 hc] at hnot
        cases hnot
      · exact ⟨none, hnone, rfl, rfl⟩

end Parts

section Reading

/-- What stands behind the path. -/
theorem beginsIn_query (w : Spelling) : BeginsIn [Ascii.question, Ascii.hash]
    (marked Ascii.question w.query ++ marked Ascii.hash w.fragment) :=
  ((beginsIn_marked _ _).mono (by decide)).append ((beginsIn_marked _ _).mono (by decide))

/-- What stands behind the port. -/
theorem beginsIn_path (w : Spelling) : BeginsIn [Ascii.slash, Ascii.question, Ascii.hash]
    (w.path ++ (marked Ascii.question w.query ++ marked Ascii.hash w.fragment)) := by
  refine BeginsIn.append (fun b hb => ?_) ((beginsIn_query w).mono (by decide))
  rw [w.isPath.slash b hb]
  exact List.mem_cons_self

/-- What stands behind the host. -/
theorem beginsIn_port (w : Spelling) :
    BeginsIn [Ascii.colon, Ascii.slash, Ascii.question, Ascii.hash]
      (marked Ascii.colon w.port ++
        (w.path ++ (marked Ascii.question w.query ++ marked Ascii.hash w.fragment))) :=
  ((beginsIn_marked _ _).mono (by decide)).append ((beginsIn_path w).mono (by decide))

/-- A host holds no byte that ends user information. -/
theorem IsHost.isUserInfo (h : IsHost x) : IsUserInfo x := by
  have hname : ∀ b : UInt8, isNameByte b = true → endsUserInfo b = false :=
    Ascii.forall_of_fin (by decide +kernel)
  have haddress : ∀ b : UInt8, isAddressByte b = true → endsUserInfo b = false :=
    Ascii.forall_of_fin (by decide +kernel)
  intro b hb
  cases h with
  | name _ h => exact hname b (h b hb)
  | address _ h =>
      rcases List.mem_cons.1 hb with rfl | hb
      · decide
      · rcases List.mem_append.1 hb with hb | hb
        · exact haddress b (h b hb)
        · rw [List.mem_singleton.1 hb]
          decide

/-- Nor does the port behind it. -/
theorem isUserInfo_host_port (w : Spelling) :
    IsUserInfo (w.host ++ marked Ascii.colon w.port) := by
  have hdigit : ∀ b : UInt8, Ascii.isDigit b = true → endsUserInfo b = false :=
    Ascii.forall_of_fin (by decide +kernel)
  intro b hb
  rcases List.mem_append.1 hb with hb | hb
  · exact w.isHost.isUserInfo b hb
  · -- A colon ends no user information, and a digit does not either.
    cases hport : w.port with
    | none =>
        rw [hport] at hb
        cases hb
    | some d =>
        rw [hport] at hb
        rcases List.mem_cons.1 hb with rfl | hb
        · decide
        · exact hdigit b ((w.isPort d hport).digit b hb)

/-- Only what is user information is taken for it. -/
theorem dropUserInfo_text (w : Spelling) :
    dropUserInfo (userInfoText w.userInfo ++ (w.host ++ (marked Ascii.colon w.port ++
      (w.path ++ (marked Ascii.question w.query ++ marked Ascii.hash w.fragment)))))
    = w.host ++ (marked Ascii.colon w.port ++
      (w.path ++ (marked Ascii.question w.query ++ marked Ascii.hash w.fragment))) := by
  cases huser : w.userInfo with
  | none =>
      rw [userInfoText, Option.elim_none, List.nil_append, ← List.append_assoc]
      exact dropUserInfo_of_isUserInfo (isUserInfo_host_port w) (beginsIn_path w)
  | some u => exact dropUserInfo_append (w.isUserInfo u huser) _

/-- A spelling is read as its URL. -/
theorem parse?_text (w : Spelling) : parse? w.text = some w.url := by
  have hquery : Url.part Ascii.question [Ascii.hash]
      (marked Ascii.question w.query ++ marked Ascii.hash w.fragment)
      = (w.query.getD [], marked Ascii.hash w.fragment) :=
    part_append (fun q hq b hb => List.mem_singleton.1 hb ▸ w.hash_not_mem q hq) (by decide)
      (beginsIn_marked _ _)
  have hfragment : Url.part Ascii.hash [] (marked Ascii.hash w.fragment)
      = (w.fragment.getD [], []) := by
    have h : Url.part Ascii.hash [] (marked Ascii.hash w.fragment ++ [])
        = (w.fragment.getD [], []) := part_append nofun (by decide) nofun
    rwa [List.append_nil] at h
  simp only [Spelling.text, parse?, scheme?_append w.isScheme, dropUserInfo_text,
    host?_append w.isHost (beginsIn_port w), port?_append w.isPort (beginsIn_path w),
    pathPart_append w.isPath (beginsIn_query w), hquery, hfragment, List.isEmpty_nil, if_true]
  rfl

/-- A text that is read is that of a spelling. -/
theorem exists_spelling {u : Url} (h : parse? s = some u) :
    ∃ w : Spelling, w.text = s ∧ w.url = u := by
  unfold parse? at h
  split at h
  · cases h
  next scheme s₁ hscheme =>
  split at h
  · cases h
  next host s₂ hhost =>
  split at h
  · cases h
  next port s₃ hport =>
  -- Each step of the reader gives the part that it has read, and what is left for the next.
  rcases scheme?_eq_some hscheme with ⟨hisScheme, rfl⟩
  rcases exists_userInfo s₁ with ⟨userInfo, hisUserInfo, hs₁⟩
  rcases host?_eq_some hhost with ⟨hisHost, hs₂⟩
  rcases port?_eq_some hport with ⟨port, hisPort, rfl, rfl⟩
  rcases pathPart_spec s₃ with ⟨hisPath, hs₃⟩
  rcases hpath : pathPart s₃ with ⟨path, s₄⟩
  rw [hpath] at h hisPath hs₃
  rcases part_spec Ascii.question [Ascii.hash] s₄ with ⟨query, hisQuery, hquery, hs₄⟩
  rcases hsplit : Url.part Ascii.question [Ascii.hash] s₄ with ⟨query', s₅⟩
  simp only [hsplit] at h hquery hs₄
  rcases part_spec Ascii.hash [] s₅ with ⟨fragment, -, hfragment, hs₅⟩
  rcases hlast : Url.part Ascii.hash [] s₅ with ⟨fragment', s₆⟩
  simp only [hlast] at h hfragment hs₅
  split at h
  · next hend =>
    rw [List.isEmpty_iff] at hend
    rw [hend, List.append_nil] at hs₅
    refine ⟨⟨scheme, userInfo, host, port, path, query, fragment, hisScheme, hisUserInfo, hisHost,
      hisPort, hisPath, fun q hq => hisQuery q hq _ List.mem_cons_self⟩, ?_, ?_⟩
    · simp only [Spelling.text]
      rw [hs₁, hs₂, ← hs₅, ← hs₄, ← hs₃]
    · rw [← Option.some.inj h, ← hquery, ← hfragment]
      rfl
  · cases h

end Reading

section Spellings

/-- A part that is empty differs from one that is missing, by its mark. -/
theorem eq_of_marked {mark : UInt8} {a b : Option Bytes}
    (h : marked mark a ++ x = marked mark b ++ y) (hpart : a.getD [] = b.getD [])
    (hmark : mark ∉ marks) (hx : BeginsIn marks x) (hy : BeginsIn marks y) : a = b := by
  cases a with
  | none =>
      cases b with
      | none => rfl
      | some d =>
          have hx' : x = mark :: (d ++ y) := h
          exact absurd (hx mark (by rw [hx']; rfl)) hmark
  | some c =>
      cases b with
      | none =>
          have hy' : mark :: (c ++ x) = y := h
          exact absurd (hy mark (by rw [← hy']; rfl)) hmark
      | some d => exact congrArg some hpart

/-- User information that is empty differs from none by its mark. -/
theorem userInfoText_injective {a b : Option Bytes} (h : userInfoText a = userInfoText b) :
    a = b := by
  cases a with
  | none =>
      cases b with
      | none => rfl
      | some d => exact absurd h.symm (List.append_ne_nil_of_right_ne_nil d (List.cons_ne_nil _ _))
  | some c =>
      cases b with
      | none => exact absurd h (List.append_ne_nil_of_right_ne_nil c (List.cons_ne_nil _ _))
      | some d => exact congrArg some (List.append_cancel_right h)

/-- A text has one spelling. -/
theorem Spelling.text_injective {w v : Spelling} (h : w.text = v.text) : w = v := by
  -- The reader gives all parts but the user information, up to whether an empty one is missing.
  have hurl : w.url = v.url := by
    have hread := parse?_text w
    rw [h, parse?_text] at hread
    exact (Option.some.inj hread).symm
  simp only [url, Url.mk.injEq] at hurl
  rcases hurl with ⟨hscheme, hhost, hport, hpath, hquery, hfragment⟩
  rw [text, text, hscheme] at h
  have htail := List.append_cancel_left (List.append_cancel_left h)
  have hrest := congrArg dropUserInfo htail
  rw [dropUserInfo_text, dropUserInfo_text] at hrest
  rw [hrest] at htail
  -- What is behind the user information is the same, so that is the same too.
  have huser := userInfoText_injective (List.append_cancel_right htail)
  rw [hhost] at hrest
  -- From here on each part is the same if it is there in both, or missing in both.
  have hmarked := List.append_cancel_left hrest
  have hport := eq_of_marked hmarked hport (by decide) (beginsIn_path w) (beginsIn_path v)
  rw [hport, hpath] at hmarked
  have hends := List.append_cancel_left (List.append_cancel_left hmarked)
  have hquery := eq_of_marked hends hquery (by decide) (beginsIn_marked _ _) (beginsIn_marked _ _)
  rw [hquery] at hends
  have hlast : marked Ascii.hash w.fragment ++ [] = marked Ascii.hash v.fragment ++ [] :=
    congrArg (· ++ []) (List.append_cancel_left hends)
  have hnil : BeginsIn [] ([] : Bytes) := nofun
  have hfragment := eq_of_marked hlast hfragment List.not_mem_nil hnil hnil
  exact Spelling.ext hscheme huser hhost hport hpath hquery hfragment

/-- The spelling without user information, and without the marks of empty parts. -/
def Spelling.plain (w : Spelling) : Spelling :=
  { w with
    userInfo := none
    query := w.query.filter (· ≠ [])
    fragment := w.fragment.filter (· ≠ [])
    isUserInfo := nofun
    hash_not_mem := fun q hq => w.hash_not_mem q (Option.mem_filter_iff.1 hq).1 }

theorem getD_filter (part : Option Bytes) : (part.filter (· ≠ [])).getD [] = part.getD [] := by
  cases part with
  | none => rfl
  | some q => cases q <;> rfl

theorem marked_filter (mark : UInt8) (part : Option Bytes) :
    marked mark (part.filter (· ≠ []))
      = if (part.getD []).isEmpty then [] else mark :: part.getD [] := by
  cases part with
  | none => rfl
  | some q => cases q <;> rfl

theorem Spelling.url_plain (w : Spelling) : w.plain.url = w.url := by
  simp only [url, plain, getD_filter]

/-- The text of a URL is its spelling without what the URL does not keep. -/
theorem Spelling.text_plain (w : Spelling) : w.plain.text = w.url.text := by
  have hport : w.url.hostAndPort = w.host ++ marked Ascii.colon w.port := by
    cases hd : w.port with
    | none =>
        simp only [hostAndPort, url, hd, Option.getD_none, List.isEmpty_nil, if_true]
        exact (List.append_nil _).symm
    | some d =>
        have hne : d.isEmpty = false := List.isEmpty_eq_false_iff.2 (w.isPort d hd).ne_nil
        simp only [hostAndPort, url, hd, Option.getD_some, hne, Bool.false_eq_true, if_false]
        rfl
  rw [Url.text, hport, text]
  simp only [plain, marked_filter, userInfoText, Option.elim_none, List.nil_append,
    List.append_assoc]
  rfl

/-- A target begins with a slash and goes no further than the query. -/
theorem target_spec (w : Spelling) :
    w.url.target.head? = some Ascii.slash ∧ Ascii.hash ∉ w.url.target := by
  -- Without a path the target begins with a slash of its own.
  have hpath : (w.path.orElse "/").head? = some Ascii.slash ∧
      Ascii.hash ∉ w.path.orElse "/" := by
    have hslash := w.isPath.slash
    have hplain : Ascii.hash ∉ w.path := fun hmem => (w.isPath.plain _ hmem).2 rfl
    cases hw : w.path with
    | nil => decide
    | cons b path =>
        rw [hw] at hslash hplain
        exact ⟨congrArg some (hslash b rfl), hplain⟩
  have hquery : Ascii.hash ∉ w.query.getD [] := by
    cases hq : w.query with
    | none => exact List.not_mem_nil
    | some q => exact w.hash_not_mem q hq
  have htarget : w.url.target = w.path.orElse "/" ++
      (if (w.query.getD []).isEmpty then [] else Ascii.question :: w.query.getD []) := rfl
  rw [htarget]
  refine ⟨by rw [List.head?_append, hpath.1, Option.some_or], ?_⟩
  rw [List.mem_append, not_or]
  refine ⟨hpath.2, ?_⟩
  split
  · exact List.not_mem_nil
  · rw [List.mem_cons, not_or]
    exact ⟨by decide, hquery⟩

end Spellings

/-- A text is a URL exactly if it can be spelled as one: a scheme, user information before an `@`,
a host, a port of one to five digits behind a colon, a path that begins with a slash, a query
behind a question mark and a fragment behind a hash, where all but scheme and host may be missing.
There is one way to do so, and it gives the parts of the URL. The text of the URL is read as the
same URL. Its target, which begins with a slash and has no hash, is that of the text it was read
from. -/
theorem parse?_reads_spelling (s : Bytes) :
    ((parse? s).isSome = true ↔ ∃ w : Spelling, w.text = s) ∧
    (∀ w v : Spelling, w.text = s → v.text = s → w = v) ∧
    (∀ w : Spelling, w.text = s → parse? s = some w.url) ∧
    ∀ u, parse? s = some u →
      parse? u.text = some u ∧ u.target.head? = some Ascii.slash ∧ Ascii.hash ∉ u.target ∧
      (parse? u.text).map target = (parse? s).map target := by
  refine ⟨⟨fun h => ?_, ?_⟩, fun w v hw hv => Spelling.text_injective (hw.trans hv.symm), ?_, ?_⟩
  · rcases Option.isSome_iff_exists.1 h with ⟨u, hu⟩
    rcases exists_spelling hu with ⟨w, hw, -⟩
    exact ⟨w, hw⟩
  · rintro ⟨w, rfl⟩
    rw [parse?_text, Option.isSome_some]
  · rintro w rfl
    exact parse?_text w
  · intro u hu
    rcases exists_spelling hu with ⟨w, hw, rfl⟩
    have hback : parse? w.url.text = some w.url := by
      rw [← w.text_plain, parse?_text, w.url_plain]
    exact ⟨hback, (target_spec w).1, (target_spec w).2, by rw [hback, hu]⟩

/-- User information that looks like a host with a port, an address, a port with a zero in front,
marks in parts that they do not end, and a query that is empty. -/
theorem parse?_reads_spelling_marks :
    let s : Bytes := "HTTPS://h:80@[::1]:08/a:b@c//?#d?e#f"
    let u : Url := ⟨"HTTPS", "[::1]", "08", "/a:b@c//", [], "d?e#f"⟩
    let shorter : Bytes := "HTTPS://[::1]:08/a:b@c//#d?e#f"
    parse? s = some u ∧ u.text = shorter ∧ parse? shorter = some u ∧ u.target = "/a:b@c//" ∧
      (parse? shorter).map target = (parse? s).map target ∧
      ∀ w : Spelling, w.text = s → w.userInfo = some "h:80" ∧ w.query = some [] := by
  intro s u shorter
  let spelling : Spelling :=
    { scheme := "HTTPS", userInfo := some "h:80", host := "[::1]", port := some "08"
      path := "/a:b@c//", query := some [], fragment := some "d?e#f"
      isScheme := Or.inr (by decide)
      isUserInfo := fun u hu => Option.mem_some_iff.1 hu ▸ forall_of_all (by decide)
      isHost := .address (s := "::1") (by decide) (forall_of_all (by decide))
      isPort := fun d hd => Option.mem_some_iff.1 hd ▸
        ⟨by decide, by decide, forall_of_all (by decide)⟩
      isPath := ⟨fun b hb => (Option.mem_some_iff.1 hb).symm, forall_of_all (by decide)⟩
      hash_not_mem := by decide }
  have htext : spelling.text = s := by decide +kernel
  rcases parse?_reads_spelling s with ⟨-, hunique, hparts, hback⟩
  have hread : parse? s = some u := hparts spelling htext
  rcases hback u hread with ⟨hagain, -, -, htarget⟩
  have hshorter : u.text = shorter := by decide +kernel
  rw [hshorter] at hagain htarget
  refine ⟨hread, hshorter, hagain, by decide +kernel, htarget, fun w hw => ?_⟩
  rw [hunique w spelling hw htext]
  exact ⟨rfl, rfl⟩

end Url

end SignedHttp
