import SignedHttp.Text.Split

/-!
# Reading What Was Joined

The laws of splitting that a reader of a header relies on. A text is cut at the
first byte that its first part does not hold, so a text that was put together from
parts free of the separator comes apart into the same parts (`append_cons_inj`,
`segments_append_cons`).

Trimming and unquoting never add a byte. What they leave of an item is therefore
as free of the separator as the item was (`not_mem_of_mem_split`), and a value in
quotes, which begins and ends with no blank, is left alone by the one and comes out
of the other as it was put in.

## Main definitions

* `Cursor.Yields`: The items from a place on, up to the end.
* `Separates`: The parts of a text between the occurrences of a byte.

## Theorems

* `exists_last_concat_iff`: The last of several, with one more behind them.
* `append_cons_inj`: The part before the first separator is determined by the text.
* `segments_of_not_mem`, `segments_append_cons`: The segments of a joined text.
* `yields_first`: From the first item on, the segments are come to.
* `separates_iff`: The segments are the parts, and there are no others.
* `split_join`: The items of a list that was put together.
* `trim_eq_self`, `trim_cons_append`: A text without blanks at its ends is trimmed already.
* `trim_subset`, `unquote_subset`: Trimming and unquoting add no byte.
* `trim_quoted`, `unquote_quoted`: A quoted text is not trimmed, and is unquoted to itself.
* `splitPair_append_cons`: The two parts of a joined pair.
* `not_mem_of_mem_split`: No item holds the separator.
-/

namespace SignedHttp

/-- The last of several with a property `p` is followed by what has the property `q`: with one
more behind them, it is this one, or this one has `q` too. -/
theorem exists_last_concat_iff {α : Type} {p q : α → Prop} {l : List α} {a : α} :
    (∃ before x after, l ++ [a] = before ++ x :: after ∧ p x ∧ ∀ y ∈ after, q y) ↔
      p a ∨ (∃ before x after, l = before ++ x :: after ∧ p x ∧ ∀ y ∈ after, q y) ∧ q a := by
  constructor
  · rintro ⟨before, x, after, heq, hx, hafter⟩
    -- Either nothing follows, or what follows ends with the new one.
    rcases List.eq_nil_or_concat after with rfl | ⟨after, y, rfl⟩
    · have hlast := List.append_inj_right' heq rfl
      rw [(List.cons.inj hlast).1]
      exact Or.inl hx
    · rw [List.concat_eq_append] at heq hafter
      rw [← List.cons_append, ← List.append_assoc] at heq
      have hlast := List.append_inj_right' heq rfl
      rw [List.forall_mem_append, List.forall_mem_singleton, ← (List.cons.inj hlast).1] at hafter
      exact Or.inr ⟨⟨before, x, after, List.append_inj_left' heq rfl, hx, hafter.1⟩, hafter.2⟩
  · rintro (ha | ⟨⟨before, x, after, rfl, hx, hafter⟩, ha⟩)
    · exact ⟨l, a, [], rfl, ha, fun y hy => absurd hy List.not_mem_nil⟩
    · refine ⟨before, x, after ++ [a], by rw [List.append_assoc, List.cons_append], hx, ?_⟩
      rw [List.forall_mem_append, List.forall_mem_singleton]
      exact ⟨hafter, ha⟩

namespace Bytes

/-- The part before the first `b`, and what follows it, are determined by the text. -/
theorem append_cons_inj {b : UInt8} {x y s t : Bytes} (hx : b ∉ x) (hy : b ∉ y)
    (h : x ++ b :: s = y ++ b :: t) : x = y ∧ s = t := by
  have hcut : cut b (x ++ b :: s) = some (x, s) := cut_eq_some_iff.2 ⟨rfl, hx⟩
  rw [h, cut_eq_some_iff.2 ⟨rfl, hy⟩, Option.some.injEq, Prod.mk.injEq] at hcut
  exact ⟨hcut.1.symm, hcut.2.symm⟩

theorem segments_of_not_mem {sep : UInt8} {s : Bytes} (h : sep ∉ s) : segments sep s = [s] := by
  induction s with
  | nil => rfl
  | cons b s ih =>
      rw [List.mem_cons, not_or] at h
      simp only [segments, if_neg (Ne.symm h.1), ih h.2]

/-- The first segment ends at the first separator. -/
theorem segments_append_cons {sep : UInt8} {s : Bytes} (h : sep ∉ s) (t : Bytes) :
    segments sep (s ++ sep :: t) = s :: segments sep t := by
  induction s with
  | nil => simp only [List.nil_append, segments, if_true]
  | cons b s ih =>
      rw [List.mem_cons, not_or] at h
      simp only [List.cons_append, segments, if_neg (Ne.symm h.1), ih h.2]

/-- Texts that a separator stands between, and in none of them, come out as the segments. -/
theorem segments_join {sep : UInt8} {parts : List Bytes} (hne : parts ≠ [])
    (hfree : ∀ part ∈ parts, sep ∉ part) : segments sep (join [sep] parts) = parts := by
  induction parts with
  | nil => exact absurd rfl hne
  | cons part parts ih =>
      rw [List.forall_mem_cons] at hfree
      cases parts with
      | nil => exact segments_of_not_mem hfree.1
      | cons next parts =>
          -- The first part has the first separator behind it.
          rw [join, List.singleton_append, segments_append_cons hfree.1,
            ih (List.cons_ne_nil _ _) hfree.2]

namespace Cursor

/-- Moving on from a place item by item gives these items, and then the end is reached. -/
inductive Yields (sep : UInt8) : Cursor → List Bytes → Prop
  | atEnd : Yields sep atEnd []
  | next {c : Cursor} {item : Bytes} {items : List Bytes} (hne : c ≠ atEnd)
      (hitem : c.item = some item) (h : Yields sep (c.next sep) items) :
      Yields sep c (item :: items)

theorem upTo_of_not_mem {sep : UInt8} {s : Bytes} (h : sep ∉ s) (passed : Bytes) :
    upTo sep passed s = ⟨some (trim (passed.reverse ++ s)), none⟩ := by
  induction s generalizing passed with
  | nil => rw [upTo, List.append_nil]
  | cons b s ih =>
      rw [List.mem_cons, not_or] at h
      rw [upTo, if_neg (Ne.symm h.1), ih h.2, List.reverse_cons, List.append_assoc,
        List.singleton_append]

/-- A search stops at the first separator ahead. -/
theorem upTo_append_cons {sep : UInt8} {s : Bytes} (h : sep ∉ s) (passed t : Bytes) :
    upTo sep passed (s ++ sep :: t) = ⟨some (trim (passed.reverse ++ s)), some t⟩ := by
  induction s generalizing passed with
  | nil => rw [List.nil_append, upTo, if_pos rfl, List.append_nil]
  | cons b s ih =>
      rw [List.mem_cons, not_or] at h
      rw [List.cons_append, upTo, if_neg (Ne.symm h.1), ih h.2, List.reverse_cons,
        List.append_assoc, List.singleton_append]

/-- In a text without a separator the cursor stands at the whole text, and nothing is behind. -/
theorem first_of_not_mem {sep : UInt8} {s : Bytes} (h : sep ∉ s) :
    first sep (some s) = ⟨some (trim s), none⟩ := upTo_of_not_mem h []

/-- Otherwise it stands at what is before the first separator, and the text behind is left. -/
theorem first_append_cons {sep : UInt8} {s : Bytes} (h : sep ∉ s) (t : Bytes) :
    first sep (some (s ++ sep :: t)) = ⟨some (trim s), some t⟩ := upTo_append_cons h [] t

/-- Of the text that a cursor starts from, it comes to all segments, each one trimmed. -/
theorem yields_first (sep : UInt8) (s : Bytes) :
    (first sep (some s)).Yields sep ((segments sep s).map trim) := by
  -- By induction on the length of what is left.
  induction hn : s.length using Nat.strongRecOn generalizing s with
  | _ n ih =>
      by_cases hsep : sep ∈ s
      · -- What is behind the separator is shorter than the text.
        rcases exists_first_of_mem hsep with ⟨x, y, rfl, hx⟩
        rw [List.length_append, List.length_cons] at hn
        rw [first_append_cons hx, segments_append_cons hx]
        exact .next (by simp [atEnd]) rfl (ih y.length (by omega) y rfl)
      · rw [first_of_not_mem hsep, segments_of_not_mem hsep]
        exact .next (by simp [atEnd]) rfl .atEnd

/-- What a cursor comes to before the end is listed, if as many items are asked for. -/
theorem items_of_yields {sep : UInt8} {c : Cursor} {l : List Bytes} {fuel : Nat}
    (h : c.Yields sep l) (hfuel : l.length ≤ fuel) : items sep fuel c = l := by
  induction h generalizing fuel with
  | atEnd =>
      cases fuel with
      | zero => rfl
      | succ fuel => rw [items, if_pos rfl]
  | @next c item l hne hitem _ ih =>
      cases fuel with
      | zero => exact absurd hfuel (Nat.not_succ_le_zero _)
      | succ fuel =>
          rcases c with ⟨place, rest⟩
          obtain rfl : place = some item := hitem
          rw [items, if_neg hne, ih (Nat.le_of_succ_le_succ hfuel)]
          rfl

end Cursor

/-- The items are the segments, each one trimmed. -/
theorem split_eq (sep : UInt8) (s : Bytes) : split sep s = (segments sep s).map trim := by
  refine Cursor.items_of_yields (Cursor.yields_first sep s) ?_
  rw [List.length_map, length_segments]
  exact Nat.succ_le_succ List.count_le_length

/-- Items without blanks at their ends come out of a list as they were put in. -/
theorem split_join {sep : UInt8} {items : List Bytes} (hne : items ≠ [])
    (hfree : ∀ item ∈ items, sep ∉ item) (htrim : ∀ item ∈ items, trim item = item) :
    split sep (join [sep] items) = items := by
  rw [split_eq, segments_join hne hfree]
  exact (List.map_congr_left htrim).trans (List.map_id' items)

/-- The parts of a text between the occurrences of a byte: with the byte between them they are
the text, and none of them holds it. -/
structure Separates (sep : UInt8) (parts : List Bytes) (s : Bytes) : Prop where
  ne_nil : parts ≠ []
  joined : join [sep] parts = s
  free : ∀ part ∈ parts, sep ∉ part

/-- There is one way to separate a text. -/
theorem separates_iff {sep : UInt8} {parts : List Bytes} {s : Bytes} :
    Separates sep parts s ↔ parts = segments sep s := by
  constructor
  · intro h
    rw [← h.joined, segments_join h.ne_nil h.free]
  · intro h
    rw [h]
    exact ⟨segments_ne_nil sep s, join_segments sep s, fun _ hpart => not_mem_of_mem_segments hpart⟩

theorem trimRight_subset (s : Bytes) : trimRight s ⊆ s := by
  intro b hb
  rw [trimRight, List.mem_reverse] at hb
  exact List.mem_reverse.1 ((List.dropWhile_sublist _).subset hb)

theorem trim_subset (s : Bytes) : trim s ⊆ s := fun _ hb =>
  (List.dropWhile_sublist _).subset (trimRight_subset _ hb)

theorem unquote_subset (s : Bytes) : unquote s ⊆ s := by
  intro b hb
  rw [unquote] at hb
  split at hb
  · exact (List.tail_sublist s).subset ((List.dropLast_sublist _).subset hb)
  · exact hb

/-- A text whose first and last byte are no blanks has none to be trimmed. -/
theorem trim_eq_self {s : Bytes} (hfirst : ∀ b ∈ s.head?, Ascii.isBlank b = false)
    (hlast : ∀ b ∈ s.getLast?, Ascii.isBlank b = false) : trim s = s := by
  have hleft : s.dropWhile Ascii.isBlank = s := by
    cases s with
    | nil => rfl
    | cons b s =>
        rw [List.dropWhile_cons, hfirst b rfl]
        rfl
  -- The right end is the left end of the reversed text.
  have hright : s.reverse.dropWhile Ascii.isBlank = s.reverse := by
    cases hs : s.reverse with
    | nil => rfl
    | cons b t =>
        have hb : b ∈ s.getLast? := by
          rw [← List.head?_reverse, hs]
          rfl
        rw [List.dropWhile_cons, hlast b hb]
        rfl
  rw [trim, hleft, trimRight, hright, List.reverse_reverse]

/-- A text that begins and ends with no blank is trimmed already, whatever is between. -/
theorem trim_cons_append {b : UInt8} {x y : Bytes} (hfirst : Ascii.isBlank b = false)
    (hlast : ∀ c ∈ y.getLast?, Ascii.isBlank c = false) (hy : y ≠ []) :
    trim (b :: (x ++ y)) = b :: (x ++ y) := by
  refine trim_eq_self (fun c hc => ?_) (fun c hc => hlast c ?_)
  · rw [List.head?_cons, Option.mem_some_iff] at hc
    rw [← hc, hfirst]
  · rw [← List.cons_append, List.getLast?_append] at hc
    cases h : y.getLast? with
    | none => exact absurd (List.getLast?_eq_none_iff.1 h) hy
    | some d =>
        rw [h, Option.some_or] at hc
        exact hc

theorem quoted_eq (s : Bytes) : quoted s = Ascii.quote :: (s ++ [Ascii.quote]) := rfl

theorem mem_quoted {b : UInt8} {s : Bytes} : b ∈ quoted s ↔ b = Ascii.quote ∨ b ∈ s := by
  rw [quoted_eq, List.mem_cons, List.mem_append, List.mem_singleton]
  exact ⟨fun h => h.elim Or.inl (Or.comm.1), fun h => h.elim Or.inl fun hs => Or.inr (Or.inl hs)⟩

/-- Quotes add no byte but themselves. -/
theorem not_mem_quoted {b : UInt8} {s : Bytes} (hb : b ≠ Ascii.quote) (hs : b ∉ s) :
    b ∉ quoted s := by
  rw [mem_quoted, not_or]
  exact ⟨hb, hs⟩

theorem getLast?_quoted (s : Bytes) : (quoted s).getLast? = some Ascii.quote := by
  rw [quoted_eq, ← List.cons_append, List.getLast?_concat]

theorem isBlank_of_mem_getLast?_quoted {b : UInt8} {s : Bytes} (h : b ∈ (quoted s).getLast?) :
    Ascii.isBlank b = false := by
  rw [getLast?_quoted, Option.mem_some_iff] at h
  rw [← h]
  decide

/-- Blanks inside of quotes are kept. -/
theorem trim_quoted (s : Bytes) : trim (quoted s) = quoted s := by
  refine trim_eq_self (fun b hb => ?_) (fun _ hb => isBlank_of_mem_getLast?_quoted hb)
  rw [quoted_eq, List.head?_cons, Option.mem_some_iff] at hb
  rw [← hb]
  decide

/-- Quotes that were put around a text come off, and no others. -/
theorem unquote_quoted (s : Bytes) : unquote (quoted s) = s := by
  -- Two quotes are two bytes, also around an empty text.
  have hq : isQuoted (quoted s) = true := by
    rw [isQuoted, getLast?_quoted, quoted_eq]
    simp only [List.head?_cons, List.length_cons, List.length_append, List.length_nil,
      beq_self_eq_true, Bool.and_true, decide_eq_true_eq]
    omega
  rw [unquote, if_pos hq, quoted_eq, List.tail_cons, List.dropLast_concat]

/-- A pair is cut at the first separator. -/
theorem splitPair_append_cons {sep : UInt8} {x : Bytes} (h : sep ∉ x) (y : Bytes) :
    splitPair sep (x ++ sep :: y) = (trim x, trim y) := by
  rw [splitPair, cut_eq_some_iff.2 ⟨rfl, h⟩]

/-- The value of a pair is part of the pair. -/
theorem splitPair_snd_subset (sep : UInt8) (s : Bytes) : (splitPair sep s).2 ⊆ s := by
  rw [splitPair]
  split
  · next key value hcut =>
    rw [(cut_eq_some_iff.1 hcut).1]
    intro b hb
    exact List.mem_append_right _ (List.mem_cons_of_mem _ (trim_subset _ hb))
  · exact List.nil_subset _

theorem not_mem_of_mem_split {sep : UInt8} {s item : Bytes} (h : item ∈ split sep s) :
    sep ∉ item := by
  rw [split_eq] at h
  rcases List.mem_map.1 h with ⟨part, hpart, rfl⟩
  exact fun hmem => not_mem_of_mem_segments hpart (trim_subset part hmem)

end Bytes

end SignedHttp
