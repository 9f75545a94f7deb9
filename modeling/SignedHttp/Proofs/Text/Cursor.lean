import Mathlib.Data.List.Forall2
import Mathlib.Data.List.TakeWhile
import SignedHttp.Proofs.Text.Split

/-!
# A Cursor Comes to Every Item

Going through the items of a text with a cursor ends, and by then every part of the
text between two separators has been seen, without the blanks around it.

A cursor never goes back, and what is left of the text is shorter after each step, so
the end is reached. It is reached neither early nor late: the cursor is at the end only
if it came from an item with no text behind it, and that is the part behind the last
separator, which is empty if the text ends with one. A text of blanks is an item, too,
and so is no byte at all.

`Cursor.Yields` is the loop itself, so it has a list of items only if the loop ends.

## Main definitions

* `Trims`: What a text is without the blanks around it.

## Theorems

* `trims_iff`: Trimming gives the text without the blanks around it.
* `Yields.unique`: From a place on there is one list of items.
* `yields_iff_separates`: The items are the parts of the text, trimmed.
-/

namespace SignedHttp

namespace Bytes

variable {sep : UInt8} {s t : Bytes}

/-- A text is another one with blanks before and behind it, and no blank of its own at either
end. -/
structure Trims (s t : Bytes) : Prop where
  around : ∃ before after, s = before ++ (t ++ after) ∧
    (∀ b ∈ before, Ascii.isBlank b = true) ∧ ∀ b ∈ after, Ascii.isBlank b = true
  first : ∀ b ∈ t.head?, Ascii.isBlank b = false
  last : ∀ b ∈ t.getLast?, Ascii.isBlank b = false

theorem isBlank_of_mem_head?_dropWhile {b : UInt8}
    (h : b ∈ (s.dropWhile Ascii.isBlank).head?) : Ascii.isBlank b = false := by
  have hnot := List.head?_dropWhile_not Ascii.isBlank s
  rw [Option.mem_def.1 h] at hnot
  exact hnot

/-- What is trimmed off at the right end are blanks. -/
theorem trimRight_append (s : Bytes) : ∃ after, s = trimRight s ++ after ∧
    ∀ b ∈ after, Ascii.isBlank b = true := by
  refine ⟨(s.reverse.takeWhile Ascii.isBlank).reverse, ?_, fun b hb => ?_⟩
  · rw [trimRight, ← List.reverse_append, List.takeWhile_append_dropWhile, List.reverse_reverse]
  · exact List.mem_takeWhile_imp (List.mem_reverse.1 hb)

/-- Trimming takes off blanks, and all of them. -/
theorem trims_trim (s : Bytes) : Trims s (trim s) := by
  rcases trimRight_append (s.dropWhile Ascii.isBlank) with ⟨after, hafter, hblank⟩
  refine ⟨⟨s.takeWhile Ascii.isBlank, after, ?_, fun b hb => List.mem_takeWhile_imp hb, hblank⟩,
    fun b hb => ?_, fun b hb => ?_⟩
  · rw [trim, ← hafter, List.takeWhile_append_dropWhile]
  · -- What is left begins where the text behind the first blanks begins.
    refine isBlank_of_mem_head?_dropWhile (s := s) ?_
    change (trim s).head? = some b at hb
    rw [hafter, List.head?_append, ← trim, hb]
    rfl
  · rw [trim, trimRight, List.getLast?_reverse] at hb
    exact isBlank_of_mem_head?_dropWhile hb

/-- Blanks behind a text are trimmed off, and no others. -/
theorem trimRight_append_of_blank (h : ∀ b ∈ t, Ascii.isBlank b = true) :
    trimRight (s ++ t) = trimRight s := by
  rw [trimRight, trimRight, List.reverse_append,
    List.dropWhile_append_of_pos fun b hb => h b (List.mem_reverse.1 hb)]

/-- There is one text that another one is without the blanks around it. -/
theorem trims_iff : Trims s t ↔ t = trim s := by
  constructor
  · rintro ⟨⟨before, after, rfl, hbefore, hafter⟩, hfirst, hlast⟩
    rw [trim, List.dropWhile_append_of_pos hbefore]
    -- A text of blanks has none of its ends left, so it is looked at apart.
    cases t with
    | nil => rw [List.nil_append, List.dropWhile_eq_nil_iff.2 hafter]; rfl
    | cons b t =>
        have hb : ¬ Ascii.isBlank b = true := by
          rw [hfirst b rfl]
          exact Bool.false_ne_true
        rw [List.cons_append, List.dropWhile_cons_of_neg hb, ← List.cons_append,
          trimRight_append_of_blank hafter]
        have hself := trim_eq_self hfirst hlast
        rw [trim, List.dropWhile_cons_of_neg hb] at hself
        exact hself.symm
  · rintro rfl
    exact trims_trim s

namespace Cursor

variable {c : Cursor} {items : List Bytes}

/-- From a place on there is one way to go. -/
theorem Yields.unique {items' : List Bytes} (h : c.Yields sep items) (h' : c.Yields sep items') :
    items = items' := by
  -- By induction on the way; at each place the item is that of the place.
  induction h generalizing items' with
  | atEnd =>
      cases h' with
      | atEnd => rfl
      | next hne _ _ => exact absurd rfl hne
  | next hne hitem _ ih =>
      cases h' with
      | atEnd => exact absurd rfl hne
      | next _ hitem' h' =>
          rw [Option.some.inj (hitem.symm.trans hitem'), ih h']

end Cursor

/-- Going through a text item by item ends. The items are then the parts of the text between the
separators, without the blanks around them, one part more than there are separators, and they are
what the text is split into. -/
theorem yields_iff_separates (sep : UInt8) (s : Bytes) :
    (∀ items, (Cursor.first sep (some s)).Yields sep items ↔
      ∃ parts, Separates sep parts s ∧ List.Forall₂ Trims parts items) ∧
    (Cursor.first sep (some s)).Yields sep (split sep s) ∧
    (split sep s).length = s.count sep + 1 := by
  have hyields := Cursor.yields_first sep s
  rw [← split_eq] at hyields
  refine ⟨fun items => ⟨fun h => ?_, ?_⟩, hyields, ?_⟩
  · rw [h.unique hyields, split_eq]
    exact ⟨_, separates_iff.2 rfl,
      List.forall₂_map_right_iff.2 (List.forall₂_same.2 fun part _ => trims_trim part)⟩
  · rintro ⟨parts, hparts, htrims⟩
    -- Each item is the trimmed part, as there is one way to trim it.
    have hitems : items = (segments sep s).map trim := by
      rw [separates_iff] at hparts
      rw [hparts] at htrims
      generalize segments sep s = parts at htrims
      induction htrims with
      | nil => rfl
      | cons htrim _ ih => rw [List.map_cons, ← ih, trims_iff.1 htrim]
    rw [hitems, ← split_eq]
    exact hyields
  · rw [split_eq, List.length_map, length_segments]

/-- Blanks may be the separator, and then nothing is left to trim. -/
example : split Ascii.semicolon ";a ; \t;" = [[], [0x61], [], []] ∧
    split Ascii.space " a  " = [[], [0x61], [], []] ∧ split Ascii.space "" = [[]] := by
  decide

end Bytes

end SignedHttp
