import SignedHttp.Text.Bytes

/-!
# Splitting

A parameter list is split at every occurrence of a separator, and each item is
trimmed. The number of items is fixed by the separators alone: empty text is one
empty item, and two separators in a row have an empty item between them. Which
items are meaningless is left to the reader of the list.

A list is gone through with a cursor. It holds the item it stands at and the text
behind that item's separator, and moves on by taking the first item of that text. An
empty text and no text are different things to it: behind a separator at the end
there is an empty text, which is one more item, and behind the last item there is
no text, from which the cursor moves to the end.

`Bytes.segments` is the split without the trimming, said byte by byte. It is the
inverse of joining by the separator (`join_segments`), and every segment is free of
the separator (`not_mem_of_mem_segments`), which together fix it.

## Main definitions

* `Bytes.segments`: The parts of a text between the occurrences of a byte.
* `Bytes.Cursor`: A place among the items of a text.
* `Bytes.split`: The items that a cursor comes to.
* `Bytes.splitPair`: The trimmed parts before and after the first occurrence.

## Theorems

* `join_segments`: Joining the segments by the separator gives the text back.
* `not_mem_of_mem_segments`: No segment holds the separator.
* `length_segments`: There is one segment more than there are separators.
-/

namespace SignedHttp

namespace Bytes

/-- The parts of a text between the occurrences of `sep`. -/
def segments (sep : UInt8) : Bytes → List Bytes
  | [] => [[]]
  | b :: s =>
    if b = sep then [] :: segments sep s
    else
      match segments sep s with
      | [] => [[b]]
      | part :: parts => (b :: part) :: parts

/-- A place among the items of a text: the trimmed item, and the text behind its separator. -/
structure Cursor where
  item : Option Bytes
  rest : Option Bytes
  deriving DecidableEq

namespace Cursor

/-- The place behind the last item. -/
def atEnd : Cursor := ⟨none, none⟩

/-- The place at the item up to the first separator of a text, of which some bytes have been
passed, the last one first. -/
def upTo (sep : UInt8) (passed : Bytes) : Bytes → Cursor
  | [] => ⟨some (trim passed.reverse), none⟩
  | b :: s =>
    if b = sep then ⟨some (trim passed.reverse), some s⟩ else upTo sep (b :: passed) s

/-- The place at the first item of a text. No text has no items. -/
def first (sep : UInt8) : Option Bytes → Cursor
  | none => atEnd
  | some s => upTo sep [] s

/-- The place one item further on. -/
def next (sep : UInt8) (c : Cursor) : Cursor := first sep c.rest

/-- The items from a place on, as long as the end is not reached, and at most so many. -/
def items (sep : UInt8) : Nat → Cursor → List Bytes
  | 0, _ => []
  | fuel + 1, ⟨item, rest⟩ =>
    if ⟨item, rest⟩ = atEnd then [] else item.getD [] :: items sep fuel (next sep ⟨item, rest⟩)

end Cursor

/-- The items of a list written with the separator `sep`, each one trimmed. -/
def split (sep : UInt8) (s : Bytes) : List Bytes :=
  -- Every item but the last has a separator behind it.
  Cursor.items sep (s.length + 1) (.first sep (some s))

/-- The trimmed parts before and after the first `sep`; without one, the whole and nothing. -/
def splitPair (sep : UInt8) (s : Bytes) : Bytes × Bytes :=
  match cut sep s with
  | some (key, value) => (trim key, trim value)
  | none => (trim s, [])

theorem segments_ne_nil (sep : UInt8) (s : Bytes) : segments sep s ≠ [] := by
  cases s with
  | nil => simp [segments]
  | cons b s =>
    simp only [segments]
    split
    · simp
    · split <;> simp

theorem join_segments (sep : UInt8) (s : Bytes) : join [sep] (segments sep s) = s := by
  induction s with
  | nil => rfl
  | cons b s ih =>
    simp only [segments]
    cases hs : segments sep s with
    | nil => exact absurd hs (segments_ne_nil sep s)
    | cons part parts =>
      rw [hs] at ih
      split
      · next hb => rw [join, ih, hb]; rfl
      · cases parts with
        | nil => rw [join] at ih ⊢; rw [ih]
        | cons next rest => rw [join] at ih ⊢; rw [List.cons_append, ih]

theorem not_mem_of_mem_segments {sep : UInt8} {s part : Bytes}
    (h : part ∈ segments sep s) : sep ∉ part := by
  induction s generalizing part with
  | nil => simp [segments] at h; simp [h]
  | cons b s ih =>
    simp only [segments] at h
    split at h
    · rcases List.mem_cons.1 h with rfl | h
      · simp
      · exact ih h
    · next hb =>
      cases hs : segments sep s with
      | nil => exact absurd hs (segments_ne_nil sep s)
      | cons first parts =>
        rw [hs] at h ih
        rcases List.mem_cons.1 h with rfl | h
        · simp [Ne.symm hb, ih (List.mem_cons_self ..)]
        · exact ih (List.mem_cons_of_mem _ h)

theorem length_segments (sep : UInt8) (s : Bytes) :
    (segments sep s).length = s.count sep + 1 := by
  induction s with
  | nil => rfl
  | cons b s ih =>
    simp only [segments]
    split
    · next hb => simp [hb, ih]
    · next hb =>
      cases hs : segments sep s with
      | nil => exact absurd hs (segments_ne_nil sep s)
      | cons first parts =>
        rw [hs] at ih
        simp only [List.length_cons] at ih ⊢
        rw [List.count_cons_of_ne (Ne.symm hb |> fun h => by simpa using Ne.symm h), ← ih]

end Bytes

end SignedHttp
