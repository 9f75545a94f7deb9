import Mathlib.Data.List.Induction
import SignedHttp.Proofs.Signature.Received

/-!
# Names and Parameters Without the Reader

The input header holds two lists, and each is read in one pass: the names between
quotes by a reader that remembers whether a quote is open, the parameters by one that
inserts into a table. What they find is said here by the texts alone.

A quoted name is a decomposition of the list (`QuotedAt`), and a list may have many
that overlap. The leftmost one counts, and then the leftmost one behind its closing
quote (`LeftmostNames`). At one place begins one name at most, so there is one such
sequence of names (`LeftmostNames.unique`), and the reader finds it. The argument is
about where no name can begin: in bytes without a quote, and at the first of two
quotes in a row. Such bytes may stand in front of a list (`LeftmostNames.prepend`).

A parameter is an item with its first equals sign, or one without any (`ItemSays`). Of
several items with one name the last one counts (`LastSays`), which is what inserting
into a table makes of them.

## Main definitions

* `QuotedAt`: A quoted name in a list, and where it stands.
* `LeftmostNames`: The names that do not overlap, from the left.
* `ItemSays`: The name and the value of an item.
* `LastSays`: The last value that the parts of a list give a name.

## Theorems

* `LeftmostNames.unique`: A list has its names in one way only.
* `leftmostNames_iff`: The names that are read are these.
* `itemSays_iff`: An item is read as what it says.
* `find?_readParameters_iff`: A parameter is read as the last value that is given.
-/

namespace SignedHttp

/-- A quoted name in a list: what stands before its opening quote, and behind its closing one. -/
structure QuotedAt (list before name rest : Bytes) : Prop where
  text : list = before ++ Ascii.quote :: (name ++ Ascii.quote :: rest)
  ne_nil : name ≠ []
  free : Ascii.quote ∉ name

/-- The quoted names of a list that do not overlap, from the left: the leftmost one, and then
those of what follows it. -/
inductive LeftmostNames : Bytes → List Bytes → Prop
  | none {list : Bytes} (h : ∀ before name rest, ¬ QuotedAt list before name rest) :
      LeftmostNames list []
  | first {list before name rest : Bytes} {names : List Bytes}
      (hat : QuotedAt list before name rest)
      (hleast : ∀ before' name' rest', QuotedAt list before' name' rest' →
        before.length ≤ before'.length)
      (hrest : LeftmostNames rest names) : LeftmostNames list (name :: names)

variable {list before before' name name' rest rest' a : Bytes} {names names' : List Bytes}

/-- At a place begins one name at most. -/
theorem QuotedAt.unique (h : QuotedAt list before name rest)
    (h' : QuotedAt list before' name' rest') (hlength : before.length = before'.length) :
    name = name' ∧ rest = rest' := by
  have htext := h.text.symm.trans h'.text
  rcases List.append_inj htext hlength with ⟨-, htail⟩
  exact Bytes.append_cons_inj h.free h'.free (List.cons.inj htail).2

/-- A name that begins behind some bytes is one of what follows them. -/
theorem QuotedAt.behind (h : QuotedAt (a ++ list) before name rest)
    (hlength : a.length ≤ before.length) :
    ∃ front, before = a ++ front ∧ QuotedAt list front name rest := by
  rcases List.append_eq_append_iff.1 h.text with ⟨front, hbefore, hlist⟩ | ⟨back, ha, hback⟩
  · exact ⟨front, hbefore, hlist, h.ne_nil, h.free⟩
  · -- The name begins where the bytes end, so nothing of them is behind its beginning.
    rw [ha, List.length_append] at hlength
    have hnil : back = [] := List.length_eq_zero_iff.1 (by omega)
    rw [hnil, List.append_nil] at ha
    rw [hnil, List.nil_append] at hback
    exact ⟨[], by rw [ha, List.append_nil], hback.symm, h.ne_nil, h.free⟩

/-- No name begins in bytes without a quote. -/
theorem QuotedAt.length_le_of_not_mem (h : QuotedAt (a ++ list) before name rest)
    (ha : Ascii.quote ∉ a) : a.length ≤ before.length := by
  rcases List.append_eq_append_iff.1 h.text with ⟨front, hbefore, -⟩ | ⟨back, hback, htext⟩
  · rw [hbefore, List.length_append]
    omega
  · cases back with
    | nil => exact Nat.le_of_eq (by rw [hback, List.append_nil])
    | cons b back =>
        -- The opening quote would be one of the bytes.
        rw [← (List.cons.inj htext).1] at hback
        exact absurd (hback ▸ List.mem_append_right _ List.mem_cons_self) ha

/-- A name needs two quotes, one of them behind the first byte. -/
theorem QuotedAt.quote_mem_tail {b : UInt8} (h : QuotedAt (b :: list) before name rest) :
    Ascii.quote ∈ list := by
  have htext := h.text
  cases before with
  | nil =>
      rw [(List.cons.inj htext).2]
      exact List.mem_append_right _ List.mem_cons_self
  | cons c before =>
      rw [(List.cons.inj htext).2]
      exact List.mem_append_right _ List.mem_cons_self

/-- No name begins at the first of two quotes in a row. -/
theorem QuotedAt.length_pos_of_quotes
    (h : QuotedAt (Ascii.quote :: Ascii.quote :: list) before name rest) : 1 ≤ before.length := by
  have htext := h.text
  cases before with
  | cons c before => exact Nat.le_add_left 1 before.length
  | nil =>
      have hname := (List.cons.inj htext).2
      cases name with
      | nil => exact absurd rfl h.ne_nil
      | cons c name =>
          -- The first byte of the name would be the second quote.
          have hc : Ascii.quote = c := (List.cons.inj hname).1
          exact absurd (hc ▸ List.mem_cons_self) h.free

/-- A list has its names in one way only. -/
theorem LeftmostNames.unique (h : LeftmostNames list names) (h' : LeftmostNames list names') :
    names = names' := by
  -- By induction on the choice of the names; what follows the first one is the same for both.
  induction h generalizing names' with
  | none hnone =>
      cases h' with
      | none _ => rfl
      | first hat _ _ => exact absurd hat (hnone _ _ _)
  | first hat hleast _ ih =>
      cases h' with
      | none hnone => exact absurd hat (hnone _ _ _)
      | first hat' hleast' hrest' =>
          -- Neither is left of the other, so they begin at the same place.
          have hlength := Nat.le_antisymm (hleast _ _ _ hat') (hleast' _ _ _ hat)
          rcases hat.unique hat' hlength with ⟨rfl, rfl⟩
          rw [ih hrest']

/-- Bytes in which no name begins may stand before a list. -/
theorem LeftmostNames.prepend (h : LeftmostNames list names)
    (hskip : ∀ before name rest, QuotedAt (a ++ list) before name rest →
      a.length ≤ before.length) : LeftmostNames (a ++ list) names := by
  cases h with
  | none hnone =>
      refine .none fun before name rest hat => ?_
      rcases hat.behind (hskip _ _ _ hat) with ⟨front, -, hfront⟩
      exact hnone front name rest hfront
  | @first _ before name rest names hat hleast hrest =>
      have hfirst : QuotedAt (a ++ list) (a ++ before) name rest :=
        ⟨by rw [hat.text, List.append_assoc], hat.ne_nil, hat.free⟩
      -- Whatever begins further left would do so in the list as well.
      refine .first hfirst (fun before' name' rest' hat' => ?_) hrest
      rcases hat'.behind (hskip _ _ _ hat') with ⟨front, rfl, hfront⟩
      have hlength := hleast front name' rest' hfront
      rw [List.length_append, List.length_append]
      omega

/-- The reader passes over bytes without a quote. -/
theorem quotedNames_append_of_not_mem (h : Ascii.quote ∉ a) (list : Bytes) :
    quotedNames (a ++ list) = quotedNames list := by
  rw [quotedNames, quotedNames]
  -- The reader is outside of quotes before and after each of these bytes.
  induction a with
  | nil => rfl
  | cons b a ih =>
      rw [List.mem_cons, not_or] at h
      rw [List.cons_append, quotedNamesFrom, if_neg (Ne.symm h.1), ih h.2]

/-- A name in quotes is taken, and the reader goes on behind its closing quote. -/
theorem quotedNames_cons_quoted (hne : name ≠ []) (hname : Ascii.quote ∉ name) (rest : Bytes) :
    quotedNames (Ascii.quote :: (name ++ Ascii.quote :: rest)) = name :: quotedNames rest := by
  have htext : Ascii.quote :: (name ++ Ascii.quote :: rest) = Bytes.quoted name ++ rest := by
    rw [Bytes.quoted_eq, List.cons_append, List.append_assoc, List.singleton_append]
  rw [htext]
  exact quotedNamesFrom_quoted hne hname rest

/-- Without a quote no name is closed. -/
theorem quotedNamesFrom_of_not_mem (h : Ascii.quote ∉ a) (opened : Option Bytes) :
    quotedNamesFrom opened a = [] := by
  induction a generalizing opened with
  | nil => rfl
  | cons b a ih =>
      rw [List.mem_cons, not_or] at h
      have hb := Ne.symm h.1
      -- Outside of quotes, behind an opening one, or inside of a name.
      rcases opened with - | - | ⟨c, acc⟩
      · rw [quotedNamesFrom, if_neg hb, ih h.2]
      · rw [quotedNamesFrom, if_neg hb, ih h.2]
      · rw [quotedNamesFrom, if_neg hb, ih h.2]

/-- The reader takes the names out of a list from the left. -/
theorem leftmostNames_quotedNames (list : Bytes) : LeftmostNames list (quotedNames list) := by
  -- The names that follow the first one, or an empty pair of quotes, are those of a shorter list.
  induction hn : list.length using Nat.strongRecOn generalizing list with
  | _ n ih =>
      by_cases hopen : Ascii.quote ∈ list
      · -- No name begins before the first quote.
        rcases Bytes.exists_first_of_mem hopen with ⟨a, t, rfl, ha⟩
        rw [quotedNames_append_of_not_mem ha]
        refine LeftmostNames.prepend ?_ fun _ _ _ hat => hat.length_le_of_not_mem ha
        rw [List.length_append, List.length_cons] at hn
        by_cases hclose : Ascii.quote ∈ t
        · rcases Bytes.exists_first_of_mem hclose with ⟨name, rest, rfl, hname⟩
          rw [List.length_append, List.length_cons] at hn
          cases name with
          | nil =>
              -- Two quotes in a row enclose nothing, and the second one opens.
              have hrest := ih _ (by rw [List.length_cons]; omega) (Ascii.quote :: rest) rfl
              exact LeftmostNames.prepend (a := [Ascii.quote]) hrest fun _ _ _ hat =>
                hat.length_pos_of_quotes
          | cons b name =>
              have hne : b :: name ≠ [] := List.cons_ne_nil b name
              rw [quotedNames_cons_quoted hne hname]
              have hat : QuotedAt (Ascii.quote :: (b :: name ++ Ascii.quote :: rest)) []
                  (b :: name) rest := ⟨rfl, hne, hname⟩
              exact .first hat (fun _ _ _ _ => Nat.zero_le _) (ih _ (by omega) rest rfl)
        · -- The quote is the only one, so it opens a name that is never closed.
          have hread : quotedNames (Ascii.quote :: t) = [] := by
            rw [quotedNames, quotedNamesFrom, if_pos rfl, quotedNamesFrom_of_not_mem hclose]
          rw [hread]
          exact .none fun _ _ _ hat => hclose hat.quote_mem_tail
      · rw [quotedNames, quotedNamesFrom_of_not_mem hopen]
        exact .none fun _ _ _ hat => hopen (hat.text ▸ List.mem_append_right _ List.mem_cons_self)

/-- The leftmost names are those that the reader takes, since there is one way only to choose them.
-/
theorem leftmostNames_iff : LeftmostNames list names ↔ names = quotedNames list :=
  ⟨fun h => h.unique (leftmostNames_quotedNames list),
    fun h => h ▸ leftmostNames_quotedNames list⟩

/-- Of two quotes in a row the second one opens, and a quote that closes a name opens none. -/
example : quotedNames "\"\"a\"b\"c\"d\"" = (["a", "c"] : List Bytes) := by decide

/-- What an item says: the name before its first equals sign and the value behind it, both
trimmed, and the value without its quotes. An item without an equals sign is a name. -/
inductive ItemSays : Bytes → Bytes → Bytes → Prop
  | pair {name value : Bytes} (h : Ascii.equals ∉ name) :
      ItemSays (name ++ Ascii.equals :: value) name.trim value.trim.unquote
  | bare {item : Bytes} (h : Ascii.equals ∉ item) : ItemSays item item.trim []

/-- The value that the last of several parts gives a name. Blank parts say nothing. -/
def LastSays (parts : List Bytes) (name value : Bytes) : Prop :=
  ∃ earlier part later, parts = earlier ++ part :: later ∧
    (part.trim ≠ [] ∧ ItemSays part.trim name value) ∧
    ∀ other ∈ later, other.trim ≠ [] → ∀ v, ¬ ItemSays other.trim name v

/-- What an item says is what the reader makes of it. -/
theorem itemSays_iff {item name value : Bytes} :
    ItemSays item name value ↔ readParameter item = (name, value) := by
  constructor
  · intro h
    cases h with
    | pair h => rw [readParameter, Bytes.splitPair_append_cons h]
    | bare h =>
        rw [readParameter, Bytes.splitPair, Bytes.cut_eq_none_iff.2 h]
        rfl
  · intro h
    rw [readParameter, Bytes.splitPair] at h
    -- An item is cut at its first equals sign, or there is none.
    cases hcut : Bytes.cut Ascii.equals item with
    | some p =>
        rcases Bytes.cut_eq_some_iff.1 hcut with ⟨rfl, hfree⟩
        simp only [hcut, Prod.mk.injEq] at h
        rw [← h.1, ← h.2]
        exact .pair hfree
    | none =>
        simp only [hcut, Prod.mk.injEq] at h
        rw [← h.1, ← h.2]
        exact .bare (Bytes.cut_eq_none_iff.1 hcut)

/-- One more part says the last value, or it says nothing of the name. -/
theorem lastSays_concat_iff {parts : List Bytes} {part name value : Bytes} :
    LastSays (parts ++ [part]) name value ↔
      (part.trim ≠ [] ∧ ItemSays part.trim name value) ∨
      LastSays parts name value ∧ (part.trim ≠ [] → ∀ v, ¬ ItemSays part.trim name v) :=
  exists_last_concat_iff

/-- The table of the parameters has the last value of each name. -/
theorem find?_readParameters_iff {text name value : Bytes} :
    (readParameters text).find? name = some value ↔
      LastSays (Bytes.segments Ascii.semicolon text) name value := by
  rw [readParameters, Bytes.split_eq]
  generalize Bytes.segments Ascii.semicolon text = parts
  -- The table is filled from the first part to the last, so the last part is the one to look at.
  induction parts using List.reverseRecOn with
  | nil =>
      constructor
      · rintro ⟨⟩
      · rintro ⟨earlier, _, _, heq, -⟩
        exact absurd heq.symm (List.append_ne_nil_of_right_ne_nil _ (List.cons_ne_nil _ _))
  | append_singleton parts part ih =>
      rw [lastSays_concat_iff, ← ih, List.map_append, List.filter_append, List.map_append]
      by_cases hblank : part.trim = []
      · -- A blank part makes no entry.
        rw [List.map_singleton, List.filter_cons_of_neg (by simp [hblank]), List.filter_nil,
          List.map_nil, List.append_nil]
        exact ⟨fun h => Or.inr ⟨h, fun hne => absurd hblank hne⟩,
          fun h => h.elim (fun hsays => absurd hblank hsays.1) And.left⟩
      · rcases hread : readParameter part.trim with ⟨n, v⟩
        have hsays : ItemSays part.trim n v := itemSays_iff.2 hread
        -- A part says one thing at most.
        have hunique : ∀ {n' v' : Bytes}, ItemSays part.trim n' v' → n = n' ∧ v = v' := by
          intro n' v' h
          rw [itemSays_iff, hread, Prod.mk.injEq] at h
          exact h
        rw [List.map_singleton, List.filter_cons_of_pos (by simp [hblank]), List.filter_nil,
          List.map_singleton, Table.ofList_concat, hread]
        -- The last part is about the name that is looked for, or about another one.
        by_cases hname : name = n
        · subst hname
          rw [Table.find?_insert_self, Option.some.injEq]
          constructor
          · rintro rfl
            exact Or.inl ⟨hblank, hsays⟩
          · rintro (⟨-, h⟩ | ⟨-, hnone⟩)
            · exact (hunique h).2
            · exact absurd hsays (hnone hblank v)
        · rw [Table.find?_insert_of_ne hname]
          constructor
          · exact fun h => Or.inr ⟨h, fun _ v' h' => hname (hunique h').1.symm⟩
          · rintro (⟨-, h⟩ | ⟨h, -⟩)
            · exact absurd (hunique h).1.symm hname
            · exact h

end SignedHttp
