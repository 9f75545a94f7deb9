import SignedHttp.Message.Basic

/-!
# Headers That Were Set

Setting a field leaves one field of its name, so a header that was only ever set has
at most one of each. Such a header is a map: nothing about it depends on the order in
which its fields were set. When it is put into another one, what is found under a
name is its own field, or else the one that was there before.

A field that is changed where it stands keeps its name, and no other name is concerned.

## Main definitions

* `Fields.Distinct`: No two fields have the same name.
* `Fields.modify`: A header with the value of a field changed.
* `Fields.values`: The values of all fields of a name.
* `Fields.Within`: What is found in a header is found in another one.

## Theorems

* `Distinct.set`: Setting a field keeps names apart.
* `find?_setAll`: A header that is put into another one comes before it.
* `find?_modify_same`, `find?_modify_other`: What is found after a change.
* `head?_values`: What is found under a name is the first of its values.
* `values_setAll`: A header that is put into another one leaves one value of a name or all.
* `values_setAll_within`: A header changes nothing where all of it was put in before.
-/

namespace SignedHttp

theorem sameName_comm (a b : Bytes) : sameName a b = sameName b a := by
  simp only [sameName, Bool.beq_comm]

/-- Names that are the same as a third one are the same, because all are compared in lower case. -/
theorem sameName_trans {a b c : Bytes} (hab : sameName a b = true) (hbc : sameName b c = true) :
    sameName a c = true := by
  simp only [sameName, beq_iff_eq] at hab hbc ⊢
  exact hab.trans hbc

namespace Fields

/-- No two fields have the same name. -/
def Distinct (f : Fields) : Prop :=
  f.entries.Pairwise fun e e' => sameName e.1 e'.1 = false

theorem distinct_empty : ({} : Fields).Distinct := List.Pairwise.nil

/-- Setting a field takes all others of its name away, so names stay distinct. -/
theorem Distinct.set {f : Fields} (hf : f.Distinct) (name value : Bytes) :
    (f.set name value).Distinct := by
  unfold Distinct
  -- The new field comes last, behind those of other names.
  refine List.pairwise_append.2 ⟨hf.filter _, List.pairwise_singleton _ _, ?_⟩
  intro e he e' he'
  rw [List.mem_singleton] at he'
  rw [he', sameName_comm]
  exact Bool.not_eq_true' _ ▸ (List.mem_filter.1 he).2

/-- This holds of several fields as well, whatever their names are. -/
theorem Distinct.setList {f : Fields} (hf : f.Distinct) (list : List (Bytes × Bytes)) :
    (f.setList list).Distinct := by
  -- By induction on the list, with the fields that were set so far as the beginning.
  induction list generalizing f with
  | nil => exact hf
  | cons e list ih => exact ih (hf.set e.1 e.2)

/-- The first field is found if it has the name, and otherwise the rest is searched. -/
theorem find?_cons (name : Bytes) (e : Bytes × Bytes) (list : List (Bytes × Bytes)) :
    (⟨e :: list⟩ : Fields).find? name
      = if sameName name e.1 = true then some e.2 else (⟨list⟩ : Fields).find? name := by
  by_cases h : sameName name e.1 = true
  · simp only [find?, List.find?_cons, h, if_true, Option.map_some]
  · rw [Bool.not_eq_true] at h
    simp only [find?, List.find?_cons, h, Bool.false_eq_true, if_false]

/-- Names that differ in case only name the same field. -/
theorem find?_congr {name other : Bytes} (h : sameName name other = true) (f : Fields) :
    f.find? name = f.find? other := by
  have hsame : (fun e : Bytes × Bytes => sameName name e.1) = fun e => sameName other e.1 := by
    funext e
    simp only [sameName, beq_iff_eq] at h ⊢
    rw [h]
  rw [find?, find?, hsame]

/-- After a field was set it is found under its name, and every other name finds what it found
before. -/
theorem find?_set (name value other : Bytes) (f : Fields) :
    (f.set name value).find? other = if sameName other name then some value else f.find? other := by
  cases h : sameName other name with
  | true => exact find?_set_same h value f
  | false => exact find?_set_other h value f

/-- Setting a field takes no name away. -/
theorem isSome_find?_set {f : Fields} {other : Bytes} (h : (f.find? other).isSome = true)
    (name value : Bytes) : ((f.set name value).find? other).isSome = true := by
  rw [find?_set]
  split
  · rfl
  · exact h

/-- Fields whose names are not that of another one have none of its name. -/
theorem find?_eq_none_of_distinct {name : Bytes} {e : Bytes × Bytes}
    {list : List (Bytes × Bytes)} (h : ∀ e' ∈ list, sameName e.1 e'.1 = false)
    (hname : sameName name e.1 = true) : (⟨list⟩ : Fields).find? name = none := by
  rw [find?, Option.map_eq_none_iff, List.find?_eq_none]
  intro e' he' hsame
  have hother := h e' he'
  rw [sameName_trans (sameName_comm name e.1 ▸ hname) hsame] at hother
  exact Bool.noConfusion hother

/-- A list without a field of some name leaves that name as it was, and otherwise it is the
only such field of the list that counts. -/
theorem find?_setList {list : List (Bytes × Bytes)} (hlist : Distinct ⟨list⟩) (name : Bytes)
    (f : Fields) :
    (f.setList list).find? name = ((⟨list⟩ : Fields).find? name).or (f.find? name) := by
  -- By induction on the list, for all fields that it may be added to.
  induction list generalizing f with
  | nil => rfl
  | cons e list ih =>
      rcases List.pairwise_cons.1 hlist with ⟨hfirst, hrest⟩
      have hstep := ih hrest (f.set e.1 e.2)
      rw [find?_cons]
      by_cases hname : sameName name e.1 = true
      · -- The fields that follow have other names.
        have hnone := find?_eq_none_of_distinct hfirst hname
        rw [if_pos hname, Option.some_or]
        rw [hnone, Option.none_or, find?_set_same hname] at hstep
        exact hstep
      · -- The first field of the list has another name, so it does not matter.
        rw [if_neg hname, ← find?_set_other (Bool.eq_false_iff.2 hname) e.2 f]
        exact hstep

/-- Fields that are added come before those that were there. -/
theorem find?_setAll {f added : Fields} (hadded : added.Distinct) (name : Bytes) :
    (f.setAll added).find? name = (added.find? name).or (f.find? name) :=
  find?_setList hadded name f

/-- The fields with the value of the first one of a name changed where it stands. -/
def modify (name : Bytes) (change : Bytes → Bytes) (f : Fields) : Fields :=
  ⟨modifyEntries f.entries⟩
where
  modifyEntries : List (Bytes × Bytes) → List (Bytes × Bytes)
    | [] => []
    | e :: rest =>
      if sameName name e.1 then (e.1, change e.2) :: rest else e :: modifyEntries rest

variable {name other : Bytes} {change : Bytes → Bytes}

/-- What is found after a change of the first of some fields, or of one after it. -/
theorem find?_modify_cons (name : Bytes) (change : Bytes → Bytes) (other : Bytes)
    (e : Bytes × Bytes) (list : List (Bytes × Bytes)) :
    ((⟨e :: list⟩ : Fields).modify name change).find? other
      = if sameName name e.1 then
          if sameName other e.1 then some (change e.2) else (⟨list⟩ : Fields).find? other
        else if sameName other e.1 then some e.2
        else ((⟨list⟩ : Fields).modify name change).find? other := by
  by_cases h : sameName name e.1 = true
  · simp only [modify, modify.modifyEntries, h, if_true, find?_cons]
  · simp only [modify, modify.modifyEntries, h, if_false, find?_cons, Bool.false_eq_true]

/-- Under the name of a changed field its changed value is found. -/
theorem find?_modify_same (h : sameName other name = true) (f : Fields) :
    (f.modify name change).find? other = (f.find? other).map change := by
  rcases f with ⟨list⟩
  induction list with
  | nil => rfl
  | cons e list ih =>
      -- A field of the one name is also one of the other.
      have hsame : sameName name e.1 = sameName other e.1 := by
        simp only [sameName, beq_iff_eq] at h ⊢
        rw [h]
      rw [find?_modify_cons, find?_cons, hsame]
      split
      · rfl
      · exact ih

/-- Under any other name the same is found as before. -/
theorem find?_modify_other (h : sameName other name = false) (f : Fields) :
    (f.modify name change).find? other = f.find? other := by
  rcases f with ⟨list⟩
  induction list with
  | nil => rfl
  | cons e list ih =>
      rw [find?_modify_cons, find?_cons]
      split
      · next hname =>
        -- The changed field has another name than the one that is looked for.
        have hother : ¬ sameName other e.1 = true := fun hsame => by
          rw [sameName_trans hsame (sameName_comm name e.1 ▸ hname)] at h
          exact Bool.noConfusion h
        rw [if_neg hother, if_neg hother]
      · rw [ih]

/-- The values of the fields of a name, in order. -/
def values (name : Bytes) (f : Fields) : List Bytes :=
  (f.entries.filter (sameName name ·.1)).map (·.2)

theorem head?_values (name : Bytes) (f : Fields) : (f.values name).head? = f.find? name := by
  rw [values, List.head?_map, List.head?_filter]
  rfl

/-- After a field was set its value is the only one of its name. -/
theorem values_set_same (h : sameName other name = true) (value : Bytes) (f : Fields) :
    (f.set name value).values other = [value] := by
  -- The field is set after all others of the name were erased.
  have hnone : (f.erase name).entries.filter (sameName other ·.1) = [] := by
    refine List.filter_eq_nil_iff.2 fun e he hsame => ?_
    have hother := (List.mem_filter.1 he).2
    rw [sameName_trans (sameName_comm other name ▸ h) hsame] at hother
    exact Bool.noConfusion hother
  have hone : [(name, value)].filter (sameName other ·.1) = [(name, value)] :=
    List.filter_eq_self.2 fun e he => by rw [List.mem_singleton.1 he]; exact h
  rw [values, set, List.filter_append, hnone, hone]
  rfl

/-- The values of other names are as before. -/
theorem values_set_other (h : sameName other name = false) (value : Bytes) (f : Fields) :
    (f.set name value).values other = f.values other := by
  have hkept : (f.erase name).entries.filter (sameName other ·.1)
      = f.entries.filter (sameName other ·.1) := by
    rw [erase, List.filter_filter]
    refine List.filter_congr fun e _ => ?_
    cases hsame : sameName other e.1 with
    | false => rfl
    | true =>
        -- A field of the one name is not one of the other.
        cases hname : sameName name e.1 with
        | false => rfl
        | true =>
            rw [sameName_trans hsame (sameName_comm name e.1 ▸ hname)] at h
            exact Bool.noConfusion h
  have hnone : [(name, value)].filter (sameName other ·.1) = [] :=
    List.filter_eq_nil_iff.2 fun e he => by
      rw [List.mem_singleton.1 he, h]
      exact Bool.false_ne_true
  rw [values, set, List.filter_append, hkept, hnone, List.append_nil]
  rfl

/-- The values of a name are those of before, unless the list has a field of the name. -/
theorem values_setList {list : List (Bytes × Bytes)} (hlist : Distinct ⟨list⟩) (name : Bytes)
    (f : Fields) :
    (f.setList list).values name
      = ((⟨list⟩ : Fields).find? name).elim (f.values name) fun value => [value] := by
  induction list generalizing f with
  | nil => rfl
  | cons e list ih =>
      rcases List.pairwise_cons.1 hlist with ⟨hfirst, hrest⟩
      have hstep := ih hrest (f.set e.1 e.2)
      change ((f.set e.1 e.2).setList list).values name = _
      rw [hstep, find?_cons]
      by_cases hname : sameName name e.1 = true
      · rw [if_pos hname, find?_eq_none_of_distinct hfirst hname, values_set_same hname]
        rfl
      · rw [if_neg hname, values_set_other (Bool.eq_false_iff.2 hname)]

/-- Fields that are added take the place of all values of their names. -/
theorem values_setAll {added : Fields} (hadded : added.Distinct) (name : Bytes) (f : Fields) :
    (f.setAll added).values name
      = (added.find? name).elim (f.values name) fun value => [value] :=
  values_setList hadded name f

/-- What is found in the one header is found in the other one. -/
def Within (f g : Fields) : Prop :=
  ∀ name value, f.find? name = some value → g.find? name = some value

theorem empty_within (f : Fields) : ({} : Fields).Within f := nofun

/-- The same field can be set in both headers. -/
theorem Within.set {f g : Fields} (h : f.Within g) (name value : Bytes) :
    (f.set name value).Within (g.set name value) := by
  intro other v hv
  rw [find?_set] at hv ⊢
  split
  next hname => rwa [if_pos hname] at hv
  next hname => exact h other v (by rwa [if_neg hname] at hv)

/-- Adding fields again that are there already changes no value. -/
theorem values_setAll_within {added again : Fields} (hadded : added.Distinct)
    (hagain : again.Distinct) (h : again.Within added) (name : Bytes) (f : Fields) :
    ((f.setAll added).setAll again).values name = (f.setAll added).values name := by
  rw [values_setAll hagain, values_setAll hadded]
  -- A name that is set again is set to the value that it has.
  cases hvalue : again.find? name with
  | none => rfl
  | some value => rw [h name value hvalue]; rfl

end Fields

end SignedHttp
