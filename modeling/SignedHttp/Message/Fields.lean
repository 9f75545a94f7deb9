import SignedHttp.Text.Bytes

/-!
# Header Fields

The fields of a header, in order. Names are compared without regard to the case of
ASCII letters and keep the case they were written with. Setting a field removes
every field of that name and puts the new one last, so a header that was only ever
set has at most one field of a name.

## Main definitions

* `Fields`: Named values, in order.
* `Fields.find?`: The value of the first field of a name.
* `Fields.set`, `Fields.erase`, `Fields.setAll`: The changes.
* `Fields.lowered`: The fields with their names in lower case.
-/

namespace SignedHttp

/-- Do two field names differ in case only? -/
def sameName (a b : Bytes) : Bool := a.lower == b.lower

/-- The fields of a header, in order. -/
structure Fields where
  entries : List (Bytes × Bytes) := []
  deriving DecidableEq

namespace Fields

/-- The value of the first field of a name. -/
def find? (name : Bytes) (f : Fields) : Option Bytes :=
  (f.entries.find? (sameName name ·.1)).map (·.2)

def contains (name : Bytes) (f : Fields) : Bool := (f.find? name).isSome

/-- The fields without those of a name. -/
def erase (name : Bytes) (f : Fields) : Fields := ⟨f.entries.filter (!sameName name ·.1)⟩

/-- The fields with one of the name, which comes last. -/
def set (name value : Bytes) (f : Fields) : Fields :=
  ⟨(f.erase name).entries ++ [(name, value)]⟩

/-- The fields with each of a list set in turn. -/
def setList (list : List (Bytes × Bytes)) (f : Fields) : Fields :=
  list.foldl (fun f e => f.set e.1 e.2) f

/-- The fields with those of another header set in turn. -/
def setAll (f added : Fields) : Fields := f.setList added.entries

/-- The header in which the fields of a list are set in turn. -/
def ofList (list : List (Bytes × Bytes)) : Fields := setList list {}

/-- The fields with their names in lower case. -/
def lowered (f : Fields) : List (Bytes × Bytes) := f.entries.map fun e => (e.1.lower, e.2)

theorem find?_set_same {name other : Bytes} (h : sameName other name = true) (value : Bytes)
    (f : Fields) : (f.set name value).find? other = some value := by
  have hnone : (f.erase name).entries.find? (sameName other ·.1) = none := by
    simp only [erase, List.find?_eq_none, List.mem_filter]
    rintro e ⟨_, he⟩ hs
    simp only [sameName, beq_iff_eq, Bool.not_eq_true', beq_eq_false_iff_ne] at h hs he
    exact he (h.symm.trans hs)
  simp [find?, set, List.find?_append, hnone, h]

theorem find?_set_other {name other : Bytes} (h : sameName other name = false) (value : Bytes)
    (f : Fields) : (f.set name value).find? other = f.find? other := by
  have hsame : ∀ l : List (Bytes × Bytes),
      (l.filter (!sameName name ·.1)).find? (sameName other ·.1)
        = l.find? (sameName other ·.1) := by
    intro l
    induction l with
    | nil => rfl
    | cons e l ih =>
      by_cases he : sameName name e.1 = true
      · have hs : sameName other e.1 = false := by
          simp only [sameName, beq_iff_eq, beq_eq_false_iff_ne] at h he ⊢
          exact fun hc => h (hc.trans he.symm)
        simp [he, hs, ih]
      · simp only [Bool.not_eq_true] at he
        simp only [List.filter_cons, he, Bool.not_false, if_true, List.find?_cons, ih]
  simp [find?, set, erase, List.find?_append, hsame, h]

end Fields

end SignedHttp
