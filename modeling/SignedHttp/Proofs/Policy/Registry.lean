import SignedHttp.Policy.Registry
import SignedHttp.Proofs.Except
import SignedHttp.Proofs.Policy.Merge

/-!
# What a Registry Holds

Policies come into a registry in two ways, read from a text or added one by one, and
both ways look at the policy first. So whatever is done to a registry, in any order, its
policies stay usable and each stands under its own name (`Sound.run`). What is refused
changes nothing.

A text describes a registry or it does not. If it does not, the reason is one of three:
the text or a part of it has not the form that is expected, a rule is unknown, or a
policy is not usable (`ofText_faults`). No other code comes out of a text, however
malformed it is at whatever depth. This holds for every reader of JSON, because nothing is
looked at but the value that it gives.

## Main definitions

* `PolicyRegistry.faults`: The codes of the three reasons.
* `PolicyRegistry.Sound`: Every policy is usable and stands under its own name.
* `PolicyRegistry.Call`, `PolicyRegistry.run`: What is done to a registry.

## Theorems

* `LibraryRule.ofJson_faults`, `Policy.ofJson_faults`, `ofText_faults`: Why reading fails.
* `Policy.ofJson_usable`: A policy that is read is usable and has the name it is read under.
* `Sound.after`, `Sound.run`: A registry stays sound.
* `usable_of_find?`: What is found in a sound registry.
-/

namespace SignedHttp

/-- The codes that reading policies fails with. -/
def PolicyRegistry.faults : List ConfigCode := [.malformedSource, .unknownRule, .invalidPolicy]

/-! ### Reading -/

/-- There is one way only in which a value can be missing. -/
theorem orFail_eq_error {ε α : Type} {e e' : ε} {o : Option α} (h : orFail e o = .error e') :
    e' = e := by
  cases o with
  | none => exact (Except.error.inj h).symm
  | some a => cases h

/-- A rule is read by its name, and the name decides which arguments are asked for. -/
theorem LibraryRule.ofName_faults {guard : GuardId} {name : Bytes} {descriptor : Json}
    {e : ConfigError} (h : ofName guard name descriptor = .error e) :
    e = .invalidRuleArguments name ∨ e = .unknownRule name := by
  unfold ofName at h
  -- The first three names ask for an argument, the other five for none.
  split at h
  · exact Or.inl (orFail_eq_error (map_eq_error.1 h))
  split at h
  · exact Or.inl (orFail_eq_error (map_eq_error.1 h))
  split at h
  · exact Or.inl (orFail_eq_error (map_eq_error.1 h))
  split at h
  · cases h
  split at h
  · cases h
  split at h
  · cases h
  split at h
  · cases h
  split at h
  · cases h
  · exact Or.inr (Except.error.inj h).symm

/-- A descriptor without a name is malformed; with one, it is the name that decides. -/
theorem LibraryRule.ofJson_faults {guard : GuardId} {descriptor : Json} {e : ConfigError}
    (h : ofJson guard descriptor = .error e) : e.code ∈ PolicyRegistry.faults := by
  unfold ofJson at h
  split at h
  · rw [← Except.error.inj h]
    exact List.mem_cons_self ..
  · rcases ofName_faults h with rfl | rfl
    · exact List.mem_cons_self ..
    · exact List.mem_cons_of_mem _ (List.mem_cons_self ..)

namespace Policy

/-- Rules are read one after the other, and fail as the first of them that fails. -/
theorem rulesOfJson_faults {guard : GuardId} {name : Bytes} {j : Json} {e : ConfigError}
    (h : rulesOfJson guard name j = .error e) : e.code ∈ PolicyRegistry.faults := by
  unfold rulesOfJson at h
  split at h
  · cases h
  · rcases exists_of_listMapM_eq_error h with ⟨descriptor, -, hrule⟩
    exact LibraryRule.ofJson_faults (map_eq_error.1 hrule)
  · rw [← Except.error.inj h]
    exact List.mem_cons_self ..

/-- An object is read in four steps: its form, its fields, its rules and a look at the whole. Each
has its own error, and all of them have one of the three codes. -/
theorem ofJson_faults {guard : GuardId} {name : Bytes} {j : Json} {e : ConfigError}
    (h : ofJson guard name j = .error e) : e.code ∈ PolicyRegistry.faults := by
  unfold ofJson at h
  -- It is an object, or it is malformed; then its fields, its rules and its flaws are looked at.
  split at h
  · split at h
    · rw [← Except.error.inj h]
      exact List.mem_cons_self ..
    · split at h
      next hrules =>
        rw [← Except.error.inj h]
        exact rulesOfJson_faults hrules
      next =>
        simp only at h
        split at h
        · rw [← Except.error.inj h]
          exact List.mem_cons_of_mem _ (List.mem_cons_of_mem _ (List.mem_cons_self ..))
        · cases h
  · rw [← Except.error.inj h]
    exact List.mem_cons_self ..

/-- The name is the key under which the object stands, not one of its fields. -/
theorem fields?_name {name : Bytes} {j : Json} {p : Policy} (h : fields? name j = some p) :
    p.name = name := by
  simp only [fields?, Option.bind_eq_bind, Option.bind_eq_some_iff] at h
  rcases h with ⟨_, -, _, -, _, -, _, -, _, -, _, -, _, -, _, -, h⟩
  rw [← Option.some.inj h]

/-- A policy is looked at when it is read, like one that is added. -/
theorem ofJson_usable {guard : GuardId} {name : Bytes} {j : Json} {p : Policy}
    (h : ofJson guard name j = .ok p) : p.Usable ∧ p.name = name := by
  unfold ofJson at h
  split at h
  · split at h
    · cases h
    next hfields =>
      split at h
      · cases h
      next =>
        dsimp only at h
        split at h
        · cases h
        next hflaw =>
          rw [← Except.ok.inj h]
          -- The rules are put beside the fields, and the name stays.
          have hname := fields?_name hfields
          exact ⟨flaw?_eq_none_iff.1 hflaw, hname⟩
  · cases h

end Policy

namespace PolicyRegistry

variable {read : Bytes → Option Json} {guard : GuardId} {text : Bytes}

/-- Whatever the reader makes of a text, reading it fails for one of the three reasons. -/
theorem ofText_faults {e : ConfigError} (h : ofText read guard text = .error e) :
    e.code ∈ faults := by
  unfold ofText at h
  split at h
  · rw [← Except.error.inj h]
    exact List.mem_cons_self ..
  · rcases exists_of_listMapM_eq_error (map_eq_error.1 h) with ⟨member, -, hpolicy⟩
    exact Policy.ofJson_faults (map_eq_error.1 hpolicy)
  · rw [← Except.error.inj h]
    exact List.mem_cons_self ..

/-- What is logged has no part in the result. -/
theorem loadJson_fst (read : Bytes → Option Json) (guard : GuardId) (text : Bytes) :
    (loadJson read guard text).1 = ofText read guard text := by
  unfold loadJson
  split
  next h => rw [h]
  next h => rw [h]

/-! ### What is done to a registry -/

/-- Every policy is usable and stands under its own name. -/
def Sound (r : PolicyRegistry) : Prop :=
  ∀ e ∈ r.policies.entries, e.2.Usable ∧ e.2.name = e.1

/-- Something that is done to a registry. -/
inductive Call
  | load (read : Bytes → Option Json) (guard : GuardId) (text : Bytes)
  | add (p : Policy)
  | remove (name : Bytes)

/-- The registry that a call gives, or why it gives none. -/
def Call.result (r : PolicyRegistry) : Call → Except Failure PolicyRegistry
  | load read guard text => (loadJson read guard text).1.mapError .config
  | add p => (r.add p).mapError .verification
  | remove name => .ok (r.remove name)

/-- The registry after a call; one that fails gives none to go on with. -/
def Call.after (r : PolicyRegistry) (c : Call) : PolicyRegistry :=
  match c.result r with
  | .ok r => r
  | .error _ => r

/-- The registry after some calls. -/
def run (r : PolicyRegistry) (calls : List Call) : PolicyRegistry := calls.foldl Call.after r

variable {r : PolicyRegistry} {p : Policy}

/-- A policy is added exactly if it is usable, and then it stands under its name. -/
theorem add_eq_ok_iff {r' : PolicyRegistry} :
    r.add p = .ok r' ↔ p.Usable ∧ r' = ⟨r.policies.insert p.name p⟩ := by
  rw [add, map_eq_ok, ← Policy.validate_eq_ok_iff]
  constructor
  · rintro ⟨u, hvalid, hr⟩
    exact ⟨hvalid, hr.symm⟩
  · rintro ⟨hvalid, hr⟩
    exact ⟨(), hvalid, hr.symm⟩

theorem sound_empty : Sound {} := fun _ h => absurd h List.not_mem_nil

/-- What is read from a text was looked at, policy by policy. -/
theorem sound_of_ofText (h : ofText read guard text = .ok r) : r.Sound := by
  unfold ofText at h
  -- A text without a value, or with one that is no object, gives no registry.
  split at h
  · cases h
  · rcases map_eq_ok.1 h with ⟨policies, hpolicies, rfl⟩
    intro e he
    -- An entry of the table was read under its own key.
    rcases exists_of_mem_mapM hpolicies e (Table.mem_entries_ofList he) with ⟨member, -, hmember⟩
    rcases map_eq_ok.1 hmember with ⟨p, hp, rfl⟩
    exact Policy.ofJson_usable hp
  · cases h

/-- A policy that is added was looked at, and it takes the place of one of its name only. -/
theorem Sound.add (h : r.Sound) {r' : PolicyRegistry} (hadd : r.add p = .ok r') : r'.Sound := by
  rcases add_eq_ok_iff.1 hadd with ⟨husable, rfl⟩
  intro e he
  rcases Table.mem_entries_insert he with rfl | he
  · exact ⟨husable, rfl⟩
  · exact h e he

theorem Sound.remove (h : r.Sound) (name : Bytes) : (r.remove name).Sound :=
  fun e he => h e (Table.mem_entries_erase.1 he).1

/-- No call makes a registry unsound: those that load or add look first, and those that fail change
nothing. -/
theorem Sound.after (h : r.Sound) (c : Call) : (c.after r).Sound := by
  unfold Call.after
  -- Only a call that succeeds gives a registry to look at.
  split
  next r' hresult =>
    cases c with
    | load read guard text =>
        have hload := mapError_eq_ok.1 hresult
        rw [loadJson_fst] at hload
        exact sound_of_ofText hload
    | add p => exact h.add (mapError_eq_ok.1 hresult)
    | remove name =>
        rw [← Except.ok.inj hresult]
        exact h.remove name
  next => exact h

/-- A registry stays sound whatever is done to it. -/
theorem Sound.run (h : r.Sound) (calls : List Call) : (r.run calls).Sound := by
  induction calls generalizing r with
  | nil => exact h
  | cons c calls ih => exact ih (h.after c)

/-- A policy that is found is usable and was looked for under its own name. -/
theorem Sound.usable_of_find? (h : r.Sound) {name : Bytes} (hfind : r.find? name = some p) :
    p.Usable ∧ p.name = name :=
  h _ (Table.mem_entries_of_find? hfind)

end PolicyRegistry

end SignedHttp
