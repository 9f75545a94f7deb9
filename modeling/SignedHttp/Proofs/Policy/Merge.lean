import SignedHttp.Policy.Basic
import Mathlib.Data.List.Induction

/-!
# Merging Policies

A list takes from another one, one after the other, the entries whose key it does not
have yet. Whether an entry is taken is decided by the keys alone, and the keys of the
result are those of both lists; so it makes no difference which two of three lists are
put together first, and a list takes nothing of itself, not even of entries that it
lists twice.

A merged policy is made of such lists and of fields that are those of one of the two
policies. It inherits the laws of the lists, and it is usable if both policies are.

## Main definitions

* `Rule.Usable`, `Policy.Usable`: What makes a rule or a policy usable.
* `Policy.hasRule`, `Policy.rulesNamed`: The rules of a name.

## Theorems

* `validate_eq_ok_iff`: A policy is validated exactly if it is usable.
* `any_appendMissing`: The keys of a list that takes what is missing are those of both.
* `appendMissing_assoc`: Lists are put together in any order.
* `filter_appendMissing`: The entries under a key are those of the first list that has it.
* `Usable.merge`: What is merged of usable policies is usable.
* `merge_algebra`: The laws of merging.
-/

namespace SignedHttp

/-- A rule that has a name and can be run. -/
structure Rule.Usable (r : Rule) : Prop where
  named : r.name ≠ []
  runnable : r.predicate ≠ none

theorem Rule.flaw?_eq_none_iff {r : Rule} : r.flaw? = none ↔ r.Usable := by
  rw [Rule.flaw?]
  constructor
  · intro h
    split at h
    · cases h
    next hname =>
      split at h
      · cases h
      next hpredicate =>
        exact ⟨fun he => hname (by rw [he]; rfl), fun he => hpredicate (by rw [he]; rfl)⟩
  · intro h
    rw [if_neg (by simpa using h.named), if_neg (by simpa using h.runnable)]

namespace Policy

variable {α κ : Type}

/-! ### Usable policies -/

/-- A policy that a signature can be checked against. -/
structure Usable (p : Policy) : Prop where
  named : p.name ≠ []
  allowsSome : p.allowedAlgorithms ≠ []
  positiveAge : ∀ age ∈ p.maxTimestampAge, 0 < age
  componentsNamed : ∀ component ∈ p.requiredComponents, component ≠ []
  rulesUsable : ∀ r ∈ p.customRules, r.Usable

/-- The checks of a policy find no flaw exactly if it is usable. Each check is about one of the five
conditions, and the first flaw ends the search. -/
theorem flaw?_eq_none_iff {p : Policy} : p.flaw? = none ↔ p.Usable := by
  -- The conditions as the checks compute them, one after the other.
  have hage : p.maxTimestampAge.any (· ≤ 0) = false ↔ ∀ age ∈ p.maxTimestampAge, 0 < age := by
    simp only [Option.any_eq_false, decide_eq_false_iff_not, Int.not_le, Option.mem_def]
  have hcomponents : p.requiredComponents.any (·.isEmpty) = false
      ↔ ∀ component ∈ p.requiredComponents, component ≠ [] := by
    simp
  have hrules : p.customRules.findSome? Rule.flaw? = none ↔ ∀ r ∈ p.customRules, r.Usable := by
    rw [List.findSome?_eq_none_iff]
    exact forall₂_congr fun r _ => Rule.flaw?_eq_none_iff
  rw [flaw?]
  constructor
  · intro h
    split at h
    · cases h
    next hname =>
    split at h
    · cases h
    next halgorithms =>
    split at h
    · cases h
    next hpositive =>
    split at h
    · cases h
    next hnonempty =>
    exact ⟨by simpa using hname, by simpa using halgorithms,
      hage.1 (Bool.eq_false_iff.2 hpositive), hcomponents.1 (Bool.eq_false_iff.2 hnonempty),
      hrules.1 h⟩
  · intro h
    rw [if_neg (by simpa using h.named), if_neg (by simpa using h.allowsSome),
      if_neg (Bool.eq_false_iff.1 (hage.2 h.positiveAge)),
      if_neg (Bool.eq_false_iff.1 (hcomponents.2 h.componentsNamed)), hrules.2 h.rulesUsable]

/-- A policy is valid if it has no flaw. -/
theorem validate_eq_ok_iff {p : Policy} : p.validate = .ok () ↔ p.Usable := by
  rw [← flaw?_eq_none_iff, validate]
  cases p.flaw? with
  | none => exact ⟨fun _ => rfl, fun _ => rfl⟩
  | some flaw =>
      constructor
      · intro h
        cases h
      · intro h
        cases h

/-! ### Lists that take what they miss -/

section AppendMissing

variable [BEq κ] (key : α → κ)

/-- The last of the entries that are added is taken if its key is missing until then. -/
theorem appendMissing_concat (base added : List α) (a : α) :
    appendMissing key base (added ++ [a])
      = if (appendMissing key base added).any (key · == key a) then appendMissing key base added
        else appendMissing key base added ++ [a] := by
  rw [appendMissing, List.foldl_append]
  rfl

/-- What was there stays where it was, before all that is added. -/
theorem prefix_appendMissing (base added : List α) : base <+: appendMissing key base added := by
  -- By induction from the end of what is added, here and below, since that is where the fold goes
  -- on.
  induction added using List.reverseRecOn with
  | nil => exact List.prefix_rfl
  | append_singleton added a ih =>
      rw [appendMissing_concat]
      split
      next => exact ih
      next => exact ih.trans (List.prefix_append _ _)

/-- Nothing gets into the list that is in neither of the two. -/
theorem mem_of_mem_appendMissing {base added : List α} {x : α}
    (h : x ∈ appendMissing key base added) : x ∈ base ∨ x ∈ added := by
  induction added using List.reverseRecOn with
  | nil => exact Or.inl h
  | append_singleton added a ih =>
      rw [appendMissing_concat] at h
      split at h
      next => exact (ih h).imp_right (List.mem_append_left _)
      next =>
        rcases List.mem_append.1 h with h | h
        · exact (ih h).imp_right (List.mem_append_left _)
        · exact Or.inr (List.mem_append_right _ h)

/-- If all keys are there already, nothing is added. -/
theorem appendMissing_of_present {base added : List α}
    (h : ∀ a ∈ added, base.any (key · == key a) = true) : appendMissing key base added = base := by
  induction added using List.reverseRecOn with
  | nil => rfl
  | append_singleton added a ih =>
      rw [appendMissing_concat, ih fun b hb => h b (List.mem_append_left _ hb),
        if_pos (h a (List.mem_append_right _ (List.mem_singleton_self a)))]

variable [LawfulBEq κ]

/-- The keys of the result are those of both lists. -/
theorem any_appendMissing (base added : List α) (k : κ) :
    (appendMissing key base added).any (key · == k)
      = (base.any (key · == k) || added.any (key · == k)) := by
  induction added using List.reverseRecOn with
  | nil => rw [List.any_nil, Bool.or_false]; rfl
  | append_singleton added a ih =>
      rw [appendMissing_concat, List.any_append, List.any_cons, List.any_nil, Bool.or_false,
        ← Bool.or_assoc, ← ih]
      split
      next hpresent =>
        -- An entry that is not taken has a key that is there already.
        by_cases hk : key a = k
        · rw [← hk, hpresent, Bool.true_or]
        · rw [beq_false_of_ne hk, Bool.or_false]
      next => rw [List.any_append, List.any_cons, List.any_nil, Bool.or_false]

theorem appendMissing_self (l : List α) : appendMissing key l l = l :=
  appendMissing_of_present key fun a ha => List.any_eq_true.2 ⟨a, ha, beq_self_eq_true _⟩

/-- Adding two lists one after the other is adding what they make together: an entry is missed by
the first two lists and the result of these in the same cases. -/
theorem appendMissing_assoc (a b c : List α) :
    appendMissing key (appendMissing key a b) c
      = appendMissing key a (appendMissing key b c) := by
  induction c using List.reverseRecOn with
  | nil => rfl
  | append_singleton c x ih =>
      rw [appendMissing_concat, ih, appendMissing_concat key b c]
      -- An entry that the first two lists have, or that the result has of the third, is not added.
      split
      next hall =>
        split
        next => rfl
        next => rw [appendMissing_concat, if_pos hall]
      next hall =>
        -- What all three lists miss is missed by the last two.
        have hlast : ¬(appendMissing key b c).any (key · == key x) = true := by
          intro hlast
          rw [any_appendMissing, hlast, Bool.or_true] at hall
          exact hall rfl
        rw [if_neg hlast, appendMissing_concat, if_neg hall]

/-- Under a key the entries of the base stand, or if there is none the first one that was added. -/
theorem filter_appendMissing (base added : List α) (k : κ) :
    (appendMissing key base added).filter (key · == k)
      = if base.any (key · == k) then base.filter (key · == k)
        else (added.filter (key · == k)).take 1 := by
  -- By induction on what is added, from its end, as it is taken from its beginning on.
  induction added using List.reverseRecOn with
  | nil =>
      change base.filter _ = _
      split
      next => rfl
      next h => simpa using h
  | append_singleton added a ih =>
      rw [appendMissing_concat, List.filter_append]
      -- An entry of another key is passed over by the filter, whether it was taken or not.
      by_cases hk : key a = k
      · have hone : [a].filter (key · == k) = [a] := by simp [hk]
        rw [hk, any_appendMissing, hone]
        split
        next hpresent =>
          rw [ih]
          split
          next => rfl
          next hmissing =>
            -- The first entry under the key was taken before.
            rw [Bool.eq_false_iff.2 hmissing, Bool.false_or, List.any_eq_true] at hpresent
            rcases hpresent with ⟨b, hb, hkb⟩
            rw [List.take_append_of_le_length
              (List.length_pos_of_mem (List.mem_filter.2 ⟨hb, hkb⟩))]
        next hmissing =>
          rw [Bool.or_eq_true, not_or] at hmissing
          have hnone : added.filter (key · == k) = [] := by simpa using hmissing.2
          rw [List.filter_append, hone, ih, if_neg hmissing.1, if_neg hmissing.1, hnone]
          rfl
      · have hone : [a].filter (key · == k) = [] := by simp [hk]
        rw [hone, List.append_nil, ← ih]
        split
        next => rfl
        next => rw [List.filter_append, hone, List.append_nil]

end AppendMissing

/-! ### Merged policies -/

/-- For entries that are their own keys this says which entries there are. -/
theorem contains_appendMissing [BEq α] [LawfulBEq α] (base added : List α) (a : α) :
    (appendMissing id base added).contains a = (base.contains a || added.contains a) := by
  rw [← List.any_beq', ← List.any_beq', ← List.any_beq']
  exact any_appendMissing id base added a

/-- Has the policy a rule of the name? -/
def hasRule (name : Bytes) (p : Policy) : Bool := p.customRules.any (·.name == name)

/-- The rules of a name. -/
def rulesNamed (name : Bytes) (p : Policy) : List Rule := p.customRules.filter (·.name == name)

theorem orElse_self (s : Bytes) : s.orElse s = s := ite_self s

/-- The first text of three that is not empty does not depend on where one begins. -/
theorem orElse_assoc (s t u : Bytes) : (s.orElse t).orElse u = s.orElse (t.orElse u) := by
  cases s with
  | nil => rfl
  | cons b s => rfl

theorem orElse_ne_nil {s t : Bytes} (ht : t ≠ []) : s.orElse t ≠ [] := by
  cases s with
  | nil => exact ht
  | cons b s => exact List.cons_ne_nil b s

theorem merge_self (a : Policy) : a.merge a = a := by
  rw [merge, orElse_self, orElse_self, Option.orElse_eq_orElse, Option.orElse_eq_or,
    Option.or_self, appendMissing_self, appendMissing_self, appendMissing_self]

/-- It does not matter which two of three policies are merged first. -/
theorem merge_assoc (a b c : Policy) : (a.merge b).merge c = a.merge (b.merge c) := by
  simp only [merge, orElse_assoc, Option.orElse_eq_orElse, Option.orElse_eq_or,
    Option.or_assoc, appendMissing_assoc]

/-- What either of the policies requires is required. -/
theorem requires_merge (component : Bytes) (a b : Policy) :
    (a.merge b).requires component = (a.requires component || b.requires component) :=
  contains_appendMissing a.requiredComponents b.requiredComponents component

/-- What either of them allows is allowed. -/
theorem allows_merge (algorithm : Bytes) (a b : Policy) :
    (a.merge b).allows algorithm = (a.allows algorithm || b.allows algorithm) :=
  contains_appendMissing a.allowedAlgorithms b.allowedAlgorithms algorithm

/-- A rule of either of them is among the rules. -/
theorem hasRule_merge (name : Bytes) (a b : Policy) :
    (a.merge b).hasRule name = (a.hasRule name || b.hasRule name) :=
  any_appendMissing Rule.name a.customRules b.customRules name

/-- Of a name that both have the rules of the base are kept, all of them; of a name that only the
other one has its first rule is taken. -/
theorem rulesNamed_merge (name : Bytes) (a b : Policy) :
    (a.merge b).rulesNamed name
      = if a.hasRule name then a.rulesNamed name else (b.rulesNamed name).take 1 :=
  filter_appendMissing Rule.name a.customRules b.customRules name

/-- Two usable policies make a usable one. Each condition is about parts that come from either of
the two. -/
theorem Usable.merge {a b : Policy} (ha : a.Usable) (hb : b.Usable) : (a.merge b).Usable where
  named := orElse_ne_nil ha.named
  allowsSome := (prefix_appendMissing id _ _).ne_nil ha.allowsSome
  positiveAge age h := by
    rw [Policy.merge, Option.mem_def, Option.orElse_eq_orElse, Option.orElse_eq_or] at h
    rcases Option.or_eq_some_iff.1 h with h | ⟨-, h⟩
    · exact hb.positiveAge age h
    · exact ha.positiveAge age h
  componentsNamed component h :=
    (mem_of_mem_appendMissing id h).elim (ha.componentsNamed component)
      (hb.componentsNamed component)
  rulesUsable r h :=
    (mem_of_mem_appendMissing Rule.name h).elim (ha.rulesUsable r) (hb.rulesUsable r)

/-- A policy takes nothing of itself, policies are merged in any order, what is merged
has what either policy has and of a shared name the rules of the base, and it is usable
if both are. -/
theorem merge_algebra (a b c : Policy) :
    a.merge a = a ∧ (a.merge b).merge c = a.merge (b.merge c)
      ∧ (∀ component,
          (a.merge b).requires component = (a.requires component || b.requires component))
      ∧ (∀ algorithm, (a.merge b).allows algorithm = (a.allows algorithm || b.allows algorithm))
      ∧ (∀ name, (a.merge b).hasRule name = (a.hasRule name || b.hasRule name))
      ∧ (∀ name, (a.merge b).rulesNamed name
          = if a.hasRule name then a.rulesNamed name else (b.rulesNamed name).take 1)
      ∧ (a.validate = .ok () → b.validate = .ok () → (a.merge b).validate = .ok ()) := by
  refine ⟨merge_self a, merge_assoc a b c, fun component => requires_merge component a b,
    fun algorithm => allows_merge algorithm a b, fun name => hasRule_merge name a b,
    fun name => rulesNamed_merge name a b, ?_⟩
  -- That a policy is valid is read as that it is usable, and back.
  intro ha hb
  exact validate_eq_ok_iff.2 ((validate_eq_ok_iff.1 ha).merge (validate_eq_ok_iff.1 hb))

/-- Two policies that share a component, which one of them lists twice, and a rule. -/
theorem validate_merge_strict_lenient :
    let strict : Policy :=
      { name := "strict", maxTimestampAge := some 300,
        requiredComponents := ["@method", "@target-uri", "@method"],
        customRules := [.ofLibrary .algorithmStrength] }
    let lenient : Policy :=
      { name := "lenient", verifyNonce := false,
        requiredComponents := ["@target-uri", "content-digest"],
        allowedAlgorithms := [signatureAlgorithm, "other"],
        customRules := [.ofLibrary .algorithmStrength, .ofLibrary .contentTypeConsistency] }
    (strict.validate = .ok () ∧ lenient.validate = .ok ())
      ∧ (strict.merge lenient).validate = .ok ()
      ∧ (strict.merge lenient).requiredComponents
          = (["@method", "@target-uri", "@method", "content-digest"] : List Bytes) := by
  intro strict lenient
  have hstrict : strict.validate = .ok () := rfl
  have hlenient : lenient.validate = .ok () := rfl
  exact ⟨⟨hstrict, hlenient⟩,
    (merge_algebra strict lenient strict).2.2.2.2.2.2 hstrict hlenient, by decide +kernel⟩

end Policy

end SignedHttp
