import SignedHttp.Timing.Signal

/-!
# What Firing a Signal Changes

Firing goes through the signals that are connected to one another, and what it meets on the way it
changes in one direction only: calls are added and connections are used up (`Later`). So a way
from one signal to another (`Leads`) does not come about while the firing goes on, and two things
follow. A signal that no way leads to stays as it is. And the slots that are called are among
those that waited before the firing began.

All signals are made by a few operations (`Made`). As a child is created after its parent, ways
lead to greater numbers only, and a signal that was just created is not waited for by anything
(`Made.sound`).

## Main definitions

* `Signals.Later`: What signals may have become after some were fired.
* `Signals.Leads`: There is a way from a signal to another one.
* `Signals.HoldsOfParts`: A relation that firing keeps because its parts do.
* `Signals.Made`: Signals that were made by the operations.

## Theorems

* `state_take_self`, `state_unlink`, `mem_waiting_await`: The signals after each operation.
* `later_fireTo`: Firing adds calls and uses up connections.
* `state_fire_of_not_leads`, `state_fire_self`: The signals that firing does not get to, or not
  again.
* `mem_fire_iff`: A slot that waits for one signal is called when that one is fired.
* `Made.sound`: Connections go to what is there, and to children from their parents.
-/

namespace SignedHttp

namespace Signals

variable {w w' : Signals} {s t : SignalId} {c : SlotId} {depth : Nat}

/-! ### The signals after each operation -/

theorem state_take_self (h : s < w.states.length) :
    (w.take s).state s = ⟨(w.state s).calls + 1, []⟩ := by
  simp [state, take, List.getD_eq_getElem?_getD, h]

theorem state_take_of_ne (h : t ≠ s) (w : Signals) : (w.take s).state t = w.state t := by
  simp [state, take, List.getD_eq_getElem?_getD, Ne.symm h]

/-- There is nothing to take from a signal that is not there. -/
theorem take_of_le (h : w.states.length ≤ s) : w.take s = w := by
  rw [take, List.modify_eq_self h]

theorem state_unlink (l : Link) (w : Signals) (s : SignalId) :
    (w.unlink l).state s
      = { w.state s with waiting := (w.state s).waiting.filter (· ≠ l) } := by
  simp only [state, unlink, List.getD_eq_getElem?_getD, List.getElem?_map]
  cases w.states[s]? <;> rfl

theorem waiting_unlink_sublist (l : Link) (w : Signals) (s : SignalId) :
    ((w.unlink l).state s).waiting.Sublist (w.state s).waiting := by
  rw [state_unlink]
  exact List.filter_sublist

theorem state_of_le (h : w.states.length ≤ s) : w.state s = {} := by
  simp [state, List.getD_eq_getElem?_getD, h]

/-- A new signal is like one that is not there. -/
theorem state_create (w : Signals) (s : SignalId) : w.create.1.state s = w.state s := by
  simp only [state, create, List.getD_eq_getElem?_getD]
  -- The new signal stands behind all others, where nothing was.
  by_cases h : s < w.states.length
  · rw [List.getElem?_append_left h]
  · rw [List.getElem?_append_right (Nat.le_of_not_lt h),
      List.getElem?_eq_none (Nat.le_of_not_lt h)]
    cases s - w.states.length <;> rfl

theorem length_create (w : Signals) : w.create.1.states.length = w.states.length + 1 :=
  List.length_append

theorem lt_length_create (h : s < w.states.length) : s < w.create.1.states.length := by
  rw [length_create]
  exact Nat.lt_succ_of_lt h

theorem calls_await (s : SignalId) (l : Link) (w : Signals) (t : SignalId) :
    ((w.await s l).state t).calls = (w.state t).calls := by
  simp only [state, await, List.getD_eq_getElem?_getD, List.getElem?_modify]
  by_cases h : s = t
  · cases w.states[t]? <;> simp [h]
  · cases w.states[t]? <;> simp [h]

theorem waiting_await_self (hs : s < w.states.length) (l : Link) :
    ((w.await s l).state s).waiting = (w.state s).waiting ++ [l] := by
  simp [state, await, List.getD_eq_getElem?_getD, hs]

theorem waiting_await_of_ne (h : t ≠ s) (l : Link) (w : Signals) :
    ((w.await s l).state t).waiting = (w.state t).waiting := by
  simp [state, await, List.getD_eq_getElem?_getD, Ne.symm h]

/-- What waits after a connection was made is that connection, and what waited before. -/
theorem mem_waiting_await (hs : s < w.states.length) {l k : Link} :
    k ∈ ((w.await s l).state t).waiting ↔ k ∈ (w.state t).waiting ∨ t = s ∧ k = l := by
  by_cases h : t = s
  · rw [h, waiting_await_self hs, List.mem_append, List.mem_singleton]
    simp only [true_and]
  · rw [waiting_await_of_ne h]
    simp only [h, false_and, or_false]

theorem mem_waiting_createChild {parent : SignalId} (h : parent < w.states.length) {l : Link} :
    l ∈ ((w.createChild parent).1.state t).waiting ↔
      l ∈ (w.state t).waiting ∨ t = parent ∧ l = .child w.states.length := by
  rw [createChild, mem_waiting_await (lt_length_create h), state_create]
  exact Iff.rfl

theorem mem_waiting_connect (h : s < w.states.length) {l : Link} :
    l ∈ ((w.connect s).1.state t).waiting ↔
      l ∈ (w.state t).waiting ∨ t = s ∧ l = .slot w.slotCalls.length :=
  mem_waiting_await (w := { w with slotCalls := w.slotCalls ++ [0] }) h

/-! ### Firing -/

/-- What signals may have become after some of them were fired: there are more calls, and fewer
connections. -/
structure Later (w w' : Signals) : Prop where
  length : w'.states.length = w.states.length
  slots : w'.slotCalls.length = w.slotCalls.length
  calls : ∀ s, (w.state s).calls ≤ (w'.state s).calls
  waiting : ∀ s, (w'.state s).waiting ⊆ (w.state s).waiting

theorem Later.refl (w : Signals) : Later w w :=
  ⟨rfl, rfl, fun _ => Nat.le_refl _, fun _ => List.Subset.refl _⟩

theorem Later.trans {w'' : Signals} (h : Later w w') (h' : Later w' w'') : Later w w'' :=
  ⟨h'.length.trans h.length, h'.slots.trans h.slots,
    fun s => Nat.le_trans (h.calls s) (h'.calls s),
    fun s => List.Subset.trans (h'.waiting s) (h.waiting s)⟩

theorem later_count (c : SlotId) (w : Signals) : Later w (w.count c) :=
  ⟨rfl, List.length_modify .., fun _ => Nat.le_refl _, fun _ => List.Subset.refl _⟩

theorem later_take (s : SignalId) (w : Signals) : Later w (w.take s) := by
  by_cases hs : s < w.states.length
  · have hstate : ∀ t, (w.state t).calls ≤ ((w.take s).state t).calls ∧
        ((w.take s).state t).waiting ⊆ (w.state t).waiting := by
      intro t
      by_cases ht : t = s
      · rw [ht, state_take_self hs]
        exact ⟨Nat.le_succ _, List.nil_subset _⟩
      · rw [state_take_of_ne ht]
        exact ⟨Nat.le_refl _, List.Subset.refl _⟩
    exact ⟨List.length_modify .., rfl, fun t => (hstate t).1, fun t => (hstate t).2⟩
  · rw [take_of_le (Nat.le_of_not_lt hs)]
    exact Later.refl w

theorem later_unlink (l : Link) (w : Signals) : Later w (w.unlink l) := by
  have hcalls : ∀ s, ((w.unlink l).state s).calls = (w.state s).calls := by
    intro s
    rw [state_unlink]
  exact ⟨List.length_map .., rfl, fun s => Nat.le_of_eq (hcalls s).symm,
    fun s => (waiting_unlink_sublist l w s).subset⟩

/-- A connection is followed, with the slots that were called so far. -/
def follow (depth : Nat) (x : Signals × List SlotId) (l : Link) : Signals × List SlotId :=
  match l with
  | .slot c => (x.1.count c, x.2 ++ [c])
  | .child s => ((x.1.fireTo depth s).1, x.2 ++ (x.1.fireTo depth s).2)

theorem fireTo_succ (depth : Nat) (s : SignalId) (w : Signals) :
    w.fireTo (depth + 1) s = (w.state s).waiting.foldl (follow depth) (w.take s, []) := rfl

/-- Firing a signal takes its connections and follows them. -/
theorem fire_eq (hs : s < w.states.length) :
    ∃ depth, w.fire s = (w.state s).waiting.foldl (follow depth) (w.take s, []) := by
  have hpos : w.states.length ≠ 0 := Nat.ne_of_gt (Nat.zero_lt_of_lt hs)
  rcases Nat.exists_eq_succ_of_ne_zero hpos with ⟨depth, hdepth⟩
  exact ⟨depth, by rw [fire, hdepth, Nat.succ_eq_add_one, fireTo_succ]⟩

/-- A relation that holds for all parts of a firing, and for what is made up of them. -/
structure HoldsOfParts (R : Signals → Signals → Prop) : Prop where
  refl : ∀ w, R w w
  trans : ∀ {w w' w'' : Signals}, R w w' → R w' w'' → R w w''
  take : ∀ s w, R w (w.take s)
  count : ∀ c w, R w (w.count c)

theorem HoldsOfParts.foldl {R : Signals → Signals → Prop} (hR : HoldsOfParts R)
    (h : ∀ s w, R w (w.fireTo depth s).1) (links : List Link) (x : Signals × List SlotId) :
    R x.1 (links.foldl (follow depth) x).1 := by
  -- By induction on the connections; after each the signals are others.
  induction links generalizing x with
  | nil => exact hR.refl _
  | cons l links ih =>
      rw [List.foldl_cons]
      refine hR.trans ?_ (ih _)
      cases l with
      | slot c => exact hR.count c x.1
      | child s => exact h s x.1

/-- Such a relation holds for a firing as a whole. -/
theorem HoldsOfParts.fireTo {R : Signals → Signals → Prop} (hR : HoldsOfParts R) (depth : Nat)
    (s : SignalId) (w : Signals) : R w (w.fireTo depth s).1 := by
  -- By induction on the depth, which is less for the children.
  induction depth generalizing s w with
  | zero => exact hR.refl w
  | succ depth ih =>
      rw [fireTo_succ]
      exact hR.trans (hR.take s w) (hR.foldl ih _ (w.take s, []))

theorem later_parts : HoldsOfParts Later := ⟨Later.refl, Later.trans, later_take, later_count⟩

/-- Firing adds calls and uses up connections. -/
theorem later_fireTo (depth : Nat) (s : SignalId) (w : Signals) :
    Later w (w.fireTo depth s).1 :=
  later_parts.fireTo depth s w

theorem later_foldl (links : List Link) (x : Signals × List SlotId) :
    Later x.1 (links.foldl (follow depth) x).1 :=
  later_parts.foldl (later_fireTo depth) links x

/-! ### The signals that are not met -/

/-- Firing `s` may get to `t`: there is a way along connections to children. -/
inductive Leads (w : Signals) : SignalId → SignalId → Prop
  | refl (s : SignalId) : Leads w s s
  | child {s t u : SignalId} (h : .child t ∈ (w.state s).waiting) (hrest : Leads w t u) :
      Leads w s u

/-- No way comes about while signals are fired. -/
theorem Leads.of_later (h : Leads w' s t) (hlater : Later w w') : Leads w s t := by
  induction h with
  | refl s => exact .refl s
  | child hmem _ ih => exact .child (hlater.waiting _ hmem) ih

/-- If children come after their parents, then all ways go to later signals. -/
theorem Leads.le (h : Leads w s t) (hchild : ∀ s t, .child t ∈ (w.state s).waiting → s < t) :
    s ≤ t := by
  induction h with
  | refl s => exact Nat.le_refl s
  | child hmem _ ih => exact Nat.le_trans (Nat.le_of_lt (hchild _ _ hmem)) ih

/-- Connections that do not lead to a signal leave it as it is. -/
theorem state_foldl_of_not_leads {links : List Link} {x : Signals × List SlotId}
    (h : ∀ s w, ¬Leads w s t → (w.fireTo depth s).1.state t = w.state t)
    (hlinks : ∀ s, .child s ∈ links → ¬Leads x.1 s t) :
    (links.foldl (follow depth) x).1.state t = x.1.state t := by
  induction links generalizing x with
  | nil => rfl
  | cons l links ih =>
      rw [List.foldl_cons]
      -- What is followed first does not open a way for the rest.
      have hlater : Later x.1 (follow depth x l).1 := later_foldl [l] x
      have hrest : ∀ s, .child s ∈ links → ¬Leads (follow depth x l).1 s t :=
        fun s hs hleads => hlinks s (List.mem_cons_of_mem _ hs) (hleads.of_later hlater)
      rw [ih hrest]
      cases l with
      | slot c => rfl
      | child s => exact h s x.1 (hlinks s (List.mem_cons_self ..))

/-- Firing does not change a signal that it does not get to. -/
theorem state_fireTo_of_not_leads (h : ¬Leads w s t) :
    (w.fireTo depth s).1.state t = w.state t := by
  induction depth generalizing s w with
  | zero => rfl
  | succ depth ih =>
      have hne : t ≠ s := by
        rintro rfl
        exact h (.refl t)
      -- A way from a child would be one from the signal itself.
      have hlinks : ∀ u, .child u ∈ (w.state s).waiting → ¬Leads (w.take s) u t :=
        fun u hu hleads => h (.child hu (hleads.of_later (later_take s w)))
      rw [fireTo_succ, state_foldl_of_not_leads (fun s w => ih) hlinks, state_take_of_ne hne]

theorem state_fire_of_not_leads (h : ¬Leads w s t) : (w.fire s).1.state t = w.state t :=
  state_fireTo_of_not_leads h

/-- A signal that there is no way back to is called once when it is fired. -/
theorem state_fire_self (hs : s < w.states.length)
    (h : ∀ t, .child t ∈ (w.state s).waiting → ¬Leads w t s) :
    (w.fire s).1.state s = ⟨(w.state s).calls + 1, []⟩ := by
  rcases fire_eq hs with ⟨depth, hfire⟩
  have hlinks : ∀ t, .child t ∈ (w.state s).waiting → ¬Leads (w.take s) t s :=
    fun t ht hleads => h t ht (hleads.of_later (later_take s w))
  rw [hfire, state_foldl_of_not_leads (fun s w => state_fireTo_of_not_leads) hlinks,
    state_take_self hs]

/-! ### The slots that are called -/

theorem subset_foldl (links : List Link) (x : Signals × List SlotId) :
    x.2 ⊆ (links.foldl (follow depth) x).2 := by
  induction links generalizing x with
  | nil => exact List.Subset.refl _
  | cons l links ih =>
      rw [List.foldl_cons]
      refine List.Subset.trans ?_ (ih _)
      cases l <;> exact List.subset_append_left _ _

/-- A slot among the connections is called. -/
theorem mem_foldl_of_mem {links : List Link} (h : .slot c ∈ links)
    (x : Signals × List SlotId) : c ∈ (links.foldl (follow depth) x).2 := by
  -- It is called when its turn comes, and what is called stays called.
  rcases List.append_of_mem h with ⟨before, after, rfl⟩
  rw [List.foldl_append, List.foldl_cons]
  exact subset_foldl after _ (List.mem_append_right _ (List.mem_singleton_self c))

/-- A slot that is called is one of the connections, or waited for some signal. -/
theorem waits_of_mem_foldl {links : List Link} {x : Signals × List SlotId}
    (h : ∀ s (w : Signals), c ∈ (w.fireTo depth s).2 → ∃ t, .slot c ∈ (w.state t).waiting)
    (hmem : c ∈ (links.foldl (follow depth) x).2) :
    c ∈ x.2 ∨ .slot c ∈ links ∨ ∃ t, .slot c ∈ (x.1.state t).waiting := by
  induction links generalizing x with
  | nil => exact Or.inl hmem
  | cons l links ih =>
      rw [List.foldl_cons] at hmem
      cases l with
      | slot b =>
          rcases ih hmem with hx | hlinks | ht
          · rcases List.mem_append.1 hx with hx | hx
            · exact Or.inl hx
            · rw [List.mem_singleton.1 hx]
              exact Or.inr (Or.inl (List.mem_cons_self ..))
          · exact Or.inr (Or.inl (List.mem_cons_of_mem _ hlinks))
          · exact Or.inr (Or.inr ht)
      | child s =>
          rcases ih hmem with hx | hlinks | ⟨t, ht⟩
          · rcases List.mem_append.1 hx with hx | hx
            · exact Or.inl hx
            · exact Or.inr (Or.inr (h s x.1 hx))
          · exact Or.inr (Or.inl (List.mem_cons_of_mem _ hlinks))
          · -- What waits after the child was fired did so before.
            exact Or.inr (Or.inr ⟨t, (later_fireTo depth s x.1).waiting t ht⟩)

/-- A slot that is called waited for some signal. -/
theorem waits_of_mem_fireTo (h : c ∈ (w.fireTo depth s).2) :
    ∃ t, .slot c ∈ (w.state t).waiting := by
  induction depth generalizing s w with
  | zero => exact absurd h List.not_mem_nil
  | succ depth ih =>
      rw [fireTo_succ] at h
      -- What waits after the signal was taken waited before.
      rcases waits_of_mem_foldl (fun s w => ih) h with hnil | hlinks | ⟨t, ht⟩
      · exact absurd hnil List.not_mem_nil
      · exact ⟨s, hlinks⟩
      · exact ⟨t, (later_take s w).waiting t ht⟩

/-- A slot that waits for no other signal is called exactly if it waits for this one. -/
theorem mem_fire_iff (hs : s < w.states.length)
    (h : ∀ t, t ≠ s → .slot c ∉ (w.state t).waiting) :
    c ∈ (w.fire s).2 ↔ .slot c ∈ (w.state s).waiting := by
  constructor
  · intro hmem
    rcases waits_of_mem_fireTo hmem with ⟨t, ht⟩
    by_cases heq : t = s
    · rw [← heq]
      exact ht
    · exact absurd ht (h t heq)
  · intro hmem
    rcases fire_eq hs with ⟨depth, hfire⟩
    rw [hfire]
    exact mem_foldl_of_mem hmem _

/-- Nothing waits for a signal that was fired, and it was called. -/
theorem fire_self (hs : s < w.states.length) :
    ((w.fire s).1.state s).waiting = [] ∧ 0 < ((w.fire s).1.state s).calls := by
  rcases fire_eq hs with ⟨depth, hfire⟩
  have hlater : Later (w.take s) (w.fire s).1 := by
    rw [hfire]
    exact later_foldl _ (w.take s, [])
  have hwaiting := hlater.waiting s
  have hcalls := hlater.calls s
  rw [state_take_self hs] at hwaiting hcalls
  exact ⟨List.subset_nil.1 hwaiting, Nat.lt_of_lt_of_le (Nat.succ_pos _) hcalls⟩

/-! ### Signals that were made -/

/-- Signals that were made by the operations, in any order. -/
inductive Made : Signals → Prop
  | none : Made {}
  | create {w : Signals} (h : Made w) : Made w.create.1
  | createChild {w : Signals} (h : Made w) {parent : SignalId}
      (hparent : parent < w.states.length) : Made (w.createChild parent).1
  | connect {w : Signals} (h : Made w) {s : SignalId} (hs : s < w.states.length) :
      Made (w.connect s).1
  | disconnect {w : Signals} (h : Made w) (c : SlotId) : Made (w.disconnect c)
  | drop {w : Signals} (h : Made w) (s : SignalId) : Made (w.drop s)
  | fire {w : Signals} (h : Made w) (s : SignalId) : Made (w.fire s).1

/-- Connections go to what is there, and to children from signals that were created before. -/
structure Sound (w : Signals) : Prop where
  child : ∀ s t, .child t ∈ (w.state s).waiting → s < t ∧ t < w.states.length
  slot : ∀ s c, .slot c ∈ (w.state s).waiting → c < w.slotCalls.length

/-- More signals and fewer connections do no harm. -/
theorem Sound.of_subset (h : w.Sound) (hlength : w.states.length ≤ w'.states.length)
    (hslots : w.slotCalls.length ≤ w'.slotCalls.length)
    (hwaiting : ∀ s, (w'.state s).waiting ⊆ (w.state s).waiting) : w'.Sound where
  child s t ht := by
    rcases h.child s t (hwaiting s ht) with ⟨hlt, hbound⟩
    exact ⟨hlt, Nat.lt_of_lt_of_le hbound hlength⟩
  slot s c hc := Nat.lt_of_lt_of_le (h.slot s c (hwaiting s hc)) hslots

theorem Sound.of_later (h : w.Sound) (hlater : Later w w') : w'.Sound :=
  h.of_subset (Nat.le_of_eq hlater.length.symm) (Nat.le_of_eq hlater.slots.symm) hlater.waiting

theorem Sound.le_of_leads (h : w.Sound) (hleads : Leads w s t) : s ≤ t :=
  hleads.le fun s t ht => (h.child s t ht).1

theorem Sound.create (h : w.Sound) : w.create.1.Sound := by
  refine h.of_subset ?_ (Nat.le_refl _) fun s => ?_
  · rw [length_create]
    exact Nat.le_add_right _ _
  · rw [state_create]
    exact List.Subset.refl _

/-- A connection more does no harm if it goes to what is there, and not back. -/
theorem Sound.await (h : w.Sound) (hs : s < w.states.length) {l : Link}
    (hchild : ∀ t, l = .child t → s < t ∧ t < w.states.length)
    (hslot : ∀ c, l = .slot c → c < w.slotCalls.length) : (w.await s l).Sound where
  child r t ht := by
    have hlength : (w.await s l).states.length = w.states.length := List.length_modify ..
    rw [hlength]
    -- Either it waited before, or it is the new connection.
    rcases (mem_waiting_await hs).1 ht with ht | ⟨rfl, hl⟩
    · exact h.child r t ht
    · exact hchild t hl.symm
  slot r c hc := by
    rcases (mem_waiting_await hs).1 hc with hc | ⟨-, hl⟩
    · exact h.slot r c hc
    · exact hslot c hl.symm

theorem waiting_drop_sublist (s : SignalId) (w : Signals) (t : SignalId) :
    ((w.drop s).state t).waiting.Sublist (w.state t).waiting := by
  refine List.Sublist.trans ?_ (waiting_unlink_sublist (.child s) w t)
  by_cases h : s = t
  · simp only [state, drop, List.getD_eq_getElem?_getD, List.getElem?_modify, h, if_true]
    cases (w.unlink (.child t)).states[t]? <;> exact List.nil_sublist _
  · simp only [state, drop, List.getD_eq_getElem?_getD, List.getElem?_modify, h, if_false]
    cases (w.unlink (.child s)).states[t]? <;> exact List.Sublist.refl _

theorem length_drop (s : SignalId) (w : Signals) :
    (w.drop s).states.length = w.states.length :=
  (List.length_modify ..).trans (List.length_map ..)

/-- Connections go to what is there, and to children from their parents. -/
theorem Made.sound (h : Made w) : w.Sound := by
  induction h with
  | none =>
      exact ⟨fun s t h => absurd h List.not_mem_nil, fun s c h => absurd h List.not_mem_nil⟩
  | create _ ih => exact ih.create
  | @createChild w parent _ hparent ih =>
      -- The child has the number after all others, so its parent comes before it.
      refine ih.create.await (lt_length_create hparent) (fun t ht => ?_) fun c hc => nomatch hc
      cases ht
      rw [length_create]
      exact ⟨hparent, Nat.lt_succ_self _⟩
  | @connect w s _ hs ih =>
      have hmore : Sound { w with slotCalls := w.slotCalls ++ [0] } := by
        refine ih.of_subset (Nat.le_refl _) ?_ fun s => List.Subset.refl _
        rw [List.length_append]
        exact Nat.le_add_right _ _
      refine hmore.await hs (fun t ht => nomatch ht) fun c hc => ?_
      cases hc
      rw [List.length_append]
      exact Nat.lt_succ_self _
  | @disconnect w c _ ih =>
      refine ih.of_subset ?_ (Nat.le_refl _) fun s => (waiting_unlink_sublist _ w s).subset
      exact Nat.le_of_eq (List.length_map ..).symm
  | @drop w _ s ih =>
      exact ih.of_subset (Nat.le_of_eq (length_drop s w).symm) (Nat.le_refl _)
        fun t => (waiting_drop_sublist s w t).subset
  | @fire w _ s ih =>
      exact ih.of_later (later_fireTo w.states.length s w)

end Signals

end SignedHttp
