import Mathlib.Data.List.Nodup
import Mathlib.Logic.Relation
import SignedHttp.Proofs.Timing.Propagation

/-!
# One Call for Each Connection

What is done with signals is a list of actions, and this list alone says which signals an action
fires (`Fires`) and what waits for a signal before it (`Waits`). The two are about each other. A
connection waits from the action that made it until its signal is fired or it is destroyed. An
action fires the signal that it is about, and down from there each child whose connection still
waits for its parent. So a connection to a parent passes on the first firing after it was made,
and no later one.

Neither mentions the state of a signal. That the states agree with the list is shown action by
action (`Reflects.act`): what waits for a signal then is what waits for it now, without what is
fired or destroyed, and with what is connected. A firing of the list is therefore a way along
connections in the state, and what it does there is known.

A slot that waits was not called, and one that was called does not wait (`CalledOnce`). No action
makes a connection again, so no slot is called twice.

## Main definitions

* `Signals.Action`, `Signals.act`, `Signals.run`: Signals in use.
* `Signals.Fires`, `Signals.Waits`: What is fired and what waits, told by the actions alone.
* `Signals.Possible`: Actions on signals that are there.
* `Signals.Reflects`: The states agree with the actions.

## Theorems

* `mem_waiting_act`: What waits after an action.
* `reflects_before`: After any actions the states agree with them.
* `calledOnce_run`: Each slot is called or waits, and not both.
* `called_once_and_passed_on`: Which slots are called, and which signals count a call.
-/

namespace SignedHttp

namespace Signals

/-! ### Actions -/

/-- Something that is done with signals. -/
inductive Action
  | create
  | createChild (parent : SignalId)
  | connect (s : SignalId)
  | disconnect (c : SlotId)
  | fire (s : SignalId)
  deriving DecidableEq, Repr

/-- The signals after an action, and the slots that it calls, in order. -/
def act (w : Signals) : Action → Signals × List SlotId
  | .create => (w.create.1, [])
  | .createChild parent => ((w.createChild parent).1, [])
  | .connect s => ((w.connect s).1, [])
  | .disconnect c => (w.disconnect c, [])
  | .fire s => w.fire s

/-- The signals after some actions, and all slots that were called, in order. -/
def run (actions : List Action) : Signals × List SlotId :=
  actions.foldl (fun x a => ((x.1.act a).1, x.2 ++ (x.1.act a).2)) ({}, [])

/-- The signals before an action. -/
def before (actions : List Action) (n : Nat) : Signals := (run (actions.take n)).1

/-- The slots that an action calls. -/
def calledBy (actions : List Action) (n : Nat) : List SlotId :=
  (actions[n]?.map fun a => ((before actions n).act a).2).getD []

/-! ### What the actions tell -/

def Action.creates : Action → Bool
  | .create | .createChild _ => true
  | _ => false

def Action.connects : Action → Bool
  | .connect _ => true
  | _ => false

/-- How many signals were created before an action. -/
def signalsBefore (actions : List Action) (n : Nat) : Nat :=
  (actions.take n).countP Action.creates

/-- How many slots were connected before an action. -/
def slotsBefore (actions : List Action) (n : Nat) : Nat :=
  (actions.take n).countP Action.connects

/-- Is the action one on signals that are there, when there are so many? -/
def Action.isPossible (signals : Nat) : Action → Bool
  | .createChild s | .connect s | .fire s => decide (s < signals)
  | .create | .disconnect _ => true

/-- Each action is on signals that were created before. -/
def Possible (actions : List Action) : Prop :=
  ∀ n (h : n < actions.length), actions[n].isPossible (signalsBefore actions n) = true

instance (actions : List Action) : Decidable (Possible actions) :=
  inferInstanceAs (Decidable (∀ n (h : n < actions.length), actions[n].isPossible _ = true))

/-- The connection that an action makes: what waits, and for which signal. -/
def Action.connection? (signals slots : Nat) : Action → Option (SignalId × Link)
  | .createChild parent => some (parent, .child signals)
  | .connect s => some (s, .slot slots)
  | _ => none

/-- What an action destroys the connection of. -/
def Action.destroyed? : Action → Option Link
  | .disconnect c => some (.slot c)
  | _ => none

/-- The connection that is made by an action of a list. -/
def connectionAt? (actions : List Action) (n : Nat) : Option (SignalId × Link) :=
  actions[n]?.bind (Action.connection? (signalsBefore actions n) (slotsBefore actions n))

/-- What an action of a list destroys the connection of. -/
def destroyedAt? (actions : List Action) (n : Nat) : Option Link :=
  actions[n]?.bind Action.destroyed?

mutual

/-- An action fires a signal, directly or passed on from parents to children that wait for them. -/
def Fires (actions : List Action) (n : Nat) (t : SignalId) : Prop :=
  ∃ s, actions[n]? = some (.fire s) ∧
    Relation.ReflTransGen (fun parent child => Waits actions n parent (.child child)) s t
termination_by (n, 1)

/-- Something waits for a signal before an action: it was connected, and since then the signal was
not fired and the connection not destroyed. -/
def Waits (actions : List Action) (n : Nat) (s : SignalId) (l : Link) : Prop :=
  ∃ m, m < n ∧ connectionAt? actions m = some (s, l) ∧
    ∀ k, m < k → k < n → ¬Fires actions k s ∧ destroyedAt? actions k ≠ some l
termination_by (n, 0)

end

/-- A signal is another one or a descendant of it, reached through parents for which their children
wait before an action. -/
def Descends (actions : List Action) (n : Nat) : SignalId → SignalId → Prop :=
  Relation.ReflTransGen fun parent child => Waits actions n parent (.child child)

variable {w : Signals} {actions : List Action} {a : Action} {n : Nat} {s t : SignalId}
  {c : SlotId} {l : Link}

theorem fires_iff :
    Fires actions n t ↔ ∃ s, actions[n]? = some (.fire s) ∧ Descends actions n s t := by
  rw [Fires]
  exact Iff.rfl

/-- What waits after an action was connected by it, or waited and was left alone. -/
theorem waits_succ_iff :
    Waits actions (n + 1) s l ↔ connectionAt? actions n = some (s, l) ∨
      Waits actions n s l ∧ ¬Fires actions n s ∧ destroyedAt? actions n ≠ some l := by
  rw [Waits, Waits]
  constructor
  · -- The connection was made by the last action or by one before it.
    rintro ⟨m, hm, hmade, hrest⟩
    rcases Nat.lt_or_eq_of_le (Nat.le_of_lt_succ hm) with hlt | rfl
    · exact Or.inr ⟨⟨m, hlt, hmade, fun k hmk hkn => hrest k hmk (Nat.lt_succ_of_lt hkn)⟩,
        hrest n hlt (Nat.lt_succ_self n)⟩
    · exact Or.inl hmade
  · rintro (hmade | ⟨⟨m, hm, hmade, hrest⟩, hnow⟩)
    · exact ⟨n, Nat.lt_succ_self n, hmade, fun k hnk hkn => absurd hkn (by omega)⟩
    · refine ⟨m, Nat.lt_succ_of_lt hm, hmade, fun k hmk hkn => ?_⟩
      rcases Nat.lt_or_eq_of_le (Nat.le_of_lt_succ hkn) with hlt | rfl
      · exact hrest k hmk hlt
      · exact hnow

theorem not_waits_zero : ¬Waits actions 0 s l := by
  rw [Waits]
  rintro ⟨m, hm, -⟩
  exact Nat.not_lt_zero m hm

/-! ### One more action -/

theorem run_concat (actions : List Action) (a : Action) :
    run (actions ++ [a])
      = (((run actions).1.act a).1, (run actions).2 ++ ((run actions).1.act a).2) := by
  rw [run, List.foldl_append]
  rfl

theorem take_succ_of_getElem? (ha : actions[n]? = some a) :
    actions.take (n + 1) = actions.take n ++ [a] := by
  rw [List.take_add_one, ha, Option.toList_some]

/-- The states after an action are those that the action makes of the ones before it. -/
theorem before_succ (ha : actions[n]? = some a) :
    before actions (n + 1) = ((before actions n).act a).1 := by
  rw [before, take_succ_of_getElem? ha, run_concat]
  rfl

theorem before_succ_of_none (ha : actions[n]? = none) :
    before actions (n + 1) = before actions n := by
  rw [before, List.take_add_one, ha, Option.toList_none, List.append_nil]
  rfl

theorem calledBy_of_getElem? (ha : actions[n]? = some a) :
    calledBy actions n = ((before actions n).act a).2 := by
  rw [calledBy, ha]
  rfl

theorem signalsBefore_succ (ha : actions[n]? = some a) :
    signalsBefore actions (n + 1) = signalsBefore actions n + if a.creates then 1 else 0 := by
  rw [signalsBefore, take_succ_of_getElem? ha, List.countP_append, List.countP_singleton]
  rfl

theorem slotsBefore_succ (ha : actions[n]? = some a) :
    slotsBefore actions (n + 1) = slotsBefore actions n + if a.connects then 1 else 0 := by
  rw [slotsBefore, take_succ_of_getElem? ha, List.countP_append, List.countP_singleton]
  rfl

theorem Made.act (hw : w.Made) (ha : a.isPossible w.states.length = true) : (w.act a).1.Made := by
  cases a with
  | create => exact hw.create
  | createChild parent => exact hw.createChild (of_decide_eq_true ha)
  | connect s => exact hw.connect (of_decide_eq_true ha)
  | disconnect c => exact hw.disconnect c
  | fire s => exact hw.fire s

theorem length_act (w : Signals) (a : Action) :
    (w.act a).1.states.length = w.states.length + if a.creates then 1 else 0 := by
  cases a with
  | create => exact length_create w
  | createChild parent => exact (List.length_modify ..).trans (length_create w)
  | connect s => exact List.length_modify ..
  | disconnect c => exact List.length_map ..
  | fire s => exact length_fire s w

theorem length_slotCalls_act (w : Signals) (a : Action) :
    (w.act a).1.slotCalls.length = w.slotCalls.length + if a.connects then 1 else 0 := by
  cases a with
  | connect s => exact List.length_append
  | fire s => exact (later_fireTo w.states.length s w).slots
  | _ => rfl

/-- What waits after an action was connected by it, or waited before and was neither fired nor
destroyed. -/
theorem mem_waiting_act (hw : w.Made) (ha : a.isPossible w.states.length = true) :
    l ∈ ((w.act a).1.state s).waiting ↔
      a.connection? w.states.length w.slotCalls.length = some (s, l) ∨
        l ∈ (w.state s).waiting ∧ ¬(∃ r, a = .fire r ∧ w.Leads r s) ∧ a.destroyed? ≠ some l := by
  cases a with
  | create =>
      rw [act, state_create]
      simp [Action.connection?, Action.destroyed?]
  | createChild parent =>
      rw [act, mem_waiting_createChild (of_decide_eq_true ha), or_comm]
      simp [Action.connection?, Action.destroyed?, eq_comm]
  | connect r =>
      rw [act, mem_waiting_connect (of_decide_eq_true ha), or_comm]
      simp [Action.connection?, Action.destroyed?, eq_comm]
  | disconnect c =>
      rw [act, disconnect, state_unlink, List.mem_filter, decide_eq_true_eq]
      simp [Action.connection?, Action.destroyed?, eq_comm]
  | fire r =>
      have hr : r < w.states.length := of_decide_eq_true ha
      rw [act]
      -- A signal that the firing gets to has given up all, and any other one nothing.
      by_cases hleads : w.Leads r s
      · rw [hw.state_fire_of_leads hr hleads]
        simp [Action.connection?, hleads]
      · rw [state_fire_of_not_leads hleads]
        simp [Action.connection?, Action.destroyed?, hleads]

/-! ### The states agree with the actions -/

/-- Signals agree with the actions before one of a list. -/
structure Reflects (actions : List Action) (n : Nat) (w : Signals) : Prop where
  made : w.Made
  signals : w.states.length = signalsBefore actions n
  slots : w.slotCalls.length = slotsBefore actions n
  waiting : ∀ s l, l ∈ (w.state s).waiting ↔ Waits actions n s l

theorem leads_iff :
    w.Leads s t ↔
      Relation.ReflTransGen (fun parent child => .child child ∈ (w.state parent).waiting) s t := by
  constructor
  · intro h
    induction h with
    | refl s => exact Relation.ReflTransGen.refl
    | child hmem _ ih => exact Relation.ReflTransGen.head hmem ih
  · intro h
    induction h using Relation.ReflTransGen.head_induction_on with
    | refl => exact .refl t
    | head hmem _ ih => exact .child hmem ih

/-- The descendants of a signal are those that a way leads to. -/
theorem Reflects.descends_iff (h : Reflects actions n w) :
    Descends actions n s t ↔ w.Leads s t := by
  rw [leads_iff, Descends]
  simp only [h.waiting]

/-- What an action fires by the list is what it gets to in the states. -/
theorem Reflects.fires_iff (h : Reflects actions n w) (ha : actions[n]? = some a) :
    Fires actions n t ↔ ∃ s, a = .fire s ∧ w.Leads s t := by
  rw [Signals.fires_iff, ha]
  simp only [Option.some.injEq, h.descends_iff]

/-- One action more, and the states still agree. -/
theorem Reflects.act (h : Reflects actions n w) (ha : actions[n]? = some a)
    (hpossible : a.isPossible w.states.length = true) : Reflects actions (n + 1) (w.act a).1 where
  made := h.made.act hpossible
  signals := by rw [length_act, signalsBefore_succ ha, h.signals]
  slots := by rw [length_slotCalls_act, slotsBefore_succ ha, h.slots]
  waiting s l := by
    -- The numbers that the list counts are those that the states give.
    have hconnection : connectionAt? actions n
        = a.connection? w.states.length w.slotCalls.length := by
      rw [connectionAt?, ha, h.signals, h.slots]
      rfl
    have hdestroyed : destroyedAt? actions n = a.destroyed? := by
      rw [destroyedAt?, ha]
      rfl
    rw [mem_waiting_act h.made hpossible, waits_succ_iff, h.fires_iff ha, h.waiting, hconnection,
      hdestroyed]

theorem reflects_nil (actions : List Action) : Reflects actions 0 {} where
  made := .none
  signals := rfl
  slots := rfl
  waiting _ _ := iff_of_false List.not_mem_nil not_waits_zero

theorem Reflects.isPossible (hreflects : Reflects actions n w) (h : Possible actions)
    (ha : actions[n]? = some a) : a.isPossible w.states.length = true := by
  rcases List.getElem?_eq_some_iff.1 ha with ⟨hn, rfl⟩
  rw [hreflects.signals]
  exact h n hn

/-- Before each action the states agree with the actions so far. -/
theorem reflects_before (h : Possible actions) (hn : n ≤ actions.length) :
    Reflects actions n (before actions n) := by
  -- By induction on the number of actions, each of which was possible when it came.
  induction n with
  | zero => exact reflects_nil actions
  | succ n ih =>
      have ha : actions[n]? = some actions[n] := List.getElem?_eq_getElem hn
      have hreflects := ih (Nat.le_of_succ_le hn)
      rw [before_succ ha]
      exact hreflects.act ha (hreflects.isPossible h ha)

/-! ### No slot is called twice -/

/-- What an action calls had waited. It leaves no more waiting, unless it connects a new slot. -/
theorem count_add_pending_act (hw : w.Made) (ha : a.isPossible w.states.length = true)
    (c : SlotId) :
    (w.act a).2.count c + (w.act a).1.pending (.slot c)
      ≤ w.pending (.slot c) + if a.connects ∧ w.slotCalls.length = c then 1 else 0 := by
  -- A firing calls what waited; all other actions call nothing.
  cases a with
  | create =>
      rw [act, pending_create, List.count_nil, Nat.zero_add]
      exact Nat.le_add_right _ _
  | createChild parent =>
      rw [act, pending_createChild (of_decide_eq_true ha), List.count_nil, Nat.zero_add]
      simp
  | connect s =>
      rw [act, pending_connect (of_decide_eq_true ha), List.count_nil, Nat.zero_add]
      simp [Action.connects]
  | disconnect b =>
      rw [act, List.count_nil, Nat.zero_add]
      refine Nat.le_add_right_of_le (pending_le (List.length_map ..) fun s => ?_)
      exact (waiting_unlink_sublist _ w s).count_le _
  | fire s =>
      rw [act, hw.count_fire (of_decide_eq_true ha)]
      exact Nat.le_add_right _ _

/-- Each slot that is there was called or waits, and not both. -/
def CalledOnce (x : Signals × List SlotId) : Prop :=
  ∀ c, x.2.count c + x.1.pending (.slot c) ≤ if c < x.1.slotCalls.length then 1 else 0

/-- One action more, and still no slot was called twice. -/
theorem CalledOnce.act {x : Signals × List SlotId} (h : CalledOnce x) (hw : x.1.Made)
    (ha : a.isPossible x.1.states.length = true) :
    CalledOnce ((x.1.act a).1, x.2 ++ (x.1.act a).2) := by
  intro c
  have hc := h c
  have hact := count_add_pending_act hw ha c
  rw [length_slotCalls_act, List.count_append]
  cases hconnects : a.connects with
  | false =>
      simp only [hconnects, Bool.false_eq_true, false_and, if_false, Nat.add_zero] at hact ⊢
      omega
  | true =>
      simp only [hconnects, true_and, if_true] at hact ⊢
      -- A new slot has the next number, under which there was none before.
      rcases Nat.lt_trichotomy c x.1.slotCalls.length with hlt | heq | hgt
      · rw [if_pos hlt] at hc
        rw [if_neg (Nat.ne_of_gt hlt)] at hact
        rw [if_pos (Nat.lt_succ_of_lt hlt)]
        omega
      · rw [if_neg (Nat.not_lt_of_le (Nat.le_of_eq heq.symm))] at hc
        rw [if_pos heq.symm] at hact
        rw [if_pos (Nat.lt_succ_of_le (Nat.le_of_eq heq))]
        omega
      · rw [if_neg (Nat.not_lt_of_gt hgt)] at hc
        rw [if_neg (Nat.ne_of_lt hgt)] at hact
        omega

theorem callsOf_connect (s : SignalId) (c : SlotId) (w : Signals) :
    (w.connect s).1.callsOf c = w.callsOf c := by
  simp only [callsOf, connect, await, List.getD_eq_getElem?_getD]
  by_cases hc : c < w.slotCalls.length
  · rw [List.getElem?_append_left hc]
  · rw [List.getElem?_append_right (Nat.le_of_not_lt hc),
      List.getElem?_eq_none (Nat.le_of_not_lt hc)]
    cases c - w.slotCalls.length <;> rfl

theorem callsOf_act (hw : w.Made) (a : Action) (c : SlotId) :
    (w.act a).1.callsOf c = w.callsOf c + (w.act a).2.count c := by
  cases a with
  | connect s => exact callsOf_connect s c w
  | fire s => exact hw.callsOf_fire s c
  | _ => rfl

/-- Each slot was called once at most, and has counted its calls. -/
theorem calledOnce_run (h : Possible actions) (hn : n ≤ actions.length) :
    CalledOnce (run (actions.take n)) ∧
      ∀ c, (run (actions.take n)).1.callsOf c = (run (actions.take n)).2.count c := by
  induction n with
  | zero => exact ⟨fun c => Nat.le_refl 0, fun c => rfl⟩
  | succ n ih =>
      have ha : actions[n]? = some actions[n] := List.getElem?_eq_getElem hn
      have hreflects : Reflects actions n (run (actions.take n)).1 :=
        reflects_before h (Nat.le_of_succ_le hn)
      -- The next action meets states that agree with the actions before it.
      rcases ih (Nat.le_of_succ_le hn) with ⟨honce, hcalls⟩
      rw [take_succ_of_getElem? ha, run_concat]
      refine ⟨honce.act hreflects.made (hreflects.isPossible h ha), fun c => ?_⟩
      rw [callsOf_act hreflects.made, hcalls, List.count_append]

theorem nodup_run (h : Possible actions) : (run actions).2.Nodup := by
  have honce := (calledOnce_run h (Nat.le_refl actions.length)).1
  rw [List.take_length] at honce
  refine List.nodup_iff_count_le_one.2 fun c => ?_
  have hc := honce c
  split at hc <;> omega

/-! ### What each action calls -/

/-- Only a firing calls something. -/
theorem act_of_not_fire (ha : ∀ s, a ≠ .fire s) (w : Signals) :
    (w.act a).2 = [] ∧ ∀ t, ((w.act a).1.state t).calls = (w.state t).calls := by
  cases a with
  | create => exact ⟨rfl, fun t => by rw [act, state_create]⟩
  | createChild parent =>
      exact ⟨rfl, fun t => by rw [act, createChild, calls_await, state_create]⟩
  | connect s => exact ⟨rfl, calls_await s _ _⟩
  | disconnect c => exact ⟨rfl, fun t => by rw [act, disconnect, state_unlink]⟩
  | fire s => exact absurd rfl (ha s)

/-- An action that is not a firing calls nothing. -/
theorem calm_of_not_fire (hnot : ∀ s, actions[n]? ≠ some (.fire s)) :
    calledBy actions n = [] ∧ ∀ t,
      ((before actions (n + 1)).state t).calls = ((before actions n).state t).calls := by
  cases ha : actions[n]? with
  | none => exact ⟨by rw [calledBy, ha]; rfl, fun t => by rw [before_succ_of_none ha]⟩
  | some a =>
      have hother : ∀ s, a ≠ .fire s := fun s heq => hnot s (heq ▸ ha)
      rw [calledBy_of_getElem? ha, before_succ ha]
      exact act_of_not_fire hother (before actions n)

/-- An action calls the slots that wait for what it fires. -/
theorem mem_calledBy_iff (h : Possible actions) :
    c ∈ calledBy actions n ↔ ∃ s, Waits actions n s (.slot c) ∧ Fires actions n s := by
  -- Only a firing calls slots, and only a firing fires signals.
  by_cases hfire : ∃ r, actions[n]? = some (.fire r)
  · rcases hfire with ⟨r, ha⟩
    have hn := (List.getElem?_eq_some_iff.1 ha).1
    have hreflects := reflects_before h (Nat.le_of_lt hn)
    have hr := of_decide_eq_true (hreflects.isPossible h ha)
    rw [calledBy_of_getElem? ha, act, hreflects.made.mem_fire_iff_exists hr]
    simp only [hreflects.waiting, hreflects.fires_iff ha, Action.fire.injEq, exists_eq_left',
      and_comm]
  · have hnot : ∀ s, actions[n]? ≠ some (.fire s) := fun s ha => hfire ⟨s, ha⟩
    rw [(calm_of_not_fire hnot).1]
    refine iff_of_false List.not_mem_nil ?_
    rintro ⟨s, -, hs⟩
    rcases fires_iff.1 hs with ⟨r, ha, -⟩
    exact hnot r ha

/-- A firing adds one call to the descendants of its signal, and none to others. -/
theorem calls_of_fire (h : Possible actions) (ha : actions[n]? = some (.fire s)) (t : SignalId) :
    (Descends actions n s t → ((before actions (n + 1)).state t).calls
      = ((before actions n).state t).calls + 1) ∧
    (¬Descends actions n s t → ((before actions (n + 1)).state t).calls
      = ((before actions n).state t).calls) := by
  have hn := (List.getElem?_eq_some_iff.1 ha).1
  have hreflects := reflects_before h (Nat.le_of_lt hn)
  have hs := of_decide_eq_true (hreflects.isPossible h ha)
  rw [before_succ ha, hreflects.descends_iff, act]
  refine ⟨fun hleads => ?_, fun hnot => ?_⟩
  · rw [hreflects.made.state_fire_of_leads hs hleads]
  · rw [state_fire_of_not_leads hnot]

/-- Actions on signals that are there. No slot is called twice, and each counts its calls. A slot
is called by the first action that fires its signal after it was connected, if the connection was
not destroyed before: directly, or through parents each of which passes on the first firing after
its child was created. An action that fires a signal raises by one the calls of the signal and of
those that descend from it by connections that were not used before, and of no others. -/
theorem called_once_and_passed_on (h : Possible actions) :
    ((run actions).2.Nodup ∧ ∀ c, (run actions).1.callsOf c = (run actions).2.count c) ∧
    (∀ n c, c ∈ calledBy actions n ↔ ∃ s, Waits actions n s (.slot c) ∧ Fires actions n s) ∧
    (∀ n s, actions[n]? = some (.fire s) → ∀ t,
      (Descends actions n s t → ((before actions (n + 1)).state t).calls
        = ((before actions n).state t).calls + 1) ∧
      (¬Descends actions n s t → ((before actions (n + 1)).state t).calls
        = ((before actions n).state t).calls)) ∧
    ∀ n, (∀ s, actions[n]? ≠ some (.fire s)) → ∀ t,
      ((before actions (n + 1)).state t).calls = ((before actions n).state t).calls := by
  have hcalls := (calledOnce_run h (Nat.le_refl actions.length)).2
  rw [List.take_length] at hcalls
  exact ⟨⟨nodup_run h, hcalls⟩, fun n c => mem_calledBy_iff h, fun n s ha => calls_of_fire h ha,
    fun n hnot => (calm_of_not_fire hnot).2⟩

/-- A child is fired before its parent. Later the parent reaches it again, and the slot that was
connected in between, but not the grandchild: the child has passed on its first call already. One
slot is gone before anything is fired. -/
theorem called_once_and_passed_on_grandchild :
    let actions : List Action := [.create, .createChild 0, .createChild 1, .connect 0, .connect 2,
      .connect 1, .disconnect 2, .fire 1, .connect 2, .connect 1, .fire 0, .fire 0]
    Possible actions ∧ (run actions).2 = [1, 4, 0] ∧ (run actions).2.Nodup ∧
      (∃ s, Waits actions 7 s (.slot 1) ∧ Fires actions 7 s) ∧
      (¬∃ s, Waits actions 7 s (.slot 2) ∧ Fires actions 7 s) ∧
      Descends actions 10 0 1 ∧ ¬Descends actions 10 0 2 ∧ ¬Descends actions 11 0 1 ∧
      ((before actions 9).state 2).calls = ((before actions 8).state 2).calls := by
  intro actions
  have hpossible : Possible actions := by decide
  rcases called_once_and_passed_on hpossible with ⟨⟨hnodup, -⟩, hslots, hfires, hcalm⟩
  have hten := hfires 10 0 rfl
  refine ⟨hpossible, by decide, hnodup, (hslots 7 1).1 (by decide),
    fun h => absurd ((hslots 7 2).2 h) (by decide), ?_, fun h => ?_, fun h => ?_,
    hcalm 8 nofun 2⟩
  · by_contra hnot
    exact absurd ((hten 1).2 hnot) (by decide)
  · exact absurd ((hten 2).1 h) (by decide)
  · exact absurd ((hfires 11 0 rfl 1).1 h) (by decide)

end Signals

end SignedHttp
