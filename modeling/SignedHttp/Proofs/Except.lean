/-!
# Steps That May Fail

An operation made of steps succeeds exactly if every step does, and then the last
one gives the result. The lemmas say so for the ways in which steps are put
together, so that a proof about such an operation names what each step gave and
opens none of them twice.

## Theorems

* `bind_eq_ok`: One step after another.
* `bind_eq_error`: The step that fails is the first one or a later one.
* `map_eq_ok`: A step, and a function of what it gave.
* `map_eq_error`: A function of what a step gave does not change why it failed.
* `mapError_eq_ok`: A function of why a step failed does not change what it gave.
* `mapM_eq_ok`, `mapM_eq_error`: A step that is made if there is something to make it with.
* `exists_of_mem_mapM`, `exists_of_listMapM_eq_error`: A step that is made with each of a list.
-/

namespace SignedHttp

variable {ε α β : Type}

/-- Two steps succeed if the first one does and the second one, with what the first one gave. -/
theorem bind_eq_ok {x : Except ε α} {f : α → Except ε β} {b : β} :
    (x >>= f) = .ok b ↔ ∃ a, x = .ok a ∧ f a = .ok b := by
  cases x with
  | error e =>
      constructor
      · intro h
        cases h
      · rintro ⟨a, ⟨⟩, -⟩
  | ok a =>
      constructor
      · exact fun h => ⟨a, rfl, h⟩
      · intro h
        rcases h with ⟨c, hc, hb⟩
        rw [Except.ok.inj hc]
        exact hb

/-- Two steps fail as the first one does, or as the second one does after the first succeeded. -/
theorem bind_eq_error {x : Except ε α} {f : α → Except ε β} {e : ε} :
    (x >>= f) = .error e ↔ x = .error e ∨ ∃ a, x = .ok a ∧ f a = .error e := by
  cases x with
  | error e' =>
      constructor
      · exact fun h => Or.inl (congrArg Except.error (Except.error.inj h))
      · intro h
        rcases h with h | ⟨a, ⟨⟩, -⟩
        rw [Except.error.inj h]
        rfl
  | ok a =>
      constructor
      · exact fun h => Or.inr ⟨a, rfl, h⟩
      · intro h
        rcases h with ⟨⟨⟩⟩ | ⟨c, hc, he⟩
        rw [Except.ok.inj hc]
        exact he

/-- A function is applied to what a step gave, so its result is there if the step succeeded. -/
theorem map_eq_ok {x : Except ε α} {f : α → β} {b : β} :
    x.map f = .ok b ↔ ∃ a, x = .ok a ∧ f a = b := by
  cases x with
  | error e =>
      constructor
      · intro h
        cases h
      · rintro ⟨a, ⟨⟩, -⟩
  | ok a =>
      constructor
      · exact fun h => ⟨a, rfl, Except.ok.inj h⟩
      · intro h
        rcases h with ⟨c, hc, hb⟩
        rw [← hb, Except.ok.inj hc]
        rfl

/-- A step fails for the same reason with a function applied to its result. -/
theorem map_eq_error {x : Except ε α} {f : α → β} {e : ε} :
    x.map f = .error e ↔ x = .error e := by
  cases x with
  | error e' => exact ⟨fun h => congrArg Except.error (Except.error.inj h), fun h => by rw [h]; rfl⟩
  | ok a =>
      constructor
      · intro h
        cases h
      · intro h
        cases h

/-- A step succeeds with the same result with a function applied to its error. -/
theorem mapError_eq_ok {ε' : Type} {x : Except ε α} {f : ε → ε'} {a : α} :
    x.mapError f = .ok a ↔ x = .ok a := by
  cases x with
  | error e =>
      constructor
      · intro h
        cases h
      · intro h
        cases h
  | ok c => exact ⟨fun h => congrArg Except.ok (Except.ok.inj h), fun h => by rw [h]; rfl⟩

/-- A step with an optional argument succeeds without one, and otherwise if the step does. -/
theorem mapM_eq_ok {o : Option α} {f : α → Except ε β} {b : Option β} :
    o.mapM f = .ok b ↔
      (o = none ∧ b = none) ∨ ∃ a c, o = some a ∧ f a = .ok c ∧ b = some c := by
  cases o with
  | none =>
      constructor
      · exact fun h => Or.inl ⟨rfl, (Except.ok.inj h).symm⟩
      · intro h
        rcases h with ⟨-, rfl⟩ | ⟨a, c, ⟨⟩, -⟩
        rfl
  | some a =>
      constructor
      · intro h
        -- With an argument the step is made once, and its result is an option that is there.
        rcases map_eq_ok.1 (show (f a).map some = .ok b from h) with ⟨c, hc, hb⟩
        exact Or.inr ⟨a, c, rfl, hc, hb.symm⟩
      · intro h
        rcases h with ⟨⟨⟩, -⟩ | ⟨d, c, hd, hc, rfl⟩
        rw [Option.some.inj hd]
        exact map_eq_ok.2 ⟨c, hc, rfl⟩

theorem mapM_eq_error {o : Option α} {f : α → Except ε β} {e : ε} :
    o.mapM f = .error e ↔ ∃ a, o = some a ∧ f a = .error e := by
  cases o with
  | none =>
      constructor
      · intro h
        cases h
      · rintro ⟨a, ⟨⟩, -⟩
  | some a =>
      have hmap : (some a).mapM f = (f a).map some := rfl
      rw [hmap]
      constructor
      · intro h
        -- Only a step that fails can make the whole fail, and it fails for the same reason.
        cases hf : f a with
        | error e' =>
            rw [hf] at h
            exact ⟨a, rfl, hf.trans (congrArg Except.error (Except.error.inj h))⟩
        | ok b =>
            rw [hf] at h
            cases h
      · rintro ⟨c, hc, he⟩
        rw [Option.some.inj hc, he]
        rfl

/-- Each result of a step that is made with all of a list comes from an element of it. -/
theorem exists_of_mem_mapM {l : List α} {f : α → Except ε β} {bs : List β}
    (h : l.mapM f = .ok bs) : ∀ b ∈ bs, ∃ a ∈ l, f a = .ok b := by
  induction l generalizing bs with
  | nil =>
      rw [← Except.ok.inj h]
      exact fun b hb => absurd hb List.not_mem_nil
  | cons a l ih =>
      rw [List.mapM_cons] at h
      -- The head gives the first result and the tail gives the others, in two steps one after the
      -- other.
      rcases bind_eq_ok.1 h with ⟨b, hb, h⟩
      rcases bind_eq_ok.1 h with ⟨rest, hrest, h⟩
      rw [← Except.ok.inj h]
      intro c hc
      rcases List.mem_cons.1 hc with rfl | hc
      · exact ⟨a, List.mem_cons_self .., hb⟩
      · rcases ih hrest c hc with ⟨d, hd, hf⟩
        exact ⟨d, List.mem_cons_of_mem a hd, hf⟩

/-- A step that is made with all of a list fails because it fails with one of the elements. -/
theorem exists_of_listMapM_eq_error {l : List α} {f : α → Except ε β} {e : ε}
    (h : l.mapM f = .error e) : ∃ a ∈ l, f a = .error e := by
  induction l with
  | nil => cases h
  | cons a l ih =>
      rw [List.mapM_cons] at h
      -- The head fails, or the tail does; putting the results together cannot fail.
      rcases bind_eq_error.1 h with h | ⟨b, -, h⟩
      · exact ⟨a, List.mem_cons_self .., h⟩
      · rcases bind_eq_error.1 h with h | ⟨bs, -, ⟨⟩⟩
        rcases ih h with ⟨c, hc, hf⟩
        exact ⟨c, List.mem_cons_of_mem a hc, hf⟩

theorem exists_ok_of_isOk {x : Except ε α} (h : x.isOk = true) : ∃ a, x = .ok a := by
  cases x with
  | error e => exact Bool.noConfusion h
  | ok a => exact ⟨a, rfl⟩

end SignedHttp
