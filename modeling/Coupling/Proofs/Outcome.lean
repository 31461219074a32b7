/-
Steps that may fail.

A step gives a result (`Succeeds`) or an error, and steps that follow one another
stop at the first error. Where a part of the program is made of such steps, it is
enough to know of each when it succeeds and which errors it may give
(`FailsOnly`).
-/
import Mathlib.Data.List.Forall2

namespace Coupling

/-! ## Success -/

/-- A result is given. -/
def Succeeds {ε α : Type} (x : Except ε α) : Prop := ∃ a, x = .ok a

section Succeeds

variable {ε α β : Type}

@[simp] theorem succeeds_ok (a : α) : Succeeds (.ok a : Except ε α) := ⟨a, rfl⟩

@[simp] theorem succeeds_pure (a : α) : Succeeds (pure a : Except ε α) := ⟨a, rfl⟩

@[simp] theorem not_succeeds_error (e : ε) : ¬ Succeeds (.error e : Except ε α) := by
  simp [Succeeds]

theorem not_succeeds_throw (e : ε) (f : β → Except ε α) : ¬ Succeeds (throw e >>= f) := by
  simp [Succeeds, bind, Except.bind, throw, throwThe, MonadExceptOf.throw]

theorem succeeds_or_fails (x : Except ε α) : Succeeds x ∨ ∃ e, x = .error e := by
  cases x with
  | ok a => exact .inl ⟨a, rfl⟩
  | error e => exact .inr ⟨e, rfl⟩

theorem exists_ok_of_map {x : Except ε α} {f : α → β} {b : β} (h : x.toOption.map f = some b) :
    ∃ a, x = .ok a ∧ f a = b := by
  cases x with
  | ok a => exact ⟨a, rfl, Option.some.inj h⟩
  | error e => cases h

theorem bind_eq_ok {x : Except ε α} {f : α → Except ε β} {b : β} :
    (x >>= f) = .ok b ↔ ∃ a, x = .ok a ∧ f a = .ok b := by
  cases x <;> simp [bind, Except.bind]

theorem bind_eq_error {x : Except ε α} {f : α → Except ε β} {e : ε} :
    (x >>= f) = .error e ↔ x = .error e ∨ ∃ a, x = .ok a ∧ f a = .error e := by
  cases x <;> simp [bind, Except.bind]

theorem succeeds_bind {x : Except ε α} {f : α → Except ε β} :
    Succeeds (x >>= f) ↔ ∃ a, x = .ok a ∧ Succeeds (f a) := by
  cases x <;> simp [Succeeds, bind, Except.bind]

/-- Two steps of which the second succeeds or not, whatever the first gives. -/
theorem succeeds_bind_of_ok {x : Except ε α} {f : α → Except ε β} {P : Prop}
    (hf : ∀ a, x = .ok a → (Succeeds (f a) ↔ P)) : Succeeds (x >>= f) ↔ Succeeds x ∧ P := by
  rw [succeeds_bind]
  constructor
  · intro h
    obtain ⟨a, ha, hs⟩ := h
    exact ⟨⟨a, ha⟩, (hf a ha).1 hs⟩
  · intro h
    obtain ⟨⟨a, ha⟩, hP⟩ := h
    exact ⟨a, ha, (hf a ha).2 hP⟩

theorem succeeds_bind_of {x : Except ε α} {f : α → Except ε β} {P : Prop} (hf : ∀ a, Succeeds (f a) ↔ P) :
    Succeeds (x >>= f) ↔ Succeeds x ∧ P := succeeds_bind_of_ok fun a _ => hf a

theorem succeeds_bind_pure {x : Except ε α} {f : α → β} : Succeeds (x >>= fun a => pure (f a)) ↔ Succeeds x := by
  rw [succeeds_bind_of fun a => iff_true_intro (succeeds_pure (f a)), and_true]

@[simp] theorem succeeds_map {x : Except ε α} {f : α → β} : Succeeds (f <$> x) ↔ Succeeds x := by
  rw [map_eq_pure_bind]
  exact succeeds_bind_pure

theorem succeeds_mapM {f : α → Except ε β} {xs : List α} : Succeeds (xs.mapM f) ↔ ∀ x ∈ xs, Succeeds (f x) := by
  induction xs with
  | nil => simp
  | cons x xs ih => rw [List.mapM_cons, succeeds_bind_of fun _ => succeeds_bind_pure, ih, List.forall_mem_cons]

/-- A list of calls gives all their results, or the error of one of them. -/
theorem mapM_ok_or_error (f : α → Except ε β) (xs : List α) :
    (∃ ys, xs.mapM f = .ok ys ∧ List.Forall₂ (fun x y => f x = .ok y) xs ys) ∨
      ∃ x ∈ xs, ∃ err, f x = .error err ∧ xs.mapM f = .error err := by
  induction xs with
  | nil => exact .inl ⟨[], rfl, .nil⟩
  | cons x xs ih =>
    cases hx : f x with
    | error err => exact .inr ⟨x, List.mem_cons_self, err, hx, by simp [List.mapM_cons, hx, bind, Except.bind]⟩
    | ok y =>
      rcases ih with ⟨ys, hys, hall⟩ | ⟨z, hz, err, hfz, herror⟩
      · exact .inl ⟨y :: ys, by simp [List.mapM_cons, hx, hys, bind, Except.bind, pure, Except.pure], .cons hx hall⟩
      · exact .inr ⟨z, List.mem_cons_of_mem _ hz, err, hfz, by simp [List.mapM_cons, hx, herror, bind, Except.bind]⟩

theorem forall₂_of_mapM {f : α → Except ε β} {xs : List α} {ys : List β} (h : xs.mapM f = .ok ys) :
    List.Forall₂ (fun x y => f x = .ok y) xs ys := by
  rcases mapM_ok_or_error f xs with ⟨zs, hzs, hall⟩ | ⟨x, -, e, -, he⟩
  · rw [h] at hzs
    cases hzs
    exact hall
  · rw [h] at he
    cases he

theorem mem_iff_of_mapM {f : α → Except ε β} {xs : List α} {ys : List β} (h : xs.mapM f = .ok ys) {y : β} :
    y ∈ ys ↔ ∃ x ∈ xs, f x = .ok y := by
  have hall := forall₂_of_mapM h
  clear h
  induction hall with
  | nil => simp
  | cons hxy _ ih => simp [ih, hxy, eq_comm]

end Succeeds

/-! ## Errors -/

/-- Every error that may be given satisfies `P`. -/
def FailsOnly {ε α : Type} (P : ε → Prop) (x : Except ε α) : Prop := ∀ e, x = .error e → P e

namespace FailsOnly

variable {ε α β : Type} {P : ε → Prop}

theorem ok (a : α) : FailsOnly P (.ok a) := by
  intro e he
  cases he

theorem pure (a : α) : FailsOnly P (Pure.pure a : Except ε α) := ok a

theorem error {e : ε} (he : P e) : FailsOnly P (.error e : Except ε α) := by
  intro e' he'
  cases he'
  exact he

theorem bind {x : Except ε α} {f : α → Except ε β} (hx : FailsOnly P x) (hf : ∀ a, FailsOnly P (f a)) :
    FailsOnly P (x >>= f) := by
  cases x with
  | ok a => exact hf a
  | error e => exact error (hx e rfl)

theorem throw_bind {e : ε} (he : P e) (f : β → Except ε α) : FailsOnly P (throw e >>= f) := error he

theorem mapM {f : α → Except ε β} {xs : List α} (hf : ∀ x ∈ xs, FailsOnly P (f x)) : FailsOnly P (xs.mapM f) := by
  rcases mapM_ok_or_error f xs with ⟨ys, hys, -⟩ | ⟨x, hx, e, hfx, he⟩
  · rw [hys]
    exact ok ys
  · rw [he]
    exact error (hf x hx e hfx)

end FailsOnly

end Coupling
