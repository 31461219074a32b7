/-
A search for usages only asks.

A computation that is put together from questions (`Asks`) changes a resolver by
what it asks and in no other way, and a search is one (`findUsages_asks`). So what
each question respects, the whole search respects (`Asks.respects`): a relation
between what a resolver was and what it became, if it can be put together from
step to step and every question has it, holds from the start of a search to its
end. A search leaves the modules a resolver knows as they are
(`findUsages_sameModules`), whatever it is asked and however deep references nest.
-/
import Coupling.Proofs.Resolution.Noninterference
import Coupling.Usage

namespace Coupling

open Resolver Resolving

/-! ## Computations that ask -/

/-- A computation that is put together from questions. -/
inductive Resolving.Asks : {α : Type} → Resolving α → Prop
  | pure {α : Type} (a : α) : Asks (Pure.pure a)
  | log (e : Event) : Asks (liftM (Logged.log e))
  | bind {α β : Type} {q : Resolving α} {f : α → Resolving β} : Asks q → (∀ a, Asks (f a)) → Asks (q >>= f)
  | resolve (r : TypeRef) : Asks (Resolver.resolve r)
  | resolveMethod (m : MethodRef) : Asks (Resolver.resolveMethod m)

namespace Usage

/-- What every question respects, and can be put together. -/
structure Asking (R : Resolver → Resolver → Prop) : Prop where
  chains : Chains R
  resolve : ∀ r, Respects R (Resolver.resolve r)
  resolveMethod : ∀ m, Respects R (Resolver.resolveMethod m)

end Usage

/-- **What each question respects, a computation that asks respects.** -/
theorem Resolving.Asks.respects {α : Type} {q : Resolving α} (hq : Asks q) {R : Resolver → Resolver → Prop}
    (h : Usage.Asking R) : Respects R q := by
  induction hq with
  | pure a => exact respects_pure h.chains a
  | log e => exact h.chains.refl
  | bind _ _ ihq ihf => exact Respects.bind h.chains ihq ihf
  | resolve r => exact h.resolve r
  | resolveMethod m => exact h.resolveMethod m

/-! ## Questions of a search -/

namespace Usage

theorem isReportable_asks (o : Options) (t : TypeRef) : Asks (isReportable o t) := by
  unfold isReportable
  split
  · exact .pure _
  · split
    · exact .pure _
    · exact .bind (.resolve t) fun _ => .pure _

theorem reported_asks (o : Options) (rs : List Relation) : Asks (reported o rs) := by
  induction rs with
  | nil => exact .pure _
  | cons r rs ih =>
    unfold reported
    cases r.target with
    | none => exact .bind (.pure false) fun _ => .bind ih fun _ => .pure _
    | some t => exact .bind (isReportable_asks o t) fun _ => .bind ih fun _ => .pure _

theorem ofInstruction_asks (source : TypeRef) (i : Instruction) : Asks (ofInstruction source i) := by
  unfold ofInstruction
  split
  · exact .pure _
  · exact .bind (.resolveMethod _) fun _ => .pure _
  · exact .pure _

theorem ofInstructions_asks (source : TypeRef) (m : MethodDef) (is : List Instruction) :
    Asks (ofInstructions source m is) := by
  induction is with
  | nil => exact .pure _
  | cons i is ih => exact .bind (ofInstruction_asks source i) fun _ => .bind ih fun _ => .pure _

theorem ofMethods_asks (source : TypeRef) (ms : List MethodDef) : Asks (ofMethods source ms) := by
  induction ms with
  | nil => exact .pure _
  | cons m ms ih =>
    refine .bind ?_ fun _ => .bind ih fun _ => .pure _
    exact .bind (ofInstructions_asks source m _) fun _ => .pure _

theorem ofType_asks (g : Registry) (o : Options) (d : TypeDef) : Asks (ofType g o d) :=
  .bind (ofMethods_asks _ _) fun _ => reported_asks o _

theorem expand_asks (g : Registry) (o : Options) (r : TypeRef) : Asks (expand g o r) := by
  cases r with
  | genericParameter | genericInstance => exact .bind (reported_asks o _) fun _ => .pure _
  | array | byReference | pointer | functionPointer => exact .pure _
  | plain ns name scope =>
    refine .bind (.resolve _) fun found => ?_
    cases found with
    | none => exact .pure _
    | some d => exact .bind (ofType_asks g o d) fun _ => .pure _

theorem expandAll_asks (g : Registry) (o : Options) (rs : List TypeRef) (p : Progress) (successors : RefSet) :
    Asks (expandAll g o rs p successors) := by
  induction rs generalizing p successors with
  | nil => exact .pure _
  | cons r rs ih => exact .bind (expand_asks g o r) fun e => ih _ _

theorem run_asks (g : Registry) (o : Options) (levels level : Nat) (frontier : RefSet) (p : Progress) :
    Asks (run g o levels level frontier p) := by
  induction levels generalizing level frontier p with
  | zero => exact .pure _
  | succ levels ih =>
    unfold run
    split
    · exact .pure _
    · refine .bind (expandAll_asks g o _ _ _) fun found => ?_
      exact .bind (.log _) fun _ => ih _ _ _

/-- **A search is put together from questions.** -/
theorem findUsages_asks (g : Registry) (o : Options) (seeds : List TypeRef) : Asks (g.findUsages o seeds) :=
  .bind (run_asks g o _ _ _ _) fun _ => .pure _

end Usage

/-! ## What stays -/

namespace Resolver

theorem keeps_asking : Usage.Asking Keeps := ⟨keeps_chains, resolve_keeps, resolveMethod_keeps⟩

/-- The same modules are known. -/
def SameModules (t u : Resolver) : Prop := u.modules = t.modules

theorem sameModules_chains : Chains SameModules where
  refl _ := rfl
  trans _ _ _ h₁ h₂ := h₂.trans h₁

theorem resolve_sameModules (r : TypeRef) : Respects SameModules (resolve r) := by
  refine resolveAt_respects sameModules_chains r 0 (Nat.le_refl _) fun p _ _ _ => .inr fun a t => ?_
  simp only [keepType]
  split <;> rfl

theorem resolveMethod_sameModules (m : MethodRef) : Respects SameModules (resolveMethod m) := by
  refine resolveMethod_respects sameModules_chains (resolve_sameModules m.declaring) fun a t => ?_
  simp only [keepMethod]
  split <;> rfl

theorem sameModules_asking : Usage.Asking SameModules :=
  ⟨sameModules_chains, resolve_sameModules, resolveMethod_sameModules⟩

/-- Asking for a method changes nothing, or leaves the types and modules that asking for its declaring type
leaves. -/
theorem after_resolveMethod (m : MethodRef) (s : Resolver) :
    (resolveMethod m).after s = s ∨
      ((resolveMethod m).after s).modules = ((resolve m.declaring).after s).modules ∧
        ((resolveMethod m).after s).types = ((resolve m.declaring).after s).types := by
  cases hkept : s.methods.get? m.key with
  | some a =>
    refine .inl ?_
    simp only [resolveMethod, after_bind, result_get, after_get, hkept, after_pure]
  | none =>
    refine .inr ⟨?_, types_after_resolveMethod hkept⟩
    exact (resolveMethod_sameModules m s).trans (resolve_sameModules m.declaring s).symm

theorem findUsages_sameModules (g : Registry) (o : Options) (seeds : List TypeRef) :
    Respects SameModules (g.findUsages o seeds) :=
  (Usage.findUsages_asks g o seeds).respects sameModules_asking

end Resolver

end Coupling
