/-
An answer is given once and for all.

A look-up may keep answers for many references before it keeps its own, and one of
them may have the key it was asked for. Whichever answer is kept first stays, and
it is the one that is given (`kept_ask`). So along any questions about types and
methods, however deep references nest and whatever shares a key, a question that
is asked again is answered as before (`transcript_permanent`).
-/
import Coupling.Proofs.Resolution.Noninterference
import Coupling.Proofs.Resolution.Transparency

namespace Coupling

/-- What a question is known by. -/
def Question.key : Question → TypeKey ⊕ MethodKey
  | .type r => .inl r.key
  | .method m => .inr m.key

/-- What a question about a type or about a method is answered by. -/
abbrev Reply := Option TypeDef ⊕ Option MethodDef

namespace Resolver

open Resolving

variable {s t : Resolver}

/-! ## Types -/

theorem rememberType_kept (k : TypeKey) (find : Resolving (Option TypeDef)) (s : Resolver) :
    ((rememberType k find).after s).types.get? k = some ((rememberType k find).result s) := by
  cases hkept : s.types.get? k with
  | some a =>
    rw [(rememberType_of_kept hkept).1, (rememberType_of_kept hkept).2]
    exact hkept
  | none =>
    rw [(rememberType_of_not_kept hkept).1, (rememberType_of_not_kept hkept).2]
    -- looking may have kept an answer for the key itself, which is then the one that is given
    cases hfound : (find.after s).types.get? k with
    | some a => simp only [keepType, hfound]
    | none => simp only [keepType, hfound, SortedMap.get?_insert_self]

/-- An answer is kept. -/
theorem kept_after_resolve (r : TypeRef) (s : Resolver) :
    ((resolve r).after s).types.get? r.key = some ((resolve r).result s) := by
  cases r <;> exact rememberType_kept _ _ s

/-- What is kept is the answer, and giving it changes nothing. -/
theorem resolve_of_kept {r : TypeRef} {a : Option TypeDef} (h : s.types.get? r.key = some a) :
    (resolve r).result s = a ∧ (resolve r).after s = s := by
  cases r <;> exact rememberType_of_kept h

/-! ## Methods -/

theorem keepMethod_kept (k : MethodKey) (a : Option MethodDef) (s : Resolver) :
    (keepMethod k a s).2.methods.get? k = some (keepMethod k a s).1 := by
  cases hkept : s.methods.get? k with
  | some b => simp only [keepMethod, hkept]
  | none => simp only [keepMethod, hkept, SortedMap.get?_insert_self]

theorem resolveMethod_of_kept {m : MethodRef} {a : Option MethodDef} (h : s.methods.get? m.key = some a) :
    (resolveMethod m).result s = a ∧ (resolveMethod m).after s = s := by
  simp only [resolveMethod, result_bind, after_bind, result_get, after_get, h, result_pure, after_pure, and_self]

theorem resolveMethod_of_not_kept {m : MethodRef} (h : s.methods.get? m.key = none) :
    let answer := ((resolve m.declaring).result s).bind (methodOf? · m)
    (resolveMethod m).result s = (keepMethod m.key answer ((resolve m.declaring).after s)).1 ∧
      (resolveMethod m).after s = (keepMethod m.key answer ((resolve m.declaring).after s)).2 := by
  simp only [resolveMethod, result_bind, after_bind, result_get, after_get, h]
  cases ((resolve m.declaring).result s).bind (methodOf? · m) <;> exact ⟨rfl, rfl⟩

theorem kept_after_resolveMethod (m : MethodRef) (s : Resolver) :
    ((resolveMethod m).after s).methods.get? m.key = some ((resolveMethod m).result s) := by
  cases hkept : s.methods.get? m.key with
  | some a =>
    rw [(resolveMethod_of_kept hkept).1, (resolveMethod_of_kept hkept).2]
    exact hkept
  | none =>
    rw [(resolveMethod_of_not_kept hkept).1, (resolveMethod_of_not_kept hkept).2]
    exact keepMethod_kept _ _ _

/-! ## Questions -/

/-- The answer to a question. -/
def reply (s : Resolver) : Question → Reply
  | .type r => .inl ((resolve r).result s)
  | .method m => .inr ((resolveMethod m).result s)

/-- The answer that is kept for a question of a key. -/
def kept (s : Resolver) : TypeKey ⊕ MethodKey → Option Reply
  | .inl k => (s.types.get? k).map .inl
  | .inr k => (s.methods.get? k).map .inr

theorem Keeps.kept (h : Keeps s t) {k : TypeKey ⊕ MethodKey} {a : Reply} (ha : s.kept k = some a) :
    t.kept k = some a := by
  cases k with
  | inl k =>
    obtain ⟨d, hd, rfl⟩ := Option.map_eq_some_iff.1 ha
    exact congrArg (Option.map Sum.inl) (h.types k d hd)
  | inr k =>
    obtain ⟨d, hd, rfl⟩ := Option.map_eq_some_iff.1 ha
    exact congrArg (Option.map Sum.inr) (h.methods k d hd)

/-- **The answer that is given is the one that is kept.** -/
theorem kept_ask (s : Resolver) (q : Question) : (s.ask q).kept q.key = some (s.reply q) := by
  cases q with
  | type r => exact congrArg (Option.map Sum.inl) (kept_after_resolve r s)
  | method m => exact congrArg (Option.map Sum.inr) (kept_after_resolveMethod m s)

/-- A question leaves what is kept. -/
theorem ask_keeps (s : Resolver) (q : Question) : Keeps s (s.ask q) := by
  cases q with
  | type r => exact resolve_keeps r s
  | method m => exact resolveMethod_keeps m s

/-- Questions leave what is kept. -/
theorem askAll_keeps (s : Resolver) (qs : List Question) : Keeps s (s.askAll qs) := by
  induction qs generalizing s with
  | nil => exact keeps_chains.refl s
  | cons q qs ih => exact keeps_chains.trans _ _ _ (ask_keeps s q) (ih (s.ask q))

/-- Questions that are asked one after the other, each with its answer. -/
def transcript (s : Resolver) : List Question → List (Question × Reply)
  | [] => []
  | q :: qs => (q, s.reply q) :: (s.ask q).transcript qs

theorem questions_transcript (s : Resolver) (qs : List Question) : (s.transcript qs).map Prod.fst = qs := by
  induction qs generalizing s with
  | nil => rfl
  | cons q qs ih => exact congrArg (q :: ·) (ih (s.ask q))

/-- Every answer that was given on the way is kept at the end. -/
theorem kept_of_mem_transcript {qs : List Question} {x : Question × Reply} (hx : x ∈ s.transcript qs) :
    (s.askAll qs).kept x.1.key = some x.2 := by
  induction qs generalizing s with
  | nil => cases hx
  | cons q qs ih =>
    cases hx with
    | head => exact (askAll_keeps (s.ask q) qs).kept (kept_ask s q)
    | tail _ hx => exact ih hx

/-- **An answer is given once and for all.** Whatever a resolver knows and keeps, along any questions about types
and methods each is answered, and one that comes later and has the same key, be it the key of a type or the
declaring type's key, the name and the parameter types of a method, is answered by the same. The answer is kept
for that key at the end. -/
theorem transcript_permanent (s : Resolver) (qs : List Question) :
    (s.transcript qs).map Prod.fst = qs ∧
      (s.transcript qs).Pairwise (fun earlier later => later.1.key = earlier.1.key → later.2 = earlier.2) ∧
      ∀ x ∈ s.transcript qs, (s.askAll qs).kept x.1.key = some x.2 := by
  have hkept : ∀ x ∈ s.transcript qs, (s.askAll qs).kept x.1.key = some x.2 := fun x hx => kept_of_mem_transcript hx
  refine ⟨questions_transcript s qs, List.pairwise_of_forall_mem_list fun x hx y hy hkey => ?_, hkept⟩
  have hsame := hkept y hy
  rw [hkey, hkept x hx] at hsame
  exact (Option.some.inj hsame).symm

end Resolver

end Coupling
