/-
Plain references and what is kept for them.

As long as a resolver is asked about plain references only, and about methods of
types that are named by plain references, what it keeps for a key is the type of
that full name in the module of that scope (`KeepsPlain.askAll`). So a type of the
module that was taken in last is found by every plain reference of its full name,
however the reference divides the name (`resolve_after_register`).
-/
import Coupling.Proofs.Resolution.Transparency
import Coupling.Proofs.Usage.Asking

namespace Coupling.Resolver

open Resolving

variable {s t : Resolver}

/-- What is kept for a key is the type of its full name in the module of its scope. -/
def KeepsPlain (s : Resolver) : Prop := ∀ k a, s.types.get? k = some a → a = s.definition? k.scope k.fullName

theorem keepsPlain_clearCache (s : Resolver) : s.clearCache.KeepsPlain := by
  intro k a h
  simp [clearCache] at h

theorem KeepsPlain.congr (h : s.KeepsPlain) (hmodules : t.modules = s.modules) (htypes : t.types = s.types) :
    t.KeepsPlain := by
  intro k a hk
  rw [htypes] at hk
  rw [h k a hk]
  simp only [definition?, hmodules]

/-- A plain reference is answered by what it means, and what is kept then is so too. -/
theorem KeepsPlain.resolve (h : s.KeepsPlain) {r : TypeRef} (hr : r.isPlain = true) :
    (resolve r).result s = s.definition? r.scope r.fullName ∧ ((resolve r).after s).KeepsPlain := by
  cases r with
  | plain ns name scope =>
    cases hkept : s.types.get? (TypeRef.plain ns name scope).key with
    | some a =>
      simp only [Resolver.resolve, resolveAt]
      rw [(rememberType_of_kept hkept).1, (rememberType_of_kept hkept).2]
      exact ⟨h _ a hkept, h⟩
    | none =>
      obtain ⟨hresult, hafter⟩ := resolve_plain_of_not_kept hkept
      rw [hresult, hafter]
      refine ⟨rfl, fun k a hk => ?_⟩
      by_cases hkey : k = (TypeRef.plain ns name scope).key
      · subst hkey
        rw [SortedMap.get?_insert_self] at hk
        exact (Option.some.inj hk).symm
      · rw [s.types.get?_insert_other _ hkey] at hk
        exact h k a hk
  | genericParameter | genericInstance | array | byReference | pointer | functionPointer => cases hr

theorem KeepsPlain.resolveMethod (h : s.KeepsPlain) {m : MethodRef} (hm : m.declaring.isPlain = true) :
    ((resolveMethod m).after s).KeepsPlain := by
  rcases after_resolveMethod m s with hsame | ⟨hmodules, htypes⟩
  · rw [hsame]
    exact h
  · exact (h.resolve hm).2.congr hmodules htypes

/-- Questions about plain references leave the modules, and what is kept is still what it means. -/
theorem KeepsPlain.askAll (h : s.KeepsPlain) {qs : List Question} (hqs : ∀ q ∈ qs, q.reference.isPlain = true) :
    (s.askAll qs).KeepsPlain ∧ SameModules s (s.askAll qs) := by
  induction qs generalizing s with
  | nil => exact ⟨h, rfl⟩
  | cons q qs ih =>
    have hask : (s.ask q).KeepsPlain ∧ SameModules s (s.ask q) := by
      cases q with
      | type r => exact ⟨(h.resolve (hqs (.type r) (by simp))).2, resolve_sameModules r s⟩
      | method m => exact ⟨h.resolveMethod (hqs (.method m) (by simp)), resolveMethod_sameModules m s⟩
    obtain ⟨hkeeps, hmodules⟩ := ih hask.1 fun p hp => hqs p (by simp [hp])
    exact ⟨hkeeps, sameModules_chains.trans _ _ _ hask.2 hmodules⟩

/-- A type of a module that was taken in last is what plain references of its full name mean, whatever was asked
about plain references since. -/
theorem resolve_after_register {m : Module} {d : TypeDef} {r : TypeRef} (hr : r.isPlain = true)
    (hscope : r.scope = m.name) (hd : m.findType r.fullName = some d) {qs : List Question}
    (hqs : ∀ q ∈ qs, q.reference.isPlain = true) : (resolve r).result ((s.register m).askAll qs) = some d := by
  obtain ⟨hkeeps, hmodules⟩ := KeepsPlain.askAll (s := s.register m) (keepsPlain_clearCache _) hqs
  have hmodule : ((s.register m).askAll qs).modules.get? m.name = some m := by
    rw [hmodules]
    exact s.modules.get?_insert_self m.name m
  rw [(hkeeps.resolve hr).1, definition?, hscope, hmodule]
  exact hd

end Coupling.Resolver
