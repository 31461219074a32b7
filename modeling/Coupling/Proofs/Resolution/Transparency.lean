/-
A resolver's memory does not show.

Whatever a resolver was asked since it remembers nothing, about types or about
methods, it answers what references mean (`resolve_after_questions`), as long as
all questions stay within one family of references.
-/
import Coupling.Proofs.Resolution.Memory

namespace Coupling

/-- A question to a resolver. -/
inductive Question where
  | type (r : TypeRef)
  | method (m : MethodRef)

/-- The reference a question looks up. -/
def Question.reference : Question → TypeRef
  | .type r => r
  | .method m => m.declaring

namespace Resolver

open Resolving

/-- The resolver after a question. -/
def ask (s : Resolver) : Question → Resolver
  | .type r => (resolve r).after s
  | .method m => (resolveMethod m).after s

/-- The resolver after questions. -/
def askAll (s : Resolver) (qs : List Question) : Resolver := qs.foldl ask s

variable {F : TypeRef → Prop} {s t : Resolver}

theorem Agrees.ask (hF : Family F) (h : Agrees F s t) {q : Question} (hq : F q.reference) :
    Agrees F s (t.ask q) := by
  cases q with
  | type r => exact (resolve_yields hF hq t h).2
  | method m => exact (resolveMethod_yields hF hq t h).2

theorem Agrees.askAll (hF : Family F) {qs : List Question} (hqs : ∀ q ∈ qs, F q.reference) (h : Agrees F s t) :
    Agrees F s (t.askAll qs) := by
  induction qs generalizing t with
  | nil => exact h
  | cons q qs ih => exact ih (fun p hp => hqs p (by simp [hp])) (h.ask hF (hqs q (by simp)))

/-- **Memory does not show.** After any questions within a family, asked of a resolver that remembered
nothing, it answers for each reference of the family the definition that the reference means. -/
theorem resolve_after_questions (hF : Family F) (s : Resolver) {qs : List Question}
    (hqs : ∀ q ∈ qs, F q.reference) {r : TypeRef} (hr : F r) :
    (resolve r).result (s.clearCache.askAll qs) = s.meaning r := by
  have hagrees := (Agrees.refl F s.clearCache).askAll hF hqs
  rw [← answer_clearCache]
  exact (resolve_yields hF hr _ hagrees).1

/-- A generic list, an item, and a list of items. -/
def shelf : List TypeRef :=
  [.genericInstance (.plain "App" "List" "App") [.plain "App" "Item" "App"],
    .plain "App" "List" "App", .plain "App" "Item" "App"]

theorem family_shelf : Family (· ∈ shelf) := by
  refine .of_nodup_keys ?_ (by decide +kernel) (by decide)
  simp [shelf, TypeRef.followed, TypeRef.followedOfList, TypeRef.isGenericParameter]

theorem resolve_after_questions_shelf :
    let known := empty.register
      { name := "App", types := [.newClass "App" "List" "App", .newClass "App" "Item" "App"] }
    let items := TypeRef.genericInstance (.plain "App" "List" "App") [.plain "App" "Item" "App"]
    (known.meaning items).isSome ∧
      (resolve items).result (known.clearCache.askAll
        [.type (.plain "App" "Item" "App"), .method { declaring := items, name := "Add" }, .type items]) =
      known.meaning items := by
  refine ⟨by decide +kernel, resolve_after_questions family_shelf _ ?_ ?_⟩
  · simp [Question.reference, shelf]
  · simp [shelf]

end Resolver

end Coupling
