/-
Types nested in types.

`TypeDef.withNested` lists a definition and all types nested in it. What is nested
in a type that is listed is listed too (`nested_mem_withNested`), and what a type passes
on to the types nested in it holds for all that are listed (`forall_withNested`).
-/
import Coupling.TypeDef

namespace Coupling.TypeDef

theorem withNested_eq (d : TypeDef) : d.withNested = d :: withNestedAll d.nested := by
  cases d
  rw [withNested]

theorem withNestedAll_eq_flatMap (ds : List TypeDef) : withNestedAll ds = ds.flatMap withNested := by
  induction ds with
  | nil => rfl
  | cons d ds ih => simp [withNestedAll, ih]

theorem self_mem_withNested (d : TypeDef) : d ∈ d.withNested := by
  rw [withNested_eq]
  exact List.mem_cons_self

theorem mem_withNestedAll {ds : List TypeDef} {e : TypeDef} : e ∈ withNestedAll ds ↔ ∃ d ∈ ds, e ∈ d.withNested := by
  rw [withNestedAll_eq_flatMap, List.mem_flatMap]

mutual

/-- What is nested in a definition is nested wherever the definition is. -/
theorem nested_mem_withNested {d e : TypeDef} (he : e ∈ d.nested) : ∀ c : TypeDef, d ∈ c.withNested → e ∈ c.withNested
  | c@{ nested := cs, .. }, hd => by
    rw [withNested] at hd ⊢
    cases hd with
    | head => exact List.mem_cons_of_mem _ (mem_withNestedAll.2 ⟨e, he, e.self_mem_withNested⟩)
    | tail _ hd => exact List.mem_cons_of_mem _ (nested_mem_withNestedAll he cs hd)

theorem nested_mem_withNestedAll {d e : TypeDef} (he : e ∈ d.nested) :
    ∀ cs : List TypeDef, d ∈ withNestedAll cs → e ∈ withNestedAll cs
  | [], hd => by simp [withNestedAll] at hd
  | c :: cs, hd => by
    rw [withNestedAll, List.mem_append] at hd ⊢
    cases hd with
    | inl hd => exact .inl (nested_mem_withNested he c hd)
    | inr hd => exact .inr (nested_mem_withNestedAll he cs hd)

end

mutual

theorem forall_withNested {P : TypeDef → Prop} (hpass : ∀ d, P d → ∀ e ∈ d.nested, P e) :
    ∀ c : TypeDef, P c → ∀ d ∈ c.withNested, P d
  | c@{ nested := cs, .. }, hc, d, hd => by
    rw [withNested] at hd
    cases hd with
    | head => exact hc
    | tail _ hd => exact forall_withNestedAll hpass cs (hpass _ hc) d hd

theorem forall_withNestedAll {P : TypeDef → Prop} (hpass : ∀ d, P d → ∀ e ∈ d.nested, P e) :
    ∀ cs : List TypeDef, (∀ c ∈ cs, P c) → ∀ d ∈ withNestedAll cs, P d
  | [], _, _, hd => by simp [withNestedAll] at hd
  | c :: cs, hcs, d, hd => by
    rw [withNestedAll, List.mem_append] at hd
    cases hd with
    | inl hd => exact forall_withNested hpass c (hcs c List.mem_cons_self) d hd
    | inr hd => exact forall_withNestedAll hpass cs (fun c' hc' => hcs c' (List.mem_cons_of_mem _ hc')) d hd

end

end Coupling.TypeDef
