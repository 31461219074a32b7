/-
More references and wider filters give more usages.

What is reached from two lists of references together is what is reached from one
of them (`reach_union`). Where a filter accepts more, looking into a reference
reports no less and leads no less far (`Narrower.relationsOf`,
`Narrower.successorsOf`), so no less is reached (`Narrower.reach`). The keys of the
usages are the keys of what is reached (`mem_usageKeys`), so both hold of the usages
(`usages_union_mono`).
-/
import Coupling.Proofs.Usage.MemberOrder

namespace Coupling

/-- Options that accept no more types and methods than others. -/
structure Options.Narrower (o o' : Options) : Prop where
  types : ∀ t, o.types.accepts t = true → o'.types.accepts t = true
  methods : ∀ m, o.methods.accepts m = true → o'.methods.accepts m = true

open Usage

namespace Options.Narrower

variable {g : Registry} {s : Resolver} {o o' : Options}

theorem reports (h : o.Narrower o') {t : TypeRef} (ht : Usage.reports s o t = true) :
    Usage.reports s o' t = true := by
  simp only [Usage.reports, Bool.and_eq_true] at ht ⊢
  exact ⟨h.types t ht.1, ht.2⟩

theorem reportedBy (h : o.Narrower o') {rs rs' : List Relation} (hrs : rs ⊆ rs') :
    Usage.reportedBy s o rs ⊆ Usage.reportedBy s o' rs' := by
  intro x hx
  obtain ⟨hmem, hreports⟩ := List.mem_filter.1 hx
  obtain ⟨t, ht, hreports⟩ := (Option.any_eq_true _ _).1 hreports
  exact List.mem_filter.2 ⟨hrs hmem, (Option.any_eq_true _ _).2 ⟨t, ht, h.reports hreports⟩⟩

theorem methodsSeen (h : o.Narrower o') (d : TypeDef) : Usage.methodsSeen o d ⊆ Usage.methodsSeen o' d := by
  intro m hm
  simp only [Usage.methodsSeen, List.mem_filter, Bool.and_eq_true] at hm ⊢
  exact ⟨hm.1, hm.2.1, h.methods m hm.2.2⟩

theorem relationsOfType (h : o.Narrower o') (d : TypeDef) :
    Usage.relationsOfType g o d ⊆ Usage.relationsOfType g o' d := by
  refine h.reportedBy (List.append_subset.2 ⟨List.subset_append_left _ _, fun x hx => ?_⟩)
  obtain ⟨m, hm, hx⟩ := List.mem_flatMap.1 hx
  exact List.mem_append_right _ (List.mem_flatMap.2 ⟨m, h.methodsSeen d hm, hx⟩)

theorem relationsOf (h : o.Narrower o') (r : TypeRef) : Usage.relationsOf g o r ⊆ Usage.relationsOf g o' r := by
  cases r with
  | genericParameter | genericInstance => exact h.reportedBy fun _ hx => hx
  | array | byReference | pointer | functionPointer => exact fun _ hx => hx
  | plain ns name scope =>
    simp only [Usage.relationsOf]
    cases g.resolver.meaning (.plain ns name scope) with
    | none => exact fun _ hx => hx
    | some d => exact h.relationsOfType d

theorem successorsOf (h : o.Narrower o') (r : TypeRef) :
    Usage.successorsOf g o r ⊆ Usage.successorsOf g o' r := by
  cases r with
  | plain | genericParameter | genericInstance => exact List.filterMap_subset _ (h.relationsOf _)
  | array | byReference | pointer | functionPointer => exact fun _ ht => ht

theorem reach (h : o.Narrower o') {seeds : List TypeRef} {r : TypeRef} (hr : Reach g o seeds r) :
    Reach g o' seeds r :=
  hr.mono (fun _ hr => hr) fun r t ht haccepts => ⟨h.successorsOf r ht, h.types t haccepts⟩

end Options.Narrower

/-- What is reached from two lists of references is reached from one of them. -/
theorem Usage.reach_union {g : Registry} {o : Options} {seeds seeds₁ seeds₂ : List TypeRef}
    (hunion : ∀ r, r ∈ seeds ↔ r ∈ seeds₁ ∨ r ∈ seeds₂) {r : TypeRef} :
    Reach g o seeds r ↔ Reach g o seeds₁ r ∨ Reach g o seeds₂ r := by
  constructor
  · intro hr
    induction hr with
    | seed hr => exact ((hunion _).1 hr).imp .seed .seed
    | step _ ht haccepts ih => exact ih.imp (.step · ht haccepts) (.step · ht haccepts)
  · have hsame : ∀ r t, t ∈ successorsOf g o r → o.types.accepts t = true →
        t ∈ successorsOf g o r ∧ o.types.accepts t = true := fun _ _ ht haccepts => ⟨ht, haccepts⟩
    rintro (hr | hr)
    · exact hr.mono (fun x hx => (hunion x).2 (.inl hx)) hsame
    · exact hr.mono (fun x hx => (hunion x).2 (.inr hx)) hsame

namespace Registry

variable {F : TypeRef → Prop} {g : Registry}

/-- The keys of usages are the keys of what is reached. -/
theorem mem_usageKeys (hF : Family F) (h : Sound F g) (hrefs : ∀ r ∈ g.references, F r) {o : Options}
    {seeds : List TypeRef} (hseeds : ∀ r ∈ seeds, ∀ p ∈ r.parts, F p) {k : RelationKey} :
    k ∈ g.usageKeys o seeds ↔ ∃ r, Reach g o seeds r ∧ ∃ x ∈ relationsOf g o r, x.key = k := by
  have hclosure := closure_usages hF h hrefs o hseeds
  rw [usageKeys, hclosure.mem_keys]
  simp [trace]

/-- **Usages of more references are joined, and wider filters lose none.** In a registry whose references, and the
references it was asked for, belong to one family, the usages of two lists of references of the family together have
the keys that the usages of either have. Options that accept no more types and methods than others give no key that
the others do not give. -/
theorem usages_union_mono (hF : Family F) (hg : Reached F g) (hrefs : ∀ r ∈ g.references, F r) :
    (∀ o seeds seeds₁ seeds₂, (∀ r ∈ seeds, ∀ p ∈ r.parts, F p) → (∀ r, r ∈ seeds ↔ r ∈ seeds₁ ∨ r ∈ seeds₂) →
        ∀ k, k ∈ g.usageKeys o seeds ↔ k ∈ g.usageKeys o seeds₁ ∨ k ∈ g.usageKeys o seeds₂) ∧
      ∀ o o' seeds, (∀ r ∈ seeds, ∀ p ∈ r.parts, F p) → o.Narrower o' →
        ∀ k ∈ g.usageKeys o seeds, k ∈ g.usageKeys o' seeds := by
  have hsound := hg.sound hF hrefs
  constructor
  · intro o seeds seeds₁ seeds₂ hseeds hunion k
    rw [mem_usageKeys hF hsound hrefs hseeds,
      mem_usageKeys hF hsound hrefs fun r hr => hseeds r ((hunion r).2 (.inl hr)),
      mem_usageKeys hF hsound hrefs fun r hr => hseeds r ((hunion r).2 (.inr hr))]
    simp only [reach_union hunion, or_and_right, exists_or]
  · intro o o' seeds hseeds hnarrower k hk
    obtain ⟨r, hr, x, hx, hkey⟩ := (mem_usageKeys hF hsound hrefs hseeds).1 hk
    exact (mem_usageKeys hF hsound hrefs hseeds).2
      ⟨r, hnarrower.reach hr, x, hnarrower.relationsOf r hx, hkey⟩

theorem usages_union_mono_shopping :
    (∀ k, k ∈ shopping.usageKeys {} [.plain "Shop" "Item" "Shop", .plain "Shop" "Basket" "Shop"] ↔
        k ∈ shopping.usageKeys {} [.plain "Shop" "Basket" "Shop"] ∨
          k ∈ shopping.usageKeys {} [.plain "Shop" "Item" "Shop"]) ∧
      (∀ k ∈ shopping.usageKeys { methods := .none } [.plain "Shop" "Basket" "Shop"],
        k ∈ shopping.usageKeys {} [.plain "Shop" "Basket" "Shop"]) ∧
      (shopping.usageKeys { methods := .none } [.plain "Shop" "Basket" "Shop"]).length = 3 ∧
      (shopping.usageKeys {} [.plain "Shop" "Basket" "Shop"]).length = 5 := by
  obtain ⟨hunion, hmono⟩ := usages_union_mono family_shopReferences
    (.resolve (.add .empty rfl) (by simp [shopReferences])) references_shopping
  refine ⟨hunion _ _ _ _ ?_ (by simp [or_comm]), hmono _ _ _ ?_ ⟨fun _ ht => ht, fun _ _ => rfl⟩,
    by decide +kernel, by decide +kernel⟩
  · simp [TypeRef.parts, shopReferences]
  · simp [TypeRef.parts, shopReferences]

end Registry

end Coupling
