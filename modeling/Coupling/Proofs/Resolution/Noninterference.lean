/-
Looking up one reference and the answers for others.

A look-up keeps an answer for each reference it goes through. It leaves the
answer for another reference as it is (`resolve_after_resolve`) if the two agree
on what their common keys mean, and if neither nests deeper than instances are
followed; the memory may be any. Both conditions count: keys do not tell the
scopes of arguments, and an answer that was cut off at the depth limit is kept
for the reference it was cut off at (`resolve_after_resolve_conditions`). Answers
that are kept already stay (`resolve_keeps`), however deep a look-up goes.
-/
import Coupling.Proofs.Resolution.Memory

namespace Coupling

/-! ## What is looked up -/

namespace TypeRef

theorem followed_trans {p q : TypeRef} (hq : q ∈ p.followed) (r : TypeRef) (hp : p ∈ r.followed) : q ∈ r.followed := by
  refine followed_induct (P := fun r => q ∈ r.followed) hq ?_ ?_ r hp
  · intro e args he
    simp [followed, he]
  · intro e args a ha hlooked hmem
    have hargs : q ∈ followedOfList args := mem_followedOfList.2 ⟨a, ha, hlooked, hmem⟩
    simp [followed, hargs]

theorem nesting_le_nestingOfList {r : TypeRef} {rs : List TypeRef} (hr : r ∈ rs) : r.nesting ≤ nestingOfList rs := by
  induction hr with
  | head => exact Nat.le_max_left _ _
  | tail _ _ ih => exact Nat.le_trans ih (Nat.le_max_right _ _)

theorem nesting_le_of_mem_followed {p : TypeRef} (r : TypeRef) (hp : p ∈ r.followed) : p.nesting ≤ r.nesting := by
  refine followed_induct (P := fun r => p.nesting ≤ r.nesting) (Nat.le_refl _) ?_ ?_ r hp
  · intro e args he
    simp only [nesting]
    omega
  · intro e args a ha _ hle
    have hmax := nesting_le_nestingOfList ha
    simp only [nesting]
    omega

end TypeRef

namespace Resolver

open Resolving

/-! ## One run -/

section Run

variable {k : TypeKey} {find : Resolving (Option TypeDef)} {t : Resolver}

theorem rememberType_of_kept {a : Option TypeDef} (h : t.types.get? k = some a) :
    (rememberType k find).result t = a ∧ (rememberType k find).after t = t := by
  simp only [rememberType, result_bind, after_bind, result_get, after_get, h]
  exact ⟨rfl, rfl⟩

theorem rememberType_of_not_kept (h : t.types.get? k = none) :
    (rememberType k find).result t = (keepType k (find.result t) (find.after t)).1 ∧
      (rememberType k find).after t = (keepType k (find.result t) (find.after t)).2 := by
  simp only [rememberType, result_bind, after_bind, result_get, after_get, h]
  cases find.result t <;> exact ⟨rfl, rfl⟩

/-- A plain reference that is looked up for the first time. -/
theorem resolve_plain_of_not_kept {ns name scope : String}
    (h : t.types.get? (TypeRef.plain ns name scope).key = none) :
    (resolve (.plain ns name scope)).result t = t.meaning (.plain ns name scope) ∧
      (resolve (.plain ns name scope)).after t =
        { t with types :=
            t.types.insert (TypeRef.plain ns name scope).key (t.meaning (.plain ns name scope)) } := by
  have hmax : ¬ depthMax ≤ 0 := by decide
  simp only [resolve, resolveAt]
  rw [(rememberType_of_not_kept h).1, (rememberType_of_not_kept h).2]
  simp only [result_bind, after_bind, result_get, after_get, result_pure, after_pure, if_neg hmax, keepType, h,
    meaning_plain, and_self]

/-- A method that is looked up for the first time leaves of types what its declaring type leaves. -/
theorem types_after_resolveMethod {m : MethodRef} (h : t.methods.get? m.key = none) :
    ((resolveMethod m).after t).types = ((resolve m.declaring).after t).types := by
  simp only [resolveMethod, after_bind, result_get, after_get, h]
  split
  · simp only [after_bind, after_modifyGet, keepMethod]
    split <;> rfl
  · simp only [after_modifyGet, keepMethod]
    split <;> rfl

end Run

/-- Whatever a computation starts with, `R` relates it to what the computation leaves. -/
def Respects {α : Type} (R : Resolver → Resolver → Prop) (q : Resolving α) : Prop := ∀ t, R t (q.after t)

/-- A relation along which the steps of a run are put together. -/
structure Chains (R : Resolver → Resolver → Prop) : Prop where
  refl : ∀ t, R t t
  trans : ∀ t u v, R t u → R u v → R t v

section Respects

variable {α β : Type} {R : Resolver → Resolver → Prop} {deepest : Nat}

theorem respects_pure (hR : Chains R) (a : α) : Respects R (pure a) := hR.refl

theorem Respects.bind (hR : Chains R) {q : Resolving α} {f : α → Resolving β} (hq : Respects R q)
    (hf : ∀ a, Respects R (f a)) : Respects R (q >>= f) := fun t => hR.trans t _ _ (hq t) (hf _ _)

theorem rememberType_respects (hR : Chains R) {k : TypeKey} {find : Resolving (Option TypeDef)}
    (hfind : Respects R find) (hkeep : ∀ a t, R t (keepType k a t).2) : Respects R (rememberType k find) := by
  intro t
  cases hkept : t.types.get? k with
  | some a =>
    rw [(rememberType_of_kept hkept).2]
    exact hR.refl t
  | none =>
    rw [(rememberType_of_not_kept hkept).2]
    exact hR.trans _ _ _ (hfind t) (hkeep _ _)

mutual

/-- A look-up respects what each step of it does: each reference on the way is looked up respecting `R`,
or else its answer may be any. -/
theorem resolveAt_respects (hR : Chains R) : ∀ (r : TypeRef) (depth : Nat), depth + r.nesting ≤ deepest →
    (∀ p ∈ r.followed, ∀ depth, depth + p.nesting ≤ deepest →
      Respects R (resolveAt depth p) ∨ ∀ a t, R t (keepType p.key a t).2) → Respects R (resolveAt depth r)
  | .genericInstance element arguments, depth, hdepth, hstep => by
    rcases hstep _ (TypeRef.self_mem_followed _) depth hdepth with hdone | hkeep
    · exact hdone
    · simp only [TypeRef.nesting] at hdepth
      simp only [TypeRef.followed, List.mem_cons, List.mem_append] at hstep
      refine rememberType_respects hR ?_ hkeep
      split
      · exact respects_pure hR none
      refine Respects.bind hR (resolveAt_respects hR element (depth + 1) (by omega)
        fun p hp => hstep p (.inr (.inl hp))) fun a => ?_
      cases a with
      | none => exact respects_pure hR none
      | some d =>
        exact Respects.bind hR (resolveAll_respects hR arguments (depth + 1) (by omega)
          fun p hp => hstep p (.inr (.inr hp))) fun b => respects_pure hR _
  | .plain ns name scope, depth, hdepth, hstep => by
    rcases hstep _ (TypeRef.self_mem_followed _) depth hdepth with hdone | hkeep
    · exact hdone
    · exact rememberType_respects hR (fun t => hR.refl t) hkeep
  | .genericParameter .., depth, hdepth, hstep | .array .., depth, hdepth, hstep
  | .byReference _, depth, hdepth, hstep | .pointer _, depth, hdepth, hstep
  | .functionPointer _, depth, hdepth, hstep => by
    rcases hstep _ (TypeRef.self_mem_followed _) depth hdepth with hdone | hkeep
    · exact hdone
    · exact rememberType_respects hR (respects_pure hR none) hkeep

theorem resolveAll_respects (hR : Chains R) : ∀ (rs : List TypeRef) (depth : Nat),
    depth + TypeRef.nestingOfList rs ≤ deepest →
    (∀ p ∈ TypeRef.followedOfList rs, ∀ depth, depth + p.nesting ≤ deepest →
      Respects R (resolveAt depth p) ∨ ∀ a t, R t (keepType p.key a t).2) → Respects R (resolveAll depth rs)
  | [], _, _, _ => respects_pure hR true
  | r :: rs, depth, hdepth, hstep => by
    simp only [TypeRef.nestingOfList] at hdepth
    simp only [TypeRef.followedOfList] at hstep
    simp only [resolveAll]
    split at hstep
    · rename_i hparam
      rw [if_pos hparam]
      exact resolveAll_respects hR rs depth (by omega) hstep
    · rename_i hparam
      rw [if_neg hparam]
      refine Respects.bind hR (resolveAt_respects hR r depth (by omega)
        fun p hp => hstep p (List.mem_append_left _ hp)) fun a => ?_
      cases a with
      | none => exact respects_pure hR false
      | some d => exact resolveAll_respects hR rs depth (by omega) fun p hp => hstep p (List.mem_append_right _ hp)

end

end Respects

theorem resolveMethod_respects {R : Resolver → Resolver → Prop} (hR : Chains R) {m : MethodRef}
    (hresolve : Respects R (resolve m.declaring)) (hkeep : ∀ a t, R t (keepMethod m.key a t).2) :
    Respects R (resolveMethod m) := by
  refine Respects.bind hR hR.refl fun s => ?_
  split
  · exact respects_pure hR _
  · refine Respects.bind hR hresolve fun a => ?_
    generalize a.bind (methodOf? · m) = answer
    cases answer with
    | none => exact Respects.bind hR hR.refl fun _ t => hkeep none t
    | some n => exact fun t => hkeep (some n) t

/-! ## What is kept -/

/-- What the first resolver keeps, the second one keeps too. -/
structure Keeps (t u : Resolver) : Prop where
  types : ∀ k a, t.types.get? k = some a → u.types.get? k = some a
  methods : ∀ k a, t.methods.get? k = some a → u.methods.get? k = some a

theorem keeps_chains : Chains Keeps where
  refl _ := ⟨fun _ _ h => h, fun _ _ h => h⟩
  trans _ _ _ h₁ h₂ :=
    ⟨fun k a h => h₂.types k a (h₁.types k a h), fun k a h => h₂.methods k a (h₁.methods k a h)⟩

theorem keepType_keeps (k : TypeKey) (a : Option TypeDef) (t : Resolver) : Keeps t (keepType k a t).2 := by
  simp only [keepType]
  split
  · exact keeps_chains.refl t
  · rename_i hnone
    refine ⟨fun k' b hb => ?_, fun _ _ h => h⟩
    have hne : k' ≠ k := fun heq => by simp [heq, hnone] at hb
    rw [t.types.get?_insert_other a hne]
    exact hb

theorem keepMethod_keeps (k : MethodKey) (a : Option MethodDef) (t : Resolver) :
    Keeps t (keepMethod k a t).2 := by
  simp only [keepMethod]
  split
  · exact keeps_chains.refl t
  · rename_i hnone
    refine ⟨fun _ _ h => h, fun k' b hb => ?_⟩
    have hne : k' ≠ k := fun heq => by simp [heq, hnone] at hb
    rw [t.methods.get?_insert_other a hne]
    exact hb

/-- **What is kept stays kept**, however deep a look-up goes. -/
theorem resolve_keeps (r : TypeRef) : Respects Keeps (resolve r) :=
  resolveAt_respects keeps_chains r 0 (Nat.le_refl _) fun p _ _ _ => .inr (keepType_keeps p.key)

theorem resolveMethod_keeps (m : MethodRef) : Respects Keeps (resolveMethod m) :=
  resolveMethod_respects keeps_chains (resolve_keeps m.declaring) (keepMethod_keeps m.key)

theorem types_keepType_other {k k' : TypeKey} (hne : k' ≠ k) (a : Option TypeDef) (t : Resolver) :
    (keepType k a t).2.types.get? k' = t.types.get? k' := by
  simp only [keepType]
  split
  · rfl
  · exact t.types.get?_insert_other a hne

/-- A look-up keeps answers for the references it goes through only. -/
theorem types_after_resolveAt {r : TypeRef} (depth : Nat) {k : TypeKey} (hk : ∀ p ∈ r.followed, p.key ≠ k)
    (t : Resolver) : ((resolveAt depth r).after t).types.get? k = t.types.get? k :=
  resolveAt_respects (R := fun t u => u.types.get? k = t.types.get? k)
    ⟨fun _ => rfl, fun _ _ _ h₁ h₂ => h₂.trans h₁⟩ r depth (Nat.le_refl _)
    (fun p hp _ _ => .inr fun a t => types_keepType_other (hk p hp).symm a t) t

theorem types_after_resolveAll {rs : List TypeRef} (depth : Nat) {k : TypeKey}
    (hk : ∀ p ∈ TypeRef.followedOfList rs, p.key ≠ k) (t : Resolver) :
    ((resolveAll depth rs).after t).types.get? k = t.types.get? k :=
  resolveAll_respects (R := fun t u => u.types.get? k = t.types.get? k)
    ⟨fun _ => rfl, fun _ _ _ h₁ h₂ => h₂.trans h₁⟩ rs depth (Nat.le_refl _)
    (fun p hp _ _ => .inr fun a t => types_keepType_other (hk p hp).symm a t) t

section Agreement

variable {F : TypeRef → Prop} {k : TypeKey}

theorem Agrees.symm {s t : Resolver} (h : Agrees F s t) : Agrees F t s :=
  ⟨h.modules.symm, fun r hr => (h.types r hr).symm, fun m hm => (h.methods m hm).symm⟩

theorem agrees_keep_foreign (hF : Family F) (hk : ∀ r, F r → r.key ≠ k) (a : Option TypeDef) (s : Resolver) :
    Agrees F s (keepType k a s).2 := by
  simp only [keepType]
  split
  · exact Agrees.refl F s
  · exact agrees_of_kept_answers hF rfl rfl fun r hr => .inl (s.types.get?_insert_other a (hk r hr))

/-- A look-up changes no answer of a family, if the references on the way that share a key with the
family belong to it. -/
theorem agrees_after_resolveAt (hF : Family F) {r : TypeRef} {depth : Nat} (hdepth : depth + r.nesting < depthMax)
    (hshared : ∀ p ∈ r.followed, F p ∨ ∀ x, F x → x.key ≠ p.key) (t : Resolver) :
    Agrees F t ((resolveAt depth r).after t) := by
  refine resolveAt_respects ⟨Agrees.refl F, fun _ _ _ => Agrees.trans⟩ r depth (Nat.le_refl _)
    (fun p hp d hd => ?_) t
  rcases hshared p hp with hFp | hforeign
  · exact .inl fun t => (resolveAt_yields hF p d hFp (Nat.lt_of_le_of_lt hd hdepth) t (Agrees.refl F t)).2
  · exact .inr (agrees_keep_foreign hF hforeign)

end Agreement

/-! ## Two runs -/

/-- Two resolvers that answer alike within a family, and keep the same for the keys in `K`. -/
structure Parallel (F : TypeRef → Prop) (K : TypeKey → Prop) (t u : Resolver) : Prop where
  agrees : Agrees F t u
  kept : ∀ k, K k → u.types.get? k = t.types.get? k

/-- Started with parallel resolvers, a computation gives the same and leaves parallel resolvers. -/
def InStep {α : Type} (F : TypeRef → Prop) (K : TypeKey → Prop) (q : Resolving α) : Prop :=
  ∀ t u, Parallel F K t u → q.result u = q.result t ∧ Parallel F K (q.after t) (q.after u)

section InStep

variable {α β : Type} {F : TypeRef → Prop} {K : TypeKey → Prop}

theorem inStep_pure (a : α) : InStep F K (pure a) := fun _ _ h => ⟨rfl, h⟩

theorem InStep.bind {q : Resolving α} {f : α → Resolving β} (hq : InStep F K q) (hf : ∀ a, InStep F K (f a)) :
    InStep F K (q >>= f) := by
  intro t u h
  obtain ⟨hres, hafter⟩ := hq t u h
  simp only [result_bind, after_bind, hres]
  exact hf _ _ _ hafter

theorem keepType_inStep (hF : Family F) {k : TypeKey} (hk : K k) (hforeign : ∀ r, F r → r.key ≠ k)
    (a : Option TypeDef) {t u : Resolver} (h : Parallel F K t u) :
    (keepType k a u).1 = (keepType k a t).1 ∧ Parallel F K (keepType k a t).2 (keepType k a u).2 := by
  have hagrees : Agrees F (keepType k a t).2 (keepType k a u).2 :=
    (agrees_keep_foreign hF hforeign a t).symm.trans (h.agrees.trans (agrees_keep_foreign hF hforeign a u))
  simp only [keepType, h.kept k hk] at hagrees ⊢
  cases hkept : t.types.get? k with
  | some b => exact ⟨rfl, h⟩
  | none =>
    simp only [hkept] at hagrees
    refine ⟨rfl, hagrees, fun k' hk' => ?_⟩
    by_cases hkey : k' = k
    · simp [hkey]
    · simp only [SortedMap.get?_insert_other _ _ hkey, h.kept k' hk']

theorem rememberType_inStep (hF : Family F) {k : TypeKey} (hk : K k) (hforeign : ∀ r, F r → r.key ≠ k)
    {find : Resolving (Option TypeDef)} (hfind : InStep F K find) : InStep F K (rememberType k find) := by
  intro t u h
  have hsame := h.kept k hk
  cases hkept : t.types.get? k with
  | some a =>
    rw [hkept] at hsame
    rw [(rememberType_of_kept hkept).1, (rememberType_of_kept hkept).2, (rememberType_of_kept hsame).1,
      (rememberType_of_kept hsame).2]
    exact ⟨rfl, h⟩
  | none =>
    rw [hkept] at hsame
    obtain ⟨hres, hafter⟩ := hfind t u h
    rw [(rememberType_of_not_kept hkept).1, (rememberType_of_not_kept hkept).2,
      (rememberType_of_not_kept hsame).1, (rememberType_of_not_kept hsame).2, hres]
    exact keepType_inStep hF hk hforeign _ hafter

theorem resolveAt_inStep_of_mem (hF : Family F) (hK : ∀ r, F r → ¬ K r.key) {r : TypeRef} (hr : F r) {depth : Nat}
    (hdepth : depth + r.nesting < depthMax) : InStep F K (resolveAt depth r) := by
  intro t u h
  obtain ⟨hrest, hat⟩ := resolveAt_yields hF r depth hr hdepth t (Agrees.refl F t)
  obtain ⟨hresu, hau⟩ := resolveAt_yields hF r depth hr hdepth u (Agrees.refl F u)
  refine ⟨by rw [hrest, hresu, h.agrees.types r hr], hat.symm.trans (h.agrees.trans hau), fun k hk => ?_⟩
  have hne : ∀ p ∈ r.followed, p.key ≠ k := fun p hp he => hK p (hF.followed r hr p hp) (he ▸ hk)
  rw [types_after_resolveAt depth hne, types_after_resolveAt depth hne, h.kept k hk]

mutual

/-- Two runs of a look-up stay in step if each reference on the way is in the family or has a key of its
own, for which both resolvers keep the same. -/
theorem resolveAt_inStep (hF : Family F) (hK : ∀ r, F r → ¬ K r.key) : ∀ (r : TypeRef) (depth : Nat),
    depth + r.nesting < depthMax → (∀ p ∈ r.followed, F p ∨ (K p.key ∧ ∀ x, F x → x.key ≠ p.key)) →
      InStep F K (resolveAt depth r)
  | .genericInstance element arguments, depth, hdepth, hstep => by
    rcases hstep _ (TypeRef.self_mem_followed _) with hr | ⟨hk, hforeign⟩
    · exact resolveAt_inStep_of_mem hF hK hr hdepth
    · simp only [TypeRef.nesting] at hdepth
      have hmax : ¬ depthMax ≤ depth := by omega
      simp only [TypeRef.followed, List.mem_cons, List.mem_append] at hstep
      refine rememberType_inStep hF hk hforeign ?_
      rw [if_neg hmax]
      refine (resolveAt_inStep hF hK element (depth + 1) (by omega)
        fun p hp => hstep p (.inr (.inl hp))).bind fun a => ?_
      cases a with
      | none => exact inStep_pure none
      | some d =>
        exact (resolveAll_inStep hF hK arguments (depth + 1) (by omega)
          fun p hp => hstep p (.inr (.inr hp))).bind fun b => inStep_pure _
  | .plain ns name scope, depth, hdepth, hstep => by
    rcases hstep _ (TypeRef.self_mem_followed _) with hr | ⟨hk, hforeign⟩
    · exact resolveAt_inStep_of_mem hF hK hr hdepth
    · refine rememberType_inStep hF hk hforeign fun t u h => ⟨?_, h⟩
      simp only [result_bind, result_get, result_pure, definition?, h.agrees.modules]
  | .genericParameter .., depth, hdepth, hstep | .array .., depth, hdepth, hstep
  | .byReference _, depth, hdepth, hstep | .pointer _, depth, hdepth, hstep
  | .functionPointer _, depth, hdepth, hstep => by
    rcases hstep _ (TypeRef.self_mem_followed _) with hr | ⟨hk, hforeign⟩
    · exact resolveAt_inStep_of_mem hF hK hr hdepth
    · exact rememberType_inStep hF hk hforeign (inStep_pure none)

theorem resolveAll_inStep (hF : Family F) (hK : ∀ r, F r → ¬ K r.key) : ∀ (rs : List TypeRef) (depth : Nat),
    depth + TypeRef.nestingOfList rs < depthMax →
      (∀ p ∈ TypeRef.followedOfList rs, F p ∨ (K p.key ∧ ∀ x, F x → x.key ≠ p.key)) →
        InStep F K (resolveAll depth rs)
  | [], _, _, _ => inStep_pure true
  | r :: rs, depth, hdepth, hstep => by
    simp only [TypeRef.nestingOfList] at hdepth
    simp only [TypeRef.followedOfList] at hstep
    simp only [resolveAll]
    split at hstep
    · rename_i hparam
      rw [if_pos hparam]
      exact resolveAll_inStep hF hK rs depth (by omega) hstep
    · rename_i hparam
      rw [if_neg hparam]
      refine (resolveAt_inStep hF hK r depth (by omega)
        fun p hp => hstep p (List.mem_append_left _ hp)).bind fun a => ?_
      cases a with
      | none => exact inStep_pure false
      | some d => exact resolveAll_inStep hF hK rs depth (by omega) fun p hp => hstep p (List.mem_append_right _ hp)

end

end InStep

/-! ## One look-up after another -/

/-- What two look-ups both go through is a family, if neither goes too deep and they agree on what their
common keys mean. -/
theorem family_of_common {a b : TypeRef} (hcommon : ∀ x ∈ a.followed, ∀ y ∈ b.followed, x.key = y.key → x = y)
    (ha : a.nesting < depthMax) : Family fun x => x ∈ a.followed ∧ x ∈ b.followed where
  followed _ hr _ hp := ⟨TypeRef.followed_trans hp a hr.1, TypeRef.followed_trans hp b hr.2⟩
  coherent x y hx hy h := hcommon x hx.1 y hy.2 h
  shallow _ hr := Nat.lt_of_le_of_lt (TypeRef.nesting_le_of_mem_followed a hr.1) ha

/-- **A look-up leaves the answers for other references as they are**, whatever the resolver remembers:
if the references two look-ups go through are the same where their keys are, and instances nest less
deep than they are followed, the second gives what it would have given without the first. -/
theorem resolve_after_resolve (s : Resolver) {a b : TypeRef}
    (hcommon : ∀ x ∈ a.followed, ∀ y ∈ b.followed, x.key = y.key → x = y)
    (ha : a.nesting < depthMax) (hb : b.nesting < depthMax) :
    (resolve b).result ((resolve a).after s) = (resolve b).result s := by
  have hF := family_of_common hcommon ha
  -- the keys of the second look-up that the first one does not touch
  let K : TypeKey → Prop := fun k => ∀ x ∈ a.followed, x.key ≠ k
  have hparallel : Parallel (fun x => x ∈ a.followed ∧ x ∈ b.followed) K s ((resolve a).after s) := by
    refine ⟨agrees_after_resolveAt hF (by simpa using ha) (fun p hp => ?_) s,
      fun k hk => types_after_resolveAt 0 hk s⟩
    by_cases hpb : p ∈ b.followed
    · exact .inl ⟨hp, hpb⟩
    · exact .inr fun x hx he => hpb (hcommon p hp x hx.2 he.symm ▸ hx.2)
  refine (resolveAt_inStep hF (fun r hr hk => hk r hr.1 rfl) b 0 (by simpa using hb) (fun p hp => ?_)
    s _ hparallel).1
  by_cases hpa : p ∈ a.followed
  · exact .inl ⟨hpa, hp⟩
  · exact .inr ⟨fun x hx he => hpa (hcommon x hx p hp he ▸ hx),
      fun x hx he => hpa (hcommon x hx.1 p hp he ▸ hx.1)⟩

/-- A box with a list of items after the list itself. -/
theorem resolve_after_resolve_box :
    let known := empty.register { name := "App", types :=
      [.newClass "App" "Box" "App", .newClass "App" "List" "App", .newClass "App" "Item" "App"] }
    let items := TypeRef.genericInstance (.plain "App" "List" "App") [.plain "App" "Item" "App"]
    let box := TypeRef.genericInstance (.plain "App" "Box" "App") [items]
    items.key ≠ box.key ∧ ((resolve box).result known).isSome ∧
      (resolve box).result ((resolve items).after known) = (resolve box).result known := by
  refine ⟨by decide +kernel, by decide +kernel, resolve_after_resolve _ ?_ (by decide) (by decide)⟩
  have hkeys : ((TypeRef.genericInstance (.plain "App" "Box" "App")
      [.genericInstance (.plain "App" "List" "App") [.plain "App" "Item" "App"]]).followed.map
        TypeRef.key).Nodup := by decide +kernel
  refine fun x hx y hy h => List.inj_on_of_nodup_map hkeys ?_ hy h
  simp only [TypeRef.followed, TypeRef.followedOfList, TypeRef.isGenericParameter] at hx ⊢
  simp at hx ⊢
  tauto

/-! ## Where the conditions come from -/

/-- A reference inside `n` generic instances without arguments. -/
def wrapped : Nat → TypeRef → TypeRef
  | 0, r => r
  | n + 1, r => .genericInstance (wrapped n r) []

theorem length_fullName_wrapped (r : TypeRef) (n : Nat) :
    (wrapped n r).fullName.length = r.fullName.length + 2 * n := by
  induction n with
  | zero => rfl
  | succ n ih =>
    have hlt : "<".length = 1 := rfl
    have hgt : ">".length = 1 := rfl
    have hnone : (",".intercalate []).length = 0 := rfl
    simp only [wrapped, TypeRef.fullName, TypeRef.fullNames_eq_map, List.map_nil, String.length_append, ih,
      hlt, hgt, hnone]
    omega

theorem eq_zero_of_key_wrapped {r : TypeRef} {n : Nat} (h : (wrapped n r).key = r.key) : n = 0 := by
  have hlen := congrArg (fun k : TypeKey => k.fullName.length) h
  simp only [TypeRef.key, length_fullName_wrapped] at hlen
  omega

theorem mem_followed_wrapped {ns name scope : String} {x : TypeRef} {n : Nat}
    (h : x ∈ (wrapped n (.plain ns name scope)).followed) : ∃ j, x = wrapped j (.plain ns name scope) := by
  induction n with
  | zero => exact ⟨0, by simpa [wrapped, TypeRef.followed] using h⟩
  | succ n ih =>
    simp only [wrapped, TypeRef.followed, TypeRef.followedOfList, List.append_nil, List.mem_cons] at h
    rcases h with rfl | h
    · exact ⟨n + 1, rfl⟩
    · exact ih h

/-- A reference inside instances is the only one of its key on the way to it. -/
theorem eq_of_key_wrapped {ns name scope : String} {n : Nat} :
    ∀ x ∈ (wrapped n (.plain ns name scope)).followed, ∀ y ∈ (TypeRef.plain ns name scope).followed,
      x.key = y.key → x = y := by
  intro x hx y hy hkey
  obtain rfl := List.mem_singleton.1 hy
  obtain ⟨j, rfl⟩ := mem_followed_wrapped hx
  obtain rfl := eq_zero_of_key_wrapped hkey
  rfl

/-- A resolver that has not found a definition for a reference inside any number of instances. -/
def FoundNothing (r : TypeRef) (t : Resolver) : Prop := ∀ n a, t.types.get? (wrapped n r).key = some a → a = none

theorem keepType_none {r : TypeRef} {t : Resolver} (ht : FoundNothing r t) (n : Nat) :
    (keepType (wrapped n r).key none t).1 = none ∧ FoundNothing r (keepType (wrapped n r).key none t).2 ∧
      ∀ k, k = (wrapped n r).key ∨ t.types.get? k = some none →
        (keepType (wrapped n r).key none t).2.types.get? k = some none := by
  simp only [keepType]
  split
  · rename_i kept hkept
    obtain rfl := ht n kept hkept
    refine ⟨rfl, ht, fun k hk => ?_⟩
    rcases hk with rfl | hk
    · exact hkept
    · exact hk
  · refine ⟨rfl, fun m a ha => ?_, fun k hk => ?_⟩
    · by_cases hkey : (wrapped m r).key = (wrapped n r).key
      · simpa [hkey, eq_comm] using ha
      · exact ht m a (by simpa [SortedMap.get?_insert_other _ _ hkey] using ha)
    · by_cases hkey : k = (wrapped n r).key
      · simp [hkey]
      · simpa [SortedMap.get?_insert_other _ _ hkey, hkey] using hk

/-- Where the depth limit is reached there is no answer, and that is kept. -/
theorem resolveAt_wrapped {t : Resolver} {ns name scope : String}
    (ht : ∀ n, t.types.get? (wrapped n (.plain ns name scope)).key = none) :
    ∀ n depth : Nat, depth + n = depthMax →
      (resolveAt depth (wrapped n (.plain ns name scope))).result t = none ∧
        FoundNothing (.plain ns name scope) ((resolveAt depth (wrapped n (.plain ns name scope))).after t) ∧
        ((resolveAt depth (wrapped n (.plain ns name scope))).after t).types.get?
          (TypeRef.plain ns name scope).key = some none
  | 0, depth, hdepth => by
    have hmax : depthMax ≤ depth := by omega
    have hkept : t.types.get? (TypeRef.plain ns name scope).key = none := ht 0
    have hnothing : FoundNothing (.plain ns name scope) t := fun n a ha => by simp [ht n] at ha
    obtain ⟨hres, hafter, hself⟩ := keepType_none hnothing 0
    simp only [wrapped, resolveAt] at hres hafter hself ⊢
    rw [(rememberType_of_not_kept hkept).1, (rememberType_of_not_kept hkept).2]
    simp only [if_pos hmax, result_bind, after_bind, after_get, result_pure, after_pure]
    exact ⟨hres, hafter, hself _ (.inl rfl)⟩
  | n + 1, depth, hdepth => by
    have hmax : ¬ depthMax ≤ depth := by omega
    obtain ⟨hres, hnothing, hinner⟩ := resolveAt_wrapped ht n (depth + 1) (by omega)
    have hkept : t.types.get? (TypeRef.genericInstance (wrapped n (.plain ns name scope)) []).key = none :=
      ht (n + 1)
    obtain ⟨hres', hafter, hself⟩ := keepType_none hnothing (n + 1)
    simp only [wrapped, resolveAt] at hres' hafter hself ⊢
    rw [(rememberType_of_not_kept hkept).1, (rememberType_of_not_kept hkept).2, if_neg hmax, result_bind,
      after_bind, hres]
    exact ⟨hres', hafter, hself _ (.inr hinner)⟩

/-- **Too deep a look-up hides the type at its end**: `depthMax` instances around a plain reference, looked
up first, leave it without a definition. -/
theorem resolve_after_wrapped {s : Resolver} {ns name scope : String}
    (hs : ∀ n, s.types.get? (wrapped n (.plain ns name scope)).key = none) :
    (resolve (.plain ns name scope)).result
      ((resolve (wrapped depthMax (.plain ns name scope))).after s) = none := by
  obtain ⟨-, -, hkept⟩ := resolveAt_wrapped hs depthMax 0 (by simp)
  exact (rememberType_of_kept hkept).1

/-- **Neither condition of `resolve_after_resolve` can be left out.** The keys of two lists of items are
equal if the items come from different modules, and a type is hidden by too deep a look-up. -/
theorem resolve_after_resolve_conditions :
    (¬ ∀ (s : Resolver) (a b : TypeRef), a.key ≠ b.key → a.nesting < depthMax → b.nesting < depthMax →
      (resolve b).result ((resolve a).after s) = (resolve b).result s) ∧
    (¬ ∀ (s : Resolver) (a b : TypeRef), a.key ≠ b.key →
      (∀ x ∈ a.followed, ∀ y ∈ b.followed, x.key = y.key → x = y) →
        (resolve b).result ((resolve a).after s) = (resolve b).result s) := by
  constructor
  · intro h
    have hsome := congrArg Option.isSome (h
      (empty.register { name := "App", types := [.newClass "App" "List" "App", .newClass "App" "Item" "App"] })
      (.genericInstance (.plain "App" "List" "App")
        [.genericInstance (.plain "App" "List" "App") [.plain "App" "Item" "App"]])
      (.genericInstance (.plain "App" "List" "App") [.plain "App" "Item" "Lib"])
      (by decide +kernel) (by decide) (by decide))
    exact absurd hsome (by decide +kernel)
  · intro h
    have hsame := h (empty.register { name := "App", types := [.newClass "App" "Item" "App"] })
      (wrapped depthMax (.plain "App" "Item" "App")) (.plain "App" "Item" "App") ?_ eq_of_key_wrapped
    · rw [resolve_after_wrapped fun _ => rfl] at hsame
      exact absurd (congrArg Option.isSome hsame) (by decide +kernel)
    · exact fun hkey => absurd (eq_zero_of_key_wrapped hkey) (by decide)

end Resolver

end Coupling
