/-
Lists whose elements are related one to one.

Where lists are related place by place (`List.Forall₂`), each element has a partner at its
place (`exists_mem_zip`, `exists_mem_zip_right`). `Matched` relates them in whatever order.
-/
import Mathlib.Data.List.Nodup
import Mathlib.Data.List.Perm.Basic
import Mathlib.Data.List.Zip

namespace Coupling

section Places

variable {α β : Type} {R : α → β → Prop} {xs : List α} {ys : List β}

theorem exists_mem_zip (h : List.Forall₂ R xs ys) {x : α} (hx : x ∈ xs) : ∃ y, (x, y) ∈ xs.zip ys := by
  rw [← List.map_fst_zip (Nat.le_of_eq h.length_eq)] at hx
  obtain ⟨⟨_, y⟩, hy, rfl⟩ := List.mem_map.1 hx
  exact ⟨y, hy⟩

theorem exists_mem_zip_right (h : List.Forall₂ R xs ys) {y : β} (hy : y ∈ ys) : ∃ x, (x, y) ∈ xs.zip ys := by
  rw [← List.map_snd_zip (Nat.le_of_eq h.length_eq.symm)] at hy
  obtain ⟨⟨x, _⟩, hx, rfl⟩ := List.mem_map.1 hy
  exact ⟨x, hx⟩

/-- What is said of the element on the right at each place holds for all of that list. -/
theorem forall_mem_right {P : β → Prop} (h : List.Forall₂ (fun _ y => P y) xs ys) : ∀ y ∈ ys, P y := by
  intro y hy
  obtain ⟨x, hx⟩ := exists_mem_zip_right h hy
  exact (List.forall₂_iff_zip.1 h).2 hx

end Places

/-- Lists whose elements are related one to one, in any order. -/
def Matched {α β : Type} (R : α → β → Prop) (xs : List α) (ys : List β) : Prop :=
  ∃ zs, List.Forall₂ R xs zs ∧ zs.Perm ys

namespace Matched

variable {α β γ δ : Type} {R : α → β → Prop} {xs : List α} {ys : List β}

theorem of_forall₂ (h : List.Forall₂ R xs ys) : Matched R xs ys := ⟨ys, h, .refl _⟩

theorem length_eq (h : Matched R xs ys) : xs.length = ys.length := by
  obtain ⟨zs, hzs, hperm⟩ := h
  rw [hzs.length_eq, hperm.length_eq]

theorem exists_right (h : Matched R xs ys) {x : α} (hx : x ∈ xs) : ∃ y ∈ ys, R x y := by
  obtain ⟨zs, hzs, hperm⟩ := h
  obtain ⟨y, hy⟩ := exists_mem_zip hzs hx
  exact ⟨y, hperm.mem_iff.1 (List.of_mem_zip hy).2, (List.forall₂_iff_zip.1 hzs).2 hy⟩

theorem exists_left (h : Matched R xs ys) {y : β} (hy : y ∈ ys) : ∃ x ∈ xs, R x y := by
  obtain ⟨zs, hzs, hperm⟩ := h
  obtain ⟨x, hx⟩ := exists_mem_zip_right hzs (hperm.mem_iff.2 hy)
  exact ⟨x, (List.of_mem_zip hx).1, (List.forall₂_iff_zip.1 hzs).2 hx⟩

theorem imp {S : α → β → Prop} (h : Matched R xs ys) (hRS : ∀ x ∈ xs, ∀ y, R x y → S x y) : Matched S xs ys := by
  obtain ⟨zs, hzs, hperm⟩ := h
  refine ⟨zs, ?_, hperm⟩
  clear hperm
  induction hzs with
  | nil => exact .nil
  | cons hxy _ ih => exact .cons (hRS _ (by simp) _ hxy) (ih fun x hx => hRS x (by simp [hx]))

theorem filter {p : α → Bool} {q : β → Bool} (h : Matched R xs ys) (hpq : ∀ x y, R x y → p x = q y) :
    Matched R (xs.filter p) (ys.filter q) := by
  obtain ⟨zs, hzs, hperm⟩ := h
  exact ⟨zs.filter q, List.rel_filter (fun x y hxy => by simp [hpq x y hxy]) hzs, hperm.filter q⟩

/-- The elements on either side may be listed in another order. -/
theorem of_perm {xs' : List α} {ys' : List β} (h : Matched R xs ys) (hxs : xs'.Perm xs) (hys : ys.Perm ys') :
    Matched R xs' ys' := by
  obtain ⟨zs, hzs, hperm⟩ := h
  obtain ⟨us, hus, hperm'⟩ := List.perm_comp_forall₂ hxs hzs
  exact ⟨us, hus, hperm'.trans (hperm.trans hys)⟩

/-- Where lists give the same values in some order, elements of the same value match. -/
theorem of_map_perm {a : α → γ} {b : β → γ} (h : (xs.map a).Perm (ys.map b)) :
    Matched (fun x y => a x = b y) xs ys := by
  have hself : Matched (fun c y => c = b y) (ys.map b) ys :=
    .of_forall₂ (List.forall₂_map_left_iff.2 (List.forall₂_same.2 fun _ _ => rfl))
  obtain ⟨zs, hzs, hperm⟩ := hself.of_perm h (.refl _)
  exact ⟨zs, List.forall₂_map_left_iff.1 hzs, hperm⟩

/-- Matches can be followed from list to list. -/
theorem comp {S : β → γ → Prop} {zs : List γ} (h : Matched R xs ys) (h' : Matched S ys zs) :
    Matched (fun x z => ∃ y, R x y ∧ S y z) xs zs := by
  obtain ⟨us, hus, hperm⟩ := h
  obtain ⟨ws, hws, hperm'⟩ := h'.of_perm hperm (.refl _)
  refine ⟨ws, ?_, hperm'⟩
  clear hperm hperm'
  induction hus generalizing ws with
  | nil =>
    cases hws
    exact .nil
  | cons hxy _ ih =>
    cases hws with
    | cons hyz hws => exact .cons ⟨_, hxy, hyz⟩ (ih _ hws)

theorem map {S : γ → δ → Prop} {a : α → γ} {b : β → δ} (h : Matched R xs ys)
    (hab : ∀ x ∈ xs, ∀ y ∈ ys, R x y → S (a x) (b y)) : Matched S (xs.map a) (ys.map b) := by
  obtain ⟨zs, hzs, hperm⟩ := h
  refine ⟨zs.map b, ?_, hperm.map b⟩
  replace hab : ∀ x ∈ xs, ∀ z ∈ zs, R x z → S (a x) (b z) := fun x hx z hz => hab x hx z (hperm.mem_iff.1 hz)
  clear hperm
  induction hzs with
  | nil => exact .nil
  | cons hxz _ ih =>
    exact .cons (hab _ (by simp) _ (by simp) hxz) (ih fun x hx z hz => hab x (by simp [hx]) z (by simp [hz]))

theorem append {xs' : List α} {ys' : List β} (h : Matched R xs ys) (h' : Matched R xs' ys') :
    Matched R (xs ++ xs') (ys ++ ys') := by
  obtain ⟨zs, hzs, hperm⟩ := h
  obtain ⟨zs', hzs', hperm'⟩ := h'
  exact ⟨zs ++ zs', List.rel_append hzs hzs', hperm.append hperm'⟩

theorem flatMap {S : γ → δ → Prop} {f : α → List γ} {g : β → List δ} (h : Matched R xs ys)
    (hfg : ∀ x y, R x y → Matched S (f x) (g y)) : Matched S (xs.flatMap f) (ys.flatMap g) := by
  obtain ⟨zs, hzs, hperm⟩ := h
  have hzs : Matched S (xs.flatMap f) (zs.flatMap g) := by
    clear hperm
    induction hzs with
    | nil => exact ⟨[], .nil, .nil⟩
    | cons hxy _ ih => exact (hfg _ _ hxy).append ih
  obtain ⟨us, hus, hperm'⟩ := hzs
  exact ⟨us, hus, hperm'.trans (hperm.flatMap_right g)⟩

theorem perm_flatMap {f : α → List γ} {g : β → List γ} (h : Matched R xs ys)
    (hfg : ∀ x y, R x y → (f x).Perm (g y)) : (xs.flatMap f).Perm (ys.flatMap g) := by
  obtain ⟨us, hus, hperm⟩ := h.flatMap (S := (· = ·)) fun x y hxy =>
    ⟨f x, List.forall₂_same.2 fun _ _ => rfl, hfg x y hxy⟩
  rw [List.forall₂_eq_eq_eq] at hus
  exact hus ▸ hperm

/-- Where elements are there once, each can be asked for the one it matches. -/
theorem exists_fun [Inhabited α] (h : Matched R xs ys) (hys : ys.Nodup) :
    ∃ f : β → α, (ys.map f).Perm xs ∧ ∀ y ∈ ys, R (f y) y := by
  classical
  obtain ⟨zs, hzs, hperm⟩ := h
  suffices hfun : ∃ f : β → α, zs.map f = xs ∧ ∀ z ∈ zs, R (f z) z by
    obtain ⟨f, hmap, hf⟩ := hfun
    exact ⟨f, hmap ▸ hperm.symm.map f, fun y hy => hf y (hperm.mem_iff.2 hy)⟩
  have hnodup := hperm.nodup_iff.2 hys
  clear hperm hys
  induction hzs with
  | nil => exact ⟨default, rfl, by simp⟩
  | @cons x z xs zs hxz _ ih =>
    obtain ⟨hz, hnodup⟩ := List.nodup_cons.1 hnodup
    obtain ⟨f, hmap, hf⟩ := ih hnodup
    have hother : ∀ z' ∈ zs, Function.update f z x z' = f z' := fun z' hz' =>
      Function.update_of_ne (fun heq : z' = z => hz (heq ▸ hz')) x f
    refine ⟨Function.update f z x, ?_, fun z' hz' => ?_⟩
    · rw [List.map_cons, Function.update_self, List.map_congr_left hother, hmap]
    · rcases List.mem_cons.1 hz' with rfl | hz'
      · rwa [Function.update_self]
      · rw [hother z' hz']
        exact hf z' hz'

theorem reverse (h : Matched R xs ys) : Matched R xs.reverse ys.reverse := by
  obtain ⟨zs, hzs, hperm⟩ := h
  exact ⟨zs.reverse, List.forall₂_reverse_iff.2 hzs, zs.reverse_perm.trans (hperm.trans ys.reverse_perm.symm)⟩

/-- What is found first matches another element that could have been found. -/
theorem find? {p : α → Bool} {q : β → Bool} (h : Matched R xs ys) (hpq : ∀ x ∈ xs, ∀ y, R x y → p x = q y) :
    Option.Rel (fun x y => (x ∈ xs ∧ p x = true) ∧ ∃ x' ∈ xs, p x' = true ∧ R x' y)
      (xs.find? p) (ys.find? q) := by
  cases hx : xs.find? p with
  | none =>
    have hy : ys.find? q = none := by
      rw [List.find?_eq_none] at hx ⊢
      intro y hy
      obtain ⟨x, hmem, hxy⟩ := h.exists_left hy
      rw [← hpq x hmem y hxy]
      exact hx x hmem
    rw [hy]
    exact .none
  | some x =>
    have hmem := List.mem_of_find?_eq_some hx
    have hp := List.find?_some hx
    obtain ⟨y, hy, hxy⟩ := h.exists_right hmem
    cases hfound : ys.find? q with
    | none =>
      rw [hpq x hmem y hxy] at hp
      exact absurd hp (List.find?_eq_none.1 hfound y hy)
    | some y' =>
      obtain ⟨x', hmem', hxy'⟩ := h.exists_left (List.mem_of_find?_eq_some hfound)
      have hp' : p x' = true := by rw [hpq x' hmem' y' hxy', List.find?_some hfound]
      exact .some ⟨⟨hmem, hp⟩, x', hmem', hp', hxy'⟩

/-- Where keys are there once, what is found under a key matches. -/
theorem find?_key {κ : Type} [BEq κ] [LawfulBEq κ] {key : α → κ} {key' : β → κ} (h : Matched R xs ys)
    (hkey : ∀ x y, R x y → key x = key' y) (hnodup : (xs.map key).Nodup) (k : κ) :
    Option.Rel R (xs.find? (key · == k)) (ys.find? (key' · == k)) := by
  have hfound := h.find? (p := (key · == k)) (q := (key' · == k)) fun x _ y hxy => by rw [hkey x y hxy]
  generalize xs.find? (key · == k) = found, ys.find? (key' · == k) = found' at hfound ⊢
  cases hfound with
  | none => exact .none
  | some hxy =>
    obtain ⟨⟨hmem, hk⟩, x', hmem', hk', hxy⟩ := hxy
    rw [List.inj_on_of_nodup_map hnodup hmem hmem' ((beq_iff_eq.1 hk).trans (beq_iff_eq.1 hk').symm)]
    exact .some hxy

end Matched

end Coupling
