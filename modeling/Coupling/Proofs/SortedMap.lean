/-
Maps listed in key order, as maps.

What `insert`, `alter` and `erase` do to `get?`, key by key, and which entries and
keys they leave. Replacing a value needs no order; that `alter` sees the value that
is there, that keys are listed once, and that maps with the same values are the
same map (`Sorted.ext`), hold for entries in order (`Sorted`), which every
operation keeps. Where each value has its key, the values of a key are what `get?`
finds (`Sorted.filter_values`).
-/
import Coupling.Resolver

namespace Coupling

/-! ## Keys as an order -/

theorem TypeKey.compare_eq_then (a b : TypeKey) :
    compare a b = (compare a.fullName b.fullName).then (compare a.scope b.scope) := rfl

theorem MethodKey.compare_eq_then (a b : MethodKey) : Ord.compare a b =
    (Ord.compare a.declaring b.declaring).then
      ((Ord.compare a.name b.name).then (Ord.compare a.params b.params)) := rfl

instance : Std.LawfulEqOrd TypeKey where
  eq_of_compare {a b} h := by
    rw [TypeKey.compare_eq_then, Ordering.then_eq_eq, Std.compare_eq_iff_eq, Std.compare_eq_iff_eq] at h
    cases a; cases b; simp_all
  compare_self {a} := by
    rw [TypeKey.compare_eq_then, Ordering.then_eq_eq, Std.compare_eq_iff_eq, Std.compare_eq_iff_eq]
    exact ⟨rfl, rfl⟩

instance : Std.TransOrd TypeKey :=
  inferInstanceAs (Std.TransCmp (compareLex (compareOn TypeKey.fullName) (compareOn TypeKey.scope)))

instance : Std.LawfulEqOrd MethodKey where
  eq_of_compare {a b} h := by
    rw [MethodKey.compare_eq_then, Ordering.then_eq_eq, Ordering.then_eq_eq, Std.compare_eq_iff_eq,
      Std.compare_eq_iff_eq, Std.compare_eq_iff_eq] at h
    cases a; cases b; simp_all
  compare_self {a} := by
    rw [MethodKey.compare_eq_then, Ordering.then_eq_eq, Ordering.then_eq_eq, Std.compare_eq_iff_eq,
      Std.compare_eq_iff_eq, Std.compare_eq_iff_eq]
    exact ⟨rfl, rfl, rfl⟩

namespace SortedMap

variable {κ α : Type} [Ord κ]

@[simp] theorem get?_empty (k : κ) : (∅ : SortedMap κ α).get? k = none := rfl

/-! ## Lookup -/

section Lookup

variable [Std.LawfulEqOrd κ]

theorem lookup_place_const_self (k : κ) (a : α) :
    ∀ es : List (κ × α), lookup k (place k (fun _ => a) es) = some a
  | [] => by simp [place, lookup]
  | (k', b) :: es => by
    simp only [place]
    split
    · simp [lookup]
    · rename_i h
      simp [lookup, h]
    · rename_i h
      simp only [lookup, h, reduceCtorEq, if_false]
      exact lookup_place_const_self k a es

theorem lookup_place_other {k k' : κ} (f : Option α → α) (hne : k' ≠ k) :
    ∀ es : List (κ × α), lookup k' (place k f es) = lookup k' es
  | [] => by simp [place, lookup, hne]
  | (k'', b) :: es => by
    simp only [place]
    split
    · simp [lookup, hne]
    · rename_i h
      obtain rfl := Std.compare_eq_iff_eq.1 h
      simp [lookup, hne]
    · simp only [lookup, lookup_place_other f hne es]

@[simp] theorem get?_insert_self (m : SortedMap κ α) (k : κ) (a : α) : (m.insert k a).get? k = some a :=
  lookup_place_const_self k a m.entries

theorem get?_alter_other (m : SortedMap κ α) {k k' : κ} (f : Option α → α) (hne : k' ≠ k) :
    (m.alter k f).get? k' = m.get? k' :=
  lookup_place_other f hne m.entries

theorem get?_insert_other (m : SortedMap κ α) {k k' : κ} (a : α) (hne : k' ≠ k) :
    (m.insert k a).get? k' = m.get? k' :=
  m.get?_alter_other _ hne

/-- Of values set one after the other a key has the last. -/
theorem get?_foldl_insert [DecidableEq κ] (key : α → κ) (m : SortedMap κ α) (xs : List α) (k : κ) :
    (xs.foldl (fun m x => m.insert (key x) x) m).get? k = (xs.reverse.find? (key · = k)).or (m.get? k) := by
  induction xs generalizing m with
  | nil => rfl
  | cons x xs ih =>
    rw [List.foldl_cons, ih, List.reverse_cons, List.find?_append, Option.or_assoc]
    by_cases hk : k = key x
    · simp [hk]
    · simp [get?_insert_other _ _ hk, Ne.symm hk]

omit [Std.LawfulEqOrd κ] in
theorem lookup_erase_self (k : κ) :
    ∀ es : List (κ × α), lookup k (es.filter fun e => compare k e.1 != .eq) = none
  | [] => rfl
  | (k', a) :: es => by
    by_cases hk : compare k k' = .eq
    · simp [hk, lookup_erase_self k es]
    · simp [hk, lookup, lookup_erase_self k es]

theorem lookup_erase_other {k k' : κ} (hne : k' ≠ k) :
    ∀ es : List (κ × α), lookup k' (es.filter fun e => compare k e.1 != .eq) = lookup k' es
  | [] => rfl
  | (k'', a) :: es => by
    by_cases hk : compare k k'' = .eq
    · obtain rfl := Std.compare_eq_iff_eq.1 hk
      simp [lookup, hne, lookup_erase_other hne es]
    · simp only [List.filter_cons, bne_iff_ne, ne_eq, hk, not_false_eq_true, if_true, lookup,
        lookup_erase_other hne es]

omit [Std.LawfulEqOrd κ] in
@[simp] theorem get?_erase_self (m : SortedMap κ α) (k : κ) : (m.erase k).get? k = none :=
  lookup_erase_self k m.entries

theorem get?_erase_other (m : SortedMap κ α) {k k' : κ} (hne : k' ≠ k) : (m.erase k).get? k' = m.get? k' :=
  lookup_erase_other hne m.entries

theorem mem_entries_of_get? {m : SortedMap κ α} {k : κ} {a : α} (h : m.get? k = some a) :
    (k, a) ∈ m.entries := by
  obtain ⟨es⟩ := m
  induction es with
  | nil => simp [get?, lookup] at h
  | cons e es ih =>
    obtain ⟨k', b⟩ := e
    simp only [get?, lookup] at h
    split at h
    · rename_i hk
      obtain rfl := Std.compare_eq_iff_eq.1 hk
      cases h
      simp
    · exact List.mem_cons_of_mem _ (ih h)

end Lookup

/-! ## Entries -/

theorem mem_place {k : κ} {f : Option α → α} {e : κ × α} :
    ∀ {es : List (κ × α)}, e ∈ place k f es → e = (k, f none) ∨ e ∈ es ∨
      ∃ k' a, (k', a) ∈ es ∧ compare k k' = .eq ∧ e = (k', f (some a))
  | [], h => by simp only [place, List.mem_singleton] at h; exact .inl h
  | (k', a) :: es, h => by
    simp only [place] at h
    split at h
    · rcases List.mem_cons.1 h with rfl | h
      · exact .inl rfl
      · exact .inr (.inl h)
    · rename_i hk
      rcases List.mem_cons.1 h with rfl | h
      · exact .inr (.inr ⟨k', a, by simp, hk, rfl⟩)
      · exact .inr (.inl (List.mem_cons_of_mem _ h))
    · rcases List.mem_cons.1 h with rfl | h
      · exact .inr (.inl (by simp))
      · rcases mem_place h with h | h | ⟨k'', b, hb, hk, he⟩
        · exact .inl h
        · exact .inr (.inl (List.mem_cons_of_mem _ h))
        · exact .inr (.inr ⟨k'', b, List.mem_cons_of_mem _ hb, hk, he⟩)

theorem mem_keys_place [Std.LawfulEqOrd κ] {k k' : κ} (f : Option α → α) :
    ∀ es : List (κ × α), k' ∈ (place k f es).map (·.1) ↔ k' = k ∨ k' ∈ es.map (·.1)
  | [] => by simp [place]
  | (k'', a) :: es => by
    simp only [place]
    split
    · simp
    · rename_i h
      obtain rfl := Std.compare_eq_iff_eq.1 h
      simp
    · simp only [List.map_cons, List.mem_cons, mem_keys_place f es]
      exact or_left_comm

theorem mem_keys_alter [Std.LawfulEqOrd κ] {m : SortedMap κ α} {k k' : κ} {f : Option α → α} :
    k' ∈ (m.alter k f).keys ↔ k' = k ∨ k' ∈ m.keys :=
  mem_keys_place f m.entries

theorem isSome_lookup_iff [Std.LawfulEqOrd κ] {k : κ} {es : List (κ × α)} :
    (lookup k es).isSome = true ↔ k ∈ es.map (·.1) := by
  induction es with
  | nil => simp [lookup]
  | cons e es ih =>
    by_cases hk : k = e.1
    · simp [lookup, hk]
    · simp [lookup, hk, ih]

theorem contains_alter_iff [Std.LawfulEqOrd κ] {m : SortedMap κ α} {k k' : κ} {f : Option α → α} :
    (m.alter k f).contains k' = true ↔ k' = k ∨ m.contains k' = true := by
  simp only [contains, get?, isSome_lookup_iff]
  exact mem_keys_alter

section Fold

variable {β : Type} {key : β → κ} {f : β → Option α → α}

/-- What holds of the entries, and of whatever takes their places, holds of all entries when keys were
altered one after the other. -/
theorem forall_mem_foldl_alter [Std.LawfulEqOrd κ] {P : κ × α → Prop} {m : SortedMap κ α} {xs : List β}
    (hm : ∀ e ∈ m.entries, P e) (hnew : ∀ x ∈ xs, P (key x, f x none))
    (hold : ∀ x ∈ xs, ∀ a, P (key x, a) → P (key x, f x (some a))) :
    ∀ e ∈ (xs.foldl (fun m x => m.alter (key x) (f x)) m).entries, P e := by
  induction xs generalizing m with
  | nil => exact hm
  | cons x xs ih =>
    refine ih (fun e he => ?_) (fun y hy => hnew y (by simp [hy])) fun y hy => hold y (by simp [hy])
    rcases mem_place he with rfl | he | ⟨k, a, ha, hk, rfl⟩
    · exact hnew x (by simp)
    · exact hm e he
    · obtain rfl := Std.compare_eq_iff_eq.1 hk
      exact hold x (by simp) a (hm _ ha)

theorem mem_keys_foldl_alter [Std.LawfulEqOrd κ] {m : SortedMap κ α} {xs : List β} {k : κ} :
    k ∈ (xs.foldl (fun m x => m.alter (key x) (f x)) m).keys ↔ k ∈ m.keys ∨ ∃ x ∈ xs, key x = k := by
  induction xs generalizing m with
  | nil => simp
  | cons x xs ih =>
    rw [List.foldl_cons, ih, mem_keys_alter]
    simp only [List.mem_cons, exists_eq_or_imp, eq_comm (a := k), or_assoc, or_left_comm]

end Fold

/-! ## Order -/

/-- The keys are strictly increasing. -/
def Sorted (m : SortedMap κ α) : Prop := m.entries.Pairwise fun a b => compare a.1 b.1 = .lt

theorem sorted_empty : (∅ : SortedMap κ α).Sorted := List.Pairwise.nil

theorem Sorted.filter {m : SortedMap κ α} (h : m.Sorted) (p : κ → α → Bool) : (m.filter p).Sorted :=
  List.Pairwise.filter _ h

/-- A key that comes before all keys is none of them. -/
theorem lookup_of_lt {k : κ} : ∀ {es : List (κ × α)}, (∀ e ∈ es, compare k e.1 = .lt) → lookup k es = none
  | [], _ => rfl
  | e :: es, h => by
    simp only [lookup, h e (by simp), reduceCtorEq, if_false]
    exact lookup_of_lt fun e' he' => h e' (by simp [he'])

theorem Sorted.nodup_keys [Std.LawfulEqOrd κ] {m : SortedMap κ α} (h : m.Sorted) : m.keys.Nodup := by
  refine List.pairwise_map.2 (List.Pairwise.imp ?_ h)
  intro a b hlt heq
  simp [heq] at hlt

theorem lookup_of_mem [Std.LawfulEqOrd κ] {k : κ} {a : α} : ∀ {es : List (κ × α)},
    es.Pairwise (fun a b => compare a.1 b.1 = .lt) → (k, a) ∈ es → lookup k es = some a
  | (k', b) :: es, h, hmem => by
    cases hmem with
    | head => simp [lookup]
    | tail _ hmem =>
      have hlt : compare k' k = .lt := List.rel_of_pairwise_cons h hmem
      have hne : compare k k' ≠ .eq := fun heq => by simp [Std.compare_eq_iff_eq.1 heq] at hlt
      rw [lookup, if_neg hne]
      exact lookup_of_mem h.of_cons hmem

theorem Sorted.get?_of_mem [Std.LawfulEqOrd κ] {m : SortedMap κ α} (h : m.Sorted) {e : κ × α} (he : e ∈ m.entries) :
    m.get? e.1 = some e.2 :=
  lookup_of_mem h he

section Keyed

variable [Std.LawfulEqOrd κ] [DecidableEq κ] {key : α → κ} {m : SortedMap κ α}

theorem filter_of_lookup {k : κ} : ∀ {es : List (κ × α)}, es.Pairwise (fun a b => compare a.1 b.1 = .lt) →
    (∀ e ∈ es, key e.2 = e.1) → (es.map (·.2)).filter (key · = k) = (lookup k es).toList
  | [], _, _ => rfl
  | (k', a) :: es, h, hkeyed => by
    have hrest := filter_of_lookup (k := k) h.of_cons fun e he => hkeyed e (by simp [he])
    have hkey : key a = k' := hkeyed (k', a) (by simp)
    rw [List.map_cons, List.filter_cons, hrest]
    by_cases hk : k' = k
    · subst hk
      rw [lookup_of_lt fun e he => List.rel_of_pairwise_cons h he]
      simp [hkey, lookup]
    · simp [hkey, hk, lookup, Ne.symm hk]

variable (h : m.Sorted) (hkeyed : ∀ k a, m.get? k = some a → key a = k)

include h hkeyed

/-- The values of a key are the one it has, if it has one. -/
theorem Sorted.filter_values (k : κ) : m.values.filter (key · = k) = (m.get? k).toList :=
  filter_of_lookup h fun _ he => hkeyed _ _ (h.get?_of_mem he)

theorem Sorted.mem_values {a : α} : a ∈ m.values ↔ m.get? (key a) = some a := by
  rw [← Option.mem_toList, ← h.filter_values hkeyed, List.mem_filter]
  simp

omit [DecidableEq κ] in
/-- Values are listed in the order of their keys. -/
theorem Sorted.pairwise_values : m.values.Pairwise fun a b => compare (key a) (key b) = .lt := by
  refine List.pairwise_map.2 (List.Pairwise.imp_of_mem (fun ha hb hlt => ?_) h)
  rw [hkeyed _ _ (h.get?_of_mem ha), hkeyed _ _ (h.get?_of_mem hb)]
  exact hlt

end Keyed

variable [Std.LawfulEqOrd κ] [Std.TransOrd κ]

theorem pairwise_place {k : κ} {f : Option α → α} : ∀ {es : List (κ × α)},
    es.Pairwise (fun a b => compare a.1 b.1 = .lt) →
      (place k f es).Pairwise fun a b => compare a.1 b.1 = .lt
  | [], _ => by simp [place]
  | (k', a) :: es, h => by
    have htail : ∀ e ∈ es, compare k' e.1 = .lt := fun e he => List.rel_of_pairwise_cons h he
    simp only [place]
    split
    · rename_i hk
      refine List.pairwise_cons.2 ⟨fun e he => ?_, h⟩
      rcases List.mem_cons.1 he with rfl | he
      · exact hk
      · exact Std.TransCmp.lt_trans hk (htail e he)
    · exact List.pairwise_cons.2 ⟨htail, h.of_cons⟩
    · rename_i hk
      refine List.pairwise_cons.2 ⟨fun e he => ?_, pairwise_place h.of_cons⟩
      -- the key of an entry of the rest is `k` or was there before
      have hkeys := (mem_keys_place f es).1 (List.mem_map_of_mem he)
      rcases hkeys with heq | hold
      · rw [heq]
        exact Std.OrientedCmp.lt_of_gt hk
      · obtain ⟨e', he', heq⟩ := List.mem_map.1 hold
        rw [← heq]
        exact htail e' he'

theorem Sorted.alter {m : SortedMap κ α} (h : m.Sorted) (k : κ) (f : Option α → α) : (m.alter k f).Sorted :=
  pairwise_place h

theorem Sorted.foldl_alter {β : Type} {key : β → κ} {f : β → Option α → α} {m : SortedMap κ α} (h : m.Sorted)
    (xs : List β) : (xs.foldl (fun m x => m.alter (key x) (f x)) m).Sorted := by
  induction xs generalizing m with
  | nil => exact h
  | cons x xs ih => exact ih (h.alter _ _)

theorem lookup_place_self {k : κ} {f : Option α → α} : ∀ {es : List (κ × α)},
    es.Pairwise (fun a b => compare a.1 b.1 = .lt) → lookup k (place k f es) = some (f (lookup k es))
  | [], _ => by simp [place, lookup]
  | (k', a) :: es, h => by
    simp only [place]
    split
    · rename_i hk
      have hnone : lookup k ((k', a) :: es) = none := by
        refine lookup_of_lt fun e he => ?_
        rcases List.mem_cons.1 he with rfl | he
        · exact hk
        · exact Std.TransCmp.lt_trans hk (List.rel_of_pairwise_cons h he)
      rw [hnone]
      simp [lookup]
    · rename_i hk
      simp [lookup, hk]
    · rename_i hk
      simp only [lookup, hk, reduceCtorEq, if_false]
      exact lookup_place_self h.of_cons

theorem Sorted.get?_alter_self {m : SortedMap κ α} (h : m.Sorted) (k : κ) (f : Option α → α) :
    (m.alter k f).get? k = some (f (m.get? k)) :=
  lookup_place_self h

theorem Sorted.get?_alter [DecidableEq κ] {m : SortedMap κ α} (h : m.Sorted) (k : κ) (f : Option α → α) (k' : κ) :
    (m.alter k f).get? k' = if k' = k then some (f (m.get? k)) else m.get? k' := by
  split
  · rename_i hk
    rw [hk, h.get?_alter_self]
  · rename_i hk
    exact m.get?_alter_other f hk

theorem eq_of_lookup_eq : ∀ {es fs : List (κ × α)}, es.Pairwise (fun a b => compare a.1 b.1 = .lt) →
    fs.Pairwise (fun a b => compare a.1 b.1 = .lt) → (∀ k, lookup k es = lookup k fs) → es = fs
  | [], [], _, _, _ => rfl
  | [], (k, a) :: fs, _, _, h => by simpa [lookup] using h k
  | (k, a) :: es, [], _, _, h => by simpa [lookup] using h k
  | (k, a) :: es, (k', a') :: fs, hes, hfs, h => by
    have hes' : ∀ e ∈ es, compare k e.1 = .lt := fun e he => List.rel_of_pairwise_cons hes he
    have hfs' : ∀ e ∈ fs, compare k' e.1 = .lt := fun e he => List.rel_of_pairwise_cons hfs he
    have hk := h k
    have hk' := h k'
    simp only [lookup, Std.ReflCmp.compare_self, if_true] at hk hk'
    -- the first keys are the same, since each is found in the other list and comes first in its own
    cases hcompare : compare k k' with
    | lt =>
      rw [hcompare, if_neg (by simp), lookup_of_lt fun e he => Std.TransCmp.lt_trans hcompare (hfs' e he)] at hk
      simp at hk
    | gt =>
      have hlt : compare k' k = .lt := Std.OrientedCmp.lt_of_gt hcompare
      rw [hlt, if_neg (by simp), lookup_of_lt fun e he => Std.TransCmp.lt_trans hlt (hes' e he)] at hk'
      simp at hk'
    | eq =>
      obtain rfl := Std.compare_eq_iff_eq.1 hcompare
      simp only [Std.ReflCmp.compare_self, if_true, Option.some.injEq] at hk
      subst hk
      congr 1
      refine eq_of_lookup_eq hes.of_cons hfs.of_cons fun x => ?_
      by_cases hx : x = k
      · rw [hx, lookup_of_lt hes', lookup_of_lt hfs']
      · simpa [lookup, hx] using h x

/-- **Maps in order that agree on every key are the same map.** -/
theorem Sorted.ext {m m' : SortedMap κ α} (h : m.Sorted) (h' : m'.Sorted) (hget : ∀ k, m.get? k = m'.get? k) :
    m = m' := by
  obtain ⟨es⟩ := m
  obtain ⟨fs⟩ := m'
  exact congrArg mk (eq_of_lookup_eq h h' hget)

end SortedMap

end Coupling
