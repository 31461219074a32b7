/-
What breadth-first search finds.

`Search.unmet` picks out of a list the first element of each key that is new.
What it picks and the keys it leaves are told here for one list and for lists
one after the other, whose keys are picked in the order of the lists
(`pairwise_unmet_flatMap`). `WorksOff` is the search without a bound on its steps: a
queue is worked off when it is empty at last. What is listed then comes in the
order of the queue, has no key twice, and has the keys of all neighbours of what
is listed. A search that may take as many steps as there are keys to be met works
off its queue (`breadthFirst_ends`). Where elements of one key are one element,
it finds what ways of any length lead to (`Ends.mem_iff`).
-/
import Coupling.Search
import Mathlib.Data.List.Nodup
import Mathlib.Data.List.Perm.Subperm
import Mathlib.Logic.Relation

namespace Coupling.Search

variable {α κ : Type} [BEq κ] {key : α → κ}

theorem unmet_append (met : List κ) (xs ys : List α) :
    unmet key met (xs ++ ys) =
      ((unmet key met xs).1 ++ (unmet key (unmet key met xs).2 ys).1, (unmet key (unmet key met xs).2 ys).2) := by
  induction xs generalizing met with
  | nil => rfl
  | cons x xs ih =>
    simp only [List.cons_append, unmet]
    split
    · exact ih met
    · simp only [ih, List.cons_append]

/-- The elements picked are elements. -/
theorem mem_of_mem_unmet {met : List κ} {xs : List α} {x : α} (hx : x ∈ (unmet key met xs).1) : x ∈ xs := by
  induction xs generalizing met with
  | nil => exact absurd hx List.not_mem_nil
  | cons y xs ih =>
    simp only [unmet] at hx
    split at hx
    · exact List.mem_cons_of_mem _ (ih hx)
    · rcases List.mem_cons.1 hx with rfl | hx
      · exact List.mem_cons_self
      · exact List.mem_cons_of_mem _ (ih hx)

/-- The keys met are those of the elements picked and those met before. -/
theorem unmet_snd_perm (met : List κ) (xs : List α) :
    (unmet key met xs).2.Perm (((unmet key met xs).1.map key) ++ met) := by
  induction xs generalizing met with
  | nil => exact .refl _
  | cons x xs ih =>
    simp only [unmet]
    split
    · exact ih met
    · exact (ih (key x :: met)).trans List.perm_middle

theorem unmet_nil_perm (xs : List α) : (unmet key [] xs).2.Perm ((unmet key [] xs).1.map key) := by
  simpa using unmet_snd_perm [] xs

variable [LawfulBEq κ]

/-- The keys met are those met before and those of all elements. -/
theorem mem_unmet_snd {met : List κ} {xs : List α} {k : κ} :
    k ∈ (unmet key met xs).2 ↔ k ∈ met ∨ ∃ x ∈ xs, key x = k := by
  induction xs generalizing met with
  | nil => simp [unmet]
  | cons x xs ih =>
    simp only [unmet]
    split
    · rename_i hmet
      rw [ih]
      constructor
      · rintro (h | ⟨y, hy, rfl⟩)
        · exact .inl h
        · exact .inr ⟨y, by simp [hy], rfl⟩
      · rintro (h | ⟨y, hy, rfl⟩)
        · exact .inl h
        · rcases List.mem_cons.1 hy with rfl | hy
          · exact .inl (by simpa using hmet)
          · exact .inr ⟨y, hy, rfl⟩
    · rw [ih]
      simp [or_assoc, or_left_comm, eq_comm]

theorem nodup_unmet_snd {met : List κ} (hmet : met.Nodup) (xs : List α) : (unmet key met xs).2.Nodup := by
  induction xs generalizing met with
  | nil => exact hmet
  | cons x xs ih =>
    simp only [unmet]
    split
    · exact ih hmet
    · rename_i hnew
      exact ih (List.nodup_cons.2 ⟨by simpa using hnew, hmet⟩)

/-- The elements picked have keys that were not met before. -/
theorem not_mem_of_mem_unmet {met : List κ} {xs : List α} {x : α} (hx : x ∈ (unmet key met xs).1) : key x ∉ met := by
  induction xs generalizing met with
  | nil => exact absurd hx List.not_mem_nil
  | cons y xs ih =>
    simp only [unmet] at hx
    split at hx
    · exact ih hx
    · rename_i hnew
      rcases List.mem_cons.1 hx with rfl | hx
      · simpa using hnew
      · exact fun hmet => ih hx (List.mem_cons_of_mem _ hmet)

/-- Of the keys picked from lists one after the other, one comes before another only if some list that has it comes
no later than any that has the other. -/
theorem pairwise_unmet_flatMap {β : Type} {f : β → List α} {R : β → β → Prop} {bs : List β} (hbs : bs.Pairwise R)
    (met : List κ) :
    ((unmet key met (bs.flatMap f)).1.map key).Pairwise fun k l =>
      ∀ b ∈ bs, (∃ y ∈ f b, key y = l) → ∃ a ∈ bs, (∃ x ∈ f a, key x = k) ∧ (a = b ∨ R a b) := by
  induction hbs generalizing met with
  | nil => exact .nil
  | @cons c bs hc _ ih =>
    have hfirst : ∀ k ∈ (unmet key met (f c)).1.map key, ∀ b ∈ c :: bs,
        ∃ a ∈ c :: bs, (∃ x ∈ f a, key x = k) ∧ (a = b ∨ R a b) := by
      intro k hk b hb
      obtain ⟨x, hx, rfl⟩ := List.mem_map.1 hk
      refine ⟨c, List.mem_cons_self, ⟨x, mem_of_mem_unmet hx, rfl⟩, ?_⟩
      exact (List.mem_cons.1 hb).imp Eq.symm (hc b)
    rw [List.flatMap_cons, unmet_append, List.map_append]
    refine List.pairwise_append.2 ⟨?_, ?_, fun k hk _ _ b hb _ => hfirst k hk b hb⟩
    · exact List.pairwise_of_forall_mem_list fun k hk _ _ b hb _ => hfirst k hk b hb
    · refine (ih _).imp_of_mem fun {k l} _ hl hlater b hb hbl => ?_
      rcases List.mem_cons.1 hb with rfl | hb
      · -- a key of the first list is met already, so it is not picked from the others
        obtain ⟨y, hy, rfl⟩ := List.mem_map.1 hl
        exact absurd (mem_unmet_snd.2 (.inr hbl)) (not_mem_of_mem_unmet hy)
      · obtain ⟨a, ha, hak, hab⟩ := hlater b hb hbl
        exact ⟨a, List.mem_cons_of_mem _ ha, hak, hab⟩

/-! ## Working off a queue -/

/-- A queue is worked off, in as many steps as it takes, and `found` is listed by then. -/
inductive WorksOff (key : α → κ) (next : α → List α) : List α → List κ → List α → Prop
  | done (met : List κ) : WorksOff key next [] met []
  | step {x : α} {queue found : List α} {met : List κ}
      (h : WorksOff key next (queue ++ (unmet key met (next x)).1) (unmet key met (next x)).2 found) :
      WorksOff key next (x :: queue) met (x :: found)

namespace WorksOff

variable {next : α → List α} {queue found : List α} {met : List κ}

omit [LawfulBEq κ] in
/-- What holds of the queue and passes to neighbours holds of all that is listed. -/
theorem sound (h : WorksOff key next queue met found) {P : α → Prop} (hnext : ∀ x y, P x → y ∈ next x → P y)
    (hqueue : ∀ x ∈ queue, P x) : ∀ x ∈ found, P x := by
  induction h with
  | done => simp
  | step _ ih =>
    obtain ⟨hx, hqueue⟩ := List.forall_mem_cons.1 hqueue
    refine List.forall_mem_cons.2 ⟨hx, ih fun y hy => ?_⟩
    rcases List.mem_append.1 hy with hy | hy
    · exact hqueue y hy
    · exact hnext _ y hx (mem_of_mem_unmet hy)

omit [LawfulBEq κ] in
/-- What is listed was in the queue or is a neighbour of something listed. -/
theorem origin (h : WorksOff key next queue met found) :
    ∀ y ∈ found, y ∈ queue ∨ ∃ x ∈ found, y ∈ next x := by
  induction h with
  | done => simp
  | @step x queue found met _ ih =>
    intro y hy
    rcases List.mem_cons.1 hy with rfl | hy
    · exact .inl List.mem_cons_self
    · rcases ih y hy with hy | ⟨z, hz, hy⟩
      · rcases List.mem_append.1 hy with hy | hy
        · exact .inl (List.mem_cons_of_mem _ hy)
        · exact .inr ⟨x, List.mem_cons_self, mem_of_mem_unmet hy⟩
      · exact .inr ⟨z, List.mem_cons_of_mem _ hz, hy⟩

/-- The queue is listed first, and after it keys that were not met before, each once. -/
theorem exists_later (h : WorksOff key next queue met found) :
    ∃ later, found = queue ++ later ∧ (met.Nodup → (later.map key ++ met).Nodup) := by
  induction h with
  | done met => exact ⟨[], rfl, id⟩
  | @step x queue found met _ ih =>
    obtain ⟨later, rfl, hlater⟩ := ih
    refine ⟨(unmet key met (next x)).1 ++ later, by simp, fun hmet => ?_⟩
    have hnodup := hlater (nodup_unmet_snd hmet (next x))
    have hperm : (unmet key met (next x)).2.Perm _ := unmet_snd_perm met (next x)
    rw [(hperm.append_left (later.map key)).nodup_iff, ← List.append_assoc] at hnodup
    rw [List.map_append]
    exact (List.perm_append_comm.append_right met).nodup_iff.1 hnodup

/-- The keys of all neighbours of what is listed were met or are listed. -/
theorem closed (h : WorksOff key next queue met found) :
    ∀ x ∈ found, ∀ y ∈ next x, key y ∈ met ∨ key y ∈ found.map key := by
  induction h with
  | done => simp
  | @step x queue found met h ih =>
    obtain ⟨later, hfound, -⟩ := h.exists_later
    -- a key met at this step was met before or is that of an element that waits in the queue
    have hnew : ∀ k ∈ (unmet key met (next x)).2, k ∈ met ∨ k ∈ (x :: found).map key := by
      intro k hk
      rcases List.mem_append.1 ((unmet_snd_perm met (next x)).mem_iff.1 hk) with hk | hk
      · obtain ⟨y, hy, rfl⟩ := List.mem_map.1 hk
        exact .inr (List.mem_map_of_mem (by simp [hfound, hy]))
      · exact .inl hk
    intro y hy z hz
    rcases List.mem_cons.1 hy with rfl | hy
    · exact hnew _ (mem_unmet_snd.2 (.inr ⟨z, hz, rfl⟩))
    · rcases ih y hy z hz with hk | hk
      · exact hnew _ hk
      · exact .inr (List.mem_cons_of_mem _ hk)

end WorksOff

/-- With a step for each key that is not worked off yet, the queue is worked off. -/
theorem run_worksOff {next : α → List α} {U : List κ} (hU : ∀ x, ∀ y ∈ next x, key y ∈ U) :
    ∀ (steps : Nat) (queue : List α) {met : List κ}, met.Nodup → met ⊆ U →
      U.length + queue.length ≤ steps + met.length → WorksOff key next queue met (run key next steps queue met)
  | 0, queue, met, hmet, hsub, hsteps => by
    have hle := (hmet.subperm hsub).length_le
    have hempty : queue = [] := List.length_eq_zero_iff.1 (by omega)
    simp only [hempty, run]
    exact .done met
  | _ + 1, [], met, _, _, _ => by
    simp only [run]
    exact .done met
  | steps + 1, x :: queue, met, hmet, hsub, hsteps => by
    have hperm : (unmet key met (next x)).2.Perm _ := unmet_snd_perm met (next x)
    have hlength := hperm.length_eq
    have hsub' : (unmet key met (next x)).2 ⊆ U := by
      intro k hk
      rcases mem_unmet_snd.1 hk with hk | ⟨y, hy, rfl⟩
      · exact hsub hk
      · exact hU x y hy
    rw [List.length_append, List.length_map] at hlength
    rw [List.length_cons] at hsteps
    refine .step (run_worksOff hU steps _ (nodup_unmet_snd hmet _) hsub' ?_)
    rw [List.length_append]
    omega

/-! ## Whole searches -/

/-- A search from starts comes to its end, in as many steps as it takes, and `found` is listed by then. -/
def Ends (key : α → κ) (next : α → List α) (starts found : List α) : Prop :=
  WorksOff key next (unmet key [] starts).1 (unmet key [] starts).2 found

/-- **A search ends** if it may take as many steps as there are keys to be met. -/
theorem breadthFirst_ends (key : α → κ) {next : α → List α} {U : List κ} {bound : Nat} {starts : List α}
    (hstarts : ∀ x ∈ starts, key x ∈ U) (hU : ∀ x, ∀ y ∈ next x, key y ∈ U) (hbound : U.length ≤ bound) :
    Ends key next starts (breadthFirst key next bound starts) := by
  have hperm : (unmet key [] starts).2.Perm _ := unmet_nil_perm starts
  have hlength := hperm.length_eq
  rw [List.length_map] at hlength
  refine run_worksOff hU bound _ (nodup_unmet_snd List.nodup_nil starts) (fun k hk => ?_) (by omega)
  rcases mem_unmet_snd.1 hk with hk | ⟨y, hy, rfl⟩
  · exact absurd hk List.not_mem_nil
  · exact hstarts y hy

namespace Ends

variable {next : α → List α} {starts found : List α}

omit [LawfulBEq κ] in
/-- What holds of the starts and passes to neighbours holds of all that is listed. -/
theorem sound (h : Ends key next starts found) {P : α → Prop} (hnext : ∀ x y, P x → y ∈ next x → P y)
    (hstarts : ∀ x ∈ starts, P x) : ∀ x ∈ found, P x :=
  WorksOff.sound h hnext fun x hx => hstarts x (mem_of_mem_unmet hx)

omit [LawfulBEq κ] in
/-- What is listed is a start or a neighbour of something listed. -/
theorem origin (h : Ends key next starts found) : ∀ y ∈ found, y ∈ starts ∨ ∃ x ∈ found, y ∈ next x :=
  fun y hy => (WorksOff.origin h y hy).imp_left mem_of_mem_unmet

/-- No key is listed twice. -/
theorem nodup (h : Ends key next starts found) : (found.map key).Nodup := by
  have hperm : (unmet key [] starts).2.Perm _ := unmet_nil_perm starts
  obtain ⟨later, rfl, hlater⟩ := WorksOff.exists_later h
  have hnodup := hlater (nodup_unmet_snd List.nodup_nil starts)
  rw [(hperm.append_left _).nodup_iff] at hnodup
  rw [List.map_append]
  exact List.perm_append_comm.nodup_iff.1 hnodup

/-- The keys of the starts are listed. -/
theorem starts_mem (h : Ends key next starts found) : ∀ x ∈ starts, key x ∈ found.map key := by
  intro x hx
  obtain ⟨later, rfl, -⟩ := WorksOff.exists_later h
  have hmet : key x ∈ (unmet key [] starts).2 := mem_unmet_snd.2 (.inr ⟨x, hx, rfl⟩)
  rw [(unmet_nil_perm starts).mem_iff] at hmet
  rw [List.map_append]
  exact List.mem_append_left _ hmet

/-- The keys of all neighbours of what is listed are listed. -/
theorem closed (h : Ends key next starts found) : ∀ x ∈ found, ∀ y ∈ next x, key y ∈ found.map key := by
  intro x hx y hy
  rcases WorksOff.closed h x hx y hy with hk | hk
  · rcases mem_unmet_snd.1 hk with hk | ⟨z, hz, hkey⟩
    · exact absurd hk List.not_mem_nil
    · rw [← hkey]
      exact h.starts_mem z hz
  · exact hk

/-- **A search lists what ways of any length lead to**, if what it can meet is told apart by keys. -/
theorem mem_iff (h : Ends key next starts found) {P : α → Prop} (hnext : ∀ x y, P x → y ∈ next x → P y)
    (hstarts : ∀ x ∈ starts, P x) (hinj : ∀ x y, P x → P y → key x = key y → x = y) {y : α} :
    y ∈ found ↔ ∃ x ∈ starts, Relation.ReflTransGen (fun a b => b ∈ next a) x y := by
  have hfound := h.sound hnext hstarts
  have hkey : ∀ x, P x → key x ∈ found.map key → x ∈ found := by
    intro x hx hk
    obtain ⟨z, hz, hsame⟩ := List.mem_map.1 hk
    exact hinj z x (hfound z hz) hx hsame ▸ hz
  constructor
  · refine h.sound (P := fun y => ∃ x ∈ starts, Relation.ReflTransGen _ x y) ?_ (fun x hx => ⟨x, hx, .refl⟩) y
    rintro a b ⟨x, hx, hway⟩ hb
    exact ⟨x, hx, hway.tail hb⟩
  · rintro ⟨x, hx, hway⟩
    induction hway with
    | refl => exact hkey x (hstarts x hx) (h.starts_mem x hx)
    | @tail a b _ hstep ih => exact hkey b (hnext a b (hfound a ih) hstep) (h.closed a ih b hstep)

/-- Where elements are their own keys, no more is needed. -/
theorem mem_iff_of_id {next : κ → List κ} {starts found : List κ} (h : Ends id next starts found) {y : κ} :
    y ∈ found ↔ ∃ x ∈ starts, Relation.ReflTransGen (fun a b => b ∈ next a) x y :=
  h.mem_iff (P := fun _ => True) (fun _ _ _ _ => trivial) (fun _ _ => trivial) fun _ _ _ _ heq => heq

end Ends

/-- Search over elements that are their own keys finds what ways of any length lead to. -/
theorem mem_breadthFirst {next : κ → List κ} {bound : Nat} {starts U : List κ} (hstarts : starts ⊆ U)
    (hU : ∀ x, next x ⊆ U) (hbound : U.length ≤ bound) {y : κ} :
    y ∈ breadthFirst id next bound starts ↔ ∃ x ∈ starts, Relation.ReflTransGen (fun a b => b ∈ next a) x y :=
  (breadthFirst_ends id (U := U) hstarts (fun x _ hy => hU x hy) hbound).mem_iff_of_id

end Coupling.Search
