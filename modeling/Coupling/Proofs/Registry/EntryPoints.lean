/-
Which types are entry points.

Entry points derive from roots. A type that is chosen by its name is a root, unless
it is an interface: then the types are roots that declare it, or declare an
interface that stands for it through any number of others (`IsRoot`). Both searches
end whatever circles there are, and where no two definitions share a key they lose
and repeat none, so the entry points are the concrete types that derive from roots
(`mem_entryPointsWhere`).
-/
import Coupling.Proofs.Registry.Declarations
import Coupling.Proofs.Registry.Inheritance

open Relation (ReflTransGen)

namespace Coupling

/-! ## Sets of types -/

namespace TypeSet

/-- Of the types of a key the set has the one it had, or else the first that was added. -/
theorem get?_foldl_add {s : TypeSet} (hs : s.Sorted) (ds : List TypeDef) (k : TypeKey) :
    (ds.foldl add s).get? k = (s.get? k).or (ds.find? (·.key = k)) := by
  induction ds generalizing s with
  | nil => simp
  | cons d ds ih =>
    have hadded : (s.add d).Sorted := hs.alter _ _
    rw [List.foldl_cons, ih hadded, get?_add hs, List.find?_cons]
    by_cases hk : d.key = k
    · subst hk
      cases s.get? d.key <;> simp
    · simp [hk, Ne.symm hk]

theorem mem_values_foldl_add {ds : List TypeDef} (hdistinct : ∀ d ∈ ds, ∀ e ∈ ds, d.key = e.key → d = e)
    {d : TypeDef} : d ∈ (ds.foldl add ∅).values ↔ d ∈ ds := by
  have hget (k : TypeKey) : (ds.foldl add ∅).get? k = ds.find? (·.key = k) := by
    rw [get?_foldl_add SortedMap.sorted_empty]
    rfl
  have hsorted : (ds.foldl add ∅).Sorted := SortedMap.Sorted.foldl_alter SortedMap.sorted_empty ds
  have hkeyed (k : TypeKey) (e : TypeDef) (he : (ds.foldl add ∅).get? k = some e) : e.key = k := by
    rw [hget] at he
    simpa using List.find?_some he
  rw [hsorted.mem_values hkeyed, hget]
  constructor
  · exact List.mem_of_find?_eq_some
  · intro hd
    cases hfound : ds.find? (·.key = d.key) with
    | none => exact absurd (List.find?_eq_none.1 hfound d hd) (by simp)
    | some e =>
      have hkey : e.key = d.key := by simpa using List.find?_some hfound
      rw [hdistinct e (List.mem_of_find?_eq_some hfound) d hd hkey]

end TypeSet

namespace Registry

variable {g : Registry} {ds : List TypeDef}

/-! ## Roots -/

/-- One interface is declared by the other. -/
def Extends (g : Registry) (i j : TypeDef) : Prop := j ∈ g.implementersOf i.key ∧ j.isInterface = true

/-- One type is the base of the other. -/
def Derives (g : Registry) (b d : TypeDef) : Prop := d ∈ g.derivedFrom b.key

/-- What entry points derive from: a type that is chosen, or one that declares an interface below one that is chosen. -/
inductive IsRoot (g : Registry) (chosen : String → Prop) : TypeDef → Prop
  | named {d : TypeDef} (hd : d ∈ g.types) (hchosen : chosen d.fullName) (hclass : d.isInterface = false) :
      IsRoot g chosen d
  | below {i j d : TypeDef} (hi : i ∈ g.types) (hchosen : chosen i.fullName) (hinterface : i.isInterface = true)
      (hway : ReflTransGen g.Extends i j) (hd : d ∈ g.implementersOf j.key) (hclass : d.isInterface = false) :
      IsRoot g chosen d

/-- A concrete type that derives from a root, in any number of steps. -/
structure IsEntryPoint (g : Registry) (chosen : String → Prop) (t : TypeDef) : Prop where
  isClass : t.isInterface = false
  isWhole : t.isAbstract = false
  derives : ∃ r, g.IsRoot chosen r ∧ ReflTransGen g.Derives r t

namespace Indexes

theorem mem_of_mem_types (h : g.Indexes ds) {d : TypeDef} (hd : d ∈ g.types) : d ∈ ds := (h.types.mem d).1 hd

theorem mem_of_mem_derivedFrom (h : g.Indexes ds) {k : TypeKey} {d : TypeDef} (hd : d ∈ g.derivedFrom k) : d ∈ ds :=
  (((h.derived k).mem d).1 hd).1

theorem mem_of_mem_implementersOf (h : g.Indexes ds) {k : TypeKey} {d : TypeDef} (hd : d ∈ g.implementersOf k) :
    d ∈ ds :=
  (((h.implementers k).mem d).1 hd).1

/-- A search among types of the registry lists what ways of any length lead to. -/
theorem mem_search (h : g.Indexes ds) {next : TypeDef → List TypeDef} {starts found : List TypeDef}
    (hends : Search.Ends TypeDef.key next starts found) (hnext : ∀ d, ∀ e ∈ next d, e ∈ ds)
    (hstarts : ∀ d ∈ starts, d ∈ ds) {t : TypeDef} :
    t ∈ found ↔ ∃ d ∈ starts, ReflTransGen (fun d e => e ∈ next d) d t :=
  hends.mem_iff (P := (· ∈ ds)) (fun d e _ he => hnext d e he) hstarts fun d e hd he => h.distinct d hd e he

/-- **What derives from types of the registry**, in any number of steps. -/
theorem mem_inheritedFrom (h : g.Indexes ds) {bases : List TypeDef} (hbases : ∀ b ∈ bases, b ∈ ds) {t : TypeDef} :
    t ∈ g.inheritedFrom bases ↔ ∃ b ∈ bases, ReflTransGen g.Derives b t :=
  h.mem_search (g.inheritedFrom_ends bases) (fun _ _ hd => h.mem_of_mem_derivedFrom hd) hbases

end Indexes

/-- Where the search for implementers goes on to. -/
def below (g : Registry) (d : TypeDef) : List TypeDef := if d.isInterface then g.implementersOf d.key else []

theorem mem_below {d e : TypeDef} : e ∈ g.below d ↔ d.isInterface = true ∧ e ∈ g.implementersOf d.key := by
  unfold below
  cases d.isInterface <;> simp

/-- All but the last of the types on the way are interfaces. -/
theorem reflTransGen_extends {i j : TypeDef} (hway : ReflTransGen (fun d e => e ∈ g.below d) i j)
    (hj : j.isInterface = true) : ReflTransGen g.Extends i j := by
  induction hway with
  | refl => exact .refl
  | tail _ hstep ih =>
    obtain ⟨hd, he⟩ := mem_below.1 hstep
    exact (ih hd).tail ⟨he, hj⟩

theorem reflTransGen_below {i j : TypeDef} (hi : i.isInterface = true) (hway : ReflTransGen g.Extends i j) :
    j.isInterface = true ∧ ReflTransGen (fun d e => e ∈ g.below d) i j := by
  induction hway with
  | refl => exact ⟨hi, .refl⟩
  | tail _ hstep ih => exact ⟨hstep.2, ih.2.tail (mem_below.2 ⟨ih.1, hstep.1⟩)⟩

theorem implementersBelow_eq (g : Registry) (i : TypeDef) :
    g.implementersBelow i = (Search.breadthFirst TypeDef.key g.below (1 + entryCount g.index.interfaces) [i]).filter
      (!·.isInterface) :=
  rfl

theorem below_ends (g : Registry) (i : TypeDef) :
    Search.Ends TypeDef.key g.below [i]
      (Search.breadthFirst TypeDef.key g.below (1 + entryCount g.index.interfaces) [i]) := by
  refine TypeFile.search_ends g.index.interfaces (fun d e he => ?_) [i]
  have hfiled := (mem_below.1 he).2
  rw [implementersOf_eq_under] at hfiled
  exact TypeFile.mem_filed_of_mem_under hfiled

/-- **The implementers of an interface**: the types, no interfaces, that declare it or one below it. -/
theorem Indexes.mem_implementersBelow (h : g.Indexes ds) {i d : TypeDef} (hi : i ∈ ds)
    (hinterface : i.isInterface = true) :
    d ∈ g.implementersBelow i ↔
      d.isInterface = false ∧ ∃ j, ReflTransGen g.Extends i j ∧ d ∈ g.implementersOf j.key := by
  have hreached {e : TypeDef} : e ∈ Search.breadthFirst TypeDef.key g.below (1 + entryCount g.index.interfaces) [i] ↔
      ReflTransGen (fun d e => e ∈ g.below d) i e := by
    rw [h.mem_search (g.below_ends i) (fun _ _ he => h.mem_of_mem_implementersOf (mem_below.1 he).2)
      (by simpa using hi)]
    simp
  have hlisted : d ∈ g.implementersBelow i ↔
      ReflTransGen (fun d e => e ∈ g.below d) i d ∧ d.isInterface = false := by
    rw [implementersBelow_eq, List.mem_filter, hreached]
    simp
  rw [hlisted, and_comm]
  refine and_congr_right fun hclass => ⟨fun hway => ?_, ?_⟩
  · -- the way is not empty, since it leads from an interface to a type that is none
    rcases hway.cases_tail with rfl | ⟨j, hway, hstep⟩
    · rw [hinterface] at hclass
      cases hclass
    · obtain ⟨hj, hd⟩ := mem_below.1 hstep
      exact ⟨j, reflTransGen_extends hway hj, hd⟩
  · rintro ⟨j, hway, hd⟩
    obtain ⟨hj, hway⟩ := reflTransGen_below hinterface hway
    exact hway.tail (mem_below.2 ⟨hj, hd⟩)

/-- The roots of types that are chosen by name. -/
theorem Indexes.isRoot_iff (h : g.Indexes ds) {chosen : String → Prop} {r : TypeDef} :
    g.IsRoot chosen r ↔ ∃ d ∈ g.types, chosen d.fullName ∧ r ∈ g.rootsOf d := by
  constructor
  · rintro (⟨hd, hchosen, hclass⟩ | ⟨hi, hchosen, hinterface, hway, hd, hclass⟩)
    · exact ⟨r, hd, hchosen, by simp [rootsOf, hclass]⟩
    · refine ⟨_, hi, hchosen, ?_⟩
      rw [rootsOf, if_pos hinterface, h.mem_implementersBelow (h.mem_of_mem_types hi) hinterface]
      exact ⟨hclass, _, hway, hd⟩
  · rintro ⟨d, hd, hchosen, hr⟩
    cases hinterface : d.isInterface with
    | true =>
      rw [rootsOf, if_pos hinterface, h.mem_implementersBelow (h.mem_of_mem_types hd) hinterface] at hr
      obtain ⟨hclass, j, hway, hr⟩ := hr
      exact .below hd hchosen hinterface hway hr hclass
    | false =>
      rw [rootsOf, if_neg (by simp [hinterface]), List.mem_singleton] at hr
      subst hr
      exact .named hd hchosen hinterface

theorem Indexes.mem_of_isRoot (h : g.Indexes ds) {chosen : String → Prop} {r : TypeDef} (hr : g.IsRoot chosen r) :
    r ∈ ds := by
  cases hr with
  | named hd => exact h.mem_of_mem_types hd
  | below _ _ _ _ hd => exact h.mem_of_mem_implementersOf hd

/-! ## Entry points -/

/-- **The entry points of types that are chosen.** -/
theorem Indexes.mem_entryPointsWhere (h : g.Indexes ds) {chosen : String → Bool} {t : TypeDef} :
    t ∈ g.entryPointsWhere chosen ↔ g.IsEntryPoint (chosen · = true) t := by
  have hroots {r : TypeDef} : r ∈ (g.types.filter fun d => chosen d.fullName).flatMap g.rootsOf ↔
      g.IsRoot (chosen · = true) r := by
    rw [h.isRoot_iff, List.mem_flatMap]
    simp only [List.mem_filter, and_assoc]
  have hset {r : TypeDef} :
      r ∈ (((g.types.filter fun d => chosen d.fullName).flatMap g.rootsOf).foldl TypeSet.add ∅).values ↔
        g.IsRoot (chosen · = true) r := by
    rw [TypeSet.mem_values_foldl_add fun d hd e he => ?_, hroots]
    exact h.distinct d (h.mem_of_isRoot (hroots.1 hd)) e (h.mem_of_isRoot (hroots.1 he))
  rw [entryPointsWhere, List.mem_filter, h.mem_inheritedFrom fun r hr => h.mem_of_isRoot (hset.1 hr)]
  simp only [hset, TypeDef.isConcrete, Bool.and_eq_true, Bool.not_eq_true']
  constructor
  · rintro ⟨hderives, hclass, hwhole⟩
    exact ⟨hclass, hwhole, hderives⟩
  · exact fun ht => ⟨ht.derives, ht.isClass, ht.isWhole⟩

theorem nodup_keys_entryPointsWhere (g : Registry) (chosen : String → Bool) :
    ((g.entryPointsWhere chosen).map TypeDef.key).Nodup :=
  (g.inheritedFrom_ends _).nodup.sublist (List.filter_sublist.map _)

theorem IsRoot.mono {p q : String → Prop} (hpq : ∀ name, p name → q name) {r : TypeDef} (hr : g.IsRoot p r) :
    g.IsRoot q r := by
  cases hr with
  | named hd hchosen hclass => exact .named hd (hpq _ hchosen) hclass
  | below hi hchosen hinterface hway hd hclass => exact .below hi (hpq _ hchosen) hinterface hway hd hclass

theorem isRoot_or {p q : String → Prop} {r : TypeDef} :
    g.IsRoot (fun name => p name ∨ q name) r ↔ g.IsRoot p r ∨ g.IsRoot q r := by
  constructor
  · rintro (⟨hd, hp | hq, hclass⟩ | ⟨hi, hp | hq, hinterface, hway, hd, hclass⟩)
    · exact .inl (.named hd hp hclass)
    · exact .inr (.named hd hq hclass)
    · exact .inl (.below hi hp hinterface hway hd hclass)
    · exact .inr (.below hi hq hinterface hway hd hclass)
  · rintro (hr | hr)
    · exact hr.mono fun _ => .inl
    · exact hr.mono fun _ => .inr

theorem isEntryPoint_or {p q : String → Prop} {t : TypeDef} :
    g.IsEntryPoint (fun name => p name ∨ q name) t ↔ g.IsEntryPoint p t ∨ g.IsEntryPoint q t := by
  constructor
  · rintro ⟨hclass, hwhole, r, hr, hderives⟩
    exact (isRoot_or.1 hr).imp (fun hp => ⟨hclass, hwhole, r, hp, hderives⟩)
      fun hq => ⟨hclass, hwhole, r, hq, hderives⟩
  · rintro (⟨hclass, hwhole, r, hr, hderives⟩ | ⟨hclass, hwhole, r, hr, hderives⟩)
    · exact ⟨hclass, hwhole, r, isRoot_or.2 (.inl hr), hderives⟩
    · exact ⟨hclass, hwhole, r, isRoot_or.2 (.inr hr), hderives⟩

theorem entryPoints_of_compiled (g : Registry) {patterns : List String} {rs : List Regex}
    (hcompiled : patterns.mapM Regex.compile = .ok rs) :
    g.entryPoints patterns = .ok (g.entryPointsWhere fun name => rs.any (·.isMatch name)) := by
  rw [entryPoints, hcompiled]
  rfl

/-- **The entry points that patterns give, where no two definitions share a key**: the concrete types that derive
from roots, each once. Two lists of patterns together give what one of them gives. -/
theorem entryPoints_exact (h : g.Indexes ds) {patterns : List String} {rs : List Regex}
    (hcompiled : patterns.mapM Regex.compile = .ok rs) :
    ∃ found, g.entryPoints patterns = .ok found ∧ (found.map TypeDef.key).Nodup ∧
      (∀ t, t ∈ found ↔ g.IsEntryPoint (fun name => ∃ r ∈ rs, r.isMatch name = true) t) ∧
      ∀ (more : List String) (ms : List Regex), more.mapM Regex.compile = .ok ms →
        ∃ others all, g.entryPoints more = .ok others ∧ g.entryPoints (patterns ++ more) = .ok all ∧
          ∀ t, t ∈ all ↔ t ∈ found ∨ t ∈ others := by
  refine ⟨_, g.entryPoints_of_compiled hcompiled, g.nodup_keys_entryPointsWhere _, fun t => ?_, fun more ms hmore => ?_⟩
  · simp only [h.mem_entryPointsWhere, List.any_eq_true]
  · have happend : (patterns ++ more).mapM Regex.compile = .ok (rs ++ ms) := by
      rw [List.mapM_append, hcompiled, hmore]
      rfl
    refine ⟨_, _, g.entryPoints_of_compiled hmore, g.entryPoints_of_compiled happend, fun t => ?_⟩
    simp only [h.mem_entryPointsWhere, List.any_append, Bool.or_eq_true, isEntryPoint_or]

/-! Two interfaces that declare each other, and two classes that derive from each other. -/

def port : TypeDef :=
  (TypeDef.newInterface "Harbour" "Port" "Harbour").addInterface (.plain "Harbour" "Dock" "Harbour")

def dock : TypeDef := (TypeDef.newInterface "Harbour" "Dock" "Harbour").addInterface port.reference

def pier : TypeDef := (TypeDef.newClass "Harbour" "Pier" "Harbour").setBase (.plain "Harbour" "Quay" "Harbour")

/-- Declares the port only through the dock, and is itself not whole. -/
def quay : TypeDef :=
  (((TypeDef.newClass "Harbour" "Quay" "Harbour").addInterface dock.reference).setBase pier.reference).addFlags
    TypeAttributes.isAbstract

def ship : TypeDef := TypeDef.newClass "Harbour" "Ship" "Harbour"

def harbour : Module := { name := "Harbour", types := [port, dock, pier, quay, ship] }

theorem entryPoints_exact_harbour :
    let g := empty.changeAll [.add harbour]
    let ports : List Regex := [.literal ['P', 'o', 'r', 't']]
    g.Indexes [port, dock, pier, quay, ship] ∧ ["Port"].mapM Regex.compile = .ok ports ∧
      ∃ found others all, g.entryPoints ["Port"] = .ok found ∧ g.entryPoints ["Ship"] = .ok others ∧
        g.entryPoints ["Port", "Ship"] = .ok all ∧ found.map TypeDef.fullName = ["Harbour.Pier"] ∧
        (∀ t, t ∈ found ↔ g.IsEntryPoint (fun name => ∃ r ∈ ports, r.isMatch name = true) t) ∧
        ∀ t, t ∈ all ↔ t ∈ found ∨ t ∈ others := by
  intro g ports
  have hindexes : g.Indexes [port, dock, pier, quay, ship] := changeAll_indexes [.add harbour] (by decide +kernel)
  have hports : ["Port"].mapM Regex.compile = .ok ports := by rfl
  have hships : ["Ship"].mapM Regex.compile = .ok [.literal ['S', 'h', 'i', 'p']] := by rfl
  have hnames : (g.entryPoints ["Port"]).toOption.map (·.map TypeDef.fullName) = some ["Harbour.Pier"] := by
    decide +kernel
  obtain ⟨found, hfound, -, hmem, hunion⟩ := entryPoints_exact hindexes hports
  obtain ⟨others, all, hothers, hall, hboth⟩ := hunion ["Ship"] _ hships
  rw [hfound] at hnames
  exact ⟨hindexes, hports, found, others, all, hfound, hothers, hall, Option.some.inj hnames, hmem, hboth⟩

end Registry

end Coupling
