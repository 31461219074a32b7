/-
The same modules with members in another order.

`Reordered` says that a definition has its interfaces, fields, methods and
nested types, and a method its parameters, in another order and is the same
otherwise. The definitions of reordered modules match one to one
(`allTypes_matched`), so where no two definitions of a module share a full name a
reference means matching definitions in both (`meaning_alike`), a method
reference is used the same way (`accessKind_alike`), an interface has
implementers of the same references (`implementers_alike`), and the same
references occur (`references_perm`).
-/
import Coupling.Proofs.Matched
import Coupling.Proofs.Nesting
import Coupling.Proofs.Registry.Contents

namespace Coupling

/-! ## Definitions in another order -/

/-- The method with its parameters in another order. -/
structure MethodDef.Reordered (m n : MethodDef) : Prop where
  same : n = { m with params := n.params }
  params : m.params.Perm n.params

namespace TypeDef

/-- The methods of a name and a number of parameters. -/
def overloads (d : TypeDef) (name : String) (arity : Nat) : List MethodDef :=
  (d.methods.filter (·.name = name)).filter (·.params.length = arity)

/-- A method of a type with its parameters in another order. The names of their types stay in order
unless the method is the only one of its name with as many parameters. -/
structure MethodReordered (d : TypeDef) (m n : MethodDef) : Prop extends m.Reordered n where
  names : m.paramNames = n.paramNames ∨ (d.overloads m.name m.params.length).length = 1

mutual

/-- The definition with its members, and those of the types nested in it, in another order. -/
def Reordered : TypeDef → TypeDef → Prop
  | d@{ nested := ds, .. }, e =>
    e = { d with interfaces := e.interfaces, nested := e.nested, fields := e.fields, methods := e.methods } ∧
      d.interfaces.Perm e.interfaces ∧ d.fields.Perm e.fields ∧
      Matched d.MethodReordered d.methods e.methods ∧ ∃ es, ReorderedAll ds es ∧ es.Perm e.nested

/-- Each definition with its members in another order. -/
def ReorderedAll : List TypeDef → List TypeDef → Prop
  | [], es => es = []
  | d :: ds, es => ∃ e rest, es = e :: rest ∧ d.Reordered e ∧ ReorderedAll ds rest

end

/-- Definitions with the same members in another order, where of nested types only the references count. -/
structure Alike (d e : TypeDef) : Prop where
  reference : e.reference = d.reference
  base : e.base = d.base
  attributes : e.attributes = d.attributes
  interfaces : d.interfaces.Perm e.interfaces
  fields : d.fields.Perm e.fields
  nested : (d.nested.map TypeDef.reference).Perm (e.nested.map TypeDef.reference)
  methods : Matched d.MethodReordered d.methods e.methods

theorem reordered_iff {d e : TypeDef} : d.Reordered e ↔
    e = { d with interfaces := e.interfaces, nested := e.nested, fields := e.fields, methods := e.methods } ∧
      d.interfaces.Perm e.interfaces ∧ d.fields.Perm e.fields ∧
      Matched d.MethodReordered d.methods e.methods ∧ ∃ es, ReorderedAll d.nested es ∧ es.Perm e.nested := by
  cases d
  simp only [Reordered]

theorem MethodReordered.refl (d : TypeDef) (m : MethodDef) : d.MethodReordered m m :=
  ⟨⟨rfl, .refl _⟩, .inl rfl⟩

mutual

/-- A definition is itself in another order. -/
theorem Reordered.refl : ∀ d : TypeDef, d.Reordered d
  | { nested := ds, .. } => by
    refine reordered_iff.2 ⟨rfl, .refl _, .refl _, .of_forall₂ ?_, ds, reorderedAll_refl ds, .refl _⟩
    exact List.forall₂_same.2 fun m _ => .refl _ m

theorem reorderedAll_refl : ∀ ds : List TypeDef, ReorderedAll ds ds
  | [] => rfl
  | d :: ds => ⟨d, ds, rfl, .refl d, reorderedAll_refl ds⟩

end

theorem Reordered.reference_eq {d e : TypeDef} (h : d.Reordered e) : e.reference = d.reference := by
  rw [(reordered_iff.1 h).1]
  rfl

theorem map_reference_of_reorderedAll {ds es : List TypeDef} (h : ReorderedAll ds es) :
    es.map TypeDef.reference = ds.map TypeDef.reference := by
  induction ds generalizing es with
  | nil =>
    simp only [ReorderedAll] at h
    rw [h]
  | cons d ds ih =>
    simp only [ReorderedAll] at h
    obtain ⟨e, rest, rfl, he, hrest⟩ := h
    simp only [List.map_cons, he.reference_eq, ih hrest]

theorem Reordered.alike {d e : TypeDef} (h : d.Reordered e) : d.Alike e := by
  obtain ⟨heq, hinterfaces, hfields, hmethods, es, hes, hnested⟩ := reordered_iff.1 h
  refine ⟨h.reference_eq, by rw [heq], by rw [heq], hinterfaces, hfields, ?_, hmethods⟩
  rw [← map_reference_of_reorderedAll hes]
  exact hnested.map _

mutual

/-- The types of reordered definitions match. -/
theorem withNested_matched : ∀ (d : TypeDef) {e : TypeDef}, d.Reordered e →
    Matched Alike d.withNested e.withNested
  | d@{ nested := ds, .. }, e, h => by
    obtain ⟨-, -, -, -, es, hes, hnested⟩ := reordered_iff.1 h
    obtain ⟨zs, hzs, hperm⟩ := withNestedAll_matched ds hes
    rw [e.withNested_eq]
    refine ⟨e :: zs, .cons h.alike hzs, (hperm.trans ?_).cons e⟩
    rw [withNestedAll_eq_flatMap, withNestedAll_eq_flatMap]
    exact hnested.flatMap_right _

theorem withNestedAll_matched : ∀ (ds : List TypeDef) {es : List TypeDef}, ReorderedAll ds es →
    Matched Alike (withNestedAll ds) (withNestedAll es)
  | [], es, h => by
    simp only [ReorderedAll] at h
    rw [h]
    exact .of_forall₂ .nil
  | d :: ds, es, h => by
    simp only [ReorderedAll] at h
    obtain ⟨e, rest, rfl, he, hrest⟩ := h
    exact (withNested_matched d he).append (withNestedAll_matched ds hrest)

end

end TypeDef

/-- The module with its types, and their members, in another order. -/
structure Module.Reordered (m n : Module) : Prop where
  name : n.name = m.name
  types : ∃ ds, TypeDef.ReorderedAll m.types ds ∧ ds.Perm n.types

theorem Module.Reordered.allTypes_matched {m n : Module} (h : m.Reordered n) :
    Matched TypeDef.Alike m.allTypes n.allTypes := by
  obtain ⟨ds, hds, hperm⟩ := h.types
  obtain ⟨zs, hzs, hperm'⟩ := TypeDef.withNestedAll_matched _ hds
  refine ⟨zs, hzs, hperm'.trans ?_⟩
  rw [Module.allTypes, TypeDef.withNestedAll_eq_flatMap, TypeDef.withNestedAll_eq_flatMap]
  exact hperm.flatMap_right _

/-! ## References that occur -/

theorem MethodDef.Reordered.references_perm {m n : MethodDef} (h : m.Reordered n) :
    m.references.Perm n.references := by
  rw [h.same]
  exact (h.params.map _).append_right _

theorem TypeDef.Alike.references_perm {d e : TypeDef} (h : d.Alike e) : d.references.Perm e.references := by
  simp only [TypeDef.references, h.reference, h.base]
  refine ((((List.Perm.append_left _ h.nested).append h.interfaces).append (h.fields.map _)).append ?_)
  exact h.methods.perm_flatMap fun m n hmn => hmn.toReordered.references_perm

namespace Registry

/-- The registry with the types of its modules, and their members, in another order. -/
def Reordered (g g' : Registry) : Prop := List.Forall₂ Module.Reordered g.modules g'.modules

variable {g g' : Registry}

theorem Reordered.declared_matched (h : g.Reordered g') : Matched TypeDef.Alike g.declared g'.declared :=
  (Matched.of_forall₂ h).flatMap fun _ _ hmn => hmn.allTypes_matched

theorem Reordered.references_perm (h : g.Reordered g') : g.references.Perm g'.references := by
  refine List.Perm.flatMap_right _ ?_
  exact h.declared_matched.perm_flatMap fun d e hde => hde.references_perm

theorem Reordered.indexed_matched (h : g.Reordered g') :
    Matched TypeDef.Alike (TypeIndex.indexed g.modules) (TypeIndex.indexed g'.modules) := by
  refine h.declared_matched.filter fun d e hde => ?_
  rw [TypeDef.isCompilerGenerated, TypeDef.isCompilerGenerated, hde.attributes]

/-! ## What references mean -/

/-- No two definitions of a module share a full name, and methods of a type that share their name and the
names of their parameter types are getters or not alike. -/
structure Unambiguous (g : Registry) : Prop where
  names : ∀ m ∈ g.modules, (m.allTypes.map TypeDef.fullName).Nodup
  getters : ∀ d ∈ g.declared, ∀ m ∈ d.methods, ∀ n ∈ d.methods, m.name = n.name → m.paramNames = n.paramNames →
    m.isGetter = n.isGetter

theorem findModule_reordered {ms ns : List Module} (h : List.Forall₂ Module.Reordered ms ns) (name : String) :
    Option.Rel Module.Reordered (ms.find? (·.name == name)) (ns.find? (·.name == name)) := by
  induction h with
  | nil => exact .none
  | cons hmn _ ih =>
    simp only [List.find?_cons, hmn.name]
    split
    · exact .some hmn
    · exact ih

theorem definition?_alike (hg : Consistent g) (hg' : Consistent g') (h : g.Reordered g') (hu : g.Unambiguous)
    (scope fullName : String) :
    Option.Rel TypeDef.Alike (g.resolver.definition? scope fullName)
      (g'.resolver.definition? scope fullName) := by
  have hmodules := findModule_reordered h scope
  have hnames : ∀ m, g.modules.find? (·.name == scope) = some m → (m.allTypes.map TypeDef.fullName).Nodup :=
    fun m hm => hu.names m (List.mem_of_find?_eq_some hm)
  rw [Resolver.definition?, Resolver.definition?, hg.knows, hg'.knows]
  generalize g.modules.find? (·.name == scope) = found, g'.modules.find? (·.name == scope) = found' at *
  cases hmodules with
  | none => exact .none
  | some hmn =>
    exact hmn.allTypes_matched.reverse.find?_key
      (fun d e hde => by rw [TypeDef.fullName, TypeDef.fullName, hde.reference])
      (by simpa using hnames _ rfl) fullName

theorem isSome_eq_of_rel {α β : Type} {R : α → β → Prop} {x : Option α} {y : Option β} (h : Option.Rel R x y) :
    x.isSome = y.isSome := by
  cases h <;> rfl

mutual

/-- **A reference means matching definitions** in a registry and in the reordered one. -/
theorem meaning_alike (hg : Consistent g) (hg' : Consistent g') (h : g.Reordered g') (hu : g.Unambiguous) :
    ∀ r : TypeRef, Option.Rel TypeDef.Alike (g.resolver.meaning r) (g'.resolver.meaning r)
  | .plain .. => by
    simp only [Resolver.meaning_plain]
    exact definition?_alike hg hg' h hu _ _
  | .genericInstance element arguments => by
    simp only [Resolver.meaning, meansAll_alike hg hg' h hu arguments]
    split
    · exact meaning_alike hg hg' h hu element
    · exact .none
  | .genericParameter .. | .array .. | .byReference _ | .pointer _ | .functionPointer _ => by
    simp only [Resolver.meaning]
    exact .none

theorem meansAll_alike (hg : Consistent g) (hg' : Consistent g') (h : g.Reordered g') (hu : g.Unambiguous) :
    ∀ rs : List TypeRef, g.resolver.meansAll rs = g'.resolver.meansAll rs
  | [] => by simp only [Resolver.meansAll]
  | r :: rs => by
    simp only [Resolver.meansAll, isSome_eq_of_rel (meaning_alike hg hg' h hu r), meansAll_alike hg hg' h hu rs]

end

end Registry

/-! ## How methods are used -/

/-- A method reference means the only method of its name with as many parameters, and where there are
several or none the first with the same parameter types. -/
theorem Resolver.methodOf?_eq (d : TypeDef) (m : MethodRef) :
    methodOf? d m = match d.overloads m.name m.params.length with
      | [only] => some only
      | ms => ms.find? (·.paramNames = m.paramNames) := by
  have hfind : (d.methods.filter (·.name = m.name)).find? (·.paramNames = m.paramNames) =
      (d.overloads m.name m.params.length).find? (·.paramNames = m.paramNames) := by
    rw [TypeDef.overloads]
    generalize d.methods.filter (·.name = m.name) = candidates
    rw [List.find?_filter]
    congr 1
    funext n
    by_cases hexact : n.paramNames = m.paramNames
    · have harity : n.params.length = m.params.length := by
        simpa [MethodDef.paramNames, MethodDef.paramTypes, MethodRef.paramNames] using congrArg List.length hexact
      simp [hexact, harity]
    · simp [hexact]
  simp only [methodOf?]
  rw [hfind, ← TypeDef.overloads]
  rcases d.overloads m.name m.params.length with _ | ⟨only, _ | ⟨n, ms⟩⟩
  · rfl
  · by_cases hexact : only.paramNames = m.paramNames <;> simp [hexact]
  · cases hfound : (only :: n :: ms).find? (·.paramNames = m.paramNames) <;> simp [hfound]

theorem Resolver.methodOf?_of_several {d : TypeDef} {m : MethodRef}
    (h : (d.overloads m.name m.params.length).length ≠ 1) :
    methodOf? d m = (d.overloads m.name m.params.length).find? (·.paramNames = m.paramNames) := by
  rw [methodOf?_eq]
  split
  · rename_i honly
    simp [honly] at h
  · rfl

theorem Usage.accessKind_congr {m n : MethodDef} (hname : m.name = n.name) (hgetter : m.isGetter = n.isGetter) :
    accessKind (some m) = accessKind (some n) := by
  have hconstructor : m.isConstructor = n.isConstructor := by
    rw [MethodDef.isConstructor, MethodDef.isConstructor, hname]
  simp only [accessKind, hconstructor, hgetter]

namespace TypeDef

variable {d e : TypeDef}

theorem MethodReordered.name_eq {m n : MethodDef} (h : d.MethodReordered m n) : n.name = m.name := by
  rw [h.same]

theorem MethodReordered.isGetter_eq {m n : MethodDef} (h : d.MethodReordered m n) : n.isGetter = m.isGetter := by
  rw [h.same]
  rfl

theorem Alike.overloads_matched (h : d.Alike e) (name : String) (arity : Nat) :
    Matched d.MethodReordered (d.overloads name arity) (e.overloads name arity) := by
  refine (h.methods.filter fun m n hmn => ?_).filter fun m n hmn => ?_
  · rw [hmn.name_eq]
  · rw [hmn.params.length_eq]

/-- **A method reference is used the same way** with a definition and with one like it. -/
theorem Alike.accessKind_eq (h : d.Alike e)
    (hgetters : ∀ m ∈ d.methods, ∀ n ∈ d.methods, m.name = n.name → m.paramNames = n.paramNames →
      m.isGetter = n.isGetter) (m : MethodRef) :
    Usage.accessKind (Resolver.methodOf? d m) = Usage.accessKind (Resolver.methodOf? e m) := by
  have hmatched := h.overloads_matched m.name m.params.length
  have hlength := hmatched.length_eq
  have hover : ∀ a ∈ d.overloads m.name m.params.length,
      a ∈ d.methods ∧ a.name = m.name ∧ a.params.length = m.params.length := by
    intro a ha
    simp only [overloads, List.mem_filter, decide_eq_true_eq] at ha
    exact ⟨ha.1.1, ha.1.2, ha.2⟩
  by_cases hsingle : (d.overloads m.name m.params.length).length = 1
  · obtain ⟨a, ha⟩ := List.length_eq_one_iff.1 hsingle
    obtain ⟨b, hb⟩ := List.length_eq_one_iff.1 (hlength.symm.trans hsingle)
    rw [Resolver.methodOf?_eq, Resolver.methodOf?_eq, ha, hb]
    rw [ha, hb] at hmatched
    obtain ⟨b', hb', hab⟩ := hmatched.exists_right List.mem_cons_self
    obtain rfl := List.mem_singleton.1 hb'
    exact Usage.accessKind_congr hab.name_eq.symm hab.isGetter_eq.symm
  · -- no method of the name is alone, so each keeps the names of its parameter types in order
    have hnames : ∀ a ∈ d.overloads m.name m.params.length, ∀ b, d.MethodReordered a b →
        a.paramNames = b.paramNames := by
      intro a ha b hab
      obtain ⟨-, hname, harity⟩ := hover a ha
      refine hab.names.resolve_right ?_
      rwa [hname, harity]
    have hfound := hmatched.find? (p := (·.paramNames = m.paramNames)) (q := (·.paramNames = m.paramNames))
      fun a ha b hab => by rw [hnames a ha b hab]
    rw [Resolver.methodOf?_of_several hsingle, Resolver.methodOf?_of_several (by rwa [← hlength])]
    generalize (d.overloads m.name m.params.length).find? (·.paramNames = m.paramNames) = found,
      (e.overloads m.name m.params.length).find? (·.paramNames = m.paramNames) = found' at hfound ⊢
    cases hfound with
    | none => rfl
    | some hab =>
      obtain ⟨⟨ha, hexact⟩, a', ha', hexact', hab⟩ := hab
      have hname := (hover _ ha).2.1.trans (hover a' ha').2.1.symm
      have hparams := (of_decide_eq_true hexact).trans (of_decide_eq_true hexact').symm
      have hgetter := hgetters _ (hover _ ha).1 a' (hover a' ha').1 hname hparams
      exact Usage.accessKind_congr (hname.trans hab.name_eq.symm) (hgetter.trans hab.isGetter_eq.symm)

end TypeDef

namespace Registry

variable {g g' : Registry}

theorem accessKind_alike (hg : Consistent g) (hg' : Consistent g') (h : g.Reordered g') (hu : g.Unambiguous)
    (m : MethodRef) :
    Usage.accessKind (g.resolver.methodMeaning m) = Usage.accessKind (g'.resolver.methodMeaning m) := by
  have hmeaning := meaning_alike hg hg' h hu m.declaring
  have hdeclared : ∀ d, g.resolver.meaning m.declaring = some d → d ∈ g.declared :=
    fun d hd => declared_of_meaning hg hd
  simp only [Resolver.methodMeaning]
  generalize g.resolver.meaning m.declaring = found, g'.resolver.meaning m.declaring = found' at *
  cases hmeaning with
  | none => rfl
  | some hde => exact hde.accessKind_eq (hu.getters _ (hdeclared _ rfl)) m

/-! ## Implementers -/

/-- Each implementer of an interface has its reference among those of the implementers in a registry
whose types declare the same interfaces. -/
theorem exists_implementer (hg : Consistent g) (hg' : Consistent g')
    (hindexed : ∀ d ∈ TypeIndex.indexed g.modules, ∃ e ∈ TypeIndex.indexed g'.modules,
      e.reference = d.reference ∧ ∀ i ∈ d.interfaces, i ∈ e.interfaces)
    (hkeys : ∀ d ∈ g.declared, ∀ e ∈ g'.declared, e.key = d.key → e.reference = d.reference)
    {k : TypeKey} {d : TypeDef} (hd : d ∈ g.implementersOf k) :
    ∃ e ∈ g'.implementersOf k, e.reference = d.reference := by
  obtain ⟨hmem, i, hi, rfl⟩ := mem_implementersOf hg hd
  obtain ⟨e, he, href, hinterfaces⟩ := hindexed d hmem
  obtain ⟨e', he', hkey⟩ := exists_mem_implementersOf hg' he (hinterfaces i hi)
  refine ⟨e', he', hkeys d (declared_of_mem_indexed hmem) e' ?_ ?_⟩
  · exact declared_of_mem_indexed (mem_implementersOf hg' he').1
  · rw [hkey, TypeDef.key, href, TypeDef.key]

/-- **An interface has implementers of the same references** in a registry and in the reordered one. -/
theorem implementers_alike {F : TypeRef → Prop} (hF : Family F) (hg : Consistent g) (hg' : Consistent g')
    (h : g.Reordered g') (hrefs : ∀ r ∈ g.references, F r) (k : TypeKey) (t : TypeRef) :
    t ∈ (g.implementersOf k).map TypeDef.reference ↔ t ∈ (g'.implementersOf k).map TypeDef.reference := by
  have hrefs' : ∀ r ∈ g'.references, F r := fun r hr => hrefs r (h.references_perm.mem_iff.2 hr)
  have hown : ∀ d ∈ g.declared, F d.reference := fun d hd =>
    hrefs _ (parts_mem_references hd d.self_mem_references (TypeRef.self_mem_parts _))
  have hown' : ∀ d ∈ g'.declared, F d.reference := fun d hd =>
    hrefs' _ (parts_mem_references hd d.self_mem_references (TypeRef.self_mem_parts _))
  simp only [List.mem_map]
  constructor
  · rintro ⟨d, hd, rfl⟩
    refine exists_implementer hg hg' (fun d hd => ?_)
      (fun d hd e he hkey => hF.coherent _ _ (hown' e he) (hown d hd) hkey) hd
    obtain ⟨e, he, hde⟩ := h.indexed_matched.exists_right hd
    exact ⟨e, he, hde.reference, fun i hi => hde.interfaces.mem_iff.1 hi⟩
  · rintro ⟨e, he, rfl⟩
    refine exists_implementer hg' hg (fun e he => ?_)
      (fun e he d hd hkey => hF.coherent _ _ (hown d hd) (hown' e he) hkey) he
    obtain ⟨d, hd, hde⟩ := h.indexed_matched.exists_left he
    exact ⟨d, hd, hde.reference.symm, fun i hi => hde.interfaces.mem_iff.2 hi⟩

end Registry

end Coupling
