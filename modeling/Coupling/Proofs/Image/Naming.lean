/-
The names by which an image knows its types.

An image calls a type that is not nested by its name, and a nested one by what
it calls the type around it, a `/` and its own name (`Calls`). A definition gets
its full name another way: the outermost name is split once, and names of nested
types are put behind the part that is no namespace. Splitting a longer text finds
the same namespace (`splitFullName_slash`), so a reference that is written as the
image calls a type has the full name of the definition made from it, and in a
registry that took the module in it means that definition (`found_as_called`). The full
name of a definition is split into its namespace and its name again
(`splitting_undoes_rendering`).
-/
import Coupling.Proofs.Distinct
import Coupling.Proofs.Image.WellFormed
import Coupling.Proofs.Matched
import Coupling.Proofs.Reference.Parsing
import Coupling.Proofs.Resolution.PlainReferences

namespace Coupling

/-! ## Names and registries -/

theorem isBlank_of_name {full : String} (h : Text.isBlank (splitFullName full).2 = false) :
    Text.isBlank full = false := by
  cases hfull : Text.isBlank full with
  | false => rfl
  | true =>
    unfold Text.isBlank at h hfull
    rw [List.all_eq_true] at hfull
    rw [List.all_eq_false] at h
    obtain ⟨c, hc, hnot⟩ := h
    exact absurd (hfull c ((splitFullName_snd_suffix full).mem hc)) hnot

/-- A module whose name is new is taken in, and nothing is remembered then. -/
theorem Registry.add_of_new {g : Registry} {m : Module} (h : g.containsModule m.name = false) :
    ∃ g', g.add m = some g' ∧ g'.resolver = g.resolver.register m := by
  refine ⟨({ g with modules := g.modules ++ [m], resolver := g.resolver.register m } : Registry).refresh [m], ?_, rfl⟩
  simp [add, register, h]

/-! ## Images and definitions at the same place -/

namespace TypeImage

/-- The definitions of nested types stand as their images do. -/
theorem toNested_eq_ok {scope ns outer : String} {ts : List TypeImage} {ds : List TypeDef}
    (h : toNested scope ns outer ts = .ok ds) :
    List.Forall₂ (fun t d => t.toDef scope ns (outer ++ "/" ++ t.name) = .ok d) ts ds := by
  induction ts generalizing ds with
  | nil =>
    cases h
    exact .nil
  | cons t ts ih =>
    simp only [toNested, bind_eq_ok] at h
    obtain ⟨d, hd, ds, hds, h⟩ := h
    cases h
    exact .cons hd (ih hds)

/-- A definition has the namespace, the name and the scope it was asked for. -/
theorem names_of_toDef {scope ns name : String} {t : TypeImage} {d : TypeDef} (h : t.toDef scope ns name = .ok d) :
    d.ns = ns ∧ d.name = name ∧ d.scope = scope := by
  have hreference := (toDef_eq_ok h).2
  simpa only [TypeDef.reference, TypeRef.plain.injEq] using hreference

mutual

/-- What a conversion says of a type and its definition it says of all those nested in them, place by place. -/
theorem forall₂_withNested {R : TypeImage → TypeDef → Prop} {scope ns : String}
    (hR : ∀ t name d, toDef scope ns name t = .ok d → R t d) : ∀ (t : TypeImage) {name : String} {d : TypeDef},
    t.toDef scope ns name = .ok d → List.Forall₂ R t.withNested d.withNested
  | ⟨own, kind, isAbstract, isSealed, base, interfaces, genericParams, attributes, fields, methods, nested⟩, name, d,
    h => by
    rw [TypeDef.withNested_eq, withNested]
    exact .cons (hR _ name d h) (forall₂_withNestedAll hR nested (toDef_eq_ok h).1)

theorem forall₂_withNestedAll {R : TypeImage → TypeDef → Prop} {scope ns : String}
    (hR : ∀ t name d, toDef scope ns name t = .ok d → R t d) :
    ∀ (ts : List TypeImage) {outer : String} {ds : List TypeDef},
    toNested scope ns outer ts = .ok ds → List.Forall₂ R (withNestedAll ts) (TypeDef.withNestedAll ds)
  | [], _, _, h => by
    cases h
    exact .nil
  | t :: ts, outer, _, h => by
    simp only [toNested, bind_eq_ok] at h
    obtain ⟨d, hd, ds, hds, h⟩ := h
    cases h
    rw [withNestedAll, TypeDef.withNestedAll]
    exact List.rel_append (forall₂_withNested hR t hd) (forall₂_withNestedAll hR ts hds)

end

/-- The types nested in a definition have its namespace and its scope. -/
theorem ns_of_mem_withNested {scope ns : String} (t : TypeImage) {name : String} {d : TypeDef}
    (h : t.toDef scope ns name = .ok d) : ∀ e ∈ d.withNested, e.ns = ns ∧ e.scope = scope := by
  have hall : List.Forall₂ (fun _ e => e.ns = ns ∧ e.scope = scope) t.withNested d.withNested :=
    forall₂_withNested (fun _ _ _ hd => ⟨(names_of_toDef hd).1, (names_of_toDef hd).2.2⟩) t h
  exact forall_mem_right hall

end TypeImage

namespace ModuleImage

/-- What an image calls its types: one that is not nested by its name, and a nested one by what the type
around it is called, `/` and its name. -/
inductive Calls (m : ModuleImage) : String → TypeImage → Prop
  | top {t : TypeImage} : t ∈ m.types → m.Calls t.name t
  | nested {s : String} {t u : TypeImage} : m.Calls s t → u ∈ t.nested → m.Calls (s ++ "/" ++ u.name) u

/-- The definition that stands in a module where the type called `s` stands in the image. -/
inductive Stands (m : ModuleImage) (module : Module) : String → TypeImage → TypeDef → Prop
  | top {t : TypeImage} {d : TypeDef} : (t, d) ∈ m.types.zip module.types → m.Stands module t.name t d
  | nested {s : String} {t u : TypeImage} {d e : TypeDef} : m.Stands module s t d →
      (u, e) ∈ t.nested.zip d.nested → m.Stands module (s ++ "/" ++ u.name) u e

theorem toDefs_eq_ok {module : String} {seen : List String} {ts : List TypeImage} {ds : List TypeDef}
    (h : toDefs module seen ts = .ok ds) : List.Forall₂ (fun t d => t.toTopDef module = .ok d) ts ds := by
  induction ts generalizing seen ds with
  | nil =>
    cases h
    exact .nil
  | cons t ts ih =>
    simp only [toDefs, bind_eq_ok] at h
    obtain ⟨d, hd, seen', -, ds, hds, h⟩ := h
    cases h
    exact .cons hd (ih hds)

theorem toModule_eq_ok {m : ModuleImage} {module : Module} (h : m.toModule = .ok module) :
    module.name = m.name ∧ toDefs m.name [] m.types = .ok module.types := by
  unfold toModule at h
  split at h
  · exact absurd ⟨module, h⟩ (not_succeeds_throw _ _)
  · obtain ⟨ds, hds, h⟩ := bind_eq_ok.1 h
    cases h
    exact ⟨rfl, hds⟩

variable {m : ModuleImage} {module : Module} {s : String} {t : TypeImage} {d : TypeDef}

/-- **The definition at the place of a type is the one made from its image**, under the namespace and the
name that the text the image calls it by is split into. -/
theorem Stands.toDef (h : m.toModule = .ok module) (hd : m.Stands module s t d) :
    t.toDef module.name (splitFullName s).1 (splitFullName s).2 = .ok d := by
  obtain ⟨hname, hdefs⟩ := toModule_eq_ok h
  rw [hname]
  induction hd with
  | top hd => exact (List.forall₂_iff_zip.1 (toDefs_eq_ok hdefs)).2 hd
  | nested _ he ih =>
    rw [splitFullName_slash]
    exact (List.forall₂_iff_zip.1 (TypeImage.toNested_eq_ok (TypeImage.toDef_eq_ok ih).1)).2 he

/-- There is a definition for every type of an image. -/
theorem Calls.exists_stands (h : m.toModule = .ok module) (ht : m.Calls s t) : ∃ d, m.Stands module s t d := by
  induction ht with
  | top ht =>
    obtain ⟨d, hd⟩ := exists_mem_zip (toDefs_eq_ok (toModule_eq_ok h).2) ht
    exact ⟨d, .top hd⟩
  | nested _ hu ih =>
    obtain ⟨d, hd⟩ := ih
    obtain ⟨e, he⟩ := exists_mem_zip (TypeImage.toNested_eq_ok (TypeImage.toDef_eq_ok (hd.toDef h)).1) hu
    exact ⟨e, .nested hd he⟩

/-- Every definition of the module, nested or not, stands at the place of a type. -/
theorem exists_stands_of_mem (h : m.toModule = .ok module) : ∀ d ∈ module.allTypes, ∃ s t, m.Stands module s t d := by
  refine TypeDef.forall_withNestedAll ?_ module.types ?_
  · rintro d ⟨s, t, hd⟩ e he
    obtain ⟨u, hu⟩ := exists_mem_zip_right (TypeImage.toNested_eq_ok (TypeImage.toDef_eq_ok (hd.toDef h)).1) he
    exact ⟨_, u, .nested hd hu⟩
  · intro d hd
    obtain ⟨t, ht⟩ := exists_mem_zip_right (toDefs_eq_ok (toModule_eq_ok h).2) hd
    exact ⟨_, t, .top ht⟩

/-! ## Definitions of a module -/

theorem fullNames_of_toDefs {module : String} {ts : List TypeImage} {ds : List TypeDef}
    (h : List.Forall₂ (fun t d => t.toTopDef module = .ok d) ts ds) :
    (TypeDef.withNestedAll ds).map TypeDef.fullName = ts.flatMap TypeImage.topFullNames := by
  induction h with
  | nil => rfl
  | cons hd _ ih =>
    rw [TypeDef.withNestedAll, List.map_append, ih, List.flatMap_cons]
    exact congrArg (· ++ _) (TypeImage.fullNames_of_toDef _ hd)

theorem nodup_fullNames (h : m.toModule = .ok module) : (module.allTypes.map TypeDef.fullName).Nodup := by
  have hwell := (succeeds_toModule m).1 ⟨module, h⟩
  rw [Module.allTypes, fullNames_of_toDefs (toDefs_eq_ok (toModule_eq_ok h).2)]
  exact hwell.distinct

theorem Stands.mem_allTypes (hd : m.Stands module s t d) : d ∈ module.allTypes := by
  induction hd with
  | top hd => exact TypeDef.mem_withNestedAll.2 ⟨_, (List.of_mem_zip hd).2, TypeDef.self_mem_withNested _⟩
  | nested _ he ih =>
    obtain ⟨outer, houter, hd⟩ := TypeDef.mem_withNestedAll.1 ih
    exact TypeDef.mem_withNestedAll.2 ⟨outer, houter, TypeDef.nested_mem_withNested (List.of_mem_zip he).2 outer hd⟩

theorem findType_of_mem (h : m.toModule = .ok module) (hd : d ∈ module.allTypes) :
    module.findType d.fullName = some d := by
  refine find?_of_nodup_map ?_ (List.mem_reverse.2 hd)
  rw [List.map_reverse, List.nodup_reverse]
  exact nodup_fullNames h

/-- A reference that is written as the image calls a type has the full name of its definition. -/
theorem Stands.toRef (h : m.toModule = .ok module) (hd : m.Stands module s t d) :
    (TypeRefImage.own s).toRef module.name = .ok (.parse s module.name) ∧
      (TypeRef.parse s module.name).fullName = d.fullName := by
  have hdef := hd.toDef h
  have hname := ((TypeImage.succeeds_toDef _ _ _ t).1 ⟨d, hdef⟩).1
  refine ⟨?_, ?_⟩
  · simp [TypeRefImage.toRef, TypeRefImage.named, isBlank_of_name hname]
  · rw [TypeDef.fullName, (TypeImage.toDef_eq_ok hdef).2]
    rfl

/-- **Types are found as the image calls them.** In the module of an image
- full names are distinct, so that the types are counted by them and each is found by its own;
- a type has the module as its scope, and the namespace of the type around it that is not nested;
- for every type of the image there is a definition at its place, made from it. Where the module is taken in
by a registry that has none of its name, the text by which the image calls the type is a reference that means
this definition, whatever the registry is asked about plain references before. -/
theorem found_as_called (h : m.toModule = .ok module) :
    (module.allTypes.map TypeDef.fullName).Nodup ∧ module.typeCount = module.allTypes.length ∧
      (∀ d ∈ module.allTypes, module.findType d.fullName = some d) ∧
      (∀ outer ∈ module.types, ∀ d ∈ outer.withNested, d.scope = module.name ∧ d.ns = outer.ns) ∧
      (∀ s t, m.Calls s t → ∃ d, m.Stands module s t d) ∧
      ∀ g : Registry, g.containsModule module.name = false → ∃ g', g.add module = some g' ∧
        ∀ s t d, m.Stands module s t d → d ∈ module.allTypes ∧
          t.toDef module.name (splitFullName s).1 (splitFullName s).2 = .ok d ∧
          ∃ r, (TypeRefImage.own s).toRef module.name = .ok r ∧
            ∀ qs : List Question, (∀ q ∈ qs, q.reference.isPlain = true) →
              (Resolver.resolve r).result (g'.resolver.askAll qs) = some d := by
  have hnodup := nodup_fullNames h
  refine ⟨hnodup, ?_, fun d hd => findType_of_mem h hd, ?_, fun s t ht => ht.exists_stands h, ?_⟩
  · rw [Module.typeCount, eraseDups_of_nodup hnodup, List.length_map]
  · intro outer houter d hd
    have hdefs := (toDefs_eq_ok (toModule_eq_ok h).2).flip
    obtain ⟨t, ht⟩ := exists_mem_zip hdefs houter
    have htop : t.toTopDef m.name = .ok outer := (List.forall₂_iff_zip.1 hdefs).2 ht
    have hall := TypeImage.ns_of_mem_withNested t htop
    rw [(hall d hd).1, (hall d hd).2, (hall outer outer.self_mem_withNested).1, (toModule_eq_ok h).1]
    exact ⟨rfl, rfl⟩
  · intro g hg
    obtain ⟨g', hadd, hresolver⟩ := Registry.add_of_new hg
    refine ⟨g', hadd, fun s t d hd => ⟨hd.mem_allTypes, hd.toDef h, _, (hd.toRef h).1, fun qs hqs => ?_⟩⟩
    rw [hresolver]
    refine Resolver.resolve_after_register rfl rfl ?_ hqs
    rw [(hd.toRef h).2]
    exact findType_of_mem h hd.mem_allTypes

/-- A drawer with a dot in its name. What is nested in it has no name of its own. -/
def drawer : TypeImage := { name := "Top.Drawer", kind := .struct, nested := [{ name := "" }] }

/-- A side of a desk in no namespace, though a dot leads its name. -/
def side : TypeImage := { name := ".Desk/Left.Side", nested := [drawer] }

def desk : ModuleImage := { name := "Lib", types := [side, { name := "Lib.Desk" }] }

theorem found_as_called_desk : ∃ module g d r, desk.toModule = .ok module ∧ module.typeCount = 4 ∧
    Registry.empty.add module = some g ∧
      (TypeRefImage.own (".Desk/Left.Side" ++ "/" ++ "Top.Drawer" ++ "/" ++ "")).toRef "Lib" = .ok r ∧
      (Resolver.resolve r).result g.resolver = some d ∧ d.ns = "" ∧ d.fullName = "Desk/Left.Side/Top.Drawer/" := by
  have hcount : (desk.toModule.toOption.map Module.typeCount) = some 4 := by decide +kernel
  cases hmodule : desk.toModule with
  | error cause => simp [hmodule, Except.toOption] at hcount
  | ok module =>
    have hname : module.name = "Lib" := (toModule_eq_ok hmodule).1
    obtain ⟨-, -, -, -, hcalled, hfound⟩ := found_as_called hmodule
    obtain ⟨g, hadd, hresolves⟩ := hfound Registry.empty rfl
    have hside : desk.Calls ".Desk/Left.Side" side := .top (t := side) List.mem_cons_self
    have hdrawer : desk.Calls (".Desk/Left.Side" ++ "/" ++ "Top.Drawer") drawer :=
      hside.nested (u := drawer) List.mem_cons_self
    obtain ⟨d, hd⟩ := hcalled _ _ (hdrawer.nested (u := { name := "" }) List.mem_cons_self)
    obtain ⟨-, hdef, r, href, hresolve⟩ := hresolves _ _ d hd
    obtain ⟨hns, hown, -⟩ := TypeImage.names_of_toDef hdef
    rw [hname] at href
    refine ⟨module, g, d, r, rfl, ?_, hadd, href, hresolve [] (by simp), ?_, ?_⟩
    · simpa [hmodule, Except.toOption] using hcount
    · rw [hns]
      decide +kernel
    · rw [TypeDef.fullName, TypeDef.reference, hns, hown, TypeRef.fullName]
      decide +kernel

/-! ## Full names of definitions -/

/-- The text by which the image calls a type is split as its definition is named. -/
theorem Stands.splitFullName_eq (h : m.toModule = .ok module) (hd : m.Stands module s t d) :
    splitFullName s = (d.ns, d.name) := by
  obtain ⟨hns, hname, -⟩ := TypeImage.names_of_toDef (hd.toDef h)
  rw [hns, hname]

/-- **Splitting undoes rendering.** A namespace and a name are found again in the full name rendered from them exactly
if there is no `/` in the namespace and no `.` before the first `/` of the name. The parts of any text are such. So the
full name of a definition that comes from an image, nested or not, is split into its namespace and its name. -/
theorem splitting_undoes_rendering :
    (∀ ns name scope, splitFullName (TypeRef.plain ns name scope).fullName = (ns, name) ↔
        '/' ∉ ns.toList ∧ Unqualified name) ∧
      (∀ full, '/' ∉ (splitFullName full).1.toList ∧ Unqualified (splitFullName full).2) ∧
      ∀ (m : ModuleImage) (module : Module), m.toModule = .ok module →
        ∀ d ∈ module.allTypes, splitFullName d.fullName = (d.ns, d.name) := by
  refine ⟨fun ns name scope => splitFullName_qualify_iff, splitFullName_parts, ?_⟩
  intro m module h d hd
  obtain ⟨s, t, hstands⟩ := exists_stands_of_mem h d hd
  -- the parts of the text the image has for the type, of which the definition got its names
  have hparts := splitFullName_parts s
  rw [hstands.splitFullName_eq h] at hparts
  exact splitFullName_qualify_iff.2 hparts

/-- A side of a desk in a namespace that ends in a dot. -/
def annex : ModuleImage := { name := "Lib", types := [{ name := "Lib..Desk/Left.Side", nested := [drawer] }] }

theorem splitting_undoes_rendering_annex : ∃ module, annex.toModule = .ok module ∧
    module.allTypes.map (fun d => splitFullName d.fullName) =
      [("Lib.", "Desk/Left.Side"), ("Lib.", "Desk/Left.Side/Top.Drawer"), ("Lib.", "Desk/Left.Side/Top.Drawer/")] := by
  have hnames : annex.toModule.toOption.map (fun module => module.allTypes.map fun d => (d.ns, d.name)) =
      some [("Lib.", "Desk/Left.Side"), ("Lib.", "Desk/Left.Side/Top.Drawer"),
        ("Lib.", "Desk/Left.Side/Top.Drawer/")] := by decide +kernel
  cases hmodule : annex.toModule with
  | error cause => simp [hmodule, Except.toOption] at hnames
  | ok module =>
    rw [hmodule] at hnames
    have hsplit := List.map_congr_left (splitting_undoes_rendering.2.2 annex module hmodule)
    exact ⟨module, rfl, hsplit.trans (Option.some.inj hnames)⟩

end ModuleImage

end Coupling
