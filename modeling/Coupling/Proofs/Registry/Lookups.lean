/-
What a registry finds by name, by key and by reference.

Of the definitions that share a full name a registry finds the first that is
indexed; of those that share a key it lists the last that is indexed
(`filter_types_eq_iff`); and a reference means the last definition of its full name
in the module of its scope, indexed or not (`resolve_reference_iff`). So the three
need not agree, and do not where a module declares a name twice or declares a type
of another scope (`lookups_disagree`). They agree on a name that each module
declares once at most and with the module as its scope (`lookups_of_findType`).
-/
import Coupling.Proofs.Distinct
import Coupling.Proofs.Registry.Rebuild
import Coupling.Proofs.Resolution.Noninterference

namespace Coupling

open Resolver Resolving

/-! ## The last of a key -/

section Last

variable {α κ : Type} {key : α → κ} {k : κ} {xs : List α} {x : α}

/-- Of the elements of a list that have a key, the last. -/
def LastOf (key : α → κ) (k : κ) (xs : List α) (x : α) : Prop :=
  key x = k ∧ ∃ before after, xs = before ++ x :: after ∧ ∀ y ∈ after, key y ≠ k

theorem LastOf.mem (h : LastOf key k xs x) : x ∈ xs := by
  obtain ⟨-, before, after, rfl, -⟩ := h
  simp

variable [DecidableEq κ]

theorem find?_reverse_eq_some_iff : xs.reverse.find? (key · = k) = some x ↔ LastOf key k xs x := by
  rw [List.find?_eq_some_iff_append, decide_eq_true_eq]
  refine and_congr_right fun _ => ⟨?_, ?_⟩
  · intro ⟨after, before, hxs, hafter⟩
    refine ⟨before.reverse, after.reverse, ?_, fun y hy => ?_⟩
    · simpa using congrArg List.reverse hxs
    · simpa using hafter y (List.mem_reverse.1 hy)
  · intro ⟨before, after, hxs, hafter⟩
    refine ⟨after.reverse, before.reverse, by simp [hxs], fun y hy => ?_⟩
    simpa using hafter y (List.mem_reverse.1 hy)

theorem exists_lastOf (key : α → κ) (hx : x ∈ xs) : ∃ y, LastOf key (key x) xs y := by
  have hsome : (xs.reverse.find? (key · = key x)).isSome = true :=
    List.find?_isSome.2 ⟨x, List.mem_reverse.2 hx, by simp⟩
  obtain ⟨y, hy⟩ := Option.isSome_iff_exists.1 hsome
  exact ⟨y, find?_reverse_eq_some_iff.1 hy⟩

/-- An element is the last of its key if it is the only one. -/
theorem lastOf_of_unique (hx : x ∈ xs) (hunique : ∀ y ∈ xs, key y = key x → y = x) : LastOf key (key x) xs x := by
  obtain ⟨y, hy⟩ := exists_lastOf key hx
  rwa [hunique y hy.mem hy.1] at hy

end Last

namespace Module

/-- A module declares a full name once at most, and with the module as its scope. -/
structure Once (m : Module) (n : String) : Prop where
  scope : ∀ d ∈ m.allTypes, d.fullName = n → d.scope = m.name
  unique : ∀ d ∈ m.allTypes, ∀ e ∈ m.allTypes, d.fullName = n → e.fullName = n → e = d

/-- A module declares every full name once at most, and every definition with the module as its scope. -/
structure Proper (m : Module) : Prop where
  names : (m.allTypes.map TypeDef.fullName).Nodup
  scopes : ∀ d ∈ m.allTypes, d.scope = m.name

instance (m : Module) : Decidable m.Proper :=
  decidable_of_iff ((m.allTypes.map TypeDef.fullName).Nodup ∧ ∀ d ∈ m.allTypes, d.scope = m.name)
    ⟨fun h => ⟨h.1, h.2⟩, fun h => ⟨h.names, h.scopes⟩⟩

theorem Proper.once {m : Module} (h : m.Proper) (n : String) : m.Once n where
  scope d hd _ := h.scopes d hd
  unique _ hd _ he hn hn' := List.inj_on_of_nodup_map h.names he hd (hn'.trans hn.symm)

end Module

namespace Registry

variable {g : Registry} {d e : TypeDef} {n : String}

/-! ## By name, by key and by reference -/

/-- After any changes the resolver knows the modules by their names, which are distinct. -/
theorem changeAll_knows (cs : List Change) :
    (empty.changeAll cs).Knows ∧ ((empty.changeAll cs).modules.map Module.name).Nodup :=
  changeAll_induct (P := fun g => g.Knows ∧ (g.modules.map Module.name).Nodup)
    (fun h htakes => ⟨htakes.knows h.1, htakes.apart h.2⟩) id ⟨consistent_empty.knows, List.nodup_nil⟩ cs

theorem changeAll_catalogues (cs : List Change) :
    (empty.changeAll cs).index.Catalogues (TypeIndex.indexed (empty.changeAll cs).modules) := by
  rw [indexed_empty.changeAll cs]
  exact TypeIndex.catalogues_ofModules _

theorem key_of_get?_types {x : TypeIndex} {ds : List TypeDef} (h : x.Catalogues ds) (k : TypeKey) (d : TypeDef)
    (hd : x.types.get? k = some d) : d.key = k := by
  rw [h.types] at hd
  simpa using List.find?_some hd

/-- **By key the last indexed definition is listed.** -/
theorem filter_types_eq_iff {ds : List TypeDef} (h : g.index.Catalogues ds) (k : TypeKey) :
    g.types.filter (·.key = k) = [e] ↔ LastOf TypeDef.key k ds e := by
  rw [types, h.sorted.filter_values (key_of_get?_types h), h.types, ← find?_reverse_eq_some_iff]
  cases ds.reverse.find? (·.key = k) <;> simp

/-- **A reference means the last definition of its full name in the module of its scope.** -/
theorem resolve_reference_iff (hknows : g.Knows) (hapart : (g.modules.map Module.name).Nodup) :
    (resolve d.reference).result g.resolver.clearCache = some e ↔
      ∃ m ∈ g.modules, m.name = d.scope ∧ LastOf TypeDef.fullName d.fullName m.allTypes e := by
  have hmeaning : (resolve d.reference).result g.resolver.clearCache =
      (g.modules.find? (·.name == d.scope)).bind (·.findType d.fullName) := by
    rw [← hknows]
    exact (resolve_plain_of_not_kept rfl).1
  rw [hmeaning, Option.bind_eq_some_iff]
  refine exists_congr fun m => ?_
  rw [find?_key_eq_some_iff hapart, and_assoc]
  exact and_congr_right fun _ => and_congr_right fun _ => find?_reverse_eq_some_iff

/-! ## Names that are declared once -/

/-- Definitions of one key are one definition, if each module declares its full name once. -/
theorem eq_of_key (hapart : (g.modules.map Module.name).Nodup) (honce : ∀ m ∈ g.modules, m.Once n)
    (hd : d ∈ g.declared) (he : e ∈ g.declared) (hn : d.fullName = n) (hkey : e.key = d.key) : e = d := by
  obtain ⟨m, hm, hd⟩ := List.mem_flatMap.1 hd
  obtain ⟨m', hm', he⟩ := List.mem_flatMap.1 he
  have hname : e.fullName = n := (congrArg TypeKey.fullName hkey).trans hn
  have hscope : e.scope = d.scope := congrArg TypeKey.scope hkey
  have hsame : m'.name = m.name := by
    rw [← (honce m' hm').scope e he hname, hscope, (honce m hm).scope d hd hn]
  obtain rfl := List.inj_on_of_nodup_map hapart hm' hm hsame
  exact (honce m' hm).unique d hd e he hn hname

/-- A definition of a full name that each module declares once is what its reference means. -/
theorem resolve_reference_of_once (hknows : g.Knows) (hapart : (g.modules.map Module.name).Nodup)
    (honce : ∀ m ∈ g.modules, m.Once d.fullName) (hd : d ∈ g.declared) :
    (resolve d.reference).result g.resolver.clearCache = some d := by
  obtain ⟨m, hm, hd⟩ := List.mem_flatMap.1 hd
  refine (resolve_reference_iff hknows hapart).2 ⟨m, hm, ((honce m hm).scope d hd rfl).symm, ?_⟩
  exact lastOf_of_unique hd fun e he hname => (honce m hm).unique d hd e he rfl hname

/-- **Where the lookups of a registry agree.** In a registry made by any changes let `d` be found by its full name
`n`. By the key of `d` the last indexed definition of that key is listed and no other, and the reference of `d` means
the last definition of `n` in the module that the scope of `d` names, and nothing else. If each module declares `n`
once at most and with the module as its scope, then both are `d` itself. -/
theorem lookups_of_findType (cs : List Change) {n : String} {d : TypeDef}
    (hfound : (empty.changeAll cs).findType n = some d) :
    let g := empty.changeAll cs
    (∃ e, g.types.filter (·.key = d.key) = [e]) ∧
      (∀ e, g.types.filter (·.key = d.key) = [e] ↔ LastOf TypeDef.key d.key (TypeIndex.indexed g.modules) e) ∧
      (∀ e, (resolve d.reference).result g.resolver.clearCache = some e ↔
        ∃ m ∈ g.modules, m.name = d.scope ∧ LastOf TypeDef.fullName n m.allTypes e) ∧
      ((∀ m ∈ g.modules, m.Once n) →
        g.types.filter (·.key = d.key) = [d] ∧ (resolve d.reference).result g.resolver.clearCache = some d) := by
  intro g
  obtain ⟨hknows, hapart⟩ := changeAll_knows cs
  have hcatalogues : g.index.Catalogues (TypeIndex.indexed g.modules) := changeAll_catalogues cs
  rw [findType, (changeAll_catalogues cs).byName] at hfound
  have hindexed : d ∈ TypeIndex.indexed g.modules := List.mem_of_find?_eq_some hfound
  obtain rfl : d.fullName = n := by simpa using List.find?_some hfound
  have hdeclared := declared_of_mem_indexed hindexed
  refine ⟨?_, fun e => filter_types_eq_iff hcatalogues d.key, fun e => resolve_reference_iff hknows hapart, ?_⟩
  · obtain ⟨e, he⟩ := exists_lastOf TypeDef.key hindexed
    exact ⟨e, (filter_types_eq_iff hcatalogues d.key).2 he⟩
  · intro honce
    refine ⟨(filter_types_eq_iff hcatalogues d.key).2 ?_, resolve_reference_of_once hknows hapart honce hdeclared⟩
    refine lastOf_of_unique hindexed fun e he hkey => ?_
    exact eq_of_key hapart honce hdeclared (declared_of_mem_indexed he) rfl hkey

/-- A shelf of a library. -/
def shelf : TypeDef := .newClass "Lib" "Shelf" "Lib"

/-- A library that declares its shelf. -/
def library : Module := { name := "Lib", types := [shelf] }

/-- An annex that declares a shelf of that name too. -/
def annex : Module := { name := "Annex", types := [.newInterface "Lib" "Shelf" "Annex"] }

theorem lookups_of_findType_shelf :
    let g := empty.changeAll [.add library, .add annex]
    g.typeCount = 2 ∧ g.findType "Lib.Shelf" = some shelf ∧ g.types.filter (·.key = shelf.key) = [shelf] ∧
      (resolve shelf.reference).result g.resolver.clearCache = some shelf := by
  intro g
  have hfound : g.findType "Lib.Shelf" = some shelf := rfl
  have hproper : ∀ m ∈ g.modules, m.Proper := by decide +kernel
  obtain ⟨-, -, -, hagree⟩ := lookups_of_findType [.add library, .add annex] hfound
  exact ⟨by decide +kernel, hfound, hagree fun m hm => (hproper m hm).once _⟩

/-- A library that declares its shelf twice, as a class and then as an interface. -/
def catalogue : Module := { name := "Lib", types := [shelf, .newInterface "Lib" "Shelf" "Lib"] }

/-- An annex that declares the shelf of the library. -/
def depot : Module := { name := "Annex", types := [shelf] }

/-- **The lookups need not agree.** Of a name that is declared twice the first definition is found, but the last is
listed and meant by the reference; and the reference of a definition with another scope means nothing. -/
theorem lookups_disagree :
    let g := empty.changeAll [.add catalogue]
    let g' := empty.changeAll [.add depot]
    (¬ ∀ n d, g.findType n = some d → g.types.filter (·.key = d.key) = [d]) ∧
      (¬ ∀ n d, g.findType n = some d → (resolve d.reference).result g.resolver.clearCache = some d) ∧
      ¬ ∀ n d, g'.findType n = some d → (resolve d.reference).result g'.resolver.clearCache = some d := by
  intro g g'
  have hfound : g.findType "Lib.Shelf" = some shelf := rfl
  have hfound' : g'.findType "Lib.Shelf" = some shelf := rfl
  refine ⟨fun h => ?_, fun h => ?_, fun h => ?_⟩
  · have hlisted := congrArg (List.map TypeDef.isInterface) (h _ _ hfound)
    exact absurd hlisted (by decide +kernel)
  · have hmeant := congrArg (Option.map TypeDef.isInterface) (h _ _ hfound)
    exact absurd hmeant (by decide +kernel)
  · have hmeant := congrArg Option.isSome (h _ _ hfound')
    exact absurd hmeant (by decide +kernel)

end Registry

end Coupling
