/-
Which method a reference means.

A resolver that keeps nothing yet looks a method up in the type that the declaring
reference means (`resolveMethod_clearCache`). There the first method of the same
name and parameter types is taken, and where there is none, a method of that name
and number of parameters if it is the only one (`methodOf?_of_matches`,
`methodOf?_of_not_matches`). Where no two methods of a type have the same name and
parameter types, each of them is found by its own reference and by the same
reference to an instance of the type (`resolveMethod_selects`): an instance that
means anything means what its element means (`resolve_element`), since nothing that
is looked up for its parts has its key.
-/
import Coupling.Proofs.Image.Bodies
import Coupling.Proofs.Reference.FullName
import Coupling.Proofs.Registry.Reordering
import Coupling.Proofs.Resolution.Permanence

namespace Coupling

/-! ## Signatures -/

/-- A method has the name and the parameter types that a reference says. -/
def MethodRef.Matches (r : MethodRef) (m : MethodDef) : Prop := m.name = r.name ∧ m.paramNames = r.paramNames

instance (r : MethodRef) (m : MethodDef) : Decidable (r.Matches m) := inferInstanceAs (Decidable (_ ∧ _))

theorem MethodRef.Matches.length_params {r : MethodRef} {m : MethodDef} (h : r.Matches m) :
    m.params.length = r.params.length := by
  simpa [MethodDef.paramNames, MethodDef.paramTypes, MethodRef.paramNames] using congrArg List.length h.2

namespace TypeDef

/-- No two methods have the same name and parameter types. -/
def SignaturesDiffer (d : TypeDef) : Prop := (d.methods.map fun m => (m.name, m.paramNames)).Nodup

instance (d : TypeDef) : Decidable d.SignaturesDiffer := inferInstanceAs (Decidable (List.Nodup _))

/-- A plain reference has the key of a definition. -/
def NamedBy (d : TypeDef) (t : TypeRef) : Prop := t.isPlain = true ∧ t.key = d.key

theorem namedBy_reference (d : TypeDef) : d.NamedBy d.reference := ⟨rfl, rfl⟩

/-- The definitions that are made step by step. -/
inductive Built : TypeDef → Prop
  | newClass (ns name scope : String) : Built (newClass ns name scope)
  | newInterface (ns name scope : String) : Built (newInterface ns name scope)
  | newValueType (ns name scope : String) : Built (newValueType ns name scope)
  | addFlags {d : TypeDef} (flags : TypeAttributes) : Built d → Built (d.addFlags flags)
  | setBase {d : TypeDef} (base : TypeRef) : Built d → Built (d.setBase base)
  | addInterface {d : TypeDef} (i : TypeRef) : Built d → Built (d.addInterface i)
  | addField {d : TypeDef} (name : String) (type : TypeRef) : Built d → Built (d.addField name type)
  | addAttribute {d : TypeDef} (a : TypeRef) : Built d → Built (d.addAttribute a)
  | addGenericParam {d : TypeDef} (p : TypeRef) : Built d → Built (d.addGenericParam p)
  | addMethod {d : TypeDef} (m : MethodDraft) : Built d → Built (d.addMethod m)
  | addNested {d inner : TypeDef} : Built d → Built inner → Built (d.addNested inner)

/-- The methods of a definition that is made step by step name it as their type. -/
theorem Built.declaring {d : TypeDef} (h : d.Built) : ∀ m ∈ d.methods, m.declaring = d.reference := by
  induction h with
  | newClass | newInterface | newValueType => exact fun m hm => absurd hm List.not_mem_nil
  | addMethod draft _ ih =>
    intro m hm
    rcases List.mem_append.1 hm with hm | hm
    · exact ih m hm
    · rw [List.mem_singleton.1 hm]
      rfl
  | addFlags _ _ ih | setBase _ _ ih | addInterface _ _ ih | addField _ _ _ ih | addAttribute _ _ ih
  | addGenericParam _ _ ih | addNested _ _ ih _ => exact ih

theorem mem_overloads {d : TypeDef} {name : String} {arity : Nat} {m : MethodDef} :
    m ∈ d.overloads name arity ↔ m ∈ d.methods ∧ m.name = name ∧ m.params.length = arity := by
  simp only [overloads, List.mem_filter, decide_eq_true_eq, and_assoc]

end TypeDef

namespace Resolver

open Resolving

variable {s : Resolver} {d : TypeDef} {r : MethodRef} {m : MethodDef}

/-- A method that fits a reference exactly is looked for first. -/
theorem methodOf?_of_matches (h : ∃ m ∈ d.methods, r.Matches m) :
    methodOf? d r = d.methods.find? (fun m => decide (r.Matches m)) := by
  have hfind : (d.methods.filter (·.name = r.name)).find? (·.paramNames = r.paramNames) =
      d.methods.find? fun m => decide (r.Matches m) := by
    rw [List.find?_filter]
    congr 1
    funext m
    exact decide_eq_decide.2 (by simp [MethodRef.Matches])
  obtain ⟨m, hm, hmatches⟩ := h
  have hsome : (d.methods.find? fun m => decide (r.Matches m)).isSome = true :=
    List.find?_isSome.2 ⟨m, hm, by simpa using hmatches⟩
  obtain ⟨n, hn⟩ := Option.isSome_iff_exists.1 hsome
  simp only [methodOf?, hfind, hn]

/-- Where no method fits exactly, one is taken if it is the only one of its name with as many parameters. -/
theorem methodOf?_of_not_matches (h : ∀ m ∈ d.methods, ¬ r.Matches m) :
    methodOf? d r = some m ↔ d.overloads r.name r.params.length = [m] := by
  have hnone : (d.overloads r.name r.params.length).find? (·.paramNames = r.paramNames) = none := by
    rw [List.find?_eq_none]
    intro n hn hparams
    obtain ⟨hmem, hname, -⟩ := TypeDef.mem_overloads.1 hn
    exact h n hmem ⟨hname, of_decide_eq_true hparams⟩
  by_cases hsingle : (d.overloads r.name r.params.length).length = 1
  · obtain ⟨only, honly⟩ := List.length_eq_one_iff.1 hsingle
    rw [methodOf?_eq, honly]
    simp
  · rw [methodOf?_of_several hsingle, hnone]
    refine iff_of_false nofun fun honly => hsingle ?_
    rw [honly, List.length_singleton]

/-- What looking a method up may answer, where `found` is what its declaring type means: a method of that type with
the name and as many parameters as the reference says; the first one that has its parameter types too, if there is
one; and if there is none, an answer just if there is one method of the name with as many parameters. -/
structure Selects (found : Option TypeDef) (r : MethodRef) (answer : Option MethodDef) : Prop where
  sound : ∀ m, answer = some m →
    ∃ d, found = some d ∧ m ∈ d.methods ∧ m.name = r.name ∧ m.params.length = r.params.length
  first : ∀ d, found = some d → (∃ m ∈ d.methods, r.Matches m) →
    ∃ before m after, d.methods = before ++ m :: after ∧ (∀ n ∈ before, ¬ r.Matches n) ∧ r.Matches m ∧
      answer = some m
  only : ∀ d, found = some d → (∀ m ∈ d.methods, ¬ r.Matches m) →
    (answer.isSome = true ↔ (d.overloads r.name r.params.length).length = 1)

theorem selects_methodOf? (found : Option TypeDef) (r : MethodRef) :
    Selects found r (found.bind (methodOf? · r)) where
  sound m hm := by
    obtain ⟨d, hd, hm⟩ := Option.bind_eq_some_iff.1 hm
    refine ⟨d, hd, ?_⟩
    by_cases hexact : ∃ m ∈ d.methods, r.Matches m
    · rw [methodOf?_of_matches hexact] at hm
      have hmatches : r.Matches m := by simpa using List.find?_some hm
      exact ⟨List.mem_of_find?_eq_some hm, hmatches.1, hmatches.length_params⟩
    · have hnone : ∀ m ∈ d.methods, ¬ r.Matches m := fun n hn hmatches => hexact ⟨n, hn, hmatches⟩
      rw [methodOf?_of_not_matches hnone] at hm
      exact TypeDef.mem_overloads.1 (hm ▸ List.mem_singleton_self m)
  first d hd hexact := by
    subst hd
    have hanswer := methodOf?_of_matches hexact
    obtain ⟨m, hm, hmatches⟩ := hexact
    have hsome : (d.methods.find? fun m => decide (r.Matches m)).isSome = true :=
      List.find?_isSome.2 ⟨m, hm, by simpa using hmatches⟩
    obtain ⟨n, hn⟩ := Option.isSome_iff_exists.1 hsome
    obtain ⟨hn', before, after, hmethods, hbefore⟩ := List.find?_eq_some_iff_append.1 hn
    exact ⟨before, n, after, hmethods, by simpa using hbefore, of_decide_eq_true hn', hanswer.trans hn⟩
  only d hd hnone := by
    subst hd
    rw [Option.bind_some, Option.isSome_iff_exists, List.length_eq_one_iff]
    exact exists_congr fun m => methodOf?_of_not_matches hnone

/-! ## Looking for the first time -/

theorem methods_after_resolve (t : TypeRef) (s : Resolver) : ((resolve t).after s).methods = s.methods := by
  refine resolveAt_respects (R := fun t u => u.methods = t.methods)
    ⟨fun _ => rfl, fun _ _ _ h₁ h₂ => h₂.trans h₁⟩ t 0 (Nat.le_refl _) (fun p _ _ _ => .inr fun a t => ?_) s
  simp only [keepType]
  split <;> rfl

/-- A method is looked up in the type that its declaring reference means. -/
theorem resolveMethod_clearCache (r : MethodRef) (s : Resolver) :
    (resolveMethod r).result s.clearCache = ((resolve r.declaring).result s.clearCache).bind (methodOf? · r) := by
  have hkept : ((resolve r.declaring).after s.clearCache).methods.get? r.key = none := by
    rw [methods_after_resolve]
    rfl
  rw [(resolveMethod_of_not_kept rfl).1, keepMethod, hkept]

/-- A plain reference is looked up in the module of its scope, however deep it stands in an instance. -/
theorem resolveAt_plain {t : TypeRef} (ht : t.isPlain = true) {depth : Nat} (hdepth : depth < depthMax) (s : Resolver) :
    (resolveAt depth t).result s.clearCache = s.definition? t.scope t.fullName := by
  cases t with
  | plain ns name scope =>
    have hkept : s.clearCache.types.get? (TypeRef.plain ns name scope).key = none := rfl
    rw [resolveAt, (rememberType_of_not_kept hkept).1]
    simp only [result_bind, after_bind, result_get, after_get, result_pure, after_pure,
      if_neg (Nat.not_le_of_lt hdepth), keepType, hkept]
    rfl
  | genericParameter | genericInstance | array | byReference | pointer | functionPointer => cases ht

/-- What an instance means, its element means. -/
theorem resolve_element {element : TypeRef} {arguments : List TypeRef}
    (h : (resolve (.genericInstance element arguments)).result s.clearCache = some d) :
    (resolveAt 1 element).result s.clearCache = some d := by
  have hmax : ¬ depthMax ≤ 0 := by decide
  have helement : ((resolveAt 1 element).after s.clearCache).types.get?
      (TypeRef.genericInstance element arguments).key = none :=
    types_after_resolveAt 1 (fun p hp => TypeRef.key_ne_of_mem_followed (.inl hp)) s.clearCache
  rw [resolve, resolveAt, (rememberType_of_not_kept rfl).1, if_neg hmax] at h
  simp only [result_bind, after_bind] at h
  cases hfound : (resolveAt 1 element).result s.clearCache with
  | none => simp [hfound, keepType, helement] at h
  | some e =>
    -- looking the arguments up keeps no answer for the instance either, so it gets its own
    have harguments := types_after_resolveAll 1
      (fun p (hp : p ∈ TypeRef.followedOfList arguments) => TypeRef.key_ne_of_mem_followed (e := element) (.inr hp))
      ((resolveAt 1 element).after s.clearCache)
    rw [helement] at harguments
    simp only [hfound, result_bind, after_bind, result_pure, after_pure, keepType, harguments] at h
    split at h
    · exact h
    · cases h

/-- A definition that its own reference means is what all plain references of its key mean, at any depth. -/
theorem resolveAt_namedBy (hd : (resolve d.reference).result s.clearCache = some d) {t : TypeRef} (ht : d.NamedBy t)
    {depth : Nat} (hdepth : depth < depthMax) : (resolveAt depth t).result s.clearCache = some d := by
  have hscope : t.scope = d.reference.scope := congrArg TypeKey.scope ht.2
  have hname : t.fullName = d.reference.fullName := congrArg TypeKey.fullName ht.2
  rw [resolveAt_plain ht.1 hdepth, hscope, hname, ← hd]
  exact (resolveAt_plain rfl (by decide) s).symm

/-- An instance of a definition means it, if it means anything. -/
theorem resolve_instance_namedBy (hd : (resolve d.reference).result s.clearCache = some d) {t : TypeRef}
    (ht : d.NamedBy t) {arguments : List TypeRef}
    (h : ((resolve (.genericInstance t arguments)).result s.clearCache).isSome = true) :
    (resolve (.genericInstance t arguments)).result s.clearCache = some d := by
  obtain ⟨e, he⟩ := Option.isSome_iff_exists.1 h
  have helement := resolve_element he
  rw [resolveAt_namedBy hd ht (by decide)] at helement
  exact he.trans helement.symm

/-- A method is found by each reference of its signature to its type, if no other has the signature. -/
theorem resolveMethod_of_signature (hdiffer : d.SignaturesDiffer) (hm : m ∈ d.methods) (hmatches : r.Matches m)
    (hdeclaring : (resolve r.declaring).result s.clearCache = some d) :
    (resolveMethod r).result s.clearCache = some m := by
  rw [resolveMethod_clearCache, hdeclaring]
  obtain ⟨before, n, after, hmethods, -, hn, hanswer⟩ :=
    (selects_methodOf? (some d) r).first d rfl ⟨m, hm, hmatches⟩
  have hmem : n ∈ d.methods := by simp [hmethods]
  have hsame : (n.name, n.paramNames) = (m.name, m.paramNames) := by
    rw [hn.1, hn.2, hmatches.1, hmatches.2]
  rw [hanswer, List.inj_on_of_nodup_map hdiffer hmem hm hsame]

/-- **Which method a reference means**, to a resolver that keeps nothing yet. It is a method of what the declaring
type means, and it is chosen by its name and its parameter types, or by how many parameters it has where no method
has these types. So a method that no other has the signature of is found by its own reference, and by the same
reference to an instance of its type. Methods name their type as this asks for, whether it is made step by step or
read. -/
theorem resolveMethod_selects (s : Resolver) :
    (∀ r : MethodRef, Selects ((resolve r.declaring).result s.clearCache) r ((resolveMethod r).result s.clearCache)) ∧
      (∀ d : TypeDef, (resolve d.reference).result s.clearCache = some d → d.SignaturesDiffer → ∀ m ∈ d.methods,
        (d.NamedBy m.declaring → (resolveMethod m.reference).result s.clearCache = some m) ∧
          ∀ t arguments, d.NamedBy t →
            ((resolve (.genericInstance t arguments)).result s.clearCache).isSome = true →
              (resolveMethod { m.reference with declaring := .genericInstance t arguments }).result s.clearCache =
                some m) ∧
      (∀ d : TypeDef, d.Built → ∀ m ∈ d.methods, m.declaring = d.reference) ∧
      ∀ (image : ModuleImage) (module : Module), image.toModule = .ok module →
        ∀ d ∈ module.allTypes, ∀ m ∈ d.methods, m.declaring = d.reference := by
  refine ⟨fun r => ?_, fun d hd hdiffer m hm => ⟨fun hdeclaring => ?_, fun t arguments ht hsome => ?_⟩,
    fun _ h => h.declaring, fun _ _ h => ModuleImage.declaring_of_toModule h⟩
  · rw [resolveMethod_clearCache]
    exact selects_methodOf? _ r
  · exact resolveMethod_of_signature hdiffer hm ⟨rfl, rfl⟩ (resolveAt_namedBy hd hdeclaring (by decide))
  · exact resolveMethod_of_signature hdiffer hm ⟨rfl, rfl⟩ (resolve_instance_namedBy hd ht hsome)

/-- A way to find what a store holds by a key of some type. -/
def find (key : String) : MethodDef where
  name := "Find"
  declaring := .plain "App" "Store" "App"
  params := [⟨"key", .plain "System" key "System"⟩]

/-- A store that is searched by number and by name. -/
def store : TypeDef := { TypeDef.newClass "App" "Store" "App" with methods := [find "Int32", find "String"] }

/-- A resolver that knows the store and an item. -/
def stores : Resolver := register {} { name := "App", types := [store, .newClass "App" "Item" "App"] }

theorem resolveMethod_selects_stores :
    store.SignaturesDiffer ∧
      (resolveMethod (find "String").reference).result stores.clearCache = some (find "String") ∧
      (resolveMethod { (find "String").reference with
        declaring := .genericInstance store.reference [.plain "App" "Item" "App"] }).result stores.clearCache =
          some (find "String") ∧
      ¬ ((resolveMethod (find "Int64").reference).result stores.clearCache).isSome = true := by
  obtain ⟨hselects, hround, -⟩ := resolveMethod_selects stores
  have hdiffer : store.SignaturesDiffer := by decide
  have hstore : (resolve store.reference).result stores.clearCache = some store := rfl
  obtain ⟨hown, hinstance⟩ := hround store hstore hdiffer (find "String") (by simp [store])
  refine ⟨hdiffer, hown ⟨rfl, rfl⟩, hinstance _ _ store.namedBy_reference (by decide +kernel), ?_⟩
  rw [(hselects (find "Int64").reference).only store hstore (by decide)]
  decide

end Resolver

end Coupling
