/-
What a resolver answers, whatever it remembers.

A resolver keeps every answer it gives on the way to another one, so an answer
may come from its memory or from looking. `Resolver.answer` says which one it
is: what is kept for the key of a reference, or else what the answers for its
parts make of it. Within a family of references that have one key each and do
not nest too deep, keeping an answer changes no answer (`agrees_keep`), and so
a question yields the answer and a memory that agrees with the one before
(`resolve_yields`, `resolveMethod_yields`). `Yields` composes along a
computation, so nothing that only asks a resolver has to look at its memory.
-/
import Coupling.Proofs.SortedMap
import Mathlib.Data.List.Nodup

namespace Coupling

/-! ## Results of computations -/

namespace Resolving

variable {α β : Type}

/-- What a computation gives when it starts with a resolver. -/
def result (q : Resolving α) (s : Resolver) : α := (q.run s).value.1

/-- The resolver a computation leaves. -/
def after (q : Resolving α) (s : Resolver) : Resolver := (q.run s).value.2

@[simp] theorem result_pure (a : α) (s : Resolver) : result (pure a) s = a := rfl

@[simp] theorem after_pure (a : α) (s : Resolver) : after (pure a) s = s := rfl

@[simp] theorem result_bind (q : Resolving α) (f : α → Resolving β) (s : Resolver) :
    result (q >>= f) s = result (f (q.result s)) (q.after s) := rfl

@[simp] theorem after_bind (q : Resolving α) (f : α → Resolving β) (s : Resolver) :
    after (q >>= f) s = after (f (q.result s)) (q.after s) := rfl

@[simp] theorem result_get (s : Resolver) : result get s = s := rfl

@[simp] theorem after_get (s : Resolver) : after get s = s := rfl

@[simp] theorem result_modifyGet (f : Resolver → α × Resolver) (s : Resolver) :
    result (modifyGet f) s = (f s).1 := rfl

@[simp] theorem after_modifyGet (f : Resolver → α × Resolver) (s : Resolver) :
    after (modifyGet f) s = (f s).2 := rfl

end Resolving

/-! ## Families of references -/

namespace TypeRef

mutual

/-- How deep generic instances are nested in each other, as elements or as arguments. A shape that
is looked up as a whole, such as an array, ends the nesting. -/
def nesting : TypeRef → Nat
  | .genericInstance element arguments => max element.nesting (nestingOfList arguments) + 1
  | .plain .. | .genericParameter .. | .array .. | .byReference _ | .pointer _ | .functionPointer _ => 0

def nestingOfList : List TypeRef → Nat
  | [] => 0
  | r :: rs => max r.nesting (nestingOfList rs)

end

mutual

/-- What is looked up on the way to the definition of a reference: itself and, for an instance, what is
looked up for its element and for the arguments that are no generic parameters. -/
def followed : TypeRef → List TypeRef
  | .genericInstance element arguments =>
    .genericInstance element arguments :: (element.followed ++ followedOfList arguments)
  | .plain ns name scope => [.plain ns name scope]
  | .genericParameter name owner constraints => [.genericParameter name owner constraints]
  | .array element rank => [.array element rank]
  | .byReference element => [.byReference element]
  | .pointer element => [.pointer element]
  | .functionPointer scope => [.functionPointer scope]

def followedOfList : List TypeRef → List TypeRef
  | [] => []
  | r :: rs => if r.isGenericParameter then followedOfList rs else r.followed ++ followedOfList rs

end

theorem self_mem_followed (r : TypeRef) : r ∈ r.followed := by
  cases r <;> simp [followed]

theorem mem_followedOfList {p : TypeRef} {rs : List TypeRef} :
    p ∈ followedOfList rs ↔ ∃ r ∈ rs, r.isGenericParameter = false ∧ p ∈ r.followed := by
  induction rs with
  | nil => simp [followedOfList]
  | cons r rs ih =>
    simp only [followedOfList]
    cases hr : r.isGenericParameter <;> simp [hr, ih]

mutual

/-- What holds for a reference, and for every instance if it holds for the element or for an argument that is
looked up, holds wherever the reference is looked up. -/
theorem followed_induct {p : TypeRef} {P : TypeRef → Prop} (hself : P p)
    (helement : ∀ e args, P e → P (.genericInstance e args))
    (hargument : ∀ e args a, a ∈ args → a.isGenericParameter = false → P a → P (.genericInstance e args)) :
    ∀ r : TypeRef, p ∈ r.followed → P r
  | .genericInstance element arguments, hp => by
    simp only [followed, List.mem_cons, List.mem_append] at hp
    rcases hp with rfl | hp | hp
    · exact hself
    · exact helement _ _ (followed_induct hself helement hargument element hp)
    · obtain ⟨a, ha, hlooked, hP⟩ := followedOfList_induct hself helement hargument arguments hp
      exact hargument _ _ a ha hlooked hP
  | .plain .., hp | .genericParameter .., hp | .array .., hp | .byReference _, hp | .pointer _, hp
  | .functionPointer _, hp => by
    simp only [followed, List.mem_singleton] at hp
    exact hp ▸ hself

theorem followedOfList_induct {p : TypeRef} {P : TypeRef → Prop} (hself : P p)
    (helement : ∀ e args, P e → P (.genericInstance e args))
    (hargument : ∀ e args a, a ∈ args → a.isGenericParameter = false → P a → P (.genericInstance e args)) :
    ∀ rs : List TypeRef, p ∈ followedOfList rs → ∃ r ∈ rs, r.isGenericParameter = false ∧ P r
  | [], hp => by simp [followedOfList] at hp
  | r :: rs, hp => by
    have hrest (hp : p ∈ followedOfList rs) : ∃ a ∈ r :: rs, a.isGenericParameter = false ∧ P a := by
      obtain ⟨a, ha, hP⟩ := followedOfList_induct hself helement hargument rs hp
      exact ⟨a, List.mem_cons_of_mem _ ha, hP⟩
    simp only [followedOfList] at hp
    split at hp
    · exact hrest hp
    · rename_i hparam
      rcases List.mem_append.1 hp with hp | hp
      · exact ⟨r, List.mem_cons_self, by simpa using hparam, followed_induct hself helement hargument r hp⟩
      · exact hrest hp

end

end TypeRef

/-- References that are what their keys say: no two of them share a key. With a reference the family
holds what is looked up for it, and generic instances nest less deep than they are followed. -/
structure Family (F : TypeRef → Prop) : Prop where
  followed : ∀ r, F r → ∀ p ∈ r.followed, F p
  coherent : ∀ a b, F a → F b → a.key = b.key → a = b
  shallow : ∀ r, F r → r.nesting < Resolver.depthMax

namespace Family

variable {F : TypeRef → Prop} {element : TypeRef} {arguments : List TypeRef}

theorem element_of_instance (hF : Family F) (h : F (.genericInstance element arguments)) : F element :=
  hF.followed _ h _ (by simp [TypeRef.followed, element.self_mem_followed])

theorem argument_of_instance (hF : Family F) (h : F (.genericInstance element arguments)) :
    ∀ a ∈ arguments, a.isGenericParameter = false → F a := fun a ha hparam =>
  hF.followed _ h _ (by
    simp only [TypeRef.followed, List.mem_cons, List.mem_append, TypeRef.mem_followedOfList]
    exact .inr (.inr ⟨a, ha, hparam, a.self_mem_followed⟩))

theorem of_nodup_keys {rs : List TypeRef} (hfollowed : ∀ r ∈ rs, ∀ p ∈ r.followed, p ∈ rs)
    (hkeys : (rs.map TypeRef.key).Nodup) (hshallow : ∀ r ∈ rs, r.nesting < Resolver.depthMax) :
    Family (· ∈ rs) :=
  ⟨hfollowed, fun _ _ ha hb h => List.inj_on_of_nodup_map hkeys ha hb h, hshallow⟩

end Family

namespace Resolver

/-! ## Answers without memory -/

mutual

/-- The definition a reference means: for a plain one the last type of its full name in the module named
by its scope, for an instance the definition of its element if every argument that is no generic
parameter means one too, and none for any other shape. -/
def meaning (s : Resolver) : TypeRef → Option TypeDef
  | .plain ns name scope =>
    (s.modules.get? scope).bind fun m =>
      m.allTypes.reverse.find? (·.fullName == (TypeRef.plain ns name scope).fullName)
  | .genericInstance element arguments => if meansAll s arguments then meaning s element else none
  | .genericParameter .. | .array .. | .byReference _ | .pointer _ | .functionPointer _ => none

def meansAll (s : Resolver) : List TypeRef → Bool
  | [] => true
  | r :: rs => (r.isGenericParameter || (meaning s r).isSome) && meansAll s rs

end

theorem meaning_plain (s : Resolver) (ns name scope : String) :
    s.meaning (.plain ns name scope) = s.definition? scope (TypeRef.plain ns name scope).fullName :=
  rfl

/-- The method a reference means. -/
def methodMeaning (s : Resolver) (m : MethodRef) : Option MethodDef :=
  (s.meaning m.declaring).bind (methodOf? · m)

/-! ## Answers with memory -/

mutual

/-- What is kept for the key of a reference, or else what the answers for its parts make of it. -/
def answer (s : Resolver) : TypeRef → Option TypeDef
  | .plain ns name scope =>
    (s.types.get? (TypeRef.plain ns name scope).key).getD
      (s.definition? scope (TypeRef.plain ns name scope).fullName)
  | .genericInstance element arguments =>
    (s.types.get? (TypeRef.genericInstance element arguments).key).getD
      (if answersAll s arguments then answer s element else none)
  | .genericParameter name owner constraints =>
    (s.types.get? (TypeRef.genericParameter name owner constraints).key).getD none
  | .array element rank => (s.types.get? (TypeRef.array element rank).key).getD none
  | .byReference element => (s.types.get? (TypeRef.byReference element).key).getD none
  | .pointer element => (s.types.get? (TypeRef.pointer element).key).getD none
  | .functionPointer scope => (s.types.get? (TypeRef.functionPointer scope).key).getD none

def answersAll (s : Resolver) : List TypeRef → Bool
  | [] => true
  | r :: rs => (r.isGenericParameter || (answer s r).isSome) && answersAll s rs

end

@[simp] theorem answersAll_eq_all (s : Resolver) (rs : List TypeRef) :
    s.answersAll rs = rs.all fun r => r.isGenericParameter || (s.answer r).isSome := by
  induction rs with
  | nil => rfl
  | cons r rs ih => simp [answersAll, ih]

/-- What the answers for the parts of a reference make of it. -/
def found (s : Resolver) : TypeRef → Option TypeDef
  | .plain ns name scope => s.definition? scope (TypeRef.plain ns name scope).fullName
  | .genericInstance element arguments => if s.answersAll arguments then s.answer element else none
  | .genericParameter .. | .array .. | .byReference _ | .pointer _ | .functionPointer _ => none

theorem answer_eq_getD (s : Resolver) (r : TypeRef) : s.answer r = (s.types.get? r.key).getD (s.found r) := by
  cases r <;> simp only [answer, found]

theorem answer_of_kept {s : Resolver} {r : TypeRef} {a : Option TypeDef} (h : s.types.get? r.key = some a) :
    s.answer r = a := by
  simp [answer_eq_getD, h]

theorem answer_of_not_kept {s : Resolver} {r : TypeRef} (h : s.types.get? r.key = none) :
    s.answer r = s.found r := by
  simp [answer_eq_getD, h]

/-- What is kept for the key of a method reference, or else the method of the answer for its type. -/
def methodAnswer (s : Resolver) (m : MethodRef) : Option MethodDef :=
  (s.methods.get? m.key).getD ((s.answer m.declaring).bind (methodOf? · m))

theorem methodAnswer_of_kept {s : Resolver} {m : MethodRef} {a : Option MethodDef}
    (h : s.methods.get? m.key = some a) : s.methodAnswer m = a := by
  simp [methodAnswer, h]

mutual

theorem answer_clearCache (s : Resolver) : ∀ r : TypeRef, s.clearCache.answer r = s.meaning r
  | .plain .. => rfl
  | .genericInstance element arguments => by
    simp only [answer, meaning, answer_clearCache s element, answersAll_clearCache s arguments]
    rfl
  | .genericParameter .. | .array .. | .byReference _ | .pointer _ | .functionPointer _ => rfl

theorem answersAll_clearCache (s : Resolver) : ∀ rs : List TypeRef, s.clearCache.answersAll rs = s.meansAll rs
  | [] => rfl
  | r :: rs => by
    simp only [answersAll, meansAll, answer_clearCache s r, answersAll_clearCache s rs]

end

theorem methodAnswer_clearCache (s : Resolver) (m : MethodRef) :
    s.clearCache.methodAnswer m = s.methodMeaning m := by
  simp only [methodAnswer, methodMeaning, answer_clearCache]
  rfl

/-! ## Memories that agree -/

/-- Two resolvers that know the same modules and answer alike within a family. -/
structure Agrees (F : TypeRef → Prop) (s t : Resolver) : Prop where
  modules : t.modules = s.modules
  types : ∀ r, F r → t.answer r = s.answer r
  methods : ∀ m : MethodRef, F m.declaring → t.methodAnswer m = s.methodAnswer m

variable {F : TypeRef → Prop} {s t u : Resolver}

theorem Agrees.refl (F : TypeRef → Prop) (s : Resolver) : Agrees F s s :=
  ⟨rfl, fun _ _ => rfl, fun _ _ => rfl⟩

theorem Agrees.clearCache_eq (h : Agrees F s t) : t.clearCache = s.clearCache := by
  simp only [clearCache, h.modules]

theorem Agrees.trans (h₁ : Agrees F s t) (h₂ : Agrees F t u) : Agrees F s u :=
  ⟨h₂.modules.trans h₁.modules, fun r hr => (h₂.types r hr).trans (h₁.types r hr),
    fun m hm => (h₂.methods m hm).trans (h₁.methods m hm)⟩

theorem Agrees.answersAll (h : Agrees F s t) {rs : List TypeRef}
    (hrs : ∀ r ∈ rs, r.isGenericParameter = false → F r) : t.answersAll rs = s.answersAll rs := by
  rw [answersAll_eq_all, answersAll_eq_all, Bool.eq_iff_iff, List.all_eq_true, List.all_eq_true]
  refine forall₂_congr fun r hr => ?_
  cases hparam : r.isGenericParameter with
  | true => simp
  | false => rw [h.types r (hrs r hr hparam)]

theorem Agrees.found (hF : Family F) (h : Agrees F s t) {r : TypeRef} (hr : F r) : t.found r = s.found r := by
  cases r with
  | plain ns name scope => simp only [Resolver.found, definition?, h.modules]
  | genericInstance element arguments =>
    simp only [Resolver.found, h.types element (hF.element_of_instance hr),
      h.answersAll (hF.argument_of_instance hr)]
  | genericParameter | array | byReference | pointer | functionPointer => rfl

mutual

/-- What a memory keeps more, if it keeps the answers, changes none of them. -/
theorem answer_of_kept_answers (hF : Family F) (hm : t.modules = s.modules)
    (hkept : ∀ r, F r → t.types.get? r.key = s.types.get? r.key ∨ t.types.get? r.key = some (s.answer r)) :
    ∀ r : TypeRef, F r → t.answer r = s.answer r
  | r, hr => by
    rcases hkept r hr with hsame | hnew
    · match r with
      | .genericInstance element arguments =>
        simp only [answer, hsame, answer_of_kept_answers hF hm hkept element (hF.element_of_instance hr),
          answersAll_of_kept_answers hF hm hkept arguments (hF.argument_of_instance hr)]
      | .plain .. | .genericParameter .. | .array .. | .byReference _ | .pointer _ | .functionPointer _ =>
        simp only [answer, definition?, hm, hsame]
    · exact answer_of_kept hnew

theorem answersAll_of_kept_answers (hF : Family F) (hm : t.modules = s.modules)
    (hkept : ∀ r, F r → t.types.get? r.key = s.types.get? r.key ∨ t.types.get? r.key = some (s.answer r)) :
    ∀ rs : List TypeRef, (∀ r ∈ rs, r.isGenericParameter = false → F r) → t.answersAll rs = s.answersAll rs
  | [], _ => rfl
  | r :: rs, hrs => by
    simp only [answersAll, answersAll_of_kept_answers hF hm hkept rs fun x hx => hrs x (by simp [hx])]
    cases hparam : r.isGenericParameter with
    | true => simp
    | false => rw [answer_of_kept_answers hF hm hkept r (hrs r (by simp) hparam)]

end

/-- Resolvers agree if they know the same modules and methods, and one keeps what the other keeps or
answers. -/
theorem agrees_of_kept_answers (hF : Family F) (hmodules : t.modules = s.modules)
    (hmethods : t.methods = s.methods)
    (hkept : ∀ r, F r → t.types.get? r.key = s.types.get? r.key ∨ t.types.get? r.key = some (s.answer r)) :
    Agrees F s t where
  modules := hmodules
  types := answer_of_kept_answers hF hmodules hkept
  methods m hm := by simp only [methodAnswer, hmethods, answer_of_kept_answers hF hmodules hkept _ hm]

/-- **Keeping the answer for a type changes no answer.** -/
theorem agrees_keep (hF : Family F) (s : Resolver) {r : TypeRef} (hr : F r) :
    Agrees F s { s with types := s.types.insert r.key (s.answer r) } := by
  refine agrees_of_kept_answers hF rfl rfl fun x hx => ?_
  by_cases hkey : x.key = r.key
  · obtain rfl := hF.coherent x r hx hr hkey
    exact .inr (s.types.get?_insert_self _ _)
  · exact .inl (s.types.get?_insert_other _ hkey)

theorem methodOf?_congr {m n : MethodRef} (hname : m.name = n.name) (hparams : m.paramNames = n.paramNames)
    (d : TypeDef) : methodOf? d m = methodOf? d n := by
  have hlen : m.params.length = n.params.length := by
    simpa [MethodRef.paramNames] using congrArg List.length hparams
  simp only [methodOf?, hname, hparams, hlen]

/-- **Keeping the answer for a method changes no answer.** -/
theorem agrees_keep_method (hF : Family F) (s : Resolver) {m : MethodRef} (hm : F m.declaring) :
    Agrees F s { s with methods := s.methods.insert m.key (s.methodAnswer m) } := by
  have htypes : ∀ r, F r → ({ s with methods := s.methods.insert m.key (s.methodAnswer m) } :
      Resolver).answer r = s.answer r := answer_of_kept_answers hF rfl fun _ _ => .inl rfl
  refine ⟨rfl, htypes, fun n hn => ?_⟩
  rw [methodAnswer, htypes _ hn]
  by_cases hkey : n.key = m.key
  · have hdecl : n.declaring = m.declaring := hF.coherent _ _ hn hm (congrArg MethodKey.declaring hkey)
    have hof : ∀ d, methodOf? d n = methodOf? d m :=
      methodOf?_congr (congrArg MethodKey.name hkey) (congrArg MethodKey.params hkey)
    simp only [methodAnswer, hkey, SortedMap.get?_insert_self, Option.getD_some, hdecl, hof]
  · rw [s.methods.get?_insert_other _ hkey, methodAnswer]

end Resolver

/-! ## What a computation yields -/

namespace Resolving

open Resolver

variable {α β : Type} {F : TypeRef → Prop} {s : Resolver}

/-- From every memory that agrees with that of `s` the computation gives `a`, and it leaves a memory
that agrees with it. -/
def Yields (F : TypeRef → Prop) (s : Resolver) (q : Resolving α) (a : α) : Prop :=
  ∀ t, Agrees F s t → q.result t = a ∧ Agrees F s (q.after t)

theorem yields_pure (a : α) : Yields F s (pure a) a := fun _ h => ⟨rfl, h⟩

theorem yields_log (e : Event) : Yields F s (liftM (Logged.log e)) () := fun _ h => ⟨rfl, h⟩

theorem Yields.bind {q : Resolving α} {a : α} {f : α → Resolving β} {b : β} (hq : Yields F s q a)
    (hf : Yields F s (f a) b) : Yields F s (q >>= f) b := by
  intro t ht
  obtain ⟨hres, hafter⟩ := hq t ht
  rw [result_bind, after_bind, hres]
  exact hf _ hafter

theorem Yields.logged_if {q : Resolving α} {a : α} (hq : Yields F s q a) (b : Bool) (e : Event) :
    Yields F s (if b then do liftM (Logged.log e); q else q) a := by
  split
  · exact (yields_log e).bind hq
  · exact hq

end Resolving

namespace Resolver

open Resolving

variable {F : TypeRef → Prop} {s : Resolver}

theorem keepType_yields (hF : Family F) {r : TypeRef} (hr : F r) :
    Yields F s (modifyGet (keepType r.key (s.answer r))) (s.answer r) := by
  intro t ht
  simp only [result_modifyGet, after_modifyGet, keepType]
  split
  · rename_i kept hkept
    rw [← ht.types r hr]
    exact ⟨(answer_of_kept hkept).symm, ht⟩
  · refine ⟨rfl, ht.trans ?_⟩
    rw [← ht.types r hr]
    exact agrees_keep hF t hr

theorem keepMethod_yields (hF : Family F) {m : MethodRef} (hm : F m.declaring) :
    Yields F s (modifyGet (keepMethod m.key (s.methodAnswer m))) (s.methodAnswer m) := by
  intro t ht
  simp only [result_modifyGet, after_modifyGet, keepMethod]
  split
  · rename_i kept hkept
    rw [← ht.methods m hm]
    exact ⟨(methodAnswer_of_kept hkept).symm, ht⟩
  · refine ⟨rfl, ht.trans ?_⟩
    rw [← ht.methods m hm]
    exact agrees_keep_method hF t hm

/-- A kept answer is the answer, and one that is found is kept. -/
theorem rememberType_yields (hF : Family F) {r : TypeRef} (hr : F r) {find : Resolving (Option TypeDef)}
    (hfind : Yields F s find (s.found r)) : Yields F s (rememberType r.key find) (s.answer r) := by
  intro t ht
  simp only [rememberType, result_bind, after_bind, result_get, after_get]
  cases hkept : t.types.get? r.key with
  | some kept =>
    refine ⟨?_, ht⟩
    rw [← ht.types r hr]
    exact (answer_of_kept hkept).symm
  | none =>
    have hans : s.found r = s.answer r := by
      rw [← ht.types r hr, answer_of_not_kept hkept, ht.found hF hr]
    rw [hans] at hfind
    exact hfind.bind ((keepType_yields hF hr).logged_if _ _) t ht

mutual

/-- **A look-up yields the answer** if the instances left are followed to their ends. -/
theorem resolveAt_yields (hF : Family F) : ∀ (r : TypeRef) (depth : Nat), F r →
    depth + r.nesting < depthMax → Yields F s (resolveAt depth r) (s.answer r)
  | .plain ns name scope, depth, hr, hdepth => by
    refine rememberType_yields hF hr fun t ht => ⟨?_, ht⟩
    have hlt : ¬ depthMax ≤ depth := by omega
    simp only [result_bind, result_get, result_pure, if_neg hlt, definition?, ht.modules, found]
  | .genericInstance element arguments, depth, hr, hdepth => by
    have hmax : ¬ depthMax ≤ depth := by omega
    simp only [TypeRef.nesting] at hdepth
    refine rememberType_yields hF hr ?_
    rw [if_neg hmax]
    refine (resolveAt_yields hF element (depth + 1) (hF.element_of_instance hr) (by omega)).bind ?_
    simp only [found]
    cases s.answer element with
    | none => simpa using yields_pure none
    | some d =>
      refine (resolveAll_yields hF arguments (depth + 1) (hF.argument_of_instance hr) (by omega)).bind ?_
      exact yields_pure _
  | .genericParameter .., _, hr, _ | .array .., _, hr, _ | .byReference _, _, hr, _
  | .pointer _, _, hr, _ | .functionPointer _, _, hr, _ => rememberType_yields hF hr (yields_pure none)

theorem resolveAll_yields (hF : Family F) : ∀ (rs : List TypeRef) (depth : Nat),
    (∀ r ∈ rs, r.isGenericParameter = false → F r) → depth + TypeRef.nestingOfList rs < depthMax →
      Yields F s (resolveAll depth rs) (s.answersAll rs)
  | [], _, _, _ => yields_pure true
  | r :: rs, depth, hrs, hdepth => by
    simp only [TypeRef.nestingOfList] at hdepth
    have hrest := resolveAll_yields hF rs depth (fun x hx => hrs x (by simp [hx])) (by omega)
    simp only [resolveAll, answersAll]
    split
    · rename_i hparam
      simpa [hparam] using hrest
    · rename_i hparam
      refine (resolveAt_yields hF r depth (hrs r (by simp) (by simpa using hparam)) (by omega)).bind ?_
      cases s.answer r with
      | none => simpa [hparam] using yields_pure false
      | some d => simpa using hrest

end

/-- **What a resolver is asked about a type, it answers**, and no answer changes. -/
theorem resolve_yields (hF : Family F) {r : TypeRef} (hr : F r) : Yields F s (resolve r) (s.answer r) :=
  resolveAt_yields hF r 0 hr (by simpa using hF.shallow r hr)

/-- **What a resolver is asked about a method, it answers**, and no answer changes. -/
theorem resolveMethod_yields (hF : Family F) {m : MethodRef} (hm : F m.declaring) :
    Yields F s (resolveMethod m) (s.methodAnswer m) := by
  intro t ht
  simp only [resolveMethod, result_bind, after_bind, result_get, after_get]
  cases hkept : t.methods.get? m.key with
  | some kept =>
    refine ⟨?_, ht⟩
    rw [← ht.methods m hm]
    exact (methodAnswer_of_kept hkept).symm
  | none =>
    have hans : (s.answer m.declaring).bind (methodOf? · m) = s.methodAnswer m := by
      rw [← ht.methods m hm, methodAnswer, hkept, ht.types _ hm, Option.getD_none]
    refine ((resolve_yields hF hm).bind ?_) t ht
    rw [hans]
    exact (keepMethod_yields hF hm).logged_if _ _

end Resolver

end Coupling
