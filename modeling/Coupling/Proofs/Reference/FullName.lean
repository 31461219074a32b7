/-
Full names of references.

A reference holds what it is built over and, if it is an instance, its arguments
(`Holds`). Their full names are written in its own with more behind them
(`Holds.writtenIn`), so a reference shares its key with nothing it holds, however deep
(`key_ne_of_transGen`), and an instance with no reference that is looked up on the way
to it (`key_ne_of_mem_followed`).

The full name and the name inside the namespace are rendered apart from each other. For
every shape the first is the second, qualified with the namespace of the innermost
element (`names_consistent`).
-/
import Coupling.Proofs.Namespaces
import Coupling.Proofs.Resolution.Memory

namespace Coupling

/-! ## Texts in texts -/

namespace Text

/-- The first text is written in the second, with more behind it. -/
def WrittenIn (s t : String) : Prop := ∃ before after, t = before ++ s ++ after ∧ after ≠ ""

variable {s t u : String}

theorem WrittenIn.trans (h : WrittenIn s t) (h' : WrittenIn t u) : WrittenIn s u := by
  obtain ⟨before, after, rfl, hafter⟩ := h
  obtain ⟨before', after', rfl, -⟩ := h'
  refine ⟨before' ++ before, after ++ after', by simp only [String.append_assoc], fun hempty => ?_⟩
  exact hafter (String.append_eq_empty_iff.1 hempty).1

theorem WrittenIn.length_lt (h : WrittenIn s t) : s.length < t.length := by
  obtain ⟨before, after, rfl, hafter⟩ := h
  have hpos : after.length ≠ 0 := fun hzero => hafter (String.length_eq_zero_iff.1 hzero)
  simp only [String.length_append]
  omega

theorem WrittenIn.utf8ByteSize_lt (h : WrittenIn s t) : s.utf8ByteSize < t.utf8ByteSize := by
  obtain ⟨before, after, rfl, hafter⟩ := h
  have hpos : after.utf8ByteSize ≠ 0 := fun hzero => hafter (String.utf8ByteSize_eq_zero_iff.1 hzero)
  simp only [String.utf8ByteSize_append]
  omega

/-- A text that is joined with others is found in what they make together. -/
theorem exists_intercalate_eq (sep : String) {ts : List String} (hs : s ∈ ts) :
    ∃ before after, sep.intercalate ts = before ++ s ++ after := by
  induction ts with
  | nil => cases hs
  | cons t ts ih =>
    cases ts with
    | nil =>
      rw [List.mem_singleton.1 hs, String.intercalate_singleton]
      exact ⟨"", "", by simp⟩
    | cons t' ts =>
      rw [String.intercalate_cons_cons]
      rcases List.mem_cons.1 hs with rfl | hs
      · exact ⟨"", sep ++ sep.intercalate (t' :: ts), by simp [String.append_assoc]⟩
      · obtain ⟨before, after, hrest⟩ := ih hs
        exact ⟨t ++ sep ++ before, after, by rw [hrest]; simp only [String.append_assoc]⟩

end Text

namespace TypeRef

/-! ## Shapes -/

theorem qualify_append (ns name suffix : String) : qualify ns name ++ suffix = qualify ns (name ++ suffix) := by
  unfold qualify
  split
  · rfl
  · simp only [String.append_assoc]

/-- Of both names of a composite, that of its element is the beginning, and the rest is the same. -/
theorem BuiltOver.exists_suffix {r e : TypeRef} (h : BuiltOver r e) :
    ∃ suffix, suffix ≠ "" ∧ r.fullName = e.fullName ++ suffix ∧ r.name = e.name ++ suffix := by
  cases r with
  | genericInstance element args =>
    cases h
    refine ⟨"<" ++ ",".intercalate (fullNames args) ++ ">", by simp, ?_, ?_⟩ <;>
      simp only [fullName, name, String.append_assoc]
  | array element rank =>
    cases h
    exact ⟨brackets rank, by simp [brackets], rfl, rfl⟩
  | byReference element =>
    cases h
    exact ⟨"&", by decide, rfl, rfl⟩
  | pointer element =>
    cases h
    exact ⟨"*", by decide, rfl, rfl⟩
  | plain | genericParameter | functionPointer => cases h

theorem BuiltOver.fullName_eq {r e : TypeRef} (h : BuiltOver r e) (he : e.fullName = qualify e.ns e.name) :
    r.fullName = qualify r.ns r.name := by
  obtain ⟨suffix, -, hfull, hname⟩ := h.exists_suffix
  rw [hfull, hname, he, h.ns_eq, qualify_append]

/-- The full name is the name, qualified with the namespace. -/
theorem fullName_eq_qualify : ∀ r : TypeRef, r.fullName = qualify r.ns r.name
  | .genericInstance e _ | .array e _ | .byReference e | .pointer e => BuiltOver.fullName_eq rfl (fullName_eq_qualify e)
  | .plain .. | .genericParameter .. | .functionPointer _ => rfl

/-- The scope that a reference itself names: the module of a plain one and of a function pointer, and the owner of a
generic parameter. -/
def ownScope : TypeRef → String
  | .plain _ _ scope | .functionPointer scope => scope
  | .genericParameter _ owner _ => owner
  | _ => ""

theorem scope_innermost : ∀ r : TypeRef, r.innermost.scope = r.innermost.ownScope
  | .genericInstance e _ | .array e _ | .byReference e | .pointer e => scope_innermost e
  | .plain .. | .genericParameter .. | .functionPointer _ => rfl

theorem scope_eq_innermost : ∀ r : TypeRef, r.scope = r.innermost.scope
  | .genericInstance e _ | .array e _ | .byReference e | .pointer e => scope_eq_innermost e
  | .plain .. | .genericParameter .. | .functionPointer _ => rfl

/-! ## References in references -/

/-- The first reference is built over the second or is an instance with it as an argument. The constraints of a
generic parameter take no part in its names. -/
inductive Holds : TypeRef → TypeRef → Prop
  | element {r e : TypeRef} : BuiltOver r e → Holds r e
  | argument {e a : TypeRef} {args : List TypeRef} : a ∈ args → Holds (.genericInstance e args) a

theorem Holds.writtenIn {r p : TypeRef} (h : Holds r p) : Text.WrittenIn p.fullName r.fullName := by
  cases h with
  | element h =>
    obtain ⟨suffix, hsuffix, hfull, -⟩ := h.exists_suffix
    exact ⟨"", suffix, by rw [hfull, String.empty_append], hsuffix⟩
  | @argument e _ args ha =>
    have hmem : p.fullName ∈ fullNames args := by
      rw [fullNames_eq_map]
      exact List.mem_map_of_mem ha
    obtain ⟨before, after, hjoin⟩ := Text.exists_intercalate_eq "," hmem
    -- other arguments may follow or not, but the bracket does
    refine ⟨e.fullName ++ "<" ++ before, after ++ ">", ?_, by simp⟩
    rw [fullName, hjoin]
    simp only [String.append_assoc]

/-- The full name of whatever a reference holds, however deep, is written in its own. -/
theorem writtenIn_of_transGen {r p : TypeRef} (h : Relation.TransGen Holds r p) :
    Text.WrittenIn p.fullName r.fullName := by
  induction h with
  | single hstep => exact hstep.writtenIn
  | tail _ hstep ih => exact hstep.writtenIn.trans ih

theorem key_ne_of_transGen {r p : TypeRef} (h : Relation.TransGen Holds r p) : p.key ≠ r.key := by
  intro hkey
  have hname : p.fullName = r.fullName := congrArg TypeKey.fullName hkey
  have hlength := (writtenIn_of_transGen h).length_lt
  rw [hname] at hlength
  exact Nat.lt_irrefl _ hlength

theorem holds_of_mem_followed {p : TypeRef} (r : TypeRef) (hp : p ∈ r.followed) :
    Relation.ReflTransGen Holds r p := by
  refine followed_induct (P := fun r => Relation.ReflTransGen Holds r p) .refl ?_ ?_ r hp
  · intro e args he
    exact .head (.element rfl) he
  · intro e args a ha _ hheld
    exact .head (.argument ha) hheld

/-- An instance has another key than what is looked up for its element and for its arguments. -/
theorem key_ne_of_mem_followed {e p : TypeRef} {args : List TypeRef} (hp : p ∈ e.followed ∨ p ∈ followedOfList args) :
    p.key ≠ (genericInstance e args).key := by
  rcases hp with hp | hp
  · exact key_ne_of_transGen (.head' (.element rfl) (holds_of_mem_followed e hp))
  · obtain ⟨a, ha, -, hp⟩ := mem_followedOfList.1 hp
    exact key_ne_of_transGen (.head' (.argument ha) (holds_of_mem_followed a hp))

/-! ## Names of all shapes -/

/-- **Names are rendered alike for every shape.** The full name is the name behind the namespace and a dot, or the
name alone where the namespace is empty. Namespace and scope are those of the innermost element, which are the ones it
names itself. The full name of a composite is longer, in characters and in octets, than those of its element and of its
arguments, so that a reference shares its key with nothing it holds, however deep. -/
theorem names_consistent (r : TypeRef) :
    r.fullName = (if r.ns = "" then r.name else r.ns ++ "." ++ r.name) ∧
      (Relation.ReflTransGen BuiltOver r r.innermost ∧ r.innermost.element? = none) ∧
      (r.ns = r.innermost.ns ∧ r.scope = r.innermost.scope) ∧
      (r.innermost.ns = r.innermost.ownNs ∧ r.innermost.scope = r.innermost.ownScope) ∧
      (∀ p, Holds r p → p.fullName.length < r.fullName.length ∧
        p.fullName.utf8ByteSize < r.fullName.utf8ByteSize) ∧
      ∀ p, Relation.TransGen Holds r p → p.key ≠ r.key := by
  have hinner := r.reflTransGen_innermost
  refine ⟨fullName_eq_qualify r, ⟨hinner, r.element?_innermost⟩, ⟨ns_of_reflTransGen hinner, scope_eq_innermost r⟩,
    ⟨ns_innermost r, scope_innermost r⟩, ?_, ?_⟩
  · intro p hp
    exact ⟨hp.writtenIn.length_lt, hp.writtenIn.utf8ByteSize_lt⟩
  · intro p hp
    exact key_ne_of_transGen hp

def item : TypeRef := .plain "" "Item" "App"

/-- Where tables of lists of references to items are kept. -/
def tables : TypeRef := .pointer (.array (.genericInstance (.plain "App" "List" "App") [.byReference item]) 2)

theorem names_consistent_tables :
    tables.fullName = "App.List<Item&>[,]*" ∧ tables.innermost = .plain "App" "List" "App" ∧
      tables.ns = tables.innermost.ns ∧ tables.scope = tables.innermost.scope ∧
      (∃ p, Holds tables p ∧ p.fullName.length < tables.fullName.length) ∧
      Relation.TransGen Holds tables item ∧ item.key ≠ tables.key := by
  obtain ⟨hfull, -, ⟨hns, hscope⟩, -, hlonger, hkeys⟩ := names_consistent tables
  have hitem : Relation.TransGen Holds tables item :=
    .head (.element rfl) (.head (.element rfl) (.head (.argument List.mem_cons_self) (.single (.element rfl))))
  have helement : Holds tables (.array (.genericInstance (.plain "App" "List" "App") [.byReference item]) 2) :=
    .element rfl
  exact ⟨hfull.trans (by decide +kernel), rfl, hns, hscope, ⟨_, helement, (hlonger _ helement).1⟩, hitem, hkeys _ hitem⟩

end TypeRef

end Coupling
