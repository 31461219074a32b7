/-
What lies in a namespace.

A namespace is a path of segments with dots between them. One lies in another
exactly if its segments begin with those of the other (`inNamespace_iff`), whatever
the segments are, empty ones included. The namespace of a reference is the one that
its innermost element names, if that is a plain reference, and else the empty one
(`ns_eq_ownNs`), so a filter by namespaces looks through all shapes around it
(`namespaceFilters_exact`).
-/
import Coupling.Filter
import Coupling.Proofs.Cutting
import Mathlib.Logic.Relation

namespace Coupling

/-! ## Segments -/

/-- The pieces of a namespace between its dots. -/
def segments (ns : String) : List (List Char) := ns.toList.splitOn '.'

theorem intercalate_append {c : Char} {xs ys : List (List Char)} (hxs : xs ≠ []) (hys : ys ≠ []) :
    [c].intercalate (xs ++ ys) = [c].intercalate xs ++ c :: [c].intercalate ys := by
  induction xs with
  | nil => exact absurd rfl hxs
  | cons x xs ih =>
    cases xs with
    | nil => simp [List.intercalate_cons_of_ne_nil hys]
    | cons x' xs =>
      rw [List.cons_append, List.cons_append, List.intercalate_cons_cons, List.intercalate_cons_cons,
        ← List.cons_append, ih (List.cons_ne_nil _ _)]
      simp

/-- The pieces of a text begin with those of another if it is that text, or goes on with a separator. -/
theorem splitOn_prefix_iff {c : Char} {p s : List Char} :
    p.splitOn c <+: s.splitOn c ↔ s = p ∨ ∃ rest, s = p ++ c :: rest := by
  constructor
  · rintro ⟨more, hmore⟩
    have hs : s = [c].intercalate (p.splitOn c ++ more) := by rw [hmore, List.intercalate_splitOn]
    by_cases hnil : more = []
    · rw [hnil, List.append_nil, List.intercalate_splitOn] at hs
      exact .inl hs
    · rw [intercalate_append (List.splitOn_ne_nil c p) hnil, List.intercalate_splitOn] at hs
      exact .inr ⟨_, hs⟩
  · rintro (rfl | ⟨rest, rfl⟩)
    · exact List.prefix_rfl
    · rw [List.splitOn_append_cons_self]
      exact List.prefix_append _ _

/-- **A namespace lies in another if its segments begin with those of the other.** -/
theorem inNamespace_iff (ns parent : String) : inNamespace ns parent = true ↔ segments parent <+: segments ns := by
  rw [segments, segments, splitOn_prefix_iff, inNamespace]
  cases hafter : Text.after? parent.toList ns.toList with
  | none =>
    have hnot (rest : List Char) : ns.toList ≠ parent.toList ++ rest := fun heq => by
      rw [Text.after?_eq_some_iff.2 heq] at hafter
      cases hafter
    have hself := hnot []
    rw [List.append_nil] at hself
    simp [hself, hnot]
  | some rest =>
    rw [Text.after?_eq_some_iff.1 hafter]
    cases rest with
    | nil => simp
    | cons c cs => simp

example : inNamespace "A.BC" "A.B" = false := by decide

example : inNamespace "A..C" "A." = true := by decide

/-! ## Elements -/

namespace TypeRef

/-- What a reference is built over, followed as far as it goes. -/
def innermost : TypeRef → TypeRef
  | .genericInstance e _ | .array e _ | .byReference e | .pointer e => e.innermost
  | r => r

/-- The namespace that a reference itself names: a plain one does, no other shape. -/
def ownNs : TypeRef → String
  | .plain ns _ _ => ns
  | _ => ""

/-- The first reference is built over the second. -/
def BuiltOver (r e : TypeRef) : Prop := r.element? = some e

theorem reflTransGen_innermost : ∀ r : TypeRef, Relation.ReflTransGen BuiltOver r r.innermost
  | .genericInstance e _ | .array e _ | .byReference e | .pointer e => .head rfl (reflTransGen_innermost e)
  | .plain .. | .genericParameter .. | .functionPointer _ => .refl

theorem element?_innermost : ∀ r : TypeRef, r.innermost.element? = none
  | .genericInstance e _ | .array e _ | .byReference e | .pointer e => element?_innermost e
  | .plain .. | .genericParameter .. | .functionPointer _ => rfl

theorem BuiltOver.ns_eq {r e : TypeRef} (h : BuiltOver r e) : r.ns = e.ns := by
  cases r with
  | genericInstance | array | byReference | pointer =>
    cases h
    rfl
  | plain | genericParameter | functionPointer => cases h

/-- Whatever is built over a reference has its namespace. -/
theorem ns_of_reflTransGen {r e : TypeRef} (h : Relation.ReflTransGen BuiltOver r e) : r.ns = e.ns := by
  induction h with
  | refl => rfl
  | tail _ hstep ih => rw [ih, hstep.ns_eq]

theorem ns_innermost : ∀ r : TypeRef, r.innermost.ns = r.innermost.ownNs
  | .genericInstance e _ | .array e _ | .byReference e | .pointer e => ns_innermost e
  | .plain .. | .genericParameter .. | .functionPointer _ => rfl

/-- The namespace of a reference is named by its innermost element. -/
theorem ns_eq_ownNs (r : TypeRef) : r.ns = r.innermost.ownNs :=
  (ns_of_reflTransGen r.reflTransGen_innermost).trans r.ns_innermost

end TypeRef

/-! ## Filters -/

namespace TypeFilter

/-- **Filters by namespaces compare segments of the innermost element's namespace.** A namespace lies in another
exactly if its segments begin with those of the other. Types in some namespaces are those whose innermost element
names a namespace that lies in one of them, where generic parameters and function pointers are in the empty one; all
other types are those in none of them. -/
theorem namespaceFilters_exact (namespaces : List String) (t : TypeRef) :
    (∀ ns parent, inNamespace ns parent = true ↔ segments parent <+: segments ns) ∧
      (Relation.ReflTransGen TypeRef.BuiltOver t t.innermost ∧ t.innermost.element? = none) ∧
      ((includingNamespaces namespaces).accepts t = true ↔
        ∃ parent ∈ namespaces, segments parent <+: segments t.innermost.ownNs) ∧
      (excludingNamespaces namespaces).accepts t = !(includingNamespaces namespaces).accepts t := by
  refine ⟨inNamespace_iff, ⟨t.reflTransGen_innermost, t.element?_innermost⟩, ?_, rfl⟩
  rw [includingNamespaces, List.any_eq_true, t.ns_eq_ownNs]
  simp only [inNamespace_iff]

end TypeFilter

end Coupling
