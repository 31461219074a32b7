/-
Full names that are parsed.

A full name is split at the last `.` before its first `/`, and rendering joins the
parts again. Splitting undoes rendering exactly for the parts that splitting gives: no
`/` in the namespace, no `.` before the first `/` of the name
(`splitFullName_qualify_iff`, `splitFullName_parts`). Rendering undoes splitting but for
one thing: an empty namespace is not written, so a `.` that stands alone in front of a
name is lost (`StartsWithLoneDot`). Two full names give one reference exactly if they are
equal or differ by such a dot (`parse_keeps_names`).
-/
import Coupling.Proofs.Cutting
import Coupling.TypeRef
import Mathlib.Data.List.TakeWhile

namespace Coupling

/-! ## Splitting -/

/-- A text that splits off no namespace: there is no `.` before its first `/`. -/
def Unqualified (full : String) : Prop := '.' ∉ full.toList.takeWhile (· != '/')

theorem splitFullName_of_unqualified {full : String} (h : Unqualified full) : splitFullName full = ("", full) := by
  simp only [splitFullName, Text.cutLast_eq_none_iff.2 h]

/-- A namespace and a name are found again in the text that joins them. -/
theorem splitFullName_qualified {ns name : String} (hns : '/' ∉ ns.toList) (hname : Unqualified name) :
    splitFullName (ns ++ "." ++ name) = (ns, name) := by
  have hchars : (ns ++ "." ++ name).toList = (ns.toList ++ ['.']) ++ name.toList := by simp
  have hfront : ∀ c ∈ ns.toList ++ ['.'], (c != '/') = true := by
    intro c hc
    rcases List.mem_append.1 hc with hc | hc
    · exact bne_iff_ne.2 fun heq => hns (heq ▸ hc)
    · rw [List.mem_singleton.1 hc]
      rfl
  have hcut : Text.cutLast '.' ((ns.toList ++ ['.']) ++ name.toList.takeWhile (· != '/')) =
      some (ns.toList, name.toList.takeWhile (· != '/')) := by
    rw [List.append_assoc]
    exact Text.cutLast_append _ hname
  simp only [splitFullName, hchars, List.takeWhile_append_of_pos hfront, List.dropWhile_append_of_pos hfront, hcut,
    List.takeWhile_append_dropWhile, String.ofList_toList]

/-- A text with a `.` before its first `/` is a namespace and a name. -/
theorem exists_qualified {full : String} (h : ¬ Unqualified full) :
    ∃ ns name, full = ns ++ "." ++ name ∧ '/' ∉ ns.toList ∧ Unqualified name := by
  cases hcut : Text.cutLast '.' (full.toList.takeWhile (· != '/')) with
  | none => exact absurd (Text.cutLast_eq_none_iff.1 hcut) h
  | some cut =>
    obtain ⟨ns, name⟩ := cut
    obtain ⟨hfront, hdot⟩ := Text.cutLast_eq_some_iff.1 hcut
    have hslash : ∀ c ∈ ns ++ ['.'], (c != '/') = true := by
      intro c hc
      refine List.mem_takeWhile_imp (p := (· != '/')) (l := full.toList) ?_
      rw [hfront]
      rcases List.mem_append.1 hc with hc | hc
      · simp [hc]
      · simp [List.mem_singleton.1 hc]
    have hwhole : full.toList = (ns ++ ['.']) ++ (name ++ full.toList.dropWhile (· != '/')) := by
      have hparts := List.takeWhile_append_dropWhile (p := (· != '/')) (l := full.toList)
      rw [hfront] at hparts
      simpa using hparts.symm
    -- what is left of the front behind the cut is the front of the name
    have hname : (name ++ full.toList.dropWhile (· != '/')).takeWhile (· != '/') = name := by
      rw [hwhole, List.takeWhile_append_of_pos hslash] at hfront
      simpa using hfront
    refine ⟨String.ofList ns, String.ofList (name ++ full.toList.dropWhile (· != '/')), ?_, ?_, ?_⟩
    · refine String.toList_injective ?_
      simpa using hwhole
    · intro hmem
      have hne := hslash '/' (List.mem_append_left _ (by simpa using hmem))
      simp at hne
    · rw [Unqualified, String.toList_ofList, hname]
      exact hdot

/-- There is no `/` in the namespace of any text, and its name splits off no namespace. -/
theorem splitFullName_parts (full : String) :
    '/' ∉ (splitFullName full).1.toList ∧ Unqualified (splitFullName full).2 := by
  by_cases hunqualified : Unqualified full
  · rw [splitFullName_of_unqualified hunqualified]
    exact ⟨by simp, hunqualified⟩
  · obtain ⟨ns, name, rfl, hns, hname⟩ := exists_qualified hunqualified
    rw [splitFullName_qualified hns hname]
    exact ⟨hns, hname⟩

/-- Splitting undoes rendering for such parts and for no others. -/
theorem splitFullName_qualify_iff {ns name : String} :
    splitFullName (qualify ns name) = (ns, name) ↔ '/' ∉ ns.toList ∧ Unqualified name := by
  constructor
  · intro hsplit
    have hparts := splitFullName_parts (qualify ns name)
    rw [hsplit] at hparts
    exact hparts
  · rintro ⟨hns, hname⟩
    by_cases hempty : ns = ""
    · rw [qualify, if_pos hempty, splitFullName_of_unqualified hname, hempty]
    · rw [qualify, if_neg hempty, splitFullName_qualified hns hname]

/-! ## Names of nested types -/

theorem takeWhile_slash (cs rest : List Char) :
    (cs ++ '/' :: rest).takeWhile (· != '/') = cs.takeWhile (· != '/') := by
  induction cs with
  | nil => simp
  | cons c cs ih =>
    by_cases hc : c = '/'
    · simp [hc]
    · simp [hc, ih]

theorem unqualified_slash_iff (full rest : String) : Unqualified (full ++ "/" ++ rest) ↔ Unqualified full := by
  have hchars : (full ++ "/" ++ rest).toList = full.toList ++ '/' :: rest.toList := by simp
  rw [Unqualified, Unqualified, hchars, takeWhile_slash]

/-- What follows a `/` belongs to the name and leaves the namespace as it is. -/
theorem splitFullName_slash (full rest : String) :
    splitFullName (full ++ "/" ++ rest) = ((splitFullName full).1, (splitFullName full).2 ++ "/" ++ rest) := by
  by_cases hunqualified : Unqualified full
  · rw [splitFullName_of_unqualified hunqualified,
      splitFullName_of_unqualified ((unqualified_slash_iff full rest).2 hunqualified)]
  · obtain ⟨ns, name, rfl, hns, hname⟩ := exists_qualified hunqualified
    have hlonger := splitFullName_qualified hns ((unqualified_slash_iff name rest).2 hname)
    rw [splitFullName_qualified hns hname, ← hlonger]
    simp only [String.append_assoc]

/-- The name is the end of the text that was split. -/
theorem splitFullName_snd_suffix (full : String) : (splitFullName full).2.toList <:+ full.toList := by
  by_cases hunqualified : Unqualified full
  · simp [splitFullName_of_unqualified hunqualified]
  · obtain ⟨ns, name, rfl, hns, hname⟩ := exists_qualified hunqualified
    rw [splitFullName_qualified hns hname, String.toList_append]
    exact List.suffix_append _ _

/-! ## Parsing -/

/-- A text whose first character is a `.`, the only one before its first `/`. -/
def StartsWithLoneDot (full : String) : Prop := ∃ name, full = "." ++ name ∧ Unqualified name

theorem StartsWithLoneDot.splitFullName {full : String} (h : StartsWithLoneDot full) :
    ∃ name, full = "." ++ name ∧ Coupling.splitFullName full = ("", name) := by
  obtain ⟨name, rfl, hname⟩ := h
  have hsplit : Coupling.splitFullName ("" ++ "." ++ name) = ("", name) := splitFullName_qualified (by simp) hname
  exact ⟨name, rfl, hsplit⟩

theorem dot_append_ne (s : String) : "." ++ s ≠ s := by
  intro heq
  have hdot : ".".length = 1 := rfl
  have hlength := congrArg String.length heq
  rw [String.length_append, hdot] at hlength
  omega

namespace TypeRef

/-- A full name is kept, or it loses the dot in front of it. -/
theorem fullName_parse (full scope : String) :
    StartsWithLoneDot full ∧ full = "." ++ (parse full scope).fullName ∨
      ¬ StartsWithLoneDot full ∧ (parse full scope).fullName = full := by
  have hrendered : (parse full scope).fullName = qualify (splitFullName full).1 (splitFullName full).2 := rfl
  rw [hrendered]
  by_cases hunqualified : Unqualified full
  · have hsplit := splitFullName_of_unqualified hunqualified
    refine .inr ⟨fun hdot => ?_, by rw [hsplit]; rfl⟩
    obtain ⟨name, hfull, hdotted⟩ := hdot.splitFullName
    have hname : full = name := congrArg Prod.snd (hsplit.symm.trans hdotted)
    exact dot_append_ne name (hfull.symm.trans hname)
  · obtain ⟨ns, name, rfl, hns, hname⟩ := exists_qualified hunqualified
    have hsplit := splitFullName_qualified hns hname
    rw [hsplit]
    by_cases hempty : ns = ""
    · subst hempty
      exact .inl ⟨⟨name, rfl, hname⟩, rfl⟩
    · refine .inr ⟨fun hdot => ?_, by rw [qualify, if_neg hempty]⟩
      obtain ⟨name', -, hdotted⟩ := hdot.splitFullName
      exact hempty (congrArg Prod.fst (hsplit.symm.trans hdotted))

theorem fullName_parse_eq_iff (full scope : String) :
    (parse full scope).fullName = full ↔ ¬ StartsWithLoneDot full := by
  rcases fullName_parse full scope with ⟨hdot, hfull⟩ | ⟨hdot, hfull⟩
  · exact ⟨fun heq => absurd (heq ▸ hfull).symm (dot_append_ne full), fun hnot => absurd hdot hnot⟩
  · exact ⟨fun _ => hdot, fun _ => hfull⟩

theorem startsWithLoneDot_iff (full scope : String) :
    StartsWithLoneDot full ↔ full = "." ++ (parse full scope).fullName := by
  rcases fullName_parse full scope with ⟨hdot, hfull⟩ | ⟨hdot, hfull⟩
  · exact ⟨fun _ => hfull, fun _ => hdot⟩
  · exact ⟨fun hlone => absurd hlone hdot, fun heq => absurd (heq.symm.trans hfull.symm) (dot_append_ne _)⟩

/-- A name and the text with a lone dot in front of it give references of the same full name. -/
theorem fullName_parse_dot {full name : String} (h : StartsWithLoneDot full) (hfull : full = "." ++ name)
    (scope : String) : (parse full scope).fullName = (parse name scope).fullName := by
  obtain ⟨name', hdot, hunqualified⟩ := h
  obtain rfl : name = name' := (String.append_right_inj ".").1 (hfull.symm.trans hdot)
  have hname : (parse name scope).fullName = name := by
    rw [parse, splitFullName_of_unqualified hunqualified]
    rfl
  have hlost := (startsWithLoneDot_iff full scope).1 ⟨name, hdot, hunqualified⟩
  exact ((String.append_right_inj ".").1 (hlost.symm.trans hfull)).trans hname.symm

theorem key_parse_eq_iff (full full' scope : String) :
    (parse full scope).key = (parse full' scope).key ↔
      (parse full scope).fullName = (parse full' scope).fullName := by
  have hscope (full : String) : (parse full scope).scope = scope := rfl
  simp [key, hscope]

/-- **Parsing keeps full names but for a lone dot in front**: then the namespace is empty, and the dot is not written.
Two full names give references of one key exactly if they are equal or one is the other behind such a dot. -/
theorem parse_keeps_names (full full' scope : String) :
    ((parse full scope).fullName = full ↔ ¬ StartsWithLoneDot full) ∧
      (StartsWithLoneDot full ↔ full = "." ++ (parse full scope).fullName) ∧
      ((parse full scope).key = (parse full' scope).key ↔
        full = full' ∨ StartsWithLoneDot full ∧ full = "." ++ full' ∨
          StartsWithLoneDot full' ∧ full' = "." ++ full) := by
  refine ⟨fullName_parse_eq_iff full scope, startsWithLoneDot_iff full scope, ?_⟩
  rw [key_parse_eq_iff]
  constructor
  · intro heq
    rcases fullName_parse full scope with ⟨hdot, hfull⟩ | ⟨-, hfull⟩ <;>
      rcases fullName_parse full' scope with ⟨hdot', hfull'⟩ | ⟨-, hfull'⟩
    · exact .inl (by rw [hfull, heq, ← hfull'])
    · exact .inr (.inl ⟨hdot, by rw [hfull, heq, hfull']⟩)
    · exact .inr (.inr ⟨hdot', by rw [hfull', ← heq, hfull]⟩)
    · exact .inl (hfull.symm.trans (heq.trans hfull'))
  · rintro (rfl | ⟨hdot, hfull⟩ | ⟨hdot, hfull⟩)
    · rfl
    · exact fullName_parse_dot hdot hfull scope
    · exact (fullName_parse_dot hdot hfull scope).symm

/-- A lone dot in front of a name is lost. -/
theorem parse_loses_lone_dot :
    (parse ".Order" "Shop").fullName ≠ ".Order" ∧ ".Order" ≠ "Order" ∧
      (parse ".Order" "Shop").key = (parse "Order" "Shop").key := by
  decide

end TypeRef

end Coupling
