/-
What the key of a generic instance tells.

The full name of an instance is that of its element, then the full names of its
arguments between angle brackets, with commas between them. Names are not quoted
there, so the text tells the parts apart only if the names of arguments can be
told from what is around them: their brackets pair up, and their commas stand
inside brackets (`WellBracketed`). Names made by the shapes of references are
such if the names they are made of are (`wellBracketed_fullName`).

The bracket that ends the element is found from the right: no text with a
bracket open before it can end in the same arguments (`split_at_bracket`). The
commas between arguments are the ones outside brackets (`join_inj`). So equal keys
mean equal keys of the elements and equal names of the arguments
(`key_genericInstance_eq_iff`). The scopes of arguments take no part in it.
-/
import Coupling.Proofs.Usage.Meaning

namespace Coupling.TypeRef

/-! ## Brackets -/

/-- How many brackets are open after a character, where `d` are open before it. No bracket may be closed
that is not open, and outside brackets there may be commas only if `free`. -/
def depthStep (free : Bool) (d : Nat) (c : Char) : Option Nat :=
  if c = '<' ∨ c = '[' then some (d + 1)
  else if c = '>' ∨ c = ']' then if d = 0 then none else some (d - 1)
  else if c = ',' ∧ d = 0 ∧ free = false then none
  else some d

/-- How many brackets are open after a text. -/
def depthAfter (free : Bool) (d : Nat) (cs : List Char) : Option Nat := cs.foldlM (depthStep free) d

/-- The brackets of a name pair up, and its commas stand inside them. -/
def WellBracketed (name : String) : Prop := depthAfter false 0 name.toList = some 0

instance (name : String) : Decidable (WellBracketed name) := inferInstanceAs (Decidable (_ = _))

variable {free free' : Bool} {d d' k : Nat} {c : Char} {cs ds : List Char}

@[simp] theorem depthAfter_nil : depthAfter free d [] = some d := rfl

@[simp] theorem depthAfter_cons :
    depthAfter free d (c :: cs) = (depthStep free d c).bind (depthAfter free · cs) := rfl

theorem depthAfter_append :
    depthAfter free d (cs ++ ds) = (depthAfter free d cs).bind (depthAfter free · ds) := List.foldlM_append

theorem depthStep_add (h : depthStep free d c = some d') (hfree : free = true → free' = true ∨ 0 < k) :
    depthStep free' (d + k) c = some (d' + k) := by
  unfold depthStep at h ⊢
  by_cases hopen : c = '<' ∨ c = '['
  · rw [if_pos hopen, Option.some.injEq] at h ⊢
    omega
  · rw [if_neg hopen] at h ⊢
    by_cases hclose : c = '>' ∨ c = ']'
    · rw [if_pos hclose] at h ⊢
      by_cases hd : d = 0
      · rw [if_pos hd] at h
        cases h
      · rw [if_neg hd, Option.some.injEq] at h
        rw [if_neg (by omega), Option.some.injEq]
        omega
    · rw [if_neg hclose] at h ⊢
      by_cases hcomma : c = ',' ∧ d = 0 ∧ free = false
      · rw [if_pos hcomma] at h
        cases h
      · rw [if_neg hcomma, Option.some.injEq] at h
        -- a comma that may stand outside brackets may, and so may one inside them
        have hcomma' : ¬ (c = ',' ∧ d + k = 0 ∧ free' = false) := by
          rintro ⟨hc, hd, hfree'⟩
          cases free with
          | false => exact hcomma ⟨hc, by omega, rfl⟩
          | true =>
            rcases hfree rfl with hfree | hk
            · rw [hfree] at hfree'
              cases hfree'
            · omega
        rw [if_neg hcomma', h]

/-- A text is read in the same way inside more brackets, where commas are free. -/
theorem depthAfter_add (h : depthAfter free d cs = some d') (hfree : free = true → free' = true ∨ 0 < k) :
    depthAfter free' (d + k) cs = some (d' + k) := by
  induction cs generalizing d with
  | nil =>
    rw [depthAfter_nil, Option.some.injEq] at h
    rw [depthAfter_nil, h]
  | cons c cs ih =>
    rw [depthAfter_cons, Option.bind_eq_some_iff] at h
    obtain ⟨d₁, hstep, hrest⟩ := h
    rw [depthAfter_cons, depthStep_add hstep hfree]
    exact ih hrest

/-! ## Where the arguments begin -/

/-- Arguments with balanced brackets do not end in a bracket open before them and other such arguments. -/
theorem not_balanced_of_open (hds : depthAfter true 0 ds = some 0) : depthAfter true 0 (cs ++ '<' :: ds) ≠ some 0 := by
  intro h
  rw [depthAfter_append, Option.bind_eq_some_iff] at h
  obtain ⟨d, -, h⟩ := h
  have hopen : depthStep true d '<' = some (d + 1) := rfl
  have hshift := depthAfter_add (k := d + 1) hds (fun _ => .inl rfl)
  rw [depthAfter_cons, hopen, Option.bind_some, ← Nat.zero_add (d + 1), hshift, Option.some.injEq] at h
  omega

/-- The bracket before balanced arguments is determined. -/
theorem split_at_bracket {es es' as as' : List Char} (has : depthAfter true 0 as = some 0)
    (has' : depthAfter true 0 as' = some 0) (h : es ++ '<' :: as = es' ++ '<' :: as') : es = es' ∧ as = as' := by
  rcases List.append_eq_append_iff.1 h with ⟨bs, rfl, heq⟩ | ⟨bs, rfl, heq⟩
  · cases bs with
    | nil => simpa using heq
    | cons b bs =>
      obtain ⟨-, rfl⟩ := List.cons.inj heq
      exact absurd has (not_balanced_of_open has')
  · cases bs with
    | nil => simpa [eq_comm] using heq
    | cons b bs =>
      obtain ⟨-, rfl⟩ := List.cons.inj heq
      exact absurd has' (not_balanced_of_open has)

/-! ## Where each argument ends -/

/-- What follows an argument: nothing, or a comma and more. -/
def IsRest (cs : List Char) : Prop := ∀ c ∈ cs.head?, c = ','

/-- The end of an argument is determined by the brackets in it. -/
theorem split_at_comma {xs ys rs rs' : List Char} (hxs : depthAfter false 0 xs = some 0)
    (hys : depthAfter false 0 ys = some 0) (hrs : IsRest rs) (hrs' : IsRest rs') (h : xs ++ rs = ys ++ rs') :
    xs = ys ∧ rs = rs' := by
  have hcomma : ∀ us vs : List Char,
      depthAfter false 0 us = some 0 → depthAfter false 0 (us ++ ',' :: vs) ≠ some 0 := by
    intro us vs hus h
    rw [depthAfter_append, hus, Option.bind_some, depthAfter_cons] at h
    cases h
  rcases List.append_eq_append_iff.1 h with ⟨bs, rfl, heq⟩ | ⟨bs, rfl, heq⟩
  · cases bs with
    | nil => simpa using heq
    | cons b bs =>
      obtain rfl : b = ',' := hrs b (by simp [heq])
      exact absurd hys (hcomma xs bs hxs)
  · cases bs with
    | nil => simpa [eq_comm] using heq
    | cons b bs =>
      obtain rfl : b = ',' := hrs' b (by simp [heq])
      exact absurd hxs (hcomma ys bs hys)

/-- Names with commas between them, after the first. -/
def restOf : List (List Char) → List Char
  | [] => []
  | x :: xs => ',' :: [','].intercalate (x :: xs)

theorem isRest_restOf (xs : List (List Char)) : IsRest (restOf xs) := by
  cases xs <;> simp [restOf, IsRest]

theorem intercalate_cons_eq (x : List Char) (xs : List (List Char)) : [','].intercalate (x :: xs) = x ++ restOf xs := by
  cases xs with
  | nil => simp [restOf]
  | cons y ys => simp [restOf, List.intercalate_cons_cons]

/-- Names are told apart by the commas between them, if there are any names. -/
theorem join_inj_of_cons {x y : List Char} {xs ys : List (List Char)}
    (hxs : ∀ z ∈ x :: xs, depthAfter false 0 z = some 0) (hys : ∀ z ∈ y :: ys, depthAfter false 0 z = some 0)
    (h : [','].intercalate (x :: xs) = [','].intercalate (y :: ys)) : x :: xs = y :: ys := by
  induction xs generalizing x y ys with
  | nil =>
    rw [intercalate_cons_eq, intercalate_cons_eq] at h
    obtain ⟨rfl, hrest⟩ := split_at_comma (hxs x (by simp)) (hys y (by simp)) (isRest_restOf _) (isRest_restOf _) h
    cases ys with
    | nil => rfl
    | cons y' ys => cases hrest
  | cons x' xs ih =>
    rw [intercalate_cons_eq, intercalate_cons_eq] at h
    obtain ⟨rfl, hrest⟩ := split_at_comma (hxs x (by simp)) (hys y (by simp)) (isRest_restOf _) (isRest_restOf _) h
    cases ys with
    | nil => cases hrest
    | cons y' ys =>
      have heq := ih (fun z hz => hxs z (List.mem_cons_of_mem _ hz)) (fun z hz => hys z (List.mem_cons_of_mem _ hz))
        (List.cons.inj hrest).2
      rw [heq]

/-- Names are told apart by the commas between them, unless there is one name and it is empty. -/
theorem join_inj {xs ys : List (List Char)} (hxs : ∀ z ∈ xs, depthAfter false 0 z = some 0)
    (hys : ∀ z ∈ ys, depthAfter false 0 z = some 0) (hxs' : xs ≠ [[]]) (hys' : ys ≠ [[]])
    (h : [','].intercalate xs = [','].intercalate ys) : xs = ys := by
  have hempty : ∀ zs : List (List Char), [','].intercalate zs = [] → zs ≠ [[]] → zs = [] := by
    intro zs hzs hne
    cases zs with
    | nil => rfl
    | cons z zs =>
      rw [intercalate_cons_eq, List.append_eq_nil_iff] at hzs
      obtain ⟨rfl, hrest⟩ := hzs
      cases zs with
      | nil => exact absurd rfl hne
      | cons _ _ => cases hrest
  cases xs with
  | nil => exact (hempty ys h.symm hys').symm
  | cons x xs =>
    cases ys with
    | nil => exact hempty _ h hxs'
    | cons y ys => exact join_inj_of_cons hxs hys h

/-- Well bracketed names joined by commas have balanced brackets. -/
theorem balanced_join {xs : List (List Char)} (hxs : ∀ z ∈ xs, depthAfter false 0 z = some 0) :
    depthAfter true 0 ([','].intercalate xs) = some 0 := by
  induction xs with
  | nil => rfl
  | cons x xs ih =>
    have hx : depthAfter true 0 x = some 0 := depthAfter_add (k := 0) (hxs x (by simp)) (by simp)
    rw [intercalate_cons_eq, depthAfter_append, hx, Option.bind_some]
    cases xs with
    | nil => rfl
    | cons y ys => exact ih fun z hz => hxs z (List.mem_cons_of_mem _ hz)

/-! ## Names of references -/

theorem WellBracketed.append {s t : String} (hs : WellBracketed s) (ht : WellBracketed t) : WellBracketed (s ++ t) := by
  unfold WellBracketed at hs ht ⊢
  rw [String.toList_append, depthAfter_append, hs, Option.bind_some, ht]

/-- Inside brackets commas are free. -/
theorem wellBracketed_enclosed {o c : Char} {inner : String} (ho : o = '<' ∨ o = '[') (hc : c = '>' ∨ c = ']')
    (h : depthAfter true 0 inner.toList = some 0) :
    WellBracketed (String.singleton o ++ inner ++ String.singleton c) := by
  have hopen : depthStep false 0 o = some 1 := by simp [depthStep, ho]
  have hclose : depthStep false 1 c = some 0 := by
    rcases hc with rfl | rfl <;> rfl
  have hinner : depthAfter false (0 + 1) inner.toList = some (0 + 1) := depthAfter_add h (fun _ => .inr Nat.one_pos)
  unfold WellBracketed
  rw [String.toList_append, String.toList_append, String.toList_singleton, String.toList_singleton,
    List.singleton_append, List.cons_append, depthAfter_cons, hopen, Option.bind_some, depthAfter_append, hinner,
    Option.bind_some, depthAfter_cons, hclose]
  rfl

theorem wellBracketed_brackets (rank : Nat) : WellBracketed (brackets rank) := by
  have hcommas : ∀ n, depthAfter true 0 (List.replicate n ',') = some 0 := by
    intro n
    induction n with
    | zero => rfl
    | succ n ih => exact ih
  refine wellBracketed_enclosed (o := '[') (c := ']') (.inr rfl) (.inr rfl) ?_
  rw [String.toList_ofList]
  exact hcommas _

theorem balanced_intercalate {names : List String} (h : ∀ n ∈ names, WellBracketed n) :
    depthAfter true 0 (",".intercalate names).toList = some 0 := by
  rw [String.toList_intercalate]
  refine balanced_join fun z hz => ?_
  obtain ⟨n, hn, rfl⟩ := List.mem_map.1 hz
  exact h n hn

mutual

/-- A name is well bracketed if those it is made of are. -/
theorem wellBracketed_fullName : ∀ r : TypeRef,
    (∀ t ∈ r.parts, t.element? = none → WellBracketed t.fullName) → WellBracketed r.fullName
  | .plain .., h | .genericParameter .., h | .functionPointer _, h => h _ (self_mem_parts _) rfl
  | .genericInstance element arguments, h => by
    have helement := wellBracketed_fullName element fun t ht => h t (by simp [parts, ht])
    have harguments := wellBracketed_fullNames arguments fun t ht =>
      h t (List.mem_cons_of_mem _ (List.mem_append_right _ ht))
    have hall := helement.append
      (wellBracketed_enclosed (o := '<') (c := '>') (.inl rfl) (.inl rfl) (balanced_intercalate harguments))
    rw [← String.append_assoc, ← String.append_assoc] at hall
    exact hall
  | .array element rank, h => by
    have helement := wellBracketed_fullName element fun t ht => h t (List.mem_cons_of_mem _ ht)
    exact helement.append (wellBracketed_brackets rank)
  | .byReference element, h => by
    have helement := wellBracketed_fullName element fun t ht => h t (List.mem_cons_of_mem _ ht)
    exact helement.append (by decide)
  | .pointer element, h => by
    have helement := wellBracketed_fullName element fun t ht => h t (List.mem_cons_of_mem _ ht)
    exact helement.append (by decide)

theorem wellBracketed_fullNames : ∀ rs : List TypeRef,
    (∀ t ∈ partsOfList rs, t.element? = none → WellBracketed t.fullName) → ∀ n ∈ fullNames rs, WellBracketed n
  | [], _, _, hn => absurd hn List.not_mem_nil
  | r :: rs, h, n, hn => by
    rw [fullNames, List.mem_cons] at hn
    rcases hn with rfl | hn
    · exact wellBracketed_fullName r fun t ht => h t (List.mem_append_left _ ht)
    · exact wellBracketed_fullNames rs (fun t ht => h t (List.mem_append_right _ ht)) n hn

end

/-! ## Identity -/

/-- Names that can be read off the text that joins them. -/
structure Legible (names : List String) : Prop where
  wellBracketed : ∀ n ∈ names, WellBracketed n
  /-- A single name is not empty, or it would be taken for none. -/
  named : names ≠ [""]

instance (names : List String) : Decidable (Legible names) :=
  decidable_of_iff ((∀ n ∈ names, WellBracketed n) ∧ names ≠ [""]) ⟨fun h => ⟨h.1, h.2⟩, fun h => ⟨h.1, h.2⟩⟩

theorem Legible.inj {xs ys : List String} (hxs : Legible xs) (hys : Legible ys)
    (h : (",".intercalate xs).toList = (",".intercalate ys).toList) : xs = ys := by
  have hchars : ∀ {zs : List String}, Legible zs →
      (∀ z ∈ zs.map String.toList, depthAfter false 0 z = some 0) ∧ zs.map String.toList ≠ [[]] := by
    intro zs hzs
    refine ⟨fun z hz => ?_, fun heq => hzs.named ?_⟩
    · obtain ⟨n, hn, rfl⟩ := List.mem_map.1 hz
      exact hzs.wellBracketed n hn
    · exact List.map_injective_iff.2 (fun _ _ => String.toList_inj.1) heq
  rw [String.toList_intercalate, String.toList_intercalate] at h
  exact List.map_injective_iff.2 (fun _ _ => String.toList_inj.1)
    (join_inj (hchars hxs).1 (hchars hys).1 (hchars hxs).2 (hchars hys).2 h)

/-- What is known of one reference says nothing of the other: neither an answer that is kept, nor that
it is among the seeds, the references to look into or those looked into. -/
structure Apart (a b : TypeRef) : Prop where
  answers : ∀ (s : Resolver) (answer : Option TypeDef),
    (Resolver.keepType a.key answer s).2.types.get? b.key = s.types.get? b.key
  seeds : ∀ rs, b.key ∈ (Usage.seedSet (a :: rs)).keys ↔ b.key ∈ (Usage.seedSet rs).keys
  frontier : ∀ s, b.key ∈ (Usage.addAll s [a]).keys ↔ b.key ∈ s.keys
  processed : ∀ (o : Options) (p : Usage.Progress) (s : Usage.RefSet),
    b.key ∈ (Usage.nextLevel o { p with processed := a.key :: p.processed } s).keys ↔
      b.key ∈ (Usage.nextLevel o p s).keys

/-- References are kept apart just if their keys are different. -/
theorem apart_iff {a b : TypeRef} : Apart a b ↔ a.key ≠ b.key := by
  constructor
  · intro h hkey
    have hmem : b.key ∈ (Usage.addAll ∅ [a]).keys := Usage.keys_addAll.2 (.inr ⟨a, by simp, hkey⟩)
    exact List.not_mem_nil ((h.frontier ∅).1 hmem)
  · intro hne
    refine ⟨fun s answer => ?_, fun rs => ?_, fun s => ?_, fun o p s => ?_⟩
    · unfold Resolver.keepType
      split
      · rfl
      · exact s.types.get?_insert_other _ hne.symm
    · simp [Usage.keys_seedSet, hne]
    · simp [Usage.keys_addAll, hne]
    · unfold Usage.nextLevel SortedMap.keys SortedMap.filter
      simp only [List.mem_map, List.mem_filter]
      refine exists_congr fun x => and_congr_left fun hx => and_congr_right fun _ => ?_
      simp [hx, hne.symm]

variable {args args' : List TypeRef}

/-- The name of an instance tells those of its element and of its arguments. -/
theorem fullName_genericInstance_inj {e e' : TypeRef} (hargs : Legible (args.map fullName))
    (hargs' : Legible (args'.map fullName))
    (h : (genericInstance e args).fullName = (genericInstance e' args').fullName) :
    e.fullName = e'.fullName ∧ args.map fullName = args'.map fullName := by
  have hchars : e.fullName.toList ++ '<' :: (",".intercalate (args.map fullName)).toList =
      e'.fullName.toList ++ '<' :: (",".intercalate (args'.map fullName)).toList := by
    have heq := congrArg String.toList h
    simp only [fullName, fullNames_eq_map, String.toList_append] at heq
    simpa using List.append_cancel_right heq
  obtain ⟨helement, hjoined⟩ := split_at_bracket (balanced_intercalate hargs.wellBracketed)
    (balanced_intercalate hargs'.wellBracketed) hchars
  exact ⟨String.toList_inj.1 helement, hargs.inj hargs' hjoined⟩

theorem forall₂_fullName_iff :
    List.Forall₂ (fun x y => x.fullName = y.fullName) args args' ↔ args.map fullName = args'.map fullName := by
  rw [← List.forall₂_eq_eq_eq, List.forall₂_map_left_iff, List.forall₂_map_right_iff]

/-- Equal keys mean equal keys of the elements and equal names of the arguments. -/
theorem key_genericInstance (e e' : TypeRef) (hargs : Legible (args.map fullName))
    (hargs' : Legible (args'.map fullName)) :
    (genericInstance e args).key = (genericInstance e' args').key ↔
      e.key = e'.key ∧ List.Forall₂ (fun x y => x.fullName = y.fullName) args args' := by
  rw [forall₂_fullName_iff]
  simp only [key, TypeKey.mk.injEq, scope]
  constructor
  · rintro ⟨hname, hscope⟩
    obtain ⟨helement, harguments⟩ := fullName_genericInstance_inj hargs hargs' hname
    exact ⟨⟨helement, hscope⟩, harguments⟩
  · rintro ⟨⟨helement, hscope⟩, harguments⟩
    simp only [fullName, fullNames_eq_map, helement, harguments, hscope, and_self]

/-- **What the key of an instance tells.** Where arguments can be read off the names:
- two instances have one key just if their elements have one and their arguments have the same names;
- if moreover names of arguments tell their scopes, just if elements and arguments have the same keys;
- instances that differ in an element's key, in the number of arguments or in the name of one are kept
apart wherever references are kept by key, and no others are. -/
theorem key_genericInstance_eq_iff (e e' : TypeRef) (hargs : Legible (args.map fullName))
    (hargs' : Legible (args'.map fullName)) :
    ((genericInstance e args).key = (genericInstance e' args').key ↔
        e.key = e'.key ∧ List.Forall₂ (fun x y => x.fullName = y.fullName) args args') ∧
      ((∀ x ∈ args, ∀ y ∈ args', x.fullName = y.fullName → x.scope = y.scope) →
        ((genericInstance e args).key = (genericInstance e' args').key ↔
          e.key = e'.key ∧ List.Forall₂ (fun x y => x.key = y.key) args args')) ∧
      (Apart (genericInstance e args) (genericInstance e' args') ↔
        ¬ (e.key = e'.key ∧ List.Forall₂ (fun x y => x.fullName = y.fullName) args args')) := by
  have hkey := key_genericInstance e e' hargs hargs'
  refine ⟨hkey, fun hscopes => ?_, ?_⟩
  · rw [hkey]
    refine and_congr_right fun _ => ⟨fun hnames => ?_, fun hkeys => ?_⟩
    · rw [List.forall₂_iff_zip] at hnames ⊢
      refine ⟨hnames.1, fun {x y} hxy => ?_⟩
      have hname := hnames.2 hxy
      obtain ⟨hx, hy⟩ := List.of_mem_zip hxy
      simp only [key, TypeKey.mk.injEq]
      exact ⟨hname, hscopes x hx y hy hname⟩
    · exact hkeys.imp fun x y hxy => congrArg TypeKey.fullName hxy
  · rw [apart_iff, Ne, hkey]

/-- A class of a module, with no namespace. -/
def ofModule (scope name : String) : TypeRef := .plain "" name scope

/-- A list of a class, and a table of a parameter. -/
def shelves (scope name : String) : List TypeRef :=
  [.genericInstance (ofModule "Lib" "List") [ofModule scope name], .array (.genericParameter "T" "Shop" []) 2]

theorem legible_shelves (scope : String) {name : String} (hname : WellBracketed name) :
    Legible ((shelves scope name).map fullName) := by
  have hleaves : WellBracketed "List" ∧ WellBracketed "T" := by decide
  have hparts : ∀ t ∈ partsOfList (shelves scope name), t.element? = none → WellBracketed t.fullName := by
    simp [shelves, ofModule, partsOfList, parts, element?, fullName, qualify, hleaves, hname]
  refine ⟨?_, by simp [shelves]⟩
  rw [← fullNames_eq_map]
  exact wellBracketed_fullNames _ hparts

/-- The class in the list tells instances apart, its module does not. -/
theorem key_genericInstance_eq_iff_shelves :
    Apart (.genericInstance (ofModule "Lib" "Map") (shelves "Shop" "Item"))
        (.genericInstance (ofModule "Lib" "Map") (shelves "Shop" "Box")) ∧
      ¬ Apart (.genericInstance (ofModule "Lib" "Map") (shelves "Shop" "Item"))
        (.genericInstance (ofModule "Lib" "Map") (shelves "Mall" "Item")) := by
  have hitem : WellBracketed "Item" := by decide
  have hbox : WellBracketed "Box" := by decide
  constructor
  · refine (key_genericInstance_eq_iff _ _ (legible_shelves _ hitem) (legible_shelves _ hbox)).2.2.2 ?_
    rintro ⟨-, hnames⟩
    cases hnames with
    | cons hlist _ => exact absurd hlist (by decide +kernel)
  · rw [(key_genericInstance_eq_iff _ _ (legible_shelves _ hitem) (legible_shelves _ hitem)).2.2, not_not]
    exact ⟨rfl, .cons rfl (.cons rfl .nil)⟩

/-- Equal keys do not mean more, not even for legible arguments, and less for others:
- arguments may differ in scope;
- a name with a comma outside brackets may be taken for two arguments;
- an argument without a name may be taken for none;
- a name whose brackets do not pair up may hold the end of the element. -/
theorem key_genericInstance_not_faithful :
    (¬ ∀ (e e' : TypeRef) (args args' : List TypeRef), Legible (args.map fullName) → Legible (args'.map fullName) →
      (genericInstance e args).key = (genericInstance e' args').key →
        List.Forall₂ (fun x y => x.key = y.key) args args') ∧
    (¬ ∀ (e e' : TypeRef) (args args' : List TypeRef), args.map fullName ≠ [""] → args'.map fullName ≠ [""] →
      (genericInstance e args).key = (genericInstance e' args').key → args.length = args'.length) ∧
    (¬ ∀ (e e' : TypeRef) (args args' : List TypeRef),
      (∀ a ∈ args, WellBracketed a.fullName) → (∀ a ∈ args', WellBracketed a.fullName) →
      (genericInstance e args).key = (genericInstance e' args').key → args.length = args'.length) ∧
    (¬ ∀ (e e' : TypeRef) (args args' : List TypeRef), args.map fullName ≠ [""] → args'.map fullName ≠ [""] →
      (genericInstance e args).key = (genericInstance e' args').key → e.key = e'.key) := by
  refine ⟨fun h => ?_, fun h => ?_, fun h => ?_, fun h => ?_⟩
  · have hkeys := h (ofModule "App" "List") (ofModule "App" "List") [ofModule "App" "Item"] [ofModule "Lib" "Item"]
      (by decide +kernel) (by decide +kernel) (by decide +kernel)
    cases hkeys with
    | cons hkey _ => exact absurd hkey (by decide +kernel)
  · have hlength := h (ofModule "App" "Map") (ofModule "App" "Map") [ofModule "App" "A", ofModule "App" "B"]
      [ofModule "App" "A,B"] (by decide +kernel) (by decide +kernel) (by decide +kernel)
    cases hlength
  · have hlength := h (ofModule "App" "Map") (ofModule "App" "Map") [] [ofModule "App" ""] (by decide +kernel)
      (by decide +kernel) (by decide +kernel)
    cases hlength
  · have hkey := h (ofModule "App" "L") (.genericInstance (ofModule "App" "L") [ofModule "App" "A"])
      [ofModule "App" "A><B"] [ofModule "App" "B"] (by decide +kernel) (by decide +kernel) (by decide +kernel)
    exact absurd hkey (by decide +kernel)

end Coupling.TypeRef
