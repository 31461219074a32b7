/-
Reading back written images.

`Reads` says that a part of an image is read from its written form wherever the
form fits the room. It is shown of every part that `Fits`: whose numbers are in
the range of their fields and whose operands are no doubles. Main statement:
`read_write_self`, for images that nest as deep as one may be read.
-/
import Coupling.Image.Reader
import Coupling.Proofs.Json.RoundTrip

namespace Coupling

open Json (Record)

/-! ## Parts that fit -/

namespace TypeRefImage

mutual

/-- Whether the ranks in a reference are in range. -/
def Fits : TypeRefImage → Prop
  | .own _ | .plain _ _ | .functionPointer => True
  | .genericParameter _ _ constraints => AllFit constraints
  | .genericInstance element arguments => element.Fits ∧ AllFit arguments
  | .array element rank => element.Fits ∧ rank ≤ rankMax
  | .byReference element | .pointer element => element.Fits

def AllFit : List TypeRefImage → Prop
  | [] => True
  | r :: rs => r.Fits ∧ AllFit rs

end

end TypeRefImage

def GenericParamImage.Fits (p : GenericParamImage) : Prop := ∀ r ∈ p.constraints, r.Fits

/-- Whether the numbers of an operand are in range. No double is: it need not be the one its text is read as. -/
def OperandImage.Fits : OperandImage → Prop
  | .type r => r.Fits
  | .method declaring _ returns params => declaring.Fits ∧ (∀ r ∈ returns, r.Fits) ∧ ∀ r ∈ params, r.Fits
  | .field declaring _ fieldType => declaring.Fits ∧ fieldType.Fits
  | .localVar index | .argument index => index ≤ indexMax
  | .target offset => offset ≤ wordMax
  | .switch targets => ∀ offset ∈ targets, offset ≤ wordMax
  | .int value => -0x8000000000000000 ≤ value ∧ value < 0x8000000000000000
  | .float _ => False
  | .string _ => True

def InstructionImage.Fits (i : InstructionImage) : Prop :=
  (∀ offset ∈ i.offset, offset ≤ OperandImage.wordMax) ∧ ∀ o ∈ i.operand, o.Fits

structure MethodImage.Fits (m : MethodImage) : Prop where
  returns : ∀ r ∈ m.returns, r.Fits
  params : ∀ p ∈ m.params, p.type.Fits
  genericParams : ∀ p ∈ m.genericParams, p.Fits
  body : ∀ code ∈ m.body, ∀ i ∈ code, i.Fits

namespace TypeImage

mutual

def Fits : TypeImage → Prop
  | ⟨_, _, _, _, base, interfaces, genericParams, attributes, fields, methods, nested⟩ =>
    (∀ r ∈ base, r.Fits) ∧ (∀ r ∈ interfaces, r.Fits) ∧ (∀ p ∈ genericParams, p.Fits) ∧
      (∀ r ∈ attributes, r.Fits) ∧ (∀ f ∈ fields, f.type.Fits) ∧ (∀ m ∈ methods, m.Fits) ∧ AllFit nested

def AllFit : List TypeImage → Prop
  | [] => True
  | t :: ts => t.Fits ∧ AllFit ts

end

end TypeImage

/-- Whether every number of an image is in the range of its field and no operand is a double. -/
def ModuleImage.Fits (m : ModuleImage) : Prop := TypeImage.AllFit m.types

/-! ## Reading lists and fields -/

namespace Json

variable {α : Type} {read : Nat → Json → Option α} {form : α → Json}

/-- A value is read from its written form wherever the form fits the room. -/
def Reads (read : Nat → Json → Option α) (form : α → Json) (a : α) : Prop :=
  ∀ room, (form a).depth ≤ room → read room (form a) = some a

theorem mapM_forms {as : List α} (h : ∀ a ∈ as, Reads read form a) {room : Nat}
    (hdepth : ∀ j ∈ as.map form, j.depth ≤ room) : (as.map form).mapM (read room) = some as := by
  induction as with
  | nil => rfl
  | cons a as ih =>
    obtain ⟨ha, has⟩ := List.forall_mem_cons.1 h
    obtain ⟨hroom, hrooms⟩ := List.forall_mem_cons.1 hdepth
    simp [ha room hroom, ih has hrooms]

theorem reads_list {as : List α} (h : ∀ a ∈ as, Reads read form a) :
    Reads (fun room => listOf? room read) (list form) as := by
  intro room hdepth
  obtain ⟨inner, rfl, hitems⟩ := depth_array_le.1 hdepth
  exact mapM_forms h hitems

theorem reads_nat {n max : Nat} (h : n ≤ max) : Reads (fun _ => nat? max) nat n := by
  intro _ _
  simp only [nat, nat?, h, if_true]

theorem reads_string (s : String) : Reads (fun _ => string?) string s := fun _ _ => rfl

/-- An object of just the named fields is their record. -/
@[simp]
theorem record?_object {names : List String} {fields : List (String × Json)} (h : fields.map Prod.fst = names)
    (hnames : names.Nodup) : record? names (.object fields) = some fields := by
  subst h
  have hknown : fields.filter (fun m => (fields.map Prod.fst).contains m.1) = fields := by
    rw [List.filter_eq_self]
    intro m hm
    rw [List.contains_iff_mem]
    exact List.mem_map_of_mem hm
  unfold record?
  dsimp only
  rw [hknown, if_pos hnames]

namespace Record

variable {r : Record} {k name : String} {j : Json} {item : Json → Option α} {default : α}

theorem lookup_cons_ne (h : name ≠ k) : List.lookup name ((k, j) :: r) = List.lookup name r := by
  rw [List.lookup_cons, beq_false_of_ne h]

@[simp]
theorem required_cons_self : required ((name, j) :: r) name item = item j := by
  rw [required, List.lookup_cons_self, Option.bind_some]

@[simp]
theorem required_cons_ne (h : name ≠ k) : required ((k, j) :: r) name item = required r name item := by
  rw [required, lookup_cons_ne h, required]

@[simp]
theorem withDefault_cons_self : withDefault ((name, j) :: r) name default item = item j := by
  rw [withDefault, List.lookup_cons_self]

@[simp]
theorem withDefault_cons_ne (h : name ≠ k) :
    withDefault ((k, j) :: r) name default item = withDefault r name default item := by
  rw [withDefault, lookup_cons_ne h, withDefault]

@[simp]
theorem optional_cons_ne (h : name ≠ k) : optional ((k, j) :: r) name item = optional r name item := by
  rw [optional, lookup_cons_ne h, optional]

/-- An optional field is written as null only if it is missing. -/
theorem optional_ofOption {o : Option α} (h : ∀ a ∈ o, Reads read form a) (hnull : ∀ a, form a ≠ .null) {room : Nat}
    (hdepth : (ofOption form o).depth ≤ room) (r : Record) (name : String) :
    optional ((name, ofOption form o) :: r) name (read room) = some o := by
  cases o with
  | none => simp [optional, ofOption]
  | some a =>
    have hread : read room (form a) = some a := h a rfl room hdepth
    simp only [optional, List.lookup_cons_self, ofOption]
    split
    · contradiction
    · rename_i hform
      exact absurd (Option.some.inj hform) (hnull a)
    · rename_i hform
      rw [← Option.some.inj hform, hread, Option.map_some]

end Record

theorem exact_nat {n : Nat} (h : n ≤ 0xFFFFFFFF) : (nat n).Exact := by
  rw [nat, Exact]
  omega

theorem exact_list {as : List α} (h : ∀ a ∈ as, (form a).Exact) : (list form as).Exact := by
  rw [list, Exact, allExact_iff]
  intro j hj
  obtain ⟨a, ha, rfl⟩ := List.mem_map.1 hj
  exact h a ha

theorem exact_ofOption {o : Option α} (h : ∀ a ∈ o, (form a).Exact) : (ofOption form o).Exact := by
  cases o with
  | none => simp only [ofOption, Exact]
  | some a => exact h a rfl

end Json

open Json (Reads)

/-! ## References -/

namespace TypeRefImage

theorem toJsons_eq_map (rs : List TypeRefImage) : toJsons rs = rs.map toJson := by
  induction rs with
  | nil => rw [toJsons, List.map_nil]
  | cons r rs ih => rw [toJsons, ih, List.map_cons]

theorem exact_tagged {kind : String} {fields : List (String × Json)} :
    (tagged kind fields).Exact ↔ Json.MembersExact fields := by
  simp [tagged, Json.Exact, Json.MembersExact]

/-- The kind of a spelled-out shape is told from its fields. -/
theorem untag?_tagged {kind : String} {fields : List (String × Json)} (h : ∀ m ∈ fields, m.1 ≠ "kind") :
    (tagged kind fields).untag? "kind" = some (.string kind, .object fields) := by
  have htags : fields.filter (fun m => m.1 == "kind") = [] := by
    rw [List.filter_eq_nil_iff]
    intro m hm
    simpa using h m hm
  have hfields : fields.filter (fun m => m.1 != "kind") = fields := by
    rw [List.filter_eq_self]
    intro m hm
    simpa using h m hm
  simp [tagged, Json.untag?, htags, hfields]

theorem toJson_ne_null (r : TypeRefImage) : r.toJson ≠ .null := by
  cases r <;> simp [toJson, tagged]

mutual

theorem exact_toJson : ∀ r : TypeRefImage, r.Fits → r.toJson.Exact
  | .own _, _ => by simp only [toJson, Json.Exact]
  | .plain _ scope, _ => by
    have hscope : (Json.ofOption .string scope).Exact := Json.exact_ofOption fun s _ => by simp only [Json.Exact]
    simp [toJson, exact_tagged, Json.Exact, Json.MembersExact, hscope]
  | .genericParameter _ _ rs, h => by
    rw [Fits] at h
    simp [toJson, exact_tagged, Json.Exact, Json.MembersExact, exact_toJsons rs h]
  | .genericInstance r rs, h => by
    rw [Fits] at h
    simp [toJson, exact_tagged, Json.Exact, Json.MembersExact, exact_toJson r h.1, exact_toJsons rs h.2]
  | .array r rank, h => by
    rw [Fits] at h
    simp [toJson, exact_tagged, Json.MembersExact, exact_toJson r h.1, Json.exact_nat h.2]
  | .byReference r, h | .pointer r, h => by
    rw [Fits] at h
    simp [toJson, exact_tagged, Json.MembersExact, exact_toJson r h]
  | .functionPointer, _ => by simp [toJson, exact_tagged, Json.MembersExact]

theorem exact_toJsons : ∀ rs : List TypeRefImage, AllFit rs → Json.AllExact (toJsons rs)
  | [], _ => by simp only [toJsons, Json.AllExact]
  | r :: rs, h => by
    rw [AllFit] at h
    rw [toJsons, Json.AllExact]
    exact ⟨exact_toJson r h.1, exact_toJsons rs h.2⟩

end

mutual

-- Inside a shape there is room for one level less, and inside a list in it for two less.
/-- **A reference is understood from its written form.** -/
theorem reads_understand? : ∀ r : TypeRefImage, r.Fits → Reads understand? toJson r
  | .own name, _ => by
    intro room _
    rw [toJson]
    cases room <;> rfl
  | .plain name scope, _ => by
    intro room hdepth
    obtain ⟨inner, rfl, hfields⟩ := Json.depth_object_le.1 hdepth
    simp only [List.forall_mem_cons] at hfields
    have hscope := Json.Record.optional_ofOption (fun s _ => Json.reads_string s) (fun s => by simp) hfields.2.2.1
    simp [understand?, toJson, tagged, Json.untag?, kind?, kinds, Json.string?, hscope]
  | .genericParameter name owner rs, h => by
    intro room hdepth
    rw [Fits] at h
    obtain ⟨inner, rfl, hfields⟩ := Json.depth_object_le.1 hdepth
    simp only [List.forall_mem_cons, toJsons_eq_map] at hfields
    obtain ⟨inmost, rfl, hconstraints⟩ := Json.depth_array_le.1 hfields.2.2.2.1
    have hread := Json.mapM_forms (reads_understand?_all rs h) hconstraints
    simp [understand?, toJson, toJsons_eq_map, tagged, Json.untag?, kind?, kinds, Json.string?, hread]
  | .genericInstance r rs, h => by
    intro room hdepth
    rw [Fits] at h
    obtain ⟨inner, rfl, hfields⟩ := Json.depth_object_le.1 hdepth
    simp only [List.forall_mem_cons, toJsons_eq_map] at hfields
    obtain ⟨inmost, rfl, harguments⟩ := Json.depth_array_le.1 hfields.2.2.1
    have helement := reads_understand? r h.1 _ hfields.2.1
    have hread := Json.mapM_forms (reads_understand?_all rs h.2) harguments
    simp [understand?, toJson, toJsons_eq_map, tagged, Json.untag?, kind?, kinds, helement, hread]
  | .array r rank, h => by
    intro room hdepth
    rw [Fits] at h
    obtain ⟨inner, rfl, hfields⟩ := Json.depth_object_le.1 hdepth
    simp only [List.forall_mem_cons] at hfields
    have helement := reads_understand? r h.1 inner hfields.2.1
    simp [understand?, toJson, tagged, Json.untag?, kind?, kinds, Json.nat, Json.nat?, helement, h.2]
  | .byReference r, h => by
    intro room hdepth
    rw [Fits] at h
    obtain ⟨inner, rfl, hfields⟩ := Json.depth_object_le.1 hdepth
    simp only [List.forall_mem_cons] at hfields
    have helement := reads_understand? r h inner hfields.2.1
    simp [understand?, toJson, tagged, Json.untag?, kind?, kinds, helement]
  | .pointer r, h => by
    intro room hdepth
    rw [Fits] at h
    obtain ⟨inner, rfl, hfields⟩ := Json.depth_object_le.1 hdepth
    simp only [List.forall_mem_cons] at hfields
    have helement := reads_understand? r h inner hfields.2.1
    simp [understand?, toJson, tagged, Json.untag?, kind?, kinds, helement]
  | .functionPointer, _ => by
    intro room hdepth
    obtain ⟨inner, rfl, -⟩ := Json.depth_object_le.1 hdepth
    simp [understand?, toJson, tagged, Json.untag?, kind?, kinds, isFieldless]

theorem reads_understand?_all : ∀ rs : List TypeRefImage, AllFit rs → ∀ r ∈ rs, Reads understand? toJson r
  | [], _ => List.forall_mem_nil _
  | r :: rs, h => by
    rw [AllFit] at h
    exact List.forall_mem_cons.2 ⟨reads_understand? r h.1, reads_understand?_all rs h.2⟩

end

theorem reads {r : TypeRefImage} (h : r.Fits) : Reads ofJson? toJson r := by
  intro room hdepth
  have hreadable := Json.readable_of_exact r.toJson room (exact_toJson r h) hdepth
  rw [ofJson?, if_pos hreadable]
  exact reads_understand? r h room hdepth

end TypeRefImage

/-! ## Members -/

namespace GenericParamImage

theorem exact_toJson {p : GenericParamImage} (h : p.Fits) : p.toJson.Exact := by
  have hconstraints := Json.exact_list fun r hr => TypeRefImage.exact_toJson r (h r hr)
  simp [toJson, Json.Exact, Json.MembersExact, hconstraints]

theorem reads {p : GenericParamImage} (h : p.Fits) : Reads ofJson? toJson p := by
  intro room hdepth
  obtain ⟨inner, rfl, hfields⟩ := Json.depth_object_le.1 hdepth
  simp only [List.forall_mem_cons] at hfields
  have hconstraints := Json.reads_list (fun r hr => TypeRefImage.reads (h r hr)) inner hfields.2.1
  simp [ofJson?, toJson, Json.string?, hconstraints]

end GenericParamImage

namespace FieldImage

theorem exact_toJson {f : FieldImage} (h : f.type.Fits) : f.toJson.Exact := by
  simp [toJson, Json.Exact, Json.MembersExact, TypeRefImage.exact_toJson f.type h]

theorem reads {f : FieldImage} (h : f.type.Fits) : Reads ofJson? toJson f := by
  intro room hdepth
  obtain ⟨inner, rfl, hfields⟩ := Json.depth_object_le.1 hdepth
  simp only [List.forall_mem_cons] at hfields
  simp [ofJson?, toJson, Json.string?, TypeRefImage.reads h inner hfields.2.1]

end FieldImage

namespace ParamImage

theorem exact_toJson {p : ParamImage} (h : p.type.Fits) : p.toJson.Exact := by
  simp [toJson, Json.Exact, Json.MembersExact, TypeRefImage.exact_toJson p.type h]

theorem reads {p : ParamImage} (h : p.type.Fits) : Reads ofJson? toJson p := by
  intro room hdepth
  obtain ⟨inner, rfl, hfields⟩ := Json.depth_object_le.1 hdepth
  simp only [List.forall_mem_cons] at hfields
  simp [ofJson?, toJson, Json.string?, TypeRefImage.reads h inner hfields.2.1]

end ParamImage

namespace OperandImage

theorem toJson_ne_null (o : OperandImage) : o.toJson ≠ .null := by
  cases o <;> simp [toJson, TypeRefImage.tagged]

theorem exact_toJson (o : OperandImage) (h : o.Fits) : o.toJson.Exact := by
  cases o with
  | type r =>
    simp [toJson, TypeRefImage.exact_tagged, Json.MembersExact, TypeRefImage.exact_toJson r h]
  | method declaring name returns params =>
    obtain ⟨hdeclaring, hreturns, hparams⟩ := h
    have hreturns := Json.exact_ofOption fun r hr => TypeRefImage.exact_toJson r (hreturns r hr)
    have hparams := Json.exact_list fun r hr => TypeRefImage.exact_toJson r (hparams r hr)
    have hdeclaring := TypeRefImage.exact_toJson declaring hdeclaring
    simp [toJson, TypeRefImage.exact_tagged, Json.Exact, Json.MembersExact, hdeclaring, hreturns, hparams]
  | field declaring name fieldType =>
    simp [toJson, TypeRefImage.exact_tagged, Json.Exact, Json.MembersExact, TypeRefImage.exact_toJson declaring h.1,
      TypeRefImage.exact_toJson fieldType h.2]
  | localVar index | argument index =>
    simp [toJson, TypeRefImage.exact_tagged, Json.MembersExact, Json.exact_nat (Nat.le_trans h (by decide))]
  | target offset =>
    simp [toJson, TypeRefImage.exact_tagged, Json.MembersExact, Json.exact_nat h]
  | switch targets =>
    have htargets := Json.exact_list fun n hn => Json.exact_nat (h n hn)
    simp [toJson, TypeRefImage.exact_tagged, Json.MembersExact, htargets]
  | int value =>
    obtain ⟨hlow, hhigh⟩ := h
    have hvalue : (Json.number (.integer value)).Exact := by
      rw [Json.Exact]
      omega
    simp [toJson, TypeRefImage.exact_tagged, Json.MembersExact, hvalue]
  | float value => exact h.elim
  | string value => simp [toJson, TypeRefImage.exact_tagged, Json.Exact, Json.MembersExact]

/-- An operand is taken in whole, then understood from its kind and its fields. -/
theorem reads_of_understand? {o : OperandImage} (h : o.Fits) {kind : String} {fields : List (String × Json)}
    (hform : o.toJson = TypeRefImage.tagged kind fields) (hkind : ∀ m ∈ fields, m.1 ≠ "kind")
    (hread : ∀ inner, (∀ m ∈ fields, m.2.depth ≤ inner) → understand? inner kind (.object fields) = some o) :
    Reads ofJson? toJson o := by
  intro room hdepth
  have hreadable := Json.readable_of_exact o.toJson room (exact_toJson o h) hdepth
  rw [hform] at hdepth hreadable
  obtain ⟨inner, rfl, hfields⟩ := Json.depth_object_le.1 hdepth
  have hinner := hread inner (List.forall_mem_cons.1 hfields).2
  rw [hform, ofJson?, hreadable, TypeRefImage.untag?_tagged hkind]
  exact hinner

theorem reads {o : OperandImage} (h : o.Fits) : Reads ofJson? toJson o := by
  cases o with
  | type r =>
    refine reads_of_understand? h rfl (by simp) fun inner hdepth => ?_
    simp only [List.forall_mem_cons] at hdepth
    simp [understand?, TypeRefImage.reads_understand? r h _ hdepth.1]
  | method declaring name returns params =>
    refine reads_of_understand? h rfl (by simp) fun inner hdepth => ?_
    simp only [List.forall_mem_cons] at hdepth
    obtain ⟨hdeclaring, hreturns, hparams⟩ := h
    have hdeclaring := TypeRefImage.reads_understand? declaring hdeclaring inner hdepth.1
    have hreturns := Json.Record.optional_ofOption
      (fun r hr => TypeRefImage.reads_understand? r (hreturns r hr)) TypeRefImage.toJson_ne_null hdepth.2.2.1
    have hparams := Json.reads_list (fun r hr => TypeRefImage.reads_understand? r (hparams r hr)) inner
      hdepth.2.2.2.1
    simp [understand?, Json.string?, hdeclaring, hreturns, hparams]
  | field declaring name fieldType =>
    refine reads_of_understand? h rfl (by simp) fun inner hdepth => ?_
    simp only [List.forall_mem_cons] at hdepth
    simp [understand?, Json.string?, TypeRefImage.reads_understand? declaring h.1 inner hdepth.1,
      TypeRefImage.reads_understand? fieldType h.2 inner hdepth.2.2.1]
  | localVar index | argument index =>
    refine reads_of_understand? h rfl (by simp) fun inner _ => ?_
    simp [understand?, Json.nat, Json.nat?, show index ≤ indexMax from h]
  | target offset =>
    refine reads_of_understand? h rfl (by simp) fun inner _ => ?_
    simp [understand?, Json.nat, Json.nat?, show offset ≤ wordMax from h]
  | switch targets =>
    refine reads_of_understand? h rfl (by simp) fun inner hdepth => ?_
    have htargets := Json.reads_list (fun n hn => Json.reads_nat (h n hn)) inner (hdepth _ List.mem_cons_self)
    simp [understand?, htargets]
  | int value =>
    refine reads_of_understand? h rfl (by simp) fun inner _ => ?_
    simp [understand?, int64?, h.1, h.2]
  | float value => exact h.elim
  | string value =>
    refine reads_of_understand? h rfl (by simp) fun inner _ => ?_
    simp [understand?, Json.string?]

end OperandImage

namespace InstructionImage

theorem exact_toJson {i : InstructionImage} (h : i.Fits) : i.toJson.Exact := by
  have hoffset := Json.exact_ofOption fun n hn => Json.exact_nat (h.1 n hn)
  have hoperand := Json.exact_ofOption fun o ho => OperandImage.exact_toJson o (h.2 o ho)
  simp [toJson, Json.Exact, Json.MembersExact, hoffset, hoperand]

theorem reads {i : InstructionImage} (h : i.Fits) : Reads ofJson? toJson i := by
  intro room hdepth
  obtain ⟨inner, rfl, hfields⟩ := Json.depth_object_le.1 hdepth
  simp only [List.forall_mem_cons] at hfields
  obtain ⟨hoffset, -, hoperand, -⟩ := hfields
  have hoffset := Json.Record.optional_ofOption (fun n hn => Json.reads_nat (h.1 n hn)) (fun n => by simp [Json.nat])
    hoffset
  have hoperand := Json.Record.optional_ofOption (fun o ho => OperandImage.reads (h.2 o ho))
    OperandImage.toJson_ne_null hoperand
  simp [ofJson?, toJson, Json.string?,
    hoffset, hoperand]

end InstructionImage

namespace MethodImage

theorem exact_toJson {m : MethodImage} (h : m.Fits) : m.toJson.Exact := by
  have hreturns := Json.exact_ofOption fun r hr => TypeRefImage.exact_toJson r (h.returns r hr)
  have hparams := Json.exact_list fun p hp => ParamImage.exact_toJson (h.params p hp)
  have hgenericParams := Json.exact_list fun p hp => GenericParamImage.exact_toJson (h.genericParams p hp)
  have hsemantics : (Json.ofOption (fun s : SemanticsImage => .string s.text) m.semantics).Exact :=
    Json.exact_ofOption fun s _ => by simp only [Json.Exact]
  have hbody := Json.exact_ofOption fun code hcode =>
    Json.exact_list fun i hi => InstructionImage.exact_toJson (h.body code hcode i hi)
  simp [toJson, Json.Exact, Json.MembersExact, hreturns, hparams, hgenericParams, hsemantics, hbody]

theorem reads_semantics (s : SemanticsImage) :
    Reads (fun room => Json.choice? room SemanticsImage.named?) (fun s => .string s.text) s := by
  intro room _
  cases s <;> rfl

theorem reads {m : MethodImage} (h : m.Fits) : Reads ofJson? toJson m := by
  intro room hdepth
  obtain ⟨inner, rfl, hfields⟩ := Json.depth_object_le.1 hdepth
  simp only [List.forall_mem_cons] at hfields
  obtain ⟨-, hreturns, hparams, hgenericParams, -, -, hsemantics, hbody, -⟩ := hfields
  have hreturns := Json.Record.optional_ofOption (fun r hr => TypeRefImage.reads (h.returns r hr))
    TypeRefImage.toJson_ne_null hreturns
  have hparams := Json.reads_list (fun p hp => ParamImage.reads (h.params p hp)) inner hparams
  have hgenericParams := Json.reads_list (fun p hp => GenericParamImage.reads (h.genericParams p hp)) inner
    hgenericParams
  have hsemantics := Json.Record.optional_ofOption (fun s _ => reads_semantics s) (fun s => by simp) hsemantics
  have hbody := Json.Record.optional_ofOption
    (fun code hcode => Json.reads_list fun i hi => InstructionImage.reads (h.body code hcode i hi))
    (fun code => by simp [Json.list]) hbody
  simp [ofJson?, toJson, Json.string?, Json.bool?, hreturns, hparams, hgenericParams, hsemantics, hbody]

end MethodImage

/-! ## Types -/

namespace TypeImage

theorem toJsons_eq_map (ts : List TypeImage) : toJsons ts = ts.map toJson := by
  induction ts with
  | nil => rw [toJsons, List.map_nil]
  | cons t ts ih => rw [toJsons, ih, List.map_cons]

mutual

theorem exact_toJson : ∀ t : TypeImage, t.Fits → t.toJson.Exact
  | ⟨name, kind, isAbstract, isSealed, base, interfaces, genericParams, attributes, fields, methods, nested⟩, h => by
    rw [Fits] at h
    obtain ⟨hbase, hinterfaces, hgenericParams, hattributes, hfields, hmethods, hnested⟩ := h
    have hbase := Json.exact_ofOption fun r hr => TypeRefImage.exact_toJson r (hbase r hr)
    have hinterfaces := Json.exact_list fun r hr => TypeRefImage.exact_toJson r (hinterfaces r hr)
    have hgenericParams := Json.exact_list fun p hp => GenericParamImage.exact_toJson (hgenericParams p hp)
    have hattributes := Json.exact_list fun r hr => TypeRefImage.exact_toJson r (hattributes r hr)
    have hfields := Json.exact_list fun f hf => FieldImage.exact_toJson (hfields f hf)
    have hmethods := Json.exact_list fun m hm => MethodImage.exact_toJson (hmethods m hm)
    simp [toJson, Json.Exact, Json.MembersExact, hbase, hinterfaces, hgenericParams, hattributes, hfields, hmethods,
      exact_toJsons nested hnested]

theorem exact_toJsons : ∀ ts : List TypeImage, AllFit ts → Json.AllExact (toJsons ts)
  | [], _ => by simp only [toJsons, Json.AllExact]
  | t :: ts, h => by
    rw [AllFit] at h
    rw [toJsons, Json.AllExact]
    exact ⟨exact_toJson t h.1, exact_toJsons ts h.2⟩

end

theorem ofJson?_succ (room : Nat) (j : Json) :
    ofJson? (room + 1) j = ofObject? room (Json.listOf? room ofJson?) j := by
  rw [ofJson?, Json.nestOf?]
  rfl

theorem reads_kind (kind : TypeKindImage) (room : Nat) :
    Json.choice? room TypeKindImage.named? (.string kind.text) = some kind := by
  cases kind <;> rfl

mutual

/-- **A type is read from its written form**, the types nested in it included. -/
theorem reads : ∀ t : TypeImage, t.Fits → Reads ofJson? toJson t
  | ⟨name, kind, isAbstract, isSealed, base, interfaces, genericParams, attributes, fields, methods, nested⟩, h => by
    intro room hdepth
    rw [Fits] at h
    obtain ⟨hbase, hinterfaces, hgenericParams, hattributes, hfields, hmethods, hnested⟩ := h
    rw [toJson] at hdepth
    obtain ⟨inner, rfl, hroom⟩ := Json.depth_object_le.1 hdepth
    simp only [List.forall_mem_cons, toJsons_eq_map] at hroom
    obtain ⟨-, -, -, -, hroomBase, hroomInterfaces, hroomGenericParams, hroomAttributes, hroomFields, hroomMethods,
      hroomNested, -⟩ := hroom
    have hbase := Json.Record.optional_ofOption (fun r hr => TypeRefImage.reads (hbase r hr))
      TypeRefImage.toJson_ne_null hroomBase
    have hinterfaces := Json.reads_list (fun r hr => TypeRefImage.reads (hinterfaces r hr)) inner hroomInterfaces
    have hgenericParams := Json.reads_list (fun p hp => GenericParamImage.reads (hgenericParams p hp)) inner
      hroomGenericParams
    have hattributes := Json.reads_list (fun r hr => TypeRefImage.reads (hattributes r hr)) inner hroomAttributes
    have hfields := Json.reads_list (fun f hf => FieldImage.reads (hfields f hf)) inner hroomFields
    have hmethods := Json.reads_list (fun m hm => MethodImage.reads (hmethods m hm)) inner hroomMethods
    have hnested := Json.reads_list (readsAll nested hnested) inner hroomNested
    rw [Json.list] at hnested
    simp [ofJson?_succ, ofObject?, toJson, toJsons_eq_map, Json.string?, Json.bool?, reads_kind, hbase, hinterfaces,
      hgenericParams, hattributes, hfields, hmethods, hnested]

theorem readsAll : ∀ ts : List TypeImage, AllFit ts → ∀ t ∈ ts, Reads ofJson? toJson t
  | [], _ => List.forall_mem_nil _
  | t :: ts, h => by
    rw [AllFit] at h
    exact List.forall_mem_cons.2 ⟨reads t h.1, readsAll ts h.2⟩

end

end TypeImage

/-! ## Modules -/

namespace ModuleImage

theorem exact_toJson {m : ModuleImage} (h : m.Fits) : m.toJson.Exact := by
  simp [toJson, Json.Exact, Json.MembersExact, TypeImage.exact_toJsons m.types h]

theorem reads {m : ModuleImage} (h : m.Fits) : Reads ofJson? toJson m := by
  intro room hdepth
  obtain ⟨inner, rfl, hfields⟩ := Json.depth_object_le.1 hdepth
  simp only [List.forall_mem_cons, TypeImage.toJsons_eq_map] at hfields
  have htypes := Json.reads_list (TypeImage.readsAll m.types h) inner hfields.2.1
  rw [Json.list] at htypes
  simp [ofJson?, toJson, TypeImage.toJsons_eq_map, Json.string?, htypes]

/-- **An image is read back from its text**: every type, member, reference, operand and text of it. Its numbers
are in the range of their fields, none of its operands is a double, and it nests no deeper than one may be read. -/
theorem read_write_self (m : ModuleImage) (hfits : m.Fits) (hdepth : m.toJson.depth ≤ nestingMax) :
    read? m.write.toUTF8.toList = some m := by
  have hjson : Json.ofOctets? m.write.toUTF8.toList = some m.toJson := Json.ofOctets?_write (exact_toJson hfits)
  rw [read?, hjson, Option.bind_some]
  exact reads hfits nestingMax hdepth

/-- A reference of every shape, in one another. -/
def wrappings : TypeRefImage :=
  .genericInstance (.plain "Wrap`2" none)
    [.array (.byReference (.own "Own")) TypeRefImage.rankMax, .pointer .functionPointer,
      .genericParameter "T" "Wrap`2" [.plain "Thing" (some "Elsewhere")]]

/-- Operands at the ends of their ranges, and a text that takes escapes and one to four octets a character. -/
def extremes : List InstructionImage :=
  [{ op := "ldtoken", operand := some (.type wrappings) },
    { offset := some OperandImage.wordMax, op := "call",
      operand := some (.method (.own "Own") "m" (some wrappings) [wrappings]) },
    { op := "ldfld", operand := some (.field wrappings "f" .functionPointer) },
    { op := "ldloc", operand := some (.localVar OperandImage.indexMax) },
    { op := "ldarg", operand := some (.argument 0) },
    { op := "br", operand := some (.target OperandImage.wordMax) },
    { op := "switch", operand := some (.switch [0, 10, OperandImage.wordMax]) },
    { op := "ldc", operand := some (.int (-0x8000000000000000)) },
    { op := "ldstr", operand := some (.string "\x00\x08\x0b\x0c\x1f\t\r\n \"\\/\x7fé€😀") },
    { op := "ret" }]

/-- A method with everything a method may have. -/
def detach : MethodImage where
  name := "detach"
  returns := some wrappings
  params := [⟨"", wrappings⟩]
  genericParams := [⟨"V", [wrappings]⟩]
  isStatic := true
  semantics := some .remover
  body := some extremes

/-- A module of a type with everything a type may have. -/
def motley : ModuleImage where
  name := "Motley\n"
  types :=
    [{ name := "N.Own", kind := .struct, isAbstract := true, isSealed := true, base := some wrappings,
       interfaces := [wrappings], genericParams := [⟨"U", []⟩], attributes := [wrappings],
       fields := [⟨"f", wrappings⟩], methods := [detach], nested := [{ name := "Inner", kind := .interface }] }]

theorem read_write_self_motley :
    motley.Fits ∧ motley.toJson.depth ≤ nestingMax ∧ read? motley.write.toUTF8.toList = some motley := by
  have hwrappings : wrappings.Fits := by
    simp [wrappings, TypeRefImage.Fits, TypeRefImage.AllFit]
  have hextremes : ∀ i ∈ extremes, i.Fits := by
    simp [extremes, InstructionImage.Fits, OperandImage.Fits, TypeRefImage.Fits, OperandImage.indexMax,
      OperandImage.wordMax, hwrappings]
  have hdetach : detach.Fits :=
    ⟨by simp [detach, hwrappings], by simp [detach, hwrappings], by simp [detach, GenericParamImage.Fits, hwrappings],
      by simpa [detach] using hextremes⟩
  have hfits : motley.Fits := by
    simp [motley, ModuleImage.Fits, TypeImage.AllFit, TypeImage.Fits, GenericParamImage.Fits, hwrappings, hdetach]
  have hdepth : motley.toJson.depth ≤ nestingMax := by decide +kernel
  exact ⟨hfits, hdepth, read_write_self motley hfits hdepth⟩

end ModuleImage

end Coupling
