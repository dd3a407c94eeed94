import TypedAttr.Datatype.Descriptor
import TypedAttr.Proofs.Datatype.Tree
import Mathlib.Algebra.BigOperators.Group.List.Basic
import Mathlib.Algebra.GroupWithZero.Nat
/-!
# What validation accepts

A descriptor that was put together by the functions for it is that of a tree
(`built_iff`) and stores the sizes of the tree, so that the checks on
them pass (`validate_descriptor`). Two faults are left: an array without
extents and an enumeration over anything but an integer. What validation
walks through is `Descriptor.Reaches`. Main statement: `validate_built`.
-/

namespace TypedAttr

namespace Descriptor

/-- Whether a descriptor is another or below it: by members of a compound
and by the base of an array or a sequence. The base of an enumeration is
part of the enumeration. -/
inductive Reaches : Descriptor → Descriptor → Prop
  | self (d : Descriptor) : Reaches d d
  | member {d e : Descriptor} (member : String × Descriptor)
    (hclass : d.datatypeClass = .compound) (hmember : member ∈ d.members)
    (h : Reaches member.2 e) : Reaches d e
  | base {d e : Descriptor} (base : Descriptor)
    (hclass : d.datatypeClass = .array ∨ d.datatypeClass = .sequence)
    (hbase : d.base? = some base) (h : Reaches base e) : Reaches d e

/-- What holds of all that is reached holds of the descriptor and of all
that its parts reach. -/
theorem forall_reaches_iff {d : Descriptor} {p : Descriptor → Prop} :
    (∀ e, d.Reaches e → p e) ↔ p d ∧
      (d.datatypeClass = .compound → ∀ member ∈ d.members, ∀ e, member.2.Reaches e → p e) ∧
      (d.datatypeClass = .array ∨ d.datatypeClass = .sequence →
        ∀ base, d.base? = some base → ∀ e, base.Reaches e → p e) := by
  constructor
  · intro h
    refine ⟨h d (.self d), ?_, ?_⟩
    · intro hclass member hmember e he
      exact h e (.member member hclass hmember he)
    · intro hclass base hbase e he
      exact h e (.base base hclass hbase he)
  · rintro ⟨hself, hmembers, hbase⟩ e he
    cases he with
    | self => exact hself
    | member member hclass hmember he => exact hmembers hclass member hmember e he
    | base base hclass hb he => exact hbase hclass base hb e he

/-- A node that was put together is right: its array has extents, its
enumeration an integer base. -/
structure IsWellFormed (d : Descriptor) : Prop where
  extents : d.datatypeClass = .array → d.extents ≠ []
  base : d.datatypeClass = .enumeration →
    ∃ base, d.base? = some base ∧ base.datatypeClass = .integer

/-- The stored size of a compound or an array is that of its parts. -/
structure IsSized (d : Descriptor) : Prop where
  compound : d.datatypeClass = .compound → d.size = (d.members.map (·.2.size)).sum
  array : d.datatypeClass = .array →
    ∃ base, d.base? = some base ∧ d.size = d.extents.prod * base.size

theorem sizeOfMembers_eq_sum (members : List (String × Descriptor)) :
    sizeOfMembers members = (members.map (·.2.size)).sum := by
  induction members with
  | nil => rfl
  | cons member rest ih => rw [sizeOfMembers, List.map_cons, List.sum_cons, ih]

end Descriptor

/-- A grid has as many places as the product of its extents. -/
theorem gridSize_eq_prod (extents : List Nat) : gridSize extents = extents.prod := by
  induction extents with
  | nil => rfl
  | cons extent rest ih => rw [gridSize, List.prod_cons, ih]

namespace Datatype

/-! ## Fields of the descriptor of a tree -/

theorem memberDescriptors_eq_map (members : List (String × Datatype)) :
    memberDescriptors members = members.map fun member => (member.1, member.2.descriptor) := by
  induction members with
  | nil => rfl
  | cons member rest ih => rw [memberDescriptors, List.map_cons, ih]

@[simp]
theorem datatypeClass_descriptor (type : Datatype) :
    type.descriptor.datatypeClass = type.datatypeClass := by
  cases type <;> rfl

@[simp]
theorem members_descriptor (type : Datatype) :
    type.descriptor.members = type.members.map fun member => (member.1, member.2.descriptor) := by
  cases type with
  | compound members => exact memberDescriptors_eq_map members
  | _ => rfl

@[simp]
theorem base?_descriptor (type : Datatype) :
    type.descriptor.base? = type.base?.map descriptor := by
  cases type <;> rfl

@[simp]
theorem extents_descriptor (type : Datatype) : type.descriptor.extents = type.extents := by
  cases type <;> rfl

theorem order_descriptor (type : Datatype) : type.descriptor.order = type.order := by
  cases type <;> rfl

theorem descriptor_withOrder (order : ByteOrder) (type : Datatype) :
    (type.withOrder order).descriptor = type.descriptor.withOrder order := by
  cases type <;> rfl

theorem descriptor_withPadding (padding : Padding) (type : Datatype) :
    (type.withPadding padding).descriptor = type.descriptor.withPadding padding := by
  cases type <;> rfl

/-- The size that is stored is the size of the tree. -/
@[simp]
theorem size_descriptor (type : Datatype) : type.descriptor.size = type.size := by
  induction type with
  | compound members traits ih =>
    show Descriptor.sizeOfMembers (memberDescriptors members) = sizeOfMembers members
    induction members with
    | nil => rfl
    | cons member rest ihrest =>
      have hmember := ih member List.mem_cons_self
      have hrest := ihrest fun m hm => ih m (List.mem_cons_of_mem _ hm)
      rw [memberDescriptors, Descriptor.sizeOfMembers, sizeOfMembers, hmember, hrest]
  | array base extents traits ih =>
    exact congrArg (gridSize extents * ·) ih
  | enumeration base values traits ih => exact ih
  | _ => rfl

/-! ## Descriptors and trees -/

/-- The descriptor of a tree is put together. -/
theorem built_descriptor (type : Datatype) : type.descriptor.Built := by
  have setTraits (t : Traits) {d : Descriptor} (h : d.Built) : (descriptor.setTraits t d).Built :=
    .withPadding _ _ (.withOrder _ _ h)
  induction type with
  | integer size signed t => exact setTraits t (.integer size signed)
  | float size t => exact setTraits t (.float size)
  | fixedText size t => exact setTraits t (.fixedText size)
  | varText t => exact setTraits t .varText
  | bitfield size t => exact setTraits t (.bitfield size)
  | blob size t => exact setTraits t (.blob size)
  | time size t => exact setTraits t (.time size)
  | noClass t => exact setTraits t .noClass
  | compound members t ih =>
    refine setTraits t (.compound _ ?_)
    rw [memberDescriptors_eq_map]
    rintro _ hmember
    obtain ⟨part, hpart, rfl⟩ := List.mem_map.1 hmember
    exact ih part hpart
  | array base extents t ih => exact setTraits t (.array _ extents ih)
  | sequence base t ih => exact setTraits t (.sequence _ ih)
  | enumeration base values t ih => exact setTraits t (.enumeration _ values ih)
  | reference flavor t => exact setTraits t (.reference flavor)

/-- Members that are all descriptors of trees are those of trees under the
same names. -/
theorem exists_memberDescriptors {members : List (String × Descriptor)}
    (h : ∀ member ∈ members, ∃ type : Datatype, type.descriptor = member.2) :
    ∃ types, memberDescriptors types = members := by
  induction members with
  | nil => exact ⟨[], rfl⟩
  | cons member rest ih =>
    obtain ⟨type, htype⟩ := h member List.mem_cons_self
    obtain ⟨types, htypes⟩ := ih fun m hm => h m (List.mem_cons_of_mem _ hm)
    exact ⟨(member.1, type) :: types, by rw [memberDescriptors, htype, htypes]⟩

/-- What is put together is the descriptor of a tree. -/
theorem exists_descriptor {d : Descriptor} (h : d.Built) :
    ∃ type : Datatype, type.descriptor = d := by
  induction h with
  | integer size isSigned => exact ⟨ofInteger size isSigned, rfl⟩
  | float size => exact ⟨ofFloat size, rfl⟩
  | fixedText size => exact ⟨ofFixedText size, rfl⟩
  | varText => exact ⟨ofVarText, rfl⟩
  | bitfield size => exact ⟨ofBitfield size, rfl⟩
  | blob size => exact ⟨ofBlob size, rfl⟩
  | time size => exact ⟨ofTime size, rfl⟩
  | noClass => exact ⟨ofNoClass, rfl⟩
  | compound members h ih =>
    obtain ⟨types, rfl⟩ := exists_memberDescriptors ih
    exact ⟨ofMembers types, rfl⟩
  | array base extents h ih =>
    obtain ⟨type, rfl⟩ := ih
    refine ⟨arrayOf type extents, ?_⟩
    rw [Descriptor.array, order_descriptor]
    rfl
  | sequence base h ih =>
    obtain ⟨type, rfl⟩ := ih
    exact ⟨sequenceOf type, rfl⟩
  | enumeration base values h ih =>
    obtain ⟨type, rfl⟩ := ih
    refine ⟨enumerationOf type values, ?_⟩
    rw [Descriptor.enumeration, order_descriptor]
    rfl
  | reference flavor => exact ⟨referenceOf flavor, rfl⟩
  | withOrder order d h ih =>
    obtain ⟨type, rfl⟩ := ih
    exact ⟨type.withOrder order, descriptor_withOrder order type⟩
  | withPadding padding d h ih =>
    obtain ⟨type, rfl⟩ := ih
    exact ⟨type.withPadding padding, descriptor_withPadding padding type⟩

/-- **Trees and descriptors that were put together are the same.** -/
theorem built_iff {d : Descriptor} : d.Built ↔ ∃ type : Datatype, type.descriptor = d := by
  constructor
  · exact exists_descriptor
  · rintro ⟨type, rfl⟩
    exact built_descriptor type

/-! ## Validation -/

theorem validateMembers_memberDescriptors {members : List (String × Datatype)}
    (h : ∀ member ∈ members, member.2.descriptor.validate = member.2.validate) :
    Descriptor.validateMembers (memberDescriptors members) = validateMembers members := by
  induction members with
  | nil => rfl
  | cons member rest ih =>
    have hmember := h member List.mem_cons_self
    have hrest := ih fun m hm => h m (List.mem_cons_of_mem _ hm)
    rw [memberDescriptors, Descriptor.validateMembers, hmember, hrest]
    rfl

/-- Validation of the descriptor of a tree is that of the tree: the checks on
what is stored twice pass. -/
theorem validate_descriptor (type : Datatype) : type.descriptor.validate = type.validate := by
  induction type with
  | compound members traits ih =>
    have hmembers := validateMembers_memberDescriptors ih
    exact (if_pos rfl).trans hmembers
  | array base extents traits ih =>
    show (if extents.isEmpty then Except.error noExtents
      else if gridSize extents * base.descriptor.size = gridSize extents * base.descriptor.size
        then base.descriptor.validate else _) = (array base extents traits).validate
    rw [if_pos rfl, ih, validate]
  | sequence base traits ih => exact ih
  | enumeration base values traits ih =>
    show (if base.descriptor.datatypeClass = .integer then Except.ok ()
      else .error (wrongEnumerationBase base.descriptor.datatypeClass)) = _
    rw [datatypeClass_descriptor, validate]
  | _ => rfl

theorem validateMembers_eq_ok_iff {members : List (String × Datatype)} :
    validateMembers members = .ok () ↔ ∀ member ∈ members, member.2.validate = .ok () := by
  induction members with
  | nil => simp [validateMembers]
  | cons member rest ih =>
    rw [validateMembers, List.forall_mem_cons, ← ih]
    cases member.2.validate <;> simp

/-- What is reported of members is reported of one of them. -/
theorem exists_of_validateMembers {members : List (String × Datatype)} {error : Error}
    (h : validateMembers members = .error error) :
    ∃ member ∈ members, member.2.validate = .error error := by
  induction members with
  | nil => cases h
  | cons member rest ih =>
    rw [validateMembers] at h
    split at h
    · obtain ⟨m, hm, herror⟩ := ih h
      exact ⟨m, List.mem_cons_of_mem _ hm, herror⟩
    · next herror => exact ⟨member, List.mem_cons_self, herror.trans h⟩

/-- The two faults that a tree can have. -/
theorem eq_of_validate_eq_error {type : Datatype} {error : Error}
    (h : type.validate = .error error) :
    error = noExtents ∨ ∃ c, c ≠ .integer ∧ error = wrongEnumerationBase c := by
  induction type with
  | compound members traits ih =>
    obtain ⟨member, hmember, herror⟩ := exists_of_validateMembers h
    exact ih member hmember herror
  | array base extents traits ih =>
    rw [validate] at h
    split at h
    · exact .inl (Except.error.inj h).symm
    · exact ih h
  | sequence base traits ih => exact ih h
  | enumeration base values traits ih =>
    rw [validate] at h
    split at h
    · cases h
    · next hclass => exact .inr ⟨_, hclass, (Except.error.inj h).symm⟩
  | _ => cases h

/-! ## What the walk finds in the descriptor of a tree -/

theorem forall_reaches_descriptor_iff {type : Datatype} {p : Descriptor → Prop} :
    (∀ e, type.descriptor.Reaches e → p e) ↔ p type.descriptor ∧
      (type.datatypeClass = .compound →
        ∀ member ∈ type.members, ∀ e, member.2.descriptor.Reaches e → p e) ∧
      (type.datatypeClass = .array ∨ type.datatypeClass = .sequence →
        ∀ base, type.base? = some base → ∀ e, base.descriptor.Reaches e → p e) := by
  rw [Descriptor.forall_reaches_iff]
  simp only [datatypeClass_descriptor, members_descriptor, base?_descriptor, List.forall_mem_map,
    Option.map_eq_some_iff, forall_exists_index, and_imp, forall_apply_eq_imp_iff₂]

theorem isWellFormed_descriptor_iff {type : Datatype} :
    type.descriptor.IsWellFormed ↔ (type.datatypeClass = .array → type.extents ≠ []) ∧
      (type.datatypeClass = .enumeration →
        ∃ base, type.base? = some base ∧ base.datatypeClass = .integer) := by
  have hbase : (∃ base, type.descriptor.base? = some base ∧ base.datatypeClass = .integer) ↔
      ∃ base, type.base? = some base ∧ base.datatypeClass = .integer := by
    rw [base?_descriptor]
    cases type.base? <;> simp
  rw [← hbase, ← datatypeClass_descriptor, ← extents_descriptor]
  exact ⟨fun h => ⟨h.extents, h.base⟩, fun h => ⟨h.1, h.2⟩⟩

theorem isSized_descriptor (type : Datatype) : type.descriptor.IsSized := by
  constructor
  · intro hclass
    cases type with
    | compound members traits => exact Descriptor.sizeOfMembers_eq_sum _
    | _ => cases hclass
  · intro hclass
    cases type with
    | array base extents traits =>
      refine ⟨base.descriptor, rfl, ?_⟩
      exact congrArg (· * base.descriptor.size) (gridSize_eq_prod extents)
    | _ => cases hclass

/-- A tree is accepted iff all that the walk finds is well formed. -/
theorem validate_eq_ok_iff (type : Datatype) :
    type.validate = .ok () ↔ ∀ e, type.descriptor.Reaches e → e.IsWellFormed := by
  induction type with
  | compound members traits ih =>
    rw [forall_reaches_descriptor_iff, isWellFormed_descriptor_iff, validate,
      validateMembers_eq_ok_iff, forall₂_congr ih]
    simp [datatypeClass, Datatype.members]
  | array base extents traits ih =>
    rw [forall_reaches_descriptor_iff, isWellFormed_descriptor_iff, validate]
    cases extents <;> simp [datatypeClass, base?, Datatype.extents, ← ih]
  | sequence base traits ih =>
    rw [forall_reaches_descriptor_iff, isWellFormed_descriptor_iff, validate]
    simp [datatypeClass, base?, ← ih]
  | enumeration base values traits ih =>
    have hclass : (enumeration base values traits).datatypeClass = .enumeration := rfl
    rw [forall_reaches_descriptor_iff, isWellFormed_descriptor_iff, validate]
    by_cases hbase : base.datatypeClass = .integer <;> simp [hclass, hbase, base?]
  | _ =>
    rw [forall_reaches_descriptor_iff, isWellFormed_descriptor_iff]
    simp [datatypeClass, validate]

/-- All that the walk finds stores the size of its parts. -/
theorem isSized_of_reaches (type : Datatype) :
    ∀ e, type.descriptor.Reaches e → e.IsSized := by
  induction type with
  | compound members traits ih =>
    refine forall_reaches_descriptor_iff.2 ⟨isSized_descriptor _, ?_, ?_⟩
    · intro _ member hmember
      exact ih member hmember
    · rintro (h | h) <;> cases h
  | array base extents traits ih =>
    refine forall_reaches_descriptor_iff.2 ⟨isSized_descriptor _, ?_, ?_⟩
    · rintro ⟨⟩
    · rintro - _ ⟨⟩
      exact ih
  | sequence base traits ih =>
    refine forall_reaches_descriptor_iff.2 ⟨isSized_descriptor _, ?_, ?_⟩
    · rintro ⟨⟩
    · rintro - _ ⟨⟩
      exact ih
  | _ =>
    refine forall_reaches_descriptor_iff.2 ⟨isSized_descriptor _, ?_, ?_⟩
    · rintro ⟨⟩
    · rintro (h | h) <;> cases h

end Datatype

namespace Descriptor

/-! ## Faults that are told apart -/

/-- The errors of a descriptor that contradicts itself. -/
inductive IsContradiction : Error → Prop
  | compoundSize (size sum : Nat) : IsContradiction (wrongCompoundSize size sum)
  | arraySize (size count width : Nat) : IsContradiction (wrongArraySize size count width)
  | base (c : DatatypeClass) : IsContradiction (noBase c)
  | flavor : IsContradiction noFlavor

theorem not_isContradiction_noExtents : ¬IsContradiction Datatype.noExtents := by
  generalize h : Datatype.noExtents = error
  intro hcontradiction
  cases hcontradiction with
  | compoundSize | arraySize =>
    have htext := congrArg String.toList (Error.invalidDatatype.inj h)
    simp [toString, String.toList_append] at htext
  | base c =>
    have htext := congrArg String.toList (Error.invalidDatatype.inj h)
    cases c <;> simp [toString, DatatypeClass.name] at htext
  | flavor => simp [Datatype.noExtents, noFlavor] at h

theorem not_isContradiction_wrongEnumerationBase (c : DatatypeClass) :
    ¬IsContradiction (Datatype.wrongEnumerationBase c) := by
  generalize h : Datatype.wrongEnumerationBase c = error
  intro hcontradiction
  have htext (reason : String) (hreason : error = .invalidDatatype reason) :
      "enum base must be an integer, got ".toList ++ c.name.toList = reason.toList := by
    have := congrArg String.toList (Error.invalidDatatype.inj (h.trans hreason))
    simpa [toString, String.toList_append] using this
  cases hcontradiction with
  | compoundSize | arraySize =>
    have := htext _ rfl
    simp [toString, String.toList_append] at this
  | base c' =>
    have := htext _ rfl
    cases c' <;> simp [toString, DatatypeClass.name] at this
  | flavor =>
    have := htext _ rfl
    simp at this

/-- **What validation accepts.** A descriptor that was put together is that
of a tree, and is accepted iff all arrays that the walk finds have extents
and all enumerations an integer base. It is never reported to contradict
itself, and indeed every compound and every array found, accepted or not,
stores the size of its parts. -/
theorem validate_built {d : Descriptor} (h : d.Built) :
    (∃ type : Datatype, type.descriptor = d ∧ type.size = d.size ∧
        type.validate = d.validate) ∧
      (d.validate = .ok () ↔ ∀ e, d.Reaches e → e.IsWellFormed) ∧
      (∀ error, d.validate = .error error → ¬IsContradiction error ∧
        (error = Datatype.noExtents ∨
          ∃ c, c ≠ .integer ∧ error = Datatype.wrongEnumerationBase c)) ∧
      ∀ e, d.Reaches e → e.IsSized := by
  obtain ⟨type, rfl⟩ := Datatype.built_iff.1 h
  rw [Datatype.validate_descriptor]
  refine ⟨⟨type, rfl, type.size_descriptor.symm, rfl⟩, Datatype.validate_eq_ok_iff type, ?_,
    Datatype.isSized_of_reaches type⟩
  intro error herror
  have hfault := Datatype.eq_of_validate_eq_error herror
  refine ⟨?_, hfault⟩
  rcases hfault with rfl | ⟨c, -, rfl⟩
  · exact not_isContradiction_noExtents
  · exact not_isContradiction_wrongEnumerationBase c

/-- A compound of a text and a grid of sequences of named values, the big
end first. -/
theorem validate_built_grid :
    let grid := array (sequence (enumeration (integer 2 true) [("LOW", -1)])) [2, 3]
    let record := (compound [("tag", fixedText 5), ("grid", grid)]).withOrder .big
    record.Built ∧ record.size = 101 ∧ record.validate = .ok () ∧
      ∀ e, record.Reaches e → e.IsWellFormed ∧ e.IsSized := by
  intro grid record
  have hgrid : grid.Built := .array _ _ (.sequence _ (.enumeration _ _ (.integer 2 true)))
  have hrecord : record.Built := by
    refine .withOrder _ _ (.compound _ ?_)
    simp [hgrid, Built.fixedText]
  obtain ⟨-, hiff, -, hsized⟩ := validate_built hrecord
  have hvalid : record.validate = .ok () := rfl
  exact ⟨hrecord, rfl, hvalid, fun e he => ⟨hiff.1 hvalid e he, hsized e he⟩⟩

end Descriptor

end TypedAttr
