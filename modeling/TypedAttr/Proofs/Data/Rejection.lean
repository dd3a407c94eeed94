import TypedAttr.Proofs.Data.WriteForms
/-!
# What is rejected while data are packed

A rejection is an error that says that a write can never succeed. Data of
any natural form are packed or fail for another reason (`admitted_pack`). It
is only values that can be rejected, and only for what they or their type
hold that is never written (`reason_of_rejected`).
-/

namespace TypedAttr

variable {α β : Type}

/-- Whether an error is a rejection. -/
def Error.isRejection : Error → Bool
  | .unsupported _ | .readOnly => true
  | _ => false

/-! ## Results that reject nothing -/

/-- A result that is no rejection. -/
def Admitted (result : Except Error α) : Prop :=
  ∀ ⦃e⦄, result = .error e → e.isRejection = false

namespace Admitted

theorem ok (a : α) : Admitted (.ok a : Except Error α) := fun _ h => by cases h

theorem error {e : Error} (h : e.isRejection = false) : Admitted (.error e : Except Error α) := by
  rintro _ ⟨⟩
  exact h

theorem bind {result : Except Error α} {next : α → Except Error β} (h : Admitted result)
    (hnext : ∀ a, result = .ok a → Admitted (next a)) : Admitted (result >>= next) := by
  cases result with
  | ok a => exact hnext a rfl
  | error e => exact error (h rfl)

theorem map {result : Except Error α} (h : Admitted result) (f : α → β) :
    Admitted (f <$> result) := by
  cases result with
  | ok a => exact ok (f a)
  | error e => exact error (h rfl)

theorem mapM {f : α → Except Error β} {items : List α} (h : ∀ a ∈ items, Admitted (f a)) :
    Admitted (items.mapM f) := by
  induction items with
  | nil => exact ok []
  | cons a rest ih =>
    rw [List.mapM_cons]
    refine (h a (by simp)).bind fun b _ => ?_
    exact (ih fun other hother => h other (by simp [hother])).bind fun bs _ => ok (b :: bs)

end Admitted

/-! ## Leaves -/

namespace Datatype

variable {type : Datatype} {options : ElementOptions}

theorem admitted_writeInteger (order : ByteOrder) (signed : Bool) (n : Int) (slot : Bytes) :
    Admitted (writeInteger order signed n slot).toExcept := by
  unfold writeInteger
  split
  · exact .ok _
  · split
    · exact .ok _
    · exact .error rfl

theorem admitted_encodeInteger (value : Value) (slot : Bytes) :
    Admitted (encodeInteger type value slot).toExcept := by
  unfold encodeInteger
  split
  · exact admitted_writeInteger _ _ _ _
  · exact .error rfl

theorem admitted_encodeEnumerated (value : Value) (slot : Bytes) :
    Admitted (encodeEnumerated type value slot).toExcept := by
  unfold encodeEnumerated
  split
  · split
    · exact admitted_writeInteger _ _ _ _
    · exact .error rfl
  · exact admitted_encodeInteger _ _

theorem admitted_encodeFloat (value : Value) (slot : Bytes) :
    Admitted (encodeFloat type value slot).toExcept := by
  unfold encodeFloat
  split
  · exact .error rfl
  · split <;> exact .ok _

theorem admitted_encodeText (value : Value) (slot : Bytes) :
    Admitted (encodeText type value slot).toExcept := by
  unfold encodeText
  split
  · exact .ok _
  · exact .ok _
  · exact .error rfl

theorem admitted_encodeBitfield (value : Value) (slot : Bytes) :
    Admitted (encodeBitfield type value slot).toExcept := by
  unfold encodeBitfield
  split
  · exact .ok _
  · exact admitted_encodeInteger _ _

theorem admitted_encodeReference (value : Value) (slot : Bytes) :
    Admitted (encodeReference type value slot).toExcept := by
  unfold encodeReference
  split
  · split
    · exact .ok _
    · exact .error rfl
  · split
    · exact .ok _
    · exact .error rfl
  · exact .error rfl

end Datatype

/-! ## Trees -/

namespace Value

mutual

/-- Whether a value is a float of sixteen bytes or has one in it. -/
def holdsWideFloat : Value → Bool
  | .float .quad _ => true
  | .array items => anyHoldsWideFloat items
  | .compound fields => fieldHoldsWideFloat fields
  | _ => false

/-- Whether any of the values does. -/
def anyHoldsWideFloat : List Value → Bool
  | [] => false
  | value :: rest => value.holdsWideFloat || anyHoldsWideFloat rest

/-- Whether the value of any of the fields does. -/
def fieldHoldsWideFloat : List (String × Value) → Bool
  | [] => false
  | (_, value) :: rest => value.holdsWideFloat || fieldHoldsWideFloat rest

end

theorem isWideFloat_of_holds {value : Value} (h : value.holdsWideFloat = false) :
    value.isWideFloat = false := by
  cases value with
  | float format pattern =>
    cases format with
    | quad => cases h
    | half | single | double => rfl
  | _ => rfl

theorem anyHoldsWideFloat_eq_false {values : List Value} :
    anyHoldsWideFloat values = false ↔ ∀ value ∈ values, value.holdsWideFloat = false := by
  induction values with
  | nil => simp [anyHoldsWideFloat]
  | cons value rest ih => simp [anyHoldsWideFloat, ih]

/-- A field that is found has no wide float if none has. -/
theorem holdsWideFloat_of_lookup? {name : String} {fields : List (String × Value)} {value : Value}
    (h : fieldHoldsWideFloat fields = false) (hfield : lookup? name fields = some value) :
    value.holdsWideFloat = false := by
  induction fields with
  | nil => cases hfield
  | cons field rest ih =>
    obtain ⟨hfirst, hrest⟩ : field.2.holdsWideFloat = false ∧ fieldHoldsWideFloat rest = false := by
      simpa [fieldHoldsWideFloat] using h
    by_cases hname : field.1 = name
    · have hfound : lookup? name (field :: rest) = some field.2 := by simp [lookup?, hname]
      rw [hfound] at hfield
      cases hfield
      exact hfirst
    · have hlater : lookup? name (field :: rest) = lookup? name rest := by simp [lookup?, hname]
      exact ih hrest (hlater ▸ hfield)

end Value

theorem admitted_run {write : α → Bytes → Overlay} {step : Nat} {items : List α}
    (h : ∀ item ∈ items, ∀ slot, Admitted (write item slot).toExcept) (slots : Bytes) :
    Admitted (Overlay.run write step items slots).toExcept := by
  induction items generalizing slots with
  | nil => exact .ok _
  | cons item rest ih =>
    rw [Overlay.run, Overlay.toExcept_andThen]
    refine (h item (by simp) _).bind fun slot _ => ?_
    exact (ih (fun other hother => h other (by simp [hother])) _).map _

namespace Datatype

variable {type : Datatype} {options : ElementOptions}

/-- Fields are never rejected if no member's value is. -/
theorem admitted_encodeMembers {members : List (String × Datatype)}
    {fields : List (String × Value)} (hfields : Value.fieldHoldsWideFloat fields = false)
    (h : ∀ member ∈ members, ∀ (path : String) (value : Value) (slot : Bytes),
      value.holdsWideFloat = false → Admitted (encodeAt options path member.2 value slot).toExcept)
    (above : String) (slot : Bytes) :
    Admitted (encodeMembers options above fields members slot).toExcept := by
  induction members generalizing slot with
  | nil => exact .ok _
  | cons member rest ih =>
    obtain ⟨name, type⟩ := member
    rw [encodeMembers, Overlay.toExcept_andThen]
    refine Admitted.bind ?_ fun _ _ => (ih (fun other hother => h other (by simp [hother])) _).map _
    split
    · cases hfield : Value.lookup? name fields with
      | none => exact .ok _
      | some value =>
        exact h (name, type) (by simp) _ value _ (Value.holdsWideFloat_of_lookup? hfields hfield)
    · exact .ok _

/-- What is settled first rejects only what is never written. -/
theorem admitted_unless_settled {value : Value} (slot : Bytes) {written : Overlay}
    (htype : type.isNeverWritten = false) (hvalue : value.holdsWideFloat = false)
    (h : Admitted written.toExcept) :
    Admitted (Overlay.toExcept
      (match type.settle? value slot with
        | some settled => settled
        | none => written)) := by
  have hwide : value.isWideFloat = false := Value.isWideFloat_of_holds hvalue
  by_cases hfailure : value.isFailure = true
  · cases value with
    | failure cause =>
      rw [settle?_failure htype]
      exact .ok _
    | _ => cases hfailure
  · rw [settle?_eq_none htype hwide (by simpa using hfailure)]
    exact h

/-- **What can be written is never rejected**: where nothing in the type is
of a kind that is never written, and nothing in the value is a wide float, an
element is encoded or fails for another reason. -/
theorem admitted_encodeAt (hwritable : type.isWritable = true) (path : String) (value : Value)
    (slot : Bytes) (hvalue : value.holdsWideFloat = false) :
    Admitted (encodeAt options path type value slot).toExcept := by
  have htype : type.isNeverWritten = false := isNeverWritten_of_isWritable hwritable
  induction type generalizing path value slot with
  | integer size signed traits =>
    rw [encodeAt]
    exact admitted_unless_settled slot htype hvalue (admitted_encodeInteger _ _)
  | float size traits =>
    rw [encodeAt]
    exact admitted_unless_settled slot htype hvalue (admitted_encodeFloat _ _)
  | fixedText size traits =>
    rw [encodeAt]
    exact admitted_unless_settled slot htype hvalue (admitted_encodeText _ _)
  | bitfield size traits =>
    rw [encodeAt]
    exact admitted_unless_settled slot htype hvalue (admitted_encodeBitfield _ _)
  | enumeration base values traits ih =>
    rw [encodeAt]
    exact admitted_unless_settled slot htype hvalue (admitted_encodeEnumerated _ _)
  | reference flavor traits =>
    rw [encodeAt]
    exact admitted_unless_settled slot htype hvalue (admitted_encodeReference _ _)
  | compound members traits ih =>
    have hmembers := isWritable_compound.1 hwritable
    cases value with
    | compound fields =>
      rw [encodeAt]
      refine admitted_unless_settled slot htype hvalue ?_
      refine admitted_encodeMembers hvalue (fun member hmember path value slot hfield => ?_) _ _
      exact ih member hmember (hmembers member hmember) path value slot hfield
        (isNeverWritten_of_isWritable (hmembers member hmember))
    | failure cause =>
      rw [encodeAt, settle?_failure htype]
      · exact .ok _
      · intro fields hfields
        cases hfields
    | _ =>
      rw [encodeAt, settle?_eq_none htype (Value.isWideFloat_of_holds hvalue) rfl]
      · exact .error rfl
      · intro fields hfields
        cases hfields
  | array base extents traits ih =>
    have hbase : base.isWritable = true := isWritable_array ▸ hwritable
    cases value with
    | array items =>
      have hitems := Value.anyHoldsWideFloat_eq_false.1 hvalue
      rw [encodeAt]
      refine admitted_unless_settled slot htype hvalue ?_
      split
      · refine admitted_run (fun item hitem slot => ?_) slot
        exact ih hbase path item slot (hitems item hitem) (isNeverWritten_of_isWritable hbase)
      · exact .error rfl
    | failure cause =>
      rw [encodeAt, settle?_failure htype]
      · exact .ok _
      · intro items hitems
        cases hitems
    | _ =>
      rw [encodeAt, settle?_eq_none htype (Value.isWideFloat_of_holds hvalue) rfl]
      · exact .error rfl
      · intro items hitems
        cases hitems
  | blob | time | noClass | varText | sequence =>
    rw [encodeAt]
    exact admitted_unless_settled slot htype hvalue (.ok _)

/-- **Why elements are rejected**: something in their type, or in one of the
values, is never written. -/
theorem reason_of_rejected {values : List Value} {e : Error} (he : e.isRejection = true)
    (h : type.encodeElements options values = .error e) :
    type.isWritable = false ∨ ∃ value ∈ values, value.holdsWideFloat = true := by
  by_cases hwritable : type.isWritable = true
  · by_cases hvalues : ∃ value ∈ values, value.holdsWideFloat = true
    · exact .inr hvalues
    · have hadmitted : Admitted (type.encodeElements options values) := by
        refine admitted_run (fun value hvalue slot => ?_) _
        refine admitted_encodeAt hwritable "" value slot ?_
        exact Bool.eq_false_iff.2 fun hwide => hvalues ⟨value, hvalue, hwide⟩
      exact absurd (he.symm.trans (hadmitted h)) (by decide)
  · exact .inl (Bool.eq_false_iff.2 hwritable)

end Datatype

/-! ## Data -/

namespace Data

variable {type : Datatype} {options : ElementOptions} {count : Nat} {data : Data}

theorem admitted_checkCount (expected actual : Nat) : Admitted (checkCount expected actual) := by
  unfold checkCount
  split
  · exact .ok ()
  · exact .error rfl

theorem admitted_packIntegers : Admitted (packIntegers type data) := by
  unfold packIntegers
  split
  · split
    · exact .ok _
    · split
      · refine Admitted.bind (.mapM fun word _ => ?_) fun words _ => .ok _
        split
        · exact .ok _
        · exact .error rfl
      · exact .error rfl
  · exact .error rfl

theorem admitted_packFloats : Admitted (packFloats type data) := by
  unfold packFloats
  split
  · exact .ok _
  · exact .ok _
  · exact .ok _
  · exact .ok _
  · exact .error rfl

theorem admitted_packTokens (tokens : List Token) : Admitted (packTokens type tokens) := by
  refine Admitted.bind (.mapM fun token _ => ?_) fun slots _ => .ok _
  exact (admitted_checkCount type.size token.size).map fun _ => token.bytes

/-- What names stand for is looked at as named values. -/
theorem enumerated_of_valuesOfNames {names : List String} {values : List Value}
    (h : valuesOfNames type names = .ok values) :
    ∀ value ∈ values, ∃ n, value = .enumerated n none := by
  induction names generalizing values with
  | nil =>
    cases h
    simp
  | cons name rest ih =>
    rw [valuesOfNames, List.mapM_cons] at h
    obtain ⟨first, hfirst, hrest⟩ := exceptBind_ok h
    obtain ⟨others, hothers, hvalues⟩ := exceptBind_ok hrest
    cases hvalues
    intro value hvalue
    rcases List.mem_cons.1 hvalue with rfl | hvalue
    · cases hnumber : type.valueOfName? name with
      | none =>
        rw [hnumber] at hfirst
        cases hfirst
      | some n =>
        rw [hnumber] at hfirst
        cases hfirst
        exact ⟨n, rfl⟩
    · exact ih hothers value hvalue

theorem admitted_packNames {base : Datatype} {named : List (String × Int)} {traits : Traits}
    (names : List String) :
    Admitted (valuesOfNames (.enumeration base named traits) names >>=
      (Datatype.enumeration base named traits).encodeElements options) := by
  refine Admitted.bind (.mapM fun name _ => ?_) fun values hvalues => ?_
  · split
    · exact .ok _
    · exact .error rfl
  · rw [Datatype.encodeElements_eq_mapM]
    refine Admitted.map (.mapM fun value hvalue => ?_) _
    obtain ⟨n, rfl⟩ := enumerated_of_valuesOfNames hvalues value hvalue
    rw [Datatype.encode_enumeration rfl rfl]
    exact Datatype.admitted_encodeEnumerated _ _

/-- **Only values can be rejected** while data are packed. -/
theorem admitted_pack (hdata : ∀ items, data ≠ .values items) :
    Admitted (data.pack type options count) := by
  unfold pack
  have hcount (expected actual : Nat) {result : Except Error Bytes} (h : Admitted result) :
      Admitted (checkCount expected actual >>= fun _ =>
        result >>= fun bytes => pure (Payload.packed bytes)) :=
    (admitted_checkCount expected actual).bind fun _ _ => h.bind fun bytes _ => .ok _
  split
  · exact absurd rfl (hdata _)
  · exact (admitted_checkCount _ _).bind fun _ _ => .ok _
  · split
    · exact hcount _ _ admitted_packIntegers
    · exact hcount _ _ admitted_packIntegers
    · exact hcount _ _ admitted_packFloats
    · split
      · exact (admitted_checkCount _ _).bind fun _ _ => .ok _
      · exact .error rfl
    · split
      · exact (admitted_checkCount _ _).bind fun _ _ => .ok _
      · exact .error rfl
    · refine (admitted_checkCount _ _).bind fun _ _ => ?_
      split
      · rw [← bind_assoc]
        exact (admitted_packNames _).bind fun _ _ => .ok _
      · exact admitted_packIntegers.bind fun _ _ => .ok _
    · refine (admitted_checkCount _ _).bind fun _ _ => ?_
      split
      · exact (admitted_packTokens _).bind fun _ _ => .ok _
      · exact .ok _
      · exact .error rfl
    all_goals exact .error rfl

/-- What is rejected while data are packed are values that cannot be
encoded. -/
theorem pack_rejected {e : Error} (he : e.isRejection = true)
    (h : data.pack type options count = .error e) :
    ∃ items, data = .values items ∧ items.length = count ∧
      type.encodeElements options items = .error e := by
  cases data with
  | values items =>
    refine ⟨items, rfl, ?_⟩
    have hchecked : (checkCount count items.length >>= fun _ =>
        type.encodeElements options items >>= fun bytes => pure (Payload.packed bytes)) =
          .error e := h
    by_cases hcount : count = items.length
    · subst hcount
      rw [checkCount_self] at hchecked
      refine ⟨rfl, ?_⟩
      cases hencoded : type.encodeElements options items with
      | ok bytes =>
        rw [hencoded] at hchecked
        cases hchecked
      | error e' =>
        rw [hencoded] at hchecked
        cases hchecked
        rfl
    · rw [checkCount, if_neg hcount] at hchecked
      cases hchecked
      cases he
  | _ =>
    have hadmitted := admitted_pack (by rintro _ ⟨⟩) h
    exact absurd (he.symm.trans hadmitted) (by decide)

end Data

end TypedAttr
