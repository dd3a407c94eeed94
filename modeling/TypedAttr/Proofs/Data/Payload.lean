import TypedAttr.Attribute.Transaction
import TypedAttr.Proofs.Backend.Keeps
/-!
# What data are stored as

Texts for a type of text of any length are stored as they are, and all other
data as packed bytes (`payload_ok`). That goes for packed bytes and values
given to such a type, too: the type is not looked at before they are packed.
-/

namespace TypedAttr

namespace Data

/-- Whether the data are texts. -/
def isTexts : Data → Bool
  | .texts _ => true
  | _ => false

/-- The payloads that data of a type can have. -/
inductive StoredAs (type : Datatype) (count : Nat) : Data → Payload → Prop
  | texts (items : List String) (htype : type.isVarText = true) (hcount : items.length = count) :
    StoredAs type count (.texts items) (.varTexts items)
  | packed {data : Data} (bytes : Bytes) (h : type.isVarText = true → data.isTexts = false) :
    StoredAs type count data (.packed bytes)

variable {type : Datatype} {options : ElementOptions} {count : Nat} {payload : Payload}

theorem checkCount_ok {expected actual : Nat} {u : Unit} (h : checkCount expected actual = .ok u) :
    expected = actual := by
  unfold checkCount at h
  by_cases hcount : expected = actual
  · exact hcount
  · rw [if_neg hcount] at h
    cases h

/-- What is packed once a count was checked is packed bytes. -/
theorem exists_packed {check : Except Error Unit} {pack : Except Error Bytes}
    (h : (check >>= fun _ => pack >>= fun bytes => pure (.packed bytes)) = .ok payload) :
    ∃ bytes, payload = .packed bytes := by
  obtain ⟨_, -, hpack⟩ := exceptBind_ok h
  obtain ⟨bytes, -, hbytes⟩ := exceptBind_ok hpack
  cases hbytes
  exact ⟨bytes, rfl⟩

/-- Data of any type but text of any length are stored as packed bytes. -/
theorem exists_packed_of_fixed {data : Data} (hvar : type.isVarText = false)
    (h : data.pack type options count = .ok payload) : ∃ bytes, payload = .packed bytes := by
  unfold pack at h
  cases data with
  | values items => exact exists_packed h
  | raw bytes => exact @exists_packed _ _ (.ok bytes) h
  | texts items =>
    cases type with
    | varText traits => cases hvar
    | integer | bitfield | float => exact exists_packed h
    | fixedText size traits => exact @exists_packed _ _ (.ok _) h
    | enumeration base values traits =>
      obtain ⟨_, -, hpack⟩ := exceptBind_ok h
      obtain ⟨items, -, hpack⟩ := exceptBind_ok hpack
      exact @exists_packed _ (.ok ()) _ hpack
    | reference flavor traits =>
      obtain ⟨_, -, hpack⟩ := exceptBind_ok h
      cases hpack
    | _ => cases h
  | floats format patterns =>
    cases type with
    | varText traits => cases hvar
    | integer | bitfield | float | enumeration => exact exists_packed h
    | reference flavor traits =>
      obtain ⟨_, -, hpack⟩ := exceptBind_ok h
      cases hpack
    | _ => cases h
  | tokens items =>
    cases type with
    | varText traits => cases hvar
    | integer | bitfield | float | enumeration | reference => exact exists_packed h
    | _ => cases h
  | ints kind words =>
    cases type with
    | varText traits => cases hvar
    | integer | bitfield | float | enumeration => exact exists_packed h
    | reference flavor traits =>
      obtain ⟨_, -, hpack⟩ := exceptBind_ok h
      dsimp only at hpack
      -- addresses are words of eight bytes
      split at hpack
      · exact @exists_packed _ (.ok ()) _ hpack
      · exact @exists_packed _ (.ok ()) (.ok _) hpack
      · cases hpack
    | _ => cases h

/-- **What data are stored as**, if they can be. -/
theorem pack_ok {data : Data} (h : data.pack type options count = .ok payload) :
    StoredAs type count data payload := by
  cases hvar : type.isVarText with
  | false =>
    obtain ⟨bytes, rfl⟩ := exists_packed_of_fixed hvar h
    exact .packed bytes fun htype => absurd (hvar.symm.trans htype) (by decide)
  | true =>
    cases type with
    | varText traits =>
      cases data with
      | values items =>
        obtain ⟨bytes, rfl⟩ := exists_packed h
        exact .packed bytes fun _ => rfl
      | raw bytes =>
        obtain ⟨bytes, rfl⟩ := @exists_packed _ _ (.ok bytes) h
        exact .packed bytes fun _ => rfl
      | texts items =>
        obtain ⟨_, hcount, hitems⟩ := exceptBind_ok h
        cases hitems
        exact .texts items rfl (checkCount_ok hcount).symm
      | _ => cases h
    | _ => cases hvar

end Data

namespace AttributeSource

variable {σ : Type} {source : AttributeSource σ} {options : ElementOptions} {data : Data}

/-- **What is given to a backend to store** for data. -/
theorem payload_ok {stored : Data.Payload} {s s' : σ}
    (h : source.payload options data s = .ok stored s') :
    Data.StoredAs source.type source.count data stored := by
  unfold payload at h
  cases hpaths : data.paths? source.type with
  | none =>
    rw [hpaths] at h
    exact Data.pack_ok (ofExcept_ok h).1
  | some paths =>
    rw [hpaths] at h
    -- paths are made into tokens, and those are packed bytes
    obtain ⟨_, t, -, htokens⟩ := bind_ok h
    obtain ⟨tokens, t', -, hpack⟩ := bind_ok htokens
    obtain ⟨bytes, t'', -, hpayload⟩ := bind_ok hpack
    cases hpayload
    refine .packed bytes fun htype => ?_
    cases hsource : source.type with
    | varText traits =>
      rw [hsource] at hpaths
      cases data <;> cases hpaths
    | _ =>
      rw [hsource] at htype
      cases htype

/-- A write that is not rejected is not one of sequences. -/
theorem isSequence_of_preflight {u : Unit} (h : source.preflight data = .ok u) :
    source.type.isSequence = false := by
  cases hsequence : source.type.isSequence with
  | false => rfl
  | true =>
    unfold preflight at h
    simp only [hsequence, if_true] at h
    split at h
    · cases h
    · split at h
      · cases h
      · cases h

end AttributeSource

end TypedAttr
