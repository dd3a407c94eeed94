import TypedAttr.Datatype.Basic
/-!
# Trees of datatypes

The induction over a datatype that the rest of the theory uses
(`Datatype.induct`): a compound is handled with what is known of each of
its members. `everyNode` asks something of a datatype and of all that is
below it; two such questions recur, whether names tell siblings apart
(`hasDistinctNames`) and whether every node can be written (`isWritable`).
-/

namespace TypedAttr

namespace Datatype

/-- **Induction over a datatype**, a compound with every member's type. -/
@[induction_eliminator]
theorem induct {motive : Datatype → Prop}
    (integer : ∀ size signed traits, motive (.integer size signed traits))
    (float : ∀ size traits, motive (.float size traits))
    (fixedText : ∀ size traits, motive (.fixedText size traits))
    (varText : ∀ traits, motive (.varText traits))
    (bitfield : ∀ size traits, motive (.bitfield size traits))
    (blob : ∀ size traits, motive (.blob size traits))
    (time : ∀ size traits, motive (.time size traits))
    (noClass : ∀ traits, motive (.noClass traits))
    (compound : ∀ members traits, (∀ member ∈ members, motive member.2) →
      motive (.compound members traits))
    (array : ∀ base extents traits, motive base → motive (.array base extents traits))
    (sequence : ∀ base traits, motive base → motive (.sequence base traits))
    (enumeration : ∀ base values traits, motive base →
      motive (.enumeration base values traits))
    (reference : ∀ flavor traits, motive (.reference flavor traits))
    (type : Datatype) : motive type :=
  @Datatype.rec motive (fun members => ∀ member ∈ members, motive member.2)
    (fun member => motive member.2)
    integer float fixedText varText bitfield blob time noClass compound array sequence
    enumeration reference
    (by simp)
    (fun head tail hhead htail member hmember => by
      rcases List.mem_cons.1 hmember with rfl | hmember
      · exact hhead
      · exact htail member hmember)
    (fun _ _ h => h) type

mutual

/-- Whether a question has a yes for a datatype and for all that is below
it. -/
def everyNode (p : Datatype → Bool) : Datatype → Bool
  | .compound members traits => p (.compound members traits) && everyMember p members
  | .array base extents traits => p (.array base extents traits) && base.everyNode p
  | .sequence base traits => p (.sequence base traits) && base.everyNode p
  | .enumeration base values traits => p (.enumeration base values traits) && base.everyNode p
  | type => p type

/-- Whether a question has a yes for all nodes of all members. -/
def everyMember (p : Datatype → Bool) : List (String × Datatype) → Bool
  | [] => true
  | (_, type) :: rest => type.everyNode p && everyMember p rest

end

theorem everyMember_iff {p : Datatype → Bool} {members : List (String × Datatype)} :
    everyMember p members = true ↔ ∀ member ∈ members, member.2.everyNode p = true := by
  induction members with
  | nil => simp [everyMember]
  | cons member rest ih => simp [everyMember, ih]

/-- What holds of every node holds of the outermost one. -/
theorem everyNode_self {p : Datatype → Bool} {type : Datatype} (h : type.everyNode p = true) :
    p type = true := by
  cases type <;> simp_all [everyNode]

/-- The names of members. -/
def names (members : List (String × Datatype)) : List String := members.map (·.1)

/-- Whether the members of every compound in the tree have names of their
own. -/
def hasDistinctNames (type : Datatype) : Bool :=
  type.everyNode fun node => decide (names node.members).Nodup

theorem hasDistinctNames_compound {members : List (String × Datatype)} {traits : Traits} :
    (compound members traits).hasDistinctNames = true ↔
      (names members).Nodup ∧ ∀ member ∈ members, member.2.hasDistinctNames = true := by
  rw [hasDistinctNames, everyNode, Bool.and_eq_true, decide_eq_true_iff, everyMember_iff]
  rfl

theorem hasDistinctNames_array {base : Datatype} {extents : List Nat} {traits : Traits} :
    (array base extents traits).hasDistinctNames = base.hasDistinctNames := by
  simp [hasDistinctNames, everyNode, Datatype.members, names]

/-- Whether elements of the type are never written: floats of sixteen bytes
and data of variable length. -/
def isNeverWritten (type : Datatype) : Bool :=
  type.isWideFloat || type.isSequence || type.isVarText

/-- Whether nothing in the tree is of a type that is never written. -/
def isWritable (type : Datatype) : Bool :=
  type.everyNode fun node => !node.isNeverWritten

theorem isWritable_compound {members : List (String × Datatype)} {traits : Traits} :
    (compound members traits).isWritable = true ↔
      ∀ member ∈ members, member.2.isWritable = true := by
  simp [isWritable, everyNode, everyMember_iff, isNeverWritten, isWideFloat, isSequence,
    isVarText]

theorem isWritable_array {base : Datatype} {extents : List Nat} {traits : Traits} :
    (array base extents traits).isWritable = base.isWritable := by
  simp [isWritable, everyNode, isNeverWritten, isWideFloat, isSequence, isVarText]

theorem isNeverWritten_of_isWritable {type : Datatype} (h : type.isWritable = true) :
    type.isNeverWritten = false := by
  simpa using everyNode_self h

end Datatype

end TypedAttr
