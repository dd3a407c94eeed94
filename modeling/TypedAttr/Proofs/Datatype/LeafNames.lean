import Mathlib.Data.List.Nodup
import TypedAttr.Datatype.Members
import TypedAttr.Proofs.Datatype.Tree
/-!
# Leaves by their names

A leaf is reached by names, from the outermost compound inward (`leafNames`),
and these tell it from every other leaf if siblings have names of their own
(`nodup_leafNames`). Its path has the same names with dots between them. Names
may hold dots and may be empty, and then two leaves can have one path; they
cannot if the name of a compound is never, with a dot behind it, the beginning
of the name of a sibling (`pathBelow_inj`).
-/

namespace TypedAttr

namespace Datatype

/-! ## Names that lead to leaves -/

mutual

/-- The names that lead to each leaf of a type: none at all if it is a leaf.
Arrays on the way add nothing. -/
def leafNames : Datatype → List (List String)
  | .compound members _ => leafNamesOf members
  | .array base _ _ => base.leafNames
  | _ => [[]]

/-- The names that lead to each leaf of members, in declared order. -/
def leafNamesOf : List (String × Datatype) → List (List String)
  | [] => []
  | (name, type) :: rest => type.leafNames.map (name :: ·) ++ leafNamesOf rest

end

/-- The path below a path that names lead to. -/
def pathBelow (above : String) (names : List String) : String := names.foldl memberPath above

variable {type : Datatype} {members : List (String × Datatype)} {traits : Traits}
variable {names other : List String} {above name : String}

theorem mem_leafNamesOf :
    names ∈ leafNamesOf members ↔
      ∃ member ∈ members, ∃ rest ∈ member.2.leafNames, names = member.1 :: rest := by
  induction members with
  | nil => simp [leafNamesOf]
  | cons member rest ih => simp [leafNamesOf, ih, eq_comm]

/-- What no names lead to is a leaf, and nothing else is. -/
theorem eq_nil_of_mem_leafNames (h : names ∈ type.leafNames) :
    names = [] ↔ type.leafBase.isCompound = false := by
  induction type with
  | compound members traits ih =>
    obtain ⟨member, -, rest, -, rfl⟩ := mem_leafNamesOf.1 h
    exact iff_of_false (List.cons_ne_nil _ _) (by simp [leafBase, isCompound])
  | array base extents traits ih => exact ih h
  | _ => exact iff_of_true (List.mem_singleton.1 h) rfl

/-- So what names lead further into is a compound. -/
theorem isCompound_of_mem_leafNames (h : names ∈ type.leafNames) (hmore : names ≠ []) :
    type.leafBase.isCompound = true :=
  Bool.of_not_eq_false fun hleaf => hmore ((eq_nil_of_mem_leafNames h).2 hleaf)

theorem leafPathsBelow_eq_map
    (hmembers : ∀ member ∈ members, ∀ path,
      leafPathsAt path member.2 = member.2.leafNames.map (pathBelow path)) :
    leafPathsBelow above members = (leafNamesOf members).map (pathBelow above) := by
  induction members with
  | nil => rfl
  | cons member rest ih =>
    obtain ⟨hmember, hrest⟩ := List.forall_mem_cons.1 hmembers
    rw [leafPathsBelow, leafNamesOf, ih hrest, hmember, List.map_append, List.map_map]
    rfl

/-- **The paths of leaves** are where their names lead to. -/
theorem leafPathsAt_eq_map (path : String) (type : Datatype) :
    leafPathsAt path type = type.leafNames.map (pathBelow path) := by
  induction type generalizing path with
  | compound members traits ih => exact leafPathsBelow_eq_map ih
  | array base extents traits ih => exact ih path
  | _ => rfl

theorem leafPaths_eq_map (h : type.isCompound = true) :
    type.leafPaths = type.leafNames.map (pathBelow "") := by
  cases type with
  | compound members traits => exact leafPathsAt_eq_map "" (.compound members traits)
  | _ => cases h

/-- Siblings of the same name are the same. -/
theorem eq_of_same_name (hnames : (Datatype.names members).Nodup)
    {member other : String × Datatype} (hmember : member ∈ members) (hother : other ∈ members)
    (h : member.1 = other.1) : member = other :=
  List.inj_on_of_nodup_map hnames hmember hother h

theorem nodup_leafNamesOf (hnames : (Datatype.names members).Nodup)
    (hmembers : ∀ member ∈ members, member.2.leafNames.Nodup) :
    (leafNamesOf members).Nodup := by
  induction members with
  | nil => exact List.nodup_nil
  | cons member rest ih =>
    obtain ⟨hname, hothers⟩ := List.nodup_cons.1 hnames
    obtain ⟨hmember, hrest⟩ := List.forall_mem_cons.1 hmembers
    refine List.nodup_append.2 ⟨hmember.map List.cons_injective, ih hothers hrest, ?_⟩
    -- the first of the names is the member's, and none of the others has it
    intro one hone two htwo heq
    obtain ⟨names, -, rfl⟩ := List.mem_map.1 hone
    obtain ⟨later, hlater, rest, -, rfl⟩ := mem_leafNamesOf.1 htwo
    exact hname (List.mem_map.2 ⟨later, hlater, (List.cons.inj heq).1.symm⟩)

/-- **Names tell leaves apart**, if siblings have names of their own. -/
theorem nodup_leafNames (h : type.hasDistinctNames = true) : type.leafNames.Nodup := by
  induction type with
  | compound members traits ih =>
    obtain ⟨hnames, hmembers⟩ := hasDistinctNames_compound.1 h
    exact nodup_leafNamesOf hnames fun member hmember => ih member hmember (hmembers member hmember)
  | array base extents traits ih => exact ih (hasDistinctNames_array.symm.trans h)
  | _ => exact List.nodup_singleton []

/-! ## Paths that tell leaves apart -/

/-- Whether no name in the tree begins with the name of a compound beside it
and a dot. Arrays of compounds count as compounds. -/
def hasSeparateNames (type : Datatype) : Bool :=
  type.everyNode fun node => decide (∀ outer ∈ node.members, outer.2.leafBase.isCompound = true →
    ∀ member ∈ node.members, ¬(outer.1 ++ ".").toList <+: member.1.toList)

theorem hasSeparateNames_compound :
    (compound members traits).hasSeparateNames = true ↔
      (∀ outer ∈ members, outer.2.leafBase.isCompound = true →
        ∀ member ∈ members, ¬(outer.1 ++ ".").toList <+: member.1.toList) ∧
      ∀ member ∈ members, member.2.hasSeparateNames = true := by
  rw [hasSeparateNames, everyNode, Bool.and_eq_true, decide_eq_true_iff, everyMember_iff]
  rfl

theorem hasSeparateNames_array {base : Datatype} {extents : List Nat} :
    (array base extents traits).hasSeparateNames = base.hasSeparateNames := by
  simp [hasSeparateNames, everyNode, Datatype.members]

/-- Names with a dot before each. -/
def dotted (names : List String) : List Char := names.flatMap fun name => '.' :: name.toList

theorem toList_pathBelow (h : above ≠ "") (names : List String) :
    (pathBelow above names).toList = above.toList ++ dotted names := by
  induction names generalizing above with
  | nil => exact (List.append_nil _).symm
  | cons name rest ih =>
    have hpath : memberPath above name = above ++ "." ++ name := if_neg (by simpa using h)
    have hlonger : above ++ "." ++ name ≠ "" := by simp [h]
    rw [pathBelow, List.foldl_cons, ← pathBelow, hpath, ih hlonger]
    simp [dotted]

/-- The path from the outermost compound has the names of a leaf, unless it
begins with an empty name that others follow. -/
theorem cons_toList_pathBelow {rest : List String} (h : rest ≠ [] → name ≠ "") :
    '.' :: (pathBelow "" (name :: rest)).toList = dotted (name :: rest) := by
  have hfirst : pathBelow "" (name :: rest) = pathBelow name rest := rfl
  by_cases hname : name = ""
  · obtain rfl : rest = [] := Decidable.not_not.1 fun hrest => h hrest hname
    simp [pathBelow, memberPath, dotted]
  · rw [hfirst, toList_pathBelow hname]
    rfl

/-- A text that goes on where another one has ended and dotted names follow is
longer by a dot at least. -/
theorem isPrefix_of_append_dotted {short long after : List Char} {names : List String}
    (h : short ++ dotted names = long ++ after) (hlength : short.length < long.length) :
    names ≠ [] ∧ short ++ ['.'] <+: long := by
  obtain ⟨more, rfl, hdots⟩ | ⟨more, rfl, -⟩ := List.append_eq_append_iff.1 h
  · cases names with
    | nil =>
      obtain ⟨rfl, -⟩ := List.append_eq_nil_iff.1 hdots.symm
      simp at hlength
    | cons name rest =>
      cases more with
      | nil => simp at hlength
      | cons c more =>
        obtain ⟨rfl, -⟩ := List.cons.inj hdots
        exact ⟨List.cons_ne_nil _ _, ⟨more, by simp⟩⟩
  · rw [List.length_append] at hlength
    omega

/-- Members whose names come first in the same dotted names are the same. -/
theorem eq_of_dotted (hnames : (Datatype.names members).Nodup)
    (hseparate : ∀ outer ∈ members, outer.2.leafBase.isCompound = true →
      ∀ member ∈ members, ¬(outer.1 ++ ".").toList <+: member.1.toList)
    {one two : String × Datatype} {names other : List String} (hone : one ∈ members)
    (htwo : two ∈ members) (hnamesOne : names ∈ one.2.leafNames)
    (hnamesTwo : other ∈ two.2.leafNames)
    (h : dotted (one.1 :: names) = dotted (two.1 :: other)) :
    one = two ∧ dotted names = dotted other := by
  have htexts : one.1.toList ++ dotted names = two.1.toList ++ dotted other := List.cons.inj h |>.2
  have hshorter {one two : String × Datatype} {names other : List String} (hone : one ∈ members)
      (htwo : two ∈ members) (hleaf : names ∈ one.2.leafNames)
      (h : one.1.toList ++ dotted names = two.1.toList ++ dotted other) :
      ¬one.1.toList.length < two.1.toList.length := by
    intro hlength
    obtain ⟨hmore, hbegins⟩ := isPrefix_of_append_dotted h hlength
    have hcompound := isCompound_of_mem_leafNames hleaf hmore
    exact hseparate one hone hcompound two htwo (by simpa using hbegins)
  have hlength : one.1.toList.length = two.1.toList.length := by
    have hle := hshorter hone htwo hnamesOne htexts
    have hge := hshorter htwo hone hnamesTwo htexts.symm
    omega
  obtain ⟨hname, hrest⟩ := List.append_inj htexts hlength
  exact ⟨eq_of_same_name hnames hone htwo (String.toList_injective hname), hrest⟩

/-- **Dotted names tell leaves apart**, where names are separate. -/
theorem dotted_inj (hdistinct : type.hasDistinctNames = true)
    (hseparate : type.hasSeparateNames = true) (hnames : names ∈ type.leafNames)
    (hother : other ∈ type.leafNames) (h : dotted names = dotted other) : names = other := by
  induction type generalizing names other with
  | compound members traits ih =>
    obtain ⟨hsiblings, hdistinct⟩ := hasDistinctNames_compound.1 hdistinct
    obtain ⟨hdots, hseparate⟩ := hasSeparateNames_compound.1 hseparate
    obtain ⟨one, hone, rest, hrest, rfl⟩ := mem_leafNamesOf.1 hnames
    obtain ⟨two, htwo, others, hothers, rfl⟩ := mem_leafNamesOf.1 hother
    obtain ⟨rfl, hbelow⟩ := eq_of_dotted hsiblings hdots hone htwo hrest hothers h
    rw [ih one hone (hdistinct one hone) (hseparate one hone) hrest hothers hbelow]
  | array base extents traits ih =>
    exact ih (hasDistinctNames_array.symm.trans hdistinct)
      (hasSeparateNames_array.symm.trans hseparate) hnames hother h
  | _ => exact (List.mem_singleton.1 hnames).trans (List.mem_singleton.1 hother).symm

/-- **Paths tell leaves apart**, where names are separate and no compound in
the outermost one is without a name. -/
theorem pathBelow_inj (hcompound : type.isCompound = true)
    (hdistinct : type.hasDistinctNames = true) (hseparate : type.hasSeparateNames = true)
    (hnamed : ∀ member ∈ type.members, member.2.leafBase.isCompound = true → member.1 ≠ "")
    (hnames : names ∈ type.leafNames) (hother : other ∈ type.leafNames)
    (h : pathBelow "" names = pathBelow "" other) :
    names = other := by
  have hdotted {names : List String} (hnames : names ∈ type.leafNames) :
      '.' :: (pathBelow "" names).toList = dotted names := by
    cases type with
    | compound members traits =>
      obtain ⟨member, hmember, rest, hrest, rfl⟩ := mem_leafNamesOf.1 hnames
      exact cons_toList_pathBelow fun hmore =>
        hnamed member hmember (isCompound_of_mem_leafNames hrest hmore)
    | _ => cases hcompound
  exact dotted_inj hdistinct hseparate hnames hother
    (by rw [← hdotted hnames, ← hdotted hother, h])

end Datatype

end TypedAttr
