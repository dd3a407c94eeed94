import TypedAttr.Proofs.Datatype.LeafNames
import TypedAttr.Proofs.Element.LeafSelection
/-!
# Selecting one leaf

What an element holds in a leaf is found by the leaf's names (`Value.fieldsAt`).
A selection keeps all of it or nothing, by the leaf's path alone
(`fieldsAt_decodeAt_only`). So to select the path of one leaf keeps that leaf
and drops all others where paths tell leaves apart (`decode_singleLeaf`), and
leaves of one path are kept or dropped together (`leafPaths_collide`).
-/

namespace TypedAttr

namespace Value

mutual

/-- What the fields hold that names lead to, from the outermost compound
inward. Of an array on the way, every item is looked into. -/
def fieldsAt : List String → Value → List Value
  | [], value => [value]
  | name :: rest, .compound fields => fieldsNamed name rest fields
  | name :: rest, .array items => fieldsOfItems (name :: rest) items
  | _ :: _, _ => []

/-- What the fields of a name hold where more names lead to. -/
def fieldsNamed (name : String) (rest : List String) : List (String × Value) → List Value
  | [] => []
  | (other, value) :: fields =>
    (if other = name then fieldsAt rest value else []) ++ fieldsNamed name rest fields

/-- What items hold where names lead to. -/
def fieldsOfItems (names : List String) : List Value → List Value
  | [] => []
  | item :: items => fieldsAt names item ++ fieldsOfItems names items

end

theorem fieldsOfItems_eq_flatMap (names : List String) (items : List Value) :
    fieldsOfItems names items = items.flatMap (fieldsAt names) := by
  induction items with
  | nil => rfl
  | cons item rest ih => rw [fieldsOfItems, ih, List.flatMap_cons]

end Value

namespace Datatype

variable {type : Datatype} {members : List (String × Datatype)} {above name path : String}
variable {names rest : List String} {paths : List String} {convertText : Bool}

/-! ## What a selection keeps -/

/-- Members without a name leave no field of it. -/
theorem fieldsNamed_decodeMembers_of_not_mem (hname : name ∉ Datatype.names members)
    (options : ElementOptions) (bytes : Bytes) :
    Value.fieldsNamed name rest (decodeMembers options above members bytes) = [] := by
  induction members generalizing bytes with
  | nil => rfl
  | cons member later ih =>
    obtain ⟨hother, hlater⟩ := not_or.1 (hname ∘ List.mem_cons.2)
    cases htakes : takesPart options (memberPath above member.1) member.2 with
    | true =>
      rw [decodeMembers_taken htakes, Value.fieldsNamed, if_neg (Ne.symm hother), ih hlater]
      rfl
    | false => rw [decodeMembers_left htakes, ih hlater]

/-- **The field of a member** is that of its slot, with any options under which
the member takes part, and there is none with others. -/
theorem fieldsNamed_decodeMembers (hnames : (Datatype.names members).Nodup)
    (hmember : (name, type) ∈ members) (above : String) (rest : List String) (bytes : Bytes) :
    ∃ slot, ∀ options : ElementOptions,
      Value.fieldsNamed name rest (decodeMembers options above members bytes) =
        if takesPart options (memberPath above name) type then
          (decodeAt options (memberPath above name) type slot).fieldsAt rest
        else [] := by
  induction members generalizing bytes with
  | nil => cases hmember
  | cons member later ih =>
    obtain ⟨hname, hlater⟩ := List.nodup_cons.1 hnames
    rcases List.mem_cons.1 hmember with rfl | hmember
    · refine ⟨bytes, fun options => ?_⟩
      cases htakes : takesPart options (memberPath above name) type with
      | true =>
        rw [decodeMembers_taken htakes, Value.fieldsNamed, if_pos rfl, if_pos rfl,
          fieldsNamed_decodeMembers_of_not_mem hname, List.append_nil]
      | false =>
        rw [decodeMembers_left htakes, fieldsNamed_decodeMembers_of_not_mem hname]
        rfl
    · -- the member before it has another name
      obtain ⟨slot, hslot⟩ := ih hlater hmember (bytes.drop member.2.size)
      refine ⟨slot, fun options => ?_⟩
      have hother : member.1 ≠ name := by
        rintro rfl
        exact hname (List.mem_map.2 ⟨_, hmember, rfl⟩)
      rw [← hslot options]
      cases htakes : takesPart options (memberPath above member.1) member.2 with
      | true =>
        rw [decodeMembers_taken htakes, Value.fieldsNamed, if_neg hother]
        rfl
      | false => rw [decodeMembers_left htakes]

/-- A leaf is read alike with any selection. -/
theorem decodeAt_only_of_leaf (h : type.leafBase.isCompound = false) (bytes : Bytes) :
    decodeAt ⟨convertText, .only paths⟩ path type bytes =
      decodeAt ⟨convertText, .all⟩ path type bytes :=
  decodeAt_congr path type bytes
    ⟨rfl, fun field hfield => by rw [fieldPathsAt_of_leaf h] at hfield; cases hfield⟩

/-- **A selection keeps what an element holds in a leaf, or nothing of it**: all
if the path of the leaf was selected. -/
theorem fieldsAt_decodeAt_only (htype : type.hasDistinctNames = true)
    (hleaf : names ∈ type.leafNames) (hnames : names ≠ []) (path : String) (bytes : Bytes) :
    (decodeAt ⟨convertText, .only paths⟩ path type bytes).fieldsAt names =
      if pathBelow path names ∈ paths then
        (decodeAt ⟨convertText, .all⟩ path type bytes).fieldsAt names
      else [] := by
  induction type generalizing names path bytes with
  | compound members traits ih =>
    obtain ⟨hsiblings, hbelow⟩ := hasDistinctNames_compound.1 htype
    obtain ⟨⟨name, type⟩, hmember, rest, hrest, rfl⟩ := mem_leafNamesOf.1 hleaf
    rw [decodeAt, decodeAt, readSlot, readSlot]
    split
    · exact (ite_self _).symm
    · obtain ⟨slot, hslot⟩ := fieldsNamed_decodeMembers hsiblings hmember path rest
        (bytes.take (sizeOfMembers members))
      simp only [Value.fieldsAt, hslot, takesPart_all, if_true]
      cases hcompound : type.leafBase.isCompound with
      | true =>
        have htakes : takesPart ⟨convertText, .only paths⟩ (memberPath path name) type = true := by
          rw [takesPart_only, isKept, hcompound, Bool.true_or]
        have hmore : rest ≠ [] := fun hnone =>
          Bool.false_ne_true (((eq_nil_of_mem_leafNames hrest).1 hnone).symm.trans hcompound)
        rw [if_pos htakes]
        exact ih _ hmember (hbelow _ hmember) hrest hmore _ _
      | false =>
        have htakes : takesPart ⟨convertText, .only paths⟩ (memberPath path name) type =
            decide (memberPath path name ∈ paths) := by
          rw [takesPart_only, isKept, hcompound, Bool.false_or]
        obtain rfl : rest = [] := (eq_nil_of_mem_leafNames hrest).2 hcompound
        simp only [htakes, decide_eq_true_eq, decodeAt_only_of_leaf hcompound]
        rfl
  | array base extents traits ih =>
    cases names with
    | nil => exact absurd rfl hnames
    | cons name rest =>
      rw [decodeAt, decodeAt, readSlot, readSlot]
      split
      · exact (ite_self _).symm
      · have hitems (slot : Bytes) :=
          ih (hasDistinctNames_array.symm.trans htype) hleaf hnames path slot
        simp only [Value.fieldsAt, Value.fieldsOfItems_eq_flatMap, List.flatMap_map, hitems]
        split
        · rfl
        · exact List.flatMap_eq_nil_iff.2 fun _ _ => rfl
  | _ => exact absurd (List.mem_singleton.1 hleaf) hnames

/-! ## Leaves by themselves -/

/-- **A selection goes by paths.** Names tell the leaves of a compound apart,
and a selection keeps a leaf, all of it, just if it has the path that the names
make. Where no name begins with the name of a compound beside it and a dot, and
no compound in the outermost one is without a name, paths tell leaves apart as
well: to select the path of one leaf keeps that leaf and drops every other. -/
theorem decode_singleLeaf (type : Datatype) (hcompound : type.isCompound = true)
    (hdistinct : type.hasDistinctNames = true) :
    type.leafNames.Nodup ∧ type.leafPaths = type.leafNames.map (pathBelow "") ∧
      (∀ convertText paths bytes, ∀ names ∈ type.leafNames,
        (type.decode ⟨convertText, .only paths⟩ bytes).fieldsAt names =
          if pathBelow "" names ∈ paths then
            (type.decode ⟨convertText, .all⟩ bytes).fieldsAt names
          else []) ∧
      (type.hasSeparateNames = true →
        (∀ member ∈ type.members, member.2.leafBase.isCompound = true → member.1 ≠ "") →
          type.leafPaths.Nodup ∧
            ∀ names ∈ type.leafNames, ∀ convertText bytes, ∀ other ∈ type.leafNames,
              (type.decode ⟨convertText, .only [pathBelow "" names]⟩ bytes).fieldsAt other =
                if other = names then (type.decode ⟨convertText, .all⟩ bytes).fieldsAt names
                else []) := by
  have hleaves : type.leafNames.Nodup := nodup_leafNames hdistinct
  have hpaths : type.leafPaths = type.leafNames.map (pathBelow "") := leafPaths_eq_map hcompound
  have hbase : type.leafBase.isCompound = true := by
    cases type with
    | compound members traits => rfl
    | _ => cases hcompound
  have hkeeps (convertText : Bool) (paths : List String) (bytes : Bytes) (names : List String)
      (hnames : names ∈ type.leafNames) :
      (type.decode ⟨convertText, .only paths⟩ bytes).fieldsAt names =
        if pathBelow "" names ∈ paths then
          (type.decode ⟨convertText, .all⟩ bytes).fieldsAt names
        else [] := by
    refine fieldsAt_decodeAt_only hdistinct hnames (fun hnone => ?_) "" bytes
    exact Bool.false_ne_true (((eq_nil_of_mem_leafNames hnames).1 hnone).symm.trans hbase)
  refine ⟨hleaves, hpaths, hkeeps, fun hseparate hnamed => ?_⟩
  have hinj {one other : List String} (hone : one ∈ type.leafNames)
      (hother : other ∈ type.leafNames) (h : pathBelow "" one = pathBelow "" other) :
      one = other := pathBelow_inj hcompound hdistinct hseparate hnamed hone hother h
  refine ⟨?_, fun names hnames convertText bytes other hother => ?_⟩
  · rw [hpaths]
    exact hleaves.map_on fun one hone other hother => hinj hone hother
  · rw [hkeeps convertText _ bytes other hother]
    by_cases h : other = names
    · rw [h, if_pos (List.mem_singleton.2 rfl), if_pos rfl]
    · rw [if_neg h, if_neg fun hpath => h (hinj hother hnames (List.mem_singleton.1 hpath))]

/-- Names with dots and without anything in them, of which one leaf in an array
is kept. -/
theorem decode_singleLeaf_grid :
    let byte := ofInteger 1 false
    let item := ofMembers [("", byte), ("c.d", byte)]
    let type := ofMembers [("a", byte), ("a.b", arrayOf item [2])]
    let word (n : BitVec 8) : Value := .int ⟨.one, false⟩ n
    let found := type.decode { members := .only ["a.b.c.d"] } [1, 2, 3, 4, 5]
    type.isCompound = true ∧ type.hasDistinctNames = true ∧ type.hasSeparateNames = true ∧
      type.leafPaths = ["a", "a.b.", "a.b.c.d"] ∧ type.leafPaths.Nodup ∧
      found.fieldsAt ["a"] = [] ∧ found.fieldsAt ["a.b", ""] = [] ∧
      found.fieldsAt ["a.b", "c.d"] = [word 3, word 5] := by
  intro byte item type word found
  have hdistinct : type.hasDistinctNames = true := by decide
  have hseparate : type.hasSeparateNames = true := by decide +kernel
  obtain ⟨-, -, -, hseparated⟩ := decode_singleLeaf type rfl hdistinct
  obtain ⟨hnodup, hsingle⟩ := hseparated hseparate (by decide +kernel)
  have hone := hsingle ["a.b", "c.d"] (by decide +kernel) true [1, 2, 3, 4, 5]
  have hpath : pathBelow "" ["a.b", "c.d"] = "a.b.c.d" := by decide +kernel
  have hall : type.decode ⟨true, .all⟩ [1, 2, 3, 4, 5] = .compound
      [("a", word 1), ("a.b", .array [.compound [("", word 2), ("c.d", word 3)],
        .compound [("", word 4), ("c.d", word 5)]])] := rfl
  rw [hpath, hall] at hone
  refine ⟨rfl, hdistinct, hseparate, by decide +kernel, hnodup, ?_, ?_, ?_⟩
  · exact hone ["a"] (by decide +kernel)
  · exact hone ["a.b", ""] (by decide +kernel)
  · rw [hone ["a.b", "c.d"] (by decide +kernel), if_pos rfl]
    rfl

/-- Leaves of one path are kept or dropped together: where all have the same
one, a selection is as good as all members or as none. -/
theorem decode_of_onePath (h : ∀ field ∈ type.fieldPaths, field = path) (paths : List String)
    (bytes : Bytes) :
    type.decode ⟨convertText, .only paths⟩ bytes =
      if path ∈ paths then type.decode ⟨convertText, .all⟩ bytes
      else type.decode ⟨convertText, .only []⟩ bytes := by
  split
  · next hpath =>
    exact (sameElements_only_iff.2 fun field hfield => h field hfield ▸ hpath).decode bytes
  · next hpath =>
    have hagree : ElementOptions.AgreeOn ⟨convertText, .only paths⟩ ⟨convertText, .only []⟩
        type.fieldPaths :=
      ⟨rfl, fun field hfield => by
        rw [h field hfield]
        exact decide_eq_false hpath⟩
    exact (sameElements_of_agreeOn hagree).decode bytes

/-- **Leaves can have one path.** A name with a dot in it can be the path of
another leaf, and a compound without a name adds nothing to the paths of its
leaves. No selection keeps one of two such leaves and drops the other. -/
theorem leafPaths_collide :
    let byte := ofInteger 1 false
    let dots := ofMembers [("a.b", byte), ("a", ofMembers [("b", byte)])]
    let unnamed := ofMembers [("x", byte), ("", ofMembers [("x", byte)])]
    (dots.isCompound = true ∧ dots.hasDistinctNames = true ∧ ¬dots.leafPaths.Nodup ∧
        ∀ paths, dots.decode { members := .only paths } [1, 2] =
          if "a.b" ∈ paths then dots.decode {} [1, 2] else .compound [("a", .compound [])]) ∧
      (unnamed.isCompound = true ∧ unnamed.hasDistinctNames = true ∧ ¬unnamed.leafPaths.Nodup ∧
        ∀ paths, unnamed.decode { members := .only paths } [1, 2] =
          if "x" ∈ paths then unnamed.decode {} [1, 2] else .compound [("", .compound [])]) := by
  intro byte dots unnamed
  refine ⟨⟨rfl, by decide, by decide +kernel, fun paths => ?_⟩,
    ⟨rfl, by decide, by decide +kernel, fun paths => ?_⟩⟩
  · have hone : ∀ field ∈ dots.fieldPaths, field = "a.b" := by decide
    rw [decode_of_onePath hone]
    rfl
  · have hone : ∀ field ∈ unnamed.fieldPaths, field = "x" := by decide
    rw [decode_of_onePath hone]
    rfl

end Datatype

end TypedAttr
