import TypedAttr.Proofs.Memory.Description
import TypedAttr.Proofs.Memory.Ledger
import TypedAttr.Proofs.Reference.Texts
/-!
# Tokens name their targets

A token that a file hands out names what it was made for, whatever is done
with the file afterwards (`names_of_minting`): no other token is the same, and
as long as nothing is made to fail, a resolver that never saw the token finds
the object it was made for, the attribute or the region in it, and the kind
under which it was made.
-/

namespace TypedAttr

namespace Memory

namespace Minting

/-- The region that a token is made for. -/
def selection? : Minting → Option RegionSelection
  | .region _ selection | .regionAddress _ selection => some selection
  | .object _ | .attribute _ _ _ | .other _ | .objectAddress _ => none

/-- The type of object that is told. A region in the short form is always said
to be one of a dataset. -/
def toldType (minting : Minting) (object : StoredObject) : ObjectType :=
  if minting.kind = .regionAddress then .dataset else object.type

theorem reference_of_selection {minting : Minting} {selection : RegionSelection}
    (h : minting.selection? = some selection) :
    minting.reference = ⟨minting.kind, .region minting.target.objectId selection⟩ := by
  cases minting with
  | region | regionAddress => rw [Option.some.inj h.symm]; rfl
  | _ => cases h

end Minting

/-- **A record that names what a token was made for**: the file at a path, an
object in it, and the attribute or the region of the object. The text of a
region shows its coordinates if there is one for every dimension. -/
structure Names (path : String) (minting : Minting) (object : StoredObject) (record : Record) :
    Prop where
  filePath : record.filePath = path
  fileName : IsLastPart record.fileName path
  objectName : record.objectName = object.path
  objectType : record.objectType = minting.toldType object
  kind : record.kind = minting.kind
  ofAttribute (id : ObjectId) (name : String) (rank : Nat) :
    minting = .attribute id name rank →
      record.attributeName = name ∧ record.regionType = .attribute ∧
        record.regionRank = some rank
  ofPoints (points : List (List Nat)) :
    minting.selection? = some (.points points) →
      record.regionType = .points ∧ record.regionRank = some object.extents.length ∧
        (0 < object.extents.length →
          (∀ point ∈ points, point.length = object.extents.length) →
            record.regionText =
              "\x7b " ++ " ".intercalate (points.map fun point =>
                "(" ++ ",".intercalate (point.map toString) ++ ")") ++ " \x7d")
  ofBlocks (blocks : List (List Nat × List Nat)) :
    minting.selection? = some (.blocks blocks) →
      record.regionType = .blocks ∧ record.regionRank = some object.extents.length ∧
        (0 < object.extents.length →
          (∀ corners ∈ blocks, corners.1.length = object.extents.length ∧
            corners.2.length = object.extents.length) →
            record.regionText =
              "\x7b " ++ " ".intercalate (blocks.map fun (low, high) =>
                "(" ++ ",".intercalate (low.map toString) ++ ")-(" ++
                  ",".intercalate (high.map toString) ++ ")") ++ " \x7d")

namespace File

/-! ## What is told of a token -/

section Told

variable {file : File} {token : Token} {minting : Minting} {object : StoredObject}
variable (hfaults : file.faults = []) (hreference : file.reference token = .ok minting.reference)
include hfaults hreference

/-- A token has the kind under which it was made, if it is resolved as one of
its flavor. -/
theorem toldKind_of_minting : file.toldKind token minting.flavor = minting.kind := by
  have hkind : file.kindOf token = .ok minting.kind := by
    rw [kindOf, hreference]
    rfl
  have htold : (file.said "reference_kind" (file.kindOf token)).getD .unknown = minting.kind := by
    rw [said_of_healthy hfaults, hkind]
    rfl
  cases minting with
  | objectAddress | regionAddress => rfl
  | _ => exact htold

/-- The name of the file is told. -/
theorem fileName_located : (file.located token).fileName = lastSegment file.path := by
  have hpath : file.pathOf token = .ok file.path := by
    rw [pathOf, hreference]
    rfl
  change ((file.said "file_name" (file.pathOf token)).map lastSegment).getD _ = _
  rw [said_of_healthy hfaults, hpath]
  rfl

/-- An attribute is told by its name. -/
theorem toldAttribute_of_minting {id : ObjectId} {name : String} {rank : Nat}
    (h : minting = .attribute id name rank) :
    file.toldAttribute token .standard = name := by
  subst h
  have hkind : file.toldKind token .standard = .attribute :=
    toldKind_of_minting hfaults hreference
  have hname : file.attributeNameOf token = .ok name := by
    rw [attributeNameOf, hreference]
    rfl
  simp only [toldAttribute, hkind, said_of_healthy hfaults, hname]
  rfl

/-- And its rank is told. -/
theorem toldRegion_of_attribute {id : ObjectId} {name : String} {rank : Nat}
    (h : minting = .attribute id name rank) :
    file.toldRegion token .standard = { type := .attribute, rank := some rank } := by
  subst h
  have hkind : file.toldKind token .standard = .attribute :=
    toldKind_of_minting hfaults hreference
  have hhandle : file.attributeHandle token = .ok (.attribute rank) := by
    rw [attributeHandle, hreference]
    rfl
  have hrank : file.attributeRank token = some rank := by
    rw [attributeRank, said_of_healthy hfaults, hhandle]
    change file.openRank (.attribute rank) = some rank
    simp only [openRank, said_of_healthy hfaults]
    rfl
  rw [toldRegion, hkind]
  dsimp only
  rw [hrank]

variable (hobject : file.object minting.target.objectId = .ok object)
include hobject

/-- **A region** is told as its handle tells it. -/
theorem toldRegion_of_selection {selection : RegionSelection}
    (h : minting.selection? = some selection) :
    file.toldRegion token minting.flavor =
      file.openPart (.region selection object.extents.length) := by
  have hregion : minting.kind = .region ∨ minting.kind = .regionAddress := by
    cases minting with
    | region => exact .inl rfl
    | regionAddress => exact .inr rfl
    | _ => cases h
  have hopened : file.objectHandle token = .ok (.object minting.target.objectId) := by
    rw [objectHandle, hreference]
    rfl
  have hhandle : file.regionHandle token = .ok (.region selection object.extents.length) := by
    rw [regionHandle, hreference, minting.reference_of_selection h]
    change (file.object minting.target.objectId >>= fun object =>
      return OpenHandle.region selection object.extents.length) = _
    rw [hobject]
    rfl
  have hpart : file.regionPart token =
      file.openPart (.region selection object.extents.length) := by
    rw [regionPart, said_of_healthy hfaults, said_of_healthy hfaults, hopened, hhandle]
    rfl
  rw [toldRegion, toldKind_of_minting hfaults hreference, ← hpart]
  rcases hregion with hkind | hkind <;> rw [hkind]

end Told

/-- What an open region of points tells. -/
theorem openPart_points {file : File} (hfaults : file.faults = []) (points : List (List Nat))
    (rank : Nat) : file.openPart (.region (.points points) rank) =
      ⟨.points, Region.pointsText rank points.flatten, some rank⟩ := by
  simp only [openPart, said_of_healthy hfaults]
  rfl

/-- What one of blocks tells. -/
theorem openPart_blocks {file : File} (hfaults : file.faults = [])
    (blocks : List (List Nat × List Nat)) (rank : Nat) :
    file.openPart (.region (.blocks blocks) rank) =
      ⟨.blocks, Region.blocksText rank (blocks.flatMap fun (low, high) => low ++ high),
        some rank⟩ := by
  simp only [openPart, said_of_healthy hfaults]
  rfl

/-- **The record of a token names what it was made for**, if it is in the ledger
and nothing is made to fail. -/
theorem names_describe {file : File} {token : Token} {minting : Minting} {object : StoredObject}
    (hfaults : file.faults = []) (hnull : token.isNull = false)
    (hreference : file.reference token = .ok minting.reference)
    (hobject : file.object minting.target.objectId = .ok object) :
    Names file.path minting object (file.describe minting.flavor token) := by
  have hkind := toldKind_of_minting hfaults hreference
  obtain ⟨hfile, hname, htype⟩ :=
    @describe_of_reference file minting.flavor token _ _ hfaults hnull hreference hobject
  have hdescribe : file.describe minting.flavor token =
      (file.toldRegion token minting.flavor).put
        { file.located token with
          attributeName := file.toldAttribute token minting.flavor
          kind := file.toldKind token minting.flavor
          objectType := file.toldType token minting.flavor } := by
    rw [describe, hnull, if_neg (by decide)]
  rw [hdescribe] at hfile hname htype ⊢
  refine ⟨hfile, ?_, hname, ?_, hkind, fun id name rank h => ?_, fun points h => ?_,
    fun blocks h => ?_⟩
  · change IsLastPart (file.located token).fileName file.path
    rw [fileName_located hfaults hreference]
    exact isLastPart_lastSegment file.path
  · cases minting with
    | regionAddress => rfl
    | _ => exact htype (by intro h; cases h) (by intro h; cases h)
  · have hflavor : minting.flavor = .standard := by rw [h]; rfl
    rw [hflavor]
    rw [toldRegion_of_attribute hfaults hreference h]
    exact ⟨toldAttribute_of_minting hfaults hreference h, rfl, rfl⟩
  · rw [toldRegion_of_selection hfaults hreference hobject h, openPart_points hfaults]
    refine ⟨rfl, rfl, fun hrank hpoints => ?_⟩
    exact Region.pointsText_flatten hrank hpoints
  · rw [toldRegion_of_selection hfaults hreference hobject h, openPart_blocks hfaults]
    refine ⟨rfl, rfl, fun hrank hblocks => ?_⟩
    refine (Region.blocksText_flatMap hrank hblocks).trans ?_
    rw [Region.braced]
    congr 3
    refine List.map_congr_left fun corners _ => ?_
    simp only [Region.tuple, String.append_assoc]
    rfl

/-- **A token names its target for ever.** Whatever was done with a file before
and whatever is done with it afterwards, as long as fewer than `2 ^ 64` tokens
are handed out: no two tokens are the same, and none is all zeros. A token that
was made for an object that was there leads to it, and to the attribute or the
region that was named, with any new resolver of its flavor, whenever nothing is
made to fail. -/
theorem names_of_minting (path : String) (before after : List Deed) (minting : Minting)
    (object : StoredObject) (capacity : Nat)
    (hroom : ((ofPath path).handedOut (before ++ .mint minting :: after)).length <
      Nat.pow 2 64)
    (hobject : (before.foldl did (ofPath path)).object minting.target.objectId = .ok object)
    (hfaults : ((before ++ .mint minting :: after).foldl did (ofPath path)).faults = []) :
    let tokens := (ofPath path).handedOut (before ++ .mint minting :: after)
    let token := (minting.run (before.foldl did (ofPath path))).1
    let file := (before ++ .mint minting :: after).foldl did (ofPath path)
    tokens.Nodup ∧ (∀ other ∈ tokens, other.isNull = false) ∧ token ∈ tokens ∧
      Names path minting object (file.firstRecord token capacity minting.flavor) := by
  intro tokens token file
  have hbounded : tokens.length < Nat.pow 256 8 := hroom
  have hmember : token ∈ tokens := by
    change token ∈ (ofPath path).handedOut (before ++ .mint minting :: after)
    rw [handedOut_append, handedOut_cons]
    exact List.mem_append_right _ (List.mem_append_left _ (List.mem_singleton.2 rfl))
  have hnull (other : Token) (hother : other ∈ tokens) : other.isNull = false :=
    isNull_of_mem_handedOut hbounded hother
  refine ⟨nodup_handedOut hbounded, hnull, hmember, ?_⟩
  -- what was taken down when the token was made is what is looked up in the end
  have hsplit : file = after.foldl did (minting.run (before.foldl did (ofPath path))).2 :=
    List.foldl_append
  have hreference : file.reference token = .ok minting.reference := by
    have hledger : Ledger file := ledger_of_handedOut hbounded
    refine hledger.reference_of_mem ?_
    rw [hsplit]
    exact mem_references_of_minting _ minting after
  have hstill : file.object minting.target.objectId = .ok object := by
    rw [hsplit]
    exact object_of_minting hobject minting after
  have hpath : file.path = path := (recorded_history (ofPath path) _).remembers.path
  have hnames := names_describe hfaults (hnull token hmember) hreference hstill
  rw [firstRecord_eq]
  rwa [hpath] at hnames

/-- Two points of a dataset, resolved after another token was made and a
question had failed for a while. -/
theorem names_of_minting_points :
    let before : List Deed := [.addObject "/d" .dataset [4, 4]]
    let minting : Minting := .region ⟨0⟩ (.points [[1, 2], [3, 0]])
    let token := (minting.run (before.foldl did (ofPath "runs/f.h5"))).1
    let after : List Deed :=
      [.mint (.objectAddress ⟨0⟩), .fail "space_rank",
        .resolve .standard .unbounded (.record token), .heal "space_rank"]
    let file := (before ++ .mint minting :: after).foldl did (ofPath "runs/f.h5")
    let record := file.firstRecord token 0 .standard
    file.calls = 9 ∧ record.filePath = "runs/f.h5" ∧ record.objectName = "/d" ∧
      record.objectType = .dataset ∧ record.kind = .region ∧ record.regionType = .points ∧
        record.regionText = "{ (1,2) (3,0) }" := by
  intro before minting token after file record
  have hfaults : file.faults = [] := by decide +kernel
  obtain ⟨-, -, -, hnames⟩ :=
    names_of_minting "runs/f.h5" before after minting ⟨"/d", .dataset, [4, 4]⟩ 0
      (by decide +kernel) rfl hfaults
  obtain ⟨htype, -, htext⟩ := hnames.ofPoints [[1, 2], [3, 0]] rfl
  refine ⟨by decide +kernel, hnames.filePath, hnames.objectName, hnames.objectType, hnames.kind,
    htype, ?_⟩
  exact (htext (by decide) (by decide)).trans (by decide)

end File

end Memory

end TypedAttr
