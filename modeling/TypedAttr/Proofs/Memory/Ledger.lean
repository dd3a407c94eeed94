import TypedAttr.Proofs.Memory.Minting
import TypedAttr.Proofs.Reference.Serving
/-!
# The ledger of a file

A file takes down every token that it hands out and never strikes one out.
Whatever is done with it, questions and resolvers included, what it remembers
only grows (`recorded_history`), and the tokens that it hands out are those in
its ledger, each under a number of its own (`ledger_history`). So as long as the
numbers last, no two of them are the same, none is all zeros, and each is looked
up as it was taken down.
-/

namespace TypedAttr

namespace Resolver

variable {σ β : Type} {view : σ → β} {resolver : Resolver σ}

/-- A call of a resolver leaves what its look-ups keep. -/
theorem leavesBackend_call (hkeep : resolver.lookups.Keep view) (call : Call) :
    LeavesBackend view (call.run resolver) := by
  cases call with
  | record token => exact (leavesBackend_record hkeep token).bind fun _ => .pure _
  | regionText token => exact (leavesBackend_regionText hkeep token).bind fun _ => .pure _
  | init tokens => exact (leavesBackend_init hkeep tokens).bind fun _ => .pure _
  | display limit tokens =>
    exact (leavesBackend_display hkeep limit tokens).bind fun _ => .pure _

end Resolver

namespace Memory

/-! ## Ways to be handed a token -/

/-- What a token is made for. -/
inductive Minting where
  | object (id : ObjectId)
  | region (id : ObjectId) (selection : RegionSelection)
  | attribute (id : ObjectId) (name : String) (rank : Nat)
  | other (id : ObjectId)
  | objectAddress (id : ObjectId)
  | regionAddress (id : ObjectId) (selection : RegionSelection)

namespace Minting

/-- Hands out a token. -/
def run : Minting → File → Token × File
  | .object id => File.mintObject id
  | .region id selection => File.mintRegion id selection
  | .attribute id name rank => File.mintAttribute id name rank
  | .other id => File.mintOther id
  | .objectAddress id => File.mintObjectAddress id
  | .regionAddress id selection => File.mintRegionAddress id selection

/-- The flavor of the token. -/
def flavor : Minting → ReferenceFlavor
  | .object _ | .region _ _ | .attribute _ _ _ | .other _ => .standard
  | .objectAddress _ => .object
  | .regionAddress _ _ => .region

/-- The kind of the token. -/
def kind : Minting → ReferenceKind
  | .object _ => .object
  | .region _ _ => .region
  | .attribute _ _ _ => .attribute
  | .other _ => .other
  | .objectAddress _ => .objectAddress
  | .regionAddress _ _ => .regionAddress

/-- What the token refers to. -/
def target : Minting → Target
  | .object id | .objectAddress id => .object id
  | .region id selection | .regionAddress id selection => .region id selection
  | .attribute id name rank => .attribute id name rank
  | .other id => .other id

/-- What is taken down of the token. -/
def reference (minting : Minting) : StoredReference := ⟨minting.kind, minting.target⟩

theorem run_eq (minting : Minting) (file : File) :
    minting.run file = File.mint minting.flavor.tokenSize minting.kind minting.target file := by
  cases minting <;> rfl

end Minting

namespace File

/-! ## What is done with a file -/

/-- Whatever can be done with a file. -/
inductive Deed where
  | addObject (path : String) (type : ObjectType) (extents : List Nat)
  | mint (minting : Minting)
  | fail (name : String)
  | heal (name : String)
  /-- A question by itself, whatever is looked up for it. -/
  | ask {α : Type} (name : String) (lookup : File → Except Error α)
  /-- A question that lends a handle. -/
  | askHandle (name : String) (lookup : File → Except Error OpenHandle)
  | lend (handle : OpenHandle)
  /-- A handle is given back, or a number that is of none. -/
  | release (kind : HandleKind) (id : HandleId)
  /-- A call of a resolver, whatever records it has. -/
  | resolve (flavor : ReferenceFlavor) (records : RecordCache) (call : Resolver.Call)

/-- The file after a deed, whether it succeeds or fails. -/
def did (file : File) : Deed → File
  | .addObject path type extents => (file.addObject path type extents).2
  | .mint minting => (minting.run file).2
  | .fail name => file.fail name
  | .heal name => file.heal name
  | .ask name lookup => stateAfter (answer name lookup) file
  | .askHandle name lookup => stateAfter (answerHandle name lookup) file
  | .lend handle => stateAfter (File.lend handle) file
  | .release kind id => stateAfter (File.release kind id) file
  | .resolve flavor records call => (((call.run ⟨lookups, flavor⟩).run records).run file).2

/-- The tokens that a deed hands out, one at most. -/
def handsOut (file : File) : Deed → List Token
  | .mint minting => [(minting.run file).1]
  | _ => []

/-- The tokens that are handed out by deeds, one after the other. -/
def handedOut (file : File) : List Deed → List Token
  | [] => []
  | deed :: rest => file.handsOut deed ++ (file.did deed).handedOut rest

theorem handedOut_cons (file : File) (deed : Deed) (rest : List Deed) :
    file.handedOut (deed :: rest) = file.handsOut deed ++ (file.did deed).handedOut rest :=
  rfl

theorem handedOut_append (file : File) (deeds more : List Deed) :
    file.handedOut (deeds ++ more) =
      file.handedOut deeds ++ (deeds.foldl did file).handedOut more := by
  induction deeds generalizing file with
  | nil => rfl
  | cons deed rest ih =>
    rw [List.cons_append, handedOut_cons, handedOut_cons, ih, List.append_assoc]
    rfl

/-! ## What a deed does -/

/-- A file without what questions can change, and without its faults. -/
def remembered (file : File) : File :=
  { file with handles := [], lent := 0, calls := 0, faults := [] }

theorem blind_remembered : Blind remembered := fun _ _ _ _ => rfl

/-- A file that has taken down no more tokens than another, but may have more
objects. -/
structure Quiet (file later : File) : Prop where
  path : later.path = file.path
  objects : file.objects <+: later.objects
  references : later.references = file.references
  minted : later.minted = file.minted

theorem Quiet.of_remembered {file later : File} (h : later.remembered = file.remembered) :
    Quiet file later := by
  have hobjects : later.objects = file.objects := congrArg (fun file => file.objects) h
  exact ⟨congrArg (fun file => file.path) h, ⟨[], (List.append_nil _).trans hobjects.symm⟩,
    congrArg (fun file => file.references) h, congrArg (fun file => file.minted) h⟩

/-- **What a deed does to what is remembered**: one more token is taken down,
or none is. -/
theorem did_cases (file : File) (deed : Deed) :
    (∃ minting, deed = .mint minting) ∨ file.handsOut deed = [] ∧ Quiet file (file.did deed) := by
  cases deed with
  | mint minting => exact .inl ⟨minting, rfl⟩
  | addObject path type extents => exact .inr ⟨rfl, rfl, List.prefix_append _ _, rfl, rfl⟩
  | fail name =>
    refine .inr ⟨rfl, .of_remembered ?_⟩
    rw [did, File.fail]
    split <;> rfl
  | heal name => exact .inr ⟨rfl, .of_remembered rfl⟩
  | ask name lookup =>
    exact .inr ⟨rfl, .of_remembered (blind_remembered.keeps_answer name lookup file)⟩
  | askHandle name lookup =>
    exact .inr ⟨rfl, .of_remembered (blind_remembered.keeps_answerHandle name lookup file)⟩
  | lend handle => exact .inr ⟨rfl, .of_remembered (blind_remembered.keeps_lend handle file)⟩
  | release kind id =>
    exact .inr ⟨rfl, .of_remembered (blind_remembered.keeps_release kind id file)⟩
  | resolve flavor records call =>
    have hkeep : (Resolver.mk lookups flavor).lookups.Keep remembered :=
      blind_remembered.keep_lookups
    exact .inr ⟨rfl, .of_remembered (Resolver.leavesBackend_call hkeep call records file)⟩

/-- A file that remembers what another does, and maybe more. -/
structure Remembers (file later : File) : Prop where
  path : later.path = file.path
  objects : file.objects <+: later.objects
  references : file.references <:+ later.references

theorem Remembers.refl (file : File) : Remembers file file :=
  ⟨rfl, List.prefix_refl _, List.suffix_refl _⟩

theorem Remembers.trans {a b c : File} (h : Remembers a b) (h' : Remembers b c) :
    Remembers a c :=
  ⟨h'.path.trans h.path, h.objects.trans h'.objects, h.references.trans h'.references⟩

/-- An object stays what it is. -/
theorem Remembers.object {file later : File} (h : Remembers file later) {id : ObjectId}
    {object : StoredObject} (hobject : file.object id = .ok object) :
    later.object id = .ok object := by
  rw [File.object] at hobject ⊢
  cases hfound : file.objects[id.index]? with
  | none =>
    rw [hfound] at hobject
    cases hobject
  | some found =>
    rw [hfound] at hobject
    obtain ⟨more, hmore⟩ := h.objects
    rw [← hmore, List.getElem?_append_left (List.getElem?_eq_some_iff.1 hfound).1, hfound]
    exact hobject

/-- What the ledger says after a deed. -/
structure Recorded (file : File) (tokens : List Token) (later : File) : Prop where
  remembers : Remembers file later
  entries : later.references.map (·.1) = tokens.reverse ++ file.references.map (·.1)
  minted : later.minted = file.minted + tokens.length

theorem recorded_did (file : File) (deed : Deed) :
    Recorded file (file.handsOut deed) (file.did deed) := by
  rcases did_cases file deed with ⟨minting, rfl⟩ | ⟨hnone, hquiet⟩
  · rw [handsOut, did, minting.run_eq]
    exact ⟨⟨rfl, List.prefix_refl _, List.suffix_cons _ _⟩, rfl, rfl⟩
  · rw [hnone]
    refine ⟨⟨hquiet.path, hquiet.objects, ⟨[], hquiet.references.symm⟩⟩, ?_, hquiet.minted⟩
    rw [hquiet.references]
    rfl

/-- **What the ledger says after any deeds.** -/
theorem recorded_history (file : File) (deeds : List Deed) :
    Recorded file (file.handedOut deeds) (deeds.foldl did file) := by
  induction deeds generalizing file with
  | nil => exact ⟨.refl file, rfl, rfl⟩
  | cons deed rest ih =>
    have hfirst := recorded_did file deed
    have hrest := ih (file.did deed)
    refine ⟨hfirst.remembers.trans hrest.remembers, ?_, ?_⟩
    · rw [List.foldl_cons, hrest.entries, hfirst.entries, handedOut_cons, List.reverse_append,
        List.append_assoc]
    · rw [List.foldl_cons, hrest.minted, hfirst.minted, handedOut_cons, List.length_append,
        Nat.add_assoc]

/-! ## Numbers -/

/-- Where no key occurs twice, the entry of a key is found. -/
theorem find?_of_nodup {α β : Type} [DecidableEq α] {entries : List (α × β)} {key : α} {b : β}
    (h : (entries.map (·.1)).Nodup) (hmem : (key, b) ∈ entries) :
    entries.find? (·.1 = key) = some (key, b) := by
  induction entries with
  | nil => cases hmem
  | cons entry rest ih =>
    rw [List.map_cons, List.nodup_cons] at h
    rcases List.mem_cons.1 hmem with rfl | hmem
    · exact List.find?_cons_of_pos (decide_eq_true rfl)
    · have hne : entry.1 ≠ key := fun heq => h.1 (heq ▸ List.mem_map_of_mem hmem)
      rw [List.find?_cons_of_neg (by simpa using hne)]
      exact ih h.2 hmem

/-- Every token in the ledger has a number of its own, which was given
before. -/
structure Ledger (file : File) : Prop where
  numbered : ∀ token ∈ file.references.map (·.1), ∃ size kind number, 8 ≤ size ∧
    token = ⟨tokenBytes size kind number⟩ ∧ 0 < number ∧ number ≤ file.minted
  nodup : (file.references.map (·.1)).Nodup

namespace Ledger

variable {file : File}

theorem isNull (h : Ledger file) (hroom : file.minted < Nat.pow 256 8) {token : Token}
    (hmem : token ∈ file.references.map (·.1)) : token.isNull = false := by
  obtain ⟨size, kind, number, hsize, rfl, hpos, hle⟩ := h.numbered token hmem
  exact isNull_tokenBytes hsize hpos (by omega)

/-- A token is looked up as it was taken down. -/
theorem reference_of_mem (h : Ledger file) {token : Token} {reference : StoredReference}
    (hmem : (token, reference) ∈ file.references) : file.reference token = .ok reference := by
  rw [File.reference, find?_of_nodup h.nodup hmem]

/-- The next number is of no token yet. -/
theorem not_mem (h : Ledger file) {size : Nat} (kind : ReferenceKind) (hsize : 8 ≤ size)
    (hroom : file.minted + 1 < Nat.pow 256 8) :
    ⟨tokenBytes size kind (file.minted + 1)⟩ ∉ file.references.map (·.1) := by
  intro hmem
  obtain ⟨other, kind', number, -, hsame, -, hle⟩ := h.numbered _ hmem
  have hnumber := tokenBytes_inj hsize hroom (by omega) (congrArg Token.bytes hsame)
  omega

end Ledger

/-- **A deed leaves the ledger sound**, as long as there are numbers. -/
theorem ledger_did {file : File} (h : Ledger file) (deed : Deed)
    (hroom : (file.did deed).minted < Nat.pow 256 8) : Ledger (file.did deed) := by
  rcases did_cases file deed with ⟨minting, rfl⟩ | ⟨-, hquiet⟩
  · have hsize := eight_le_tokenSize minting.flavor
    rw [did, minting.run_eq] at hroom ⊢
    refine ⟨fun token hmem => ?_, List.nodup_cons.2 ⟨h.not_mem minting.kind hsize hroom, h.nodup⟩⟩
    rcases List.mem_cons.1 hmem with rfl | hmem
    · exact ⟨_, _, file.minted + 1, hsize, rfl, Nat.succ_pos _, Nat.le_refl _⟩
    · obtain ⟨size, kind, number, hsize, htoken, hpos, hle⟩ := h.numbered token hmem
      exact ⟨size, kind, number, hsize, htoken, hpos, Nat.le_succ_of_le hle⟩
  · constructor
    · rw [hquiet.references, hquiet.minted]
      exact h.numbered
    · rw [hquiet.references]
      exact h.nodup

/-- **So do any deeds.** -/
theorem ledger_history {file : File} (h : Ledger file) (deeds : List Deed)
    (hroom : (deeds.foldl did file).minted < Nat.pow 256 8) : Ledger (deeds.foldl did file) := by
  induction deeds generalizing file with
  | nil => exact h
  | cons deed rest ih =>
    have hgrown := (recorded_history (file.did deed) rest).minted
    rw [List.foldl_cons] at hroom
    exact ih (ledger_did h deed (by omega)) hroom

/-! ## Tokens of a file with a history -/

section FromEmpty

variable {path : String} {deeds : List Deed}
variable (hroom : ((ofPath path).handedOut deeds).length < Nat.pow 256 8)
include hroom

theorem ledger_of_handedOut : Ledger (deeds.foldl did (ofPath path)) := by
  have hempty : Ledger (ofPath path) :=
    ⟨fun _ hmem => (List.not_mem_nil hmem).elim, List.nodup_nil⟩
  have hminted := (recorded_history (ofPath path) deeds).minted
  have hnone : (ofPath path).minted = 0 := rfl
  exact ledger_history hempty deeds (by omega)

/-- **No two tokens are the same.** -/
theorem nodup_handedOut : ((ofPath path).handedOut deeds).Nodup := by
  have hnodup := (ledger_of_handedOut hroom).nodup
  rw [(recorded_history (ofPath path) deeds).entries] at hnodup
  have hreverse := (List.nodup_append.1 hnodup).1
  exact (List.reverse_perm _).nodup_iff.1 hreverse

/-- **None is all zeros.** -/
theorem isNull_of_mem_handedOut {token : Token} (hmem : token ∈ (ofPath path).handedOut deeds) :
    token.isNull = false := by
  have hwhole := recorded_history (ofPath path) deeds
  have hminted := hwhole.minted
  have hnone : (ofPath path).minted = 0 := rfl
  refine (ledger_of_handedOut hroom).isNull (by omega) ?_
  rw [hwhole.entries]
  exact List.mem_append_left _ (List.mem_reverse.2 hmem)

end FromEmpty

/-- What was taken down of a token stays in the ledger. -/
theorem mem_references_of_minting (file : File) (minting : Minting) (after : List Deed) :
    ((minting.run file).1, minting.reference) ∈
      (after.foldl did (minting.run file).2).references := by
  refine (recorded_history _ after).remembers.references.subset ?_
  rw [minting.run_eq]
  exact List.mem_cons_self

/-- So does the object that it was made for. -/
theorem object_of_minting {file : File} {id : ObjectId} {object : StoredObject}
    (h : file.object id = .ok object) (minting : Minting) (after : List Deed) :
    (after.foldl did (minting.run file).2).object id = .ok object := by
  refine (recorded_history _ after).remembers.object ?_
  rw [minting.run_eq]
  exact h

end File

end Memory

end TypedAttr
