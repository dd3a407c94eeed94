import TypedAttr.Proofs.Data.ReadForms
import TypedAttr.Proofs.Data.WriteForms
import TypedAttr.Proofs.Memory.CachedRecords
import TypedAttr.Proofs.Memory.Knowledge
import TypedAttr.Proofs.Memory.Minting
import TypedAttr.Proofs.Reference.Parts
/-!
# References that are written as paths

A reference is written by the path of its object. The file makes a token for
it, and the token's bytes are stored as they are. They are read as tokens
again, except that an address is read as a number in the byte order of its
type. So the records of what was written are those of the objects at the
paths (`records_of_writtenPaths`), unless addresses are in big order: then
the bytes of each are read from the wrong end, and what is read names
nothing.
-/

namespace TypedAttr

/-! ## Tokens in packed bytes -/

namespace Token

/-- An address that is read in an order is the token of the bytes so
arranged. -/
theorem ofAddress_readWord (order : ByteOrder) {slot : Bytes} (h : slot.length = 8) :
    ofAddress (order.readWord 8 slot) = ⟨order.arrange slot⟩ := by
  have hslot : order.readWord 8 slot = ByteOrder.little.readWord 8 (order.arrange slot) := rfl
  rw [ofAddress, hslot, ByteOrder.writeWord_readWord _ (by rw [ByteOrder.length_arrange, h])]

/-- The token that is read where one was written. Addresses are read as
numbers, in the order of their type. -/
def reread (flavor : ReferenceFlavor) (order : ByteOrder) (token : Token) : Token :=
  match flavor with
  | .object => ⟨order.arrange token.bytes⟩
  | .region | .standard => token

/-- What is not an address in big order is read as it was written. -/
theorem reread_self {flavor : ReferenceFlavor} {order : ByteOrder}
    (h : flavor = .standard ∨ order ≠ .big) (token : Token) :
    token.reread flavor order = token := by
  rcases h with rfl | h
  · rfl
  · cases flavor <;> cases order <;> first | rfl | exact absurd rfl h

end Token

namespace Data

variable {flavor : ReferenceFlavor} {traits : Traits} {tokens : List Token}

/-- **Tokens that were packed** are read again. -/
theorem tokens_ofPacked (options : ElementOptions) (count : Nat)
    (h : ∀ token ∈ tokens, token.size = flavor.tokenSize) :
    (ofPacked (.reference flavor traits) options count (tokens.map Token.bytes).flatten).tokens? =
      some (tokens.map (Token.reread flavor traits.order)) := by
  have hpieces : ∀ piece ∈ tokens.map Token.bytes, piece.length = flavor.tokenSize := by
    intro piece hmem
    obtain ⟨token, htoken, rfl⟩ := List.mem_map.1 hmem
    exact h token htoken
  have hchunks := wholeChunks_flatten (by cases flavor <;> decide) hpieces
  cases flavor with
  | object =>
    have hchunks : wholeChunks 8 (tokens.map Token.bytes).flatten = _ := hchunks
    change some ((traits.order.readWords 8 (tokens.map Token.bytes).flatten).map
      Token.ofAddress) = _
    rw [ByteOrder.readWords, hchunks, List.map_map, List.map_map]
    refine congrArg some (List.map_congr_left fun token hmem => ?_)
    exact Token.ofAddress_readWord traits.order (h token hmem)
  | region | standard =>
    change some (Token.split _ (tokens.map Token.bytes).flatten) = _
    rw [Token.split, hchunks, List.map_map]
    rfl

end Data

/-! ## Queries of an attribute -/

/-- A query that serves an answer gives it to an attribute, from whatever
records the attribute has kept. -/
theorem Attribute.resolving_of_serves {σ α : Type} {source : AttributeSource σ}
    {lookups : ReferenceLookups σ} {flavor : ReferenceFlavor} {p : σ → Prop}
    {expected : Token → Record} {asked : List Token}
    {query : Resolver σ → Resolver.Query σ α} {a : α} {attr : Attribute} {s : σ}
    (hflavor : source.type.flavor? = some flavor)
    (hserves : (Resolver.mk lookups flavor).Serves p expected asked (query ⟨lookups, flavor⟩) a)
    (hrecords : attr.records.Faithful expected) (hs : p s) :
    ∃ w, Attribute.resolving source lookups query (attr, s) = .ok a w := by
  obtain ⟨resolved, used, hrun, -⟩ := hserves attr.records s hrecords hs
  rw [StateT.run, StateT.run] at hrun
  unfold Attribute.resolving
  rw [hflavor]
  dsimp only
  rw [hrun]
  exact ⟨_, rfl⟩

namespace Memory

namespace File

/-! ## Tokens that were made for paths -/

section Granted

variable {flavor : ReferenceFlavor} {paths : List String} {tokens : List Token}
variable {before after : File}

/-- **Each token names its path.** -/
theorem Granted.describe (h : Granted flavor paths tokens before after) (hflavor : flavor ≠ .region)
    (hfaults : before.faults = []) (hroom : before.minted + paths.length < Nat.pow 256 8) (i : Nat)
    (hi : i < paths.length) :
    ∃ token object, tokens[i]? = some token ∧
      before.objects.find? (·.path == paths[i]) = some object ∧
      (after.describe flavor token).objectName = paths[i] ∧
      (after.describe flavor token).filePath = before.path ∧
      (after.describe flavor token).objectType = object.type := by
  obtain ⟨id, hfind, hreference⟩ := h.new i hi
  obtain ⟨object, hfirst, hobject, hpath⟩ := object_of_find hfind
  have htoken : tokens[i]? = some (numbered flavor (before.minted + 1 + i)) := by
    rw [h.numbers, List.getElem?_map, List.getElem?_range' hi, Nat.one_mul]
    rfl
  have hnull : (numbered flavor (before.minted + 1 + i)).isNull = false :=
    isNull_tokenBytes (eight_le_tokenSize flavor) (by omega) (by omega)
  have hsame : after.object id = .ok object := by
    rw [File.object, h.objects]
    exact hobject
  obtain ⟨hfile, hname, htype⟩ :=
    describe_of_reference (h.faults.trans hfaults) hnull hreference hsame
  exact ⟨_, object, htoken, hfirst, hname.trans hpath, hfile.trans h.path,
    htype hflavor (kindFor_ne_unknown flavor)⟩

/-- **Addresses from the wrong end** name nothing. -/
theorem Granted.describe_reversed (h : Granted .object paths tokens before after)
    (hnumbered : Numbered before) (hroom : before.minted + paths.length < Nat.pow 256 4)
    {token : Token} (hmem : token ∈ tokens) :
    (after.describe .object ⟨token.bytes.reverse⟩).filePath = Record.unset ∧
      (after.describe .object ⟨token.bytes.reverse⟩).objectName = Record.unset := by
  obtain ⟨number, rfl, -, hnumber⟩ := h.number_of_mem hmem
  have hreversed (size : Nat) (kind : ReferenceKind) {n : Nat} (hpos : 0 < n)
      (hn : n ≤ before.minted + paths.length) :
      (tokenBytes 8 .objectAddress number).reverse ≠ tokenBytes size kind n :=
    reverse_tokenBytes_ne (by omega) hpos (by omega)
  have hnew : Token.mk (numbered .object number).bytes.reverse ∉ tokens := by
    intro hmem
    obtain ⟨n, htoken, hpos, hn⟩ := h.number_of_mem hmem
    exact hreversed 8 .objectAddress (by omega) hn (congrArg Token.bytes htoken)
  obtain ⟨e, hunknown⟩ := reference_of_unnumbered hnumbered fun size kind n hpos hn =>
    hreversed size kind hpos (Nat.le_add_right_of_le hn)
  exact describe_of_error ((h.old _ hnew).trans hunknown)

end Granted

end File

namespace StoredAttribute

variable {stored : StoredAttribute} {flavor : ReferenceFlavor} {traits : Traits}
variable {paths : List String} {options : ElementOptions} {s : Store}

/-! ## Records of what is stored -/

theorem isPart_file : IsPart Store.file fun file store => { store with file := file } where
  get_put _ _ := rfl
  put_put _ _ _ := rfl
  put_get _ := rfl

/-- The tokens in what is stored are read without a change to what the file
knows. -/
theorem referenceTokens_of_view {attr : Attribute} {data : Data} {tokens : List Token}
    (hunread : attr.data = none) (hfaults : s.file.faults = [])
    (hview : stored.view attr.options s.content = .ok data)
    (htokens : data.tokens? = some tokens) :
    ∃ t, Attribute.referenceTokens stored.source (attr, s) =
        .ok tokens ({ attr with data := some data }, t) ∧
      t.file.known = s.file.known := by
  obtain ⟨t, hread⟩ := read_of_view hfaults hview
  have hcall : Attribute.read stored.source (attr, s) =
      .ok data ({ attr with data := some data }, t) := by
    rw [Attribute.read_eq, hunread]
    dsimp only
    rw [hread]
  refine ⟨t, ?_, keeps_known_read.of_ok hread⟩
  rw [Attribute.referenceTokens, bind_of_ok hcall, htokens]
  rfl

/-- **The records of what is stored** are those that the file tells of the
tokens in it. An attribute that was not read before, and has no records yet,
yields them, whatever it has room for. -/
theorem referenceRecords_of_view {attr : Attribute} {data : Data} {tokens : List Token}
    (hflavor : stored.type.flavor? = some flavor) (hunread : attr.data = none)
    (hempty : attr.records.entries = []) (hfaults : s.file.faults = [])
    (hview : stored.view attr.options s.content = .ok data)
    (htokens : data.tokens? = some tokens) :
    ∃ w, Attribute.referenceRecords stored.source lookups (attr, s) =
      .ok (tokens.map (s.file.describe flavor)) w := by
  obtain ⟨t, hread, hknown⟩ := referenceTokens_of_view hunread hfaults hview htokens
  rw [Attribute.referenceRecords, bind_of_ok hread]
  have hsettled : (Resolver.mk lookups flavor).Settled _ (s.file.describe flavor) :=
    (File.settled_lookups s.file flavor).onPart isPart_file
  have hfaithful : attr.records.Faithful (s.file.describe flavor) := by
    intro entry hmem
    rw [hempty] at hmem
    cases hmem
  exact Attribute.resolving_of_serves hflavor
    ((Resolver.serves_init hsettled tokens).bind (Resolver.serves_records hsettled tokens))
    hfaithful ⟨hknown, fun _ hmem => nomatch hmem⟩

/-! ## What is written -/

/-- Paths are converted by making a token for each. -/
theorem payload_texts (htype : stored.type = .reference flavor traits) :
    stored.source.payload options (.texts paths) = do
      Action.ofExcept (Data.checkCount stored.space.numElements paths.length)
      let tokens ← paths.mapM fun path => stored.source.createReference path flavor
      return .packed (← Action.ofExcept (Data.packTokens stored.type tokens)) := by
  have hpaths : (Data.texts paths).paths? stored.source.type = some paths := by
    change (Data.texts paths).paths? stored.type = _
    rw [htype]
    rfl
  have hflavor : stored.source.type.flavor?.getD .standard = flavor := by
    change stored.type.flavor?.getD .standard = flavor
    rw [htype]
    rfl
  rw [AttributeSource.payload, hpaths]
  dsimp only
  rw [AttributeSource.packPaths, hflavor]
  rfl

/-- The tokens that a file makes have the type's size. -/
theorem packTokens_of_granted {tokens : List Token} {before after : File}
    (htype : stored.type = .reference flavor traits)
    (h : File.Granted flavor paths tokens before after) :
    Data.packTokens stored.type tokens = .ok (tokens.map Token.bytes).flatten := by
  refine Data.packTokens_of_sizes fun token hmem => ?_
  rw [htype]
  exact h.size_of_mem hmem

/-- **Paths are written** as the tokens that the file makes for them. -/
theorem payload_of_paths {payload : Data.Payload} {t : Store}
    (htype : stored.type = .reference flavor traits)
    (hroom : s.file.minted + paths.length < Nat.pow 256 8)
    (h : stored.source.payload options (.texts paths) s = .ok payload t) :
    ∃ tokens, File.Granted flavor paths tokens s.file t.file ∧
      payload = .packed (tokens.map Token.bytes).flatten := by
  rw [payload_texts htype] at h
  obtain ⟨_, u, hcount, htokens⟩ := bind_ok h
  obtain ⟨-, rfl⟩ := ofExcept_ok hcount
  obtain ⟨tokens, v, hmade, hpack⟩ := bind_ok htokens
  have hgranted := granted_createReferences hroom hmade
  rw [packTokens_of_granted htype hgranted] at hpack
  cases hpack
  exact ⟨tokens, hgranted, rfl⟩

/-- **Paths of objects can be written**, one per element, if nothing is made
to fail and the attribute can be written at all. -/
theorem write_of_paths (htype : stored.type = .reference flavor traits) (hflavor : flavor ≠ .region)
    (hwritable : stored.readOnly = false) (hfaults : s.file.faults = [])
    (hroom : s.file.minted + paths.length < Nat.pow 256 8)
    (hcount : paths.length = stored.space.numElements)
    (hpaths : ∀ path ∈ paths, ∃ object ∈ s.file.objects, object.path = path) :
    ∃ s', stored.source.write options (.texts paths) s = .ok () s' := by
  have hpreflight : stored.source.preflight (.texts paths) = .ok () := by
    unfold AttributeSource.preflight
    simp [source, htype, hwritable, hflavor, Datatype.leafBase, Datatype.isWideFloat,
      Data.isWideFloat, Datatype.isSequence, Datatype.flavor?, Datatype.isArray]
  have hfound : ∀ path ∈ paths, ∃ id, s.file.find? path = some id := by
    intro path hmem
    obtain ⟨object, hobject, rfl⟩ := hpaths path hmem
    exact File.exists_find hobject
  obtain ⟨tokens, t, hmade⟩ : ∃ tokens t,
      (paths.mapM fun path => stored.source.createReference path flavor) s = .ok tokens t :=
    exists_createReferences hfaults hflavor hfound
  have hgranted := granted_createReferences hroom hmade
  have hpayload : stored.source.payload options (.texts paths) s =
      .ok (.packed (tokens.map Token.bytes).flatten) t := by
    rw [payload_texts htype, hcount, Data.checkCount_self]
    refine (bind_of_ok hmade _).trans ?_
    rw [packTokens_of_granted htype hgranted]
    rfl
  refine write_of_payload hfaults hpreflight hpayload ?_
  have hlength : (tokens.flatMap Token.bytes).length = tokens.length * flavor.tokenSize :=
    length_flatMap fun token hmem => hgranted.size_of_mem hmem
  rw [FitsSpace, htype, ← hcount, ← hgranted.length_tokens, ← List.flatMap_def]
  exact hlength

/-- The records of what was written are those of the tokens as they are read
again. -/
theorem referenceRecords_of_write {settings : Settings} {s' : Store} {attr' : Attribute}
    (htype : stored.type = .reference flavor traits) (hfaults : s.file.faults = [])
    (hroom : s.file.minted + paths.length < Nat.pow 256 8)
    (hwrite : Attribute.write stored.source (.texts paths)
      (.ofSpace stored.space settings, s) = .ok () (attr', s')) :
    ∃ tokens file w, File.Granted flavor paths tokens s.file file ∧
      Attribute.referenceRecords stored.source lookups (attr', s') =
        .ok (tokens.map fun token => file.describe flavor (token.reread flavor traits.order))
          w := by
  obtain ⟨hsource, rfl⟩ := Attribute.write_eq_ok hwrite
  obtain ⟨payload, t, hpayload, hfits, hcontent, hknown⟩ := known_of_write hsource
  obtain ⟨tokens, hgranted, rfl⟩ := payload_of_paths htype hroom hpayload
  have hhealthy : s'.file.faults = [] := (keeps_faults_write.of_ok hsource).trans hfaults
  let attr := (Attribute.ofSpace stored.space settings).clear
  have hview : stored.view attr.options s'.content =
      .ok (.ofPacked (.reference flavor traits) attr.options stored.space.numElements
        (tokens.map Token.bytes).flatten) := by
    rw [FitsSpace, htype] at hfits
    unfold view
    rw [htype, hcontent]
    exact if_pos hfits
  have hflavor : stored.type.flavor? = some flavor := by
    rw [htype]
    rfl
  obtain ⟨w, hrecords⟩ := referenceRecords_of_view hflavor rfl rfl hhealthy hview
    (Data.tokens_ofPacked _ _ fun token => hgranted.size_of_mem)
  refine ⟨tokens, t.file, w, hgranted, ?_⟩
  rw [hrecords, List.map_map]
  refine congrArg (EStateM.Result.ok · w) (List.map_congr_left fun token _ => ?_)
  rw [Function.comp_apply, ← File.describe_known, hknown, File.describe_known]

/-- **References that are written as paths** are read as those to the first
objects there, whatever was done with the file and whatever the attribute has
room for. Paths of objects can be written, one per element, and what was
written has one record per path, with the path, the file's path and the
object's type. Addresses in big order are the exception: as long as the file
has made fewer than `256 ^ 4` tokens, their records name nothing. -/
theorem records_of_writtenPaths {path : String} {events : List File.Event} (settings : Settings)
    (hhistory : s.file = events.foldl File.after (.ofPath path))
    (hfaults : s.file.faults = []) (hroom : s.file.minted + paths.length < Nat.pow 256 8)
    (htype : stored.type = .reference flavor traits) (hflavor : flavor ≠ .region) :
    let attr : Attribute := .ofSpace stored.space settings
    (stored.readOnly = false → paths.length = stored.space.numElements →
      (∀ path ∈ paths, ∃ object ∈ s.file.objects, object.path = path) →
        ∃ state', Attribute.write stored.source (.texts paths) (attr, s) = .ok () state') ∧
    ∀ state', Attribute.write stored.source (.texts paths) (attr, s) = .ok () state' →
      ∃ records w, Attribute.referenceRecords stored.source lookups state' = .ok records w ∧
        records.length = paths.length ∧
        (flavor = .standard ∨ traits.order ≠ .big → ∀ i (hi : i < paths.length),
          ∃ record object, records[i]? = some record ∧
            s.file.objects.find? (·.path == paths[i]) = some object ∧
            record.objectName = paths[i] ∧ record.filePath = s.file.path ∧
            record.objectType = object.type) ∧
        (flavor = .object → traits.order = .big → s.file.minted + paths.length < Nat.pow 256 4 →
          ∀ record ∈ records, record.filePath = Record.unset ∧
            record.objectName = Record.unset) := by
  intro attr
  refine ⟨fun hwritable hcount hpaths => ?_, fun (attr', s') hwrite => ?_⟩
  · obtain ⟨s', hwrite⟩ :=
      write_of_paths htype hflavor hwritable hfaults hroom hcount hpaths
    rw [Attribute.write_eq, hwrite]
    exact ⟨_, rfl⟩
  obtain ⟨tokens, file, w, hgranted, hrecords⟩ :=
    referenceRecords_of_write htype hfaults hroom hwrite
  refine ⟨_, w, hrecords, ?_, fun horder i hi => ?_, fun hobject hbig hfew record hmem => ?_⟩
  · rw [List.length_map, hgranted.length_tokens]
  · obtain ⟨token, object, htoken, hfirst, hnamed⟩ :=
      hgranted.describe hflavor hfaults hroom i hi
    refine ⟨_, object, ?_, hfirst, hnamed⟩
    rw [List.getElem?_map, htoken, Option.map_some, Token.reread_self horder]
  · subst hobject
    obtain ⟨token, htoken, rfl⟩ := List.mem_map.1 hmem
    have hnumbered : File.Numbered s.file := by
      rw [hhistory]
      exact File.numbered_history path events
    rw [Token.reread, hbig]
    exact hgranted.describe_reversed hnumbered hfew htoken

/-- The address of a group, by the order of the type: in little order its
record names the group, in big order nothing. -/
theorem records_of_writtenPaths_group :
    let stored (order : ByteOrder) : StoredAttribute :=
      { name := "a", type := .reference .object { order := order }, space := .line 1 }
    let s : Store :=
      ⟨[.addObject "/g" .group []].foldl File.after (.ofPath "f.h5"), .packed (Bytes.zeros 8)⟩
    let Named (order : ByteOrder) (name : String) : Prop :=
      ∃ state' record w,
        Attribute.write (stored order).source (.texts ["/g"])
          (.ofSpace (stored order).space .defaults, s) = .ok () state' ∧
        Attribute.referenceRecords (stored order).source lookups state' = .ok [record] w ∧
        record.objectName = name
    Named .little "/g" ∧ Named .big Record.unset := by
  intro stored s Named
  have hhistory : s.file = [File.Event.addObject "/g" .group []].foldl File.after
      (.ofPath "f.h5") := rfl
  have hpaths : ∀ path ∈ ["/g"], ∃ object ∈ s.file.objects, object.path = path := by
    simp [s, File.after, File.addObject, File.ofPath]
  have hroom : s.file.minted + ["/g"].length < Nat.pow 256 8 := by decide
  have hlittle : (stored .little).type = .reference .object { order := .little } := rfl
  have hbig : (stored .big).type = .reference .object { order := .big } := rfl
  constructor
  · obtain ⟨hwrites, hreads⟩ :=
      records_of_writtenPaths .defaults hhistory rfl hroom hlittle (by decide)
    obtain ⟨state', hwrite⟩ := hwrites rfl rfl hpaths
    obtain ⟨records, w, hrecords, hlength, hnamed, -⟩ := hreads state' hwrite
    obtain ⟨record, rfl⟩ := List.length_eq_one_iff.1 hlength
    obtain ⟨_, object, hrecord, -, hname, -⟩ := hnamed (.inr (by decide)) 0 (by decide)
    cases hrecord
    exact ⟨state', record, w, hwrite, hrecords, hname⟩
  · obtain ⟨hwrites, hreads⟩ :=
      records_of_writtenPaths .defaults hhistory rfl hroom hbig (by decide)
    obtain ⟨state', hwrite⟩ := hwrites rfl rfl hpaths
    obtain ⟨records, w, hrecords, hlength, -, hunset⟩ := hreads state' hwrite
    obtain ⟨record, rfl⟩ := List.length_eq_one_iff.1 hlength
    have hname := (hunset rfl rfl (by decide) record (by simp)).2
    exact ⟨state', record, w, hwrite, hrecords, hname⟩

end StoredAttribute

end Memory

end TypedAttr
