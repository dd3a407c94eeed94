import TypedAttr.Proofs.Attribute.AllOrNothing
/-!
# Tokens that a file hands out

A file numbers the tokens that it hands out, and a token of eight bytes or
more has its number in it. So tokens that are made for paths, one after the
other, differ from one another and from zeros, and each leads to the first
object at its path (`granted_createReferences`). The tokens in any file have
numbers up to the count of those handed out, whatever was done with it
(`numbered_history`).
-/

namespace TypedAttr

namespace Bytes

/-- A number's bytes in a wide slot are its bytes in a narrow one and those
of what is left of it. -/
theorem ofNat_add (low high n : Nat) :
    ofNat (low + high) n = ofNat low n ++ ofNat high (n / Nat.pow 256 low) := by
  induction low generalizing n with
  | zero => simp [ofNat]
  | succ low ih =>
    have hpow : Nat.pow 256 (low + 1) = 256 * Nat.pow 256 low := Nat.pow_succ'
    rw [Nat.add_right_comm, ofNat, ofNat, ih, Nat.div_div_eq_div_mul, hpow, List.cons_append]

@[simp] theorem ofNat_zero (width : Nat) : ofNat width 0 = zeros width := by
  induction width with
  | zero => rfl
  | succ width ih =>
    rw [ofNat, Nat.zero_div, ih]
    rfl

end Bytes

namespace Memory

namespace File

/-! ## Numbers in tokens -/

section Numbers

variable {size other number n : Nat} {kind kind' : ReferenceKind}

theorem length_tokenBytes (size : Nat) (kind : ReferenceKind) (number : Nat) :
    (tokenBytes size kind number).length = size := by
  simp only [tokenBytes, List.length_take, List.length_append, ByteOrder.length_write,
    List.length_singleton, Bytes.length_zeros]
  omega

/-- A token with room for it begins with its number. -/
theorem take_tokenBytes (hsize : 8 ≤ size) (kind : ReferenceKind) (number : Nat) :
    (tokenBytes size kind number).take 8 = ByteOrder.little.write 8 number := by
  rw [tokenBytes, List.take_take, Nat.min_eq_left hsize, List.append_assoc]
  exact List.take_left' (ByteOrder.length_write _ _ _)

/-- **Tokens of different numbers differ.** -/
theorem tokenBytes_inj (hsize : 8 ≤ size) (hnumber : number < Nat.pow 256 8)
    (hn : n < Nat.pow 256 8) (h : tokenBytes size kind number = tokenBytes other kind' n) :
    number = n := by
  obtain rfl : size = other := by
    have hlength := congrArg List.length h
    rwa [length_tokenBytes, length_tokenBytes] at hlength
  have hread := congrArg (fun bytes => ByteOrder.little.read (bytes.take 8)) h
  simp only [take_tokenBytes hsize, ByteOrder.read_write] at hread
  rwa [Nat.mod_eq_of_lt hnumber, Nat.mod_eq_of_lt hn] at hread

/-- Since numbers begin with one, no token is all zeros. -/
theorem isNull_tokenBytes (hsize : 8 ≤ size) (hpos : 0 < number)
    (hnumber : number < Nat.pow 256 8) : Token.isNull ⟨tokenBytes size kind number⟩ = false := by
  rw [Bool.eq_false_iff]
  intro hnull
  have hzeros : tokenBytes size kind number = Bytes.zeros size := by
    refine List.eq_replicate_iff.2 ⟨length_tokenBytes _ _ _, fun b hmem => ?_⟩
    simpa using List.all_eq_true.1 hnull b hmem
  have hread := congrArg (fun bytes => ByteOrder.little.read (bytes.take 8)) hzeros
  simp only [take_tokenBytes hsize, ByteOrder.read_write, Bytes.zeros, List.take_replicate,
    Nat.min_eq_left hsize] at hread
  rw [Nat.mod_eq_of_lt hnumber] at hread
  have hzero : ByteOrder.little.read (List.replicate 8 0) = 0 := by decide
  omega

/-- The bytes of an address are those of its number. -/
theorem tokenBytes_address (kind : ReferenceKind) (number : Nat) :
    tokenBytes 8 kind number = Bytes.ofNat 8 number := by
  have h := take_tokenBytes (Nat.le_refl 8) kind number
  rwa [List.take_of_length_le (Nat.le_of_eq (length_tokenBytes _ _ _))] at h

/-- **An address from the wrong end** is no token of a file with fewer than
`256 ^ 4` of them: it begins with zeros where such a token has its number. -/
theorem reverse_tokenBytes_ne (hnumber : number < Nat.pow 256 4) (hpos : 0 < n)
    (hn : n < Nat.pow 256 4) : (tokenBytes 8 kind number).reverse ≠ tokenBytes size kind' n := by
  intro h
  obtain rfl : 8 = size := by
    have hlength := congrArg List.length h
    rwa [List.length_reverse, length_tokenBytes, length_tokenBytes] at hlength
  have hhalves {m : Nat} (hm : m < Nat.pow 256 4) :
      Bytes.ofNat 8 m = Bytes.ofNat 4 m ++ Bytes.zeros 4 := by
    rw [Bytes.ofNat_add 4 4, Nat.div_eq_of_lt hm, Bytes.ofNat_zero]
  rw [tokenBytes_address, tokenBytes_address, hhalves hnumber, hhalves hn,
    List.reverse_append] at h
  have hlow := congrArg Bytes.toNat (List.append_inj_left h (by simp))
  rw [Bytes.toNat_ofNat, Nat.mod_eq_of_lt hn] at hlow
  have hzero : Bytes.toNat (Bytes.zeros 4).reverse = 0 := by decide
  omega

end Numbers

/-! ## Objects by path -/

section Paths

variable {file : File} {path : String} {id : ObjectId}

/-- Where there is an object, one is found. -/
theorem exists_find {object : StoredObject} (h : object ∈ file.objects) :
    ∃ id, file.find? object.path = some id := by
  have hsome : (file.objects.findIdx? (·.path == object.path)).isSome = true := by
    rw [List.findIdx?_isSome, List.any_eq_true]
    exact ⟨object, h, beq_self_eq_true _⟩
  obtain ⟨index, hindex⟩ := Option.isSome_iff_exists.1 hsome
  exact ⟨⟨index⟩, by rw [find?, hindex, Option.map_some]⟩

/-- What is found at a path is the first object there. -/
theorem object_of_find (h : file.find? path = some id) :
    ∃ object, file.objects.find? (·.path == path) = some object ∧
      file.object id = .ok object ∧ object.path = path := by
  obtain ⟨index, hindex, rfl⟩ := Option.map_eq_some_iff.1 h
  obtain ⟨hlt, hpath, hfirst⟩ := List.findIdx?_eq_some_iff_getElem.1 hindex
  refine ⟨file.objects[index], ?_, ?_, by simpa using hpath⟩
  · refine List.find?_eq_some_iff_getElem.2 ⟨hpath, index, hlt, rfl, fun j hj => ?_⟩
    simpa using hfirst j hj
  · rw [object, List.getElem?_eq_getElem hlt]

end Paths

/-! ## Tokens for paths -/

/-- The kind of a token that is made for a path. -/
def kindFor : ReferenceFlavor → ReferenceKind
  | .object => .objectAddress
  | .region => .regionAddress
  | .standard => .object

theorem kindFor_ne_unknown (flavor : ReferenceFlavor) : kindFor flavor ≠ .unknown := by
  cases flavor <;> decide

/-- The token with a number that is made for a path. -/
def numbered (flavor : ReferenceFlavor) (number : Nat) : Token :=
  ⟨tokenBytes flavor.tokenSize (kindFor flavor) number⟩

section Numbered

variable {flavor : ReferenceFlavor} {number n : Nat}

theorem eight_le_tokenSize (flavor : ReferenceFlavor) : 8 ≤ flavor.tokenSize := by
  cases flavor <;> decide

theorem length_numbered (flavor : ReferenceFlavor) (number : Nat) :
    (numbered flavor number).bytes.length = flavor.tokenSize :=
  length_tokenBytes _ _ _

theorem numbered_inj (hnumber : number < Nat.pow 256 8) (hn : n < Nat.pow 256 8)
    (h : numbered flavor number = numbered flavor n) : number = n :=
  tokenBytes_inj (eight_le_tokenSize flavor) hnumber hn (congrArg Token.bytes h)

/-- The token of a number is not one of the numbers after it. -/
theorem numbered_not_mem {count : Nat} (h : number + 1 + count ≤ Nat.pow 256 8) :
    numbered flavor number ∉ (List.range' (number + 1) count).map (numbered flavor) := by
  intro hmem
  obtain ⟨n, hn, heq⟩ := List.mem_map.1 hmem
  have hbounds := List.mem_range'_1.1 hn
  have hsame := numbered_inj (by omega) (by omega) heq
  omega

end Numbered

/-- **What tokens for paths do to a file**: they are numbered one after the
other, each leads to the first object at its path, and nothing else is known
that was not known before. -/
structure Granted (flavor : ReferenceFlavor) (paths : List String) (tokens : List Token)
    (before after : File) : Prop where
  path : after.path = before.path
  objects : after.objects = before.objects
  faults : after.faults = before.faults
  minted : after.minted = before.minted + paths.length
  numbers : tokens = (List.range' (before.minted + 1) paths.length).map (numbered flavor)
  new (i : Nat) (hi : i < paths.length) : ∃ id, before.find? paths[i] = some id ∧
    after.reference (numbered flavor (before.minted + 1 + i)) = .ok ⟨kindFor flavor, .object id⟩
  old (token : Token) (h : token ∉ tokens) : after.reference token = before.reference token

section Granted

variable {flavor : ReferenceFlavor} {paths : List String} {tokens : List Token}
variable {before after : File}

theorem Granted.length_tokens (h : Granted flavor paths tokens before after) :
    tokens.length = paths.length := by
  rw [h.numbers, List.length_map, List.length_range']

/-- Every token has a number that was not given before. -/
theorem Granted.number_of_mem (h : Granted flavor paths tokens before after) {token : Token}
    (hmem : token ∈ tokens) :
    ∃ number, token = numbered flavor number ∧ before.minted < number ∧
      number ≤ before.minted + paths.length := by
  rw [h.numbers] at hmem
  obtain ⟨number, hnumber, rfl⟩ := List.mem_map.1 hmem
  have hbounds := List.mem_range'_1.1 hnumber
  exact ⟨number, rfl, by omega, by omega⟩

theorem Granted.size_of_mem (h : Granted flavor paths tokens before after) {token : Token}
    (hmem : token ∈ tokens) : token.size = flavor.tokenSize := by
  obtain ⟨number, rfl, -⟩ := h.number_of_mem hmem
  exact length_numbered flavor number

end Granted

theorem granted_nil (flavor : ReferenceFlavor) (file : File) : Granted flavor [] [] file file where
  path := rfl
  objects := rfl
  faults := rfl
  minted := rfl
  numbers := rfl
  new i hi := absurd hi (Nat.not_lt_zero i)
  old _ _ := rfl

theorem reference_mint_self (size : Nat) (kind : ReferenceKind) (target : Target) (file : File) :
    (mint size kind target file).2.reference (mint size kind target file).1 =
      .ok ⟨kind, target⟩ := by
  simp [reference, mint]

/-- A token that is handed out hides no other. -/
theorem reference_mint_of_ne {size : Nat} {kind : ReferenceKind} {target : Target} {file : File}
    {token : Token} (h : token ≠ (mint size kind target file).1) :
    (mint size kind target file).2.reference token = file.reference token := by
  have hother : (mint size kind target file).1 ≠ token := fun heq => h heq.symm
  simp only [mint] at hother
  simp [reference, mint, hother]

/-- One token more, before the others. -/
theorem Granted.cons {flavor : ReferenceFlavor} {path : String} {rest : List String}
    {tokens : List Token} {file after : File} {id : ObjectId} (hfind : file.find? path = some id)
    (h : Granted flavor rest tokens
      (mint flavor.tokenSize (kindFor flavor) (.object id) file.counted).2 after)
    (hroom : file.minted + 1 + rest.length < Nat.pow 256 8) :
    Granted flavor (path :: rest) (numbered flavor (file.minted + 1) :: tokens) file after := by
  have hminted : (mint flavor.tokenSize (kindFor flavor) (.object id) file.counted).2.minted =
      file.minted + 1 := rfl
  have hfresh : numbered flavor (file.minted + 1) ∉ tokens := by
    rw [h.numbers, hminted]
    exact numbered_not_mem (by omega)
  refine ⟨h.path, h.objects, h.faults, ?_, ?_, fun i hi => ?_, fun token hnot => ?_⟩
  · rw [h.minted, List.length_cons]
    exact Nat.add_right_comm _ _ _
  · rw [h.numbers, List.length_cons, List.range'_succ, List.map_cons]
    rfl
  · cases i with
    | zero => exact ⟨id, hfind, (h.old _ hfresh).trans (reference_mint_self _ _ _ _)⟩
    | succ i =>
      obtain ⟨other, hother, htold⟩ := h.new i (Nat.lt_of_succ_lt_succ hi)
      refine ⟨other, hother, ?_⟩
      rw [← htold, hminted, Nat.add_right_comm _ 1 i, Nat.add_assoc _ i 1]
  · obtain ⟨hne, hnot⟩ := List.ne_and_not_mem_of_not_mem_cons hnot
    exact (h.old _ hnot).trans (reference_mint_of_ne hne)

end File

namespace StoredAttribute

variable {stored : StoredAttribute} {flavor : ReferenceFlavor}

/-- An action on the file changes nothing else. -/
theorem onFile_ok {α : Type} {action : Action File α} {s s' : Store} {a : α}
    (h : onFile action s = .ok a s') :
    action s.file = .ok a s'.file ∧ s'.content = s.content := by
  rw [onFile, Action.onPart] at h
  cases haction : action s.file with
  | ok b file =>
    rw [haction] at h
    cases h
    exact ⟨rfl, rfl⟩
  | error e file =>
    rw [haction] at h
    cases h

/-- **A token for a path** is one for the first object there. -/
theorem createReference_of_find {path : String} {file : File} {id : ObjectId}
    (hasked : "create_reference" ∉ file.faults) (hflavor : flavor ≠ .region)
    (hfind : file.find? path = some id) :
    createReference path flavor file =
      .ok (File.numbered flavor (file.minted + 1))
        (File.mint flavor.tokenSize (File.kindFor flavor) (.object id) file.counted).2 := by
  have henter := (File.enter_eq "create_reference" file).trans (if_neg hasked)
  have hcounted : file.counted.find? path = some id := hfind
  rw [createReference, bind_of_ok henter, get_bind, hcounted]
  cases flavor with
  | region => exact absurd rfl hflavor
  | object | standard => rfl

/-- No other tokens are made. -/
theorem createReference_ok {path : String} {file after : File} {token : Token}
    (h : createReference path flavor file = .ok token after) :
    ∃ id, file.find? path = some id ∧ token = File.numbered flavor (file.minted + 1) ∧
      after = (File.mint flavor.tokenSize (File.kindFor flavor) (.object id) file.counted).2 := by
  obtain ⟨_, t, henter, hmint⟩ := bind_ok h
  rw [File.enter_eq] at henter
  by_cases hasked : "create_reference" ∈ file.faults
  · rw [if_pos hasked] at henter
    cases henter
  rw [if_neg hasked] at henter
  cases henter
  have hcounted : file.counted.find? path = file.find? path := rfl
  rw [get_bind, hcounted] at hmint
  cases hfind : file.find? path with
  | none =>
    rw [hfind] at hmint
    cases hmint
  | some id =>
    have hflavor : flavor ≠ .region := by
      rintro rfl
      rw [hfind] at hmint
      cases hmint
    rw [createReference_of_find hasked hflavor hfind] at h
    cases h
    exact ⟨id, rfl, rfl, rfl⟩

/-- **Tokens can be made for all paths with objects**, if nothing is made to
fail. -/
theorem exists_createReferences {paths : List String} {s : Store} (hfaults : s.file.faults = [])
    (hflavor : flavor ≠ .region) (hpaths : ∀ path ∈ paths, ∃ id, s.file.find? path = some id) :
    ∃ tokens t,
      (paths.mapM fun path => stored.source.createReference path flavor) s = .ok tokens t := by
  induction paths generalizing s with
  | nil => exact ⟨[], s, rfl⟩
  | cons path rest ih =>
    obtain ⟨id, hfind⟩ := hpaths path (by simp)
    have hasked : "create_reference" ∉ s.file.faults := by
      rw [hfaults]
      exact List.not_mem_nil
    have hfirst := createReference_of_find hasked hflavor hfind
    let after := (File.mint flavor.tokenSize (File.kindFor flavor) (.object id) s.file.counted).2
    have hone : stored.source.createReference path flavor s =
        .ok (File.numbered flavor (s.file.minted + 1)) { s with file := after } := by
      change onFile (createReference path flavor) s = _
      rw [onFile, Action.onPart, hfirst]
    -- a token changes neither the faults nor the objects
    obtain ⟨tokens, t, hrest⟩ := ih (s := { s with file := after }) hfaults
      fun path hmem => hpaths path (List.mem_cons_of_mem _ hmem)
    refine ⟨File.numbered flavor (s.file.minted + 1) :: tokens, t, ?_⟩
    rw [List.mapM_cons, bind_of_ok hone, bind_of_ok hrest]
    rfl

/-- **Tokens for paths**, made one after the other, are as `Granted` says. -/
theorem granted_createReferences {paths : List String} {s s' : Store} {tokens : List Token}
    (hroom : s.file.minted + paths.length < Nat.pow 256 8)
    (h : (paths.mapM fun path => stored.source.createReference path flavor) s = .ok tokens s') :
    File.Granted flavor paths tokens s.file s'.file := by
  induction paths generalizing s tokens with
  | nil =>
    cases h
    exact File.granted_nil flavor _
  | cons path rest ih =>
    rw [List.mapM_cons] at h
    obtain ⟨token, t, hfirst, hrest⟩ := bind_ok h
    obtain ⟨more, u, hmore, hall⟩ := bind_ok hrest
    cases hall
    obtain ⟨id, hfind, rfl, hfile⟩ := createReference_ok (onFile_ok hfirst).1
    rw [List.length_cons] at hroom
    have hminted : t.file.minted = s.file.minted + 1 := congrArg File.minted hfile
    have hgranted := ih (by omega) hmore
    rw [hfile] at hgranted
    exact .cons hfind hgranted (by omega)

end StoredAttribute

namespace File

/-! ## Numbers in any file -/

/-- Every token that a file knows has a number that was given before. -/
def Numbered (file : File) : Prop :=
  ∀ entry ∈ file.references, ∃ size kind number,
    entry.1 = ⟨tokenBytes size kind number⟩ ∧ 0 < number ∧ number ≤ file.minted

theorem numbered_after {file : File} (h : Numbered file) (event : Event) :
    Numbered (file.after event) := by
  cases event with
  | mint size kind target =>
    intro entry hmem
    rcases List.mem_cons.1 hmem with rfl | hmem
    · exact ⟨size, kind, file.minted + 1, rfl, Nat.succ_pos _, Nat.le_refl _⟩
    · obtain ⟨size, kind, number, hentry, hpos, hle⟩ := h entry hmem
      exact ⟨size, kind, number, hentry, hpos, Nat.le_succ_of_le hle⟩
  | addObject | heal | lend => exact h
  | fail name =>
    rw [after, File.fail]
    split <;> exact h
  | ask name =>
    rw [after, stateAfter_enter]
    exact h
  | release kind id =>
    rw [after, stateAfter, File.release]
    cases file.checkHandle kind id <;> exact h

/-- **So have those of any file**, whatever was done with it. -/
theorem numbered_history (path : String) (events : List Event) :
    Numbered (events.foldl after (.ofPath path)) := by
  have hall (file : File) (h : Numbered file) : Numbered (events.foldl after file) := by
    induction events generalizing file with
    | nil => exact h
    | cons event rest ih => exact ih _ (numbered_after h event)
  exact hall _ fun _ hmem => (List.not_mem_nil hmem).elim

/-- A token without such a number is not known. -/
theorem reference_of_unnumbered {file : File} {token : Token} (h : Numbered file)
    (hnot : ∀ size kind number, 0 < number → number ≤ file.minted →
      token.bytes ≠ tokenBytes size kind number) : ∃ e, file.reference token = .error e := by
  rw [File.reference]
  cases hfind : file.references.find? (·.1 = token) with
  | none => exact ⟨_, rfl⟩
  | some entry =>
    obtain rfl : entry.1 = token := by simpa using List.find?_some hfind
    obtain ⟨size, kind, number, hentry, hpos, hle⟩ := h entry (List.mem_of_find?_eq_some hfind)
    exact absurd (congrArg Token.bytes hentry) (hnot size kind number hpos hle)

end File

end Memory

end TypedAttr
