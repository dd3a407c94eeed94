import TypedAttr.Proofs.Settings.Reading
import TypedAttr.Settings.File
/-!
# Saved settings come back

What a settings object says is taken apart from how it is spelled. An object
gives some fields of settings (`Gives`) if each of these stands in it once,
with a value that says it, and the other known fields do not; what other
names there are, and in which order, is left open. Reading it gives the
settings that have these fields and else the defaults (`ofFields?_of_gives`),
and a saved text spells an object that gives all (`spelledBy_toJson`).
-/

namespace TypedAttr

namespace Settings

open Document

/-! ## What an object says -/

/-- A document that says a count: a whole number of this value, without a
sign. -/
def SaysCount (count : UInt64) (value : Document) : Prop :=
  ∃ digits, value = .number ⟨false, digits, true⟩ ∧ Nat.ofDigitChars 10 digits 0 = count.toNat

/-- A document that says what settings have in a field. -/
def Says (settings : Settings) (value : Document) : Field → Prop
  | .convertText => value = .bool settings.convertText
  | .cacheCapacity => SaysCount settings.cacheCapacity value
  | .displayLimit => SaysCount settings.displayLimit value

/-- Settings with some fields of given ones, and else the defaults. -/
def only (given : Settings) (present : List Field) : Settings where
  convertText := if .convertText ∈ present then given.convertText else defaults.convertText
  cacheCapacity :=
    if .cacheCapacity ∈ present then given.cacheCapacity else defaults.cacheCapacity
  displayLimit := if .displayLimit ∈ present then given.displayLimit else defaults.displayLimit

/-- What an object has under the name of a field. -/
def valuesOf (field : Field) (fields : List (Option String × Document)) : List Document :=
  (fields.filter fun entry => entry.1 = some field.name).map (·.2)

/-- An object that gives some fields of settings: every name is text, each of
these fields stands in it once with a value that says it, and no other known
field does. -/
structure Gives (given : Settings) (present : List Field)
    (fields : List (Option String × Document)) : Prop where
  named : ∀ entry ∈ fields, entry.1.isSome
  said : ∀ field ∈ present, ∃ value, valuesOf field fields = [value] ∧ given.Says value field
  absent : ∀ field ∉ present, valuesOf field fields = []

theorem only_congr {given : Settings} {present present' : List Field}
    (h : ∀ field, field ∈ present ↔ field ∈ present') :
    given.only present = given.only present' := by
  simp [only, h]

@[simp] theorem only_nil (given : Settings) : given.only [] = defaults := by
  simp [only]

@[simp] theorem only_all (given : Settings) : given.only Field.all = given := by
  simp [only, Field.all]

/-! ## Names -/

theorem Field.name_inj {field field' : Field} (h : field.name = field'.name) : field = field' := by
  revert h
  cases field <;> cases field' <;> decide

theorem Field.mem_all (field : Field) : field ∈ Field.all := by
  cases field <;> decide

theorem Field.name_of_ofName? {name : String} {field : Field}
    (h : Field.ofName? name = some field) : field.name = name := by
  simpa using List.find?_some h

theorem Field.name_ne_of_ofName? {name : String} (h : Field.ofName? name = none) (field : Field) :
    field.name ≠ name := by
  simpa using List.find?_eq_none.1 h field field.mem_all

/-! ## Values -/

/-- **A count is read from its digits.** -/
theorem count?_of_says {count : UInt64} {value : Document} (h : SaysCount count value) :
    count? value = some count := by
  obtain ⟨digits, rfl, hdigits⟩ := h
  rw [Nat.ofDigitChars_eq_foldl] at hdigits
  have hsize : count.toNat < UInt64.size := count.toNat_lt
  simp only [count?, hdigits, if_pos hsize, UInt64.ofNat_toNat]

/-- **One field more.** A value that says a field adds it to those that have
been read. -/
theorem put?_of_says {given : Settings} {value : Document} {field : Field}
    (h : given.Says value field) (seen : List Field) :
    (given.only seen).put? field value = some (given.only (field :: seen)) := by
  cases field with
  | convertText =>
    obtain rfl : value = .bool given.convertText := h
    simp [put?, flag?, only]
  | cacheCapacity => simp [put?, count?_of_says h, only]
  | displayLimit => simp [put?, count?_of_says h, only]

/-! ## Objects -/

theorem valuesOf_cons_of_ne {field : Field} {name : String} (value : Document)
    (rest : List (Option String × Document)) (h : field.name ≠ name) :
    valuesOf field ((some name, value) :: rest) = valuesOf field rest := by
  simp [valuesOf, Ne.symm h]

theorem valuesOf_cons_self (field : Field) (value : Document)
    (rest : List (Option String × Document)) :
    valuesOf field ((some field.name, value) :: rest) = value :: valuesOf field rest := by
  simp [valuesOf]

/-- What is left of an object that gives fields of settings, after those in
`seen` have been read. -/
structure Left (given : Settings) (present seen : List Field)
    (rest : List (Option String × Document)) : Prop where
  named : ∀ entry ∈ rest, entry.1.isSome
  among : ∀ field ∈ seen, field ∈ present
  said : ∀ field ∈ present, field ∉ seen →
    ∃ value, valuesOf field rest = [value] ∧ given.Says value field
  absent : ∀ field, field ∉ present ∨ field ∈ seen → valuesOf field rest = []

theorem Gives.left {given : Settings} {present : List Field}
    {fields : List (Option String × Document)} (h : Gives given present fields) :
    Left given present [] fields where
  named := h.named
  among := by simp
  said field hpresent _ := h.said field hpresent
  absent field hwhere := h.absent field (hwhere.resolve_right (by simp))

namespace Left

variable {given : Settings} {present seen : List Field} {name : String} {value : Document}
variable {rest : List (Option String × Document)}

/-- **One name that nothing knows** leaves all that was left. -/
theorem skip (h : Left given present seen ((some name, value) :: rest))
    (hname : Field.ofName? name = none) : Left given present seen rest := by
  have hvalues (field : Field) :
      valuesOf field ((some name, value) :: rest) = valuesOf field rest :=
    valuesOf_cons_of_ne value rest (Field.name_ne_of_ofName? hname field)
  refine ⟨fun entry hmem => h.named entry (List.mem_cons_of_mem _ hmem), h.among, ?_, ?_⟩
  · intro field hpresent hnew
    rw [← hvalues]
    exact h.said field hpresent hnew
  · intro field hwhere
    rw [← hvalues]
    exact h.absent field hwhere

/-- **One field that is given** has not been read, is said, and is left no
more. -/
theorem read {field : Field} (h : Left given present seen ((some field.name, value) :: rest)) :
    field ∉ seen ∧ given.Says value field ∧ Left given present (field :: seen) rest := by
  have hself := valuesOf_cons_self field value rest
  have hvalues {other : Field} (hne : other ≠ field) :
      valuesOf other ((some field.name, value) :: rest) = valuesOf other rest :=
    valuesOf_cons_of_ne value rest fun hname => hne (Field.name_inj hname)
  have hnew : field ∈ present ∧ field ∉ seen := by
    by_contra hnot
    rw [not_and_or, not_not] at hnot
    simp [h.absent field hnot] at hself
  obtain ⟨said, hsingle, hsays⟩ := h.said field hnew.1 hnew.2
  obtain ⟨rfl, hlast⟩ := List.cons.inj (hself.symm.trans hsingle)
  refine ⟨hnew.2, hsays, fun entry hmem => h.named entry (List.mem_cons_of_mem _ hmem),
    List.forall_mem_cons.2 ⟨hnew.1, h.among⟩, ?_, ?_⟩
  · intro other hpresent hother
    obtain ⟨hne, hunseen⟩ := not_or.1 (hother ∘ List.mem_cons.2)
    rw [← hvalues hne]
    exact h.said other hpresent hunseen
  · intro other hwhere
    by_cases heq : other = field
    · rw [heq, hlast]
    · rw [← hvalues heq]
      exact h.absent other (hwhere.imp_right fun hmem => (List.mem_cons.1 hmem).resolve_left heq)

/-- Reading goes on from the fields that have been read to all of them. -/
theorem ofFields?_only (h : Left given present seen rest) :
    ofFields? (given.only seen) seen rest = some (given.only present) := by
  induction rest generalizing seen with
  | nil =>
    have hall : ∀ field, field ∈ seen ↔ field ∈ present := by
      intro field
      refine ⟨h.among field, fun hpresent => ?_⟩
      by_contra hnew
      obtain ⟨value, hvalue, -⟩ := h.said field hpresent hnew
      cases hvalue
    rw [ofFields?, only_congr hall]
  | cons entry rest ih =>
    obtain ⟨content, value⟩ := entry
    obtain ⟨name, rfl⟩ := Option.isSome_iff_exists.1 (h.named _ List.mem_cons_self)
    rw [ofFields?]
    cases hfield : Field.ofName? name with
    | none => exact ih (h.skip hfield)
    | some field =>
      obtain rfl := Field.name_of_ofName? hfield
      obtain ⟨hnew, hsays, hleft⟩ := h.read
      simp only [if_neg hnew, put?_of_says hsays, Option.bind_eq_bind, Option.bind_some]
      exact ih hleft

end Left

/-- **An object is read as what it gives**, whatever its order and its other
names. -/
theorem ofFields?_of_gives {given : Settings} {present : List Field}
    {fields : List (Option String × Document)} (h : Gives given present fields) :
    ofFields? defaults [] fields = some (given.only present) := by
  rw [← only_nil given]
  exact h.left.ofFields?_only

/-! ## The saved text -/

/-- A count as it is saved. -/
def ofCount (count : UInt64) : Document := .number ⟨false, Nat.toDigits 10 count.toNat, true⟩

/-- The value of a field as it is saved. -/
def document (settings : Settings) : Field → Document
  | .convertText => .bool settings.convertText
  | .cacheCapacity => ofCount settings.cacheCapacity
  | .displayLimit => ofCount settings.displayLimit

/-- A field as it is saved. -/
def entry (settings : Settings) (field : Field) : Option String × Document :=
  (some field.name, settings.document field)

/-- **What is saved says the settings.** -/
theorem says_document (settings : Settings) (field : Field) :
    settings.Says (settings.document field) field := by
  cases field with
  | convertText => rfl
  | cacheCapacity | displayLimit => exact ⟨_, rfl, Nat.ofDigitChars_ten_toDigits⟩

theorem gives_entries (settings : Settings) :
    Gives settings Field.all (Field.all.map settings.entry) where
  named := by simp [entry]
  said field _ := by
    refine ⟨settings.document field, ?_, settings.says_document field⟩
    cases field <;> rfl
  absent field habsent := absurd field.mem_all habsent

/-- The digits of a number have no zero before others. -/
theorem areWhole_toDigits (n : Nat) : AreWhole (Nat.toDigits 10 n) where
  nonempty := Nat.toDigits_ne_nil
  digit _ hc := Nat.isDigit_of_mem_toDigits (by decide) (by decide) hc
  lean := by
    induction n using Nat.strongRecOn with
    | ind n ih =>
      intro rest h
      rcases Nat.lt_or_ge n 10 with hn | hn
      · rw [Nat.toDigits_of_lt_base hn] at h
        exact (List.cons.inj h).2.symm
      · -- the digits before the last one are those of a smaller number, and not zero
        rw [Nat.toDigits_of_base_le (by decide) hn] at h
        obtain ⟨d, digits, hdigits⟩ := List.exists_cons_of_ne_nil
          (Nat.toDigits_ne_nil : Nat.toDigits 10 (n / 10) ≠ [])
        rw [hdigits, List.cons_append] at h
        obtain ⟨rfl, -⟩ := List.cons.inj h
        obtain rfl := ih (n / 10) (by omega) digits hdigits
        have hzero : n / 10 = 0 := by
          rw [← @Nat.ofDigitChars_ten_toDigits (n / 10), hdigits]
          decide
        omega

/-- **The value of a field is spelled as it is saved.** -/
theorem spells_saved (settings : Settings) (field : Field) :
    ∃ token, (settings.document field).tokens = [token] ∧
      Spells token (settings.saved field).toList := by
  have hcount : ∀ count : UInt64, ∃ token, (ofCount count).tokens = [token] ∧
      Spells token (toString count.toNat).toList := by
    intro count
    refine ⟨_, by rw [ofCount, tokens], ?_⟩
    rw [Nat.toString_eq_ofList_toDigits, String.toList_ofList]
    simpa [signText] using
      Spells.number (.mk false (areWhole_toDigits count.toNat) .none .none)
  cases field with
  | convertText =>
    refine ⟨_, by rw [document, tokens], ?_⟩
    rw [saved]
    cases settings.convertText with
    | true => simpa using Spells.true
    | false => simpa using Spells.false
  | cacheCapacity => exact hcount _
  | displayLimit => exact hcount _

theorem spells_name (field : Field) :
    Spells (.string (some field.name)) ('"' :: (field.name.toList ++ ['"'])) := by
  have hplain : field.name.toList.all isPlain := by
    cases field <;> decide
  simpa using spells_string hplain

/-- A line is a field. -/
theorem spellsTokens_savedLine (settings : Settings) (field : Field) {tokens : List Document.Token}
    {rest : List Char} (h : SpellsTokens tokens rest) :
    SpellsTokens (tokensOfField (settings.entry field) ++ tokens)
      ((settings.savedLine field).toList ++ rest) := by
  obtain ⟨token, htoken, hvalue⟩ := settings.spells_saved field
  have hafterColon : SpellsTokens (token :: tokens)
      ([' '] ++ ((settings.saved field).toList ++ rest)) := .after _ rfl (.next hvalue h)
  have hline : SpellsTokens (.string (some field.name) :: .colon :: token :: tokens)
      ([' ', ' '] ++ (('"' :: (field.name.toList ++ ['"'])) ++
        ([':'] ++ ([' '] ++ ((settings.saved field).toList ++ rest))))) :=
    .after _ rfl (.next (spells_name field) (.next .colon hafterColon))
  simpa [savedLine, entry, tokensOfField, htoken] using hline

/-- Lines with commas between them are fields with commas between them. -/
theorem spellsTokens_savedLines (settings : Settings) {tokens : List Document.Token} {rest : List Char}
    (h : SpellsTokens tokens rest) (fields : List Field) :
    SpellsTokens
      ([.comma].intercalate ((fields.map settings.entry).map tokensOfField) ++ tokens)
      ((",\n".intercalate (fields.map settings.savedLine)).toList ++ rest) := by
  induction fields with
  | nil => simpa using h
  | cons field fields ih =>
    cases fields with
    | nil => simpa using settings.spellsTokens_savedLine field h
    | cons next fields =>
      have hothers := settings.spellsTokens_savedLine field
        (.next .comma (.after ['\n'] rfl ih))
      simpa [String.toList_intercalate, List.intercalate_cons_cons] using hothers

/-- **A saved text spells the object that gives all fields.** -/
theorem spelledBy_toJson (settings : Settings) :
    (Document.object (Field.all.map settings.entry)).SpelledBy settings.toJson := by
  have hclose : SpellsTokens [.closeObject] ['\n', '\x7d'] :=
    .after ['\n'] rfl (.next .closeObject (.nil (by simp)))
  have hopen := SpellsTokens.next .openObject
    (.after ['\n'] rfl (settings.spellsTokens_savedLines hclose Field.all))
  rw [SpelledBy, Document.tokens, tokensOfFields_eq_map]
  simpa [toJson] using hopen

/-! ## Loading -/

/-- **Settings come back as they were given.** What is saved is read back,
from the text and from a file that holds it; and every text of an object that
gives some fields is read as settings with these and else the defaults. The
order of the object's fields, its other names and what stands under them, and
how it is spelled make no difference. -/
theorem ofJson_reads :
    (∀ settings : Settings, ofJson settings.toJson = .ok settings ∧
      ∀ path, load path (some (Text.utf8 settings.toJson)) = .ok settings) ∧
    ∀ (given : Settings) (present : List Field) (fields : List (Option String × Document))
      (text : String), Gives given present fields → (Document.object fields).SpelledBy text →
        ofJson text = .ok (given.only present) := by
  have hgiven : ∀ (given : Settings) (present : List Field)
      (fields : List (Option String × Document)) (text : String), Gives given present fields →
      (Document.object fields).SpelledBy text → ofJson text = .ok (given.only present) := by
    intro given present fields text hgives htext
    have hread : Document.parse? text >>= ofDocument? = some (given.only present) := by
      rw [parse?_of_spelledBy htext]
      exact ofFields?_of_gives hgives
    rw [ofJson, hread]
  have hsaved : ∀ settings : Settings, ofJson settings.toJson = .ok settings := by
    intro settings
    simpa using hgiven settings Field.all _ _ settings.gives_entries settings.spelledBy_toJson
  refine ⟨fun settings => ⟨hsaved settings, fun path => ?_⟩, hgiven⟩
  simp only [load, Text.ofUtf8?_utf8, hsaved]

/-- One known field behind a name that nothing knows. -/
theorem ofJson_reads_unknown :
    Gives { convertText := false } [.convertText]
      [(some "unknown", .array [.null]), (some "convert_byte_to_string", .bool false)] ∧
    ofJson "\x7b \"unknown\": [null], \"convert_byte_to_string\": false \x7d" =
      .ok { convertText := false } := by
  have hgives : Gives { convertText := false } [.convertText]
      [(some "unknown", .array [.null]), (some "convert_byte_to_string", .bool false)] :=
    { named := by simp
      said := by
        rintro field hpresent
        obtain rfl := List.mem_singleton.1 hpresent
        exact ⟨_, rfl, rfl⟩
      absent := by
        intro field habsent
        cases field with
        | convertText => exact absurd (List.mem_singleton.2 rfl) habsent
        | cacheCapacity | displayLimit => rfl }
  refine ⟨hgives, ofJson_reads.2 _ _ _ _ hgives ?_⟩
  have hunknown : Spells (.string (some "unknown")) ('"' :: ("unknown".toList ++ ['"'])) := by
    simpa using spells_string (show "unknown".toList.all isPlain by decide)
  have hclose : SpellsTokens [.closeObject] [' ', '\x7d'] :=
    .after [' '] rfl (.next .closeObject (.nil (by simp)))
  have hknown := SpellsTokens.next (spells_name .convertText)
    (.next .colon (.after [' '] rfl (.next .false hclose)))
  have hbefore := SpellsTokens.next hunknown (.next .colon (.after [' '] rfl
    (.next .openArray (.next .null (.next .closeArray
      (.next .comma (.after [' '] rfl hknown)))))))
  have htext := SpellsTokens.next .openObject (.after [' '] rfl hbefore)
  simpa [SpelledBy, tokens, tokensOfItems, tokensOfFields, tokensOfField,
    List.intercalate_cons_cons, Field.name] using htext

end Settings

end TypedAttr
