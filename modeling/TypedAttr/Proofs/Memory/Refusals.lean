import TypedAttr.Memory.Attribute
/-!
# Refused handles

A file refuses a handle that is not open, or not of the kind that a question
is for, with one of four texts. They are told from all other texts of errors
by how they begin and how they end.
-/

namespace TypedAttr

namespace Error

/-- The texts by which a handle is refused. -/
inductive RefusesHandle : String → Prop
  | notOpen (id : HandleId) : RefusesHandle s!"handle {id.render} is not open"
  | otherKind (id : HandleId) (kind other : HandleKind) :
    RefusesHandle s!"handle {id.render} is a {kind.name} handle, not {other.name}"
  | notAttribute (id : HandleId) : RefusesHandle s!"handle {id.render} is not an attribute"
  | noDataspace (id : HandleId) : RefusesHandle s!"handle {id.render} is not a dataspace"

/-- Whether an error refuses a handle. The errors of reading and writing hand
the text on. -/
def OfHandle : Error → Prop
  | .resolution text | .readFailed text | .writeFailed text | .other text => RefusesHandle text
  | _ => False

/-! ## Telling them from other texts -/

theorem RefusesHandle.head? {text : String} (h : RefusesHandle text) :
    text.toList.head? = some 'h' := by
  cases h <;> simp [toString]

theorem not_refusesHandle_of_head {text : String} (h : text.toList.head? ≠ some 'h') :
    ¬RefusesHandle text := fun hrefuses => h hrefuses.head?

/-- The last letters, the very last first. -/
def ending (text : String) : List Char := text.toList.reverse.take 3

theorem ending_append (before : String) {word : String} (h : 3 ≤ word.toList.length) :
    ending (before ++ word) = ending word := by
  rw [ending, ending, String.toList_append, List.reverse_append,
    List.take_append_of_le_length (by rwa [List.length_reverse])]

/-- The words that such a text can end with. -/
def lastWords : List String := ["open", "attribute", "datatype", "dataspace", "object", "region"]

theorem map_ending_lastWords : lastWords.map ending =
    [['n', 'e', 'p'], ['e', 't', 'u'], ['e', 'p', 'y'], ['e', 'c', 'a'], ['t', 'c', 'e'],
      ['n', 'o', 'i']] := by
  simp [lastWords, ending]

theorem ending_append_mem (before : String) {word : String} (h : word ∈ lastWords) :
    ending (before ++ word) ∈ lastWords.map ending := by
  have hlength : ∀ word ∈ lastWords, 3 ≤ word.toList.length := by simp [lastWords]
  rw [ending_append before (hlength word h)]
  exact List.mem_map_of_mem h

theorem RefusesHandle.ending {text : String} (h : RefusesHandle text) :
    ending text ∈ lastWords.map ending := by
  obtain ⟨before, word, hword, rfl⟩ : ∃ before, ∃ word ∈ lastWords, text = before ++ word := by
    cases h with
    | notOpen id =>
      exact ⟨s!"handle {id.render} is not ", "open", by simp [lastWords],
        by simp [toString, String.append_assoc]⟩
    | otherKind id kind other =>
      exact ⟨s!"handle {id.render} is a {kind.name} handle, not ", other.name,
        by cases other <;> simp [lastWords, HandleKind.name], rfl⟩
    | notAttribute id =>
      exact ⟨s!"handle {id.render} is not an ", "attribute", by simp [lastWords],
        by simp [toString, String.append_assoc]⟩
    | noDataspace id =>
      exact ⟨s!"handle {id.render} is not a ", "dataspace", by simp [lastWords],
        by simp [toString, String.append_assoc]⟩
  exact ending_append_mem before hword

/-- A text that ends with other letters is none of them. -/
theorem not_refusesHandle_append (before : String) {word : String}
    (hlength : 3 ≤ word.toList.length) (h : ending word ∉ lastWords.map ending) :
    ¬RefusesHandle s!"{before}{word}" := by
  intro hrefuses
  exact h (ending_append before hlength ▸ hrefuses.ending)

/-- A question that was made to fail says so in other words. -/
theorem not_refusesHandle_failed {name : String} (h : name.toList.head? ≠ some 'h') :
    ¬RefusesHandle s!"{name} failed" := by
  intro hrefuses
  have hhead := hrefuses.head?
  cases hname : name.toList with
  | nil => simp [toString, hname] at hhead
  | cons c rest =>
    simp [toString, hname] at hhead
    exact h (by rw [hname, hhead]; rfl)

/-- A number is the end of no such text. -/
theorem not_refusesHandle_number (text : String) (n : Nat) : ¬RefusesHandle s!"{text}{n}" := by
  intro hrefuses
  have hending := hrefuses.ending
  -- the last letter is a digit
  obtain ⟨init, digit, hdigits⟩ : ∃ init digit, Nat.toDigits 10 n = init ++ [digit] := by
    rcases List.eq_nil_or_concat (Nat.toDigits 10 n) with hnil | ⟨init, digit, h⟩
    · exact absurd hnil Nat.toDigits_ne_nil
    · exact ⟨init, digit, h.trans List.concat_eq_append⟩
  have hmem : digit ∈ Nat.toDigits 10 n := by
    rw [hdigits]
    exact List.mem_append_right _ (List.mem_singleton.2 rfl)
  have hdigit : digit.isDigit = true :=
    Nat.isDigit_of_mem_toDigits (by decide) (by decide) hmem
  have hlast : (ending (toString text ++ toString n)).head? = some digit := by
    simp [ending, hdigits]
  have hletters : ∀ letters ∈ lastWords.map Error.ending, ∀ c ∈ letters.head?,
      c.isDigit = false := by simp [map_ending_lastWords, Char.isDigit]
  exact absurd ((hletters _ hending digit hlast).symm.trans hdigit) (by decide)

end Error

end TypedAttr
