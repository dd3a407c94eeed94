import Mathlib.Data.List.Chain
import TypedAttr.Settings.Document
/-!
# How documents are spelled

The grammar of JSON, said without the scanner and the stack; of the scanner
it has only the tables of escapes, hexadecimal digits and space. `Spells`
says which characters a token may be, and `SpellsTokens` puts tokens together
with any space between them. The tokens of a document are determined
(`tokens`); what a writer may choose is the space, how characters of strings
are escaped, and how a number that is not whole goes on.

Tokens need no space between them, as no token goes on into the next: a
number ends where no digit, point or exponent follows (`Ends`), and in a
document no number stands before a number (`parted_tokens`).
-/

namespace TypedAttr

namespace Document

/-! ## Strings -/

/-- The units that characters are written as. A character is its code point,
and one above the basic plane is also a pair of surrogates. -/
inductive UnitsOf : List Char → List Nat → Prop where
  | nil : UnitsOf [] []
  | single {cs : List Char} {units : List Nat} (c : Char) :
      UnitsOf cs units → UnitsOf (c :: cs) (c.toNat :: units)
  | pair {cs : List Char} {units : List Nat} (c : Char) (high low : Nat)
      (hhigh : high < 0x400) (hlow : low < 0x400)
      (hc : c.toNat = 0x10000 + high * 0x400 + low) :
      UnitsOf cs units → UnitsOf (c :: cs) ((0xD800 + high) :: (0xDC00 + low) :: units)

/-- A character that need not be escaped: no control character, no quote and
no backslash. -/
def isPlain (c : Char) : Bool := 0x20 ≤ c.toNat && c ≠ '"' && c ≠ '\\'

/-- What may stand between the quotes for units: a character that need not
be escaped, an escape of one character, or an escape of four digits. -/
inductive SpellsUnits : List Nat → List Char → Prop where
  | nil : SpellsUnits [] []
  | plain {units : List Nat} {text : List Char} (c : Char) (hc : isPlain c) :
      SpellsUnits units text → SpellsUnits (c.toNat :: units) (c :: text)
  | short {units : List Nat} {text : List Char} (c d : Char) (hc : escaped? c = some d) :
      SpellsUnits units text → SpellsUnits (d.toNat :: units) ('\\' :: c :: text)
  | digits {units : List Nat} {text : List Char} (a b c d : Char) (unit : Nat)
      (hunit : hexUnit? a b c d = some unit) :
      SpellsUnits units text →
        SpellsUnits (unit :: units) ('\\' :: 'u' :: a :: b :: c :: d :: text)

/-! ## Numbers -/

/-- One digit at least, and nothing else. -/
structure AreDigits (digits : List Char) : Prop where
  nonempty : digits ≠ []
  digit : ∀ c ∈ digits, c.isDigit

/-- The digits of a whole number: no zero before others. -/
structure AreWhole (digits : List Char) : Prop extends AreDigits digits where
  lean : ∀ rest, digits = '0' :: rest → rest = []

/-- A fraction, or none. -/
inductive SpellsFraction : List Char → Prop where
  | none : SpellsFraction []
  | some {digits : List Char} (hdigits : AreDigits digits) : SpellsFraction ('.' :: digits)

/-- An exponent, or none. -/
inductive SpellsExponent : List Char → Prop where
  | none : SpellsExponent []
  | some {digits : List Char} (e : Char) (sign : List Char) (he : e = 'e' ∨ e = 'E')
      (hsign : sign ∈ [[], ['+'], ['-']]) (hdigits : AreDigits digits) :
      SpellsExponent (e :: (sign ++ digits))

/-- The sign of a number. -/
def signText (negative : Bool) : List Char := if negative then ['-'] else []

/-- A number is a sign, a whole number, a fraction and an exponent. -/
inductive SpellsNumber : NumberText → List Char → Prop where
  | mk {whole fraction exponent : List Char} (negative : Bool) (hwhole : AreWhole whole)
      (hfraction : SpellsFraction fraction) (hexponent : SpellsExponent exponent) :
      SpellsNumber ⟨negative, whole, (fraction ++ exponent).isEmpty⟩
        (signText negative ++ whole ++ (fraction ++ exponent))

/-! ## Tokens -/

/-- The characters that a token may be. A string whose units are no
characters has no content. -/
inductive Spells : Token → List Char → Prop where
  | openObject : Spells .openObject ['\x7b']
  | closeObject : Spells .closeObject ['\x7d']
  | openArray : Spells .openArray ['[']
  | closeArray : Spells .closeArray [']']
  | colon : Spells .colon [':']
  | comma : Spells .comma [',']
  | null : Spells .null ['n', 'u', 'l', 'l']
  | true : Spells (.bool true) ['t', 'r', 'u', 'e']
  | false : Spells (.bool false) ['f', 'a', 'l', 's', 'e']
  | number {number : NumberText} {text : List Char} (hnumber : SpellsNumber number text) :
      Spells (.number number) text
  | string {cs : List Char} {units : List Nat} {text : List Char} (hunits : UnitsOf cs units)
      (htext : SpellsUnits units text) :
      Spells (.string (some (String.ofList cs))) ('"' :: (text ++ ['"']))
  | noText {units : List Nat} {text : List Char} (hunits : ∀ cs, ¬ UnitsOf cs units)
      (htext : SpellsUnits units text) : Spells (.string none) ('"' :: (text ++ ['"']))

/-- The texts of tokens one after the other, with any space around them. -/
inductive SpellsTokens : List Token → List Char → Prop where
  | nil {space : List Char} (hspace : ∀ c ∈ space, isSpace c) : SpellsTokens [] space
  | cons {token : Token} {tokens : List Token} {text rest : List Char} (space : List Char)
      (hspace : ∀ c ∈ space, isSpace c) (htext : Spells token text) :
      SpellsTokens tokens rest → SpellsTokens (token :: tokens) (space ++ text ++ rest)

/-- Text of which no character need be escaped spells itself. -/
theorem spells_string {cs : List Char} (h : cs.all isPlain) :
    Spells (.string (some (String.ofList cs))) ('"' :: (cs ++ ['"'])) := by
  have hunits : UnitsOf cs (cs.map Char.toNat) ∧ SpellsUnits (cs.map Char.toNat) cs := by
    induction cs with
    | nil => exact ⟨.nil, .nil⟩
    | cons c cs ih =>
      rw [List.all_cons, Bool.and_eq_true] at h
      obtain ⟨hunits, htext⟩ := ih h.2
      exact ⟨.single c hunits, .plain c h.1 htext⟩
  exact .string hunits.1 hunits.2

/-- A token without space before it. -/
theorem SpellsTokens.next {token : Token} {tokens : List Token} {text rest : List Char}
    (htext : Spells token text) (hrest : SpellsTokens tokens rest) :
    SpellsTokens (token :: tokens) (text ++ rest) :=
  .cons [] (by simp) htext hrest

/-- Space before tokens. -/
theorem SpellsTokens.after {tokens : List Token} {text : List Char} (space : List Char)
    (hspace : space.all isSpace) (h : SpellsTokens tokens text) :
    SpellsTokens tokens (space ++ text) := by
  rw [List.all_eq_true] at hspace
  cases h with
  | nil hrest => exact .nil fun c hc => (List.mem_append.1 hc).elim (hspace c) (hrest c)
  | cons between hbetween htext hrest =>
    rw [← List.append_assoc, ← List.append_assoc]
    exact .cons _ (fun c hc => (List.mem_append.1 hc).elim (hspace c) (hbetween c)) htext hrest

/-! ## Documents -/

mutual

/-- The tokens of a document, with commas between items and fields. -/
def tokens : Document → List Token
  | .null => [.null]
  | .bool value => [.bool value]
  | .number text => [.number text]
  | .string content => [.string content]
  | .array items => .openArray :: ([.comma].intercalate (tokensOfItems items) ++ [.closeArray])
  | .object fields =>
    .openObject :: ([.comma].intercalate (tokensOfFields fields) ++ [.closeObject])

/-- The tokens of each item. -/
def tokensOfItems : List Document → List (List Token)
  | [] => []
  | item :: items => item.tokens :: tokensOfItems items

/-- The tokens of each field. -/
def tokensOfFields : List (Option String × Document) → List (List Token)
  | [] => []
  | (name, value) :: fields =>
    (.string name :: .colon :: value.tokens) :: tokensOfFields fields

end

theorem tokensOfItems_eq_map (items : List Document) :
    tokensOfItems items = items.map tokens := by
  induction items with
  | nil => rfl
  | cons item items ih => rw [tokensOfItems, ih, List.map_cons]

/-- The tokens of a field: its name, a colon and its value. -/
def tokensOfField (field : Option String × Document) : List Token :=
  .string field.1 :: .colon :: field.2.tokens

theorem tokensOfFields_eq_map (fields : List (Option String × Document)) :
    tokensOfFields fields = fields.map tokensOfField := by
  induction fields with
  | nil => rfl
  | cons field fields ih => rw [tokensOfFields, ih, List.map_cons, tokensOfField]

/-- The texts of a document. -/
def SpelledBy (document : Document) (text : String) : Prop :=
  SpellsTokens document.tokens text.toList

/-- **Induction over a document**, arrays and objects with all that they
hold. -/
@[induction_eliminator]
theorem induct {motive : Document → Prop}
    (null : motive .null)
    (bool : ∀ value, motive (.bool value))
    (number : ∀ text, motive (.number text))
    (string : ∀ content, motive (.string content))
    (array : ∀ items, (∀ item ∈ items, motive item) → motive (.array items))
    (object : ∀ fields, (∀ field ∈ fields, motive field.2) → motive (.object fields))
    (document : Document) : motive document :=
  @Document.rec motive (fun items => ∀ item ∈ items, motive item)
    (fun fields => ∀ field ∈ fields, motive field.2) (fun field => motive field.2)
    null bool number string array object
    (by simp)
    (fun _ _ hhead htail => List.forall_mem_cons.2 ⟨hhead, htail⟩)
    (by simp)
    (fun _ _ hhead htail => List.forall_mem_cons.2 ⟨hhead, htail⟩)
    (fun _ _ h => h) document

/-! ## Where tokens end -/

/-- Whether a token is a number. -/
def Token.isNumber : Token → Bool
  | .number _ => true
  | _ => false

/-- A text that does not go on with a number before it. -/
def Ends (text : List Char) : Prop :=
  ∀ c ∈ text.head?, c.isDigit = false ∧ c ≠ '.' ∧ c ≠ 'e' ∧ c ≠ 'E'

theorem ends_nil : Ends [] := by simp [Ends]

theorem ends_cons {c : Char} (rest : List Char)
    (hc : c.isDigit = false ∧ c ≠ '.' ∧ c ≠ 'e' ∧ c ≠ 'E') : Ends (c :: rest) := by
  simpa [Ends] using hc

theorem isSpace_iff {c : Char} : isSpace c ↔ c = ' ' ∨ c = '\n' ∨ c = '\t' ∨ c = '\r' := by
  simp [isSpace, or_assoc]

/-- Space ends a number. -/
theorem ends_of_isSpace {c : Char} (rest : List Char) (hc : isSpace c) : Ends (c :: rest) := by
  apply ends_cons
  rcases isSpace_iff.1 hc with rfl | rfl | rfl | rfl <;> decide

/-- Every token but a number ends a number. -/
theorem ends_of_spells {token : Token} {text : List Char} (h : Spells token text)
    (htoken : token.isNumber = false) (rest : List Char) : Ends (text ++ rest) := by
  cases h with
  | number => simp [Token.isNumber] at htoken
  | _ => exact ends_cons _ (by decide)

theorem ends_of_spellsTokens {tokens : List Token} {text : List Char}
    (h : SpellsTokens tokens text) (htokens : ∀ token ∈ tokens.head?, token.isNumber = false) :
    Ends text := by
  have hends : ∀ space rest : List Char, (∀ c ∈ space, isSpace c) → Ends rest →
      Ends (space ++ rest) := by
    intro space rest hspace hrest
    cases space with
    | nil => exact hrest
    | cons c space => exact ends_of_isSpace _ (hspace c (by simp))
  cases h with
  | nil hspace => simpa using hends text [] hspace ends_nil
  | @cons token _ text rest space hspace htext _ =>
    rw [List.append_assoc]
    exact hends space _ hspace (ends_of_spells htext (htokens token (by simp)) rest)

/-- Tokens of which no two numbers stand one after the other. -/
def Parted (tokens : List Token) : Prop :=
  tokens.IsChain fun token next => token.isNumber → next.isNumber = false

theorem parted_number {text : NumberText} {rest : List Token} (hrest : Parted rest)
    (hnext : ∀ next ∈ rest.head?, next.isNumber = false) : Parted (.number text :: rest) :=
  List.isChain_cons.2 ⟨fun next hmem _ => hnext next hmem, hrest⟩

theorem parted_cons {token : Token} {rest : List Token} (htoken : token.isNumber = false)
    (hrest : Parted rest) : Parted (token :: rest) :=
  List.isChain_cons.2 ⟨fun _ _ hnumber => absurd hnumber (by simp [htoken]), hrest⟩

/-- Tokens that are parted before any others that do not begin with a
number. -/
def PartedBefore (tokens : List Token) : Prop :=
  ∀ rest, Parted rest → (∀ next ∈ rest.head?, next.isNumber = false) → Parted (tokens ++ rest)

theorem partedBefore_cons {token : Token} {tokens : List Token}
    (htoken : token.isNumber = false) (h : PartedBefore tokens) :
    PartedBefore (token :: tokens) :=
  fun rest hrest hnext => parted_cons htoken (h rest hrest hnext)

/-- Lists with commas between them, and a closing bracket after them. -/
theorem partedBefore_intercalate {lists : List (List Token)} {close : Token}
    (hclose : close.isNumber = false) (h : ∀ tokens ∈ lists, PartedBefore tokens) :
    PartedBefore ([.comma].intercalate lists ++ [close]) := by
  intro rest hrest _
  have hend : Parted (close :: rest) := parted_cons hclose hrest
  rw [List.append_assoc]
  induction lists with
  | nil => exact hend
  | cons tokens lists ih =>
    have htokens : PartedBefore tokens := h tokens (by simp)
    cases lists with
    | nil =>
      rw [List.intercalate_singleton]
      exact htokens _ hend (by simpa using hclose)
    | cons next lists =>
      have hothers := ih fun tokens hmem => h tokens (List.mem_cons_of_mem _ hmem)
      rw [List.intercalate_cons_cons, List.append_assoc, List.append_assoc]
      exact htokens _ (parted_cons rfl hothers) (by simp [Token.isNumber])

theorem partedBefore_tokens (document : Document) : PartedBefore document.tokens := by
  induction document with
  | null | bool _ | string _ => exact fun _ hrest _ => parted_cons rfl hrest
  | number text => exact fun _ hrest hnext => parted_number hrest hnext
  | array items ih =>
    refine partedBefore_cons rfl (partedBefore_intercalate rfl fun tokens hmem => ?_)
    rw [tokensOfItems_eq_map] at hmem
    obtain ⟨item, hitem, rfl⟩ := List.mem_map.1 hmem
    exact ih item hitem
  | object fields ih =>
    refine partedBefore_cons rfl (partedBefore_intercalate rfl fun tokens hmem => ?_)
    rw [tokensOfFields_eq_map] at hmem
    obtain ⟨field, hfield, rfl⟩ := List.mem_map.1 hmem
    exact partedBefore_cons rfl (partedBefore_cons rfl (ih field hfield))

/-- **In a document no number stands before a number.** -/
theorem parted_tokens (document : Document) : Parted document.tokens := by
  simpa using partedBefore_tokens document [] List.IsChain.nil (by simp)

end Document

end TypedAttr
