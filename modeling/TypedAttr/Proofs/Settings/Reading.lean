import Mathlib.Data.List.TakeDrop
import Mathlib.Data.List.TakeWhile
import TypedAttr.Proofs.Settings.Spelling
/-!
# Documents are read as they are spelled

The scanner gives back the tokens that a text spells (`scan_of_spelledBy`),
and the stack gives back the document of these tokens (`foldlM_tokens`). So
every spelling of a document is read as it (`parse?_of_spelledBy`).

On the way through a string the units come first and the characters after:
that units which are no characters leave a string without content needs the
converse too (`unitsOf_of_charactersOf?`).
-/

namespace TypedAttr

namespace Document

/-! ## Strings -/

theorem charactersOf?_single {unit : Nat} (units : List Nat)
    (hunit : unit < 0xD800 ∨ 0xDFFF < unit) :
    charactersOf? (unit :: units) = (charactersOf? units).map (Char.ofNat unit :: ·) := by
  have hlow : ¬ (0xDC00 ≤ unit ∧ unit ≤ 0xDFFF) := by omega
  have hhigh : ¬ (0xD800 ≤ unit ∧ unit ≤ 0xDBFF) := by omega
  rw [charactersOf?.eq_def, Option.map_eq_bind]
  simp only [hlow, hhigh, Bool.and_eq_true, decide_eq_true_eq, if_false]
  rfl

theorem charactersOf?_pair {high low : Nat} (units : List Nat) (hhigh : high < 0x400)
    (hlow : low < 0x400) :
    charactersOf? ((0xD800 + high) :: (0xDC00 + low) :: units) =
      (charactersOf? units).map (Char.ofNat (0x10000 + high * 0x400 + low) :: ·) := by
  have hfirst : ¬ (0xDC00 ≤ 0xD800 + high ∧ 0xD800 + high ≤ 0xDFFF) := by omega
  have hfirst' : 0xD800 + high ≤ 0xDBFF := by omega
  have hsecond : 0xDC00 + low ≤ 0xDFFF := by omega
  rw [charactersOf?, Option.map_eq_bind]
  simp only [hfirst, hfirst', hsecond, Bool.and_eq_true, decide_eq_true_eq, if_false, if_true,
    Nat.le_add_right, true_and, Nat.add_sub_cancel_left]
  rfl

/-- Characters come back from the units that they are written as. -/
theorem charactersOf?_of_unitsOf {cs : List Char} {units : List Nat} (h : UnitsOf cs units) :
    charactersOf? units = some cs := by
  induction h with
  | nil => rfl
  | single c _ ih =>
    have hvalid : c.toNat < 0xD800 ∨ 0xDFFF < c.toNat ∧ c.toNat < 0x110000 := c.valid
    rw [charactersOf?_single _ (hvalid.imp_right And.left), ih, Option.map_some,
      Char.ofNat_toNat]
  | pair c high low hhigh hlow hc _ ih =>
    rw [charactersOf?_pair _ hhigh hlow, ih, Option.map_some, ← hc, Char.ofNat_toNat]

theorem toNat_ofNat {n : Nat} (h : n.isValidChar) : (Char.ofNat n).toNat = n := by
  rw [Char.ofNat, dif_pos h]
  rfl

/-- Units that come back as characters are how these are written. -/
theorem unitsOf_of_charactersOf? {units : List Nat} :
    ∀ {cs : List Char}, (∀ unit ∈ units, unit < 0x110000) → charactersOf? units = some cs →
      UnitsOf cs units := by
  induction units using charactersOf?.induct with
  | case1 =>
    rintro cs - ⟨⟩
    exact .nil
  | case4 first hfirst hfirst' second rest hsecond ih =>
    -- the two halves of a pair
    intro cs hbound h
    simp only [Bool.and_eq_true, decide_eq_true_eq] at hfirst' hsecond
    obtain ⟨high, rfl⟩ := Nat.exists_eq_add_of_le hfirst'.1
    obtain ⟨low, rfl⟩ := Nat.exists_eq_add_of_le hsecond.1
    rw [charactersOf?_pair rest (by omega) (by omega)] at h
    obtain ⟨others, hothers, rfl⟩ := Option.map_eq_some_iff.1 h
    have hrest : UnitsOf others rest := ih (fun unit hunit => hbound unit (by simp [hunit])) hothers
    refine .pair _ high low (by omega) (by omega) (toNat_ofNat ?_) hrest
    unfold Nat.isValidChar
    omega
  | case6 unit rest hlow hhigh ih =>
    intro cs hbound h
    simp only [Bool.and_eq_true, decide_eq_true_eq] at hlow hhigh
    have hunit : unit < 0x110000 := hbound unit (by simp)
    rw [charactersOf?_single rest (by omega)] at h
    obtain ⟨others, hothers, rfl⟩ := Option.map_eq_some_iff.1 h
    have hrest : UnitsOf others rest := ih (fun unit hunit => hbound unit (by simp [hunit])) hothers
    have hvalid : unit.isValidChar := by
      unfold Nat.isValidChar
      omega
    simpa only [toNat_ofNat hvalid] using UnitsOf.single (Char.ofNat unit) hrest
  -- half a pair makes no text
  | case2 unit rest hlow =>
    intro cs _ h
    rw [charactersOf?.eq_def] at h
    simp [hlow] at h
  | case3 unit hlow hhigh =>
    intro cs _ h
    rw [charactersOf?.eq_def] at h
    simp [hlow, hhigh] at h
  | case5 first hfirst hfirst' second rest hsecond =>
    intro cs _ h
    rw [charactersOf?] at h
    simp [hfirst, hfirst', hsecond] at h

theorem hexValue?_lt {c : Char} {n : Nat} (h : hexValue? c = some n) : n < 16 := by
  unfold hexValue? Bytes.digitValue? at h
  generalize c.toLower = d at h
  split at h
  · rename_i hdigit
    have hle : d.toNat ≤ '9'.toNat := (Char.isDigit_iff_toNat.1 hdigit).2
    have hn : d.toNat - '0'.toNat = n := Option.some.inj h
    simp only [Char.reduceToNat] at hle hn
    omega
  · split at h
    · rename_i hletter
      have hle : d.toNat ≤ 'f'.toNat := hletter.2
      have hn : d.toNat - 'a'.toNat + 10 = n := Option.some.inj h
      simp only [Char.reduceToNat] at hle hn
      omega
    · cases h

theorem hexUnit?_lt {a b c d : Char} {unit : Nat} (h : hexUnit? a b c d = some unit) :
    unit < 0x10000 := by
  obtain ⟨p, hp, h⟩ := Option.bind_eq_some_iff.1 h
  obtain ⟨q, hq, h⟩ := Option.bind_eq_some_iff.1 h
  obtain ⟨r, hr, h⟩ := Option.bind_eq_some_iff.1 h
  obtain ⟨s, hs, h⟩ := Option.bind_eq_some_iff.1 h
  have hunit : ((p * 16 + q) * 16 + r) * 16 + s = unit := Option.some.inj h
  have := hexValue?_lt hp
  have := hexValue?_lt hq
  have := hexValue?_lt hr
  have := hexValue?_lt hs
  omega

/-- No spelled unit is beyond the last code point. -/
theorem unit_lt_of_spellsUnits {units : List Nat} {text : List Char}
    (h : SpellsUnits units text) : ∀ unit ∈ units, unit < 0x110000 := by
  have hchar : ∀ c : Char, c.toNat < 0x110000 := by
    intro c
    have hvalid : c.toNat < 0xD800 ∨ 0xDFFF < c.toNat ∧ c.toNat < 0x110000 := c.valid
    omega
  induction h with
  | nil => simp
  | plain c _ _ ih => exact List.forall_mem_cons.2 ⟨hchar c, ih⟩
  | short c d _ _ ih => exact List.forall_mem_cons.2 ⟨hchar d, ih⟩
  | digits a b c d unit hunit _ ih =>
    exact List.forall_mem_cons.2 ⟨(hexUnit?_lt hunit).trans (by decide), ih⟩

/-- The units of a string are scanned up to its closing quote. -/
theorem scanString_append {units : List Nat} {text : List Char} (h : SpellsUnits units text)
    (rest : List Char) : scanString (text ++ '"' :: rest) = some (units, rest) := by
  induction h with
  | nil => rfl
  | plain c hc _ ih =>
    obtain ⟨⟨hcontrol, hquote⟩, hescape⟩ : (0x20 ≤ c.toNat ∧ c ≠ '"') ∧ c ≠ '\\' := by
      simpa [isPlain] using hc
    have hcontrol' : ¬ c.toNat < 0x20 := by omega
    rw [List.cons_append, scanString.eq_5 c _ hquote (fun _ _ _ _ _ h _ => hescape h)
      (fun _ _ h _ => hescape h), if_neg hcontrol', ih]
    rfl
  | short c d hc _ ih =>
    have hdigits : c ≠ 'u' := by
      rintro rfl
      cases hc
    rw [List.cons_append, List.cons_append, scanString.eq_4 c _ (fun _ _ _ _ _ h _ => hdigits h),
      hc, ih]
    rfl
  | digits a b c d unit hunit _ ih =>
    simp only [List.cons_append]
    rw [scanString, hunit, ih]
    rfl

/-! ## Numbers -/

/-- Digits are scanned as far as they go. -/
theorem scanDigits?_append {digits rest : List Char} (hdigits : AreDigits digits)
    (hrest : ∀ c ∈ rest.head?, c.isDigit = false) :
    scanDigits? (digits ++ rest) = some (digits, rest) := by
  have hspan : (digits ++ rest).span Char.isDigit = (digits, rest) := by
    rw [List.span_eq_takeWhile_dropWhile, List.takeWhile_append_of_pos hdigits.digit,
      List.dropWhile_append_of_pos hdigits.digit]
    cases rest with
    | nil => simp
    | cons c rest => simp [hrest c (by simp)]
  rw [scanDigits?, hspan]
  have hnonempty := hdigits.nonempty
  split
  · simp_all
  · rfl

theorem scanWhole?_append {whole rest : List Char} (hwhole : AreWhole whole)
    (hrest : ∀ c ∈ rest.head?, c.isDigit = false) :
    scanWhole? (whole ++ rest) = some (whole, rest) := by
  rw [scanWhole?, scanDigits?_append hwhole.toAreDigits hrest]
  split
  · rename_i next others found heq
    obtain ⟨rfl, -⟩ := Prod.mk.inj (Option.some.inj heq)
    exact absurd (hwhole.lean _ rfl) (by simp)
  · rfl

theorem skipFraction?_append {fraction rest : List Char} (hfraction : SpellsFraction fraction)
    (hrest : ∀ c ∈ rest.head?, c.isDigit = false ∧ c ≠ '.') :
    skipFraction? (fraction ++ rest) = some rest := by
  cases hfraction with
  | none =>
    rw [List.nil_append, skipFraction?.eq_2]
    rintro others rfl
    exact (hrest '.' rfl).2 rfl
  | some hdigits =>
    rw [List.cons_append, skipFraction?, scanDigits?_append hdigits fun c hc => (hrest c hc).1]
    rfl

theorem skipSign_append {digits sign : List Char} (hsign : sign ∈ [[], ['+'], ['-']])
    (hdigits : AreDigits digits) (rest : List Char) :
    skipSign (sign ++ (digits ++ rest)) = digits ++ rest := by
  simp only [List.mem_cons, List.not_mem_nil, or_false] at hsign
  rcases hsign with rfl | rfl | rfl
  · obtain ⟨d, digits, rfl⟩ := List.exists_cons_of_ne_nil hdigits.nonempty
    have hd : d.isDigit = true := hdigits.digit d (by simp)
    rw [List.nil_append, List.cons_append, skipSign.eq_3]
    all_goals
      rintro others heq
      obtain ⟨rfl, -⟩ := List.cons.inj heq
      exact absurd hd (by decide)
  · rfl
  · rfl

theorem skipExponent?_append {exponent rest : List Char} (hexponent : SpellsExponent exponent)
    (hrest : Ends rest) : skipExponent? (exponent ++ rest) = some rest := by
  cases hexponent with
  | none =>
    rw [List.nil_append, skipExponent?.eq_3]
    · rintro others rfl
      exact (hrest 'e' rfl).2.2.1 rfl
    · rintro others rfl
      exact (hrest 'E' rfl).2.2.2 rfl
  | some e sign he hsign hdigits =>
    have hskip := scanDigits?_append hdigits fun c hc => (hrest c hc).1
    rcases he with rfl | rfl <;>
      rw [List.cons_append, List.append_assoc, skipExponent?, skipSign_append hsign hdigits,
        hskip] <;> rfl

/-- What follows a fraction does not go on with it. -/
theorem head_exponent_append {exponent rest : List Char} (hexponent : SpellsExponent exponent)
    (hrest : Ends rest) : ∀ c ∈ (exponent ++ rest).head?, c.isDigit = false ∧ c ≠ '.' := by
  intro c hc
  cases hexponent with
  | none => exact (hrest c hc).imp_right And.left
  | some e sign he hsign hdigits =>
    obtain rfl : e = c := by simpa using hc
    rcases he with rfl | rfl <;> decide

/-- What follows a whole number does not go on with it. -/
theorem head_fraction_append {fraction rest : List Char} (hfraction : SpellsFraction fraction)
    (hrest : ∀ c ∈ rest.head?, c.isDigit = false ∧ c ≠ '.') :
    ∀ c ∈ (fraction ++ rest).head?, c.isDigit = false := by
  intro c hc
  cases hfraction with
  | none => exact (hrest c hc).1
  | some hdigits =>
    obtain rfl : '.' = c := by simpa using hc
    decide

/-- A number is scanned as it is spelled. -/
theorem scanNumber?_append {number : NumberText} {text rest : List Char}
    (h : SpellsNumber number text) (hrest : Ends rest) :
    scanNumber? (text ++ rest) = some (number, rest) := by
  obtain ⟨negative, hwhole, hfraction, hexponent⟩ := h
  rename_i whole fraction exponent
  have hafter := head_exponent_append hexponent hrest
  have hplain : (rest.length == (fraction ++ (exponent ++ rest)).length) =
      (fraction ++ exponent).isEmpty := by
    cases fraction <;> cases exponent <;> simp <;> omega
  have hunsigned : scanUnsigned? negative (whole ++ (fraction ++ (exponent ++ rest))) =
      some (⟨negative, whole, (fraction ++ exponent).isEmpty⟩, rest) := by
    simp only [scanUnsigned?, bind, Option.bind,
      scanWhole?_append hwhole (head_fraction_append hfraction hafter),
      skipFraction?_append hfraction hafter, skipExponent?_append hexponent hrest, hplain]
    rfl
  cases negative with
  | true =>
    simpa only [signText, if_true, List.append_assoc, List.cons_append, List.nil_append,
      scanNumber?] using hunsigned
  | false =>
    simp only [signText, Bool.false_eq_true, if_false, List.append_assoc, List.nil_append]
    rw [scanNumber?.eq_2, hunsigned]
    obtain ⟨d, digits, rfl⟩ := List.exists_cons_of_ne_nil hwhole.nonempty
    rintro others heq
    obtain ⟨rfl, -⟩ := List.cons.inj heq
    exact absurd (hwhole.digit '-' (by simp)) (by decide)

/-! ## All tokens -/

/-- A number begins with a digit or a sign. -/
theorem exists_head_of_spellsNumber {number : NumberText} {text : List Char}
    (h : SpellsNumber number text) : ∃ c others, text = c :: others ∧ (c.isDigit ∨ c = '-') := by
  obtain ⟨negative, hwhole, -, -⟩ := h
  cases negative with
  | true => exact ⟨'-', _, rfl, .inr rfl⟩
  | false =>
    obtain ⟨d, digits, rfl⟩ := List.exists_cons_of_ne_nil hwhole.nonempty
    exact ⟨d, _, rfl, .inl (hwhole.digit d (by simp))⟩

/-- **A token is scanned as it is spelled**, a number if the text ends it. -/
theorem scanToken?_append {token : Token} {text rest : List Char} (h : Spells token text)
    (hrest : token.isNumber → Ends rest) : scanToken? (text ++ rest) = some (token, rest) := by
  cases h with
  | number hnumber =>
    obtain ⟨c, others, rfl, hc⟩ := exists_head_of_spellsNumber hnumber
    rw [scanToken?.eq_11, scanNumber?_append hnumber (hrest rfl)]
    · rfl
    -- no other token begins with a digit or a sign
    all_goals
      intro others' heq
      obtain ⟨rfl, -⟩ := List.cons.inj heq
      exact absurd hc (by decide)
  | string hunits htext =>
    rw [List.cons_append, List.append_assoc, scanToken?, List.singleton_append,
      scanString_append htext]
    simp [charactersOf?_of_unitsOf hunits]
  | @noText units text hunits htext =>
    have hnone : charactersOf? units = none := by
      refine Option.eq_none_iff_forall_ne_some.2 fun cs hcs => hunits cs ?_
      exact unitsOf_of_charactersOf? (unit_lt_of_spellsUnits htext) hcs
    rw [List.cons_append, List.append_assoc, scanToken?, List.singleton_append,
      scanString_append htext]
    simp [hnone]
  | _ => rfl

/-- Space before a token is passed over. -/
theorem dropWhile_isSpace_append {token : Token} {space text : List Char}
    (hspace : ∀ c ∈ space, isSpace c) (htext : Spells token text) (rest : List Char) :
    (space ++ text ++ rest).dropWhile isSpace = text ++ rest ∧ text ≠ [] := by
  obtain ⟨c, others, rfl, hc⟩ : ∃ c others, text = c :: others ∧ isSpace c = false := by
    cases htext with
    | number hnumber =>
      obtain ⟨c, others, rfl, hc⟩ := exists_head_of_spellsNumber hnumber
      refine ⟨c, others, rfl, Bool.eq_false_iff.2 fun h => ?_⟩
      rcases isSpace_iff.1 h with rfl | rfl | rfl | rfl <;> exact absurd hc (by decide)
    | _ => exact ⟨_, _, rfl, by decide⟩
  refine ⟨?_, by simp⟩
  rw [List.append_assoc, List.dropWhile_append_of_pos hspace, List.cons_append,
    List.dropWhile_cons_of_neg (by simp [hc])]

/-- Tokens are scanned as they are spelled, given fuel for each. -/
theorem scanWith_of_spellsTokens {tokens : List Token} {text : List Char}
    (h : SpellsTokens tokens text) : Parted tokens → ∀ fuel, text.length ≤ fuel →
      scanWith fuel text = some tokens := by
  induction h with
  | nil hspace =>
    intro _ fuel _
    have hall := List.all_eq_true.2 hspace
    have hdrop : List.dropWhile isSpace _ = [] := List.dropWhile_eq_nil_iff.2 hspace
    cases fuel with
    | zero => rw [scanWith, if_pos hall]
    | succ fuel => rw [scanWith, hdrop]
  | @cons token tokens text rest space hspace htext hrest ih =>
    intro hparted fuel hfuel
    obtain ⟨hnext, hparted⟩ := List.isChain_cons.1 hparted
    obtain ⟨hdrop, hnonempty⟩ := dropWhile_isSpace_append hspace htext rest
    have hlength : text.length ≠ 0 := by simpa using hnonempty
    have hscan : scanToken? (text ++ rest) = some (token, rest) :=
      scanToken?_append htext fun hnumber =>
        ends_of_spellsTokens hrest fun next hmem => hnext next hmem hnumber
    simp only [List.length_append] at hfuel
    obtain ⟨fuel, rfl⟩ := Nat.exists_eq_succ_of_ne_zero (show fuel ≠ 0 by omega)
    rw [scanWith, hdrop]
    split
    · simp_all
    · have hothers : scanWith fuel rest = some tokens := ih hparted fuel (by omega)
      simp [hscan, hothers]

/-- **A text is scanned as the tokens that it spells.** -/
theorem scan_of_spelledBy {document : Document} {text : String} (h : document.SpelledBy text) :
    scan text = some document.tokens :=
  scanWith_of_spellsTokens h (parted_tokens document) _ String.length_toList.le

/-! ## Reading -/

namespace Reader

theorem step_string {reader : Reader} (h : reader.expectsValue) (content : Option String) :
    reader.step (.string content) = reader.supply (.string content) := by
  obtain ⟨done, open?⟩ := reader
  match done, open? with
  | none, [] => rfl
  | none, .array _ true :: _ => rfl
  | none, .value _ _ :: _ => rfl

/-- A bracket opens a frame where a value is expected, and the value then
goes where the bracket stood. -/
theorem enter_of_expectsValue {reader : Reader} (h : reader.expectsValue) (frame : Frame) :
    reader.enter frame = some { open? := frame :: reader.open? } ∧
      ({ open? := reader.open? } : Reader) = reader := by
  refine ⟨if_pos h, ?_⟩
  obtain ⟨done, open?⟩ := reader
  cases done with
  | none => rfl
  | some document => cases h

section

variable {α : Type} (frame : List α → Bool → Frame) (tokensOf : α → List Token)
variable (outer : List Frame)

/-- **Lists with commas between them.** What is read one after the other
into an open frame is in it at the end, the last one first. -/
theorem foldlM_intercalate
    (hcomma : ∀ done, step { open? := frame done false :: outer } .comma =
      some { open? := frame done true :: outer }) (items : List α) :
    ∀ item done,
      (∀ other ∈ item :: items, ∀ done,
        (tokensOf other).foldlM step { open? := frame done true :: outer } =
          some { open? := frame (other :: done) false :: outer }) →
      ([.comma].intercalate ((item :: items).map tokensOf)).foldlM step
          { open? := frame done true :: outer } =
        some { open? := frame (items.reverse ++ item :: done) false :: outer } := by
  induction items with
  | nil =>
    intro item done h
    rw [List.map_singleton, List.intercalate_singleton]
    exact h item (by simp) done
  | cons next items ih =>
    intro item done h
    have hitem := h item (by simp) done
    have hothers := ih next (item :: done) fun other hmem => h other (List.mem_cons_of_mem _ hmem)
    rw [List.map_cons, List.map_cons, List.intercalate_cons_cons, List.append_assoc,
      List.foldlM_append, hitem, List.singleton_append, Option.bind_eq_bind, Option.bind_some,
      List.foldlM_cons, hcomma, Option.bind_eq_bind, Option.bind_some]
    simpa using hothers

/-- All that stands between two brackets. -/
theorem foldlM_between
    (hcomma : ∀ done, step { open? := frame done false :: outer } .comma =
      some { open? := frame done true :: outer }) (items : List α)
    (h : ∀ item ∈ items, ∀ done,
      (tokensOf item).foldlM step { open? := frame done true :: outer } =
        some { open? := frame (item :: done) false :: outer }) :
    ([.comma].intercalate (items.map tokensOf)).foldlM step { open? := frame [] true :: outer } =
      some { open? := frame items.reverse items.isEmpty :: outer } := by
  cases items with
  | nil => rfl
  | cons item items =>
    rw [foldlM_intercalate frame tokensOf outer hcomma items item [] h, List.reverse_cons,
      List.isEmpty_cons]

end

/-- **A document is read as one value, wherever a value is expected.** -/
theorem foldlM_tokens (document : Document) : ∀ reader : Reader, reader.expectsValue →
    document.tokens.foldlM step reader = reader.supply document := by
  induction document with
  | null | bool _ | number _ =>
    intro reader _
    simp [tokens, step]
  | string content =>
    intro reader h
    simp [tokens, step_string h]
  | array items ih =>
    intro reader h
    obtain ⟨henter, hreader⟩ := enter_of_expectsValue h (.array [] true)
    have hitems := foldlM_between .array tokens reader.open? (fun _ => rfl) items
      fun item hitem done => ih item hitem { open? := .array done true :: reader.open? } rfl
    rw [tokens, tokensOfItems_eq_map, List.foldlM_cons, step, henter]
    simp [List.foldlM_append, hitems, step, hreader]
  | object fields ih =>
    intro reader h
    obtain ⟨henter, hreader⟩ := enter_of_expectsValue h (.object [] true)
    -- a field's name and colon leave its value to be read
    have hfields := foldlM_between .object tokensOfField reader.open? (fun _ => rfl) fields
      fun field hfield done =>
        ih field hfield { open? := .value done field.1 :: reader.open? } rfl
    rw [tokens, tokensOfFields_eq_map, List.foldlM_cons, step, henter]
    simp [List.foldlM_append, hfields, step, hreader]

end Reader

/-- **A text is read as the document that it spells.** -/
theorem parse?_of_spelledBy {document : Document} {text : String}
    (h : document.SpelledBy text) : parse? text = some document := by
  have hread : document.tokens.foldlM Reader.step {} = some { done := some document } :=
    Reader.foldlM_tokens document {} rfl
  simp [parse?, scan_of_spelledBy h, ofTokens?, hread]

end Document

end TypedAttr
