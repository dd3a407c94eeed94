import TypedAttr.Bytes.Hex
/-!
# Tokens of JSON documents

A document is read in two steps. Here its text becomes a list of tokens, by
the strict rules: no token is cut short, numbers have no superfluous zeros,
strings hold no control characters, and only four characters count as space.

A string may hold escapes that make no text, halves of surrogate pairs that
stand alone. Such a string is a token all the same; only its content is
missing.
-/

namespace TypedAttr

namespace Document

/-- A number as it is written: its sign, its digits, and whether digits are
all there is to it. -/
structure NumberText where
  negative : Bool
  digits : List Char
  /-- Whether there is neither a fraction nor an exponent. -/
  plain : Bool
  deriving DecidableEq, Inhabited

/-- A token. -/
inductive Token where
  | openObject
  | closeObject
  | openArray
  | closeArray
  | colon
  | comma
  | null
  | bool (value : Bool)
  | number (text : NumberText)
  /-- A string, with its content if that is text. -/
  | string (content : Option String)
  deriving DecidableEq, Inhabited

/-! ## Strings -/

/-- The value of a hexadecimal digit, in either case. -/
def hexValue? (c : Char) : Option Nat := Bytes.digitValue? c.toLower

/-- The value of four hexadecimal digits. -/
def hexUnit? (a b c d : Char) : Option Nat := do
  return (((← hexValue? a) * 16 + (← hexValue? b)) * 16 + (← hexValue? c)) * 16 + (← hexValue? d)

/-- The character that an escape of one character stands for. -/
def escaped? : Char → Option Char
  | '"' => some '"'
  | '\\' => some '\\'
  | '/' => some '/'
  | 'b' => some '\x08'
  | 'f' => some '\x0c'
  | 'n' => some '\n'
  | 'r' => some '\r'
  | 't' => some '\t'
  | _ => none

/-- The code units of a string after its opening quote, and what follows the
closing one. A character stands for its code point. -/
def scanString : List Char → Option (List Nat × List Char)
  | [] => none
  | '"' :: rest => some ([], rest)
  | '\\' :: 'u' :: a :: b :: c :: d :: rest => do
    let unit ← hexUnit? a b c d
    let (units, rest) ← scanString rest
    return (unit :: units, rest)
  | '\\' :: c :: rest => do
    let c ← escaped? c
    let (units, rest) ← scanString rest
    return (c.toNat :: units, rest)
  | c :: rest =>
    if c.toNat < 0x20 then none
    else do
      let (units, rest) ← scanString rest
      return (c.toNat :: units, rest)

/-- The characters of code units. Two units of a surrogate pair are one
character, and one alone is none. -/
def charactersOf? : List Nat → Option (List Char)
  | [] => some []
  | unit :: rest =>
    if 0xDC00 ≤ unit && unit ≤ 0xDFFF then none
    else if 0xD800 ≤ unit && unit ≤ 0xDBFF then
      match rest with
      | [] => none
      | low :: rest =>
        if 0xDC00 ≤ low && low ≤ 0xDFFF then do
          let point := 0x10000 + (unit - 0xD800) * 0x400 + (low - 0xDC00)
          return Char.ofNat point :: (← charactersOf? rest)
        else none
    else do return Char.ofNat unit :: (← charactersOf? rest)

/-! ## Numbers -/

/-- The digits at the front, at least one, and what follows them. -/
def scanDigits? (text : List Char) : Option (List Char × List Char) :=
  match text.span Char.isDigit with
  | ([], _) => none
  | found => some found

/-- The digits of a whole number, without superfluous zeros before them. -/
def scanWhole? (text : List Char) : Option (List Char × List Char) :=
  match scanDigits? text with
  | some ('0' :: _ :: _, _) => none
  | found => found

/-- What follows a fraction, if there is one. -/
def skipFraction? : List Char → Option (List Char)
  | '.' :: rest => (scanDigits? rest).map (·.2)
  | rest => some rest

/-- What follows the sign of an exponent, if there is one. -/
def skipSign : List Char → List Char
  | '+' :: rest => rest
  | '-' :: rest => rest
  | rest => rest

/-- What follows an exponent, if there is one. -/
def skipExponent? : List Char → Option (List Char)
  | 'e' :: rest => (scanDigits? (skipSign rest)).map (·.2)
  | 'E' :: rest => (scanDigits? (skipSign rest)).map (·.2)
  | rest => some rest

/-- A number after its sign. -/
def scanUnsigned? (negative : Bool) (text : List Char) : Option (NumberText × List Char) := do
  let (digits, afterWhole) ← scanWhole? text
  let afterFraction ← skipFraction? afterWhole
  let rest ← skipExponent? afterFraction
  return (⟨negative, digits, rest.length == afterWhole.length⟩, rest)

/-- A number. -/
def scanNumber? : List Char → Option (NumberText × List Char)
  | '-' :: rest => scanUnsigned? true rest
  | text => scanUnsigned? false text

/-! ## All tokens -/

/-- A character that counts as space. -/
def isSpace (c : Char) : Bool := c = ' ' || c = '\n' || c = '\t' || c = '\r'

/-- The token at the front of a text that does not begin with space, and
what follows it. -/
def scanToken? : List Char → Option (Token × List Char)
  | '\x7b' :: rest => some (.openObject, rest)
  | '\x7d' :: rest => some (.closeObject, rest)
  | '[' :: rest => some (.openArray, rest)
  | ']' :: rest => some (.closeArray, rest)
  | ':' :: rest => some (.colon, rest)
  | ',' :: rest => some (.comma, rest)
  | 'n' :: 'u' :: 'l' :: 'l' :: rest => some (.null, rest)
  | 't' :: 'r' :: 'u' :: 'e' :: rest => some (.bool true, rest)
  | 'f' :: 'a' :: 'l' :: 's' :: 'e' :: rest => some (.bool false, rest)
  | '"' :: rest => do
    let (units, rest) ← scanString rest
    return (.string ((charactersOf? units).map String.ofList), rest)
  | text => do
    let (number, rest) ← scanNumber? text
    return (.number number, rest)

/-- The tokens of a text, at most `fuel` of them. -/
def scanWith : (fuel : Nat) → List Char → Option (List Token)
  | 0, text => if text.all isSpace then some [] else none
  | fuel + 1, text =>
    match text.dropWhile isSpace with
    | [] => some []
    | text => do
      let (token, rest) ← scanToken? text
      return token :: (← scanWith fuel rest)

/-- The tokens of a text. Each takes a character at least, so there are no
more than characters. -/
def scan (text : String) : Option (List Token) := scanWith text.length text.toList

end Document

end TypedAttr
