import TypedAttr.Data.Selection
import TypedAttr.Value.Basic
/-!
# Attribute data

All elements of an attribute in the form that is natural to its type:
numbers as words of one kind, texts, tokens, and anything with structure as
values.
-/

namespace TypedAttr

/-- All elements of an attribute. -/
inductive Data where
  | ints (kind : IntKind) (words : List (BitVec kind.bits))
  | floats (format : FloatFormat) (patterns : List (BitVec format.bits))
  | texts (items : List String)
  /-- The packed bytes of all elements. -/
  | raw (bytes : Bytes)
  | tokens (items : List Token)
  | values (items : List Value)
  deriving Inhabited

namespace Data

/-- The count of items; packed bytes count as one item each. -/
def length : Data → Nat
  | .ints _ words => words.length
  | .floats _ patterns => patterns.length
  | .texts items => items.length
  | .raw bytes => bytes.length
  | .tokens items => items.length
  | .values items => items.length

/-- The name of the kind of items. -/
def kindName : Data → String
  | .ints kind _ => kind.name
  | .floats format _ => format.name
  | .texts _ => "strings"
  | .raw _ => "bytes"
  | .tokens _ => "references"
  | .values _ => "values"

/-- Whether the data are floats of sixteen bytes, which are never written. -/
def isWideFloat : Data → Bool
  | .floats .quad _ => true
  | _ => false

/-- The tokens in the data. Unsigned words of eight bytes are addresses. -/
def tokens? : Data → Option (List Token)
  | .tokens items => some items
  | .ints ⟨.eight, false⟩ words => some (words.map Token.ofAddress)
  | _ => none

/-- The frame that is shown, the elements being `group` items each, if a word
counts the items in it. What the data do not reach is zero, empty, null or
missing, as the items are. -/
def select? (selection : Selection) (group : Nat) : Data → Option Data
  | .ints kind words => (selectFrame? words group selection 0).map (.ints kind)
  | .floats format patterns => (selectFrame? patterns group selection 0).map (.floats format)
  | .texts items => (selectFrame? items group selection "").map .texts
  | .raw bytes => (selectFrame? bytes group selection 0).map .raw
  | .tokens items =>
    (selectFrame? items group selection (.null ((items.head?.map Token.size).getD 0))).map .tokens
  | .values items => (selectFrame? items group selection (.failure .missing)).map .values

/-- How many items an element of a type is in data read from it. -/
def groupOf (type : Datatype) : Data → Nat
  | .raw _ => type.size
  | .floats .quad _ => type.arrayLength
  | _ => 1

/-- The part of the data that a selection shows: all of it up to two axes,
one frame beyond, if a word counts what is in it. -/
def applySelection (type : Datatype) (selection : Selection) (data : Data) : Option Data :=
  if selection.rank ≤ 2 then some data else data.select? selection (data.groupOf type)

end Data

end TypedAttr
