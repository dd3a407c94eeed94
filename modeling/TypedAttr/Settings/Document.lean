import TypedAttr.Settings.Token
/-!
# JSON documents

The tokens of a document are put together with a stack of what is open, one
token after the other. Fields of objects keep their order, and fields of the
same name are all kept.
-/

namespace TypedAttr

/-- What a document holds. A name or a string without content stands for
escapes that make no text. -/
inductive Document where
  | null
  | bool (value : Bool)
  | number (text : Document.NumberText)
  | string (content : Option String)
  | array (items : List Document)
  | object (fields : List (Option String × Document))
  deriving Inhabited

namespace Document

/-- What is open, and what is expected in it. Items and fields are kept the
last one first. -/
inductive Frame where
  /-- An array; `expectsItem` after its opening bracket or a comma. -/
  | array (items : List Document) (expectsItem : Bool)
  /-- An object between fields; `expectsField` after its opening brace or a
  comma. -/
  | object (fields : List (Option String × Document)) (expectsField : Bool)
  /-- An object after the name of a field. -/
  | name (fields : List (Option String × Document)) (name : Option String)
  /-- An object after the colon of a field. -/
  | value (fields : List (Option String × Document)) (name : Option String)
  deriving Inhabited

/-- Where reading stands: the whole document, if it is complete, and the
frames that are open, the innermost first. -/
structure Reader where
  done : Option Document := none
  open? : List Frame := []
  deriving Inhabited

namespace Reader

/-- A complete value goes to where it is expected. -/
def supply (reader : Reader) (value : Document) : Option Reader :=
  match reader.done, reader.open? with
  | none, [] => some { done := some value }
  | none, .array items true :: outer => some { open? := .array (value :: items) false :: outer }
  | none, .value fields name :: outer =>
    some { open? := .object ((name, value) :: fields) false :: outer }
  | _, _ => none

/-- Whether a value is expected. -/
def expectsValue (reader : Reader) : Bool :=
  match reader.done, reader.open? with
  | none, [] => true
  | none, .array _ true :: _ => true
  | none, .value .. :: _ => true
  | _, _ => false

/-- Opens a frame where a value is expected. -/
def enter (reader : Reader) (frame : Frame) : Option Reader :=
  if reader.expectsValue then some { open? := frame :: reader.open? } else none

/-- A string is the name of a field where one is expected, else a value. -/
def supplyString (reader : Reader) (content : Option String) : Option Reader :=
  match reader.open? with
  | .object fields true :: outer => some { open? := .name fields content :: outer }
  | _ => reader.supply (.string content)

/-- One more token. An empty array or object may close at once, but not
after a comma. -/
def step (reader : Reader) : Token → Option Reader
  | .null => reader.supply .null
  | .bool value => reader.supply (.bool value)
  | .number text => reader.supply (.number text)
  | .string content => reader.supplyString content
  | .openArray => reader.enter (.array [] true)
  | .openObject => reader.enter (.object [] true)
  | .closeArray =>
    match reader.open? with
    | .array items expectsItem :: outer =>
      if expectsItem && !items.isEmpty then none
      else supply { open? := outer } (.array items.reverse)
    | _ => none
  | .closeObject =>
    match reader.open? with
    | .object fields expectsField :: outer =>
      if expectsField && !fields.isEmpty then none
      else supply { open? := outer } (.object fields.reverse)
    | _ => none
  | .colon =>
    match reader.open? with
    | .name fields name :: outer => some { open? := .value fields name :: outer }
    | _ => none
  | .comma =>
    match reader.open? with
    | .array items false :: outer => some { open? := .array items true :: outer }
    | .object fields false :: outer => some { open? := .object fields true :: outer }
    | _ => none

end Reader

/-- The document of tokens, if they are one and no more. -/
def ofTokens? (tokens : List Token) : Option Document := do
  let reader ← tokens.foldlM Reader.step {}
  if reader.open?.isEmpty then reader.done else none

/-- The document of a text. -/
def parse? (text : String) : Option Document := do ofTokens? (← scan text)

end Document

end TypedAttr
