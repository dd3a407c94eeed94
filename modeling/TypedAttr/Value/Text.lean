import TypedAttr.Value.Basic
import TypedAttr.Number.Shortest
/-!
# Values as text

Numbers are written in decimal, bytes in hexadecimal. Brackets tell arrays,
sequences and compounds apart.
-/

namespace TypedAttr

/-- The text of a failure. -/
def ConversionFailure.render : ConversionFailure → String
  | .unsupportedSize c size => s!"no {c.name} conversion for size {size}"
  | .unsupportedClass c => s!"no conversion for {c.name} class"
  | .truncated needed available => s!"truncated element: need {needed} bytes, have {available}"
  | .variableLength => "variable-length data cannot be decoded from fixed-width bytes"
  | .missingBase c => s!"{c.name} datatype has no base type"
  | .missing => "element not present in the source buffer"

namespace Value

mutual

/-- The text of a value. -/
def render : Value → String
  | .int kind word => toString (kind.toInt word)
  | .float format pattern => format.text pattern
  | .text content => content
  | .bytes raw => raw.hex
  | .enumerated _ (some name) => name
  | .enumerated value none => toString value
  | .address number => toString number.toNat
  | .token name => name.render
  | .array items => "[" ++ ", ".intercalate (renderItems items) ++ "]"
  | .sequence items => "(" ++ ", ".intercalate (renderItems items) ++ ")"
  | .compound fields => "\x7b" ++ ", ".intercalate (renderFields fields) ++ "\x7d"
  | .failure cause => "<error: " ++ cause.render ++ ">"

/-- One text per item. -/
def renderItems : List Value → List String
  | [] => []
  | item :: rest => item.render :: renderItems rest

/-- One text per field, its name first. -/
def renderFields : List (String × Value) → List String
  | [] => []
  | (name, value) :: rest => (name ++ "=" ++ value.render) :: renderFields rest

end

end Value

/-- The text that tells a quad's pattern. -/
def Quad.debugText (pattern : Quad.Pattern) : String :=
  s!"WideDecimal(0x{Bytes.hexOfNat 16 pattern.toNat})"

end TypedAttr
