/-!
# Errors

Every operation that can fail does so with one of these causes. `message`
is the one place that words them.
-/

namespace TypedAttr

/-- Why an operation failed. -/
inductive Error where
  /-- The operation is rejected before the backend is asked. -/
  | unsupported (what : String)
  /-- The attribute cannot be written. -/
  | readOnly
  /-- The caller's data is not of the attribute's type. -/
  | typeMismatch (expected actual : String)
  /-- A buffer has the wrong count of bytes or elements. -/
  | sizeMismatch (expected actual : Nat)
  /-- A value has no stored form. -/
  | conversion (reason : String)
  /-- A type tree is malformed. -/
  | invalidDatatype (reason : String)
  /-- A handle could not be had. -/
  | handleOpen (kind reason : String)
  /-- The backend could not read. -/
  | readFailed (reason : String)
  /-- The backend could not write. -/
  | writeFailed (reason : String)
  /-- A look-up on a reference failed. -/
  | resolution (reason : String)
  /-- A named thing does not exist. -/
  | notFound (what : String)
  /-- A settings file is malformed. -/
  | invalidSettings (reason : String)
  /-- A file could not be read. -/
  | unreadable (reason : String)
  /-- Bytes are not text. -/
  | invalidUtf8 (reason : String)
  /-- A document is malformed. -/
  | malformedJson (reason : String)
  /-- Any other cause, told by the one who met it. -/
  | other (message : String)
  deriving DecidableEq, Inhabited

namespace Error

/-- The text of an error. -/
def message : Error → String
  | .unsupported what => s!"Unsupported operation: {what}"
  | .readOnly => "Attribute is read-only"
  | .typeMismatch expected actual => s!"Type mismatch: expected {expected}, got {actual}"
  | .sizeMismatch expected actual => s!"Size mismatch: expected {expected}, got {actual}"
  | .conversion reason => s!"Data conversion failure: {reason}"
  | .invalidDatatype reason => s!"Invalid datatype: {reason}"
  | .handleOpen kind reason => s!"Failed to open {kind} handle: {reason}"
  | .readFailed reason => s!"Read failed: {reason}"
  | .writeFailed reason => s!"Write failed: {reason}"
  | .resolution reason => s!"Reference resolution failed: {reason}"
  | .notFound what => s!"Not found: {what}"
  | .invalidSettings reason => s!"Invalid settings: {reason}"
  | .unreadable reason => s!"I/O error: {reason}"
  | .invalidUtf8 reason => s!"Invalid UTF-8: {reason}"
  | .malformedJson reason => s!"JSON error: {reason}"
  | .other message => message

/-- Whether an error is a rejection of the operation as such. -/
def isUnsupported : Error → Bool
  | .unsupported _ => true
  | _ => false

end Error

end TypedAttr
