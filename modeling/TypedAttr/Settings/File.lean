import TypedAttr.Error
import TypedAttr.Settings.Basic
import TypedAttr.Settings.Document
import TypedAttr.Text.Utf8
/-!
# Settings files

Settings are saved as a JSON object with one field each, and read back from
one: in any order, fields that are missing having their defaults, and fields
of other names being passed over. A known field must not occur twice. An
array of up to three items is read as the fields in order.
-/

namespace TypedAttr

namespace Settings

/-! ## Fields -/

/-- The fields of settings. -/
inductive Field where
  | convertText
  | cacheCapacity
  | displayLimit
  deriving DecidableEq, Inhabited

/-- The name of a field in a file. -/
def Field.name : Field → String
  | .convertText => "convert_byte_to_string"
  | .cacheCapacity => "reference_cache_capacity"
  | .displayLimit => "max_display_items"

/-- The fields in the order in which they are saved. -/
def Field.all : List Field := [.convertText, .cacheCapacity, .displayLimit]

/-- The field of a name. -/
def Field.ofName? (name : String) : Option Field := Field.all.find? fun field => field.name == name

/-- A count: a whole number without a sign, below `2 ^ 64`. -/
def count? : Document → Option UInt64
  | .number ⟨false, digits, true⟩ =>
    let n := digits.foldl (fun n c => 10 * n + (c.toNat - '0'.toNat)) 0
    if n < UInt64.size then some (UInt64.ofNat n) else none
  | _ => none

/-- A choice between yes and no. -/
def flag? : Document → Option Bool
  | .bool value => some value
  | _ => none

/-- Settings with one field as a document says. -/
def put? (settings : Settings) (field : Field) (value : Document) : Option Settings :=
  match field with
  | .convertText => (flag? value).map fun flag => { settings with convertText := flag }
  | .cacheCapacity => (count? value).map fun count => { settings with cacheCapacity := count }
  | .displayLimit => (count? value).map fun count => { settings with displayLimit := count }

/-! ## Reading -/

/-- Settings with the fields of an object, those in `seen` being in them
already. -/
def ofFields? (settings : Settings) (seen : List Field) :
    List (Option String × Document) → Option Settings
  | [] => some settings
  | (none, _) :: _ => none
  | (some name, value) :: rest =>
    match Field.ofName? name with
    | none => ofFields? settings seen rest
    | some field =>
      if field ∈ seen then none
      else do ofFields? (← settings.put? field value) (field :: seen) rest

/-- Settings with the items of an array for fields in order. -/
def ofItems? (settings : Settings) : List Field → List Document → Option Settings
  | _, [] => some settings
  | [], _ :: _ => none
  | field :: fields, item :: items => do ofItems? (← settings.put? field item) fields items

/-- The settings that a document holds. -/
def ofDocument? : Document → Option Settings
  | .object fields => ofFields? defaults [] fields
  | .array items => ofItems? defaults Field.all items
  | _ => none

/-- The settings in a text. -/
def ofJson (text : String) : Except Error Settings :=
  match Document.parse? text >>= ofDocument? with
  | some settings => .ok settings
  | none => .error (.malformedJson "not a settings document")

/-- The settings in a file of a path, given the file's bytes if there is
one. -/
def load (path : String) (content : Option Bytes) : Except Error Settings :=
  match content with
  | none => .error (.unreadable s!"{path}: no such file")
  | some bytes =>
    match Text.ofUtf8? bytes with
    | none => .error (.unreadable s!"{path}: not UTF-8")
    | some text =>
      match ofJson text with
      | .ok settings => .ok settings
      | .error _ => .error (.invalidSettings s!"{path}: not a settings document")

/-- The settings in the file that the user named, or the defaults. -/
def loadNamed : Option (String × Option Bytes) → Except Error Settings
  | none => .ok defaults
  | some (path, content) => load path content

/-! ## Saving -/

/-- The saved value of a field. -/
def saved (settings : Settings) : Field → String
  | .convertText => if settings.convertText then "true" else "false"
  | .cacheCapacity => toString settings.cacheCapacity.toNat
  | .displayLimit => toString settings.displayLimit.toNat

/-- One line for a field. -/
def savedLine (settings : Settings) (field : Field) : String :=
  "  \"" ++ field.name ++ "\": " ++ settings.saved field

/-- The text that settings are saved as. -/
def toJson (settings : Settings) : String :=
  "\x7b\n" ++ ",\n".intercalate (Field.all.map settings.savedLine) ++ "\n\x7d"

end Settings

end TypedAttr
