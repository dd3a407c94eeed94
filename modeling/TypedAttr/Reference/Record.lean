import TypedAttr.Reference.Token
/-!
# Reference records

What is known of one token: the file and the object it names, the attribute
or the region in it, and of what kind it is. A text that is not known is
`Record.unset`, and the texts made of a record join only the parts that are
known.
-/

namespace TypedAttr

/-- The kinds of tokens. -/
inductive ReferenceKind where
  /-- The kind is not known. -/
  | unknown
  /-- The address of an object. -/
  | objectAddress
  /-- A region of a dataset, in the short form. -/
  | regionAddress
  | object
  | region
  | attribute
  | other
  deriving DecidableEq, Inhabited

namespace ReferenceKind

/-- The name of a kind. -/
def name : ReferenceKind → String
  | .unknown => "H5R_BADTYPE"
  | .objectAddress => "H5R_OBJECT1"
  | .regionAddress => "H5R_DATASET_REGION1"
  | .object => "H5R_OBJECT2"
  | .region => "H5R_DATASET_REGION2"
  | .attribute => "H5R_ATTR"
  | .other => "H5R_OTHER"

/-- All kinds, the unknown one first. -/
def all : List ReferenceKind :=
  [.unknown, .objectAddress, .regionAddress, .object, .region, .attribute, .other]

/-- The kind of a name. -/
def ofName? (name : String) : Option ReferenceKind := all.find? (·.name == name)

/-- Whether tokens of the kind name objects. -/
def isObject : ReferenceKind → Bool
  | .objectAddress | .object => true
  | _ => false

/-- Whether tokens of the kind name regions. -/
def isRegion : ReferenceKind → Bool
  | .regionAddress | .region => true
  | _ => false

end ReferenceKind

/-- What an object is. -/
inductive ObjectType where
  | group
  | dataset
  | namedDatatype
  | unknown (code : Int)
  deriving DecidableEq

instance : Inhabited ObjectType := ⟨.unknown (-1)⟩

/-- The text of an object's type. -/
def ObjectType.render : ObjectType → String
  | .group => "GROUP"
  | .dataset => "DATASET"
  | .namedDatatype => "DATATYPE"
  | .unknown code => s!"UNKNOWN {code}"

/-- What the region part of a reference turned out to be. -/
inductive RegionType where
  /-- Nothing is known. -/
  | unset
  | points
  | blocks
  /-- A region that is given neither by points nor by blocks. -/
  | otherRegion
  /-- No region but an object. -/
  | object
  | attribute
  /-- The kind of reference has no region part that is known. -/
  | unknown
  deriving DecidableEq, Inhabited

namespace Record

/-- What stands for a text that is not known. -/
def unset : String := "NULL"

/-- Whether a text is known. -/
def isSet (text : String) : Bool := text != unset

end Record

/-- The text of a region's type. -/
def RegionType.render : RegionType → String
  | .unset => Record.unset
  | .points => "REGION_TYPE POINT"
  | .blocks => "REGION_TYPE BLOCK"
  | .otherRegion => "REGION_TYPE UNKNOWN"
  | .object => "H5O_TYPE_OBJ_REF"
  | .attribute => "H5R_ATTR"
  | .unknown => "UNKNOWN"

/-- All types of regions, the unset one first. -/
def RegionType.all : List RegionType :=
  [.unset, .points, .blocks, .otherRegion, .object, .attribute, .unknown]

/-- The type of a region that has a text. -/
def RegionType.ofText? (text : String) : Option RegionType := all.find? (·.render == text)

/-- How a dataspace's selection is given. -/
inductive SelectionType where
  | none
  | points
  | hyperslabs
  | all
  deriving DecidableEq, Inhabited

/-- The name of a way to give a selection. -/
def SelectionType.name : SelectionType → String
  | .none => "none"
  | .points => "points"
  | .hyperslabs => "hyperslabs"
  | .all => "all"

/-- What is known of one token. -/
structure Record where
  token : Token
  filePath : String := Record.unset
  fileName : String := Record.unset
  objectName : String := Record.unset
  attributeName : String := Record.unset
  kind : ReferenceKind := .unknown
  objectType : ObjectType := .unknown (-1)
  regionType : RegionType := .unset
  regionText : String := Record.unset
  /-- The rank of the dataspace that was looked at. -/
  regionRank : Option Nat := none
  deriving DecidableEq

namespace Record

/-- The record of which nothing is known. -/
def null (token : Token) : Record := { token := token }

instance : Inhabited Record := ⟨null ⟨[]⟩⟩

/-- Whether a record names nothing. -/
def isNull (record : Record) : Bool :=
  !isSet record.filePath && !isSet record.objectName && !isSet record.attributeName &&
    record.regionType = .unset && !isSet record.regionText

/-- A text and a part after it, a separator between them unless the text is
empty. -/
def join (text separator part : String) : String :=
  if text.isEmpty then part else text ++ separator ++ part

/-- A text and a part after it, if the part is known. -/
def joinSet (text separator part : String) : String :=
  if isSet part then join text separator part else text

/-- A text if it is known, else none of it. -/
def setOrEmpty (text : String) : String := if isSet text then text else ""

/-- The object, the attribute below it, and the region. -/
def objectReferenceName (record : Record) : String :=
  joinSet (joinSet (setOrEmpty record.objectName) "/" record.attributeName) " " record.regionText

/-- The file, the object, the attribute below it, and the region. -/
def fullReferenceName (record : Record) : String :=
  joinSet
    (joinSet (joinSet (setOrEmpty record.fileName) "/" record.objectName) "/"
      record.attributeName)
    " " record.regionText

/-- The region's type and text. -/
def regionDataset (record : Record) : String :=
  joinSet record.regionType.render " " record.regionText

/-- The file, the object right after it, since its path begins with a
stroke, and the attribute. -/
def objectPart (record : Record) : String :=
  joinSet (setOrEmpty record.fileName ++ setOrEmpty record.objectName) "/" record.attributeName

/-- The region's type, if there is one, and its text. -/
def regionPart (record : Record) : String :=
  joinSet (if record.regionType = .unset then "" else record.regionType.render) " "
    record.regionText

/-- The object part and the region part. A region part has a space before it
even if there is no object part. -/
def referenceRegion (record : Record) : String :=
  let whole :=
    if record.regionPart.isEmpty then record.objectPart
    else record.objectPart ++ " " ++ record.regionPart
  if whole.isEmpty then unset else whole

end Record

end TypedAttr
