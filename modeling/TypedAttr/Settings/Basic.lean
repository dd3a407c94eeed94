import TypedAttr.Element.Options
/-!
# Settings

Three choices that a user makes once.
-/

namespace TypedAttr

/-- The choices of a user. -/
structure Settings where
  /-- Whether fixed-width text becomes text instead of bytes. -/
  convertText : Bool := true
  /-- How many records of references are kept; zero means any number. -/
  cacheCapacity : UInt64 := 4096
  /-- To how many characters the text of a reference is cut; zero means no
  limit. -/
  displayLimit : UInt64 := 0
  deriving DecidableEq, Inhabited

namespace Settings

/-- The choices of those who made none. -/
def defaults : Settings := {}

/-- How elements are read and written: with all members. -/
def elementOptions (settings : Settings) : ElementOptions :=
  { convertText := settings.convertText }

end Settings

end TypedAttr
