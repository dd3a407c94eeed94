/-!
# How elements are read and written

Two choices: whether text becomes text, and which members of compounds take
part.
-/

namespace TypedAttr

/-- Which members of compounds take part. Members are named by path. Those
that are compounds themselves, or arrays of them, always do; the choice is
made among what is in them. -/
inductive MemberSelection where
  | all
  | only (paths : List String)
  deriving DecidableEq, Inhabited

namespace MemberSelection

/-- Whether the member at a path takes part. -/
def includes : MemberSelection → (path : String) → Bool
  | .all, _ => true
  | .only paths, path => path ∈ paths

/-- Whether no choice was made. -/
def isAll : MemberSelection → Bool
  | .all => true
  | .only _ => false

end MemberSelection

/-- How elements are read and written. -/
structure ElementOptions where
  /-- Whether fixed-width text becomes text instead of bytes. -/
  convertText : Bool := true
  members : MemberSelection := .all
  deriving DecidableEq, Inhabited

end TypedAttr
