import TypedAttr.Reference.Record
/-!
# Record caches

Records are kept by token. When a cache is full, the record that was not
used for the longest time makes place for a new one. Every use of the cache
counts, and a record carries the count of its last use.
-/

namespace TypedAttr

/-- A record and when it was last used. -/
structure StampedRecord where
  record : Record
  lastUsed : Nat
  deriving DecidableEq, Inhabited

/-- Records by token. -/
structure RecordCache where
  /-- How many records are kept at most; zero means any number. -/
  capacity : Nat
  entries : List (Token × StampedRecord) := []
  /-- How often the cache was used. -/
  uses : Nat := 0
  deriving DecidableEq, Inhabited

namespace RecordCache

/-- A cache without records. -/
def ofCapacity (capacity : Nat) : RecordCache := { capacity := capacity }

/-- A cache that keeps any number of records. -/
def unbounded : RecordCache := ofCapacity 0

/-- The count of records. -/
def size (cache : RecordCache) : Nat := cache.entries.length

/-- Whether there are no records. -/
def isEmpty (cache : RecordCache) : Bool := cache.entries.isEmpty

/-- The entry of a token. -/
def find? (cache : RecordCache) (token : Token) : Option StampedRecord :=
  (cache.entries.find? fun entry => entry.1 = token).map (·.2)

/-- Whether there is a record of a token. This is no use of it. -/
def contains (cache : RecordCache) (token : Token) : Bool := (cache.find? token).isSome

/-- The record of a token, which is thereby used. -/
def get (cache : RecordCache) (token : Token) : Option Record × RecordCache :=
  let now := cache.uses + 1
  match cache.find? token with
  | none => (none, { cache with uses := now })
  | some stamped =>
    let touch (entry : Token × StampedRecord) : Token × StampedRecord :=
      if entry.1 = token then (entry.1, { entry.2 with lastUsed := now }) else entry
    (some stamped.record, { cache with entries := cache.entries.map touch, uses := now })

/-- The entry whose last use is the earliest. -/
def oldest? : List (Token × StampedRecord) → Option (Token × StampedRecord)
  | [] => none
  | entry :: rest =>
    match oldest? rest with
    | none => some entry
    | some other => if other.2.lastUsed < entry.2.lastUsed then some other else some entry

/-- The cache without one entry, the one whose last use is the earliest. -/
def evict (cache : RecordCache) : RecordCache :=
  match oldest? cache.entries with
  | none => cache
  | some (token, _) => { cache with entries := cache.entries.filter (·.1 ≠ token) }

/-- Whether a new record would be one too many. -/
def isFull (cache : RecordCache) : Bool :=
  0 < cache.capacity && cache.capacity ≤ cache.size

/-- Keeps a record in place of an older one of the same token. A new one may
push another out. -/
def insert (cache : RecordCache) (record : Record) : RecordCache :=
  let roomy :=
    if cache.isFull && !cache.contains record.token then cache.evict else cache
  let now := roomy.uses + 1
  { roomy with
    entries := (record.token, ⟨record, now⟩) :: roomy.entries.filter (·.1 ≠ record.token)
    uses := now }

/-- The cache without its records. -/
def clear (cache : RecordCache) : RecordCache := { cache with entries := [] }

end RecordCache

end TypedAttr
