import TypedAttr.Attribute.Basic
import TypedAttr.Datatype.Valid
import TypedAttr.Memory.Attribute
import TypedAttr.Proofs.Backend.Keeps
import TypedAttr.Proofs.Element.Conforming
import TypedAttr.Proofs.Element.NormalForm
import TypedAttr.Proofs.Number.Range
import TypedAttr.Proofs.Text.Slot
import TypedAttr.Settings.File
import TypedAttr.Value.Text
import TypedAttr.Proofs.Memory.Transaction
import TypedAttr.Proofs.Data.Payload
import TypedAttr.Proofs.Attribute.Calls
import TypedAttr.Proofs.Attribute.Readable
import TypedAttr.Proofs.Attribute.Freshness
import TypedAttr.Proofs.Reference.Recency
import TypedAttr.Proofs.Memory.Degradation
import TypedAttr.Proofs.Memory.CachedRecords
import TypedAttr.Proofs.Memory.World
import TypedAttr.Proofs.Data.ReadForms
import TypedAttr.Proofs.Data.WriteForms
import TypedAttr.Proofs.Data.Rejection
import TypedAttr.Proofs.Memory.Rejection
import TypedAttr.Proofs.Attribute.AllOrNothing
import TypedAttr.Proofs.Element.Layout
import TypedAttr.Proofs.Element.NeverWritten
import TypedAttr.Proofs.Element.Projection
import TypedAttr.Proofs.Element.Placing
import TypedAttr.Proofs.Memory.RegionReferences
import TypedAttr.Proofs.Memory.Knowledge
import TypedAttr.Proofs.Reference.Parts
import TypedAttr.Proofs.Attribute.WrittenPaths
import TypedAttr.Proofs.Attribute.PlainWrites
import TypedAttr.Proofs.Data.Words
import TypedAttr.Proofs.Attribute.WrittenIntegers
import TypedAttr.Proofs.Attribute.WrittenTexts
import TypedAttr.Proofs.Text.Cut
import TypedAttr.Proofs.Text.Refill
import TypedAttr.Proofs.Element.Resaving
import TypedAttr.Proofs.Data.TextSlots
import TypedAttr.Proofs.Data.Resaving
import TypedAttr.Proofs.Attribute.Resaving
import TypedAttr.Proofs.Reference.Texts
import TypedAttr.Proofs.Memory.Ledger
import TypedAttr.Proofs.Memory.Naming
import TypedAttr.Proofs.Element.PaddedText
import TypedAttr.Proofs.Datatype.Packing
import TypedAttr.Proofs.Element.Concatenation
import TypedAttr.Proofs.Element.Footprint
import TypedAttr.Proofs.Element.Mirroring
import TypedAttr.Proofs.Data.Frames
import TypedAttr.Proofs.Data.Counts
import TypedAttr.Proofs.Attribute.Counts
import TypedAttr.Proofs.Element.LeafSelection
import TypedAttr.Proofs.Reference.MoreRoom
import TypedAttr.Proofs.Reference.Noting
import TypedAttr.Proofs.Reference.Visits
import TypedAttr.Proofs.Memory.MoreRoom
import TypedAttr.Proofs.Reference.Revisits
import TypedAttr.Proofs.Attribute.ReferenceRecords
import TypedAttr.Proofs.Backend.Requests
import TypedAttr.Proofs.Attribute.Releases
import TypedAttr.Proofs.Element.SwappedOrder
import TypedAttr.Proofs.Element.SwappedEncoding
import TypedAttr.Proofs.Data.SwappedOrder
import TypedAttr.Proofs.Attribute.SwappedOrder
import TypedAttr.Proofs.Number.Narrowing
import TypedAttr.Proofs.Datatype.Validation
import TypedAttr.Proofs.Element.Bounds
import TypedAttr.Proofs.Memory.Renderings
import TypedAttr.Proofs.Datatype.LeafNames
import TypedAttr.Proofs.Element.IntegerSlots
import TypedAttr.Proofs.Element.SingleLeaf
import TypedAttr.Proofs.Settings.Spelling
import TypedAttr.Proofs.Settings.Reading
import TypedAttr.Proofs.Settings.Saved
import TypedAttr.Proofs.Reference.RegionTexts
