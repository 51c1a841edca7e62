import StructLayout.Check
import StructLayout.CommandLine.Arguments
import StructLayout.CommandLine.Program
import StructLayout.Config.Basic
import StructLayout.Config.File
import StructLayout.Config.Plan
import StructLayout.Config.Reader
import StructLayout.Context
import StructLayout.Digest.Sha1
import StructLayout.Files.Disk
import StructLayout.Files.Tree
import StructLayout.Identity
import StructLayout.Json.Reader
import StructLayout.Json.Value
import StructLayout.Layout.Align
import StructLayout.Layout.Offsets
import StructLayout.Layout.Struct
import StructLayout.Locator
import StructLayout.Main
import StructLayout.OrderedMap
import StructLayout.Output.Destination
import StructLayout.Output.Emitter
import StructLayout.Package.Load
import StructLayout.Package.Store
import StructLayout.Path
import StructLayout.Pattern.Basic
import StructLayout.Pattern.CharSet
import StructLayout.Pattern.Nested
import StructLayout.Pattern.Reader
import StructLayout.Pattern.SetReader
import StructLayout.Platform
import StructLayout.Platform.Extent
import StructLayout.Proofs.Check.Cache
import StructLayout.Proofs.Check.Denotation
import StructLayout.Proofs.Check.FileOrder
import StructLayout.Proofs.Check.Fresh
import StructLayout.Proofs.Check.Packages
import StructLayout.Proofs.Check.Parts
import StructLayout.Proofs.Check.Recursion
import StructLayout.Proofs.Check.Reload
import StructLayout.Proofs.Check.Scopes
import StructLayout.Proofs.Check.Sight
import StructLayout.Proofs.Check.Sites
import StructLayout.Proofs.Layout.Extents
import StructLayout.Proofs.Layout.Places
import StructLayout.Proofs.Layout.Types
import StructLayout.Proofs.Numeral
import StructLayout.Proofs.Package.Loading
import StructLayout.Proofs.Run.Contexts
import StructLayout.Proofs.Run.Writing
import StructLayout.Proofs.Sequence
import StructLayout.Proofs.Source.Alignment
import StructLayout.Proofs.Source.Bare
import StructLayout.Proofs.Source.Blocks
import StructLayout.Proofs.Source.Braces
import StructLayout.Proofs.Source.Brackets
import StructLayout.Proofs.Source.Carried
import StructLayout.Proofs.Source.Columns
import StructLayout.Proofs.Source.Comments
import StructLayout.Proofs.Source.Completeness
import StructLayout.Proofs.Source.Context
import StructLayout.Proofs.Source.Copies
import StructLayout.Proofs.Source.Cuts
import StructLayout.Proofs.Source.Declared
import StructLayout.Proofs.Source.Embedded
import StructLayout.Proofs.Source.Fields
import StructLayout.Proofs.Source.Fills
import StructLayout.Proofs.Source.Grammar
import StructLayout.Proofs.Source.Headers
import StructLayout.Proofs.Source.Identities
import StructLayout.Proofs.Source.IdentityOrder
import StructLayout.Proofs.Source.Integers
import StructLayout.Proofs.Source.LineStarts
import StructLayout.Proofs.Source.Lines
import StructLayout.Proofs.Source.Literals
import StructLayout.Proofs.Source.Locators
import StructLayout.Proofs.Source.Nesting
import StructLayout.Proofs.Source.Positions
import StructLayout.Proofs.Source.Printed
import StructLayout.Proofs.Source.Readers
import StructLayout.Proofs.Source.Reread
import StructLayout.Proofs.Source.Rewritten
import StructLayout.Proofs.Source.RoundTrip
import StructLayout.Proofs.Source.Scopes
import StructLayout.Proofs.Source.Spans
import StructLayout.Proofs.Source.Spelling
import StructLayout.Proofs.Source.Splice
import StructLayout.Proofs.Source.Sync
import StructLayout.Proofs.Source.Tiling
import StructLayout.Proofs.Source.Tokens
import StructLayout.Proofs.Source.Walks
import StructLayout.Proofs.Source.Weaves
import StructLayout.Proofs.Source.Written
import StructLayout.Proofs.Strategy.CacheLines
import StructLayout.Proofs.Strategy.Curated
import StructLayout.Proofs.Strategy.FreeForm
import StructLayout.Proofs.Strategy.Gaps
import StructLayout.Proofs.Strategy.Groups
import StructLayout.Proofs.Strategy.Names
import StructLayout.Proofs.Strategy.Notes
import StructLayout.Proofs.Strategy.Packing
import StructLayout.Proofs.Strategy.Paddings
import StructLayout.Proofs.Strategy.Pipes
import StructLayout.Proofs.Strategy.RealFields
import StructLayout.Proofs.Strategy.Recording
import StructLayout.Proofs.Strategy.Repeats
import StructLayout.Proofs.Strategy.Replays
import StructLayout.Proofs.Strategy.Signatures
import StructLayout.Proofs.Strategy.Unpacking
import StructLayout.Proofs.Tag.Annotations
import StructLayout.Proofs.Tag.Edits
import StructLayout.Proofs.Tag.Lookups
import StructLayout.Proofs.Tag.Readback
import StructLayout.Proofs.Text.Pieces
import StructLayout.Proofs.Visit.Arrival
import StructLayout.Proofs.Visit.Claims
import StructLayout.Proofs.Visit.Conversion
import StructLayout.Proofs.Visit.Curation
import StructLayout.Proofs.Visit.Nesting
import StructLayout.Proofs.Visit.Outcome
import StructLayout.Proofs.Visit.Packing
import StructLayout.Proofs.Visit.Progress
import StructLayout.Proofs.Visit.Schedule
import StructLayout.Proofs.Visit.Sharing
import StructLayout.Proofs.Visit.Slots
import StructLayout.Proofs.Visit.Stages
import StructLayout.Proofs.Visit.WriteBack
import StructLayout.Reconcile
import StructLayout.Resolve
import StructLayout.Results
import StructLayout.Run.Error
import StructLayout.Run.Outcome
import StructLayout.Run.Plan
import StructLayout.Run.Watch
import StructLayout.Scope
import StructLayout.Source.Cursor
import StructLayout.Source.Declaration
import StructLayout.Source.File
import StructLayout.Source.Literal
import StructLayout.Source.Position
import StructLayout.Source.Printer
import StructLayout.Source.SpecReader
import StructLayout.Source.Sync
import StructLayout.Source.Token
import StructLayout.Source.TypeReader
import StructLayout.Strategy.Error
import StructLayout.Strategy.Note
import StructLayout.Strategy.Order
import StructLayout.Strategy.Padding
import StructLayout.Strategy.Pipe
import StructLayout.Strategy.Registry
import StructLayout.Strategy.Replay
import StructLayout.Strategy.Tagging
import StructLayout.Strategy.Transform
import StructLayout.Tag.Annotation
import StructLayout.Tag.Entries
import StructLayout.Text.Alphanumeric
import StructLayout.Text.Blank
import StructLayout.Text.Bytes
import StructLayout.Text.CaseVariants
import StructLayout.Text.Numeral
import StructLayout.Text.Printable
import StructLayout.Text.Quoted
import StructLayout.Text.Ranges
import StructLayout.Text.Rest
import StructLayout.Text.Uppercase
import StructLayout.Total
import StructLayout.Ty
import StructLayout.Visit.Backref
import StructLayout.Visit.Convert
import StructLayout.Visit.Order
import StructLayout.Visit.Run
import StructLayout.Visit.State
