import RegionBacking.Activity
import RegionBacking.Bitmap
import RegionBacking.Bitmap.Edit
import RegionBacking.Bitmap.Family
import RegionBacking.Bitmap.Lemmas
import RegionBacking.Bitmap.Shared
import RegionBacking.Decimal.Binary
import RegionBacking.Decimal.Places
import RegionBacking.Decimal.Shortest
import RegionBacking.Effect
import RegionBacking.Event
import RegionBacking.Event.Text
import RegionBacking.Fault
import RegionBacking.GranuleTable
import RegionBacking.Level
import RegionBacking.Mapper
import RegionBacking.Mapper.Batch
import RegionBacking.Mapper.SharedPages
import RegionBacking.Mapper.Steps
import RegionBacking.Mapper.WholePages
import RegionBacking.MemoryKind
import RegionBacking.Nodes
import RegionBacking.Nodes.Online
import RegionBacking.Op
import RegionBacking.Os.Machine
import RegionBacking.Os.Memory
import RegionBacking.Os.Request
import RegionBacking.PageStore
import RegionBacking.PageStore.Scripted
import RegionBacking.PageStore.Space
import RegionBacking.Pretouch
import RegionBacking.Pretouch.Workers
import RegionBacking.Proofs.Bitmap.Edits
import RegionBacking.Proofs.Bitmap.Enumeration
import RegionBacking.Proofs.Bitmap.Families
import RegionBacking.Proofs.Bitmap.Iteration
import RegionBacking.Proofs.Bitmap.Ranges
import RegionBacking.Proofs.Bitmap.Residents
import RegionBacking.Proofs.Bitmap.Sharing
import RegionBacking.Proofs.Mapper.Alike
import RegionBacking.Proofs.Mapper.Balance
import RegionBacking.Proofs.Mapper.Batch
import RegionBacking.Proofs.Mapper.Books
import RegionBacking.Proofs.Mapper.Clients
import RegionBacking.Proofs.Mapper.Completed
import RegionBacking.Proofs.Mapper.Contents
import RegionBacking.Proofs.Mapper.Counting
import RegionBacking.Proofs.Mapper.Creation
import RegionBacking.Proofs.Mapper.Environment
import RegionBacking.Proofs.Mapper.Faults
import RegionBacking.Proofs.Mapper.Geometry
import RegionBacking.Proofs.Mapper.Granting
import RegionBacking.Proofs.Mapper.Keeping
import RegionBacking.Proofs.Mapper.Ledger
import RegionBacking.Proofs.Mapper.Listening
import RegionBacking.Proofs.Mapper.OnePage
import RegionBacking.Proofs.Mapper.OwnPages
import RegionBacking.Proofs.Mapper.Placing
import RegionBacking.Proofs.Mapper.Postings
import RegionBacking.Proofs.Mapper.Pretouched
import RegionBacking.Proofs.Mapper.References
import RegionBacking.Proofs.Mapper.RegionSet
import RegionBacking.Proofs.Mapper.Reserving
import RegionBacking.Proofs.Mapper.Resuming
import RegionBacking.Proofs.Mapper.RoundTrip
import RegionBacking.Proofs.Mapper.Routing
import RegionBacking.Proofs.Mapper.SharedPages
import RegionBacking.Proofs.Mapper.SharedSpreading
import RegionBacking.Proofs.Mapper.SharedTable
import RegionBacking.Proofs.Mapper.Spaces
import RegionBacking.Proofs.Mapper.Splitting
import RegionBacking.Proofs.Mapper.Spreading
import RegionBacking.Proofs.Mapper.Steps
import RegionBacking.Proofs.Mapper.Strategies
import RegionBacking.Proofs.Mapper.Tiling
import RegionBacking.Proofs.Mapper.Usage
import RegionBacking.Proofs.Mapper.WholePages
import RegionBacking.Proofs.Mapper.ZeroFilled
import RegionBacking.Proofs.Nodes
import RegionBacking.Proofs.PageSpace.Access
import RegionBacking.Proofs.PageSpace.Accounting
import RegionBacking.Proofs.PageSpace.Alike
import RegionBacking.Proofs.PageSpace.Bookkeeping
import RegionBacking.Proofs.PageSpace.Calls
import RegionBacking.Proofs.PageSpace.Contents
import RegionBacking.Proofs.PageSpace.Granting
import RegionBacking.Proofs.PageSpace.History
import RegionBacking.Proofs.PageSpace.Meanwhile
import RegionBacking.Proofs.PageSpace.OneWay
import RegionBacking.Proofs.PageSpace.Requests
import RegionBacking.Proofs.PageSpace.Reserve
import RegionBacking.Proofs.PageSpace.Setup
import RegionBacking.Proofs.PageSpace.Usage
import RegionBacking.Proofs.Pretouch
import RegionBacking.Proofs.Pretouch.Agreement
import RegionBacking.Proofs.Pretouch.ComingRound
import RegionBacking.Proofs.Pretouch.Failing
import RegionBacking.Proofs.Pretouch.Outcomes
import RegionBacking.Proofs.Pretouch.Visits
import RegionBacking.Proofs.Pretouch.Workers
import RegionBacking.Proofs.Running
import RegionBacking.Proofs.Settings.Reading
import RegionBacking.Proofs.Stores
import RegionBacking.Proofs.Stores.Scripted
import RegionBacking.Proofs.Stores.Space
import RegionBacking.Proofs.Stores.Transcripts
import RegionBacking.Proofs.Text
import RegionBacking.Proofs.Text.Grammar
import RegionBacking.Proofs.Text.Spelling
import RegionBacking.Proofs.Trail
import RegionBacking.Record
import RegionBacking.Refusal
import RegionBacking.Release
import RegionBacking.Reservation
import RegionBacking.Settings
import RegionBacking.Settings.Draft
import RegionBacking.Settings.Environment
import RegionBacking.Settings.Error
import RegionBacking.Settings.ReadError
import RegionBacking.Settings.Reader
import RegionBacking.Settings.Validation
import RegionBacking.Settings.Written
import RegionBacking.Strategy
import RegionBacking.Text.Blank
import RegionBacking.Text.Escaped
import RegionBacking.Text.Json
import RegionBacking.Text.Number
import RegionBacking.Text.Numeral
import RegionBacking.Text.Quoted
import RegionBacking.Text.Scan
import RegionBacking.Text.Split
import RegionBacking.Text.Unprintable
import RegionBacking.Trail
import RegionBacking.Word
