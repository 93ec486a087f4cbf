import RelStore.Text.Hex
import RelStore.Text.Visible
import RelStore.Text.Quoted
import RelStore.Assoc
import RelStore.Fallible
import RelStore.Path
import RelStore.Field
import RelStore.Field.Image
import RelStore.Schema
import RelStore.Row
import RelStore.Predicate
import RelStore.Codec.Varint
import RelStore.Codec.Record
import RelStore.Config
import RelStore.Disk
import RelStore.Storage.Error
import RelStore.Storage.Page
import RelStore.Storage.HeapFile
import RelStore.Catalog
import RelStore.Cache.Clock
import RelStore.Cache.PageCache
import RelStore.Aggregate.Stat
import RelStore.Database
import RelStore.Action
import RelStore.Storage.Cursor
import RelStore.Operator.Error
import RelStore.Operator.Source
import RelStore.Operator.Leaf
import RelStore.Operator.Filter
import RelStore.Operator.Join
import RelStore.Operator.Change
import RelStore.Aggregate.Groups
import RelStore.Operator.Aggregate
import RelStore.Plan
import RelStore.Operator
import RelStore.Demo
import RelStore.Main
import RelStore.Proofs.Codec.RoundTrip
import RelStore.Proofs.Codec.ByteOrder
import RelStore.Proofs.Storage.Canonical
import RelStore.Proofs.Catalog.Registration
import RelStore.Proofs.Catalog.Loading
import RelStore.Proofs.Catalog.Saving
import RelStore.Proofs.Catalog.SchemaBytes
import RelStore.Proofs.Storage.PageImage
import RelStore.Proofs.Storage.FieldImage
import RelStore.Proofs.Storage.PageBytes
import RelStore.Proofs.Storage.PageFile
import RelStore.Proofs.Storage.FileGrowth
import RelStore.Proofs.Storage.FieldWriting
import RelStore.Proofs.Storage.PageSlots
import RelStore.Proofs.Schema.Names
import RelStore.Proofs.Schema.Derived
import RelStore.Proofs.Storage.Layout
import RelStore.Proofs.Cache.Sweep
import RelStore.Proofs.Cache.Turns
import RelStore.Proofs.Cache.Coherence
import RelStore.Proofs.Store.Contents
import RelStore.Proofs.Store.View
import RelStore.Proofs.Store.Loading
import RelStore.Proofs.Store.Changes
import RelStore.Proofs.Store.Refinement
import RelStore.Proofs.Store.Holding
import RelStore.Proofs.Store.Flushing
import RelStore.Proofs.Store.Sessions
import RelStore.Proofs.Store.Ledger
import RelStore.Proofs.Store.FlushedPages
import RelStore.Proofs.Store.Errors
import RelStore.Proofs.Store.Refusals
import RelStore.Proofs.Store.PageTypes
import RelStore.Proofs.Store.RowChanges
import RelStore.Proofs.Query.Protocol
import RelStore.Proofs.Query.Outcomes
import RelStore.Proofs.Query.Operators
import RelStore.Proofs.Query.Join
import RelStore.Proofs.Query.Aggregate
import RelStore.Proofs.Query.Reading
import RelStore.Proofs.Query.Plans
import RelStore.Proofs.Query.Meaning
import RelStore.Proofs.Query.Cursor
import RelStore.Proofs.Query.PoolSize
import RelStore.Proofs.Query.Reopening
import RelStore.Proofs.Query.LiveCursor
import RelStore.Proofs.Query.Retrying
import RelStore.Proofs.Query.InterruptedJoin
import RelStore.Proofs.Query.OpenTrees
import RelStore.Proofs.Query.Outlook
import RelStore.Proofs.Query.Sifting
import RelStore.Proofs.Query.Passes
import RelStore.Proofs.Query.Places
import RelStore.Proofs.Query.Deleting
import RelStore.Proofs.Query.FirstFit
import RelStore.Proofs.Query.SelfInsertion
import RelStore.Proofs.Store.HighWater
import RelStore.Proofs.Aggregate.Stats
import RelStore.Proofs.Aggregate.Results
import RelStore.Proofs.Aggregate.Mean
import RelStore.Proofs.Query.Checking
import RelStore.Proofs.Query.Safety
import RelStore.Proofs.Query.Assembling
import RelStore.Proofs.Query.Sizes
import RelStore.Proofs.Query.Alone
import RelStore.Proofs.Query.Typing
import RelStore.Proofs.Query.Workbench
import RelStore.Proofs.Query.Counting
import RelStore.Proofs.Query.SharedPass
import RelStore.Proofs.Query.Starving
