import RecordStore.Attempt
import RecordStore.Batch
import RecordStore.Bytes
import RecordStore.Client
import RecordStore.Fault
import RecordStore.Fields
import RecordStore.Footprint
import RecordStore.KeyMap
import RecordStore.Metrics
import RecordStore.Operation
import RecordStore.Projection
import RecordStore.Proofs.AcceptedOperations
import RecordStore.Proofs.Accounting
import RecordStore.Proofs.Agreement
import RecordStore.Proofs.BatchFaults
import RecordStore.Proofs.BatchMeaning
import RecordStore.Proofs.BatchOrder
import RecordStore.Proofs.BatchRun
import RecordStore.Proofs.BatchSuccess
import RecordStore.Proofs.BatchedSessions
import RecordStore.Proofs.Bodies
import RecordStore.Proofs.CanonicalForm
import RecordStore.Proofs.Catalog
import RecordStore.Proofs.CatalogSteps
import RecordStore.Proofs.ClientAnswers
import RecordStore.Proofs.ClientCalls
import RecordStore.Proofs.ClientViews
import RecordStore.Proofs.Connections
import RecordStore.Proofs.Counts
import RecordStore.Proofs.DecodedRecords
import RecordStore.Proofs.DisjointSessions
import RecordStore.Proofs.EquivalentBatches
import RecordStore.Proofs.EquivalentClients
import RecordStore.Proofs.EquivalentStores
import RecordStore.Proofs.FailingBodies
import RecordStore.Proofs.FieldOrder
import RecordStore.Proofs.FinishedTransactions
import RecordStore.Proofs.InTurn
import RecordStore.Proofs.InterchangeableSteps
import RecordStore.Proofs.Interleaving
import RecordStore.Proofs.Isolation
import RecordStore.Proofs.KeyMap
import RecordStore.Proofs.KeyOrder
import RecordStore.Proofs.LimitedReads
import RecordStore.Proofs.Loops
import RecordStore.Proofs.Numerals
import RecordStore.Proofs.Outage
import RecordStore.Proofs.PackedValues
import RecordStore.Proofs.PairedRuns
import RecordStore.Proofs.RangeReads
import RecordStore.Proofs.ReachableEntries
import RecordStore.Proofs.RecordReading
import RecordStore.Proofs.RecordRoundTrip
import RecordStore.Proofs.RowKeys
import RecordStore.Proofs.Rows
import RecordStore.Proofs.RunEnds
import RecordStore.Proofs.Runs
import RecordStore.Proofs.SafeNames
import RecordStore.Proofs.Scans
import RecordStore.Proofs.Selection
import RecordStore.Proofs.SessionSteps
import RecordStore.Proofs.SharedBatch
import RecordStore.Proofs.SharedViews
import RecordStore.Proofs.StoreCalls
import RecordStore.Proofs.StoredEntries
import RecordStore.Proofs.TableScans
import RecordStore.Proofs.TextOrder
import RecordStore.Proofs.Transactional
import RecordStore.Proofs.TupleOrder
import RecordStore.Proofs.UnbatchedSessions
import RecordStore.Proofs.UncommittedReads
import RecordStore.Proofs.Unpacking
import RecordStore.Proofs.Writes
import RecordStore.Record
import RecordStore.Scan
import RecordStore.Session
import RecordStore.Settings
import RecordStore.Store.Backend
import RecordStore.Store.Basic
import RecordStore.Store.Connection
import RecordStore.Store.Name
import RecordStore.Store.Recorder
import RecordStore.Store.Transaction
import RecordStore.Text.Integer
import RecordStore.Text.Printable
import RecordStore.Text.Quoted
import RecordStore.Text.Real
import RecordStore.Tuple.Pack
import RecordStore.Tuple.Unpack
import RecordStore.Value
