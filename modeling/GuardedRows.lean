import GuardedRows.Bytes
import GuardedRows.Catalog
import GuardedRows.Codec.Basic
import GuardedRows.Codec.Stored
import GuardedRows.Config
import GuardedRows.Dump
import GuardedRows.Error
import GuardedRows.KeyRange
import GuardedRows.Mutation
import GuardedRows.Poller
import GuardedRows.Proofs.Bytes.Hex
import GuardedRows.Proofs.Codec.Layout
import GuardedRows.Proofs.Codec.Stored
import GuardedRows.Proofs.KeyRange
import GuardedRows.Proofs.Mutation.Cells
import GuardedRows.Proofs.Mutation.LastWrite
import GuardedRows.Proofs.Poller
import GuardedRows.Proofs.RowRange
import GuardedRows.Proofs.Store.Backed
import GuardedRows.Proofs.Store.Dump
import GuardedRows.Proofs.Store.FaultErasure
import GuardedRows.Proofs.Store.Memory
import GuardedRows.Proofs.Store.Moves
import GuardedRows.Proofs.Store.Reconciliation
import GuardedRows.Proofs.Store.RowIndependence
import GuardedRows.Proofs.Store.Scan
import GuardedRows.Proofs.Store.Sends
import GuardedRows.Proofs.Store.Settle
import GuardedRows.Proofs.Store.Submissions
import GuardedRows.Proofs.Store.Transparency
import GuardedRows.Proofs.Store.Watched
import GuardedRows.Proofs.Tablet.Alteration
import GuardedRows.Proofs.Tablet.BatchMoves
import GuardedRows.Proofs.Tablet.Chain
import GuardedRows.Proofs.Tablet.Claimable
import GuardedRows.Proofs.Tablet.Claimed
import GuardedRows.Proofs.Tablet.CompletionOrder
import GuardedRows.Proofs.Tablet.Confinement
import GuardedRows.Proofs.Tablet.Convergence
import GuardedRows.Proofs.Tablet.Courses
import GuardedRows.Proofs.Tablet.Creation
import GuardedRows.Proofs.Tablet.Deliveries
import GuardedRows.Proofs.Tablet.EmptyRange
import GuardedRows.Proofs.Tablet.Exactness
import GuardedRows.Proofs.Tablet.Immediate
import GuardedRows.Proofs.Tablet.MetadataRow
import GuardedRows.Proofs.Tablet.OperationText
import GuardedRows.Proofs.Tablet.PartialCreation
import GuardedRows.Proofs.Tablet.Partition
import GuardedRows.Proofs.Tablet.Pass
import GuardedRows.Proofs.Tablet.PassEffect
import GuardedRows.Proofs.Tablet.Reading
import GuardedRows.Proofs.Tablet.Reporting
import GuardedRows.Proofs.Tablet.RowEncoding
import GuardedRows.Proofs.Tablet.ScanOrder
import GuardedRows.Proofs.Tablet.Scanned
import GuardedRows.Proofs.Tablet.StaleExtents
import GuardedRows.Proofs.Tablet.Traces
import GuardedRows.Proofs.Text.ByteOrder
import GuardedRows.Proofs.Text.Order
import GuardedRows.Proofs.Tx.CanonicalSteps
import GuardedRows.Proofs.Tx.Creation
import GuardedRows.Proofs.Tx.Edits
import GuardedRows.Proofs.Tx.Exclusion
import GuardedRows.Proofs.Tx.IdText
import GuardedRows.Proofs.Tx.Listing
import GuardedRows.Proofs.Tx.LostReservation
import GuardedRows.Proofs.Tx.RacingSteps
import GuardedRows.Proofs.Tx.Reading
import GuardedRows.Proofs.Tx.RecordedSteps
import GuardedRows.Proofs.Tx.Records
import GuardedRows.Proofs.Tx.Register
import GuardedRows.Proofs.Tx.Requests
import GuardedRows.Proofs.Tx.ReservationOutcomes
import GuardedRows.Proofs.Tx.ReservationText
import GuardedRows.Proofs.Tx.Run
import GuardedRows.Proofs.Tx.Settled
import GuardedRows.Proofs.Tx.Stack
import GuardedRows.Proofs.Tx.StackOperations
import GuardedRows.Proofs.Tx.StackRun
import GuardedRows.Proofs.Tx.StatusGate
import GuardedRows.Proofs.Tx.StatusGuard
import GuardedRows.Proofs.Tx.StepColumn
import GuardedRows.Proofs.Tx.StepOrder
import GuardedRows.Proofs.Tx.StoredSteps
import GuardedRows.Proofs.Tx.Sweep
import GuardedRows.Proofs.Tx.Transparency
import GuardedRows.Proofs.Tx.TypedView
import GuardedRows.Proofs.Tx.UnreadRecords
import GuardedRows.Proofs.Tx.UnsettledOutcomes
import GuardedRows.Proofs.Uuid
import GuardedRows.Record
import GuardedRows.SortedMap.Basic
import GuardedRows.SortedMap.Lemmas
import GuardedRows.Store.Basic
import GuardedRows.Store.Failing
import GuardedRows.Store.Memory
import GuardedRows.Tablet.AvailabilityChange
import GuardedRows.Tablet.Batch
import GuardedRows.Tablet.Extent
import GuardedRows.Tablet.Metadata
import GuardedRows.Tablet.Rows
import GuardedRows.Text
import GuardedRows.Tx.Clients
import GuardedRows.Tx.Columns
import GuardedRows.Tx.Edit
import GuardedRows.Tx.Id
import GuardedRows.Tx.Lifecycle
import GuardedRows.Tx.Reservation
import GuardedRows.Tx.Snapshot
import GuardedRows.Tx.Status
import GuardedRows.Uuid
