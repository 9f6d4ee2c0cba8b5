import QueryTally.Session
import QueryTally.Viewer
import QueryTally.Main
import QueryTally.Proofs.Store.Atomicity
import QueryTally.Proofs.Session.Counting
import QueryTally.Proofs.Session.Flushing
import QueryTally.Proofs.Session.Bounds
import QueryTally.Proofs.Session.Consistency
import QueryTally.Proofs.Session.Clearing
import QueryTally.Proofs.Session.Retention
import QueryTally.Proofs.Store.Records
import QueryTally.Proofs.Truncation
import QueryTally.Proofs.Store.Regions
import QueryTally.Proofs.Engine.Reading
import QueryTally.Proofs.Accuracy
import QueryTally.Proofs.Engine.Retiring
import QueryTally.Proofs.Session.Closing
import QueryTally.Proofs.Store.Visiting
import QueryTally.Proofs.Session.Intervals
import QueryTally.Proofs.Session.Nesting
import QueryTally.Proofs.Merging
import QueryTally.Proofs.Grouping
import QueryTally.Proofs.Resuming
import QueryTally.Proofs.Clients
import QueryTally.Proofs.Engine.Ingesting
import QueryTally.Proofs.Engine.Revisiting
import QueryTally.Proofs.Store.Deleting
import QueryTally.Proofs.Selection
