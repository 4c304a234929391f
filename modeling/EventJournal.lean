import EventJournal.Bench.Race
import EventJournal.Bench.Rehearsal
import EventJournal.Bench.Seeding
import EventJournal.Form
import EventJournal.Main
import EventJournal.Pipeline.Delivery
import EventJournal.Proofs.Appending.Alone
import EventJournal.Proofs.Appending.EachStream
import EventJournal.Proofs.Appending.Order
import EventJournal.Proofs.Appending.PlainLog
import EventJournal.Proofs.Appending.Race
import EventJournal.Proofs.Scanning
import EventJournal.Proofs.Snapshots
import EventJournal.Proofs.Contention
import EventJournal.Proofs.Pipeline.Ascent
import EventJournal.Proofs.Pipeline.Bookmarking
import EventJournal.Proofs.Pipeline.Cadence
import EventJournal.Proofs.Pipeline.Contiguity
import EventJournal.Proofs.Pipeline.Delivery
import EventJournal.Proofs.Pipeline.Demultiplexing
import EventJournal.Proofs.Pipeline.Deployment
import EventJournal.Proofs.Pipeline.Drain
import EventJournal.Proofs.Pipeline.Exact
import EventJournal.Proofs.Pipeline.FanOut
import EventJournal.Proofs.Pipeline.Ledger
import EventJournal.Proofs.Pipeline.Recall
import EventJournal.Proofs.Pipeline.Rows
import EventJournal.Proofs.Pipeline.Standstill
import EventJournal.Proofs.Pipeline.Stalling
import EventJournal.Proofs.Pipeline.Tenancy
import EventJournal.Proofs.Pipeline.Window
import EventJournal.Proofs.Pipeline.Workshop
import EventJournal.Proofs.Json.Interchange
import EventJournal.Proofs.Recording
import EventJournal.Proofs.Service
import EventJournal.Proofs.Visibility
import EventJournal.Store.Column
import EventJournal.Store.DatabaseFault
