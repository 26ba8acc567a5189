import MailQueue.Documents.Client
import MailQueue.Rehearsal.Session
import MailQueue.Toml.Settings
import MailQueue.Proofs.Fleet.Basic
import MailQueue.Proofs.Fleet.Attempt
import MailQueue.Proofs.Fleet.Change
import MailQueue.Proofs.Fleet.Exclusive
import MailQueue.Proofs.Fleet.Failure
import MailQueue.Proofs.Fleet.Growth
import MailQueue.Proofs.Fleet.Handover
import MailQueue.Proofs.Json.Number
import MailQueue.Proofs.Json.RoundTrip
import MailQueue.Proofs.Letter
import MailQueue.Proofs.Mirror.Basic
import MailQueue.Proofs.Mirror.InStep
import MailQueue.Proofs.Mirror.Invariant
import MailQueue.Proofs.Mirror.Play
import MailQueue.Proofs.Mirror.Refinement
import MailQueue.Proofs.Fleet.Tenure
import MailQueue.Proofs.Fleet.Withdrawal
import MailQueue.Proofs.Fleet.Lifecycle
import MailQueue.Proofs.Equivalence
import MailQueue.Proofs.Fleet.Placement
import MailQueue.Proofs.Fleet.Merging
import MailQueue.Proofs.Fleet.Timing
import MailQueue.Proofs.Fleet.Exhaustion
import MailQueue.Proofs.Sweep
import MailQueue.Proofs.Json.Float
import MailQueue.Proofs.Readable
import MailQueue.Proofs.Pattern
import MailQueue.Proofs.Marks
import MailQueue.Proofs.Listing
import MailQueue.Proofs.Acknowledged
import MailQueue.Proofs.Scopes.Keys
import MailQueue.Proofs.Scopes.Basic
import MailQueue.Proofs.Scopes.Due
import MailQueue.Proofs.Fleet.Retention
import MailQueue.Proofs.Repeats
import MailQueue.Proofs.Documents.Document
import MailQueue.Proofs.Documents.Filter
import MailQueue.Proofs.Documents.Server
import MailQueue.Proofs.Documents.Accord
import MailQueue.Proofs.Depot.Resolution
import MailQueue.Proofs.Gathering
import MailQueue.Proofs.GivenBack
import MailQueue.Proofs.Compile.Fields
import MailQueue.Proofs.Compile.Layered
import MailQueue.Proofs.Compile.Alike
import MailQueue.Proofs.Pairing
import MailQueue.Proofs.RetryTime
import MailQueue.Proofs.Admission
import MailQueue.Proofs.Compile.Body
import MailQueue.Proofs.Tags
import MailQueue.Proofs.Rendering
import MailQueue.Proofs.Pointers.Lookup
import MailQueue.Proofs.Tally.Accounts
import MailQueue.Proofs.Medley.Selection
import MailQueue.Proofs.Fleet.Addressing
import MailQueue.Proofs.Flat
import MailQueue.Proofs.Loops.Order
import MailQueue.Proofs.Loops.Passing
