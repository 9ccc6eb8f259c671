import MessageCall.Document.Account
import MessageCall.Document.Chain
import MessageCall.Document.Fault
import MessageCall.State.Transitions
import MessageCall.Dispatch.Dispatcher
import MessageCall.Dispatch.Intercept
import MessageCall.Script.Run
import MessageCall.Proofs.Chain.Forks
import MessageCall.Proofs.Chain.Allocation
import MessageCall.Proofs.State.Report
import MessageCall.Proofs.State.Undo
import MessageCall.Proofs.State.Unwinding
import MessageCall.Proofs.State.Coherence
import MessageCall.Proofs.State.History
import MessageCall.Proofs.State.Reading
import MessageCall.Proofs.State.Writing
import MessageCall.Proofs.State.Session
import MessageCall.Proofs.State.Backing
import MessageCall.Proofs.State.NetEffect
import MessageCall.Proofs.State.Plain
import MessageCall.Proofs.State.Footprint
import MessageCall.Proofs.Dispatch.AllOrNothing
import MessageCall.Proofs.Dispatch.OuterSnapshot
import MessageCall.Proofs.Dispatch.GasLaw
import MessageCall.Proofs.Dispatch.TraceTree
import MessageCall.Proofs.Dispatch.Recording
import MessageCall.Proofs.Dispatch.Transfers
import MessageCall.Proofs.Dispatch.Payments
import MessageCall.Proofs.Dispatch.Progress
import MessageCall.Proofs.Dispatch.Frames
import MessageCall.Proofs.Dispatch.Depth
import MessageCall.Proofs.Dispatch.Termination
import MessageCall.Proofs.Dispatch.Cancellation
import MessageCall.Proofs.Dispatch.Footprint
import MessageCall.Proofs.Dispatch.Identity
import MessageCall.Proofs.Dispatch.Untraced
import MessageCall.Proofs.Dispatch.SelfCall
import MessageCall.Proofs.State.Newcomers
import MessageCall.Proofs.Dispatch.Newcomers
import MessageCall.Proofs.Json.ReadBack
import MessageCall.Proofs.Json.Reorder
import MessageCall.Proofs.Text.Quantities
import MessageCall.Proofs.ContractAddress
import MessageCall.Proofs.Document.RoundTrip
import MessageCall.Proofs.Document.Genesis
import MessageCall.Proofs.State.Atomicity
import MessageCall.Proofs.State.Snapshots
import MessageCall.Proofs.Script.Encoding
import MessageCall.Proofs.Dispatch.Refusals
import MessageCall.Proofs.Dispatch.Creations
import MessageCall.Proofs.Dispatch.Recursion
