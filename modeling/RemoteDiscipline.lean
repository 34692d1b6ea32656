import RemoteDiscipline.Client.Compute
import RemoteDiscipline.Proofs.Admission
import RemoteDiscipline.Proofs.Agreement
import RemoteDiscipline.Proofs.Answering
import RemoteDiscipline.Proofs.Arguments
import RemoteDiscipline.Proofs.Assembly
import RemoteDiscipline.Proofs.Beginnings
import RemoteDiscipline.Proofs.Calling
import RemoteDiscipline.Proofs.Chunks
import RemoteDiscipline.Proofs.Closing
import RemoteDiscipline.Proofs.Collecting
import RemoteDiscipline.Proofs.Completeness
import RemoteDiscipline.Proofs.Computation
import RemoteDiscipline.Proofs.Configuration
import RemoteDiscipline.Proofs.Consultations
import RemoteDiscipline.Proofs.Declarations
import RemoteDiscipline.Proofs.Deliveries
import RemoteDiscipline.Proofs.Delivery
import RemoteDiscipline.Proofs.Errands
import RemoteDiscipline.Proofs.Evaluations
import RemoteDiscipline.Proofs.Exchanges
import RemoteDiscipline.Proofs.Explanations
import RemoteDiscipline.Proofs.Finishing
import RemoteDiscipline.Proofs.Formats
import RemoteDiscipline.Proofs.Frames
import RemoteDiscipline.Proofs.Histories
import RemoteDiscipline.Proofs.Inquiries
import RemoteDiscipline.Proofs.Interleaving
import RemoteDiscipline.Proofs.Jacobians
import RemoteDiscipline.Proofs.Lifecycle
import RemoteDiscipline.Proofs.Moves
import RemoteDiscipline.Proofs.Negotiating
import RemoteDiscipline.Proofs.Negotiation
import RemoteDiscipline.Proofs.Peers
import RemoteDiscipline.Proofs.Plans
import RemoteDiscipline.Proofs.Readiness
import RemoteDiscipline.Proofs.Reading
import RemoteDiscipline.Proofs.Reassembly
import RemoteDiscipline.Proofs.Receptions
import RemoteDiscipline.Proofs.Replies
import RemoteDiscipline.Proofs.Requests
import RemoteDiscipline.Proofs.Schedules
import RemoteDiscipline.Proofs.Segments
import RemoteDiscipline.Proofs.Serialization
import RemoteDiscipline.Proofs.Serving
import RemoteDiscipline.Proofs.Setups
import RemoteDiscipline.Proofs.Sizes
import RemoteDiscipline.Proofs.Snapshots
import RemoteDiscipline.Proofs.Stopping
import RemoteDiscipline.Proofs.Stores
import RemoteDiscipline.Proofs.Streams
import RemoteDiscipline.Proofs.Tables
import RemoteDiscipline.Proofs.Tilings
import RemoteDiscipline.Proofs.Transfer
import RemoteDiscipline.Proofs.Turns
import RemoteDiscipline.Proofs.Unlinking
import RemoteDiscipline.Proofs.Verdicts
import RemoteDiscipline.Proofs.Withdrawing
import RemoteDiscipline.Proofs.Words
import RemoteDiscipline.Script.Behaviour
import RemoteDiscipline.Script.Recorder
import RemoteDiscipline.Service.Elementary
import RemoteDiscipline.Service.Host
import RemoteDiscipline.Service.Session
import RemoteDiscipline.Wire.Source
