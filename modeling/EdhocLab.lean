import EdhocLab.Engine.Classify
import EdhocLab.Engine.ErrorMessage
import EdhocLab.Engine.Message1
import EdhocLab.Engine.Message4
import EdhocLab.Engine.Requests
import EdhocLab.Hex
import EdhocLab.Settings.Record
import EdhocLab.Proofs.Check
import EdhocLab.Proofs.Engine.Call
import EdhocLab.Proofs.Engine.Rejection
import EdhocLab.Proofs.Engine.Change
import EdhocLab.Proofs.Handshake.Totality
import EdhocLab.Proofs.Cbor.Float
import EdhocLab.Proofs.Cbor.Identifier
import EdhocLab.Proofs.Cose.Element
import EdhocLab.Proofs.Ead.Grammar
import EdhocLab.Proofs.Engine.Availability
import EdhocLab.Proofs.Engine.Registry
import EdhocLab.Proofs.Engine.Completion
import EdhocLab.Proofs.Oscore.Channel
import EdhocLab.Proofs.Oscore.AcceptedSet
import EdhocLab.Proofs.Handshake.Expansion
import EdhocLab.Proofs.Engine.Delivery.Offer
import EdhocLab.Proofs.Engine.Delivery.Foreign
import EdhocLab.Proofs.Engine.Delivery.Skipped
import EdhocLab.Proofs.Engine.Identifiers
import EdhocLab.Proofs.Engine.Repetition
import EdhocLab.Proofs.Oscore.NonceUse
import EdhocLab.Proofs.Engine.CombinedRequest
import EdhocLab.Proofs.Oscore.Replay
import EdhocLab.Proofs.Engine.Scope
import EdhocLab.Proofs.Engine.Unwritten
import EdhocLab.Proofs.Engine.Reset
import EdhocLab.Proofs.Engine.Edit
import EdhocLab.Proofs.Engine.Schedule
import EdhocLab.Proofs.Engine.PeerIdentity
import EdhocLab.Proofs.Oscore.Dialogue
import EdhocLab.Proofs.Engine.OwnKeys
import EdhocLab.Proofs.Engine.DistinctIds
import EdhocLab.Proofs.Engine.Retransmission
import EdhocLab.Proofs.Engine.Classification
import EdhocLab.Proofs.Engine.FirstMessage
import EdhocLab.Proofs.Engine.DroppedRequest
import EdhocLab.Proofs.Engine.Reports
import EdhocLab.Proofs.Cbor.Nesting
import EdhocLab.Proofs.Cbor.Concatenation
import EdhocLab.Proofs.Oscore.OuterOptions
import EdhocLab.Proofs.Oscore.Concealment
import EdhocLab.Proofs.Handshake.Transcript
import EdhocLab.Proofs.Handshake.Keystream
import EdhocLab.Proofs.Separation
import EdhocLab.Proofs.Cose.Key
import EdhocLab.Proofs.Cbor.IdentifierForm
