import HubRelay.Session
import HubRelay.EventText
import HubRelay.Probe
import HubRelay.Reentry
import HubRelay.Proofs.Link.Shutdown
import HubRelay.Proofs.Link.Completion
import HubRelay.Proofs.Relay.SlotOwners
import HubRelay.Proofs.Relay.FreeCallbacks
import HubRelay.Proofs.Relay.HostEvents
import HubRelay.Proofs.Relay.Sessions
import HubRelay.Proofs.Relay.Deferrals
import HubRelay.Proofs.Relay.Duplicates
import HubRelay.Proofs.Pool.Handles
import HubRelay.Proofs.Loop.Reissue
import HubRelay.Proofs.Loop.Drives
import HubRelay.Proofs.Loop.Stops
import HubRelay.Proofs.Loop.Promises
import HubRelay.Proofs.Relay.WakeCycles
import HubRelay.Proofs.Relay.RetryReach
import HubRelay.Proofs.Relay.Agreement
import HubRelay.Proofs.Relay.Conveyance
import HubRelay.Proofs.Loop.Capacity
import HubRelay.Proofs.Loop.Routing
import HubRelay.Proofs.Relay.Homecomings
import HubRelay.Proofs.Relay.Rejections
import HubRelay.Proofs.Relay.Arrivals
import HubRelay.Proofs.Link.Finality
import HubRelay.Proofs.Link.TwoLoops
import HubRelay.Proofs.Relay.InboundOrder
import HubRelay.Proofs.Relay.CallbackOrder
import HubRelay.Proofs.Link.Transit
