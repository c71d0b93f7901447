import FloorControl.Main
import FloorControl.Packet
import FloorControl.TickClock
import FloorControl.Proofs.MutualExclusion
import FloorControl.Proofs.Agreement
import FloorControl.Proofs.StrandedFloor
import FloorControl.Proofs.StateTimers
import FloorControl.Proofs.Leftovers
import FloorControl.Proofs.Termination
import FloorControl.Proofs.Delivery
import FloorControl.Proofs.ServerPace
import FloorControl.Proofs.Slots
import FloorControl.Proofs.Testimony
import FloorControl.Proofs.Reannouncement
import FloorControl.Proofs.KnownTalker
import FloorControl.Proofs.ParticipantWaits
import FloorControl.Proofs.Acknowledgement
import FloorControl.Proofs.GivingUp
import FloorControl.Proofs.PacketRoundTrip
import FloorControl.Proofs.StateNotices
import FloorControl.Proofs.Refusals
import FloorControl.Proofs.RosterAgreement
import FloorControl.Proofs.Outsiders
import FloorControl.Proofs.CallEnd
import FloorControl.Proofs.CallNumbers
import FloorControl.Proofs.ImplicitGrants
import FloorControl.Proofs.Successors
import FloorControl.Proofs.Requests
import FloorControl.Proofs.Probes
import FloorControl.Proofs.PromisedFloor
import FloorControl.Proofs.Retries
import FloorControl.Proofs.GrantReminders
import FloorControl.Proofs.Consent
import FloorControl.Proofs.Retention
import FloorControl.Proofs.ConfigLoading
import FloorControl.Proofs.QueueHistory
import FloorControl.Proofs.TimeOrder
import FloorControl.Proofs.TimerBank
