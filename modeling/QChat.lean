import QChat.Acceptance
import QChat.Authenticity
import QChat.Confidentiality
import QChat.ControlQueues
import QChat.DIQKDAgreement
import QChat.Database
import QChat.Delivery
import QChat.DeviceVerdict
import QChat.Hamming
import QChat.Inboxes
import QChat.KeyStores
import QChat.Outbound
import QChat.QubitPairing
import QChat.QubitProgress
import QChat.Reconciliation
import QChat.Registrations
import QChat.Registry
import QChat.Replication
import QChat.Resolution
import QChat.Rpc
import QChat.Secrecy
import QChat.SiftedRounds
import QChat.Wire
