import Vaultex.KeyTree
import Vaultex.Deduction
import Vaultex.RatchetRun
import Vaultex.Symbolic
import Vaultex.RatchetAtomicity
import Vaultex.RatchetCache
import Vaultex.RatchetGrowth
import Vaultex.RatchetNumbering
import Vaultex.RatchetSecrecy
import Vaultex.RatchetNames
import Vaultex.RatchetLabels
import Vaultex.RatchetPositions
import Vaultex.RatchetPersistence
import Vaultex.RatchetAvailability
import Vaultex.RatchetTransparency
import Vaultex.Checked
import Vaultex.RatchetChecked
import Vaultex.RatchetCounters
import Vaultex.RatchetAuthenticity
import Vaultex.RatchetAgreement
import Vaultex.RatchetIsolation
import Vaultex.RatchetInheritance
import Vaultex.RatchetDivergence
import Vaultex.Conversation
import Vaultex.Mailbox
import Vaultex.Transcript
import Vaultex.ConversationBurst
import Vaultex.ConversationLadder
import Vaultex.ConversationReceiver
import Vaultex.ConversationRefinement
import Vaultex.ConversationDelivery
import Vaultex.ConversationRecovery
import Vaultex.ConversationBacklog
import Vaultex.ConversationLimits
import Vaultex.ConversationGap
import Vaultex.Padding
import Vaultex.RoundUp
import Vaultex.PaddingBuckets
import Vaultex.PaddingBounds
import Vaultex.CoverTraffic
import Vaultex.ConversationTraffic
import Vaultex.Serde
import Vaultex.MessagePayload
import Vaultex.PayloadCodec
import Vaultex.Group
import Vaultex.GroupRouting
import Vaultex.X3dh
import Vaultex.Handshake
import Vaultex.X3dhSecrecy
import Vaultex.SealedSender
import Vaultex.IdentityBox
import Vaultex.MessageFlow
import Vaultex.IdentityKeys
import Vaultex.Prekeys
import Vaultex.SessionSetup
import Vaultex.Auth
import Vaultex.AuthRoutes
import Vaultex.AuthBinding
import Vaultex.AuthReplay
import Vaultex.Media
import Vaultex.Fingerprint
import Vaultex.SafetyNumber
