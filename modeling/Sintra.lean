import Sintra.Ipc.SpinlockSafety
import Sintra.Ipc.MutexSafety
import Sintra.Process.BarrierSafety
import Sintra.Process.CoordinatorDepartures
import Sintra.Process.CoordinatorOccurrences
import Sintra.Ring.ReaderSlotsSafety
import Sintra.Ring.WakeupsSafety
import Sintra.Ring.LifecycleSafety
import Sintra.Messaging.MessageLayout
import Sintra.Messaging.StarDelivery
import Sintra.Messaging.StarProvenance
import Sintra.Messaging.StarRouting
import Sintra.Ring.SnapshotsSafety
import Sintra.Messaging.HandlerSlotsSafety
import Sintra.Messaging.RpcUnblock
import Sintra.Messaging.DeliveryFenceSafety
import Sintra.Process.RegistryNotifications
import Sintra.Process.InvitationsClaims
import Sintra.Custody.ReleaseAttempts
import Sintra.Process.JoinsSafety
import Sintra.Process.DeferralsSafety
import Sintra.Custody.ReleasesWaits
import Sintra.Custody.ReleasesSound
import Sintra.Messaging.RpcExecution
import Sintra.Process.CommandLine
import Sintra.Process.FamilyReaper
import Sintra.Messaging.PostHandlers
import Sintra.Ipc.CleanupDomain
import Sintra.Process.Views
