import Raft2PC.Proofs.StateMachineSafety
import Raft2PC.Spec.Reading
import Raft2PC.Spec.Discipline
import Raft2PC.Proofs.SingleApplication
import Raft2PC.Proofs.CrossShardOnce
import Raft2PC.Proofs.PreparedIsolation
import Raft2PC.Proofs.CommitNeedsVotes
import Raft2PC.Proofs.NoOverdraft
import Raft2PC.Proofs.SuccessRecorded
import Raft2PC.Proofs.OneAnswer
import Raft2PC.Proofs.LeaderAdvances
import Raft2PC.Proofs.IndexSafety
import Raft2PC.Proofs.LockDiscipline
import Raft2PC.Proofs.LockLifetime
import Raft2PC.Proofs.QueueAccounts
import Raft2PC.Proofs.KnownLeader
import Raft2PC.Proofs.LatestLeader
import Raft2PC.Proofs.LogMerge
import Raft2PC.Proofs.EntryIndex
import Raft2PC.Proofs.CatchUp
import Raft2PC.Proofs.Conservation
import Raft2PC.Proofs.AppliedAlike
import Raft2PC.Proofs.DuplicateIds
import Raft2PC.Proofs.Refusals
import Raft2PC.Proofs.ShardReload
import Raft2PC.Proofs.PeerTermination
import Raft2PC.Proofs.Truncation
import Raft2PC.Spec.Wire
import Raft2PC.Sanity.WireFormat
import Raft2PC.Proofs.LogCommands
import Raft2PC.Proofs.VotedFor
import Raft2PC.Proofs.OneJournal
import Raft2PC.Proofs.JournalBalances
import Raft2PC.Proofs.Descriptors
import Raft2PC.Proofs.OwnConnection
import Raft2PC.Proofs.ConfirmedOnce
import Raft2PC.Proofs.Composition
import Raft2PC.Proofs.OneTransaction
import Raft2PC.Proofs.Atomicity
import Raft2PC.Proofs.MoneyInTransit
import Raft2PC.Proofs.Availability
