import Raft2PC.Spec.Text

/-! The protobuf messages, field for field, and the `oneof` that wraps them. Every
`int32` is an integer; the parts of the program that depend on 32 bits say so. -/

namespace Raft2PC

structure Stop where
  clusterId : ℤ
  serverId : ℤ
deriving DecidableEq, Repr

structure Resume where
  clusterId : ℤ
  serverId : ℤ
deriving DecidableEq, Repr

structure Exit where
  clusterId : ℤ
  serverId : ℤ
deriving DecidableEq, Repr

structure IntraShardReq where
  clusterId : ℤ
  senderId : ℤ
  receiverId : ℤ
  amount : ℤ
  id : ℤ
deriving DecidableEq, Repr

inductive IntraShardResultType where
  | success
  | fail
deriving DecidableEq, Repr

structure IntraShardRsp where
  result : IntraShardResultType
  id : ℤ
deriving DecidableEq, Repr

inductive CrossShardPhaseType where
  | prepare
  | commit
  | abort
deriving DecidableEq, Repr

structure CrossShardReq where
  phase : CrossShardPhaseType
  senderClusterId : ℤ
  receiverClusterId : ℤ
  senderId : ℤ
  receiverId : ℤ
  amount : ℤ
  id : ℤ
deriving DecidableEq, Repr

inductive CrossShardResultType where
  | yes
  | no
  | ack
deriving DecidableEq, Repr

structure CrossShardRsp where
  result : CrossShardResultType
  id : ℤ
deriving DecidableEq, Repr

/-- A log entry on the wire; the pending connection of `LogEntry` stays behind. -/
structure Entry where
  term : ℤ
  index : ℤ
  command : Text
  id : ℤ
deriving DecidableEq, Repr

structure AppendEntriesReq where
  term : ℤ
  leaderId : ℤ
  prevLogIndex : ℤ
  prevLogTerm : ℤ
  entries : List Entry
  commitIndex : ℤ
  serverId : ℤ
deriving DecidableEq, Repr

structure AppendEntriesRsp where
  term : ℤ
  success : Bool
  serverId : ℤ
deriving DecidableEq, Repr

structure RequestVoteReq where
  candidateId : ℤ
  term : ℤ
  lastLogIndex : ℤ
  lastLogTerm : ℤ
deriving DecidableEq, Repr

structure RequestVoteRsp where
  term : ℤ
  voteGranted : Bool
deriving DecidableEq, Repr

structure PrintBalanceReq where
  clusterId : ℤ
  serverId : ℤ
  dataItemID : ℤ
deriving DecidableEq, Repr

structure PrintBalanceRsp where
  clusterId : ℤ
  serverId : ℤ
  dataItemID : ℤ
  balance : ℤ
deriving DecidableEq, Repr

structure PrintDatastoreReq where
  clusterId : ℤ
  serverId : ℤ
deriving DecidableEq, Repr

structure PrintDatastoreRsp where
  clusterId : ℤ
  serverId : ℤ
  entries : List Entry
deriving DecidableEq, Repr

inductive WrapperMessage where
  | stop (m : Stop)
  | resume (m : Resume)
  | intraShardReq (m : IntraShardReq)
  | intraShardRsp (m : IntraShardRsp)
  | crossShardReq (m : CrossShardReq)
  | crossShardRsp (m : CrossShardRsp)
  | appendEntriesReq (m : AppendEntriesReq)
  | appendEntriesRsp (m : AppendEntriesRsp)
  | requestVoteReq (m : RequestVoteReq)
  | requestVoteRsp (m : RequestVoteRsp)
  | printBalanceReq (m : PrintBalanceReq)
  | printBalanceRsp (m : PrintBalanceRsp)
  | printDatastoreReq (m : PrintDatastoreReq)
  | printDatastoreRsp (m : PrintDatastoreRsp)
  | exit (m : Exit)
  | notSet
deriving DecidableEq, Repr

end Raft2PC
