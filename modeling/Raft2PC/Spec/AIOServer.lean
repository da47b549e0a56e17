import Raft2PC.Spec.Executor

/-! `aIOServer.cpp`: the timer, the two broadcasts and the dispatch of a message. -/

namespace Raft2PC

/-- `AIOServer`; its cluster and server id are the ones it gave to its `RaftState`. -/
structure AIOServer where
  pretendFail : Bool
  keepRunning : Bool
  raftState : RaftState

namespace AIOServer

def new (clusterId serverId : ℤ) (shard : Table ℤ) : AIOServer where
  pretendFail := false
  keepRunning := true
  raftState := { RaftState.new clusterId serverId with localBalanceTb := shard }

/-- The other servers of the cluster, in the order of the broadcast loops. -/
def others (rs : RaftState) : List Idx :=
  (List.finRange SERVER_NUM_PER_CLUSTER).filter fun idx =>
    ((idx : ℕ) : ℤ) ≠ rs.serverId % SERVER_NUM_PER_CLUSTER

def voteReq (rs : RaftState) : RequestVoteReq where
  candidateId := rs.serverId
  term := rs.currentTerm
  lastLogIndex := rs.lastlogindex
  lastLogTerm := rs.lastlogterm

def broadcastVote (rs : RaftState) : RaftState × List AIOAction :=
  let rs := { rs with
    role := .candidate
    currentTerm := rs.currentTerm + 1
    votedFor := rs.serverId
    voteGrantedNum := 1 }
  (rs, .connect .routingService (.requestVoteReq (voteReq rs)) .noResponse ::
    (others rs).map fun idx =>
      .connect (.server idx) (.requestVoteReq (voteReq rs)) .waitResponse)

/-- The heart beat for the routing service: only the first two fields are set. -/
def routingHeartBeat (rs : RaftState) : AppendEntriesReq where
  term := rs.currentTerm
  leaderId := rs.serverId
  prevLogIndex := 0
  prevLogTerm := 0
  entries := []
  commitIndex := 0
  serverId := 0

/-- The entries `[matched_log_size_, log_.size())`: the loop compares `int` with
`size_t`, so a negative start runs no round. -/
def unmatchedEntries (rs : RaftState) (idx : Idx) : List Entry :=
  if rs.matched idx < 0 then [] else (rs.log.drop (rs.matched idx).toNat).map LogEntry.entry

def heartBeat (u : Undefined) (rs : RaftState) (idx : Idx) : AppendEntriesReq where
  term := rs.currentTerm
  leaderId := rs.serverId
  prevLogIndex := rs.prevlogindex idx
  prevLogTerm := rs.prevlogterm u idx
  entries := unmatchedEntries rs idx
  commitIndex := rs.commitIndex
  serverId := rs.serverId / SERVER_NUM_PER_CLUSTER * SERVER_NUM_PER_CLUSTER + idx

def broadcastHeartBeat (u : Undefined) (rs : RaftState) : RaftState × List AIOAction :=
  let rs := { rs with comingCommitIndex := (rs.log.length : ℤ) - 1 }
  (rs, .connect .routingService (.appendEntriesReq (routingHeartBeat rs)) .noResponse ::
    (others rs).map fun idx =>
      .connect (.server idx) (.appendEntriesReq (heartBeat u rs idx)) .waitResponse)

/-- `EVENT_TIMEOUT` of `run`. -/
def timeout (u : Undefined) (sv : AIOServer) : AIOServer × List AIOAction :=
  if sv.pretendFail then (sv, [])
  else
    let rs := sv.raftState
    match rs.role with
    | .follower =>
      let (rs, acts) := if rs.heardHeartBeat then (rs, []) else broadcastVote rs
      ({ sv with raftState := { rs with heardHeartBeat := false } }, acts)
    | .candidate =>
      let (rs, acts) := broadcastVote rs
      ({ sv with raftState := rs }, acts)
    | .leader =>
      let (rs, acts) := broadcastHeartBeat u rs
      ({ sv with raftState := rs }, acts)

def isMe (sv : AIOServer) (clusterId serverId : ℤ) : Bool :=
  clusterId = sv.raftState.clusterId && serverId = sv.raftState.serverId

/-- The switch of `process`, reached only when the server does not pretend to fail. -/
def dispatch (u : Undefined) (clientSocket : ℤ) (rs : RaftState) :
    WrapperMessage → RaftState × List AIOAction
  | .intraShardReq req =>
    if req.clusterId = rs.clusterId then IntraShardExecutor.executeReq clientSocket rs req
    else (rs, [])
  | .crossShardReq req =>
    if req.senderClusterId = rs.clusterId ∨ req.receiverClusterId = rs.clusterId then
      CrossShardExecutor.executeReq clientSocket rs req
    else (rs, [])
  | .appendEntriesReq req => AppendEntriesExecutor.executeReq u clientSocket rs req
  | .appendEntriesRsp rsp => AppendEntriesExecutor.executeRsp u clientSocket rs rsp
  | .requestVoteReq req => RequestVoteExecutor.executeReq clientSocket rs req
  | .requestVoteRsp rsp =>
    let (rs, acts) := RequestVoteExecutor.executeRsp clientSocket rs rsp
    if rs.role = .leader then
      let (rs, beats) := broadcastHeartBeat u rs
      (rs, acts ++ beats)
    else (rs, acts)
  | .printBalanceReq req =>
    if req.clusterId = rs.clusterId ∧ req.serverId = rs.serverId then
      PrintBalanceExecutor.executeReq clientSocket rs req
    else (rs, [])
  | .printDatastoreReq req =>
    if req.clusterId = rs.clusterId ∧ req.serverId = rs.serverId then
      PrintDatastoreExecutor.executeReq u clientSocket rs req
    else (rs, [])
  | _ => (rs, [.fatalError])

def process (u : Undefined) (clientSocket : ℤ) (sv : AIOServer) (msg : WrapperMessage) :
    AIOServer × List AIOAction :=
  match msg with
  | .exit m =>
    (if sv.isMe m.clusterId m.serverId then { sv with keepRunning := false } else sv, [])
  | .resume m =>
    (if sv.isMe m.clusterId m.serverId then { sv with pretendFail := false } else sv, [])
  | .stop m =>
    (if sv.isMe m.clusterId m.serverId then { sv with pretendFail := true } else sv, [])
  | msg =>
    if sv.pretendFail then (sv, [])
    else
      let (rs, acts) := dispatch u clientSocket sv.raftState msg
      ({ sv with raftState := rs }, acts)

end AIOServer

end Raft2PC
