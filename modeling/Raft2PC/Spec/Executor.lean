import Raft2PC.Spec.RaftState

/-! The six executors. A handler takes the server's state and a message and returns
the new state with what it asks the I/O layer to do. -/

namespace Raft2PC

def SERVER_NUM_PER_CLUSTER : ℕ := 3

instance : NeZero SERVER_NUM_PER_CLUSTER := ⟨by decide⟩

/-- A server by its index in the cluster. -/
abbrev Idx := Fin SERVER_NUM_PER_CLUSTER

inductive AIOMessageType where
  | waitResponse
  | noResponse
deriving DecidableEq, Repr

inductive Peer where
  | routingService
  | server (idx : Idx)
deriving DecidableEq, Repr

/-- The requests made to `AsyncIO`, to the file system and to the process. -/
inductive AIOAction where
  | writeMsg (clientSocket : ℤ) (msg : WrapperMessage)
  | connect (peer : Peer) (msg : WrapperMessage) (msgType : AIOMessageType)
  | close (clientSocket : ℤ)
  | updateDataShard
  | fatalError
deriving DecidableEq, Repr

namespace RequestVoteExecutor

/-- `RequestVoteReq` with an old term, or of the same term and no longer log. -/
def refuses (rs : RaftState) (req : RequestVoteReq) : Bool :=
  req.term < rs.currentTerm ||
    (req.term = rs.currentTerm && req.lastLogIndex ≤ rs.lastlogindex)

def executeReq (clientSocket : ℤ) (rs : RaftState) (req : RequestVoteReq) :
    RaftState × List AIOAction :=
  let reply (rsp : RequestVoteRsp) := [AIOAction.writeMsg clientSocket (.requestVoteRsp rsp)]
  if refuses rs req then
    (rs, reply { term := rs.currentTerm, voteGranted := false })
  else
    let rs := if rs.currentTerm < req.term
      then { rs with currentTerm := req.term, votedFor := -1 } else rs
    if rs.votedFor = -1 then
      ({ rs with votedFor := req.candidateId, role := .follower, heardHeartBeat := true },
        reply { term := rs.currentTerm, voteGranted := true })
    else
      (rs, reply { term := rs.currentTerm, voteGranted := false })

def executeRsp (clientSocket : ℤ) (rs : RaftState) (rsp : RequestVoteRsp) :
    RaftState × List AIOAction :=
  let rs :=
    if rs.role = .candidate ∧ rsp.term = rs.currentTerm ∧ rsp.voteGranted then
      let rs := { rs with voteGrantedNum := rs.voteGrantedNum + 1 }
      if 2 ≤ rs.voteGrantedNum then
        { rs with
          role := .leader
          matchedLogSize := List.replicate SERVER_NUM_PER_CLUSTER (rs.log.length : ℤ) }
      else rs
    else rs
  let rs := if rs.currentTerm < rsp.term
    then { rs with currentTerm := rsp.term, role := .follower } else rs
  (rs, [.close clientSocket])

end RequestVoteExecutor

def isCross (command : Text) : Bool := command.head? = some '['

def isPrepare (command : Text) : Bool := command.take 9 = "[PREPARE]".toList

def isCommit (command : Text) : Bool := command.take 8 = "[COMMIT]".toList

def isAbort (command : Text) : Bool := command.take 7 = "[ABORT]".toList

/-- The loop variable of `for (int idx = lo; idx <= hi; idx++)`. -/
def indices (lo hi : ℤ) : List ℤ := (List.range (hi + 1 - lo).toNat).map fun k : ℕ => lo + k

namespace AppendEntriesExecutor

/-- No entry at `prevLogIndex`, or one of another term. -/
def mismatch (u : Undefined) (rs : RaftState) (req : AppendEntriesReq) : Bool :=
  (rs.log.length : ℤ) ≤ req.prevLogIndex ||
    (0 ≤ req.prevLogIndex && (readLog u rs.log req.prevLogIndex).term ≠ req.prevLogTerm)

/-- A replicated entry has no pending connection. -/
def ofEntry (e : Entry) : LogEntry :=
  { term := e.term, index := e.index, command := e.command, id := e.id, reqFd := -1 }

/-- The search for the first unmatched entry, the truncation and the copy: `pos` is
`log_idx_base + idx`. -/
def mergeEntries (u : Undefined) (log : List LogEntry) (pos : ℤ) : List Entry → List LogEntry
  | [] => log
  | e :: es =>
    if (log.length : ℤ) ≤ pos ∨ e.term ≠ (readLog u log pos).term then
      log.take pos.toNat ++ (e :: es).map ofEntry
    else mergeEntries u log (pos + 1) es

/-- The follower's commit of one entry: only intra-shard transactions move money. -/
def applyCommand (u : Undefined) (tb : Table ℤ) (command : Text) : Table ℤ :=
  if isCross command then tb
  else
    let t := sscanf u.locals paysFormat command
    (tb.add t.senderId (-t.amount)).add t.receiverId t.amount

def applyLog (u : Undefined) (rs : RaftState) (commitIndex : ℤ) : Table ℤ :=
  (indices (rs.commitIndex + 1) commitIndex).foldl
    (fun tb idx => applyCommand u tb (readLog u rs.log idx).command) rs.localBalanceTb

def executeReq (u : Undefined) (clientSocket : ℤ) (rs : RaftState) (req : AppendEntriesReq) :
    RaftState × List AIOAction :=
  let reply (rsp : AppendEntriesRsp) := [AIOAction.writeMsg clientSocket (.appendEntriesRsp rsp)]
  if req.term < rs.currentTerm then
    (rs, reply { term := rs.currentTerm, success := false, serverId := req.serverId })
  else
    let rs := if rs.currentTerm < req.term then { rs with currentTerm := req.term } else rs
    let rs := { rs with role := .follower, heardHeartBeat := true }
    if mismatch u rs req then
      (rs, reply { term := rs.currentTerm, success := false, serverId := req.serverId })
    else
      let rs := { rs with log := mergeEntries u rs.log (req.prevLogIndex + 1) req.entries }
      let rs := { rs with localBalanceTb := applyLog u rs req.commitIndex }
      let rs := { rs with commitIndex := req.commitIndex }
      (rs, reply { term := rs.currentTerm, success := true, serverId := req.serverId })

def clearFd (rs : RaftState) (idx : ℤ) : RaftState :=
  { rs with log := rs.log.modify idx.toNat fun e => { e with reqFd := -1 } }

/-- One round of the leader's commit loop. -/
def commitEntry (u : Undefined) (rs : RaftState) (idx : ℤ) : RaftState × List AIOAction :=
  let e := readLog u rs.log idx
  if isCross e.command then
    if isPrepare e.command then
      let t := sscanf u.locals prepareFormat e.command
      let rs := (rs.setLock t.senderId false).setLock t.receiverId false
      if e.reqFd ≠ -1 then
        (clearFd rs idx, [.writeMsg e.reqFd (.crossShardRsp { result := .yes, id := e.id })])
      else (rs, [])
    else (rs, [])
  else
    let t := sscanf u.locals paysFormat e.command
    let rs := (rs.addBalance t.senderId (-t.amount)).addBalance t.receiverId t.amount
    let rs := (rs.setLock t.senderId false).setLock t.receiverId false
    if e.reqFd ≠ -1 then
      (clearFd rs idx, [.writeMsg e.reqFd (.intraShardRsp { result := .success, id := e.id })])
    else (rs, [])

def commitEntries (u : Undefined) : RaftState → List ℤ → RaftState × List AIOAction
  | rs, [] => (rs, [])
  | rs, idx :: rest =>
    let step := commitEntry u rs idx
    let tail := commitEntries u step.1 rest
    (tail.1, step.2 ++ tail.2)

/-- The leader commits everything up to `coming_commit_index_`. -/
def commitLog (u : Undefined) (rs : RaftState) : RaftState × List AIOAction :=
  let done := commitEntries u rs (indices (rs.commitIndex + 1) rs.comingCommitIndex)
  if rs.commitIndex ≠ rs.comingCommitIndex then
    ({ done.1 with commitIndex := rs.comingCommitIndex }, done.2 ++ [.updateDataShard])
  else done

/-- `matched_log_size_[serverId % SERVER_NUM_PER_CLUSTER] = n`. -/
def setMatched (rs : RaftState) (serverId n : ℤ) : RaftState :=
  { rs with
    matchedLogSize := rs.matchedLogSize.set (serverId % SERVER_NUM_PER_CLUSTER).toNat n }

/-- Majority reached and the last entry to commit is of the current term. -/
def commits (u : Undefined) (rs : RaftState) : Bool :=
  2 ≤ rs.logGrantedNum && 0 ≤ rs.comingCommitIndex &&
    (readLog u rs.log rs.comingCommitIndex).term = rs.currentTerm

def onSuccess (u : Undefined) (rs : RaftState) (rsp : AppendEntriesRsp) :
    RaftState × List AIOAction :=
  let rs := { rs with logGrantedNum := rs.logGrantedNum + 1 }
  let done := if commits u rs then commitLog u rs else (rs, [])
  (setMatched done.1 rsp.serverId (done.1.comingCommitIndex + 1), done.2)

/-- A follower's log does not match: try one entry earlier next time. -/
def onFailure (rs : RaftState) (rsp : AppendEntriesRsp) : RaftState × List AIOAction :=
  (setMatched rs rsp.serverId
    (rs.matched (rsp.serverId % SERVER_NUM_PER_CLUSTER).toNat - 1), [])

def executeRsp (u : Undefined) (clientSocket : ℤ) (rs : RaftState) (rsp : AppendEntriesRsp) :
    RaftState × List AIOAction :=
  let done :=
    if rs.role = .leader ∧ rsp.term = rs.currentTerm then
      if rsp.success then onSuccess u rs rsp else onFailure rs rsp
    else (rs, [])
  let rs := if done.1.currentTerm < rsp.term
    then { done.1 with currentTerm := rsp.term, role := .follower } else done.1
  (rs, done.2 ++ [.close clientSocket])

end AppendEntriesExecutor

namespace IntraShardExecutor

def seen (rs : RaftState) (req : IntraShardReq) : Bool := rs.log.any fun e => e.id = req.id

/-- The first test, with the keys it inserts: an item in use, or too little money. -/
def conflict (rs : RaftState) (req : IntraShardReq) : Bool × RaftState :=
  let rs := rs.touchLock req.senderId
  if rs.locked req.senderId then (true, rs)
  else
    let rs := rs.touchLock req.receiverId
    if rs.locked req.receiverId then (true, rs)
    else
      let rs := rs.touchBalance req.senderId
      (rs.balance req.senderId < req.amount, rs)

def executeReq (clientSocket : ℤ) (rs : RaftState) (req : IntraShardReq) :
    RaftState × List AIOAction :=
  let refusal := [AIOAction.writeMsg clientSocket (.intraShardRsp { result := .fail, id := req.id })]
  let (refused, rs) := conflict rs req
  if refused then (rs, refusal)
  else if seen rs req then (rs, refusal)
  else
    let rs := rs.pushLog
      { term := rs.currentTerm
        index := rs.log.length
        command := fmtPays req.senderId req.receiverId req.amount
        id := req.id
        reqFd := clientSocket }
    ((rs.setLock req.senderId true).setLock req.receiverId true, [])

end IntraShardExecutor

namespace CrossShardExecutor

def senderConflict (rs : RaftState) (req : CrossShardReq) : Bool × RaftState :=
  if req.senderClusterId = rs.clusterId then
    let rs := rs.touchLock req.senderId
    if rs.locked req.senderId then (true, rs)
    else
      let rs := rs.touchBalance req.senderId
      (rs.balance req.senderId < req.amount, rs)
  else (false, rs)

def receiverConflict (rs : RaftState) (req : CrossShardReq) : Bool × RaftState :=
  if req.receiverClusterId = rs.clusterId then
    let rs := rs.touchLock req.receiverId
    (rs.locked req.receiverId, rs)
  else (false, rs)

def conflict (rs : RaftState) (req : CrossShardReq) : Bool × RaftState :=
  let (refused, rs) := senderConflict rs req
  if refused then (true, rs) else receiverConflict rs req

def prepareCommand (req : CrossShardReq) : Text :=
  "[PREPARE] ".toList ++ fmtPays req.senderId req.receiverId req.amount

def commitCommand (req : CrossShardReq) : Text :=
  "[COMMIT] ".toList ++ fmtPays req.senderId req.receiverId req.amount

def abortCommand (req : CrossShardReq) : Text :=
  "[ABORT] ".toList ++ fmtPays req.senderId req.receiverId req.amount

/-- Set the locks of the ends that lie in this cluster. -/
def lockItems (rs : RaftState) (req : CrossShardReq) : RaftState :=
  let rs := if req.senderClusterId = rs.clusterId then rs.setLock req.senderId true else rs
  if req.receiverClusterId = rs.clusterId then rs.setLock req.receiverId true else rs

/-- Move the money of the ends that lie in this cluster. -/
def transfer (rs : RaftState) (req : CrossShardReq) : RaftState :=
  let rs := if req.senderClusterId = rs.clusterId
    then rs.addBalance req.senderId (-req.amount) else rs
  if req.receiverClusterId = rs.clusterId then rs.addBalance req.receiverId req.amount else rs

/-- The term of a [COMMIT] or [ABORT] entry. -/
def decisionTerm (rs : RaftState) : ℤ := if rs.role = .leader then rs.currentTerm else -1

def reply (clientSocket : ℤ) (req : CrossShardReq) (result : CrossShardResultType) :
    List AIOAction :=
  [.writeMsg clientSocket (.crossShardRsp { result := result, id := req.id })]

/-- PREPARE of this id is in the log already, or its ABORT. -/
def prepareSeen (rs : RaftState) (req : CrossShardReq) : Bool :=
  rs.log.any fun e => e.id = req.id && (isPrepare e.command || isAbort e.command)

def commitSeen (rs : RaftState) (req : CrossShardReq) : Bool :=
  rs.log.any fun e => e.id = req.id && isCommit e.command

def abortSeen (rs : RaftState) (req : CrossShardReq) : Bool :=
  rs.log.any fun e => e.id = req.id && isAbort e.command

def prepare (clientSocket : ℤ) (rs : RaftState) (req : CrossShardReq) :
    RaftState × List AIOAction :=
  let (refused, rs) := conflict rs req
  if refused then (rs, reply clientSocket req .no)
  else if prepareSeen rs req then (rs, reply clientSocket req .no)
  else
    let rs := rs.pushLog
      { term := rs.currentTerm
        index := rs.log.length
        command := prepareCommand req
        id := req.id
        reqFd := clientSocket }
    (lockItems rs req, [])

def commit (clientSocket : ℤ) (rs : RaftState) (req : CrossShardReq) :
    RaftState × List AIOAction :=
  if commitSeen rs req then (rs, reply clientSocket req .ack)
  else
    let rs := rs.pushLog
      { term := decisionTerm rs
        index := rs.log.length
        command := commitCommand req
        id := req.id
        reqFd := -1 }
    (transfer rs req, .updateDataShard :: reply clientSocket req .ack)

def abort (clientSocket : ℤ) (rs : RaftState) (req : CrossShardReq) :
    RaftState × List AIOAction :=
  if abortSeen rs req then (rs, reply clientSocket req .ack)
  else
    let rs := rs.pushLog
      { term := decisionTerm rs
        index := rs.log.length
        command := abortCommand req
        id := req.id
        reqFd := -1 }
    (rs, reply clientSocket req .ack)

def executeReq (clientSocket : ℤ) (rs : RaftState) (req : CrossShardReq) :
    RaftState × List AIOAction :=
  match req.phase with
  | .prepare => prepare clientSocket rs req
  | .commit => commit clientSocket rs req
  | .abort => abort clientSocket rs req

end CrossShardExecutor

def PrintBalanceExecutor.executeReq (clientSocket : ℤ) (rs : RaftState) (req : PrintBalanceReq) :
    RaftState × List AIOAction :=
  (rs, [.writeMsg clientSocket (.printBalanceRsp
    { clusterId := req.clusterId
      serverId := req.serverId
      dataItemID := req.dataItemID
      balance := (rs.localBalanceTb.lookup req.dataItemID).getD (-1) })])

/-- The committed entries as `PrintDatastoreRsp` lists them; the id is not copied. -/
def PrintDatastoreExecutor.entries (u : Undefined) (rs : RaftState) : List Entry :=
  (indices 0 rs.commitIndex).map fun idx =>
    let e := readLog u rs.log idx
    { term := e.term, index := e.index, command := e.command, id := 0 }

def PrintDatastoreExecutor.executeReq (u : Undefined) (clientSocket : ℤ) (rs : RaftState)
    (req : PrintDatastoreReq) : RaftState × List AIOAction :=
  (rs, [.writeMsg clientSocket (.printDatastoreRsp
    { clusterId := req.clusterId
      serverId := req.serverId
      entries := PrintDatastoreExecutor.entries u rs })])

end Raft2PC
