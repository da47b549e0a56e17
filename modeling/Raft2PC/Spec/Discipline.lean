import Raft2PC.Spec.Cluster

/-! The steps on which the code departs from Raft, as tests on the state before the step. -/

namespace Raft2PC

open IntraShardExecutor CrossShardExecutor

/-- The entry a request appends, if it passes the tests of its handler. -/
def created (fd : ℤ) (rs : RaftState) : ClientMsg → Option LogEntry
  | .intraShard req =>
    if req.clusterId = rs.clusterId ∧ ¬(IntraShardExecutor.conflict rs req).1 ∧ ¬seen rs req then
      some
        { term := rs.currentTerm
          index := rs.log.length
          command := fmtPays req.senderId req.receiverId req.amount
          id := req.id
          reqFd := fd }
    else none
  | .crossShard req =>
    if req.senderClusterId = rs.clusterId ∨ req.receiverClusterId = rs.clusterId then
      match req.phase with
      | .prepare =>
        if (CrossShardExecutor.conflict rs req).1 ∨ prepareSeen rs req then none
        else some
          { term := rs.currentTerm
            index := rs.log.length
            command := prepareCommand req
            id := req.id
            reqFd := fd }
      | .commit =>
        if commitSeen rs req then none
        else some
          { term := decisionTerm rs
            index := rs.log.length
            command := commitCommand req
            id := req.id
            reqFd := -1 }
      | .abort =>
        if abortSeen rs req then none
        else some
          { term := decisionTerm rs
            index := rs.log.length
            command := abortCommand req
            id := req.id
            reqFd := -1 }
    else none
  | _ => none

/-- An entry is created by a leader only. -/
def leaderAppends (s : Cluster) (e : Event) : Bool :=
  match e.action with
  | .request p fd m =>
    (s.servers p).pretendFail || (s.raft p).role = .leader || (created fd (s.raft p) m).isNone
  | _ => true

def grants (rs : RaftState) (req : RequestVoteReq) : Bool :=
  !RequestVoteExecutor.refuses rs req && (rs.currentTerm < req.term || rs.votedFor = -1)

def upToDate (rs : RaftState) (req : RequestVoteReq) : Bool :=
  rs.lastlogterm < req.lastLogTerm ||
    (rs.lastlogterm = req.lastLogTerm && rs.lastlogindex ≤ req.lastLogIndex)

/-- A vote goes to a candidate at least as up to date as the voter. -/
def votesChecked (s : Cluster) (e : Event) : Bool :=
  match e.action with
  | .deliver k _ =>
    match s.net[k]? with
    | some ⟨_, dst, .voteReq req⟩ =>
      (s.servers dst).pretendFail || !grants (s.raft dst) req || upToDate (s.raft dst) req
    | _ => true
  | _ => true

/-- The end of the part of the leader's log a request covers. -/
def covered (req : AppendEntriesReq) : ℤ := req.prevLogIndex + 1 + req.entries.length

/-- The request is of no earlier term and matches the log of the server that reads it. -/
def accepts (u : Undefined) (rs : RaftState) (req : AppendEntriesReq) : Bool :=
  rs.currentTerm ≤ req.term && !AppendEntriesExecutor.mismatch u rs req

/-- The response makes the leader move `commit_index_` to `coming_commit_index_`. -/
def decides (u : Undefined) (rs : RaftState) (rsp : AppendEntriesRsp) : Bool :=
  rs.role = .leader && rsp.term = rs.currentTerm && rsp.success &&
    AppendEntriesExecutor.commits u { rs with logGrantedNum := rs.logGrantedNum + 1 }

/-- A response that raises `commit_index_` answers a request that carried the log up to
`coming_commit_index_`. -/
def commitsCovered (s : Cluster) (e : Event) : Bool :=
  match e.action with
  | .deliver k _ =>
    match s.net[k]? with
    | some ⟨src, _, .appendRsp req rsp⟩ =>
      (s.servers src).pretendFail || !decides e.undef (s.raft src) rsp ||
        (s.raft src).comingCommitIndex ≤ (s.raft src).commitIndex ||
        (s.raft src).comingCommitIndex < covered req
    | _ => true
  | _ => true

/-- A request is accepted only where it says what stands before its entries. -/
def probesAnchored (s : Cluster) (e : Event) : Bool :=
  match e.action with
  | .deliver k _ =>
    match s.net[k]? with
    | some ⟨_, dst, .appendReq req⟩ =>
      (s.servers dst).pretendFail || !accepts e.undef (s.raft dst) req || -1 ≤ req.prevLogIndex
    | _ => true
  | _ => true

/-- The value a step gives `commit_index_` of server `p`, if it sets it. -/
def commitMove (s : Cluster) (e : Event) (p : Idx) : Option ℤ :=
  match e.action with
  | .deliver k _ =>
    match s.net[k]? with
    | some ⟨_, dst, .appendReq req⟩ =>
      if dst = p ∧ !(s.servers p).pretendFail ∧ accepts e.undef (s.raft p) req then
        some req.commitIndex
      else none
    | some ⟨src, _, .appendRsp _ rsp⟩ =>
      if src = p ∧ !(s.servers p).pretendFail ∧ decides e.undef (s.raft p) rsp then
        some (s.raft p).comingCommitIndex
      else none
    | _ => none
  | _ => none

/-- No server is told, or decides, to commit less than it has. -/
def commitsForward (s : Cluster) (e : Event) : Bool :=
  (List.finRange SERVER_NUM_PER_CLUSTER).all fun p =>
    (commitMove s e p).all fun n => (s.raft p).commitIndex ≤ n

end Raft2PC
