import Raft2PC.Spec.Discipline

/-! Where the program indexes `log_`: which positions each function reads, and of a vector
of what size. -/

namespace Raft2PC

/-- `log_[index]`, evaluated when `log_.size()` is `size`. -/
structure Access where
  size : ℕ
  index : ℤ
deriving DecidableEq, Repr

def Access.InVector (a : Access) : Prop := 0 ≤ a.index ∧ a.index < a.size

instance (a : Access) : Decidable a.InVector := inferInstanceAs (Decidable (_ ∧ _))

def accessesOf (log : List LogEntry) (idxs : List ℤ) : List Access :=
  idxs.map fun i => ⟨log.length, i⟩

/-- `prevlogterm`. -/
def RaftState.prevAccess (rs : RaftState) (idx : ℕ) : List ℤ :=
  if rs.matched idx = 0 then [] else [rs.matched idx - 1]

namespace AIOServer

/-- The entry loop of `broadcast_heart_beat`. -/
def entryAccess (rs : RaftState) (idx : ℕ) : List ℤ :=
  if rs.matched idx < 0 then [] else indices (rs.matched idx) ((rs.log.length : ℤ) - 1)

def beatAccess (rs : RaftState) : List Access :=
  accessesOf rs.log ((others rs).flatMap fun idx : Idx => rs.prevAccess idx ++ entryAccess rs idx)

end AIOServer

namespace AppendEntriesExecutor

/-- The test of the previous entry. -/
def checkAccess (rs : RaftState) (req : AppendEntriesReq) : List ℤ :=
  if (rs.log.length : ℤ) ≤ req.prevLogIndex ∨ req.prevLogIndex < 0 then [] else [req.prevLogIndex]

/-- The search for the first unmatched entry. -/
def mergeAccess (u : Undefined) (log : List LogEntry) (pos : ℤ) : List Entry → List ℤ
  | [] => []
  | e :: es =>
    if (log.length : ℤ) ≤ pos then []
    else pos :: if e.term ≠ (readLog u log pos).term then [] else mergeAccess u log (pos + 1) es

def reqAccess (u : Undefined) (rs : RaftState) (req : AppendEntriesReq) : List Access :=
  if req.term < rs.currentTerm then []
  else
    let check := accessesOf rs.log (checkAccess rs req)
    if mismatch u rs req then check
    else
      let pos := req.prevLogIndex + 1
      check ++ accessesOf rs.log (mergeAccess u rs.log pos req.entries) ++
        accessesOf (mergeEntries u rs.log pos req.entries)
          (indices (rs.commitIndex + 1) req.commitIndex)

/-- The entry to commit up to, and the commit loop. -/
def rspAccess (u : Undefined) (rs : RaftState) (rsp : AppendEntriesRsp) : List Access :=
  if rs.role = .leader ∧ rsp.term = rs.currentTerm ∧ rsp.success then
    accessesOf rs.log ((if 2 ≤ rs.logGrantedNum + 1 ∧ 0 ≤ rs.comingCommitIndex
        then [rs.comingCommitIndex] else []) ++
      if decides u rs rsp then indices (rs.commitIndex + 1) rs.comingCommitIndex else [])
  else []

end AppendEntriesExecutor

namespace AIOServer

def timeoutAccess (sv : AIOServer) : List Access :=
  if sv.pretendFail = false ∧ sv.raftState.role = .leader then beatAccess sv.raftState else []

def dispatchAccess (u : Undefined) (fd : ℤ) (rs : RaftState) : WrapperMessage → List Access
  | .appendEntriesReq req => AppendEntriesExecutor.reqAccess u rs req
  | .appendEntriesRsp rsp => AppendEntriesExecutor.rspAccess u rs rsp
  | .requestVoteRsp rsp =>
    let rs := (RequestVoteExecutor.executeRsp fd rs rsp).1
    if rs.role = .leader then beatAccess rs else []
  | .printDatastoreReq req =>
    if req.clusterId = rs.clusterId ∧ req.serverId = rs.serverId then
      accessesOf rs.log (indices 0 rs.commitIndex)
    else []
  | _ => []

end AIOServer

def Cluster.accesses (s : Cluster) (e : Event) : List Access :=
  match e.action with
  | .timeout p => (s.servers p).timeoutAccess
  | .request p fd m =>
    if (s.servers p).pretendFail then [] else AIOServer.dispatchAccess e.undef fd (s.raft p) m.msg
  | .deliver k fd =>
    match s.net[k]? with
    | some c =>
      if (s.servers c.reader).pretendFail then []
      else AIOServer.dispatchAccess e.undef fd (s.raft c.reader) c.msg
    | none => []
  | .lose _ => []

/-- A leader that is told of a failure lowers a counter above 0. -/
def probesLeft (s : Cluster) (e : Event) : Bool :=
  match e.action with
  | .deliver k _ =>
    match s.net[k]? with
    | some ⟨src, _, .appendRsp _ rsp⟩ =>
      (s.servers src).pretendFail || (s.raft src).role ≠ .leader ||
        rsp.term ≠ (s.raft src).currentTerm || rsp.success ||
        0 < (s.raft src).matched (rsp.serverId % SERVER_NUM_PER_CLUSTER).toNat
    | _ => true
  | _ => true

end Raft2PC
