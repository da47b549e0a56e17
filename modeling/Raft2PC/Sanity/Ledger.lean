import Raft2PC.Sanity.Merge
import Raft2PC.Sanity.Runs
import Raft2PC.Sanity.Tables

/-! What a step does to one server's log, locks and money, and the ledger of a run: every
movement of money with what caused it. -/

namespace Raft2PC

open AIOServer AppendEntriesExecutor

/-- Log, commit index and tables stay; a heart beat may move `coming_commit_index_`. -/
structure Untouched (a b : RaftState) : Prop where
  clusterId : b.clusterId = a.clusterId
  log : b.log = a.log
  commitIndex : b.commitIndex = a.commitIndex
  balances : b.localBalanceTb = a.localBalanceTb
  locks : b.localLock = a.localLock
  coming : b.comingCommitIndex = a.comingCommitIndex ∨
    b.comingCommitIndex + 1 = (a.log.length : ℤ)

theorem Untouched.refl (a : RaftState) : Untouched a a := ⟨rfl, rfl, rfl, rfl, rfl, Or.inl rfl⟩

theorem untouched_beat (u : Undefined) (rs : RaftState) :
    Untouched rs (broadcastHeartBeat u rs).1 :=
  ⟨rfl, rfl, rfl, rfl, rfl, Or.inr (by simp [broadcastHeartBeat])⟩

theorem untouched_timeout (u : Undefined) (sv : AIOServer) :
    Untouched sv.raftState (timeout u sv).1.raftState := by
  unfold timeout
  split_ifs
  · exact .refl _
  · dsimp only
    split
    · split_ifs <;> exact ⟨rfl, rfl, rfl, rfl, rfl, Or.inl rfl⟩
    · exact ⟨rfl, rfl, rfl, rfl, rfl, Or.inl rfl⟩
    · exact untouched_beat u _

theorem untouched_voteReq (fd : ℤ) (rs : RaftState) (req : RequestVoteReq) :
    Untouched rs (RequestVoteExecutor.executeReq fd rs req).1 := by
  unfold RequestVoteExecutor.executeReq
  dsimp only
  split_ifs <;> exact ⟨rfl, rfl, rfl, rfl, rfl, Or.inl rfl⟩

theorem untouched_voteRsp (u : Undefined) (fd : ℤ) (rs : RaftState) (rsp : RequestVoteRsp) :
    Untouched rs (dispatch u fd rs (.requestVoteRsp rsp)).1 := by
  have hrsp : Untouched rs (RequestVoteExecutor.executeRsp fd rs rsp).1 := by
    unfold RequestVoteExecutor.executeRsp
    dsimp only
    split_ifs <;> exact ⟨rfl, rfl, rfl, rfl, rfl, Or.inl rfl⟩
  simp only [dispatch]
  split_ifs
  · have hbeat := untouched_beat u (RequestVoteExecutor.executeRsp fd rs rsp).1
    exact ⟨hbeat.clusterId.trans hrsp.clusterId, hbeat.log.trans hrsp.log,
      hbeat.commitIndex.trans hrsp.commitIndex, hbeat.balances.trans hrsp.balances,
      hbeat.locks.trans hrsp.locks, Or.inr (by simp [broadcastHeartBeat, hrsp.log])⟩
  · exact hrsp

/-- The step runs a client's request on server `p`. -/
def serves (s : Cluster) (e : Event) (p : Idx) : Option ClientMsg :=
  match e.action with
  | .request q _ m => if q = p ∧ !(s.servers p).pretendFail then some m else none
  | _ => none

/-- The four ways in which a step can treat server `p`. -/
inductive Touch (s : Cluster) (e : Event) (p : Idx) : RaftState → Prop
  | untouched {rs : RaftState} (h : Untouched (s.raft p) rs) (hmove : commitMove s e p = none)
      (hserve : serves s e p = none) : Touch s e p rs
  | served (fd : ℤ) (m : ClientMsg) (he : e.action = .request p fd m)
      (hserve : serves s e p = some m) (hmove : commitMove s e p = none) :
      Touch s e p (serve e.undef fd (s.raft p) m)
  | accepted (req : AppendEntriesReq) (hacc : accepts e.undef (s.raft p) req = true)
      (hserve : serves s e p = none) (hmove : commitMove s e p = some req.commitIndex) :
      Touch s e p (accepted e.undef (s.raft p) req)
  | decided (fd : ℤ) (rsp : AppendEntriesRsp) (hdec : decides e.undef (s.raft p) rsp = true)
      (hserve : serves s e p = none)
      (hmove : commitMove s e p = some (s.raft p).comingCommitIndex) :
      Touch s e p (executeRsp e.undef fd (s.raft p) rsp).1

theorem Untouched.stepDown {a b : RaftState} (h : Untouched a b) (term : ℤ) :
    Untouched a (if b.currentTerm < term
      then { b with currentTerm := term, role := .follower } else b) := by
  split_ifs
  · exact ⟨h.clusterId, h.log, h.commitIndex, h.balances, h.locks, h.coming⟩
  · exact h

/-- A response that decides nothing. -/
theorem untouched_rsp {u : Undefined} {fd : ℤ} {rs : RaftState} {rsp : AppendEntriesRsp}
    (hno : decides u rs rsp = false) : Untouched rs (executeRsp u fd rs rsp).1 := by
  unfold executeRsp
  apply Untouched.stepDown
  by_cases hlead : rs.role = .leader ∧ rsp.term = rs.currentTerm
  · rw [if_pos hlead]
    by_cases hsucc : rsp.success = true
    · have hc : commits u { rs with logGrantedNum := rs.logGrantedNum + 1 } ≠ true := by
        simpa only [decides, hlead.1, hlead.2, hsucc, decide_true, Bool.true_and,
          Bool.not_eq_true] using hno
      rw [if_pos hsucc]
      simp only [onSuccess, if_neg hc]
      exact ⟨rfl, rfl, rfl, rfl, rfl, Or.inl rfl⟩
    · rw [if_neg hsucc]
      exact ⟨rfl, rfl, rfl, rfl, rfl, Or.inl rfl⟩
  · rw [if_neg hlead]
    exact .refl _

/-- A request the server accepts. -/
theorem append_taken {u : Undefined} {rs : RaftState} {req : AppendEntriesReq} (fd : ℤ)
    (hacc : accepts u rs req = true) : (executeReq u fd rs req).1 = accepted u rs req := by
  simp only [accepts, Bool.and_eq_true, decide_eq_true_eq, Bool.not_eq_true'] at hacc
  rw [append_accepted fd hacc.1 hacc.2]

/-- A request that is behind the times or does not match the log. -/
theorem untouched_append {u : Undefined} {rs : RaftState} {req : AppendEntriesReq} (fd : ℤ)
    (hno : accepts u rs req = false) : Untouched rs (executeReq u fd rs req).1 := by
  simp only [accepts, Bool.and_eq_false_iff, decide_eq_false_iff_not, Bool.not_eq_false',
    not_le] at hno
  by_cases hlt : req.term < rs.currentTerm
  · rw [append_stale u fd hlt]
    exact .refl _
  · rw [append_mismatched fd (not_lt.mp hlt) (hno.resolve_left hlt)]
    exact ⟨rfl, rfl, rfl, rfl, rfl, Or.inl rfl⟩

open Cluster in
theorem touch_deliver (s : Cluster) (p : Idx) {k : ℕ} {fd : ℤ} (u : Undefined) {c : Connection}
    (hk : s.net[k]? = some c) (hp : (s.servers c.reader).pretendFail = false) :
    Touch s ⟨.deliver k fd, u⟩ p ((s.step ⟨.deliver k fd, u⟩).raft p) := by
  obtain ⟨hraft, -⟩ := step_deliver fd u hk hp
  rw [hraft]
  obtain ⟨src, dst, call⟩ := c
  have hother : ∀ q, q ≠ p → commitMove s ⟨.deliver k fd, u⟩ p = none →
      Touch s ⟨.deliver k fd, u⟩ p
        (s.set q (dispatch u fd (s.raft q) (Connection.msg ⟨src, dst, call⟩)).1 p) := by
    intro q hq hmove
    rw [show s.set q _ p = s.raft p by simp [Cluster.set, Ne.symm hq]]
    exact .untouched (.refl _) hmove rfl
  have hself : ∀ rs : RaftState, s.set p rs p = rs := fun rs => by simp [Cluster.set]
  cases call with
  | voteReq req =>
    have hmove : commitMove s ⟨.deliver k fd, u⟩ p = none := by simp [commitMove, hk]
    by_cases hq : dst = p
    · subst hq
      exact .untouched (by rw [Connection.reader, hself]; exact untouched_voteReq fd _ req)
        hmove rfl
    · exact hother dst hq hmove
  | voteRsp req rsp =>
    have hmove : commitMove s ⟨.deliver k fd, u⟩ p = none := by simp [commitMove, hk]
    by_cases hq : src = p
    · subst hq
      exact .untouched (by rw [Connection.reader, hself]; exact untouched_voteRsp u fd _ rsp)
        hmove rfl
    · exact hother src hq hmove
  | appendReq req =>
    by_cases hq : dst = p
    · subst hq
      simp only [Connection.reader, Connection.msg, dispatch] at hp ⊢
      rw [hself]
      cases hacc : accepts u (s.raft dst) req with
      | true =>
        rw [append_taken fd hacc]
        exact .accepted req hacc rfl (by simp [commitMove, hk, hp, hacc])
      | false =>
        exact .untouched (untouched_append fd hacc) (by simp [commitMove, hk, hacc]) rfl
    · exact hother dst hq (by simp [commitMove, hk, hq])
  | appendRsp req rsp =>
    by_cases hq : src = p
    · subst hq
      simp only [Connection.reader, Connection.msg, dispatch] at hp ⊢
      rw [hself]
      cases hdec : decides u (s.raft src) rsp with
      | true => exact .decided fd rsp hdec rfl (by simp [commitMove, hk, hp, hdec])
      | false => exact .untouched (untouched_rsp hdec) (by simp [commitMove, hk, hdec]) rfl
    · exact hother src hq (by simp [commitMove, hk, hq])

open Cluster in
theorem touch_step (s : Cluster) (e : Event) (p : Idx) : Touch s e p ((s.step e).raft p) := by
  obtain ⟨action, u⟩ := e
  cases action with
  | lose k => exact .untouched (.refl _) rfl rfl
  | timeout q =>
    rw [(step_timeout s q u).1]
    refine .untouched ?_ rfl rfl
    by_cases hq : q = p
    · subst hq
      rw [show s.set q _ q = (timeout u (s.servers q)).1.raftState by simp [Cluster.set]]
      exact untouched_timeout u _
    · rw [show s.set q _ p = s.raft p by simp [Cluster.set, Ne.symm hq]]
      exact .refl _
  | request q fd m =>
    rw [(step_request s q fd m u).1]
    by_cases hq : q = p
    · subst hq
      cases hp : (s.servers q).pretendFail with
      | true =>
        rw [if_pos rfl, show s.set q (s.raft q) q = s.raft q by simp [Cluster.set]]
        exact .untouched (.refl _) rfl (by simp [serves, hp])
      | false =>
        rw [if_neg Bool.false_ne_true,
          show s.set q _ q = serve u fd (s.raft q) m by simp [Cluster.set]]
        exact .served fd m rfl (by simp [serves, hp]) rfl
    · rw [show s.set q _ p = s.raft p by simp [Cluster.set, Ne.symm hq]]
      exact .untouched (.refl _) rfl (by simp [serves, hq])
  | deliver k fd =>
    cases hk : s.net[k]? with
    | none =>
      rw [step_deliver_none fd u hk]
      exact .untouched (.refl _) (by simp [commitMove, hk]) rfl
    | some c =>
      cases hp : (s.servers c.reader).pretendFail with
      | true =>
        rw [(step_deliver_stopped fd u hk hp).1]
        refine .untouched (.refl _) ?_ rfl
        obtain ⟨src, dst, call⟩ := c
        cases call with
        | voteReq req | voteRsp req rsp => simp [commitMove, hk]
        | appendReq req =>
          by_cases hq : dst = p
          · subst hq; simp [commitMove, hk, show (s.servers dst).pretendFail = true from hp]
          · simp [commitMove, hk, hq]
        | appendRsp req rsp =>
          by_cases hq : src = p
          · subst hq; simp [commitMove, hk, show (s.servers src).pretendFail = true from hp]
          · simp [commitMove, hk, hq]
      | false => exact touch_deliver s p u hk hp

theorem decides_le {u : Undefined} {rs : RaftState} {rsp : AppendEntriesRsp}
    (hdec : decides u rs rsp = true) : rsp.term = rs.currentTerm := by
  simp only [decides, Bool.and_eq_true, decide_eq_true_eq] at hdec
  exact hdec.1.1.2

/-! ### Money -/

/-- What a transfer within the shard does to item `k`. -/
def Transfer.delta (t : Transfer) (k : ℤ) : ℤ :=
  (if k = t.senderId then -t.amount else 0) + if k = t.receiverId then t.amount else 0

/-- What a transfer across shards does to item `k` of cluster `cid`. -/
def CrossShardReq.delta (req : CrossShardReq) (cid k : ℤ) : ℤ :=
  (if req.senderClusterId = cid ∧ k = req.senderId then -req.amount else 0) +
    if req.receiverClusterId = cid ∧ k = req.receiverId then req.amount else 0

/-- Position `idx` holds an intra-shard command. -/
def isIntra (u : Undefined) (log : List LogEntry) (idx : ℤ) : Bool :=
  !isCross (readLog u log idx).command

/-- The transfer at position `idx`. -/
def transferAt (u : Undefined) (log : List LogEntry) (idx : ℤ) : Transfer :=
  sscanf u.locals paysFormat (readLog u log idx).command

theorem readLog_command {u : Undefined} {a b : List LogEntry}
    (hab : a.map LogEntry.entry = b.map LogEntry.entry) (i : ℤ) :
    (readLog u a i).command = (readLog u b i).command := by
  have hget : a[i.toNat]?.map LogEntry.entry = b[i.toNat]?.map LogEntry.entry := by
    rw [← List.getElem?_map, hab, List.getElem?_map]
  unfold readLog
  split_ifs
  · cases ha : a[i.toNat]? with
    | none =>
      rw [ha] at hget
      rw [Option.map_eq_none_iff.mp hget.symm]
    | some x =>
      rw [ha] at hget
      obtain ⟨y, hy, hxy⟩ := Option.map_eq_some_iff.mp hget.symm
      rw [hy]
      exact congrArg Entry.command hxy.symm
  · rfl

/-- The money moved by the intra-shard commands at some positions. -/
def paid (u : Undefined) (log : List LogEntry) (k : ℤ) (idxs : List ℤ) : ℤ :=
  ((idxs.filter (isIntra u log)).map fun idx => (transferAt u log idx).delta k).sum

@[simp] theorem paid_nil (u : Undefined) (log : List LogEntry) (k : ℤ) : paid u log k [] = 0 := rfl

theorem paid_cons (u : Undefined) (log : List LogEntry) (k idx : ℤ) (rest : List ℤ) :
    paid u log k (idx :: rest) =
      (if isIntra u log idx then (transferAt u log idx).delta k else 0) + paid u log k rest := by
  unfold paid
  rw [List.filter_cons]
  split_ifs
  · rw [List.map_cons, List.sum_cons]
  · rw [zero_add]

theorem paid_congr {u : Undefined} {a b : List LogEntry}
    (hab : a.map LogEntry.entry = b.map LogEntry.entry) (k : ℤ) (idxs : List ℤ) :
    paid u a k idxs = paid u b k idxs := by
  have hcmd := readLog_command (u := u) hab
  induction idxs with
  | nil => rfl
  | cons idx rest ih =>
    rw [paid_cons, paid_cons, ih, isIntra, isIntra, transferAt, transferAt, hcmd]

theorem balance_commitEntry (u : Undefined) (rs : RaftState) (idx k : ℤ) :
    (commitEntry u rs idx).1.balance k = rs.balance k +
      if isIntra u rs.log idx then (transferAt u rs.log idx).delta k else 0 := by
  have hclear : ∀ rs : RaftState, (clearFd rs idx).balance k = rs.balance k := fun _ => rfl
  unfold commitEntry
  dsimp only
  cases hcross : isCross (readLog u rs.log idx).command with
  | true =>
    simp only [isIntra, hcross, Bool.not_true, Bool.false_eq_true, if_false, if_true, add_zero]
    split_ifs <;> simp [hclear]
  | false =>
    simp only [isIntra, hcross, Bool.not_false, Bool.false_eq_true, if_false, if_true]
    split_ifs <;> simp only [hclear, RaftState.balance_setLock, RaftState.balance_addBalance,
      add_assoc] <;> rfl

theorem balance_commitEntries (u : Undefined) (rs : RaftState) (idxs : List ℤ) (k : ℤ) :
    (commitEntries u rs idxs).1.balance k = rs.balance k + paid u rs.log k idxs := by
  induction idxs generalizing rs with
  | nil => simp [commitEntries]
  | cons idx rest ih =>
    have hlog := (same_commitEntry u rs idx).2
    simp only [commitEntries]
    rw [ih, balance_commitEntry, paid_cons, paid_congr hlog, add_assoc]

/-- The leader's commit pays what lies between the old and the new commit index. -/
theorem balance_decided {u : Undefined} {fd : ℤ} {rs : RaftState} {rsp : AppendEntriesRsp}
    (hdec : decides u rs rsp = true) (k : ℤ) :
    (executeRsp u fd rs rsp).1.balance k =
      rs.balance k + paid u rs.log k (indices (rs.commitIndex + 1) rs.comingCommitIndex) := by
  obtain ⟨-, -, hbal⟩ := executeRsp_decided fd hdec
  rw [RaftState.balance, hbal]
  exact balance_commitEntries u { rs with logGrantedNum := rs.logGrantedNum + 1 }
    (indices (rs.commitIndex + 1) rs.comingCommitIndex) k

theorem get_applyLog (u : Undefined) (log : List LogEntry) (idxs : List ℤ) (tb : Table ℤ) (k : ℤ) :
    (idxs.foldl (fun tb idx => applyCommand u tb (readLog u log idx).command) tb).get k =
      tb.get k + paid u log k idxs := by
  induction idxs generalizing tb with
  | nil => simp
  | cons idx rest ih =>
    rw [List.foldl_cons, ih, paid_cons, ← add_assoc]
    congr 1
    unfold applyCommand isIntra
    cases hcross : isCross (readLog u log idx).command with
    | true => simp
    | false =>
      simp only [Table.get_add, Bool.false_eq_true, if_false, Bool.not_false, if_true, add_assoc]
      rfl

/-- So does the follower's, after the merge. -/
theorem balance_accepted (u : Undefined) (rs : RaftState) (req : AppendEntriesReq) (k : ℤ) :
    (accepted u rs req).balance k = rs.balance k +
      paid u (accepted u rs req).log k (indices (rs.commitIndex + 1) req.commitIndex) :=
  get_applyLog u _ _ _ k

theorem balance_intraConflict (rs : RaftState) (req : IntraShardReq) (k : ℤ) :
    (IntraShardExecutor.conflict rs req).2.balance k = rs.balance k := by
  unfold IntraShardExecutor.conflict
  dsimp only
  split_ifs <;> simp

theorem balance_crossConflict (rs : RaftState) (req : CrossShardReq) (k : ℤ) :
    (CrossShardExecutor.conflict rs req).2.balance k = rs.balance k := by
  unfold CrossShardExecutor.conflict CrossShardExecutor.senderConflict
    CrossShardExecutor.receiverConflict
  dsimp only
  split_ifs <;> simp

theorem balance_lockItems (rs : RaftState) (req : CrossShardReq) (k : ℤ) :
    (CrossShardExecutor.lockItems rs req).balance k = rs.balance k := by
  unfold CrossShardExecutor.lockItems
  dsimp only
  split_ifs <;> simp

theorem balance_transfer (rs : RaftState) (req : CrossShardReq) (k : ℤ) :
    (CrossShardExecutor.transfer rs req).balance k = rs.balance k + req.delta rs.clusterId k := by
  have hcid : (rs.addBalance req.senderId (-req.amount)).clusterId = rs.clusterId := rfl
  unfold CrossShardExecutor.transfer CrossShardReq.delta
  dsimp only
  by_cases hs : req.senderClusterId = rs.clusterId <;>
    by_cases hr : req.receiverClusterId = rs.clusterId <;> simp [hs, hr, hcid, add_assoc]

/-- The COMMIT whose transfer the handler carries out. -/
def moves (rs : RaftState) : ClientMsg → Option CrossShardReq
  | .crossShard req =>
    if (req.senderClusterId = rs.clusterId ∨ req.receiverClusterId = rs.clusterId) ∧
        req.phase = .commit ∧ CrossShardExecutor.commitSeen rs req = false then some req
    else none
  | _ => none

/-- Of all requests only a COMMIT moves money. -/
theorem balance_serve (u : Undefined) (fd : ℤ) (rs : RaftState) (m : ClientMsg) (k : ℤ) :
    (serve u fd rs m).balance k =
      rs.balance k + ((moves rs m).map fun req => req.delta rs.clusterId k).getD 0 := by
  cases m with
  | stop m | resume m => simp [serve, moves]
  | printBalance req | printDatastore req =>
    simp only [serve, ClientMsg.msg, dispatch, moves]
    split_ifs <;> simp [PrintBalanceExecutor.executeReq, PrintDatastoreExecutor.executeReq]
  | intraShard req =>
    simp only [serve, ClientMsg.msg, dispatch, moves, IntraShardExecutor.executeReq]
    split_ifs <;> simp [balance_intraConflict]
  | crossShard req =>
    simp only [serve, ClientMsg.msg, dispatch, moves]
    by_cases hcid : req.senderClusterId = rs.clusterId ∨ req.receiverClusterId = rs.clusterId
    · simp only [hcid, if_true, true_and, CrossShardExecutor.executeReq]
      cases hphase : req.phase with
      | prepare =>
        simp only [reduceCtorEq, false_and, if_false, Option.map_none, Option.getD_none, add_zero,
          CrossShardExecutor.prepare]
        split_ifs <;> simp [balance_crossConflict, balance_lockItems]
      | commit =>
        cases hseen : CrossShardExecutor.commitSeen rs req with
        | true => simp [CrossShardExecutor.commit, hseen]
        | false =>
          simp [CrossShardExecutor.commit, hseen, balance_transfer, RaftState.pushLog]
          rfl
      | abort =>
        simp only [reduceCtorEq, false_and, if_false, Option.map_none, Option.getD_none, add_zero,
          CrossShardExecutor.abort]
        split_ifs <;> simp
    · simp [hcid]

/-- The positions whose intra-shard commands a step applies to the balances of `p`. -/
def applied (s : Cluster) (e : Event) (p : Idx) : List ℤ :=
  match commitMove s e p with
  | some n => (indices ((s.raft p).commitIndex + 1) n).filter
      (isIntra e.undef ((s.step e).raft p).log)
  | none => []

/-- The COMMIT a step carries out on `p`. -/
def carried (s : Cluster) (e : Event) (p : Idx) : Option CrossShardReq :=
  (serves s e p).bind (moves (s.raft p))

/-- The balances move by the applied positions and the COMMIT carried out, and by nothing
else. -/
theorem balance_step (s : Cluster) (e : Event) (p : Idx) (k : ℤ) :
    ((s.step e).raft p).balance k = (s.raft p).balance k +
      ((applied s e p).map fun idx =>
        (transferAt e.undef ((s.step e).raft p).log idx).delta k).sum +
      ((carried s e p).map fun req => req.delta (s.raft p).clusterId k).getD 0 := by
  have htouch := touch_step s e p
  unfold applied carried
  generalize (s.step e).raft p = rs at htouch
  cases htouch with
  | untouched h hmove hserve =>
    rw [hmove, hserve]
    simp [RaftState.balance, h.balances]
  | served fd m he hserve hmove =>
    rw [hmove, hserve, balance_serve]
    simp
  | accepted req hacc hserve hmove =>
    rw [hmove, hserve, balance_accepted]
    simp [paid]
  | decided fd rsp hdec hserve hmove =>
    have hle : rsp.term ≤ (s.raft p).currentTerm := (decides_le hdec).le
    have hlog := (answered_executeRsp e.undef fd hle).entries
    rw [hmove, hserve, balance_decided hdec, ← paid_congr hlog]
    simp [paid]

theorem clusterId_step (s : Cluster) (e : Event) (p : Idx) :
    ((s.step e).raft p).clusterId = (s.raft p).clusterId := by
  have htouch := touch_step s e p
  generalize (s.step e).raft p = rs at htouch
  cases htouch with
  | untouched h hmove hserve => exact h.clusterId
  | served fd m he hserve hmove => exact (same_serve e.undef fd _ m).clusterId
  | accepted req hacc hserve hmove => rfl
  | decided fd rsp hdec hserve hmove =>
    exact (answered_executeRsp e.undef fd (decides_le hdec).le).clusterId

/-! ### The ledger of a run -/

/-- A movement of money on one server: the command at a position, or a COMMIT. -/
inductive Movement where
  | intra (pos : ℤ) (t : Transfer)
  | cross (req : CrossShardReq)

def Movement.delta (cid k : ℤ) : Movement → ℤ
  | .intra _ t => t.delta k
  | .cross req => req.delta cid k

/-- The movements of a step on server `p`. -/
def movements (s : Cluster) (e : Event) (p : Idx) : List Movement :=
  (applied s e p).map (fun idx => .intra idx (transferAt e.undef ((s.step e).raft p).log idx)) ++
    (carried s e p).toList.map .cross

def ledger (p : Idx) : Cluster → List Event → List Movement
  | _, [] => []
  | s, e :: es => movements s e p ++ ledger p (s.step e) es

/-- The balances are what the ledger says. -/
theorem balance_run (p : Idx) (s : Cluster) (es : List Event) (k : ℤ) :
    ((s.run es).raft p).balance k = (s.raft p).balance k +
      ((ledger p s es).map (Movement.delta (s.raft p).clusterId k)).sum := by
  induction es generalizing s with
  | nil => simp [Cluster.run, ledger]
  | cons e es ih =>
    have hstep : ((movements s e p).map (Movement.delta (s.raft p).clusterId k)).sum =
        ((applied s e p).map fun idx =>
          (transferAt e.undef ((s.step e).raft p).log idx).delta k).sum +
        ((carried s e p).map fun req => req.delta (s.raft p).clusterId k).getD 0 := by
      rw [movements, List.map_append, List.sum_append, List.map_map, List.map_map]
      congr 1
      cases carried s e p <;> simp [Movement.delta]
    have hrun : (s.run (e :: es)).raft p = ((s.step e).run es).raft p := rfl
    rw [hrun, ih, ledger, List.map_append, List.sum_append, hstep, balance_step, clusterId_step]
    omega

end Raft2PC
