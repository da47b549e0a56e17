import Raft2PC.Sanity.Commands
import Raft2PC.Sanity.Ledger

/-! Locks: what a request must find to be admitted, what it locks, and what the leader's
commit unlocks. -/

namespace Raft2PC

open AIOServer AppendEntriesExecutor

/-- The requests that append an entry, with what the tests of their handlers saw. -/
inductive Admission (fd : ℤ) (rs : RaftState) : ClientMsg → LogEntry → Prop
  | intra (req : IntraShardReq) (hcid : req.clusterId = rs.clusterId)
      (hsender : rs.locked req.senderId = false) (hreceiver : rs.locked req.receiverId = false)
      (hcovered : req.amount ≤ rs.balance req.senderId) :
      Admission fd rs (.intraShard req)
        { term := rs.currentTerm
          index := rs.log.length
          command := fmtPays req.senderId req.receiverId req.amount
          id := req.id
          reqFd := fd }
  | prepare (req : CrossShardReq) (hphase : req.phase = .prepare)
      (hsender : req.senderClusterId = rs.clusterId →
        rs.locked req.senderId = false ∧ req.amount ≤ rs.balance req.senderId)
      (hreceiver : req.receiverClusterId = rs.clusterId → rs.locked req.receiverId = false)
      (hnew : CrossShardExecutor.prepareSeen rs req = false) :
      Admission fd rs (.crossShard req)
        { term := rs.currentTerm
          index := rs.log.length
          command := CrossShardExecutor.prepareCommand req
          id := req.id
          reqFd := fd }
  | commit (req : CrossShardReq) (hphase : req.phase = .commit)
      (hcid : req.senderClusterId = rs.clusterId ∨ req.receiverClusterId = rs.clusterId)
      (hnew : CrossShardExecutor.commitSeen rs req = false) :
      Admission fd rs (.crossShard req)
        { term := CrossShardExecutor.decisionTerm rs
          index := rs.log.length
          command := CrossShardExecutor.commitCommand req
          id := req.id
          reqFd := -1 }
  | abort (req : CrossShardReq) (hphase : req.phase = .abort) :
      Admission fd rs (.crossShard req)
        { term := CrossShardExecutor.decisionTerm rs
          index := rs.log.length
          command := CrossShardExecutor.abortCommand req
          id := req.id
          reqFd := -1 }

theorem intraConflict_eq_false {rs : RaftState} {req : IntraShardReq}
    (h : (IntraShardExecutor.conflict rs req).1 = false) :
    rs.locked req.senderId = false ∧ rs.locked req.receiverId = false ∧
      req.amount ≤ rs.balance req.senderId := by
  unfold IntraShardExecutor.conflict at h
  dsimp only at h
  split_ifs at h with hs hr
  simp only [RaftState.locked_touchLock, Bool.not_eq_true] at hs hr
  simp only [RaftState.balance_touchBalance, RaftState.balance_touchLock,
    decide_eq_false_iff_not, not_lt] at h
  exact ⟨hs, hr, h⟩

theorem senderConflict_eq_false {rs : RaftState} {req : CrossShardReq}
    (h : (CrossShardExecutor.senderConflict rs req).1 = false)
    (hcid : req.senderClusterId = rs.clusterId) :
    rs.locked req.senderId = false ∧ req.amount ≤ rs.balance req.senderId := by
  unfold CrossShardExecutor.senderConflict at h
  rw [if_pos hcid] at h
  dsimp only at h
  split_ifs at h with hs
  simp only [RaftState.locked_touchLock, Bool.not_eq_true] at hs
  simp only [RaftState.balance_touchBalance, RaftState.balance_touchLock,
    decide_eq_false_iff_not, not_lt] at h
  exact ⟨hs, h⟩

theorem locked_senderConflict (rs : RaftState) (req : CrossShardReq) (k : ℤ) :
    (CrossShardExecutor.senderConflict rs req).2.locked k = rs.locked k := by
  unfold CrossShardExecutor.senderConflict
  dsimp only
  split_ifs <;> simp

theorem crossConflict_eq_false {rs : RaftState} {req : CrossShardReq}
    (h : (CrossShardExecutor.conflict rs req).1 = false) :
    (req.senderClusterId = rs.clusterId →
      rs.locked req.senderId = false ∧ req.amount ≤ rs.balance req.senderId) ∧
    (req.receiverClusterId = rs.clusterId → rs.locked req.receiverId = false) := by
  unfold CrossShardExecutor.conflict at h
  dsimp only at h
  cases hs : (CrossShardExecutor.senderConflict rs req).1 with
  | true => simp [hs] at h
  | false =>
    rw [hs, if_neg Bool.false_ne_true] at h
    refine ⟨senderConflict_eq_false hs, fun hcid => ?_⟩
    have hcid' : req.receiverClusterId =
        (CrossShardExecutor.senderConflict rs req).2.clusterId := by
      rw [hcid]
      unfold CrossShardExecutor.senderConflict
      dsimp only
      split_ifs <;> rfl
    unfold CrossShardExecutor.receiverConflict at h
    rw [if_pos hcid'] at h
    simpa only [RaftState.locked_touchLock, locked_senderConflict] using h

theorem admission_of_created {fd : ℤ} {rs : RaftState} {m : ClientMsg} {x : LogEntry}
    (hx : created fd rs m = some x) : Admission fd rs m x := by
  cases m with
  | intraShard req =>
    simp only [created] at hx
    split_ifs at hx with h
    cases hx
    obtain ⟨hcid, hconf, -⟩ := h
    obtain ⟨hs, hr, hcov⟩ := intraConflict_eq_false (Bool.not_eq_true _ ▸ hconf)
    exact .intra req hcid hs hr hcov
  | crossShard req =>
    simp only [created] at hx
    by_cases hcid : req.senderClusterId = rs.clusterId ∨ req.receiverClusterId = rs.clusterId
    · rw [if_pos hcid] at hx
      cases hphase : req.phase with
      | prepare =>
        simp only [hphase] at hx
        split_ifs at hx with h
        cases hx
        rw [not_or, Bool.not_eq_true, Bool.not_eq_true] at h
        obtain ⟨hs, hr⟩ := crossConflict_eq_false h.1
        exact .prepare req hphase hs hr h.2
      | commit =>
        simp only [hphase] at hx
        split_ifs at hx with h
        cases hx
        exact .commit req hphase hcid (Bool.not_eq_true _ ▸ h)
      | abort =>
        simp only [hphase] at hx
        split_ifs at hx
        cases hx
        exact .abort req hphase
    · rw [if_neg hcid] at hx
      cases hx
  | printBalance _ | printDatastore _ | stop _ | resume _ => cases hx

/-! ### Locks after a request -/

theorem locked_intraConflict (rs : RaftState) (req : IntraShardReq) (k : ℤ) :
    (IntraShardExecutor.conflict rs req).2.locked k = rs.locked k := by
  unfold IntraShardExecutor.conflict
  dsimp only
  split_ifs <;> simp

theorem locked_crossConflict (rs : RaftState) (req : CrossShardReq) (k : ℤ) :
    (CrossShardExecutor.conflict rs req).2.locked k = rs.locked k := by
  have hsender := locked_senderConflict rs req k
  unfold CrossShardExecutor.conflict CrossShardExecutor.receiverConflict
  dsimp only
  split_ifs <;> simp [hsender]

theorem locked_transfer (rs : RaftState) (req : CrossShardReq) (k : ℤ) :
    (CrossShardExecutor.transfer rs req).locked k = rs.locked k := by
  unfold CrossShardExecutor.transfer
  dsimp only
  split_ifs <;> rfl

theorem locked_lockItems (rs : RaftState) (req : CrossShardReq) (k : ℤ) :
    (CrossShardExecutor.lockItems rs req).locked k =
      (rs.locked k || (req.senderClusterId = rs.clusterId && k = req.senderId) ||
        (req.receiverClusterId = rs.clusterId && k = req.receiverId)) := by
  have hcid : (rs.setLock req.senderId true).clusterId = rs.clusterId := rfl
  unfold CrossShardExecutor.lockItems
  by_cases hs : req.senderClusterId = rs.clusterId <;>
    by_cases hr : req.receiverClusterId = rs.clusterId <;>
      simp only [hs, hr, hcid, if_true, if_false, RaftState.locked_setLock, decide_true,
        decide_false, Bool.true_and, Bool.false_and, Bool.or_false] <;>
      split_ifs <;> simp_all

/-- The items a request locks when it is admitted. -/
def locks (rs : RaftState) (k : ℤ) : ClientMsg → Bool
  | .intraShard req => k = req.senderId || k = req.receiverId
  | .crossShard req => req.phase = .prepare &&
      ((req.senderClusterId = rs.clusterId && k = req.senderId) ||
        (req.receiverClusterId = rs.clusterId && k = req.receiverId))
  | _ => false

/-- A request locks its items if it is admitted, and unlocks nothing. -/
theorem locked_serve (u : Undefined) (fd : ℤ) (rs : RaftState) (m : ClientMsg) (k : ℤ) :
    (serve u fd rs m).locked k =
      (rs.locked k || ((created fd rs m).isSome && locks rs k m)) := by
  cases m with
  | stop m | resume m => simp [serve, created]
  | printBalance req | printDatastore req =>
    simp only [serve, ClientMsg.msg, dispatch, created]
    split_ifs <;> simp [PrintBalanceExecutor.executeReq, PrintDatastoreExecutor.executeReq]
  | intraShard req =>
    simp only [serve, ClientMsg.msg, dispatch, created, IntraShardExecutor.executeReq,
      seen_intraConflict]
    have hconf := locked_intraConflict rs req k
    by_cases hcid : req.clusterId = rs.clusterId
    · by_cases hno : (IntraShardExecutor.conflict rs req).1 = true ∨
        IntraShardExecutor.seen rs req = true
      · rcases hno with hno | hno <;> simp [hcid, hno, hconf]
      · rw [not_or] at hno
        simp only [hcid, hno, locks, if_true, if_false, RaftState.locked_setLock,
          RaftState.locked_pushLog, hconf, not_false_eq_true, and_true, Option.isSome_some,
          Bool.true_and, Bool.false_eq_true]
        split_ifs <;> simp_all
    · simp [hcid]
  | crossShard req =>
    simp only [serve, ClientMsg.msg, dispatch, created]
    by_cases hcid : req.senderClusterId = rs.clusterId ∨ req.receiverClusterId = rs.clusterId
    · simp only [if_pos hcid, CrossShardExecutor.executeReq, locks]
      cases req.phase with
      | prepare =>
        have hconf := locked_crossConflict rs req
        have hsame := (same_crossConflict rs req).clusterId
        by_cases hno : (CrossShardExecutor.conflict rs req).1 = true ∨
          CrossShardExecutor.prepareSeen rs req = true
        · rcases hno with hno | hno <;>
            simp [CrossShardExecutor.prepare, seen_crossConflict, hno, hconf]
        · rw [not_or] at hno
          simp [CrossShardExecutor.prepare, seen_crossConflict, hno, hconf, locked_lockItems,
            hsame, Bool.or_assoc]
      | commit =>
        cases hs : CrossShardExecutor.commitSeen rs req with
        | true => simp [CrossShardExecutor.commit, hs]
        | false => simp [CrossShardExecutor.commit, hs, locked_transfer]
      | abort =>
        cases hs : CrossShardExecutor.abortSeen rs req with
        | true => simp [CrossShardExecutor.abort, hs]
        | false => simp [CrossShardExecutor.abort, hs]
    · simp [hcid]

/-- A request that appends nothing moves nothing. -/
theorem moves_eq_none {fd : ℤ} {rs : RaftState} {m : ClientMsg} (h : created fd rs m = none) :
    moves rs m = none := by
  cases m with
  | crossShard req =>
    simp only [moves]
    rw [if_neg]
    rintro ⟨hcid, hphase, hseen⟩
    simp [created, hcid, hphase, hseen] at h
  | _ => rfl

end Raft2PC
