import Raft2PC.Sanity.Record

/-! What the handlers leave alone. -/

namespace Raft2PC

open AIOServer

/-- The log and the two tables may differ, nothing else. -/
def SameRaft (a b : RaftState) : Prop :=
  b = { a with log := b.log, localBalanceTb := b.localBalanceTb, localLock := b.localLock }

namespace SameRaft

theorem refl (a : RaftState) : SameRaft a a := rfl

theorem trans {a b c : RaftState} (h₁ : SameRaft a b) (h₂ : SameRaft b c) : SameRaft a c := by
  unfold SameRaft at h₁ h₂ ⊢
  rw [h₂, h₁]

theorem touchLock (a : RaftState) (k : ℤ) : SameRaft a (a.touchLock k) := rfl

theorem touchBalance (a : RaftState) (k : ℤ) : SameRaft a (a.touchBalance k) := rfl

theorem setLock (a : RaftState) (k : ℤ) (b : Bool) : SameRaft a (a.setLock k b) := rfl

theorem addBalance (a : RaftState) (k d : ℤ) : SameRaft a (a.addBalance k d) := rfl

theorem pushLog (a : RaftState) (e : LogEntry) : SameRaft a (a.pushLog e) := rfl

variable {a b : RaftState}

theorem eq (h : SameRaft a b) :
    b = { a with log := b.log, localBalanceTb := b.localBalanceTb, localLock := b.localLock } := h

theorem serverId (h : SameRaft a b) : b.serverId = a.serverId := by rw [h.eq]

theorem clusterId (h : SameRaft a b) : b.clusterId = a.clusterId := by rw [h.eq]

theorem currentTerm (h : SameRaft a b) : b.currentTerm = a.currentTerm := by
  rw [h.eq]

theorem votedFor (h : SameRaft a b) : b.votedFor = a.votedFor := by rw [h.eq]

theorem role (h : SameRaft a b) : b.role = a.role := by rw [h.eq]

theorem voteGrantedNum (h : SameRaft a b) : b.voteGrantedNum = a.voteGrantedNum := by
  rw [h.eq]

theorem commitIndex (h : SameRaft a b) : b.commitIndex = a.commitIndex := by
  rw [h.eq]

theorem comingCommitIndex (h : SameRaft a b) : b.comingCommitIndex = a.comingCommitIndex := by
  rw [h.eq]

theorem matchedLogSize (h : SameRaft a b) : b.matchedLogSize = a.matchedLogSize := by
  rw [h.eq]

end SameRaft

/-! ### Requests of clients -/

theorem same_intraConflict (rs : RaftState) (req : IntraShardReq) :
    SameRaft rs (IntraShardExecutor.conflict rs req).2 := by
  unfold IntraShardExecutor.conflict
  dsimp only
  split_ifs
  · exact .touchLock _ _
  · exact (SameRaft.touchLock _ _).trans (.touchLock _ _)
  · exact ((SameRaft.touchLock _ _).trans (.touchLock _ _)).trans (.touchBalance _ _)

theorem same_crossConflict (rs : RaftState) (req : CrossShardReq) :
    SameRaft rs (CrossShardExecutor.conflict rs req).2 := by
  have hsender : SameRaft rs (CrossShardExecutor.senderConflict rs req).2 := by
    unfold CrossShardExecutor.senderConflict
    dsimp only
    split_ifs
    · exact .touchLock _ _
    · exact (SameRaft.touchLock _ _).trans (.touchBalance _ _)
    · exact .refl _
  unfold CrossShardExecutor.conflict CrossShardExecutor.receiverConflict
  dsimp only
  split_ifs
  · exact hsender
  · exact hsender.trans (.touchLock _ _)
  · exact hsender

theorem same_intraShard (fd : ℤ) (rs : RaftState) (req : IntraShardReq) :
    SameRaft rs (IntraShardExecutor.executeReq fd rs req).1 := by
  have hconf := same_intraConflict rs req
  unfold IntraShardExecutor.executeReq
  dsimp only
  split_ifs
  · exact hconf
  · exact hconf
  · exact ((hconf.trans (.pushLog _ _)).trans (.setLock _ _ _)).trans (.setLock _ _ _)

theorem same_lockItems (rs : RaftState) (req : CrossShardReq) :
    SameRaft rs (CrossShardExecutor.lockItems rs req) := by
  unfold CrossShardExecutor.lockItems
  dsimp only
  split_ifs
  · exact (SameRaft.setLock _ _ _).trans (.setLock _ _ _)
  · exact .setLock _ _ _
  · exact .setLock _ _ _
  · exact .refl _

theorem same_transfer (rs : RaftState) (req : CrossShardReq) :
    SameRaft rs (CrossShardExecutor.transfer rs req) := by
  unfold CrossShardExecutor.transfer
  dsimp only
  split_ifs
  · exact (SameRaft.addBalance _ _ _).trans (.addBalance _ _ _)
  · exact .addBalance _ _ _
  · exact .addBalance _ _ _
  · exact .refl _

theorem same_crossShard (fd : ℤ) (rs : RaftState) (req : CrossShardReq) :
    SameRaft rs (CrossShardExecutor.executeReq fd rs req).1 := by
  unfold CrossShardExecutor.executeReq
  split
  · have hconf := same_crossConflict rs req
    unfold CrossShardExecutor.prepare
    dsimp only
    split_ifs
    · exact hconf
    · exact hconf
    · exact (hconf.trans (.pushLog _ _)).trans (same_lockItems _ _)
  · unfold CrossShardExecutor.commit
    split_ifs
    · exact .refl _
    · exact (SameRaft.pushLog _ _).trans (same_transfer _ _)
  · unfold CrossShardExecutor.abort
    split_ifs
    · exact .refl _
    · exact .pushLog _ _

/-- Requests of clients touch the log and the two tables only. -/
theorem same_serve (u : Undefined) (fd : ℤ) (rs : RaftState) (m : ClientMsg) :
    SameRaft rs (serve u fd rs m) := by
  cases m with
  | stop m => exact .refl _
  | resume m => exact .refl _
  | printBalance req => simp only [serve, ClientMsg.msg, dispatch]; split_ifs <;> exact .refl _
  | printDatastore req => simp only [serve, ClientMsg.msg, dispatch]; split_ifs <;> exact .refl _
  | intraShard req =>
    simp only [serve, ClientMsg.msg, dispatch]
    split_ifs
    · exact same_intraShard fd rs req
    · exact .refl _
  | crossShard req =>
    simp only [serve, ClientMsg.msg, dispatch]
    split_ifs
    · exact same_crossShard fd rs req
    · exact .refl _

/-! ### The log a request leaves -/

theorem log_intraConflict (rs : RaftState) (req : IntraShardReq) :
    (IntraShardExecutor.conflict rs req).2.log = rs.log := by
  unfold IntraShardExecutor.conflict
  dsimp only
  split_ifs <;> rfl

theorem log_crossConflict (rs : RaftState) (req : CrossShardReq) :
    (CrossShardExecutor.conflict rs req).2.log = rs.log := by
  have hsender : (CrossShardExecutor.senderConflict rs req).2.log = rs.log := by
    unfold CrossShardExecutor.senderConflict
    dsimp only
    split_ifs <;> rfl
  unfold CrossShardExecutor.conflict CrossShardExecutor.receiverConflict
  dsimp only
  split_ifs <;> exact hsender

theorem log_lockItems (rs : RaftState) (req : CrossShardReq) :
    (CrossShardExecutor.lockItems rs req).log = rs.log := by
  unfold CrossShardExecutor.lockItems
  dsimp only
  split_ifs <;> rfl

theorem log_transfer (rs : RaftState) (req : CrossShardReq) :
    (CrossShardExecutor.transfer rs req).log = rs.log := by
  unfold CrossShardExecutor.transfer
  dsimp only
  split_ifs <;> rfl

theorem seen_intraConflict (rs : RaftState) (req : IntraShardReq) :
    IntraShardExecutor.seen (IntraShardExecutor.conflict rs req).2 req =
      IntraShardExecutor.seen rs req := by
  unfold IntraShardExecutor.seen; rw [log_intraConflict]

theorem seen_crossConflict (rs : RaftState) (req : CrossShardReq) :
    CrossShardExecutor.prepareSeen (CrossShardExecutor.conflict rs req).2 req =
      CrossShardExecutor.prepareSeen rs req := by
  unfold CrossShardExecutor.prepareSeen; rw [log_crossConflict]

/-- A request appends the entry it creates and changes nothing else in the log. -/
theorem serve_log (u : Undefined) (fd : ℤ) (rs : RaftState) (m : ClientMsg) :
    (serve u fd rs m).log = rs.log ++ (created fd rs m).toList := by
  cases m with
  | stop m | resume m => simp [serve, created]
  | printBalance req | printDatastore req =>
    simp only [serve, ClientMsg.msg, dispatch, created]
    split_ifs <;>
      simp [PrintBalanceExecutor.executeReq, PrintDatastoreExecutor.executeReq]
  | intraShard req =>
    have hlog := log_intraConflict rs req
    have hterm := (same_intraConflict rs req).currentTerm
    simp only [serve, ClientMsg.msg, dispatch, created]
    by_cases hcid : req.clusterId = rs.clusterId
    · by_cases hno : (IntraShardExecutor.conflict rs req).1 = true ∨
        IntraShardExecutor.seen rs req = true
      · rcases hno with hno | hno
        · simp [hcid, IntraShardExecutor.executeReq, hno, hlog]
        · simp [hcid, IntraShardExecutor.executeReq, seen_intraConflict, hno, hlog]
      · rw [not_or] at hno
        simp [hcid, IntraShardExecutor.executeReq, seen_intraConflict, hno, hlog, hterm,
          RaftState.setLock, RaftState.pushLog]
    · simp [hcid]
  | crossShard req =>
    simp only [serve, ClientMsg.msg, dispatch, created]
    by_cases hcid : req.senderClusterId = rs.clusterId ∨ req.receiverClusterId = rs.clusterId
    · simp only [if_pos hcid, CrossShardExecutor.executeReq]
      cases req.phase with
      | prepare =>
        have hlog := log_crossConflict rs req
        have hterm := (same_crossConflict rs req).currentTerm
        by_cases hno : (CrossShardExecutor.conflict rs req).1 = true ∨
          CrossShardExecutor.prepareSeen rs req = true
        · rcases hno with hno | hno
          · simp [CrossShardExecutor.prepare, hno, hlog]
          · simp [CrossShardExecutor.prepare, seen_crossConflict, hno, hlog]
        · rw [not_or] at hno
          simp [CrossShardExecutor.prepare, seen_crossConflict, hno, hlog, hterm, log_lockItems,
            RaftState.pushLog]
      | commit =>
        cases hs : CrossShardExecutor.commitSeen rs req with
        | true => simp [CrossShardExecutor.commit, hs]
        | false => simp [CrossShardExecutor.commit, hs, log_transfer, RaftState.pushLog]
      | abort =>
        cases hs : CrossShardExecutor.abortSeen rs req with
        | true => simp [CrossShardExecutor.abort, hs]
        | false => simp [CrossShardExecutor.abort, hs, RaftState.pushLog]
    · simp [hcid]

/-- An entry is numbered by its position, and a leader gives it its term. -/
theorem created_fresh {fd : ℤ} {rs : RaftState} {m : ClientMsg} {x : LogEntry}
    (hx : created fd rs m = some x) :
    x.index = rs.log.length ∧ (rs.role = .leader → x.term = rs.currentTerm) := by
  cases m with
  | intraShard req =>
    simp only [created] at hx
    split_ifs at hx
    cases hx
    exact ⟨rfl, fun _ => rfl⟩
  | crossShard req =>
    simp only [created] at hx
    by_cases hcid : req.senderClusterId = rs.clusterId ∨ req.receiverClusterId = rs.clusterId
    · rw [if_pos hcid] at hx
      cases hphase : req.phase with
      | prepare =>
        simp only [hphase] at hx
        split_ifs at hx
        cases hx
        exact ⟨rfl, fun _ => rfl⟩
      | commit =>
        simp only [hphase] at hx
        split_ifs at hx
        cases hx
        exact ⟨rfl, fun hr => if_pos hr⟩
      | abort =>
        simp only [hphase] at hx
        split_ifs at hx
        cases hx
        exact ⟨rfl, fun hr => if_pos hr⟩
    · rw [if_neg hcid] at hx
      cases hx
  | printBalance _ | printDatastore _ | stop _ | resume _ => cases hx

/-! ### The leader's commit loop -/

theorem same_clearFd (rs : RaftState) (idx : ℤ) :
    SameRaft rs (AppendEntriesExecutor.clearFd rs idx) := rfl

theorem entries_clearFd (rs : RaftState) (idx : ℤ) :
    (AppendEntriesExecutor.clearFd rs idx).log.map LogEntry.entry =
      rs.log.map LogEntry.entry := by
  apply List.ext_getElem?
  intro i
  simp only [AppendEntriesExecutor.clearFd, List.getElem?_map, List.getElem?_modify]
  cases rs.log[i]? with
  | none => rfl
  | some e => simp only [Option.map_eq_map, Option.map_some]; split_ifs <;> rfl

/-- One round touches the pending connections and the two tables only. -/
theorem same_commitEntry (u : Undefined) (rs : RaftState) (idx : ℤ) :
    SameRaft rs (AppendEntriesExecutor.commitEntry u rs idx).1 ∧
      (AppendEntriesExecutor.commitEntry u rs idx).1.log.map LogEntry.entry =
        rs.log.map LogEntry.entry := by
  have hunlock : ∀ rs k₁ k₂,
      SameRaft rs ((rs.setLock k₁ false).setLock k₂ false) := fun _ _ _ => rfl
  have hpay : ∀ rs k₁ k₂ d₁ d₂, SameRaft rs
      ((((rs.addBalance k₁ d₁).addBalance k₂ d₂).setLock k₁ false).setLock k₂ false) :=
    fun _ _ _ _ _ => rfl
  unfold AppendEntriesExecutor.commitEntry
  dsimp only
  split_ifs
  · exact ⟨(hunlock _ _ _).trans (same_clearFd _ _), entries_clearFd _ _⟩
  · exact ⟨hunlock _ _ _, rfl⟩
  · exact ⟨.refl _, rfl⟩
  · exact ⟨(hpay _ _ _ _ _).trans (same_clearFd _ _), entries_clearFd _ _⟩
  · exact ⟨hpay _ _ _ _ _, rfl⟩

theorem same_commitEntries (u : Undefined) (rs : RaftState) (idxs : List ℤ) :
    SameRaft rs (AppendEntriesExecutor.commitEntries u rs idxs).1 ∧
      (AppendEntriesExecutor.commitEntries u rs idxs).1.log.map LogEntry.entry =
        rs.log.map LogEntry.entry := by
  induction idxs generalizing rs with
  | nil => exact ⟨.refl _, rfl⟩
  | cons idx rest ih =>
    obtain ⟨hsame, hlog⟩ := same_commitEntry u rs idx
    obtain ⟨hsame', hlog'⟩ := ih (AppendEntriesExecutor.commitEntry u rs idx).1
    exact ⟨hsame.trans hsame', hlog'.trans hlog⟩

/-- What a response of no later term can change on the server that reads it. -/
structure Answered (u : Undefined) (rs : RaftState) (rsp : AppendEntriesRsp)
    (rs' : RaftState) : Prop where
  clusterId : rs'.clusterId = rs.clusterId
  serverId : rs'.serverId = rs.serverId
  currentTerm : rs'.currentTerm = rs.currentTerm
  votedFor : rs'.votedFor = rs.votedFor
  role : rs'.role = rs.role
  voteGrantedNum : rs'.voteGrantedNum = rs.voteGrantedNum
  comingCommitIndex : rs'.comingCommitIndex = rs.comingCommitIndex
  entries : rs'.log.map LogEntry.entry = rs.log.map LogEntry.entry
  matched : ∀ i, rs'.matched i ≤ max (rs.matched i) (rs.comingCommitIndex + 1)
  commitIndex : rs'.commitIndex =
    if decides u rs rsp then rs.comingCommitIndex else rs.commitIndex

theorem same_commitLog (u : Undefined) (rs : RaftState) :
    (∃ b, SameRaft { rs with commitIndex := b } (AppendEntriesExecutor.commitLog u rs).1) ∧
      (AppendEntriesExecutor.commitLog u rs).1.commitIndex = rs.comingCommitIndex ∧
      (AppendEntriesExecutor.commitLog u rs).1.log.map LogEntry.entry =
        rs.log.map LogEntry.entry := by
  obtain ⟨hsame, hlog⟩ := same_commitEntries u rs
    (indices (rs.commitIndex + 1) rs.comingCommitIndex)
  unfold AppendEntriesExecutor.commitLog
  dsimp only
  split_ifs with hne
  · refine ⟨⟨rs.comingCommitIndex, ?_⟩, rfl, hlog⟩
    unfold SameRaft at hsame ⊢
    rw [hsame]
  · exact ⟨⟨rs.commitIndex, hsame⟩, hsame.commitIndex.trans (by simpa using hne), hlog⟩

theorem matched_setMatched_le (rs : RaftState) (serverId n b : ℤ) (i : ℕ)
    (hn : n ≤ max (rs.matched (serverId % SERVER_NUM_PER_CLUSTER).toNat) b) :
    (AppendEntriesExecutor.setMatched rs serverId n).matched i ≤ max (rs.matched i) b := by
  unfold RaftState.matched at hn ⊢
  simp only [AppendEntriesExecutor.setMatched]
  generalize (serverId % SERVER_NUM_PER_CLUSTER).toNat = j at hn ⊢
  by_cases hij : j = i
  · subst hij
    by_cases hj : j < rs.matchedLogSize.length
    · simpa [List.getD, List.getElem?_set_self hj] using hn
    · rw [List.set_eq_of_length_le (by omega)]
      exact le_max_left _ _
  · rw [show (rs.matchedLogSize.set j n).getD i 0 = rs.matchedLogSize.getD i 0 by
      simp [List.getD, List.getElem?_set_ne hij]]
    exact le_max_left _ _

theorem answered_onSuccess {u : Undefined} {rs : RaftState} {rsp : AppendEntriesRsp}
    (hrole : rs.role = .leader) (hterm : rsp.term = rs.currentTerm) (hsucc : rsp.success = true) :
    Answered u rs rsp (AppendEntriesExecutor.onSuccess u rs rsp).1 := by
  unfold AppendEntriesExecutor.onSuccess
  dsimp only
  split_ifs with hc
  · obtain ⟨⟨b, hsame⟩, hcommit, hlog⟩ := same_commitLog u
      { rs with logGrantedNum := rs.logGrantedNum + 1 }
    exact
      { clusterId := hsame.clusterId
        serverId := hsame.serverId
        currentTerm := hsame.currentTerm
        votedFor := hsame.votedFor
        role := hsame.role
        voteGrantedNum := hsame.voteGrantedNum
        comingCommitIndex := hsame.comingCommitIndex
        entries := hlog
        matched := by
          intro i
          have hm : ∀ j, (AppendEntriesExecutor.commitLog u
              { rs with logGrantedNum := rs.logGrantedNum + 1 }).1.matched j = rs.matched j := by
            intro j
            unfold RaftState.matched
            rw [hsame.matchedLogSize]
          rw [← hm i]
          refine matched_setMatched_le _ _ _ _ _ ?_
          rw [hsame.comingCommitIndex]
          exact le_max_right _ _
        commitIndex := by
          have hd : decides u rs rsp = true := by
            simp only [decides, hc, Bool.and_true, Bool.and_eq_true, decide_eq_true_eq]
            exact ⟨⟨hrole, hterm⟩, hsucc⟩
          rw [if_pos hd]
          exact hcommit }
  · exact
      { clusterId := rfl
        serverId := rfl
        currentTerm := rfl
        votedFor := rfl
        role := rfl
        voteGrantedNum := rfl
        comingCommitIndex := rfl
        entries := rfl
        matched := fun i => matched_setMatched_le _ _ _ _ _ (le_max_right _ _)
        commitIndex := (if_neg (by
          simp only [decides, hc, Bool.and_false]
          exact Bool.false_ne_true)).symm }

theorem answered_same {u : Undefined} {rs : RaftState} {rsp : AppendEntriesRsp}
    (hno : decides u rs rsp = false) : Answered u rs rsp rs where
  clusterId := rfl
  serverId := rfl
  currentTerm := rfl
  votedFor := rfl
  role := rfl
  voteGrantedNum := rfl
  comingCommitIndex := rfl
  entries := rfl
  matched _ := le_max_left _ _
  commitIndex := by rw [hno, if_neg Bool.false_ne_true]

theorem answered_onFailure {u : Undefined} {rs : RaftState} {rsp : AppendEntriesRsp}
    (hno : decides u rs rsp = false) :
    Answered u rs rsp (AppendEntriesExecutor.onFailure rs rsp).1 :=
  { answered_same hno with
    matched := fun i => matched_setMatched_le _ _ _ _ _ (le_max_of_le_left (by omega)) }

theorem answered_executeRsp (u : Undefined) (fd : ℤ) {rs : RaftState} {rsp : AppendEntriesRsp}
    (hle : rsp.term ≤ rs.currentTerm) :
    Answered u rs rsp (AppendEntriesExecutor.executeRsp u fd rs rsp).1 := by
  have hdone : Answered u rs rsp
      (if rs.role = .leader ∧ rsp.term = rs.currentTerm then
        if rsp.success then AppendEntriesExecutor.onSuccess u rs rsp
        else AppendEntriesExecutor.onFailure rs rsp
      else (rs, [])).1 := by
    split_ifs with hlead hsucc
    · exact answered_onSuccess hlead.1 hlead.2 hsucc
    · exact answered_onFailure (by simp [decides, hsucc])
    · refine answered_same ?_
      simp only [decides, Bool.and_eq_false_iff, decide_eq_false_iff_not]
      tauto
  unfold AppendEntriesExecutor.executeRsp
  dsimp only
  rw [if_neg (by rw [hdone.currentTerm]; omega)]
  exact hdone

open AppendEntriesExecutor in
/-- A response that decides leaves log and tables as the commit loop does. -/
theorem executeRsp_decided {u : Undefined} (fd : ℤ) {rs : RaftState} {rsp : AppendEntriesRsp}
    (hdec : decides u rs rsp = true) :
    let after := (commitEntries u { rs with logGrantedNum := rs.logGrantedNum + 1 }
      (indices (rs.commitIndex + 1) rs.comingCommitIndex)).1
    (executeRsp u fd rs rsp).1.log = after.log ∧
      (executeRsp u fd rs rsp).1.localLock = after.localLock ∧
      (executeRsp u fd rs rsp).1.localBalanceTb = after.localBalanceTb := by
  simp only [decides, Bool.and_eq_true, decide_eq_true_eq] at hdec
  obtain ⟨⟨⟨hrole, hterm⟩, hsucc⟩, hc⟩ := hdec
  have hdown : ∀ b : RaftState, ∀ t, (if b.currentTerm < t
      then { b with currentTerm := t, role := .follower } else b).log = b.log ∧
      (if b.currentTerm < t
        then { b with currentTerm := t, role := .follower } else b).localLock = b.localLock ∧
      (if b.currentTerm < t then { b with currentTerm := t, role := .follower }
        else b).localBalanceTb = b.localBalanceTb := by
    intro b t
    split_ifs <;> exact ⟨rfl, rfl, rfl⟩
  intro after
  unfold executeRsp
  dsimp only
  rw [(hdown _ _).1, (hdown _ _).2.1, (hdown _ _).2.2, if_pos (And.intro hrole hterm),
    if_pos hsucc]
  simp only [onSuccess, if_pos hc, commitLog, setMatched]
  split_ifs <;> exact ⟨rfl, rfl, rfl⟩

end Raft2PC
