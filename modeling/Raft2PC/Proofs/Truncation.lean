import Raft2PC.Spec.EventLoop
import Raft2PC.Sanity.WireFormat
import Raft2PC.Sanity.Frame
import Raft2PC.Sanity.Tables
import Raft2PC.Sanity.Runs

/-! What a server makes of the first bytes of a message. The parts that arrived whole build
another message of the same kind, and `process` takes it for the one that was sent. -/

namespace Raft2PC

open AIOServer EventLoop

/-- The handler of the message changes the `RaftState` of some server. -/
def WrapperMessage.touchesRaft : WrapperMessage → Bool
  | .intraShardReq _ | .crossShardReq _ | .appendEntriesReq _ | .appendEntriesRsp _
  | .requestVoteReq _ | .requestVoteRsp _ => true
  | _ => false

/-- What `n` bytes of a message make any server do: the same as the message, or nothing to its
`RaftState`. -/
def SentOrNothing (p : Protobuf) (m : WrapperMessage) (n : ℕ) : Prop :=
  ∀ u fd sv, parsed p (p.serialize m) n = m ∨
    (process u fd sv (parsed p (p.serialize m) n)).1.raftState = sv.raftState

theorem touchesRaft_eq (m : WrapperMessage) :
    m.touchesRaft = decide (m.number ∈ [3, 5, 7, 8, 9, 10]) := by
  cases m <;> rfl

theorem process_untouched {m : WrapperMessage} (u : Undefined) (fd : ℤ) (sv : AIOServer)
    (h : m.touchesRaft = false) : (process u fd sv m).1.raftState = sv.raftState := by
  cases m with
  | intraShardReq _ | crossShardReq _ | appendEntriesReq _ | appendEntriesRsp _
  | requestVoteReq _ | requestVoteRsp _ => cases h
  | stop _ | resume _ | exit _ =>
    simp only [process]
    split_ifs <;> rfl
  | intraShardRsp _ | crossShardRsp _ | printBalanceRsp _ | printDatastoreRsp _ | notSet =>
    simp only [process]
    split_ifs <;> rfl
  | printBalanceReq _ | printDatastoreReq _ =>
    simp only [process, dispatch]
    split_ifs <;> rfl

/-! ### Messages that do something -/

def begun (term : ℤ) : AIOServer :=
  { AIOServer.new 0 0 ∅ with raftState := { RaftState.new 0 0 with currentTerm := term } }

def endowed (clusterId id balance : ℤ) : AIOServer :=
  AIOServer.new clusterId 0 (Finmap.singleton id balance)

theorem process_request (m : ClientMsg) {sv : AIOServer} (u : Undefined) (fd : ℤ)
    (hfail : sv.pretendFail = false) (hcreated : (created fd sv.raftState m).isSome) :
    (process u fd sv m.msg).1.raftState ≠ sv.raftState := by
  intro heq
  obtain ⟨y, hy⟩ := Option.isSome_iff_exists.mp hcreated
  have hlog := congrArg (fun rs : RaftState => rs.log.length) heq
  simp [(process_client u fd sv m).1, hfail, serve_log, hy] at hlog

theorem locked_endowed (clusterId id balance k : ℤ) :
    (endowed clusterId id balance).raftState.locked k = false := rfl

theorem balance_endowed (clusterId id balance : ℤ) :
    (endowed clusterId id balance).raftState.balance id = balance := by
  simp [endowed, AIOServer.new, RaftState.balance, Table.get]

theorem created_intra (req : IntraShardReq) :
    (created 0 (endowed req.clusterId req.senderId req.amount).raftState
      (.intraShard req)).isSome := by
  have hseen : IntraShardExecutor.seen
      (endowed req.clusterId req.senderId req.amount).raftState req = false := rfl
  have hid : (endowed req.clusterId req.senderId req.amount).raftState.clusterId =
      req.clusterId := rfl
  simp [created, IntraShardExecutor.conflict, locked_endowed, balance_endowed, hseen, hid]

theorem created_cross (req : CrossShardReq) :
    (created 0 (endowed req.senderClusterId req.senderId req.amount).raftState
      (.crossShard req)).isSome := by
  have hlog : (endowed req.senderClusterId req.senderId req.amount).raftState.log = [] := rfl
  have hid : (endowed req.senderClusterId req.senderId req.amount).raftState.clusterId =
      req.senderClusterId := rfl
  rw [created, hid, if_pos (Or.inl rfl)]
  cases req.phase with
  | prepare =>
    simp [CrossShardExecutor.conflict, CrossShardExecutor.senderConflict,
      CrossShardExecutor.receiverConflict, CrossShardExecutor.prepareSeen, locked_endowed,
      balance_endowed, hlog, hid]
    split_ifs <;> rfl
  | commit => simp [CrossShardExecutor.commitSeen, hlog]
  | abort => simp [CrossShardExecutor.abortSeen, hlog]

theorem grants_later {rs : RaftState} {req : RequestVoteReq} (h : rs.currentTerm < req.term) :
    grants rs req = true := by
  simp [grants, RequestVoteExecutor.refuses, h, h.le, h.ne']

theorem process_touched {m : WrapperMessage} (h : m.touchesRaft = true) :
    ∃ u fd sv, (process u fd sv m).1.raftState ≠ sv.raftState := by
  have hlower : ∀ term : ℤ, (begun (term - 1)).raftState.currentTerm < term :=
    fun term => Int.sub_one_lt_of_le (le_refl term)
  cases m with
  | intraShardReq req =>
    exact ⟨.zero, 0, _, process_request (.intraShard req) _ _ rfl (created_intra req)⟩
  | crossShardReq req =>
    exact ⟨.zero, 0, _, process_request (.crossShard req) _ _ rfl (created_cross req)⟩
  | appendEntriesReq req =>
    refine ⟨.zero, 0, begun req.term, fun heq => ?_⟩
    have hheard := congrArg RaftState.heardHeartBeat heq
    cases hmis : AppendEntriesExecutor.mismatch .zero (begun req.term).raftState req with
    | true =>
      simp only [process, dispatch, append_mismatched 0 (le_refl req.term) hmis] at hheard
      cases hheard
    | false =>
      simp only [process, dispatch, append_accepted 0 (le_refl req.term) hmis] at hheard
      cases hheard
  | appendEntriesRsp rsp =>
    refine ⟨.zero, 0, begun (rsp.term - 1), fun heq => ?_⟩
    have hterm := congrArg RaftState.currentTerm heq
    simp only [process, dispatch, rsp_deposed _ 0 (hlower rsp.term)] at hterm
    exact (hlower rsp.term).ne' hterm
  | requestVoteReq req =>
    refine ⟨.zero, 0, begun (req.term - 1), fun heq => ?_⟩
    have hterm := congrArg RaftState.currentTerm heq
    simp only [process, dispatch, vote_granted 0 (grants_later (hlower req.term))] at hterm
    exact (hlower req.term).ne' hterm
  | requestVoteRsp rsp =>
    refine ⟨.zero, 0, begun (rsp.term - 1), fun heq => ?_⟩
    have hterm := congrArg RaftState.currentTerm heq
    have hquiet := dispatch_quiet .zero 0 (rsp_outvoted 0 (hlower rsp.term)) (by simp [stepDown])
    simp only [process, hquiet] at hterm
    exact (hlower rsp.term).ne' hterm
  | _ => cases h

/-! ### Whole messages and others -/

variable {p : Protobuf} {m : WrapperMessage} {widths : List ℕ}

/-- A read leaves the parts of the message that arrived whole. -/
theorem parsed_eq (hp : p.Handles m widths) (n : ℕ) :
    parsed p (p.serialize m) n =
      build (m.parts.take (Wire.fitting (min n bufferSize) widths)) := by
  by_cases hn : min n bufferSize ≤ (p.serialize m).length
  · exact hp.truncated _ hn
  · have hwhole : Wire.fitting (min n bufferSize) widths = widths.length := by
      rw [Wire.fitting_eq_length, ← hp.size]
      omega
    have hfull := hp.truncated _ (le_refl (p.serialize m).length)
    have hall : Wire.fitting (p.serialize m).length widths = widths.length := by
      rw [Wire.fitting_eq_length, hp.size]
    rw [List.take_length, hall, ← hwhole] at hfull
    rw [parsed, List.take_of_length_le (by omega), hfull]

theorem parsed_eq_iff (hp : p.Handles m widths) (n : ℕ) :
    parsed p (p.serialize m) n = m ↔ (p.serialize m).length ≤ min n bufferSize := by
  rw [parsed_eq hp, hp.size]
  constructor
  · intro heq
    by_contra hshort
    refine build_take_ne ?_ heq
    rw [← hp.each]
    exact Wire.fitting_lt (not_le.mp hshort)
  · intro hlong
    rw [Wire.fitting_eq_length.mpr hlong, hp.each, List.take_length, build_parts]

/-- Neither part of a message: nothing is parsed. -/
theorem parsed_eq_notSet (hp : p.Handles m widths) {n : ℕ}
    (hn : min n bufferSize < widths.headD 0) : parsed p (p.serialize m) n = .notSet := by
  rw [parsed_eq hp]
  cases widths with
  | nil => exact absurd hn (Nat.not_lt_zero _)
  | cons w ws =>
    have hzero : Wire.fitting (min n bufferSize) (w :: ws) = 0 := if_neg (not_le.mpr hn)
    rw [hzero]
    rfl

theorem number_parsed (hp : p.Handles m widths) {n : ℕ} (hm : m ≠ .notSet)
    (hn : widths.headD 0 ≤ min n bufferSize) :
    (parsed p (p.serialize m) n).number = m.number := by
  rw [parsed_eq hp]
  refine number_build_take hm ?_
  cases widths with
  | nil =>
    have hnone := hp.each
    simp [WrapperMessage.parts, hm] at hnone
  | cons w ws => exact Wire.fitting_pos.mpr hn

theorem touchesRaft_parsed (hp : p.Handles m widths) (n : ℕ) (h : m.touchesRaft = false) :
    (parsed p (p.serialize m) n).touchesRaft = false := by
  by_cases hm : m = .notSet
  · subst hm
    rw [parsed_eq hp]
    simp [WrapperMessage.parts, build, WrapperMessage.touchesRaft]
  · by_cases hhead : min n bufferSize < widths.headD 0
    · rw [parsed_eq_notSet hp hhead]
      rfl
    · rw [touchesRaft_eq, number_parsed hp hm (not_lt.mp hhead), ← touchesRaft_eq, h]

/-- A message acts as sent, or not at all, exactly if it was read whole, if not even its kind
was read, or if its kind never does anything to a `RaftState`. -/
theorem sent_or_nothing_iff (hp : p.Handles m widths) (n : ℕ) :
    SentOrNothing p m n ↔ (p.serialize m).length ≤ min n bufferSize ∨
      min n bufferSize < widths.headD 0 ∨ m.touchesRaft = false := by
  constructor
  · intro h
    by_contra hno
    simp only [not_or, not_le, not_lt] at hno
    obtain ⟨hshort, hhead, htouch⟩ := hno
    have hm : m ≠ .notSet := fun heq => htouch (heq ▸ rfl)
    have hsame : (parsed p (p.serialize m) n).touchesRaft = true := by
      rw [touchesRaft_eq, number_parsed hp hm hhead, ← touchesRaft_eq]
      exact Bool.eq_true_of_not_eq_false htouch
    obtain ⟨u, fd, sv, hchanged⟩ := process_touched hsame
    rcases h u fd sv with heq | heq
    · exact absurd ((parsed_eq_iff hp n).mp heq) (not_le.mpr hshort)
    · exact hchanged heq
  · intro h u fd sv
    rcases h with hwhole | hhead | htouch
    · exact Or.inl ((parsed_eq_iff hp n).mpr hwhole)
    · rw [parsed_eq_notSet hp hhead]
      exact Or.inr (process_untouched u fd sv rfl)
    · exact Or.inr (process_untouched u fd sv (touchesRaft_parsed hp n htouch))

def firstVote : WrapperMessage := .requestVoteReq (voteReq (begun 1).raftState)

theorem sent_or_nothing_vote : SentOrNothing wire firstVote 1024 ∧ SentOrNothing wire firstVote 1 ∧
    ¬ SentOrNothing wire firstVote 10 := by
  have hfits : firstVote.Fits := by decide
  have hiff := sent_or_nothing_iff (wire_handles hfits)
  exact ⟨(hiff 1024).mpr (by decide), (hiff 1).mpr (by decide),
    fun h => absurd ((hiff 10).mp h) (by decide)⟩

/-- A leader that has replicated nothing of fifty transactions. -/
def backlogged : RaftState :=
  { RaftState.new 0 0 with
    role := .leader
    currentTerm := 1
    matchedLogSize := [0, 0, 0]
    log := (List.range 50).map fun i : ℕ =>
      { term := 1, index := i, command := fmtPays 1 2 3, id := i + 1, reqFd := -1 } }

/-- Its heart beat does not fit into one read. The receiver takes the commit index for 0 and
commits the first entry, though the leader has committed nothing. -/
theorem beat_cut_short :
    (heartBeat .zero backlogged 1).commitIndex = -1 ∧
    (process .zero 7 (AIOServer.new 0 1 ∅) (parsed wire
      (wire.serialize (.appendEntriesReq (heartBeat .zero backlogged 1)))
        1024)).1.raftState.commitIndex = 0 ∧
    ¬ SentOrNothing wire (.appendEntriesReq (heartBeat .zero backlogged 1)) 1024 := by
  have hcommits : (process .zero 7 (AIOServer.new 0 1 ∅) (parsed wire
      (wire.serialize (.appendEntriesReq (heartBeat .zero backlogged 1)))
        1024)).1.raftState.commitIndex = 0 := by decide +kernel
  refine ⟨rfl, hcommits, fun h => ?_⟩
  rcases h .zero 7 (AIOServer.new 0 1 ∅) with heq | heq
  · rw [heq] at hcommits
    revert hcommits
    decide +kernel
  · rw [heq] at hcommits
    revert hcommits
    decide

end Raft2PC
