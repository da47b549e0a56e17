import Raft2PC.Spec.Cluster

/-! What one step of the cluster does, action by action: which server moves, and which
connections open, are answered or disappear. -/

namespace Raft2PC

open AIOServer Connection

/-- The actions neither open a connection nor answer one between servers. -/
def Quiet (acts : List AIOAction) : Prop :=
  ∀ a ∈ acts, (∀ p, dialed p a = none) ∧ ∀ c, answered c a = none

theorem Quiet.nil : Quiet [] := fun _ h => by simp at h

theorem Quiet.append {as bs : List AIOAction} (ha : Quiet as) (hb : Quiet bs) :
    Quiet (as ++ bs) := by
  intro a h
  rcases List.mem_append.mp h with h | h
  · exact ha a h
  · exact hb a h

theorem Quiet.dialed {acts : List AIOAction} (h : Quiet acts) (p : Idx) :
    acts.filterMap (dialed p) = [] :=
  List.filterMap_eq_nil_iff.mpr fun a ha => (h a ha).1 p

theorem Quiet.answered {acts : List AIOAction} (h : Quiet acts) (c : Connection) :
    acts.filterMap (answered c) = [] :=
  List.filterMap_eq_nil_iff.mpr fun a ha => (h a ha).2 c

theorem quiet_single {a : AIOAction} (hd : ∀ p, dialed p a = none)
    (ha : ∀ c, answered c a = none) : Quiet [a] := by
  intro b hb
  rw [List.mem_singleton.mp hb]
  exact ⟨hd, ha⟩

theorem quiet_intraShardRsp (fd : ℤ) (m : IntraShardRsp) :
    Quiet [.writeMsg fd (.intraShardRsp m)] :=
  quiet_single (fun _ => rfl) fun c => by cases c with | mk s d call => cases call <;> rfl

theorem quiet_crossShardRsp (fd : ℤ) (m : CrossShardRsp) :
    Quiet [.writeMsg fd (.crossShardRsp m)] :=
  quiet_single (fun _ => rfl) fun c => by cases c with | mk s d call => cases call <;> rfl

theorem quiet_updateDataShard : Quiet [.updateDataShard] :=
  quiet_single (fun _ => rfl) fun c => by cases c with | mk s d call => cases call <;> rfl

theorem quiet_close (fd : ℤ) : Quiet [.close fd] :=
  quiet_single (fun _ => rfl) fun c => by cases c with | mk s d call => cases call <;> rfl

/-! ### Handlers that talk to clients only -/

theorem quiet_intraShard (fd : ℤ) (rs : RaftState) (req : IntraShardReq) :
    Quiet (IntraShardExecutor.executeReq fd rs req).2 := by
  unfold IntraShardExecutor.executeReq
  dsimp only
  split_ifs
  · exact quiet_intraShardRsp _ _
  · exact quiet_intraShardRsp _ _
  · exact Quiet.nil

theorem quiet_crossShard (fd : ℤ) (rs : RaftState) (req : CrossShardReq) :
    Quiet (CrossShardExecutor.executeReq fd rs req).2 := by
  have hreply : ∀ result, Quiet (CrossShardExecutor.reply fd req result) :=
    fun _ => quiet_crossShardRsp _ _
  unfold CrossShardExecutor.executeReq
  split
  · unfold CrossShardExecutor.prepare
    dsimp only
    split_ifs
    · exact hreply _
    · exact hreply _
    · exact Quiet.nil
  · unfold CrossShardExecutor.commit
    split_ifs
    · exact hreply _
    · exact quiet_updateDataShard.append (hreply _)
  · unfold CrossShardExecutor.abort
    split_ifs
    · exact hreply _
    · exact hreply _

theorem quiet_printBalance (fd : ℤ) (rs : RaftState) (req : PrintBalanceReq) :
    Quiet (PrintBalanceExecutor.executeReq fd rs req).2 :=
  quiet_single (fun _ => rfl) fun c => by cases c with | mk s d call => cases call <;> rfl

theorem quiet_printDatastore (u : Undefined) (fd : ℤ) (rs : RaftState) (req : PrintDatastoreReq) :
    Quiet (PrintDatastoreExecutor.executeReq u fd rs req).2 :=
  quiet_single (fun _ => rfl) fun c => by cases c with | mk s d call => cases call <;> rfl

theorem quiet_commitEntry (u : Undefined) (rs : RaftState) (idx : ℤ) :
    Quiet (AppendEntriesExecutor.commitEntry u rs idx).2 := by
  unfold AppendEntriesExecutor.commitEntry
  dsimp only
  split_ifs
  · exact quiet_crossShardRsp _ _
  · exact Quiet.nil
  · exact Quiet.nil
  · exact quiet_intraShardRsp _ _
  · exact Quiet.nil

theorem quiet_commitEntries (u : Undefined) (rs : RaftState) (idxs : List ℤ) :
    Quiet (AppendEntriesExecutor.commitEntries u rs idxs).2 := by
  induction idxs generalizing rs with
  | nil => exact Quiet.nil
  | cons idx rest ih => exact (quiet_commitEntry u rs idx).append (ih _)

theorem quiet_commitLog (u : Undefined) (rs : RaftState) :
    Quiet (AppendEntriesExecutor.commitLog u rs).2 := by
  unfold AppendEntriesExecutor.commitLog
  dsimp only
  split_ifs
  · exact (quiet_commitEntries u rs _).append quiet_updateDataShard
  · exact quiet_commitEntries u rs _

theorem quiet_appendEntriesRsp (u : Undefined) (fd : ℤ) (rs : RaftState)
    (rsp : AppendEntriesRsp) : Quiet (AppendEntriesExecutor.executeRsp u fd rs rsp).2 := by
  unfold AppendEntriesExecutor.executeRsp
  refine Quiet.append ?_ (quiet_close fd)
  split_ifs
  · unfold AppendEntriesExecutor.onSuccess
    dsimp only
    split_ifs
    · exact quiet_commitLog u _
    · exact Quiet.nil
  · exact Quiet.nil
  · exact Quiet.nil

/-! ### Servers -/

/-- The client's messages as `process` sees them, run on the Raft state. -/
def serve (u : Undefined) (fd : ℤ) (rs : RaftState) : ClientMsg → RaftState
  | .stop _ | .resume _ => rs
  | m => (dispatch u fd rs m.msg).1

/-- Exit, Resume and Stop, which are obeyed by a server that pretends to fail, too. -/
def WrapperMessage.administers : WrapperMessage → Bool
  | .exit _ | .resume _ | .stop _ => true
  | _ => false

/-- Servers do not administer each other. -/
theorem administers_connection (c : Connection) : c.msg.administers = false := by
  unfold Connection.msg
  split <;> rfl

section
variable {sv : AIOServer} {msg : WrapperMessage}

theorem process_administers (u : Undefined) (fd : ℤ) (hadm : msg.administers = true) :
    (process u fd sv msg).1.raftState = sv.raftState ∧ (process u fd sv msg).2 = [] := by
  cases msg with
  | exit _ | resume _ | stop _ =>
    refine ⟨?_, rfl⟩
    simp only [process]
    split_ifs <;> rfl
  | _ => cases hadm

theorem process_pretending (u : Undefined) (fd : ℤ) (hadm : msg.administers = false)
    (hp : sv.pretendFail = true) : process u fd sv msg = (sv, []) := by
  cases msg with
  | exit _ | resume _ | stop _ => cases hadm
  | _ => simp [process, hp]

theorem process_dispatch (u : Undefined) (fd : ℤ) (hadm : msg.administers = false)
    (hp : sv.pretendFail = false) :
    process u fd sv msg = ({ sv with raftState := (dispatch u fd sv.raftState msg).1 },
      (dispatch u fd sv.raftState msg).2) := by
  cases msg with
  | exit _ | resume _ | stop _ => cases hadm
  | _ => simp [process, hp]

/-- A server that is not to look at a message keeps its Raft state and says nothing. -/
theorem process_idle (u : Undefined) (fd : ℤ)
    (h : msg.administers = true ∨ sv.pretendFail = true) :
    (process u fd sv msg).1.raftState = sv.raftState ∧ (process u fd sv msg).2 = [] := by
  cases hadm : msg.administers with
  | true => exact process_administers u fd hadm
  | false =>
    rw [process_pretending u fd hadm (h.resolve_left (by simp [hadm]))]
    exact ⟨rfl, rfl⟩

end

theorem process_client (u : Undefined) (fd : ℤ) (sv : AIOServer) (m : ClientMsg) :
    (process u fd sv m.msg).1.raftState =
      (if sv.pretendFail then sv.raftState else serve u fd sv.raftState m) ∧
    Quiet (process u fd sv m.msg).2 := by
  have hquiet : ∀ rs, (∀ m', m ≠ .stop m') → (∀ m', m ≠ .resume m') →
      Quiet (dispatch u fd rs m.msg).2 := by
    intro rs hs hr
    cases m with
    | intraShard req =>
      simp only [ClientMsg.msg, dispatch]
      split_ifs
      · exact quiet_intraShard fd rs req
      · exact Quiet.nil
    | crossShard req =>
      simp only [ClientMsg.msg, dispatch]
      split_ifs
      · exact quiet_crossShard fd rs req
      · exact Quiet.nil
    | printBalance req =>
      simp only [ClientMsg.msg, dispatch]
      split_ifs
      · exact quiet_printBalance fd rs req
      · exact Quiet.nil
    | printDatastore req =>
      simp only [ClientMsg.msg, dispatch]
      split_ifs
      · exact quiet_printDatastore u fd rs req
      · exact Quiet.nil
    | stop m' => exact absurd rfl (hs m')
    | resume m' => exact absurd rfl (hr m')
  by_cases hidle : m.msg.administers = true ∨ sv.pretendFail = true
  · obtain ⟨hraft, hacts⟩ := process_idle u fd hidle
    rw [hraft, hacts]
    refine ⟨?_, Quiet.nil⟩
    split_ifs with hp
    · rfl
    · cases m with
      | stop _ | resume _ => rfl
      | _ => exact absurd hidle (by simp [ClientMsg.msg, WrapperMessage.administers, hp])
  · rw [not_or, Bool.not_eq_true, Bool.not_eq_true] at hidle
    obtain ⟨hadm, hp⟩ := hidle
    rw [process_dispatch u fd hadm hp, hp, if_neg Bool.false_ne_true]
    cases m with
    | stop _ | resume _ => cases hadm
    | _ => exact ⟨rfl, hquiet _ (by simp) (by simp)⟩

/-! ### Steps -/

/-- The heart beats of leader `p`. -/
def beats (u : Undefined) (rs : RaftState) (p : Idx) : List Connection :=
  (others rs).map fun idx => ⟨p, idx, .appendReq (heartBeat u rs idx)⟩

/-- The vote requests of candidate `p`. -/
def campaign (rs : RaftState) (p : Idx) : List Connection :=
  (others rs).map fun idx => ⟨p, idx, .voteReq (voteReq rs)⟩

theorem dialed_broadcastVote (rs : RaftState) (p : Idx) :
    (broadcastVote rs).2.filterMap (dialed p) = campaign (broadcastVote rs).1 p := by
  simp only [broadcastVote, List.filterMap_cons, dialed, List.filterMap_map, campaign, others]
  rw [← List.filterMap_eq_map]
  rfl

theorem dialed_broadcastHeartBeat (u : Undefined) (rs : RaftState) (p : Idx) :
    (broadcastHeartBeat u rs).2.filterMap (dialed p) = beats u (broadcastHeartBeat u rs).1 p := by
  simp only [broadcastHeartBeat, List.filterMap_cons, dialed, List.filterMap_map, beats, others]
  rw [← List.filterMap_eq_map]
  rfl

namespace Cluster

/-- The state of the server at `p` is replaced, the others stay. -/
def set (s : Cluster) (p : Idx) (rs : RaftState) : Idx → RaftState := Function.update s.raft p rs

theorem raft_after (s : Cluster) (p : Idx) (r : AIOServer × List AIOAction)
    (net : List Connection) (reply : AIOAction → Option Connection) :
    (s.after p r net reply).raft = s.set p r.1.raftState := by
  funext q
  simp only [raft, after, set, Function.update_apply]
  split_ifs <;> rfl

/-- What holds of the new state of `p` and of the old states of the others holds of all. -/
theorem forall_set {s : Cluster} {p : Idx} {rs : RaftState} {P : Idx → RaftState → Prop}
    (hp : P p rs) (hq : ∀ q, q ≠ p → P q (s.raft q)) : ∀ q, P q (s.set p rs q) := by
  intro q
  by_cases hqp : q = p
  · subst hqp
    simpa [set] using hp
  · simpa [set, hqp] using hq q hqp

theorem set_self (s : Cluster) (p : Idx) : s.set p (s.raft p) = s.raft :=
  Function.update_eq_self _ _

theorem step_request (s : Cluster) (p : Idx) (fd : ℤ) (m : ClientMsg) (u : Undefined) :
    (s.step ⟨.request p fd m, u⟩).raft =
        s.set p (if (s.servers p).pretendFail then s.raft p else serve u fd (s.raft p) m) ∧
      (s.step ⟨.request p fd m, u⟩).net = s.net := by
  obtain ⟨hraft, hquiet⟩ := process_client u fd (s.servers p) m
  refine ⟨?_, ?_⟩
  · simp only [step]
    rw [raft_after, hraft]
    rfl
  · simp only [step, after]
    rw [hquiet.dialed p]
    simp

theorem step_timeout (s : Cluster) (p : Idx) (u : Undefined) :
    (s.step ⟨.timeout p, u⟩).raft = s.set p (timeout u (s.servers p)).1.raftState ∧
      (s.step ⟨.timeout p, u⟩).net =
        s.net ++ (timeout u (s.servers p)).2.filterMap (dialed p) :=
  ⟨raft_after .., by simp [step, after]⟩

/-- The timer of a stopped server, or of a follower that has heard a heart beat. -/
theorem step_timeout_idle {s : Cluster} {p : Idx} (u : Undefined)
    (hp : (s.servers p).pretendFail = true ∨
      ((s.raft p).role = .follower ∧ (s.raft p).heardHeartBeat = true)) :
    ∃ b, (s.step ⟨.timeout p, u⟩).raft = s.set p { s.raft p with heardHeartBeat := b } ∧
      (s.step ⟨.timeout p, u⟩).net = s.net := by
  obtain ⟨hraft, hnet⟩ := step_timeout s p u
  rw [hraft, hnet]
  rcases hp with hp | ⟨hr, hh⟩
  · exact ⟨(s.raft p).heardHeartBeat, by simp [timeout, hp, raft], by simp [timeout, hp]⟩
  · unfold raft at hr hh
    cases hp : (s.servers p).pretendFail
    · exact ⟨false, by simp [timeout, hp, hr, hh, raft], by simp [timeout, hp, hr, hh]⟩
    · exact ⟨(s.raft p).heardHeartBeat, by simp [timeout, hp, raft], by simp [timeout, hp]⟩

/-- A follower that heard nothing, or a candidate, starts an election. -/
theorem step_timeout_vote {s : Cluster} {p : Idx} (u : Undefined)
    (hp : (s.servers p).pretendFail = false)
    (hr : (s.raft p).role = .candidate ∨
      ((s.raft p).role = .follower ∧ (s.raft p).heardHeartBeat = false)) :
    ∃ b, (s.step ⟨.timeout p, u⟩).raft =
        s.set p { (broadcastVote (s.raft p)).1 with heardHeartBeat := b } ∧
      (s.step ⟨.timeout p, u⟩).net = s.net ++ campaign (broadcastVote (s.raft p)).1 p := by
  obtain ⟨hraft, hnet⟩ := step_timeout s p u
  rw [hraft, hnet, ← dialed_broadcastVote]
  unfold raft at hr
  rcases hr with hr | ⟨hr, hh⟩
  · exact ⟨(s.raft p).heardHeartBeat, by simp [timeout, hp, hr, raft, broadcastVote],
      by simp [timeout, hp, hr, raft]⟩
  · exact ⟨false, by simp [timeout, hp, hr, hh, raft], by simp [timeout, hp, hr, hh, raft]⟩

theorem step_timeout_beat {s : Cluster} {p : Idx} (u : Undefined)
    (hp : (s.servers p).pretendFail = false) (hr : (s.raft p).role = .leader) :
    (s.step ⟨.timeout p, u⟩).raft = s.set p (broadcastHeartBeat u (s.raft p)).1 ∧
      (s.step ⟨.timeout p, u⟩).net = s.net ++ beats u (broadcastHeartBeat u (s.raft p)).1 p := by
  obtain ⟨hraft, hnet⟩ := step_timeout s p u
  rw [hraft, hnet, ← dialed_broadcastHeartBeat]
  unfold raft at hr
  exact ⟨by simp [timeout, hp, hr, raft], by simp [timeout, hp, hr, raft]⟩

theorem step_deliver_none {s : Cluster} {k : ℕ} (fd : ℤ) (u : Undefined) (hk : s.net[k]? = none) :
    s.step ⟨.deliver k fd, u⟩ = s := by
  simp [step, hk]

/-- A stopped server reads the message and drops it. -/
theorem step_deliver_stopped {s : Cluster} {k : ℕ} {c : Connection} (fd : ℤ) (u : Undefined)
    (hk : s.net[k]? = some c) (hp : (s.servers c.reader).pretendFail = true) :
    (s.step ⟨.deliver k fd, u⟩).raft = s.raft ∧
      (s.step ⟨.deliver k fd, u⟩).net = s.net.eraseIdx k := by
  have hproc := process_pretending u fd (administers_connection c) hp
  refine ⟨?_, ?_⟩
  · simp only [step, hk]
    rw [raft_after, hproc]
    exact set_self s _
  · simp [step, hk, after, hproc]

/-- A running server dispatches the message it reads. -/
theorem step_deliver {s : Cluster} {k : ℕ} {c : Connection} (fd : ℤ) (u : Undefined)
    (hk : s.net[k]? = some c) (hp : (s.servers c.reader).pretendFail = false) :
    (s.step ⟨.deliver k fd, u⟩).raft =
        s.set c.reader (dispatch u fd (s.raft c.reader) c.msg).1 ∧
      (s.step ⟨.deliver k fd, u⟩).net = s.net.eraseIdx k ++
        (dispatch u fd (s.raft c.reader) c.msg).2.filterMap c.answered ++
        (dispatch u fd (s.raft c.reader) c.msg).2.filterMap (dialed c.reader) := by
  refine ⟨?_, ?_⟩
  · simp only [step, hk]
    rw [raft_after, process_dispatch u fd (administers_connection c) hp]
    rfl
  · simp only [step, hk, after, process_dispatch u fd (administers_connection c) hp]
    rfl

end Cluster

end Raft2PC
