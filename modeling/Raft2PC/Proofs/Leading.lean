import Raft2PC.Proofs.MajorityCommit

/-! What every run keeps of its leaders, with no test on the steps: a heart beat comes from
the leader of its term, the counters of a leader lie in its log, and a server that stops
being the leader of a term has gone on to a later one. -/

namespace Raft2PC

open AIOServer AppendEntriesExecutor Consensus

/-- The connection carries `req` from the leader of its term to another server. -/
structure Sends (h : Hist) (c : Connection) (req : AppendEntriesReq) : Prop where
  leader : h.leader req.term = some c.src
  ne : c.src ≠ c.dst
  low : -1 ≤ req.commitIndex
  addressee : (req.serverId % SERVER_NUM_PER_CLUSTER).toNat = c.dst

def SendOk (h : Hist) (c : Connection) : Prop :=
  match c.call with
  | .appendReq req => Sends h c req
  | .appendRsp req rsp => Sends h c req ∧ rsp.serverId = req.serverId
  | _ => True

/-- The counters of a server. -/
structure Counters (rs : RaftState) : Prop where
  low : -1 ≤ rs.commitIndex
  inLog : rs.role = .leader → rs.comingCommitIndex < rs.log.length
  slots : rs.role = .leader → rs.matchedLogSize.length = SERVER_NUM_PER_CLUSTER

structure Leading (cid : ℕ) (R : Idx → RaftState) (N : List Connection) (h : Hist) : Prop where
  voting : Voting cid R N h
  counters : ∀ p, Counters (R p)
  conn : ∀ c ∈ N, SendOk h c

/-! ### One step -/

variable {cid : ℕ} {s : Cluster} {e : Event} {h h' : Hist} {R : Idx → RaftState}
  {N : List Connection}

theorem Sends.extends {c : Connection} {req : AppendEntriesReq} (hc : Sends h c req)
    (hx : h.Extends h') : Sends h' c req :=
  { hc with leader := hx.ballots.leader _ _ hc.leader }

theorem SendOk.extends {c : Connection} (hc : SendOk h c) (hx : h.Extends h') : SendOk h' c := by
  obtain ⟨src, dst, call⟩ := c
  cases call with
  | voteReq | voteRsp => trivial
  | appendReq req => exact Sends.extends hc hx
  | appendRsp req rsp => exact ⟨Sends.extends hc.1 hx, hc.2⟩

theorem sendOk_beats {u : Undefined} {rs : RaftState} {p : Idx}
    (hid : rs.serverId = serverId cid p) (hlead : h.leader rs.currentTerm = some p)
    (hlow : -1 ≤ rs.commitIndex) : ∀ c ∈ beats u rs p, SendOk h c := by
  intro c hc
  obtain ⟨q, hq, rfl⟩ := List.mem_map.mp hc
  refine ⟨hlead, ((mem_others hid q).mp hq).symm, hlow, ?_⟩
  have hlt := q.isLt
  simp only [heartBeat, SERVER_NUM_PER_CLUSTER] at hlt ⊢
  omega

/-- A response of its own term moves one of a leader's counters: on success to the end of
the log it was about to commit, otherwise one down. -/
theorem matchedLogSize_executeRsp (u : Undefined) (fd : ℤ) (rs : RaftState)
    (rsp : AppendEntriesRsp) :
    (executeRsp u fd rs rsp).1.matchedLogSize =
      if rs.role = .leader ∧ rsp.term = rs.currentTerm then
        rs.matchedLogSize.set (rsp.serverId % SERVER_NUM_PER_CLUSTER).toNat
          (if rsp.success then rs.comingCommitIndex + 1
            else rs.matched (rsp.serverId % SERVER_NUM_PER_CLUSTER).toNat - 1)
      else rs.matchedLogSize := by
  have hterm : ∀ rs' : RaftState, (if rs'.currentTerm < rsp.term
      then { rs' with currentTerm := rsp.term, role := .follower } else rs').matchedLogSize =
        rs'.matchedLogSize := by
    intro rs'
    split_ifs <;> rfl
  unfold executeRsp
  refine (hterm _).trans ?_
  split_ifs with hlead hsucc
  · unfold onSuccess
    dsimp only
    split_ifs
    · obtain ⟨⟨b, hsame⟩, -⟩ := same_commitLog u { rs with logGrantedNum := rs.logGrantedNum + 1 }
      rw [setMatched, hsame.matchedLogSize, hsame.comingCommitIndex]
    · rfl
  · rfl
  · rfl

theorem slots_executeRsp (u : Undefined) (fd : ℤ) (rs : RaftState) (rsp : AppendEntriesRsp) :
    (executeRsp u fd rs rsp).1.matchedLogSize.length = rs.matchedLogSize.length := by
  rw [matchedLogSize_executeRsp]
  split_ifs
  · exact List.length_set
  · exact List.length_set
  · rfl

theorem Counters.answered {rs : RaftState} {rsp : AppendEntriesRsp} (hold : Counters rs)
    (u : Undefined) (fd : ℤ) (hle : rsp.term ≤ rs.currentTerm) :
    Counters (executeRsp u fd rs rsp).1 := by
  have hans := answered_executeRsp u fd hle
  have hlen := congrArg List.length hans.entries
  rw [List.length_map, List.length_map] at hlen
  refine ⟨?_, fun hrole => ?_, fun hrole => ?_⟩
  · rw [hans.commitIndex]
    split_ifs with hdec
    · obtain ⟨-, -, -, hpos, -⟩ := decides_spec hdec
      omega
    · exact hold.low
  · rw [hans.comingCommitIndex, hlen]
    exact hold.inLog (hans.role.symm.trans hrole)
  · rw [slots_executeRsp]
    exact hold.slots (hans.role.symm.trans hrole)

theorem Leading.sends (hl : Leading cid R N h) {k : ℕ} {src dst : Idx} {req : AppendEntriesReq}
    (hk : N[k]? = some ⟨src, dst, .appendReq req⟩) : Sends h ⟨src, dst, .appendReq req⟩ req :=
  hl.conn _ (List.mem_of_getElem? hk)

theorem Leading.counters_step (hl : Leading cid s.raft s.net h) (hs : Recorded s h e R N h') :
    ∀ p, Counters (R p) := by
  have hidle : ∀ (p q : Idx), q ≠ p → Counters (s.raft q) := fun p q _ => hl.counters q
  have hbeat : ∀ rs : RaftState, -1 ≤ rs.commitIndex →
      rs.matchedLogSize.length = SERVER_NUM_PER_CLUSTER →
      Counters (broadcastHeartBeat e.undef rs).1 := by
    intro rs hlow hslots
    refine ⟨hlow, fun _ => ?_, fun _ => hslots⟩
    simp only [broadcastHeartBeat]
    omega
  have hfollow : ∀ rs : RaftState, -1 ≤ rs.commitIndex → rs.role ≠ .leader → Counters rs :=
    fun rs hlow hrole => ⟨hlow, fun h => absurd h hrole, fun h => absurd h hrole⟩
  cases hs with
  | drop | ungranted | stale => exact hl.counters
  | idle p b =>
    have hp := hl.counters p
    exact Cluster.forall_set ⟨hp.low, hp.inLog, hp.slots⟩ (hidle p)
  | campaign p b hrole =>
    exact Cluster.forall_set (hfollow _ (hl.counters p).low (by simp [broadcastVote])) (hidle p)
  | beat p hrole =>
    exact Cluster.forall_set (hbeat _ (hl.counters p).low ((hl.counters p).slots hrole)) (hidle p)
  | request p fd m he hp =>
    have hsame := same_serve e.undef fd (s.raft p) m
    have hold := hl.counters p
    refine Cluster.forall_set ⟨?_, fun hrole => ?_, fun hrole => ?_⟩ (hidle p)
    · rw [hsame.commitIndex]
      exact hold.low
    · have hin := hold.inLog (hsame.role.symm.trans hrole)
      rw [hsame.comingCommitIndex, serve_log, List.length_append]
      omega
    · rw [hsame.matchedLogSize]
      exact hold.slots (hsame.role.symm.trans hrole)
  | granted k fd src dst req he hp hk hyes =>
    exact Cluster.forall_set (hfollow _ (hl.counters dst).low (by simp [granted])) (hidle dst)
  | counted k src dst req rsp hk hc hfew =>
    have hold := hl.counters src
    exact Cluster.forall_set ⟨hold.low, hold.inLog, hold.slots⟩ (hidle src)
  | elected k src dst req rsp hk hc hmaj =>
    exact Cluster.forall_set (hbeat (won (s.raft src)) (hl.counters src).low
      (List.length_replicate ..)) (hidle src)
  | reminded k src dst req rsp hk hrole =>
    exact Cluster.forall_set (hbeat _ (hl.counters src).low ((hl.counters src).slots hrole))
      (hidle src)
  | outvoted k src dst req rsp hk hlt | deposed k src dst req rsp hk hlt =>
    exact Cluster.forall_set (hfollow _ (hl.counters src).low (by simp [stepDown])) (hidle src)
  | mismatched k src dst req hk hle hmis =>
    exact Cluster.forall_set (hfollow _ (hl.counters dst).low (by simp [follow])) (hidle dst)
  | accepted k fd src dst req he hp hk hle hmis =>
    exact Cluster.forall_set (hfollow _ (hl.sends hk).low (by simp [accepted, follow]))
      (hidle dst)
  | answered k fd src dst req rsp he hp hk hle =>
    exact Cluster.forall_set ((hl.counters src).answered e.undef fd hle) (hidle src)

theorem Leading.step (hl : Leading cid s.raft s.net h) (hs : Recorded s h e R N h') :
    Leading cid R N h' := by
  have hv := hl.voting.step hs
  have hx := hl.voting.extends hs
  have hcounters := hl.counters_step hs
  refine ⟨hv, hcounters, fun c hc => ?_⟩
  cases hs.opened c hc with
  | old hold => exact (hl.conn c hold).extends hx
  | beat p hrole hbeat =>
    exact sendOk_beats (hv.voter p).id ((hv.voter p).leads hrole) (hcounters p).low c hbeat
  | answer hreq hid =>
    have hold : Sends h _ _ := hl.conn _ hreq
    exact ⟨⟨hx.ballots.leader _ _ hold.leader, hold.ne, hold.low, hold.addressee⟩, hid⟩
  | vote | voted => trivial

theorem leading_init (cid : ℕ) (shard : Table ℤ) :
    Leading cid (Cluster.init cid shard).raft (Cluster.init cid shard).net History.start where
  voting := voting_init cid shard
  counters _ :=
    { low := le_rfl
      inLog := fun hrole => absurd hrole Role.noConfusion
      slots := fun hrole => absurd hrole Role.noConfusion }
  conn _ hc := absurd hc List.not_mem_nil

theorem Tracked.leading {ok : Cluster → Event → Prop} (ht : Tracked ok s h) :
    ∃ cid, Leading cid s.raft s.net h := by
  induction ht with
  | init cid shard => exact ⟨cid, leading_init cid shard⟩
  | step e _ _ hrec ih =>
    obtain ⟨cid, hl⟩ := ih
    exact ⟨cid, hl.step hrec⟩

theorem Leading.next (hl : Leading cid s.raft s.net h) (e : Event) :
    ∃ h', Leading cid (s.step e).raft (s.step e).net h' ∧ h.Extends h' := by
  obtain ⟨h', hrec⟩ := recorded_step s h e
  exact ⟨h', hl.step hrec, hl.voting.extends hrec⟩

end Raft2PC
