import Raft2PC.Sanity.Accesses
import Raft2PC.Proofs.Leading
import Raft2PC.Proofs.SingleApplication

/-! Log index safety. The counters a leader keeps of its followers bound what its heart
beats read of its own log and, through the heart beats, what the followers commit; the only
way out of the bounds is to lower a counter that is 0. -/

namespace Raft2PC

open AIOServer AppendEntriesExecutor Consensus

/-- The counters of server `p` for the others and its commit index lie in its log. -/
structure Bounded (p : Idx) (rs : RaftState) : Prop where
  matched : rs.role = .leader → ∀ j : Idx, j ≠ p → 0 ≤ rs.matched j ∧ rs.matched j ≤ rs.log.length
  committed : rs.commitIndex < rs.log.length

def IndexSafe (s : Cluster) : Prop := ∀ p, Bounded p (s.raft p)

/-- Every state of the run is index safe, and every access is inside the vector. -/
def SafeAlong : Cluster → List Event → Prop
  | s, [] => IndexSafe s
  | s, e :: es => IndexSafe s ∧ (∀ a ∈ s.accesses e, a.InVector) ∧ SafeAlong (s.step e) es

theorem SafeAlong.start {s : Cluster} {es : List Event} (h : SafeAlong s es) : IndexSafe s := by
  cases es with
  | nil => exact h
  | cons e es => exact h.1

/-- Two events differ at most in what stands outside the log. -/
def SameInside (e e' : Event) : Prop :=
  e'.action = e.action ∧ e'.undef.locals = e.undef.locals

/-- A safe run sees nothing of what stands outside the logs. -/
theorem SafeAlong.run_congr {s : Cluster} {es es' : List Event} (h : SafeAlong s es)
    (hsame : List.Forall₂ SameInside es es') : s.run es' = s.run es := by
  induction hsame generalizing s with
  | nil => rfl
  | @cons e e' es es' hee _ ih =>
    obtain ⟨-, hacc, hrest⟩ := h
    have hstep : s.step e' = s.step e := by
      obtain ⟨action, u⟩ := e
      obtain ⟨action', u'⟩ := e'
      obtain ⟨rfl, hlocals⟩ := hee
      exact (s.step_congr action' hlocals.symm hacc).symm
    calc s.run (e' :: es') = (s.step e).run es' := by rw [← hstep]; rfl
      _ = (s.step e).run es := ih hrest
      _ = s.run (e :: es) := rfl

/-- The heart beat does not reach below the log and covers what it says is committed. -/
def Anchored (c : Connection) : Prop :=
  match c.call with
  | .appendReq req => -1 ≤ req.prevLogIndex ∧ req.commitIndex < covered req
  | _ => True

structure Indexing (cid : ℕ) (R : Idx → RaftState) (N : List Connection) (h : Hist) : Prop where
  leading : Leading cid R N h
  bounded : ∀ p, Bounded p (R p)
  coming : ∀ p, (R p).role = .leader → -1 ≤ (R p).comingCommitIndex
  conn : ∀ c ∈ N, Anchored c

variable {cid : ℕ} {s : Cluster} {e : Event} {h h' : Hist} {R : Idx → RaftState}
  {N : List Connection}

/-! ### Logs and counters -/

/-- A merge at a position of the log keeps or installs what it is given. -/
theorem length_mergeEntries (u : Undefined) (L : List LogEntry) (es : List Entry) {k : ℕ}
    (hk : k ≤ L.length) : k + es.length ≤ (mergeEntries u L k es).length := by
  induction es generalizing k with
  | nil => simpa [mergeEntries] using hk
  | cons e es ih =>
    simp only [mergeEntries]
    split_ifs with hstop
    · simp only [List.length_append, List.length_take, List.length_map, Int.toNat_natCast]
      omega
    · rw [not_or, not_le] at hstop
      have hnext := ih (k := k + 1) (by omega)
      rw [List.length_cons]
      push_cast at hnext
      omega

theorem prevLogIndex_lt {u : Undefined} {rs : RaftState} {req : AppendEntriesReq}
    (hmis : mismatch u rs req = false) : req.prevLogIndex < rs.log.length := by
  simp only [mismatch, Bool.or_eq_false_iff, decide_eq_false_iff_not, not_le] at hmis
  exact hmis.1

theorem covered_le_accepted {u : Undefined} {rs : RaftState} {req : AppendEntriesReq}
    (hprev : -1 ≤ req.prevLogIndex) (hmis : mismatch u rs req = false) :
    covered req ≤ ((mergeEntries u rs.log (req.prevLogIndex + 1) req.entries).length : ℤ) := by
  obtain ⟨k, hk⟩ := Int.eq_ofNat_of_zero_le (show 0 ≤ req.prevLogIndex + 1 by omega)
  have hlt := prevLogIndex_lt hmis
  have hlen := length_mergeEntries u rs.log req.entries (k := k) (by omega)
  rw [hk]
  unfold covered
  omega

theorem matched_set (l : List ℤ) (i j : ℕ) (n : ℤ) :
    (l.set i n).getD j 0 = if i = j ∧ i < l.length then n else l.getD j 0 := by
  simp only [List.getD_eq_getElem?_getD, List.getElem?_set]
  by_cases hij : i = j
  · subst hij
    by_cases hi : i < l.length
    · simp [hi]
    · simp [hi]
  · simp [hij]

theorem matched_executeRsp (u : Undefined) (fd : ℤ) (rs : RaftState) (rsp : AppendEntriesRsp)
    (j : ℕ) : (executeRsp u fd rs rsp).1.matched j = rs.matched j ∨
      (rs.role = .leader ∧ rsp.term = rs.currentTerm) ∧
        j = (rsp.serverId % SERVER_NUM_PER_CLUSTER).toNat ∧
        (executeRsp u fd rs rsp).1.matched j =
          if rsp.success then rs.comingCommitIndex + 1 else rs.matched j - 1 := by
  unfold RaftState.matched
  rw [matchedLogSize_executeRsp]
  by_cases hlead : rs.role = .leader ∧ rsp.term = rs.currentTerm
  · rw [if_pos hlead, matched_set]
    split_ifs with hin
    · exact Or.inr ⟨hlead, hin.1.symm, rfl⟩
    · exact Or.inr ⟨hlead, hin.1.symm, by rw [RaftState.matched, hin.1]⟩
    · exact Or.inl rfl
    · exact Or.inl rfl
  · rw [if_neg hlead]
    exact Or.inl rfl

theorem bounded_follower {p : Idx} {rs : RaftState} (hrole : rs.role ≠ .leader)
    (hcommit : rs.commitIndex < rs.log.length) : Bounded p rs :=
  ⟨fun hlead => absurd hlead hrole, hcommit⟩

theorem Bounded.won {p : Idx} {rs : RaftState} (hp : Bounded p rs) :
    Bounded p (Raft2PC.won rs) := by
  refine ⟨fun _ j _ => ?_, hp.committed⟩
  have hj : (Raft2PC.won rs).matched j = rs.log.length := by
    simp [RaftState.matched, Raft2PC.won, List.getD_eq_getElem?_getD]
  rw [hj]
  exact ⟨by omega, le_rfl⟩

/-! ### One step -/

theorem probesLeft_answered {k : ℕ} {fd : ℤ} {src dst : Idx} {req : AppendEntriesReq}
    {rsp : AppendEntriesRsp} (he : e.action = .deliver k fd)
    (hp : (s.servers src).pretendFail = false)
    (hk : s.net[k]? = some ⟨src, dst, .appendRsp req rsp⟩) :
    probesLeft s e = true ↔ ((s.raft src).role = .leader → rsp.term = (s.raft src).currentTerm →
      rsp.success = false →
      0 < (s.raft src).matched (rsp.serverId % SERVER_NUM_PER_CLUSTER).toNat) := by
  simp only [probesLeft, he, hk, hp, Bool.false_or, Bool.or_eq_true, decide_eq_true_eq, ne_eq]
  cases rsp.success <;> tauto

theorem Bounded.answered {p : Idx} {rs : RaftState} {rsp : AppendEntriesRsp} {u : Undefined}
    {fd : ℤ} (hp : Bounded p rs) (hc : Counters rs)
    (hcoming : rs.role = .leader → -1 ≤ rs.comingCommitIndex)
    (hle : rsp.term ≤ rs.currentTerm)
    (hok : rs.role = .leader → rsp.term = rs.currentTerm → rsp.success = false →
      0 < rs.matched (rsp.serverId % SERVER_NUM_PER_CLUSTER).toNat) :
    Bounded p (executeRsp u fd rs rsp).1 := by
  have hans := answered_executeRsp u fd hle
  have hlen := congrArg List.length hans.entries
  rw [List.length_map, List.length_map] at hlen
  constructor
  · intro hrole j hj
    rw [hans.role] at hrole
    obtain ⟨hlo, hhi⟩ := hp.matched hrole j hj
    have hin := hc.inLog hrole
    have hlow := hcoming hrole
    rw [hlen]
    rcases matched_executeRsp u fd rs rsp j with hsame | ⟨hlead, hidx, hnew⟩
    · rw [hsame]
      exact ⟨hlo, hhi⟩
    · rw [hnew]
      cases hsucc : rsp.success with
      | true =>
        rw [if_pos rfl]
        omega
      | false =>
        have hpos := hok hlead.1 hlead.2 hsucc
        rw [← hidx] at hpos
        rw [if_neg Bool.false_ne_true]
        omega
  · rw [hans.commitIndex, hlen]
    split_ifs with hdec
    · exact hc.inLog (decides_spec hdec).1
    · exact hp.committed

theorem Indexing.anchored (hi : Indexing cid R N h) {k : ℕ} {src dst : Idx}
    {req : AppendEntriesReq} (hk : N[k]? = some ⟨src, dst, .appendReq req⟩) :
    -1 ≤ req.prevLogIndex ∧ req.commitIndex < covered req :=
  hi.conn _ (List.mem_of_getElem? hk)

theorem Indexing.server_step (hi : Indexing cid s.raft s.net h) (hok : probesLeft s e = true)
    (hs : Recorded s h e R N h') :
    ∀ p, Bounded p (R p) ∧ ((R p).role = .leader → -1 ≤ (R p).comingCommitIndex) := by
  have hidle : ∀ p q : Idx, q ≠ p → Bounded q (s.raft q) ∧
      ((s.raft q).role = .leader → -1 ≤ (s.raft q).comingCommitIndex) :=
    fun _ q _ => ⟨hi.bounded q, hi.coming q⟩
  have hmoved : ∀ p rs, Bounded p rs ∧ (rs.role = .leader → -1 ≤ rs.comingCommitIndex) →
      ∀ q, Bounded q (s.set p rs q) ∧
        ((s.set p rs q).role = .leader → -1 ≤ (s.set p rs q).comingCommitIndex) := by
    intro p rs hp
    exact Cluster.forall_set (P := fun q rs => Bounded q rs ∧
      (rs.role = .leader → -1 ≤ rs.comingCommitIndex)) hp (hidle p)
  have hfollow : ∀ p rs, rs.role ≠ .leader → rs.commitIndex < rs.log.length →
      Bounded p rs ∧ (rs.role = .leader → -1 ≤ rs.comingCommitIndex) :=
    fun p rs hrole hcommit => ⟨bounded_follower hrole hcommit, fun hlead => absurd hlead hrole⟩
  have hbeat : ∀ p rs, Bounded p rs → Bounded p (broadcastHeartBeat e.undef rs).1 ∧
      ((broadcastHeartBeat e.undef rs).1.role = .leader →
        -1 ≤ (broadcastHeartBeat e.undef rs).1.comingCommitIndex) := by
    refine fun p rs hp => ⟨⟨hp.matched, hp.committed⟩, fun _ => ?_⟩
    simp only [broadcastHeartBeat]
    omega
  cases hs with
  | drop | ungranted | stale => exact fun p => ⟨hi.bounded p, hi.coming p⟩
  | idle p b => exact hmoved p _ ⟨⟨(hi.bounded p).matched, (hi.bounded p).committed⟩, hi.coming p⟩
  | campaign p b hrole =>
    exact hmoved p _ (hfollow p _ (by simp [broadcastVote]) (hi.bounded p).committed)
  | beat p hrole | reminded k p dst req rsp hk hrole => exact hmoved p _ (hbeat p _ (hi.bounded p))
  | request p fd m he hp =>
    have hsame := same_serve e.undef fd (s.raft p) m
    have hold := hi.bounded p
    have hlen : (s.raft p).log.length ≤ (serve e.undef fd (s.raft p) m).log.length := by
      rw [serve_log, List.length_append]
      exact Nat.le_add_right _ _
    refine hmoved p _ ⟨⟨fun hrole j hj => ?_, ?_⟩, fun hrole => ?_⟩
    · obtain ⟨hlo, hhi⟩ := hold.matched (hsame.role.symm.trans hrole) j hj
      rw [RaftState.matched] at hlo hhi ⊢
      rw [hsame.matchedLogSize]
      omega
    · have hcommit := hold.committed
      rw [hsame.commitIndex]
      omega
    · rw [hsame.comingCommitIndex]
      exact hi.coming p (hsame.role.symm.trans hrole)
  | granted k fd src dst req he hp hk hyes =>
    exact hmoved dst _ (hfollow dst _ (by simp [Raft2PC.granted]) (hi.bounded dst).committed)
  | counted k src dst req rsp hk hc hfew =>
    have hold := hi.bounded src
    exact hmoved src _ ⟨⟨hold.matched, hold.committed⟩, hi.coming src⟩
  | elected k src dst req rsp hk hc hmaj => exact hmoved src _ (hbeat src _ (hi.bounded src).won)
  | outvoted k src dst req rsp hk hlt | deposed k src dst req rsp hk hlt =>
    exact hmoved src _ (hfollow src _ (by simp [stepDown]) (hi.bounded src).committed)
  | mismatched k src dst req hk hle hmis =>
    exact hmoved dst _ (hfollow dst _ (by simp [follow]) (hi.bounded dst).committed)
  | accepted k fd src dst req he hp hk hle hmis =>
    obtain ⟨hprev, hcov⟩ := hi.anchored hk
    have hlen := covered_le_accepted hprev hmis
    exact hmoved dst _ (hfollow dst _ (by simp [Raft2PC.accepted, follow]) (by
      simp only [Raft2PC.accepted, follow]
      omega))
  | answered k fd src dst req rsp he hp hk hle =>
    have hans := answered_executeRsp e.undef fd hle
    have hleft := (probesLeft_answered he hp hk).mp hok
    refine hmoved src _ ⟨(hi.bounded src).answered (hi.leading.counters src) (hi.coming src) hle
      hleft, fun hrole => ?_⟩
    rw [hans.comingCommitIndex]
    exact hi.coming src (hans.role.symm.trans hrole)

theorem anchored_beats {u : Undefined} {rs : RaftState} {p : Idx}
    (hid : rs.serverId = serverId cid p) (hrole : rs.role = .leader) (hp : Bounded p rs) :
    ∀ c ∈ beats u rs p, Anchored c := by
  intro c hc
  obtain ⟨q, hq, rfl⟩ := List.mem_map.mp hc
  obtain ⟨hlo, hhi⟩ := hp.matched hrole q ((mem_others hid q).mp hq)
  have hes : (heartBeat u rs q).entries = (rs.log.drop (rs.matched q).toNat).map
      LogEntry.entry := if_neg (by omega)
  have hcommit := hp.committed
  refine ⟨?_, ?_⟩
  · show -1 ≤ rs.matched q - 1
    omega
  · show rs.commitIndex < rs.matched q - 1 + 1 + ((heartBeat u rs q).entries.length : ℤ)
    rw [hes, List.length_map, List.length_drop]
    omega

theorem Indexing.step (hi : Indexing cid s.raft s.net h) (hok : probesLeft s e = true)
    (hs : Recorded s h e R N h') : Indexing cid R N h' := by
  have hl := hi.leading.step hs
  have hserver := hi.server_step hok hs
  refine ⟨hl, fun p => (hserver p).1, fun p => (hserver p).2, fun c hc => ?_⟩
  cases hs.opened c hc with
  | old hold => exact hi.conn c hold
  | beat p hrole hbeat =>
    exact anchored_beats (hl.voting.voter p).id hrole (hserver p).1 c hbeat
  | answer | vote | voted => trivial

theorem indexing_init (cid : ℕ) (shard : Table ℤ) :
    Indexing cid (Cluster.init cid shard).raft (Cluster.init cid shard).net History.start where
  leading := leading_init cid shard
  bounded _ := bounded_follower Role.noConfusion (by
    show (-1 : ℤ) < (0 : ℕ)
    omega)
  coming _ hrole := absurd hrole Role.noConfusion
  conn _ hc := absurd hc List.not_mem_nil

/-! ### Accesses -/

theorem inVector_of {log : List LogEntry} {idxs : List ℤ}
    (h : ∀ i ∈ idxs, 0 ≤ i ∧ i < (log.length : ℤ)) : ∀ a ∈ accessesOf log idxs, a.InVector := by
  intro a ha
  obtain ⟨i, hi, rfl⟩ := List.mem_map.mp ha
  exact h i hi

theorem mem_mergeAccess {u : Undefined} {L : List LogEntry} {es : List Entry} {pos i : ℤ}
    (hi : i ∈ mergeAccess u L pos es) : pos ≤ i ∧ i < L.length := by
  induction es generalizing pos with
  | nil => cases hi
  | cons e es ih =>
    simp only [mergeAccess] at hi
    split_ifs at hi with hlen hterm
    · cases hi
    · rw [List.mem_singleton.mp hi]
      exact ⟨le_rfl, by omega⟩
    · rcases List.mem_cons.mp hi with rfl | hi
      · exact ⟨le_rfl, by omega⟩
      · obtain ⟨hlo, hhi⟩ := ih hi
        exact ⟨by omega, hhi⟩

theorem beatAccess_inVector {rs : RaftState} {p : Idx} (hid : rs.serverId = serverId cid p)
    (hrole : rs.role = .leader) (hp : Bounded p rs) : ∀ a ∈ beatAccess rs, a.InVector := by
  refine inVector_of fun i hi => ?_
  obtain ⟨q, hq, hi⟩ := List.mem_flatMap.mp hi
  obtain ⟨hlo, hhi⟩ := hp.matched hrole q ((mem_others hid q).mp hq)
  rcases List.mem_append.mp hi with hi | hi
  · unfold RaftState.prevAccess at hi
    split_ifs at hi with hzero
    · cases hi
    · rw [List.mem_singleton.mp hi]
      omega
  · unfold entryAccess at hi
    split_ifs at hi with hneg
    · cases hi
    · obtain ⟨hlo', hhi'⟩ := mem_indices.mp hi
      omega

theorem reqAccess_inVector {u : Undefined} {rs : RaftState} {req : AppendEntriesReq}
    (hlow : -1 ≤ rs.commitIndex) (hprev : -1 ≤ req.prevLogIndex)
    (hcov : req.commitIndex < covered req) : ∀ a ∈ reqAccess u rs req, a.InVector := by
  have hcheck : ∀ a ∈ accessesOf rs.log (checkAccess rs req), a.InVector := by
    refine inVector_of fun i hi => ?_
    unfold checkAccess at hi
    split_ifs at hi with hout
    · cases hi
    · rw [List.mem_singleton.mp hi]
      omega
  intro a ha
  simp only [reqAccess] at ha
  split_ifs at ha with hterm hmis
  · cases ha
  · exact hcheck a ha
  · have hlen := covered_le_accepted hprev (Bool.eq_false_iff.mpr hmis)
    rcases List.mem_append.mp ha with ha | ha
    · rcases List.mem_append.mp ha with ha | ha
      · exact hcheck a ha
      · refine inVector_of (fun i hi => ?_) a ha
        obtain ⟨hlo, hhi⟩ := mem_mergeAccess hi
        omega
    · refine inVector_of (fun i hi => ?_) a ha
      obtain ⟨hlo, hhi⟩ := mem_indices.mp hi
      omega

theorem rspAccess_inVector {u : Undefined} {rs : RaftState} {rsp : AppendEntriesRsp}
    (hc : Counters rs) : ∀ a ∈ rspAccess u rs rsp, a.InVector := by
  intro a ha
  unfold rspAccess at ha
  by_cases hlead : rs.role = .leader ∧ rsp.term = rs.currentTerm ∧ rsp.success
  · rw [if_pos hlead] at ha
    have hin := hc.inLog hlead.1
    have hlow := hc.low
    refine inVector_of (fun i hi => ?_) a ha
    rcases List.mem_append.mp hi with hi | hi
    · split_ifs at hi with hpos
      · rw [List.mem_singleton.mp hi]
        omega
      · cases hi
    · split_ifs at hi
      · obtain ⟨hlo, hhi⟩ := mem_indices.mp hi
        omega
      · cases hi
  · rw [if_neg hlead] at ha
    cases ha

theorem Bounded.voteRsp {p : Idx} {rs : RaftState} (hp : Bounded p rs) (fd : ℤ)
    (rsp : RequestVoteRsp) : Bounded p (RequestVoteExecutor.executeRsp fd rs rsp).1 := by
  by_cases hlt : rs.currentTerm < rsp.term
  · rw [rsp_outvoted fd hlt]
    exact bounded_follower (by simp [stepDown]) hp.committed
  · by_cases hc : counts rs rsp
    · by_cases hmaj : 2 ≤ rs.voteGrantedNum + 1
      · rw [rsp_elected fd hc hmaj]
        exact hp.won
      · rw [rsp_counted fd hc (by omega)]
        exact ⟨hp.matched, hp.committed⟩
    · rw [rsp_ignored fd (by omega) hc]
      exact hp

theorem serverId_voteRsp (fd : ℤ) (rs : RaftState) (rsp : RequestVoteRsp) :
    (RequestVoteExecutor.executeRsp fd rs rsp).1.serverId = rs.serverId := by
  unfold RequestVoteExecutor.executeRsp
  dsimp only
  split_ifs <;> rfl

theorem Indexing.accesses (hi : Indexing cid s.raft s.net h) (e : Event) :
    ∀ a ∈ s.accesses e, a.InVector := by
  obtain ⟨action, u⟩ := e
  have hid : ∀ p, (s.raft p).serverId = serverId cid p := fun p => (hi.leading.voting.voter p).id
  cases action with
  | lose k => exact fun a ha => (by cases ha)
  | timeout p =>
    intro a ha
    simp only [Cluster.accesses, timeoutAccess] at ha
    split_ifs at ha with hlead
    · exact beatAccess_inVector (hid p) hlead.2 (hi.bounded p) a ha
    · cases ha
  | request p fd m =>
    intro a ha
    simp only [Cluster.accesses] at ha
    split_ifs at ha
    · cases ha
    · cases m with
      | printDatastore req =>
        simp only [ClientMsg.msg, dispatchAccess] at ha
        split_ifs at ha
        · have hcommit := (hi.bounded p).committed
          refine inVector_of (fun i hidx => ?_) a ha
          obtain ⟨hlo, hhi⟩ := mem_indices.mp hidx
          omega
        · cases ha
      | intraShard | crossShard | printBalance | stop | resume => cases ha
  | deliver k fd =>
    intro a ha
    simp only [Cluster.accesses] at ha
    cases hk : s.net[k]? with
    | none =>
      rw [hk] at ha
      cases ha
    | some c =>
      simp only [hk] at ha
      split_ifs at ha
      · cases ha
      · obtain ⟨src, dst, call⟩ := c
        cases call with
        | voteReq req => cases ha
        | voteRsp req rsp =>
          change a ∈ if (RequestVoteExecutor.executeRsp fd (s.raft src) rsp).1.role = .leader
            then beatAccess (RequestVoteExecutor.executeRsp fd (s.raft src) rsp).1 else [] at ha
          split_ifs at ha with hrole
          · exact beatAccess_inVector ((serverId_voteRsp fd _ rsp).trans (hid src)) hrole
              ((hi.bounded src).voteRsp fd rsp) a ha
          · cases ha
        | appendReq req =>
          obtain ⟨hprev, hcov⟩ := hi.anchored hk
          exact reqAccess_inVector (hi.leading.counters dst).low hprev hcov a ha
        | appendRsp req rsp => exact rspAccess_inVector (hi.leading.counters src) a ha

/-! ### Runs -/

theorem Indexing.probesLeft (hi : Indexing cid s.raft s.net h) (hsafe : IndexSafe (s.step e)) :
    probesLeft s e = true := by
  by_contra hno
  obtain ⟨action, u⟩ := e
  cases action with
  | lose | timeout | request => exact hno rfl
  | deliver k fd =>
    cases hk : s.net[k]? with
    | none => exact hno (by simp [Raft2PC.probesLeft, hk])
    | some c =>
      obtain ⟨src, dst, call⟩ := c
      cases call with
      | voteReq | voteRsp | appendReq => exact hno (by simp [Raft2PC.probesLeft, hk])
      | appendRsp req rsp =>
        cases hp : (s.servers src).pretendFail with
        | true => exact hno (by simp [Raft2PC.probesLeft, hk, hp])
        | false =>
          rw [probesLeft_answered rfl hp hk] at hno
          simp only [not_forall, not_lt] at hno
          obtain ⟨hrole, hterm, hsucc, hle⟩ := hno
          obtain ⟨hsend, hidx⟩ : Sends h _ req ∧ rsp.serverId = req.serverId :=
            hi.leading.conn _ (List.mem_of_getElem? hk)
          have haddr := hsend.addressee
          rw [← hidx] at haddr
          have hslots := (hi.leading.counters src).slots hrole
          have hans := answered_executeRsp u fd hterm.le
          obtain ⟨hraft, -⟩ := Cluster.step_deliver fd u hk hp
          have hsrc : (s.step ⟨.deliver k fd, u⟩).raft src =
              (executeRsp u fd (s.raft src) rsp).1 := by
            rw [hraft, Cluster.set]
            exact Function.update_self ..
          have hbound := (hsafe src).matched (by rw [hsrc, hans.role, hrole]) dst hsend.ne.symm
          have hdst := dst.isLt
          rw [hsrc, RaftState.matched, matchedLogSize_executeRsp, if_pos ⟨hrole, hterm⟩,
            matched_set, if_pos ⟨haddr, by rw [hslots, haddr]; exact hdst⟩, hsucc,
            if_neg Bool.false_ne_true] at hbound
          omega

theorem Indexing.along (hi : Indexing cid s.raft s.net h) (es : List Event) :
    SafeAlong s es ↔ Cluster.Follows (Raft2PC.probesLeft · ·) s es := by
  induction es generalizing s h with
  | nil => exact ⟨fun _ => trivial, fun _ => hi.bounded⟩
  | cons e es ih =>
    obtain ⟨h', hrec⟩ := recorded_step s h e
    constructor
    · rintro ⟨-, -, hrest⟩
      have hok := hi.probesLeft hrest.start
      exact ⟨hok, (ih (hi.step hok hrec)).mp hrest⟩
    · rintro ⟨hok, hrest⟩
      exact ⟨hi.bounded, hi.accesses e, (ih (hi.step hok hrec)).mpr hrest⟩

/-- Log indices are safe in every run, as long as no counter is lowered below 0, and only
as long. -/
theorem index_safety (cid : ℕ) (shard : Table ℤ) (es : List Event) :
    SafeAlong (Cluster.init cid shard) es ↔
      Cluster.Follows (probesLeft · ·) (Cluster.init cid shard) es :=
  (indexing_init cid shard).along es

/-- Two heart beats start from the same counter, and the follower's log matches neither. -/
def probeTwice : List Event := electFirst ++ calmly [.request 1 7 (pay 1 100 200 5), .timeout 1,
  .deliver 1 9, .deliver 4 9, .timeout 1, .timeout 1, .deliver 4 9, .deliver 5 9, .deliver 6 9,
  .deliver 6 9]

theorem probes_below :
    (((Cluster.init 0 purse).run probeTwice).raft 1).role = .leader ∧
    (((Cluster.init 0 purse).run probeTwice).raft 1).matched 0 = -1 ∧
    ⟨1, -2⟩ ∈ ((Cluster.init 0 purse).run probeTwice).accesses ⟨.timeout 1, .zero⟩ ∧
    ¬SafeAlong (Cluster.init 0 purse) probeTwice :=
  ⟨by decide +kernel, by decide +kernel, by decide +kernel,
    fun h => absurd (((indexing_init 0 purse).along _).mp h) (by decide +kernel)⟩

end Raft2PC
