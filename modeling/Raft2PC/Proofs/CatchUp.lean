import Raft2PC.Proofs.IndexSafety
import Raft2PC.Proofs.LogMerge

/-! Catching up. Heart beat, merge and answer repeated for one follower: each failure lowers
the leader's counter, the request of a counter that is 0 cannot fail, and a request that
does not fail brings the whole log of the leader. -/

namespace Raft2PC

open AIOServer AppendEntriesExecutor

/-- What a round leaves open: undefined values and socket numbers. -/
structure Noise where
  beat : Undefined
  merge : Undefined
  count : Undefined
  reqFd : ℤ
  rspFd : ℤ

def beatIndex (p j : Idx) (s : Cluster) : ℕ := s.net.length + (others (s.raft p)).idxOf j

def halfRound (p j : Idx) (w : Noise) (s : Cluster) : Cluster :=
  (s.step ⟨.timeout p, w.beat⟩).step ⟨.deliver (beatIndex p j s) w.reqFd, w.merge⟩

def oneRound (p j : Idx) (w : Noise) (s : Cluster) : Cluster :=
  let half := halfRound p j w s
  half.step ⟨.deliver (half.net.length - 1) w.rspFd, w.count⟩

def answer (p j : Idx) (w : Noise) (s : Cluster) : Option AppendEntriesRsp :=
  match (halfRound p j w s).net.getLast? with
  | some ⟨_, _, .appendRsp _ rsp⟩ => some rsp
  | _ => none

def rounds (p j : Idx) : ℕ → (ℕ → Noise) → Cluster → Cluster
  | 0, _, s => s
  | n + 1, w, s => rounds p j n (fun i => w (i + 1)) (oneRound p j (w 0) s)

/-- Equal terms at an index make the logs equal up to it. -/
def Matching (F L : List Entry) : Prop :=
  ∀ (i : ℕ) (x y : Entry), F[i]? = some x → L[i]? = some y → x.term = y.term →
    ∀ k ≤ i, F[k]? = L[k]?

/-- Server `p` leads with log `L`, `j` follows, and the counter for `j` is `m`. -/
structure Chasing (p j : Idx) (L : List Entry) (m : ℕ) (s : Cluster) : Prop where
  other : j ∈ others (s.raft p)
  runs : (s.servers p).pretendFail = false
  follows : (s.servers j).pretendFail = false
  leads : (s.raft p).role = .leader
  slots : (s.raft p).matchedLogSize.length = SERVER_NUM_PER_CLUSTER
  log : entries (s.raft p) = L
  matched : (s.raft p).matched j = m
  inLog : m ≤ L.length
  term : (s.raft j).currentTerm ≤ (s.raft p).currentTerm
  agree : Matching (entries (s.raft j)) L

variable {p j : Idx} {L F : List Entry} {m : ℕ} {s : Cluster} {e : Event}

/-! ### Logs -/

theorem Matching.take (h : Matching F L) {i : ℕ} {x y : Entry} (hx : F[i]? = some x)
    (hy : L[i]? = some y) (hterm : x.term = y.term) : F.take (i + 1) = L.take (i + 1) := by
  apply List.ext_getElem?
  intro k
  by_cases hk : k < i + 1
  · rw [List.getElem?_take_of_lt hk, List.getElem?_take_of_lt hk]
    exact h i x y hx hy hterm k (by omega)
  · rw [List.getElem?_eq_none (by simp only [List.length_take]; omega),
      List.getElem?_eq_none (by simp only [List.length_take]; omega)]

/-- The end of the leader's log, put after what both have, completes the log. -/
theorem Spliced.completes {log new : List LogEntry} (h : Spliced log m (L.drop m) new)
    (hagree : Matching (log.map LogEntry.entry) L) (hm : m ≤ L.length)
    (hpast : (log.map LogEntry.entry).take m = L.take m) :
    (new.map LogEntry.entry).take L.length = L := by
  have hupto : ∀ n, m + n ≤ L.length → (∀ i < n, Present log m (L.drop m) i) →
      (log.map LogEntry.entry).take (m + n) = L.take (m + n) := by
    intro n hn hpre
    cases n with
    | zero => exact hpast
    | succ n =>
      obtain ⟨x, y, hx, hy, hterm⟩ := hpre n (Nat.lt_succ_self n)
      rw [List.getElem?_drop] at hy
      exact hagree.take (i := m + n) (by rw [List.getElem?_map, hx]; rfl) hy hterm
  cases h with
  | kept hall =>
    have hlen : m + (L.drop m).length = L.length := by
      rw [List.length_drop]
      omega
    have hwhole := hupto (L.drop m).length hlen.le hall
    rwa [hlen, List.take_length] at hwhole
  | replaced n hn hpre hno =>
    rw [List.length_drop] at hn
    rw [List.map_append, List.map_take, hupto n (by omega) hpre, map_ofEntry, List.drop_drop,
      List.take_append_drop, List.take_length]

/-! ### One round -/

theorem stopped_timeout (q : Idx) (u : Undefined) :
    ((s.step ⟨.timeout p, u⟩).servers q).pretendFail = (s.servers q).pretendFail := by
  have hself : (timeout u (s.servers p)).1.pretendFail = (s.servers p).pretendFail := by
    unfold timeout
    split_ifs
    · rfl
    · dsimp only
      split <;> rfl
  simp only [Cluster.step, Cluster.after, Function.update_apply]
  split_ifs with hq
  · rw [hself, hq]
  · rfl

theorem stopped_deliver (q : Idx) (k : ℕ) (fd : ℤ) (u : Undefined) :
    ((s.step ⟨.deliver k fd, u⟩).servers q).pretendFail = (s.servers q).pretendFail := by
  simp only [Cluster.step]
  cases s.net[k]? with
  | none => rfl
  | some c =>
    have hself : (process u fd (s.servers c.reader) c.msg).1.pretendFail =
        (s.servers c.reader).pretendFail := by
      unfold Connection.msg
      split <;> (unfold process; dsimp only; split_ifs <;> rfl)
    simp only [Cluster.after, Function.update_apply]
    split_ifs with hq
    · rw [hself, hq]
    · rfl

theorem stopped_oneRound (q : Idx) (w : Noise) :
    ((oneRound p j w s).servers q).pretendFail = (s.servers q).pretendFail := by
  rw [oneRound, stopped_deliver, halfRound, stopped_deliver, stopped_timeout]

theorem set_other {rs : RaftState} {q : Idx} (hq : q ≠ p) : s.set p rs q = s.raft q := by
  rw [Cluster.set, Function.update_of_ne hq]

theorem set_same (s : Cluster) (p : Idx) (rs : RaftState) : s.set p rs p = rs := by
  rw [Cluster.set, Function.update_self]

theorem answers_once (u : Undefined) (fd : ℤ) (rs : RaftState) (req : AppendEntriesReq) :
    ∃ rsp, (executeReq u fd rs req).2 = [.writeMsg fd (.appendEntriesRsp rsp)] := by
  unfold executeReq
  dsimp only
  split_ifs <;> exact ⟨_, rfl⟩

theorem round_spec (w : Noise) (hj : j ≠ p) (hother : j ∈ others (s.raft p))
    (hp : (s.servers p).pretendFail = false) (hf : (s.servers j).pretendFail = false)
    (hlead : (s.raft p).role = .leader) :
    let lead := (broadcastHeartBeat w.beat (s.raft p)).1
    let done := executeReq w.merge w.reqFd (s.raft j) (heartBeat w.beat lead j)
    ∃ rsp, done.2 = [.writeMsg w.reqFd (.appendEntriesRsp rsp)] ∧ answer p j w s = some rsp ∧
      (oneRound p j w s).raft p = (executeRsp w.count w.rspFd lead rsp).1 ∧
      (oneRound p j w s).raft j = done.1 := by
  intro lead done
  obtain ⟨rsp, hrsp⟩ := answers_once w.merge w.reqFd (s.raft j) (heartBeat w.beat lead j)
  refine ⟨rsp, hrsp, ?_⟩
  -- the leader's timer
  obtain ⟨hraft, hnet⟩ := Cluster.step_timeout_beat w.beat hp hlead
  have hfj : ((s.step ⟨.timeout p, w.beat⟩).servers j).pretendFail = false := by
    rw [stopped_timeout, hf]
  have hpp : ((s.step ⟨.timeout p, w.beat⟩).servers p).pretendFail = false := by
    rw [stopped_timeout, hp]
  have hk : (s.step ⟨.timeout p, w.beat⟩).net[beatIndex p j s]? =
      some ⟨p, j, .appendReq (heartBeat w.beat lead j)⟩ := by
    have hidx : (others lead)[(others (s.raft p)).idxOf j]? = some j :=
      List.getElem?_idxOf hother
    rw [hnet, beatIndex, List.getElem?_append_right (Nat.le_add_right _ _),
      Nat.add_sub_cancel_left, beats, List.getElem?_map, hidx]
    rfl
  have hraftp : (s.step ⟨.timeout p, w.beat⟩).raft p = lead := by rw [hraft, set_same]
  have hraftj : (s.step ⟨.timeout p, w.beat⟩).raft j = s.raft j := by rw [hraft, set_other hj]
  -- the follower
  obtain ⟨hraft', hnet'⟩ := Cluster.step_deliver w.reqFd w.merge hk hfj
  simp only [Connection.reader, Connection.msg, dispatch, hraftj, hrsp, List.filterMap_cons,
    List.filterMap_nil, Connection.answered, Connection.dialed, List.append_nil] at hraft' hnet'
  have hhalf : halfRound p j w s = (s.step ⟨.timeout p, w.beat⟩).step
      ⟨.deliver (beatIndex p j s) w.reqFd, w.merge⟩ := rfl
  rw [← hhalf] at hraft' hnet'
  have hlast : (halfRound p j w s).net.getLast? =
      some ⟨p, j, .appendRsp (heartBeat w.beat lead j) rsp⟩ := by
    rw [hnet', List.getLast?_concat]
  have hpp' : ((halfRound p j w s).servers p).pretendFail = false := by
    rw [hhalf, stopped_deliver, hpp]
  have hraftp' : (halfRound p j w s).raft p = lead := by
    rw [hraft', set_other hj.symm, hraftp]
  have hraftj' : (halfRound p j w s).raft j = done.1 := by rw [hraft', set_same]
  -- the answer
  have hk' : (halfRound p j w s).net[(halfRound p j w s).net.length - 1]? =
      some ⟨p, j, .appendRsp (heartBeat w.beat lead j) rsp⟩ := by
    rw [← List.getLast?_eq_getElem?, hlast]
  obtain ⟨hraft'', -⟩ := Cluster.step_deliver w.rspFd w.count hk' hpp'
  simp only [Connection.reader, Connection.msg, dispatch, hraftp'] at hraft''
  refine ⟨?_, ?_, ?_⟩
  · rw [answer, hlast]
  · rw [oneRound, hraft'', set_same]
  · rw [oneRound, hraft'', set_other hj, hraftj']

theorem matched_answer {u u' : Undefined} {fd : ℤ} {rs : RaftState} {success : Bool}
    (hlead : rs.role = .leader) (hslots : rs.matchedLogSize.length = SERVER_NUM_PER_CLUSTER) :
    let rsp : AppendEntriesRsp :=
      ⟨(heartBeat u rs j).term, success, (heartBeat u rs j).serverId⟩
    (executeRsp u' fd rs rsp).1.matched j =
      if success then rs.comingCommitIndex + 1 else rs.matched j - 1 := by
  intro rsp
  have hlt : ((j : ℕ) : ℤ) < SERVER_NUM_PER_CLUSTER := by exact_mod_cast j.isLt
  have haddr : (rsp.serverId % SERVER_NUM_PER_CLUSTER).toNat = j := by
    show ((rs.serverId / SERVER_NUM_PER_CLUSTER * SERVER_NUM_PER_CLUSTER + (j : ℕ)) %
      SERVER_NUM_PER_CLUSTER).toNat = j
    rw [Int.add_comm, Int.add_mul_emod_self_right, Int.emod_eq_of_lt (by omega) hlt,
      Int.toNat_natCast]
  rw [RaftState.matched, matchedLogSize_executeRsp, if_pos ⟨hlead, rfl⟩, haddr, matched_set,
    if_pos ⟨rfl, by rw [hslots]; exact j.isLt⟩]

/-- The request of a counter that matches nothing before it is refused only above 0. -/
theorem mismatch_pos {u u' : Undefined} {rs fs : RaftState} (hmatched : rs.matched j = m)
    (hmis : mismatch u' fs (heartBeat u rs j) = true) : 0 < m := by
  by_contra hzero
  have hm : (heartBeat u rs j).prevLogIndex = -1 := by
    simp only [heartBeat, RaftState.prevlogindex, hmatched]
    omega
  simp only [mismatch, hm, Bool.or_eq_true, decide_eq_true_eq, Bool.and_eq_true] at hmis
  omega

/-- A request that is not refused stands on a common part of the logs. -/
theorem past_of_match {u u' : Undefined} {rs fs : RaftState} (hmatched : rs.matched j = m)
    (hlog : entries rs = L) (hm : m ≤ L.length) (hagree : Matching (entries fs) L)
    (hmis : mismatch u' fs (heartBeat u rs j) = false) : (entries fs).take m = L.take m := by
  cases m with
  | zero => rfl
  | succ m =>
    have hprev : (heartBeat u rs j).prevLogIndex = m := by
      simp only [heartBeat, RaftState.prevlogindex, hmatched]
      omega
    have hlen : m < rs.log.length := by
      rw [← entries_length, hlog]
      omega
    simp only [mismatch, hprev, Bool.or_eq_false_iff, Bool.and_eq_false_iff,
      decide_eq_false_iff_not, ne_eq, not_not, not_le] at hmis
    obtain ⟨hlt, hterm⟩ := hmis
    have hltF : m < fs.log.length := by omega
    have hprevTerm : (heartBeat u rs j).prevLogTerm = rs.log[m].term := by
      simp only [heartBeat, RaftState.prevlogterm, hmatched]
      rw [if_neg (by omega), show ((m + 1 : ℕ) : ℤ) - 1 = (m : ℕ) by omega, readLog_of_lt hlen]
    rw [readLog_of_lt hltF, hprevTerm] at hterm
    refine hagree.take (x := fs.log[m].entry) (y := rs.log[m].entry) ?_ ?_ ?_
    · rw [entries_getElem?, List.getElem?_eq_getElem hltF]
      rfl
    · rw [← hlog, entries_getElem?, List.getElem?_eq_getElem hlen]
      rfl
    · exact hterm.resolve_left (by omega)

/-- Round `w` succeeds: the follower has the whole log, and the leader knows. -/
structure CaughtUp (p j : Idx) (L : List Entry) (w : Noise) (s : Cluster) : Prop where
  success : ∃ rsp, answer p j w s = some rsp ∧ rsp.success = true
  log : (entries ((oneRound p j w s).raft j)).take L.length = L
  matched : ((oneRound p j w s).raft p).matched j = L.length

structure Beating (j : Idx) (L : List Entry) (m : ℕ) (lead fs : RaftState) : Prop where
  matched : lead.matched j = m
  log : entries lead = L
  role : lead.role = .leader
  slots : lead.matchedLogSize.length = SERVER_NUM_PER_CLUSTER
  term : fs.currentTerm ≤ lead.currentTerm
  coming : lead.comingCommitIndex + 1 = L.length

theorem Chasing.beating (h : Chasing p j L m s) (u : Undefined) :
    Beating j L m (broadcastHeartBeat u (s.raft p)).1 (s.raft j) where
  matched := h.matched
  log := h.log
  role := h.leads
  slots := h.slots
  term := h.term
  coming := by
    rw [← h.log, entries_length]
    simp [broadcastHeartBeat]

theorem Beating.completes {lead fs : RaftState} {u u' : Undefined} (h : Beating j L m lead fs)
    (hm : m ≤ L.length) (hagree : Matching (entries fs) L)
    (hmis : mismatch u' fs (heartBeat u lead j) = false) :
    (entries (accepted u' fs (heartBeat u lead j))).take L.length = L := by
  have hprev : (heartBeat u lead j).prevLogIndex = m - 1 := by
    simp only [heartBeat, RaftState.prevlogindex, h.matched]
  have hbase : logIdxBase (heartBeat u lead j) = m := by
    rw [logIdxBase, hprev]
    omega
  have hentries : (heartBeat u lead j).entries = L.drop m := by
    simp only [heartBeat, unmatchedEntries, h.matched]
    rw [if_neg (by omega), Int.toNat_natCast, List.map_drop, ← h.log]
    rfl
  have hsplice := spliced_accepted (by omega) hmis
  rw [hbase, hentries] at hsplice
  exact hsplice.completes hagree hm (past_of_match h.matched h.log hm hagree hmis)

theorem Chasing.round (h : Chasing p j L m s) (hj : j ≠ p) (w : Noise) :
    CaughtUp p j L w s ∨ ∃ m', m = m' + 1 ∧ Chasing p j L m' (oneRound p j w s) := by
  obtain ⟨rsp, hrsp, hans, hp, hf⟩ := round_spec w hj h.other h.runs h.follows h.leads
  have hbeat := h.beating w.beat
  have hothers : others (broadcastHeartBeat w.beat (s.raft p)).1 = others (s.raft p) := rfl
  generalize (broadcastHeartBeat w.beat (s.raft p)).1 = lead at hrsp hp hf hbeat hothers
  cases hmis : mismatch w.merge (s.raft j) (heartBeat w.beat lead j) with
  | false =>
    left
    rw [append_accepted w.reqFd hbeat.term hmis] at hrsp hf
    obtain rfl : rsp = _ := by simpa using hrsp.symm
    refine ⟨⟨_, hans, rfl⟩, ?_, ?_⟩
    · rw [hf]
      exact hbeat.completes h.inLog h.agree hmis
    · rw [hp, matched_answer hbeat.role hbeat.slots]
      exact hbeat.coming
  | true =>
    right
    rw [append_mismatched w.reqFd hbeat.term hmis] at hrsp hf
    obtain rfl : rsp = _ := by simpa using hrsp.symm
    have hpos := mismatch_pos hbeat.matched hmis
    obtain ⟨m', rfl⟩ : ∃ m', m = m' + 1 := ⟨m - 1, by omega⟩
    have hanswered : Answered w.count lead _ (executeRsp w.count w.rspFd lead
        ⟨(heartBeat w.beat lead j).term, false, (heartBeat w.beat lead j).serverId⟩).1 :=
      answered_executeRsp w.count w.rspFd le_rfl
    refine ⟨m', rfl, ?_⟩
    have hin := h.inLog
    constructor
    · rw [hp, others, hanswered.serverId, ← others, hothers]
      exact h.other
    · rw [stopped_oneRound, h.runs]
    · rw [stopped_oneRound, h.follows]
    · rw [hp, hanswered.role, hbeat.role]
    · rw [hp, slots_executeRsp, hbeat.slots]
    · rw [hp, entries, hanswered.entries]
      exact hbeat.log
    · rw [hp, matched_answer hbeat.role hbeat.slots, if_neg Bool.false_ne_true, hbeat.matched]
      omega
    · omega
    · rw [hf, hp, hanswered.currentTerm]
      exact le_rfl
    · rw [hf]
      exact h.agree

/-- The first success comes before the counter runs out. -/
theorem Chasing.catchesUp (h : Chasing p j L m s) (hj : j ≠ p) (w : ℕ → Noise) :
    ∃ i ≤ m, CaughtUp p j L (w i) (rounds p j i w s) := by
  induction m generalizing s w with
  | zero =>
    rcases h.round hj (w 0) with hdone | ⟨m', hm, -⟩
    · exact ⟨0, le_rfl, hdone⟩
    · exact absurd hm (Nat.zero_ne_add_one m')
  | succ m ih =>
    rcases h.round hj (w 0) with hdone | ⟨m', hm, hnext⟩
    · exact ⟨0, Nat.zero_le _, hdone⟩
    · obtain rfl := Nat.succ.inj hm
      obtain ⟨i, hi, hdone⟩ := ih hnext fun i => w (i + 1)
      exact ⟨i + 1, by omega, hdone⟩

/-- From any two logs that match, some round among the first `matched_log_size_[j] + 1`
succeeds, and with it the follower has the leader's log. -/
theorem catch_up (p j : Idx) (s : Cluster) (w : ℕ → Noise) (hj : j ≠ p)
    (hid : ((p : ℕ) : ℤ) = (s.raft p).serverId % SERVER_NUM_PER_CLUSTER)
    (hp : (s.servers p).pretendFail = false) (hf : (s.servers j).pretendFail = false)
    (hlead : (s.raft p).role = .leader)
    (hslots : (s.raft p).matchedLogSize.length = SERVER_NUM_PER_CLUSTER)
    (hlow : 0 ≤ (s.raft p).matched j) (hhigh : (s.raft p).matched j ≤ (s.raft p).log.length)
    (hterm : (s.raft j).currentTerm ≤ (s.raft p).currentTerm)
    (hagree : Matching (entries (s.raft j)) (entries (s.raft p))) :
    ∃ i : ℕ, (i : ℤ) ≤ (s.raft p).matched j ∧
      CaughtUp p j (entries (s.raft p)) (w i) (rounds p j i w s) := by
  obtain ⟨m, hm⟩ := Int.eq_ofNat_of_zero_le hlow
  have hother : j ∈ others (s.raft p) := by
    simp only [others, List.mem_filter, List.mem_finRange, true_and, decide_eq_true_eq, ← hid]
    exact fun heq => hj (Fin.ext (by exact_mod_cast heq))
  have hchase : Chasing p j (entries (s.raft p)) m s :=
    { other := hother, runs := hp, follows := hf, leads := hlead, slots := hslots, log := rfl
      matched := hm, inLog := by rw [entries_length]; omega, term := hterm, agree := hagree }
  obtain ⟨i, hi, hdone⟩ := hchase.catchesUp hj w
  exact ⟨i, by omega, hdone⟩

/-- Server 1 leads term 3 and believes that server 0 has its log. -/
def diverged : Cluster where
  servers q :=
    { AIOServer.new 0 q ∅ with
      raftState := { RaftState.new 0 q with
        role := if q = 1 then .leader else .follower
        currentTerm := if q = 1 then 3 else 2
        matchedLogSize := [2, 2, 2]
        log := if q = 1 then [⟨1, 0, fmtPays 1 2 5, 1, -1⟩, ⟨3, 1, fmtPays 3 4 5, 3, 9⟩]
          else [⟨1, 0, fmtPays 1 2 5, 1, -1⟩, ⟨2, 1, fmtPays 5 6 5, 2, 7⟩] } }
  net := []

def noNoise : Noise := ⟨.zero, .zero, .zero, 9, 9⟩

theorem catch_up_diverged :
    answer 1 0 noNoise diverged = some ⟨3, false, 0⟩ ∧
    ∃ i : ℕ, (i : ℤ) ≤ 2 ∧
      CaughtUp 1 0 (entries (diverged.raft 1)) noNoise (rounds 1 0 i (fun _ => noNoise) diverged) := by
  refine ⟨by decide, catch_up 1 0 diverged (fun _ => noNoise) (by decide) (by decide) (by decide)
    (by decide) (by decide) (by decide) (by decide) (by decide) (by decide) ?_⟩
  intro i x y hx hy hterm k hk
  match i with
  | 0 =>
    obtain rfl := Nat.le_zero.mp hk
    rfl
  | 1 =>
    cases hx
    cases hy
    exact absurd hterm (by decide)
  | i + 2 => cases hx

end Raft2PC
