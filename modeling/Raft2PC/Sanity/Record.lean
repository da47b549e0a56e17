import Raft2PC.Sanity.Step
import Raft2PC.Spec.Discipline
import Raft2PC.Consensus.Completeness

/-! The inversion of a step, together with the history it writes: who voted, who was
elected, what a leader appended and what a follower took over. -/

namespace Raft2PC

open AIOServer

/-- The history of a cluster: nodes are servers, entries are what goes over the wire. -/
abbrev Hist := Consensus.History Idx Entry

/-- The voter's state after it granted `req`. -/
def granted (rs : RaftState) (req : RequestVoteReq) : RaftState :=
  { rs with
    currentTerm := req.term
    votedFor := req.candidateId
    role := .follower
    heardHeartBeat := true }

/-- A server that learns of a later term steps down. -/
def stepDown (rs : RaftState) (term : ℤ) : RaftState :=
  { rs with currentTerm := term, role := .follower }

/-- The response counts as a vote. -/
def counts (rs : RaftState) (rsp : RequestVoteRsp) : Prop :=
  rs.role = .candidate ∧ rsp.term = rs.currentTerm ∧ rsp.voteGranted = true

/-- The candidate that has just won, before its first heart beat. -/
def won (rs : RaftState) : RaftState :=
  { rs with
    voteGrantedNum := rs.voteGrantedNum + 1
    role := .leader
    matchedLogSize := List.replicate SERVER_NUM_PER_CLUSTER (rs.log.length : ℤ) }

/-- The follower of a leader whose term is not behind, before it looks at the log. -/
def follow (rs : RaftState) (term : ℤ) : RaftState :=
  { rs with currentTerm := term, role := .follower, heardHeartBeat := true }

/-- The follower after it has merged and committed. -/
def accepted (u : Undefined) (rs : RaftState) (req : AppendEntriesReq) : RaftState :=
  let rs := { follow rs req.term with
    log := AppendEntriesExecutor.mergeEntries u rs.log (req.prevLogIndex + 1) req.entries }
  { rs with
    localBalanceTb := AppendEntriesExecutor.applyLog u rs req.commitIndex
    commitIndex := req.commitIndex }

/-- `Recorded s h e R N h'`: in state `s` the event `e` leads to server states `R` and
connections `N`, and takes the history from `h` to `h'`. -/
inductive Recorded (s : Cluster) (h : Hist) (e : Event) :
    (Idx → RaftState) → List Connection → Hist → Prop
  | idle (p : Idx) (b : Bool) :
      Recorded s h e (s.set p { s.raft p with heardHeartBeat := b }) s.net h
  | drop (k : ℕ) : Recorded s h e s.raft (s.net.eraseIdx k) h
  | campaign (p : Idx) (b : Bool) (hrole : (s.raft p).role ≠ .leader) :
      Recorded s h e (s.set p { (broadcastVote (s.raft p)).1 with heardHeartBeat := b })
        (s.net ++ Raft2PC.campaign (broadcastVote (s.raft p)).1 p)
        (h.cast p ((s.raft p).currentTerm + 1) p)
  | beat (p : Idx) (hrole : (s.raft p).role = .leader) :
      Recorded s h e (s.set p (broadcastHeartBeat e.undef (s.raft p)).1)
        (s.net ++ beats e.undef (broadcastHeartBeat e.undef (s.raft p)).1 p) h
  | request (p : Idx) (fd : ℤ) (m : ClientMsg) (he : e.action = .request p fd m)
      (hp : (s.servers p).pretendFail = false) :
      Recorded s h e (s.set p (serve e.undef fd (s.raft p) m)) s.net
        (((created fd (s.raft p) m).map fun x => h.append p x.entry).getD h)
  | ungranted (k : ℕ) (src dst : Idx) (req : RequestVoteReq)
      (hk : s.net[k]? = some ⟨src, dst, .voteReq req⟩) (hno : grants (s.raft dst) req = false) :
      Recorded s h e s.raft (s.net.eraseIdx k ++
        [⟨src, dst, .voteRsp req { term := (s.raft dst).currentTerm, voteGranted := false }⟩]) h
  | granted (k : ℕ) (fd : ℤ) (src dst : Idx) (req : RequestVoteReq)
      (he : e.action = .deliver k fd) (hp : (s.servers dst).pretendFail = false)
      (hk : s.net[k]? = some ⟨src, dst, .voteReq req⟩) (hyes : grants (s.raft dst) req = true) :
      Recorded s h e (s.set dst (granted (s.raft dst) req)) (s.net.eraseIdx k ++
        [⟨src, dst, .voteRsp req { term := req.term, voteGranted := true }⟩])
        (h.cast dst req.term src)
  | counted (k : ℕ) (src dst : Idx) (req : RequestVoteReq) (rsp : RequestVoteRsp)
      (hk : s.net[k]? = some ⟨src, dst, .voteRsp req rsp⟩) (hc : counts (s.raft src) rsp)
      (hfew : (s.raft src).voteGrantedNum + 1 < 2) :
      Recorded s h e
        (s.set src { s.raft src with voteGrantedNum := (s.raft src).voteGrantedNum + 1 })
        (s.net.eraseIdx k) h
  | elected (k : ℕ) (src dst : Idx) (req : RequestVoteReq) (rsp : RequestVoteRsp)
      (hk : s.net[k]? = some ⟨src, dst, .voteRsp req rsp⟩) (hc : counts (s.raft src) rsp)
      (hmaj : 2 ≤ (s.raft src).voteGrantedNum + 1) :
      Recorded s h e (s.set src (broadcastHeartBeat e.undef (won (s.raft src))).1)
        (s.net.eraseIdx k ++
          beats e.undef (broadcastHeartBeat e.undef (won (s.raft src))).1 src)
        (h.elect src (s.raft src).currentTerm)
  | outvoted (k : ℕ) (src dst : Idx) (req : RequestVoteReq) (rsp : RequestVoteRsp)
      (hk : s.net[k]? = some ⟨src, dst, .voteRsp req rsp⟩)
      (hlt : (s.raft src).currentTerm < rsp.term) :
      Recorded s h e (s.set src (stepDown (s.raft src) rsp.term)) (s.net.eraseIdx k)
        (h.advance src rsp.term)
  | reminded (k : ℕ) (src dst : Idx) (req : RequestVoteReq) (rsp : RequestVoteRsp)
      (hk : s.net[k]? = some ⟨src, dst, .voteRsp req rsp⟩)
      (hrole : (s.raft src).role = .leader) :
      Recorded s h e (s.set src (broadcastHeartBeat e.undef (s.raft src)).1)
        (s.net.eraseIdx k ++ beats e.undef (broadcastHeartBeat e.undef (s.raft src)).1 src) h
  | stale (k : ℕ) (src dst : Idx) (req : AppendEntriesReq)
      (hk : s.net[k]? = some ⟨src, dst, .appendReq req⟩)
      (hlt : req.term < (s.raft dst).currentTerm) :
      Recorded s h e s.raft (s.net.eraseIdx k ++ [⟨src, dst, .appendRsp req
        { term := (s.raft dst).currentTerm, success := false, serverId := req.serverId }⟩]) h
  | mismatched (k : ℕ) (src dst : Idx) (req : AppendEntriesReq)
      (hk : s.net[k]? = some ⟨src, dst, .appendReq req⟩)
      (hle : (s.raft dst).currentTerm ≤ req.term)
      (hmis : AppendEntriesExecutor.mismatch e.undef (s.raft dst) req = true) :
      Recorded s h e (s.set dst (follow (s.raft dst) req.term)) (s.net.eraseIdx k ++
        [⟨src, dst, .appendRsp req
          { term := req.term, success := false, serverId := req.serverId }⟩])
        (h.advance dst req.term)
  | accepted (k : ℕ) (fd : ℤ) (src dst : Idx) (req : AppendEntriesReq)
      (he : e.action = .deliver k fd) (hp : (s.servers dst).pretendFail = false)
      (hk : s.net[k]? = some ⟨src, dst, .appendReq req⟩)
      (hle : (s.raft dst).currentTerm ≤ req.term)
      (hmis : AppendEntriesExecutor.mismatch e.undef (s.raft dst) req = false) :
      Recorded s h e (s.set dst (accepted e.undef (s.raft dst) req)) (s.net.eraseIdx k ++
        [⟨src, dst, .appendRsp req
          { term := req.term, success := true, serverId := req.serverId }⟩])
        (h.accept dst req.term (covered req).toNat)
  | answered (k : ℕ) (fd : ℤ) (src dst : Idx) (req : AppendEntriesReq) (rsp : AppendEntriesRsp)
      (he : e.action = .deliver k fd) (hp : (s.servers src).pretendFail = false)
      (hk : s.net[k]? = some ⟨src, dst, .appendRsp req rsp⟩)
      (hle : rsp.term ≤ (s.raft src).currentTerm) :
      Recorded s h e
        (s.set src (AppendEntriesExecutor.executeRsp e.undef fd (s.raft src) rsp).1)
        (s.net.eraseIdx k) h
  | deposed (k : ℕ) (src dst : Idx) (req : AppendEntriesReq) (rsp : AppendEntriesRsp)
      (hk : s.net[k]? = some ⟨src, dst, .appendRsp req rsp⟩)
      (hlt : (s.raft src).currentTerm < rsp.term) :
      Recorded s h e (s.set src (stepDown (s.raft src) rsp.term)) (s.net.eraseIdx k)
        (h.advance src rsp.term)

/-- A connection of the new state: an old one, a heart beat of a leader, the answer to a
heart beat, or one that carries a vote. -/
inductive Opened (s : Cluster) (u : Undefined) (R : Idx → RaftState) : Connection → Prop
  | old {c : Connection} (hc : c ∈ s.net) : Opened s u R c
  | beat {c : Connection} (p : Idx) (hrole : (R p).role = .leader) (hc : c ∈ beats u (R p) p) :
      Opened s u R c
  | answer {src dst : Idx} {req : AppendEntriesReq} {rsp : AppendEntriesRsp}
      (hc : ⟨src, dst, .appendReq req⟩ ∈ s.net) (hid : rsp.serverId = req.serverId) :
      Opened s u R ⟨src, dst, .appendRsp req rsp⟩
  | vote {src dst : Idx} {req : RequestVoteReq} : Opened s u R ⟨src, dst, .voteReq req⟩
  | voted {src dst : Idx} {req : RequestVoteReq} {rsp : RequestVoteRsp} :
      Opened s u R ⟨src, dst, .voteRsp req rsp⟩

theorem Recorded.opened {s : Cluster} {e : Event} {h h' : Hist} {R : Idx → RaftState}
    {N : List Connection} (hs : Recorded s h e R N h') : ∀ c ∈ N, Opened s e.undef R c := by
  have hless : ∀ k, ∀ c ∈ s.net.eraseIdx k, Opened s e.undef R c :=
    fun k c hc => .old (List.mem_of_mem_eraseIdx hc)
  have hbeats : ∀ (M : List Connection) p rs, R = s.set p rs → rs.role = .leader →
      (∀ c ∈ M, Opened s e.undef R c) → ∀ c ∈ M ++ beats e.undef rs p, Opened s e.undef R c := by
    intro M p rs hR hrole hM c hc
    have hp : R p = rs := by rw [hR, Cluster.set, Function.update_self]
    rcases List.mem_append.mp hc with hc | hc
    · exact hM c hc
    · exact .beat p (by rw [hp]; exact hrole) (by rw [hp]; exact hc)
  have hanswer : ∀ k c', Opened s e.undef R c' → ∀ c ∈ s.net.eraseIdx k ++ [c'],
      Opened s e.undef R c := by
    intro k c' hc' c hc
    rcases List.mem_append.mp hc with hc | hc
    · exact hless k c hc
    · rw [List.mem_singleton.mp hc]
      exact hc'
  cases hs with
  | idle | request => exact fun c hc => .old hc
  | drop k => exact hless k
  | campaign p b hrole =>
    intro c hc
    rcases List.mem_append.mp hc with hc | hc
    · exact .old hc
    · obtain ⟨q, -, rfl⟩ := List.mem_map.mp hc
      exact .vote
  | beat p hrole => exact hbeats _ p _ rfl hrole fun c hc => .old hc
  | elected k src dst req rsp hk hc hmaj => exact hbeats _ src _ rfl rfl (hless k)
  | reminded k src dst req rsp hk hrole => exact hbeats _ src _ rfl hrole (hless k)
  | ungranted k | granted k => exact hanswer k _ .voted
  | stale k src dst req hk | mismatched k src dst req hk | accepted k fd src dst req he hp hk =>
    exact hanswer k _ (.answer (List.mem_of_getElem? hk) rfl)
  | counted k | outvoted k | answered k | deposed k => exact hless k

/-! ### Vote messages -/

/-- What a vote request that is granted finds. -/
theorem grants_iff {rs : RaftState} {req : RequestVoteReq} (hg : grants rs req = true) :
    rs.currentTerm < req.term ∨ (req.term = rs.currentTerm ∧ rs.votedFor = -1 ∧
      rs.lastlogindex < req.lastLogIndex) := by
  simp only [grants, RequestVoteExecutor.refuses, Bool.and_eq_true, Bool.not_eq_true',
    Bool.or_eq_false_iff, Bool.and_eq_false_iff, decide_eq_false_iff_not, Bool.or_eq_true,
    decide_eq_true_eq] at hg
  omega

theorem vote_granted {rs : RaftState} {req : RequestVoteReq} (fd : ℤ)
    (hg : grants rs req = true) :
    RequestVoteExecutor.executeReq fd rs req = (granted rs req,
      [.writeMsg fd (.requestVoteRsp { term := req.term, voteGranted := true })]) := by
  simp only [grants, Bool.and_eq_true, Bool.not_eq_true', Bool.or_eq_true,
    decide_eq_true_eq] at hg
  obtain ⟨hr, hnew⟩ := hg
  by_cases hlt : rs.currentTerm < req.term
  · simp [RequestVoteExecutor.executeReq, hr, hlt, granted]
  · have hv : rs.votedFor = -1 := by tauto
    have heq : rs.currentTerm = req.term := by
      simp only [RequestVoteExecutor.refuses, Bool.or_eq_false_iff, decide_eq_false_iff_not] at hr
      omega
    simp [RequestVoteExecutor.executeReq, hr, hv, granted, heq]

theorem vote_ungranted {rs : RaftState} {req : RequestVoteReq} (fd : ℤ)
    (hg : grants rs req = false) :
    RequestVoteExecutor.executeReq fd rs req = (rs,
      [.writeMsg fd (.requestVoteRsp { term := rs.currentTerm, voteGranted := false })]) := by
  by_cases hr : RequestVoteExecutor.refuses rs req = true
  · simp [RequestVoteExecutor.executeReq, hr]
  · have hr' : RequestVoteExecutor.refuses rs req = false := by simpa using hr
    simp only [grants, hr', Bool.not_false, Bool.true_and, Bool.or_eq_false_iff,
      decide_eq_false_iff_not] at hg
    simp [RequestVoteExecutor.executeReq, hr', hg.1, hg.2]

theorem rsp_outvoted {rs : RaftState} {rsp : RequestVoteRsp} (fd : ℤ)
    (hlt : rs.currentTerm < rsp.term) :
    RequestVoteExecutor.executeRsp fd rs rsp = (stepDown rs rsp.term, [.close fd]) := by
  have hne : rsp.term ≠ rs.currentTerm := by omega
  simp [RequestVoteExecutor.executeRsp, hne, hlt, stepDown]

theorem rsp_ignored {rs : RaftState} {rsp : RequestVoteRsp} (fd : ℤ)
    (hle : rsp.term ≤ rs.currentTerm) (hc : ¬counts rs rsp) :
    RequestVoteExecutor.executeRsp fd rs rsp = (rs, [.close fd]) := by
  unfold counts at hc
  simp [RequestVoteExecutor.executeRsp, hc, not_lt.mpr hle]

theorem rsp_counted {rs : RaftState} {rsp : RequestVoteRsp} (fd : ℤ) (hc : counts rs rsp)
    (hfew : rs.voteGrantedNum + 1 < 2) :
    RequestVoteExecutor.executeRsp fd rs rsp =
      ({ rs with voteGrantedNum := rs.voteGrantedNum + 1 }, [.close fd]) := by
  unfold counts at hc
  simp [RequestVoteExecutor.executeRsp, hc, not_le.mpr hfew]

theorem rsp_elected {rs : RaftState} {rsp : RequestVoteRsp} (fd : ℤ) (hc : counts rs rsp)
    (hmaj : 2 ≤ rs.voteGrantedNum + 1) :
    RequestVoteExecutor.executeRsp fd rs rsp = (won rs, [.close fd]) := by
  unfold counts at hc
  simp [RequestVoteExecutor.executeRsp, hc, hmaj, won]

/-- A win is followed by a heart beat; so is any response that finds a leader. -/
theorem dispatch_leader {rs rs' : RaftState} {rsp : RequestVoteRsp} (u : Undefined) (fd : ℤ)
    (hrsp : RequestVoteExecutor.executeRsp fd rs rsp = (rs', [.close fd]))
    (hrole : rs'.role = .leader) :
    dispatch u fd rs (.requestVoteRsp rsp) =
      ((broadcastHeartBeat u rs').1, [.close fd] ++ (broadcastHeartBeat u rs').2) := by
  simp only [dispatch, hrsp, hrole, if_true]

theorem dispatch_quiet {rs rs' : RaftState} {rsp : RequestVoteRsp} (u : Undefined) (fd : ℤ)
    (hrsp : RequestVoteExecutor.executeRsp fd rs rsp = (rs', [.close fd]))
    (hrole : rs'.role ≠ .leader) :
    dispatch u fd rs (.requestVoteRsp rsp) = (rs', [.close fd]) := by
  simp only [dispatch, hrsp, hrole, if_false]

/-! ### Append messages -/

theorem append_stale {rs : RaftState} {req : AppendEntriesReq} (u : Undefined) (fd : ℤ)
    (hlt : req.term < rs.currentTerm) :
    AppendEntriesExecutor.executeReq u fd rs req = (rs, [.writeMsg fd (.appendEntriesRsp
      { term := rs.currentTerm, success := false, serverId := req.serverId })]) := by
  simp [AppendEntriesExecutor.executeReq, hlt]

theorem raise_eq {rs : RaftState} {term : ℤ} (hle : rs.currentTerm ≤ term) :
    (if rs.currentTerm < term then { rs with currentTerm := term } else rs) =
      { rs with currentTerm := term } := by
  split_ifs with hlt
  · rfl
  · have heq : rs.currentTerm = term := by omega
    subst heq; rfl

theorem append_mismatched {rs : RaftState} {req : AppendEntriesReq} {u : Undefined} (fd : ℤ)
    (hle : rs.currentTerm ≤ req.term)
    (hmis : AppendEntriesExecutor.mismatch u rs req = true) :
    AppendEntriesExecutor.executeReq u fd rs req = (follow rs req.term,
      [.writeMsg fd (.appendEntriesRsp
        { term := req.term, success := false, serverId := req.serverId })]) := by
  have hmis' : AppendEntriesExecutor.mismatch u (follow rs req.term) req = true := hmis
  simp only [follow] at hmis'
  simp only [AppendEntriesExecutor.executeReq, not_lt.mpr hle, if_false, raise_eq hle, hmis',
    if_true]
  rfl

theorem append_accepted {rs : RaftState} {req : AppendEntriesReq} {u : Undefined} (fd : ℤ)
    (hle : rs.currentTerm ≤ req.term)
    (hmis : AppendEntriesExecutor.mismatch u rs req = false) :
    AppendEntriesExecutor.executeReq u fd rs req = (accepted u rs req,
      [.writeMsg fd (.appendEntriesRsp
        { term := req.term, success := true, serverId := req.serverId })]) := by
  have hmis' : AppendEntriesExecutor.mismatch u (follow rs req.term) req = false := hmis
  simp only [follow] at hmis'
  simp only [AppendEntriesExecutor.executeReq, not_lt.mpr hle, if_false, raise_eq hle, hmis',
    Bool.false_eq_true]
  rfl

theorem rsp_deposed {rs : RaftState} {rsp : AppendEntriesRsp} (u : Undefined) (fd : ℤ)
    (hlt : rs.currentTerm < rsp.term) :
    AppendEntriesExecutor.executeRsp u fd rs rsp = (stepDown rs rsp.term, [.close fd]) := by
  have hne : rsp.term ≠ rs.currentTerm := by omega
  simp [AppendEntriesExecutor.executeRsp, hne, hlt, stepDown]

/-! ### Every step is recorded -/

open Cluster in
theorem recorded_timeout (s : Cluster) (h : Hist) (p : Idx) (u : Undefined) :
    ∃ h', Recorded s h ⟨.timeout p, u⟩ (s.step ⟨.timeout p, u⟩).raft
      (s.step ⟨.timeout p, u⟩).net h' := by
  by_cases hidle : (s.servers p).pretendFail = true ∨
      ((s.raft p).role = .follower ∧ (s.raft p).heardHeartBeat = true)
  · obtain ⟨b, hraft, hnet⟩ := step_timeout_idle u hidle
    rw [hraft, hnet]
    exact ⟨h, .idle p b⟩
  · obtain ⟨hp, hheard⟩ := not_or.mp hidle
    have hp' : (s.servers p).pretendFail = false := by simpa using hp
    by_cases hl : (s.raft p).role = .leader
    · obtain ⟨hraft, hnet⟩ := step_timeout_beat u hp' hl
      rw [hraft, hnet]
      exact ⟨h, .beat p hl⟩
    · have hvote : (s.raft p).role = .candidate ∨
          ((s.raft p).role = .follower ∧ (s.raft p).heardHeartBeat = false) := by
        cases hrole : (s.raft p).role with
        | follower => exact Or.inr ⟨rfl, by simpa [hrole] using hheard⟩
        | candidate => exact Or.inl rfl
        | leader => exact absurd hrole hl
      obtain ⟨b, hraft, hnet⟩ := step_timeout_vote u hp' hvote
      rw [hraft, hnet]
      exact ⟨_, .campaign p b hl⟩

open Cluster in
theorem recorded_deliver (s : Cluster) (h : Hist) (k : ℕ) (fd : ℤ) (u : Undefined)
    {c : Connection} (hk : s.net[k]? = some c) (hp : (s.servers c.reader).pretendFail = false) :
    ∃ h', Recorded s h ⟨.deliver k fd, u⟩ (s.step ⟨.deliver k fd, u⟩).raft
      (s.step ⟨.deliver k fd, u⟩).net h' := by
  obtain ⟨hraft, hnet⟩ := step_deliver fd u hk hp
  rw [hraft, hnet]
  obtain ⟨src, dst, call⟩ := c
  cases call with
  | voteReq req =>
    simp only [Connection.reader, Connection.msg, dispatch] at hp ⊢
    cases hg : grants (s.raft dst) req with
    | false =>
      rw [vote_ungranted fd hg, set_self]
      simp only [List.filterMap_cons, List.filterMap_nil, Connection.answered,
        Connection.dialed, List.append_nil]
      exact ⟨h, .ungranted k src dst req hk hg⟩
    | true =>
      rw [vote_granted fd hg]
      simp only [List.filterMap_cons, List.filterMap_nil, Connection.answered,
        Connection.dialed, List.append_nil]
      exact ⟨_, .granted k fd src dst req rfl hp hk hg⟩
  | voteRsp req rsp =>
    simp only [Connection.reader, Connection.msg] at hp ⊢
    have hclose := quiet_close fd
    have hbeats : ∀ rs, ((broadcastHeartBeat u rs).2.filterMap
        (Connection.answered ⟨src, dst, .voteRsp req rsp⟩)) = [] :=
      fun rs => List.filterMap_eq_nil_iff.mpr fun a _ => rfl
    by_cases hlt : (s.raft src).currentTerm < rsp.term
    · rw [dispatch_quiet u fd (rsp_outvoted fd hlt) (by simp [stepDown])]
      simp only [hclose.answered, hclose.dialed, List.append_nil]
      exact ⟨_, .outvoted k src dst req rsp hk hlt⟩
    · by_cases hc : counts (s.raft src) rsp
      · by_cases hmaj : 2 ≤ (s.raft src).voteGrantedNum + 1
        · rw [dispatch_leader u fd (rsp_elected fd hc hmaj) rfl]
          simp only [List.filterMap_append, hclose.answered, hclose.dialed, hbeats,
            dialed_broadcastHeartBeat, List.append_nil, List.nil_append]
          exact ⟨_, .elected k src dst req rsp hk hc hmaj⟩
        · rw [dispatch_quiet u fd (rsp_counted fd hc (by omega)) (by simp [hc.1])]
          simp only [hclose.answered, hclose.dialed, List.append_nil]
          exact ⟨_, .counted k src dst req rsp hk hc (by omega)⟩
      · by_cases hl : (s.raft src).role = .leader
        · rw [dispatch_leader u fd (rsp_ignored fd (by omega) hc) hl]
          simp only [List.filterMap_append, hclose.answered, hclose.dialed, hbeats,
            dialed_broadcastHeartBeat, List.append_nil, List.nil_append]
          exact ⟨_, .reminded k src dst req rsp hk hl⟩
        · rw [dispatch_quiet u fd (rsp_ignored fd (by omega) hc) hl, set_self]
          simp only [hclose.answered, hclose.dialed, List.append_nil]
          exact ⟨_, .drop k⟩
  | appendReq req =>
    simp only [Connection.reader, Connection.msg, dispatch] at hp ⊢
    by_cases hlt : req.term < (s.raft dst).currentTerm
    · rw [append_stale u fd hlt, set_self]
      simp only [List.filterMap_cons, List.filterMap_nil, Connection.answered,
        Connection.dialed, List.append_nil]
      exact ⟨h, .stale k src dst req hk hlt⟩
    · cases hmis : AppendEntriesExecutor.mismatch u (s.raft dst) req with
      | true =>
        rw [append_mismatched fd (by omega) hmis]
        simp only [List.filterMap_cons, List.filterMap_nil, Connection.answered,
          Connection.dialed, List.append_nil]
        exact ⟨_, .mismatched k src dst req hk (by omega) hmis⟩
      | false =>
        rw [append_accepted fd (by omega) hmis]
        simp only [List.filterMap_cons, List.filterMap_nil, Connection.answered,
          Connection.dialed, List.append_nil]
        exact ⟨_, .accepted k fd src dst req rfl hp hk (by omega) hmis⟩
  | appendRsp req rsp =>
    simp only [Connection.reader, Connection.msg, dispatch] at hp ⊢
    have hquiet := quiet_appendEntriesRsp u fd (s.raft src) rsp
    simp only [hquiet.answered, hquiet.dialed, List.append_nil]
    by_cases hlt : (s.raft src).currentTerm < rsp.term
    · rw [rsp_deposed u fd hlt]
      exact ⟨_, .deposed k src dst req rsp hk hlt⟩
    · exact ⟨_, .answered k fd src dst req rsp rfl hp hk (by omega)⟩

open Cluster in
theorem recorded_step (s : Cluster) (h : Hist) (e : Event) :
    ∃ h', Recorded s h e (s.step e).raft (s.step e).net h' := by
  obtain ⟨action, u⟩ := e
  cases action with
  | timeout p => exact recorded_timeout s h p u
  | lose k => exact ⟨h, .drop k⟩
  | request p fd m =>
    obtain ⟨hraft, hnet⟩ := step_request s p fd m u
    rw [hraft, hnet]
    cases hp : (s.servers p).pretendFail with
    | true => exact ⟨h, .idle p (s.raft p).heardHeartBeat⟩
    | false => exact ⟨_, .request p fd m rfl hp⟩
  | deliver k fd =>
    cases hk : s.net[k]? with
    | none =>
      rw [step_deliver_none fd u hk]
      have hlen : s.net.eraseIdx k = s.net :=
        List.eraseIdx_of_length_le (List.getElem?_eq_none_iff.mp hk)
      have := Recorded.drop (s := s) (h := h) (e := ⟨.deliver k fd, u⟩) k
      rw [hlen] at this
      exact ⟨h, this⟩
    | some c =>
      cases hp : (s.servers c.reader).pretendFail with
      | true =>
        obtain ⟨hraft, hnet⟩ := step_deliver_stopped fd u hk hp
        rw [hraft, hnet]
        exact ⟨h, .drop k⟩
      | false => exact recorded_deliver s h k fd u hk hp

/-- A run together with its history. -/
inductive Tracked (ok : Cluster → Event → Prop) : Cluster → Hist → Prop
  | init (clusterId : ℕ) (shard : Table ℤ) :
      Tracked ok (Cluster.init clusterId shard) Consensus.History.start
  | step {s : Cluster} {h h' : Hist} (e : Event) : Tracked ok s h → ok s e →
      Recorded s h e (s.step e).raft (s.step e).net h' → Tracked ok (s.step e) h'

theorem Cluster.Reach.tracked {ok : Cluster → Event → Prop} {s : Cluster} (hs : Reach ok s) :
    ∃ h, Tracked ok s h := by
  induction hs with
  | init clusterId shard => exact ⟨_, .init clusterId shard⟩
  | step e _ hok ih =>
    obtain ⟨h, hh⟩ := ih
    obtain ⟨h', hrec⟩ := recorded_step _ h e
    exact ⟨h', .step e hh hok hrec⟩

end Raft2PC
