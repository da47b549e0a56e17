import Raft2PC.Proofs.MajorityCommit

/-! State machine safety: what two servers of a cluster have committed is one sequence. -/

namespace Raft2PC

open AIOServer Consensus

/-- The entries up to `commit_index_`. -/
def committedLog (rs : RaftState) : List Entry := (entries rs).take (rs.commitIndex + 1).toNat

/-- A server's committed entries lie below a durable one of a term up to its own. -/
structure CommitOk (h : Hist) (rs : RaftState) : Prop where
  low : -1 ≤ rs.commitIndex
  high : rs.commitIndex + 1 ≤ rs.log.length
  chosen : h.Chosen Entry.term rs.currentTerm (committedLog rs)

/-- So do the entries a request tells to commit, and the request carries them. -/
structure CarriesOk (h : Hist) (req : AppendEntriesReq) : Prop where
  low : -1 ≤ req.commitIndex
  high : req.commitIndex + 1 ≤ (h.leaderLog req.term).length
  chosen : h.Chosen Entry.term req.term ((h.leaderLog req.term).take (req.commitIndex + 1).toNat)
  carried : -1 ≤ req.prevLogIndex → req.commitIndex + 1 ≤ covered req

def CommitConn (h : Hist) (c : Connection) : Prop :=
  match c.call with
  | .appendReq req => CarriesOk h req
  | _ => True

structure Committing (cid : ℕ) (R : Idx → RaftState) (N : List Connection) (h : Hist) :
    Prop where
  logging : Logging cid R N h
  careful : h.Careful Entry.term
  server : ∀ p, CommitOk h (R p)
  conn : ∀ c ∈ N, CommitConn h c

variable {cid : ℕ} {R : Idx → RaftState} {N : List Connection} {h h' : Hist} {s : Cluster}
  {e : Event} {ok : Cluster → Event → Prop}

/-- The log grows behind what is committed, the term only rises. -/
theorem CommitOk.keep {a b : RaftState} (ha : CommitOk h a) (hm : h.Matched Entry.term)
    (hx : h.Extends h') (hcommit : b.commitIndex = a.commitIndex)
    (hterm : a.currentTerm ≤ b.currentTerm) (hlog : entries a <+: entries b) :
    CommitOk h' b where
  low := by rw [hcommit]; exact ha.low
  high := by
    have := hlog.length_le
    rw [entries_length, entries_length] at this
    have := ha.high
    rw [hcommit]
    omega
  chosen := by
    have hle : (a.commitIndex + 1).toNat ≤ (entries a).length := by
      rw [entries_length]
      have := ha.high
      omega
    rw [committedLog, hcommit, take_eq_of_isPrefix hlog hle]
    exact (ha.chosen.extends hm hx).mono hterm

theorem CarriesOk.extends {req : AppendEntriesReq} {c : Idx} (hr : CarriesOk h req)
    (hm : h.Matched Entry.term) (hx : h.Extends h') (hc : h.leader req.term = some c) :
    CarriesOk h' req where
  low := hr.low
  high := by
    have := (hx.leaderLog _ c hc).length_le
    have := hr.high
    omega
  chosen := by
    rw [take_eq_of_isPrefix (hx.leaderLog _ c hc) (by have := hr.high; omega)]
    exact hr.chosen.extends hm hx
  carried := hr.carried

theorem Committing.old (hc : Committing cid R N h) (hx : h.Extends h') {c : Connection}
    (hmem : c ∈ N) : CommitConn h' c := by
  obtain ⟨src, dst, call⟩ := c
  cases call with
  | voteReq req => trivial
  | voteRsp req rsp => trivial
  | appendRsp req rsp => trivial
  | appendReq req =>
    have hled : Led h _ req := hc.logging.conn _ hmem
    have hcar : CarriesOk h req := hc.conn _ hmem
    exact hcar.extends hc.logging.sound.matched hx hled.leader

theorem Committing.old_erase (hc : Committing cid R N h) (hx : h.Extends h') {k : ℕ}
    {c : Connection} (hmem : c ∈ N.eraseIdx k) : CommitConn h' c :=
  hc.old hx ((List.eraseIdx_sublist N k).subset hmem)

theorem commit_beats {p : Idx} (rs : RaftState) (u : Undefined) (hrs : CommitOk h rs)
    (hlog : h.leaderLog rs.currentTerm = entries rs)
    (hmatched : ∀ i, rs.matched i ≤ rs.log.length) :
    ∀ c ∈ beats u (broadcastHeartBeat u rs).1 p, CommitConn h c := by
  intro c hc
  obtain ⟨q, -, rfl⟩ := List.mem_map.mp hc
  refine ⟨hrs.low, ?_, ?_, fun hprev => ?_⟩
  · show rs.commitIndex + 1 ≤ ((h.leaderLog rs.currentTerm).length : ℤ)
    rw [hlog, entries_length]
    exact hrs.high
  · show h.Chosen Entry.term rs.currentTerm
      ((h.leaderLog rs.currentTerm).take (rs.commitIndex + 1).toNat)
    rw [hlog]
    exact hrs.chosen
  · have hprev' : -1 ≤ rs.matched q - 1 := hprev
    have hm := hmatched q
    have hes : (heartBeat u rs q).entries = (rs.log.drop (rs.matched q).toNat).map
        LogEntry.entry := if_neg (by omega)
    show rs.commitIndex + 1 ≤ rs.matched q - 1 + 1 + ((heartBeat u rs q).entries.length : ℤ)
    rw [hes, List.length_map, List.length_drop]
    have := hrs.high
    omega

/-- All tests on a step. -/
def disciplined (s : Cluster) (e : Event) : Bool := counted s e && probesAnchored s e

theorem disciplined_spec (hok : disciplined s e = true) :
    leaderAppends s e = true ∧ votesChecked s e = true ∧ commitsCovered s e = true ∧
      probesAnchored s e = true := by
  simp only [disciplined, counted, Bool.and_eq_true] at hok
  obtain ⟨⟨hord, hcov⟩, hprobe⟩ := hok
  exact ⟨(orderly_spec hord).1, (orderly_spec hord).2, hcov, hprobe⟩

theorem probesAnchored_accepted {k : ℕ} {fd : ℤ} {src dst : Idx} {req : AppendEntriesReq}
    (hok : probesAnchored s e = true) (he : e.action = .deliver k fd)
    (hp : (s.servers dst).pretendFail = false)
    (hk : s.net[k]? = some ⟨src, dst, .appendReq req⟩)
    (hle : (s.raft dst).currentTerm ≤ req.term)
    (hmis : AppendEntriesExecutor.mismatch e.undef (s.raft dst) req = false) :
    -1 ≤ req.prevLogIndex := by
  have hacc : accepts e.undef (s.raft dst) req = true := by simp [accepts, hle, hmis]
  simpa [probesAnchored, he, hk, hp, hacc] using hok

theorem Committing.accepted (hc : Committing cid s.raft s.net h) {k : ℕ} {src dst : Idx}
    {req : AppendEntriesReq} {u : Undefined}
    (hk : s.net[k]? = some ⟨src, dst, .appendReq req⟩) (hprev : -1 ≤ req.prevLogIndex)
    (hmis : AppendEntriesExecutor.mismatch u (s.raft dst) req = false)
    (hx : h.Extends h') : CommitOk h' (accepted u (s.raft dst) req) := by
  have hled := hc.logging.led hk
  have hcar : CarriesOk h req := hc.conn _ (List.mem_of_getElem? hk)
  have hm := hc.logging.sound.matched
  have hroot := hm.log dst
  rw [(hc.logging.logger dst).log] at hroot
  have hmerged := hled.sent.merged hroot (hm.leaderLog _) hmis
  have hcov := hcar.carried hprev
  have hlen := hled.sent.covered_le
  have hpre : (h.leaderLog req.term).take (covered req).toNat <+:
      entries (Raft2PC.accepted u (s.raft dst) req) := by
    rw [hmerged]; exact install_isPrefix _ _
  have hlow := hcar.low
  refine ⟨hlow, ?_, ?_⟩
  · have := hpre.length_le
    rw [entries_length, List.length_take] at this
    show req.commitIndex + 1 ≤ _
    omega
  · show h'.Chosen Entry.term req.term
      ((entries (Raft2PC.accepted u (s.raft dst) req)).take (req.commitIndex + 1).toNat)
    rw [take_eq_of_isPrefix hpre (by rw [List.length_take]; omega), List.take_take,
      Nat.min_eq_left (by omega)]
    exact hcar.chosen.extends hm hx

theorem Committing.answered (hc : Committing cid s.raft s.net h) {k : ℕ} {fd : ℤ} {src dst : Idx}
    {req : AppendEntriesReq} {rsp : AppendEntriesRsp} (hok : commitsCovered s e = true)
    (he : e.action = .deliver k fd) (hp : (s.servers src).pretendFail = false)
    (hk : s.net[k]? = some ⟨src, dst, .appendRsp req rsp⟩)
    (hle : rsp.term ≤ (s.raft src).currentTerm) :
    CommitOk h (AppendEntriesExecutor.executeRsp e.undef fd (s.raft src) rsp).1 := by
  have hans := answered_executeRsp e.undef fd hle
  set rs := (AppendEntriesExecutor.executeRsp e.undef fd (s.raft src) rsp).1
  have hsame : entries rs = entries (s.raft src) := hans.entries
  have hold := hc.server src
  have heq := hans.commitIndex
  split_ifs at heq with hd
  · obtain ⟨hrole, -, -, hpos, -⟩ := decides_spec hd
    have hcoming := (hc.logging.logger src).coming hrole
    have hlen := congrArg List.length hsame
    rw [entries_length, entries_length] at hlen
    refine ⟨by omega, by rw [heq, hlen]; exact hcoming, ?_⟩
    rw [committedLog, hsame, heq, hans.currentTerm]
    by_cases hlt : (s.raft src).commitIndex < (s.raft src).comingCommitIndex
    · have hcov := commitsCovered_decides hok he hp hk hd hlt
      obtain ⟨-, -, hdur⟩ := hc.logging.commits_durable (List.mem_of_getElem? hk) hd hcov
      refine Or.inr ⟨_, _, le_rfl, hdur, ?_⟩
      rw [hc.logging.leading hrole, Int.toNat_add hpos (by decide)]
      exact List.prefix_refl _
    · exact hold.chosen.of_isPrefix (List.take_prefix_take_left (by omega))
  · exact hold.keep hc.logging.sound.matched (.refl h) heq hans.currentTerm.ge
      (by rw [hsame])

theorem Committing.server_step (hc : Committing cid s.raft s.net h)
    (hok : disciplined s e = true) (hs : Recorded s h e R N h') : ∀ p, CommitOk h' (R p) := by
  obtain ⟨hlead, hvotes, hcov, hprobe⟩ := disciplined_spec hok
  have hx := hc.logging.voting.extends hs
  have hm := hc.logging.sound.matched
  have hidle : ∀ q, CommitOk h' (s.raft q) := fun q =>
    (hc.server q).keep hm hx rfl le_rfl (List.prefix_refl _)
  -- a server whose log and commit index stay
  have hmoved : ∀ p rs, rs.commitIndex = (s.raft p).commitIndex →
      (s.raft p).currentTerm ≤ rs.currentTerm → entries rs = entries (s.raft p) →
      ∀ q, CommitOk h' (s.set p rs q) := by
    intro p rs hcommit hterm hlog
    exact Cluster.forall_set ((hc.server p).keep hm hx hcommit hterm (by rw [hlog]))
      fun q _ => hidle q
  cases hs with
  | drop | ungranted | stale => exact hidle
  | idle p b => exact hmoved p _ rfl le_rfl rfl
  | campaign p b hrole => exact hmoved p _ rfl (by simp [broadcastVote]) rfl
  | beat p hrole => exact hmoved p _ rfl le_rfl rfl
  | request p fd m he hp =>
    have hsame := same_serve e.undef fd (s.raft p) m
    refine Cluster.forall_set ((hc.server p).keep hm hx hsame.commitIndex hsame.currentTerm.ge ?_)
      fun q _ => hidle q
    rw [entries, entries, serve_log, List.map_append]
    exact List.prefix_append _ _
  | granted k fd src dst req he hp hk hyes =>
    refine hmoved dst _ rfl ?_ rfl
    show (s.raft dst).currentTerm ≤ req.term
    rcases grants_iff hyes with hlt | ⟨heq, -⟩ <;> omega
  | counted k src dst req rsp hk hcount hfew => exact hmoved src _ rfl le_rfl rfl
  | elected k src dst req rsp hk hcount hmaj => exact hmoved src _ rfl le_rfl rfl
  | outvoted k src dst req rsp hk hlt => exact hmoved src _ rfl hlt.le rfl
  | reminded k src dst req rsp hk hrole => exact hmoved src _ rfl le_rfl rfl
  | mismatched k src dst req hk hle hmis => exact hmoved dst _ rfl hle rfl
  | accepted k fd src dst req he hp hk hle hmis =>
    have hprev := probesAnchored_accepted hprobe he hp hk hle hmis
    exact Cluster.forall_set (hc.accepted hk hprev hmis hx) fun q _ => hidle q
  | answered k fd src dst req rsp he hp hk hle =>
    exact Cluster.forall_set (hc.answered hcov he hp hk hle) fun q _ => hidle q
  | deposed k src dst req rsp hk hlt => exact hmoved src _ rfl hlt.le rfl

theorem Committing.conn_step (hc : Committing cid s.raft s.net h) (hs : Recorded s h e R N h') :
    ∀ c ∈ N, CommitConn h' c := by
  have hx := hc.logging.voting.extends hs
  have hl := hc.logging
  cases hs with
  | idle p b => exact hc.conn
  | drop k => exact fun c hmem => hc.old_erase hx hmem
  | campaign p b hrole =>
    intro c hmem
    rcases List.mem_append.mp hmem with hmem | hmem
    · exact hc.old hx hmem
    · obtain ⟨q, -, rfl⟩ := List.mem_map.mp hmem
      trivial
  | beat p hrole =>
    intro c hmem
    rcases List.mem_append.mp hmem with hmem | hmem
    · exact hc.conn c hmem
    · exact commit_beats _ e.undef (hc.server p) (hl.leading hrole)
        ((hl.logger p).matched hrole) c hmem
  | request p fd m he hp => exact fun c hmem => hc.old hx hmem
  | ungranted k src dst req hk hno | granted k fd src dst req he hp hk hyes
  | stale k src dst req hk hlt | mismatched k src dst req hk hle hmis
  | accepted k fd src dst req he hp hk hle hmis =>
    intro c hmem
    rcases List.mem_append.mp hmem with hmem | hmem
    · exact hc.old_erase hx hmem
    · rw [List.mem_singleton.mp hmem]
      trivial
  | counted k src dst req rsp hk hcount hfew => exact fun c hmem => hc.old_erase hx hmem
  | elected k src dst req rsp hk hcount hmaj =>
    intro c hmem
    rcases List.mem_append.mp hmem with hmem | hmem
    · exact hc.old_erase hx hmem
    · refine commit_beats (won (s.raft src)) e.undef ?_ ?_ (matched_won (s.raft src)) c hmem
      · exact (hc.server src).keep hl.sound.matched hx rfl le_rfl (List.prefix_refl _)
      · simp only [History.elect, won, Function.update_self]
        exact (hl.logger src).log
  | outvoted k src dst req rsp hk hlt => exact fun c hmem => hc.old_erase hx hmem
  | reminded k src dst req rsp hk hrole =>
    intro c hmem
    rcases List.mem_append.mp hmem with hmem | hmem
    · exact hc.old_erase hx hmem
    · exact commit_beats _ e.undef (hc.server src) (hl.leading hrole)
        ((hl.logger src).matched hrole) c hmem
  | answered k fd src dst req rsp he hp hk hle => exact fun c hmem => hc.old_erase hx hmem
  | deposed k src dst req rsp hk hlt => exact fun c hmem => hc.old_erase hx hmem

theorem Committing.step (hc : Committing cid s.raft s.net h) (hok : disciplined s e = true)
    (hs : Recorded s h e R N h') : Committing cid R N h' where
  logging := hc.logging.step (disciplined_spec hok).1 hs
  careful := hc.logging.careful_step hc.careful (disciplined_spec hok).2.1 hs
  server := hc.server_step hok hs
  conn := hc.conn_step hs

theorem committing_init (cid : ℕ) (shard : Table ℤ) :
    Committing cid (Cluster.init cid shard).raft (Cluster.init cid shard).net History.start where
  logging := logging_init cid shard
  careful v T c hv := by simp [History.start, Ballots.start] at hv
  server p := ⟨le_rfl, le_rfl, Or.inl rfl⟩
  conn c hc := by simp [Cluster.init] at hc

theorem Tracked.committing (ht : Tracked (disciplined · ·) s h) :
    ∃ cid, Committing cid s.raft s.net h := by
  induction ht with
  | init cid shard => exact ⟨cid, committing_init cid shard⟩
  | step e _ hok hrec ih =>
    obtain ⟨cid, hc⟩ := ih
    exact ⟨cid, hc.step hok hrec⟩

/-- Committed logs are prefixes of one another. -/
theorem Committing.comparable (hc : Committing cid R N h) (p q : Idx) :
    committedLog (R p) <+: committedLog (R q) ∨ committedLog (R q) <+: committedLog (R p) :=
  (hc.server p).chosen.comparable hc.logging.sound.matched hc.logging.sound.kept hc.careful
    (hc.server q).chosen

theorem CommitOk.get {rs : RaftState} (hrs : CommitOk h rs) {i : ℕ}
    (hi : (i : ℤ) ≤ rs.commitIndex) :
    ∃ x, rs.log[i]? = some x ∧ (committedLog rs)[i]? = some x.entry := by
  have hlt : i < rs.log.length := by have := hrs.high; omega
  refine ⟨rs.log[i], List.getElem?_eq_getElem hlt, ?_⟩
  rw [committedLog, List.getElem?_take_of_lt (by omega), entries_getElem?,
    List.getElem?_eq_getElem hlt]
  rfl

theorem CommitOk.prints {rs : RaftState} (hrs : CommitOk h rs) (u : Undefined) :
    PrintDatastoreExecutor.entries u rs = (committedLog rs).map fun e => { e with id := 0 } := by
  apply List.ext_getElem?
  intro i
  simp only [PrintDatastoreExecutor.entries, indices, List.getElem?_map]
  by_cases hi : i < (rs.commitIndex + 1).toNat
  · obtain ⟨x, hx, hget⟩ := hrs.get (i := i) (by omega)
    have hlt := (List.getElem?_eq_some_iff.mp hx).1
    have hxe := (List.getElem?_eq_some_iff.mp hx).2
    rw [hget, List.getElem?_range (by simpa using hi), Option.map_some, Option.map_some, Option.map_some,
      zero_add, readLog_of_lt hlt, hxe]
    rfl
  · rw [committedLog, List.getElem?_take_eq_none (by omega),
      List.getElem?_eq_none (by simpa using hi)]
    rfl

/-- The committed entries of two servers agree, and so do the lists PrintDatastore returns. -/
structure Agree (s : Cluster) : Prop where
  entries : ∀ p q (i : ℕ), (i : ℤ) ≤ (s.raft p).commitIndex → (i : ℤ) ≤ (s.raft q).commitIndex →
    ∃ x y, (s.raft p).log[i]? = some x ∧ (s.raft q).log[i]? = some y ∧ x.Same y
  prints : ∀ u v p q,
    PrintDatastoreExecutor.entries u (s.raft p) <+: PrintDatastoreExecutor.entries v (s.raft q) ∨
      PrintDatastoreExecutor.entries v (s.raft q) <+: PrintDatastoreExecutor.entries u (s.raft p)

theorem state_machine_safety (hs : Cluster.Reach (disciplined · ·) s) : Agree s := by
  obtain ⟨h, ht⟩ := hs.tracked
  obtain ⟨cid, hc⟩ := ht.committing
  refine ⟨fun p q i hp hq => ?_, fun u v p q => ?_⟩
  · obtain ⟨x, hx, hxc⟩ := (hc.server p).get hp
    obtain ⟨y, hy, hyc⟩ := (hc.server q).get hq
    have hxy : x.entry = y.entry := by
      rcases hc.comparable p q with hpre | hpre
      · exact Option.some.inj ((getElem?_of_isPrefix hpre hxc).symm.trans hyc)
      · exact Option.some.inj (hxc.symm.trans (getElem?_of_isPrefix hpre hyc))
    exact ⟨x, y, hx, hy, LogEntry.same_of_entry hxy⟩
  · rw [(hc.server p).prints, (hc.server q).prints]
    rcases hc.comparable p q with hpre | hpre
    · exact Or.inl (hpre.map _)
    · exact Or.inr (hpre.map _)

/-- After the commit of leader 1 its next heart beat lets server 0 commit. -/
def commitBoth : List Event := commitFirst ++ calmly [.timeout 1, .deliver 3 9]

theorem state_machine_safety_both :
    ((((Cluster.init 0 purse).run commitBoth).raft 0).commitIndex = 0) ∧
      Agree ((Cluster.init 0 purse).run commitBoth) :=
  ⟨by decide, state_machine_safety (Cluster.Follows.reach (by decide))⟩

/-- Leader 1 commits a transfer only it has, server 2 wins the next term with the vote of
server 0 and commits another one with it. -/
def commitTwice : List Event := calmly [.deliver 3 9, .timeout 2, .timeout 2, .deliver 7 9,
  .deliver 8 9, .deliver 8 9, .request 2 7 (pay 2 100 300 1), .timeout 2, .deliver 9 9,
  .deliver 9 9, .deliver 10 9]

theorem commits_differ : Cluster.Reach Cluster.anyStep (answeredEarly.run commitTwice) ∧
    ¬Agree (answeredEarly.run commitTwice) := by
  have hreach : Cluster.Reach Cluster.anyStep answeredEarly := Cluster.Follows.reach (by decide)
  refine ⟨hreach.path (Cluster.Follows.path (by decide)), fun hagree => ?_⟩
  obtain ⟨x, y, hx, hy, hxy⟩ := hagree.entries 1 2 0 (by decide) (by decide)
  cases hx
  cases hy
  exact absurd hxy (by decide)

end Raft2PC
