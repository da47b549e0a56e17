import Raft2PC.Proofs.LogMatching

/-! Leader completeness. When a vote goes only to a candidate at least as up to date as
the voter, an entry that a leader has of its own term on a second server is in the log of
every later leader. -/

namespace Raft2PC

open AIOServer Consensus

variable {cid : ℕ} {R : Idx → RaftState} {N : List Connection} {h h' : Hist} {s s' : Cluster}
  {e : Event} {ok : Cluster → Event → Prop}

theorem Logging.term_pos (hl : Logging cid R N h) {L : List Entry} (hL : h.Rooted Entry.term L)
    {x : Entry} (hx : x ∈ L) : 0 < x.term := by
  obtain ⟨i, hi⟩ := List.mem_iff_getElem?.mp hx
  obtain ⟨c, hc⟩ := Option.ne_none_iff_exists'.mp (hL i x hi).1
  exact hl.voting.positive c _ c (hl.voting.own_vote _ c hc)

theorem lastTerm_of_getLast? {L : List Entry} {x : Entry} (hx : L.getLast? = some x) :
    lastTerm L = x.term := by simp [lastTerm, hx]

theorem lastIndex_of_getLast? {L : List Entry} {x : Entry} (hL : Indexed L)
    (hx : L.getLast? = some x) : lastIndex L = (L.length : ℤ) - 1 := by
  have hlast := hx
  rw [List.getLast?_eq_getElem?] at hlast
  have hpos := (List.getElem?_eq_some_iff.mp hlast).1
  simp only [lastIndex, hx, Option.map_some, Option.getD_some]
  rw [hL _ x hlast]
  omega

theorem upToDate_refl (L : List Entry) : History.UpToDate Entry.term L L :=
  fun b hb => ⟨b, hb, Or.inr ⟨rfl, le_rfl⟩⟩

/-- The test on last index and last term compares the logs. -/
theorem Logging.upToDate (hl : Logging cid R N h) {c : Connection} {req : RequestVoteReq}
    {v : Idx} (hst : Stands h c req) (hup : upToDate (R v) req = true) :
    History.UpToDate Entry.term (h.ballotLog c.src req.term) (h.log v) := by
  intro b hb
  have hroot := hl.sound.matched.ballotLog c.src req.term
  have hpos := hl.term_pos (hl.sound.matched.log v) (List.mem_of_getLast? hb)
  have hbt := lastTerm_of_getLast? hb
  have hbi := lastIndex_of_getLast? (hl.sound.log v) hb
  simp only [Raft2PC.upToDate, Bool.or_eq_true, Bool.and_eq_true, decide_eq_true_eq,
    lastlogterm_eq, lastlogindex_eq, ← (hl.logger v).log, hbt, hbi, hst.1, hst.2] at hup
  cases ha : (h.ballotLog c.src req.term).getLast? with
  | none =>
    have : lastTerm (h.ballotLog c.src req.term) = -1 := by simp [lastTerm, ha]
    omega
  | some a =>
    rw [lastTerm_of_getLast? ha, lastIndex_of_getLast? (hl.sound.ballotLog _ _) ha] at hup
    exact ⟨a, rfl, by omega⟩

theorem votesChecked_granted {k : ℕ} {fd : ℤ} {src dst : Idx} {req : RequestVoteReq}
    (hok : votesChecked s e = true) (he : e.action = .deliver k fd)
    (hp : (s.servers dst).pretendFail = false) (hk : s.net[k]? = some ⟨src, dst, .voteReq req⟩)
    (hyes : grants (s.raft dst) req = true) : upToDate (s.raft dst) req = true := by
  simpa [votesChecked, he, hk, hp, hyes] using hok

theorem Logging.careful_step (hl : Logging cid s.raft s.net h) (hcare : h.Careful Entry.term)
    (hok : votesChecked s e = true) (hs : Recorded s h e R N h') : h'.Careful Entry.term := by
  have hx := hl.voting.extends hs
  have hold : ∀ v T c, h.vote v T = some c →
      History.UpToDate Entry.term (h'.ballotLog c T) (h'.ballotLog v T) := by
    intro v T c hv
    rw [hx.ballotLog v T c hv, hx.ballotLog c T c (hl.voting.backed v T c hv)]
    exact hcare v T c hv
  cases hs with
  | idle | drop | beat | ungranted | counted | elected | outvoted | reminded | stale | mismatched
  | accepted | answered | deposed => exact hold
  | request p fd m he hp =>
    cases hc : created fd (s.raft p) m with
    | none => rw [hc] at hold; exact hold
    | some x => rw [hc] at hold; exact hold
  | campaign p b hrole =>
    intro v T c hv
    have hvote := Ballots.cast_vote h.toBallots p v p ((s.raft p).currentTerm + 1) T
    rw [History.cast, hvote] at hv
    split_ifs at hv with hnew
    · rw [← Option.some.inj hv, hnew.1]
      exact upToDate_refl _
    · exact hold v T c hv
  | granted k fd src dst req he hp hk hyes =>
    intro v T c hv
    have hvote := Ballots.cast_vote h.toBallots dst v src req.term T
    rw [History.cast, hvote] at hv
    split_ifs at hv with hnew
    · obtain ⟨rfl, rfl⟩ := hnew
      obtain rfl := Option.some.inj hv
      have hask : Asked cid h ⟨src, v, .voteReq req⟩ req :=
        hl.voting.vote _ (List.mem_of_getElem? hk)
      have hst : Stands h ⟨src, v, .voteReq req⟩ req := hl.conn _ (List.mem_of_getElem? hk)
      rw [hx.ballotLog src _ src hask.vote]
      have hnewLog : (h.cast v req.term src).ballotLog v req.term = h.log v := by
        simp [History.cast]
      rw [hnewLog]
      exact hl.upToDate hst (votesChecked_granted hok he hp hk hyes)
    · exact hold v T c hv

/-- The tests of `wellLed` and that of the vote. -/
def orderly (s : Cluster) (e : Event) : Bool := wellLed s e && votesChecked s e

theorem orderly_spec (hok : orderly s e = true) :
    leaderAppends s e = true ∧ votesChecked s e = true := by
  obtain ⟨hled, hvotes⟩ := Bool.and_eq_true_iff.mp hok
  exact ⟨wellLed.leaderAppends hled, hvotes⟩

theorem Tracked.careful (ht : Tracked ok s h) (hok : ∀ s e, ok s e → orderly s e = true) :
    h.Careful Entry.term := by
  induction ht with
  | init cid shard => intro v T c hv; simp [History.start, Ballots.start] at hv
  | step e ht hstep hrec ih =>
    obtain ⟨cid, hl⟩ := ht.logging fun s e hse => (orderly_spec (hok s e hse)).1
    exact hl.careful_step ih (orderly_spec (hok _ _ hstep)).2 hrec

/-- `log_[i]` is there and the same entry as `x`. -/
def Holds (rs : RaftState) (i : ℕ) (x : LogEntry) : Prop := ∃ y ∈ rs.log[i]?, x.Same y

instance (rs : RaftState) (i : ℕ) (x : LogEntry) : Decidable (Holds rs i x) :=
  inferInstanceAs (Decidable (∃ y ∈ rs.log[i]?, x.Same y))

/-- The leader of term `T` has committed position `i`, where it and another server hold
its entry `x` of that term. -/
structure Established (s : Cluster) (p : Idx) (T : ℤ) (i : ℕ) (x : LogEntry) : Prop where
  role : (s.raft p).role = .leader
  currentTerm : (s.raft p).currentTerm = T
  committed : (i : ℤ) ≤ (s.raft p).commitIndex
  entry : (s.raft p).log[i]? = some x
  term : x.term = T
  majority : 2 ≤ (Finset.univ.filter fun v => Holds (s.raft v) i x).card

theorem Established.other {p : Idx} {T : ℤ} {i : ℕ} {x : LogEntry}
    (hx : Established s p T i x) : ∃ v, v ≠ p ∧ Holds (s.raft v) i x := by
  obtain ⟨v, hv, hne⟩ := Finset.exists_mem_ne (Nat.lt_of_succ_le hx.majority) p
  exact ⟨v, hne, (Finset.mem_filter.mp hv).2⟩

/-- A leader's entry of its own term that a second server has is on a quorum. -/
theorem Logging.durable (hl : Logging cid R N h) {p v : Idx} {i : ℕ} {x : LogEntry}
    (hrole : (R p).role = .leader) (hxi : (R p).log[i]? = some x)
    (hxt : x.term = (R p).currentTerm) (hne : v ≠ p) (hv : Holds (R v) i x) :
    h.Durable Entry.term (R p).currentTerm i := by
  have hm := hl.sound.matched
  have hlead := (hl.voting.voter p).leads hrole
  have hget : (h.leaderLog (R p).currentTerm)[i]? = some x.entry := by
    rw [hl.leading hrole, entries_getElem?, hxi]; rfl
  obtain ⟨y, hy, hxy⟩ := hv
  have hylog : (h.log v)[i]? = some y.entry := by
    rw [(hl.logger v).log, entries_getElem?, hy]; rfl
  obtain ⟨w, hwp, hw⟩ := hl.sound.copied.log _ p v i y.entry hlead (hl.voting.voter p).term hne
    hylog (hxy.1.symm.trans hxt)
  refine ⟨⟨{p, w}, ?_, ?_⟩, x.entry, hget, hxt⟩
  · rw [quorum_iff, Finset.card_pair hwp.symm]
  · intro z hz
    rcases Finset.mem_insert.mp hz with rfl | hz
    · exact Or.inr ⟨hlead, (List.getElem?_eq_some_iff.mp hget).1⟩
    · rw [Finset.mem_singleton.mp hz]
      exact Or.inl hw

/-- The election restriction: every later leader holds what was established. -/
theorem leader_holds {p q : Idx} {T : ℤ} {i : ℕ} {x : LogEntry}
    (hs : Cluster.Reach (orderly · ·) s) (hpath : Cluster.Path (orderly · ·) s s')
    (hx : Established s p T i x) (hq : (s'.raft q).role = .leader)
    (hT : T < (s'.raft q).currentTerm) : Holds (s'.raft q) i x := by
  have hfst : ∀ s e, orderly s e = true → leaderAppends s e = true :=
    fun _ _ hse => (orderly_spec hse).1
  obtain ⟨h, ht⟩ := hs.tracked
  obtain ⟨h', ht', hext⟩ := hpath.tracked ht
  obtain ⟨cid, hl⟩ := ht.logging hfst
  obtain ⟨cid', hl'⟩ := ht'.logging hfst
  obtain ⟨v, hne, hv⟩ := hx.other
  have hd := hl.durable hx.role hx.entry (hx.term.trans hx.currentTerm.symm) hne hv
  have hd' := hd.extends hl.sound.matched hext
  rw [hx.currentTerm] at hd'
  have hstart := History.leader_completeness hl'.sound.matched hl'.sound.kept
    (ht'.careful fun _ _ hse => hse) hd' _ q hT ((hl'.voting.voter q).leads hq)
  have hpre := hstart.trans (hl'.sound.matched.start_isPrefix _ q ((hl'.voting.voter q).leads hq))
  rw [hl'.leading hq] at hpre
  have hget : (h'.leaderLog T)[i]? = some x.entry := by
    have hlead := (hl.voting.voter p).leads hx.role
    rw [hx.currentTerm] at hlead
    apply getElem?_of_isPrefix (hext.leaderLog T p hlead)
    rw [← hx.currentTerm, hl.leading hx.role, entries_getElem?, hx.entry]; rfl
  have hgot : (entries (s'.raft q))[i]? = some x.entry :=
    getElem?_of_isPrefix hpre (by rw [List.getElem?_take_of_lt (by omega)]; exact hget)
  rw [entries_getElem?] at hgot
  obtain ⟨y, hy, hyx⟩ := Option.map_eq_some_iff.mp hgot
  exact ⟨y, hy, LogEntry.same_of_entry hyx.symm⟩

/-- Leader 1 commits a transfer that server 0 has taken over. -/
def commitFirst : List Event :=
  electFirst ++ calmly [.deliver 1 9, .deliver 2 9, .request 1 7 (pay 1 100 200 5), .timeout 1,
    .deliver 2 9, .deliver 3 9]

def paidEntry : LogEntry where
  term := 1
  index := 0
  command := fmtPays 100 200 5
  id := 1
  reqFd := -1

def committed : Cluster := (Cluster.init 0 purse).run commitFirst

theorem established_paid : Established committed 1 1 0 paidEntry :=
  ⟨by decide, by decide, by decide, by decide, rfl, by decide⟩

/-- Server 0, which has the entry, wins the next term with the vote of server 2. -/
def succeed : List Event := calmly [.timeout 0, .timeout 0, .deliver 4 9, .deliver 4 9]

theorem leader_holds_paid : ((committed.run succeed).raft 0).role = .leader ∧
    Holds ((committed.run succeed).raft 0) 0 paidEntry :=
  ⟨by decide, leader_holds (s := committed) (Cluster.Follows.reach (by decide))
    (Cluster.Follows.path (by decide)) established_paid (by decide) (by decide)⟩

/-- Server 2, which has nothing, wins it with the vote of server 0: the request names a
higher term, and no log is compared. -/
def overtake : List Event := calmly [.timeout 2, .timeout 2, .deliver 5 9, .deliver 6 9]

theorem entry_lost : Cluster.Reach Cluster.anyStep committed ∧
    Cluster.Path Cluster.anyStep committed (committed.run overtake) ∧
    Established committed 1 1 0 paidEntry ∧ ((committed.run overtake).raft 2).role = .leader ∧
    1 < ((committed.run overtake).raft 2).currentTerm ∧
    ¬Holds ((committed.run overtake).raft 2) 0 paidEntry :=
  ⟨Cluster.Follows.reach (by decide), Cluster.Follows.path (by decide), established_paid,
    by decide, by decide, by decide⟩

end Raft2PC
