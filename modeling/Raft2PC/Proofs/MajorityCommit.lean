import Raft2PC.Proofs.LeaderCompleteness

/-! Majority commit. A response acknowledges the entries of the request it answers and
the leader does not look which request that was; where it carried everything up to
`coming_commit_index_`, what is committed is stored by a majority. -/

namespace Raft2PC

open AIOServer Consensus

variable {cid : ℕ} {R : Idx → RaftState} {N : List Connection} {h h' : Hist} {s : Cluster}
  {e : Event} {ok : Cluster → Event → Prop}

theorem decides_spec {u : Undefined} {rs : RaftState} {rsp : AppendEntriesRsp}
    (hd : decides u rs rsp = true) :
    rs.role = .leader ∧ rsp.term = rs.currentTerm ∧ rsp.success = true ∧
      0 ≤ rs.comingCommitIndex ∧
      (readLog u rs.log rs.comingCommitIndex).term = rs.currentTerm := by
  simp only [decides, AppendEntriesExecutor.commits, Bool.and_eq_true, decide_eq_true_eq] at hd
  exact ⟨hd.1.1.1, hd.1.1.2, hd.1.2, hd.2.1.2, hd.2.2⟩

/-- The entry a response commits up to is durable, if the response covers it. -/
theorem Logging.commits_durable (hl : Logging cid R N h) {u : Undefined} {p dst : Idx}
    {req : AppendEntriesReq} {rsp : AppendEntriesRsp} (hmem : ⟨p, dst, .appendRsp req rsp⟩ ∈ N)
    (hd : decides u (R p) rsp = true) (hcov : (R p).comingCommitIndex < covered req) :
    dst ≠ p ∧ h.Stored dst (R p).currentTerm ((R p).comingCommitIndex.toNat + 1) ∧
      h.Durable Entry.term (R p).currentTerm (R p).comingCommitIndex.toNat := by
  obtain ⟨hrole, hterm, hsucc, hpos, hread⟩ := decides_spec hd
  obtain ⟨hled, hack⟩ : Led h _ req ∧ _ := hl.conn _ hmem
  obtain ⟨hreq, hacked⟩ := hack hsucc
  rw [← hreq, hterm] at hacked
  replace hacked : (covered req).toNat ≤ h.acked dst (R p).currentTerm := hacked
  have hlead := (hl.voting.voter p).leads hrole
  have hcoming := (hl.logger p).coming hrole
  obtain ⟨n, hn⟩ := Int.eq_ofNat_of_zero_le hpos
  have hlt : n < (R p).log.length := by omega
  have hget : (h.leaderLog (R p).currentTerm)[n]? = some ((R p).log[n]).entry := by
    rw [hl.leading hrole, entries_getElem?, List.getElem?_eq_getElem hlt]; rfl
  rw [hn] at hread hcov ⊢
  rw [readLog_of_lt hlt] at hread
  have hdst : h.Stored dst (R p).currentTerm (n + 1) := Or.inl (by show n + 1 ≤ _; omega)
  refine ⟨hled.ne.symm, hdst, ⟨{p, dst}, ?_, ?_⟩, _, hget, hread⟩
  · rw [quorum_iff, Finset.card_pair hled.ne]
  · intro v hv
    rcases Finset.mem_insert.mp hv with rfl | hv
    · exact Or.inr ⟨hlead, (List.getElem?_eq_some_iff.mp hget).1⟩
    · rw [Finset.mem_singleton.mp hv]
      exact hdst

theorem deliver_commits {k : ℕ} {fd : ℤ} {p dst : Idx} {req : AppendEntriesReq}
    {rsp : AppendEntriesRsp} (he : e.action = .deliver k fd)
    (hk : s.net[k]? = some ⟨p, dst, .appendRsp req rsp⟩)
    (hne : ((s.step e).raft p).commitIndex ≠ (s.raft p).commitIndex) :
    (s.servers p).pretendFail = false ∧ decides e.undef (s.raft p) rsp = true ∧
      ((s.step e).raft p).commitIndex = (s.raft p).comingCommitIndex ∧
      entries ((s.step e).raft p) = entries (s.raft p) ∧
      ∀ q, q ≠ p → (s.step e).raft q = s.raft q := by
  obtain ⟨action, u⟩ := e
  obtain rfl : action = .deliver k fd := he
  cases hp : (s.servers p).pretendFail with
  | true =>
    obtain ⟨hraft, -⟩ := Cluster.step_deliver_stopped fd u hk hp
    exact absurd (by rw [hraft]) hne
  | false =>
    obtain ⟨hraft, -⟩ := Cluster.step_deliver fd u hk hp
    simp only [Connection.reader, Connection.msg, dispatch] at hraft
    by_cases hlt : (s.raft p).currentTerm < rsp.term
    · rw [rsp_deposed u fd hlt] at hraft
      exact absurd (by rw [hraft]; simp [Cluster.set, stepDown]) hne
    · have hans := answered_executeRsp u fd (not_lt.mp hlt)
      have hself : (s.step ⟨.deliver k fd, u⟩).raft p =
          (AppendEntriesExecutor.executeRsp u fd (s.raft p) rsp).1 := by
        rw [hraft]; simp [Cluster.set]
      have heq := hans.commitIndex
      split_ifs at heq with hd
      · refine ⟨rfl, hd, by rw [hself]; exact heq, ?_, fun q hq => ?_⟩
        · rw [hself]; exact hans.entries
        · rw [hraft]; simp [Cluster.set, hq]
      · exact absurd (by rw [hself]; exact heq) hne

/-- The tests of `orderly` and that of the response. -/
def counted (s : Cluster) (e : Event) : Bool := orderly s e && commitsCovered s e

theorem commitsCovered_decides {k : ℕ} {fd : ℤ} {p dst : Idx} {req : AppendEntriesReq}
    {rsp : AppendEntriesRsp} (hok : commitsCovered s e = true) (he : e.action = .deliver k fd)
    (hp : (s.servers p).pretendFail = false)
    (hk : s.net[k]? = some ⟨p, dst, .appendRsp req rsp⟩)
    (hd : decides e.undef (s.raft p) rsp = true)
    (hlt : (s.raft p).commitIndex < (s.raft p).comingCommitIndex) :
    (s.raft p).comingCommitIndex < covered req := by
  simpa [commitsCovered, he, hk, hp, hd, not_le.mpr hlt] using hok

/-- Everything a leader newly commits is in the log of a second server. -/
theorem majority_commit {k : ℕ} {fd : ℤ} {p dst : Idx} {req : AppendEntriesReq}
    {rsp : AppendEntriesRsp} (hs : Cluster.Reach (counted · ·) s) (hok : counted s e)
    (he : e.action = .deliver k fd) (hk : s.net[k]? = some ⟨p, dst, .appendRsp req rsp⟩)
    (hraise : (s.raft p).commitIndex < ((s.step e).raft p).commitIndex) (i : ℕ)
    (hi : (i : ℤ) ≤ ((s.step e).raft p).commitIndex) :
    ∃ q, q ≠ p ∧ ∃ x ∈ ((s.step e).raft p).log[i]?, Holds ((s.step e).raft q) i x := by
  have hparts : ∀ s e, counted s e = true →
      leaderAppends s e = true ∧ orderly s e = true ∧ commitsCovered s e = true := by
    intro s e hse
    obtain ⟨hord, hcov⟩ := Bool.and_eq_true_iff.mp hse
    exact ⟨(orderly_spec hord).1, hord, hcov⟩
  obtain ⟨hp, hd, hcommit, hlog, hothers⟩ := deliver_commits he hk (by omega)
  obtain ⟨h, ht⟩ := hs.tracked
  obtain ⟨cid, hl⟩ := ht.logging fun s e hse => (hparts s e hse).1
  have hcov := commitsCovered_decides (hparts _ _ hok).2.2 he hp hk hd (by omega)
  obtain ⟨hne, hstored, hdur⟩ := hl.commits_durable (List.mem_of_getElem? hk) hd hcov
  have hpre := hdur.kept hl.sound.matched hl.sound.kept
    (ht.careful fun s e hse => (hparts s e hse).2.1) hstored
  obtain ⟨hrole, -, -, hpos, -⟩ := decides_spec hd
  have hcoming := (hl.logger p).coming hrole
  rw [hl.leading hrole, (hl.logger dst).log] at hpre
  have hlt : i < (s.raft p).log.length := by omega
  have hget : (entries (s.raft p))[i]? = some ((s.raft p).log[i]).entry := by
    rw [entries_getElem?, List.getElem?_eq_getElem hlt]; rfl
  have hself : (entries ((s.step e).raft p))[i]? = some ((s.raft p).log[i]).entry := by
    rw [hlog]; exact hget
  have hdst : (entries ((s.step e).raft dst))[i]? = some ((s.raft p).log[i]).entry := by
    rw [hothers dst hne]
    exact getElem?_of_isPrefix hpre (by rw [List.getElem?_take_of_lt (by omega)]; exact hget)
  rw [entries_getElem?] at hself hdst
  obtain ⟨x, hx, hxe⟩ := Option.map_eq_some_iff.mp hself
  obtain ⟨y, hy, hye⟩ := Option.map_eq_some_iff.mp hdst
  exact ⟨dst, hne, x, hx, y, hy, LogEntry.same_of_entry (hxe.trans hye.symm)⟩

/-- Server 0 has answered the heart beat that carried the transfer; the leader counts two. -/
def answeredFirst : Cluster := (Cluster.init 0 purse).run (electFirst ++ calmly
  [.deliver 1 9, .deliver 2 9, .request 1 7 (pay 1 100 200 5), .timeout 1, .deliver 2 9])

theorem majority_commit_first :
    ((answeredFirst.step ⟨.deliver 3 9, .zero⟩).raft 1).commitIndex = 0 ∧
    ∃ q, q ≠ 1 ∧ ∃ x ∈ ((answeredFirst.step ⟨.deliver 3 9, .zero⟩).raft 1).log[0]?,
      Holds ((answeredFirst.step ⟨.deliver 3 9, .zero⟩).raft q) 0 x :=
  ⟨by decide, majority_commit (s := answeredFirst) (e := ⟨.deliver 3 9, .zero⟩) (k := 3)
    (Cluster.Follows.reach (by decide)) (by decide) rfl rfl (by decide) 0 (by decide)⟩

/-- Server 0 has answered two heart beats that carried nothing, the second answer is still
under way, and the transfer has not left the leader. -/
def answeredEarly : Cluster := (Cluster.init 0 purse).run (electFirst ++ calmly
  [.deliver 1 9, .timeout 1, .deliver 3 9, .request 1 7 (pay 1 100 200 5), .timeout 1,
    .deliver 2 9])

theorem commits_alone : Cluster.Reach Cluster.anyStep answeredEarly ∧
    (∃ dst req rsp, answeredEarly.net[3]? = some ⟨1, dst, .appendRsp req rsp⟩) ∧
    (answeredEarly.raft 1).role = .leader ∧
    (answeredEarly.raft 1).commitIndex <
      ((answeredEarly.step ⟨.deliver 3 9, .zero⟩).raft 1).commitIndex ∧
    0 ≤ ((answeredEarly.step ⟨.deliver 3 9, .zero⟩).raft 1).commitIndex ∧
    ¬∃ q, q ≠ 1 ∧ ∃ x ∈ ((answeredEarly.step ⟨.deliver 3 9, .zero⟩).raft 1).log[0]?,
      Holds ((answeredEarly.step ⟨.deliver 3 9, .zero⟩).raft q) 0 x :=
  ⟨Cluster.Follows.reach (by decide), ⟨_, _, _, rfl⟩, by decide, by decide, by decide,
    by decide⟩

end Raft2PC
