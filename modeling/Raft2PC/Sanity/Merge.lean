import Raft2PC.Sanity.Frame

/-! What a heart beat carries of the leader's log, and what a follower's log is after it
took the heart beat over. -/

namespace Raft2PC

open AIOServer AppendEntriesExecutor Consensus

theorem readLog_of_lt {u : Undefined} {L : List LogEntry} {k : ℕ} (hk : k < L.length) :
    readLog u L k = L[k] := by
  simp [readLog, List.getElem?_eq_getElem hk]

/-- The entries of a log as they go over the wire. -/
def entries (rs : RaftState) : List Entry := rs.log.map LogEntry.entry

theorem entries_getElem? (rs : RaftState) (i : ℕ) :
    (entries rs)[i]? = rs.log[i]?.map LogEntry.entry := by
  simp [entries]

theorem entries_length (rs : RaftState) : (entries rs).length = rs.log.length := by
  simp [entries]

theorem map_ofEntry (es : List Entry) : (es.map ofEntry).map LogEntry.entry = es := by
  rw [List.map_map]
  exact List.map_id'' (fun _ => rfl) es

/-- Merging the leader's entries from `k` to `m` installs the first `m` of them: up to
`k` the follower has them already, and of equal terms are equal entries. -/
theorem merge_install {h : Hist} {M : List Entry} {L : List LogEntry}
    (hL : h.Rooted Entry.term (L.map LogEntry.entry)) (hM : h.Rooted Entry.term M)
    (u : Undefined) (es : List Entry) {k m : ℕ} (hes : es = (M.drop k).take (m - k))
    (hkm : k ≤ m) (hm : m ≤ M.length) (hkL : k ≤ L.length)
    (hpast : (L.map LogEntry.entry).take k = M.take k) :
    (mergeEntries u L k es).map LogEntry.entry = install (M.take m) (L.map LogEntry.entry) := by
  induction es generalizing k with
  | nil =>
    have hmk : m = k := by
      have := congrArg List.length hes
      simp only [List.length_nil, List.length_take, List.length_drop] at this
      omega
    have hpre : M.take m <+: L.map LogEntry.entry := by
      rw [hmk, ← hpast]; exact List.take_prefix _ _
    simp only [mergeEntries, install, if_pos hpre]
  | cons e es ih =>
    have hlt : k < m := by
      have := congrArg List.length hes
      simp only [List.length_cons, List.length_take, List.length_drop] at this
      omega
    have hsplit : e :: es = M[k] :: (M.drop (k + 1)).take (m - (k + 1)) := by
      rw [hes, List.drop_eq_getElem_cons (by omega), show m - k = m - (k + 1) + 1 by omega,
        List.take_succ_cons]
    obtain ⟨rfl, hrest⟩ := List.cons.inj hsplit
    simp only [mergeEntries]
    split_ifs with hstop
    · -- the entry is new or differs: the follower's tail is replaced
      have hnot : ¬ M.take m <+: L.map LogEntry.entry := by
        intro hpre
        have hget : (L.map LogEntry.entry)[k]? = some M[k] :=
          getElem?_of_isPrefix hpre (by rw [List.getElem?_take_of_lt hlt]; simp)
        have hkL' := (List.getElem?_eq_some_iff.mp hget).1
        rw [List.length_map] at hkL'
        rw [List.getElem?_map, List.getElem?_eq_getElem hkL', Option.map_some] at hget
        rcases hstop with hlen | hterm
        · omega
        · rw [readLog_of_lt hkL', ← Option.some.inj hget] at hterm
          exact hterm rfl
      rw [install, if_neg hnot, List.map_append, map_ofEntry, List.map_take, Int.toNat_natCast,
        hpast, hes]
      calc M.take k ++ (M.drop k).take (m - k) = M.take (k + (m - k)) := List.take_add.symm
        _ = M.take m := by rw [Nat.add_sub_cancel' hkm]
    · rw [not_or, not_le, not_not] at hstop
      have hkL' : k < L.length := by omega
      have hterm : (L[k].entry).term = M[k].term := by
        rw [← readLog_of_lt hkL']; exact hstop.2.symm
      have hnext : (L.map LogEntry.entry).take (k + 1) = M.take (k + 1) :=
        hL.matching hM (by rw [List.getElem?_map, List.getElem?_eq_getElem hkL']; rfl)
          (List.getElem?_eq_getElem (by omega)) hterm
      exact_mod_cast ih hrest (by omega) (by omega) hnext

/-- Cut from the leader's log: entries from `k` to `m` and what stands before them. A
leader whose guess has fallen below 0 sends nothing at all. -/
def Sent (h : Hist) (req : AppendEntriesReq) : Prop :=
  (req.prevLogIndex < -1 ∧ req.entries = []) ∨
    ∃ k m : ℕ, k ≤ m ∧ m ≤ (h.leaderLog req.term).length ∧ req.prevLogIndex = k - 1 ∧
      (0 < k → (h.leaderLog req.term)[k - 1]?.map Entry.term = some req.prevLogTerm) ∧
      req.entries = ((h.leaderLog req.term).drop k).take (m - k)

theorem Sent.extends {h h' : Hist} {req : AppendEntriesReq} {c : Idx} (hs : Sent h req)
    (hc : h.leader req.term = some c) (hx : h.Extends h') : Sent h' req := by
  rcases hs with hs | ⟨k, m, hkm, hm, hprev, hterm, hes⟩
  · exact Or.inl hs
  · have hpre := hx.leaderLog _ c hc
    refine Or.inr ⟨k, m, hkm, hm.trans hpre.length_le, hprev, fun hk => ?_, ?_⟩
    · obtain ⟨e, he, ht⟩ := Option.map_eq_some_iff.mp (hterm hk)
      rw [getElem?_of_isPrefix hpre he, Option.map_some, ht]
    · rw [hes]
      obtain ⟨t, ht⟩ := hpre
      rw [← ht, List.drop_append_of_le_length (by omega), List.take_append_of_le_length]
      rw [List.length_drop]; omega

theorem Sent.covered_le {h : Hist} {req : AppendEntriesReq} (hs : Sent h req) :
    (covered req).toNat ≤ (h.leaderLog req.term).length := by
  rcases hs with ⟨hprev, hes⟩ | ⟨k, m, hkm, hm, hprev, -, hes⟩
  · simp only [covered, hes, List.length_nil]; omega
  · simp only [covered, hes, hprev, List.length_take, List.length_drop]; omega

/-- A request that does not mismatch installs what it covers. -/
theorem Sent.merged {h : Hist} {req : AppendEntriesReq} {rs : RaftState} {u : Undefined}
    (hs : Sent h req) (hlog : h.Rooted Entry.term (entries rs))
    (hlead : h.Rooted Entry.term (h.leaderLog req.term)) (hmis : mismatch u rs req = false) :
    entries (accepted u rs req) =
      install ((h.leaderLog req.term).take (covered req).toNat) (entries rs) := by
  show (mergeEntries u rs.log (req.prevLogIndex + 1) req.entries).map LogEntry.entry = _
  rcases hs with ⟨hprev, hes⟩ | ⟨k, m, hkm, hm, hprev, hterm, hes⟩
  · have hcov : (covered req).toNat = 0 := by
      simp only [covered, hes, List.length_nil]; omega
    rw [hes, hcov]
    simp [mergeEntries, install, entries]
  · have hcov : (covered req).toNat = m := by
      simp only [covered, hes, hprev, List.length_take, List.length_drop]; omega
    simp only [mismatch, Bool.or_eq_false_iff, Bool.and_eq_false_iff, decide_eq_false_iff_not,
      ne_eq, not_not, not_le] at hmis
    obtain ⟨hlen, hprevTerm⟩ := hmis
    have hkL : k ≤ rs.log.length := by omega
    have hpast : (entries rs).take k = (h.leaderLog req.term).take k := by
      rcases Nat.eq_zero_or_pos k with rfl | hk
      · simp
      · have hlt : k - 1 < rs.log.length := by omega
        obtain ⟨e, he, ht⟩ := Option.map_eq_some_iff.mp (hterm hk)
        have hread : readLog u rs.log req.prevLogIndex = rs.log[k - 1] := by
          rw [hprev, show (k : ℤ) - 1 = ((k - 1 : ℕ) : ℤ) by omega, readLog_of_lt hlt]
        have hsame : rs.log[k - 1].entry.term = e.term := by
          rw [ht]
          rcases hprevTerm with hneg | heq
          · omega
          · rw [← hread]; exact heq
        have := hlog.matching hlead
          (by rw [entries_getElem?, List.getElem?_eq_getElem hlt]; rfl) he hsame
        rwa [Nat.sub_add_cancel hk] at this
    rw [hcov, hprev, show (k : ℤ) - 1 + 1 = (k : ℕ) by omega]
    exact merge_install hlog hlead u req.entries hes hkm hm hkL hpast

/-- The heart beats of a leader are cut from its log. -/
theorem sent_heartBeat {h : Hist} {rs : RaftState} (u : Undefined) (idx : Idx)
    (hlog : h.leaderLog rs.currentTerm = entries rs)
    (hmatched : rs.matched idx ≤ rs.log.length) : Sent h (heartBeat u rs idx) := by
  by_cases hneg : rs.matched idx < 0
  · refine Or.inl ⟨?_, ?_⟩
    · simp only [heartBeat, RaftState.prevlogindex]; omega
    · simp [heartBeat, unmatchedEntries, hneg]
  · obtain ⟨k, hk⟩ := Int.eq_ofNat_of_zero_le (not_lt.mp hneg)
    have hkle : k ≤ rs.log.length := by omega
    refine Or.inr ⟨k, rs.log.length, hkle, ?_, ?_, fun hpos => ?_, ?_⟩
    · rw [show (heartBeat u rs idx).term = rs.currentTerm from rfl, hlog, entries_length]
    · simp only [heartBeat, RaftState.prevlogindex, hk]
    · have hlt : k - 1 < rs.log.length := by omega
      have hread : readLog u rs.log (rs.matched idx - 1) = rs.log[k - 1] := by
        rw [hk, show ((k : ℕ) : ℤ) - 1 = ((k - 1 : ℕ) : ℤ) by omega, readLog_of_lt hlt]
      rw [show (heartBeat u rs idx).term = rs.currentTerm from rfl, hlog, entries_getElem?,
        List.getElem?_eq_getElem hlt]
      simp only [heartBeat, RaftState.prevlogterm, hread, Option.map_some]
      rw [if_neg (by omega)]
      rfl
    · rw [show (heartBeat u rs idx).term = rs.currentTerm from rfl, hlog]
      have hes : (heartBeat u rs idx).entries = (rs.log.drop k).map LogEntry.entry := by
        show unmatchedEntries rs idx = _
        rw [unmatchedEntries, if_neg hneg, hk, Int.toNat_natCast]
      rw [hes, entries, List.map_drop, List.take_of_length_le (by simp)]

end Raft2PC
