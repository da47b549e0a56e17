import Raft2PC.Sanity.Record
import Raft2PC.Sanity.Runs
import Raft2PC.Sanity.Splice

/-! AppendEntries merges logs: an accepted request keeps the log up to the first entry that
is missing or of another term, and puts the rest of its entries there. -/

namespace Raft2PC

open AppendEntriesExecutor

def logIdxBase (req : AppendEntriesReq) : ℕ := (req.prevLogIndex + 1).toNat

/-- The log that `req` makes of `old` by a correct merge. -/
structure Merged (old : List LogEntry) (req : AppendEntriesReq) (new : List LogEntry) : Prop where
  before : new.take (logIdxBase req) = old.take (logIdxBase req)
  same : (∀ j < req.entries.length, Present old (logIdxBase req) req.entries j) → new = old
  spliced : ∀ k < req.entries.length, (∀ j < k, Present old (logIdxBase req) req.entries j) →
    ¬Present old (logIdxBase req) req.entries k →
    new = old.take (logIdxBase req + k) ++ (req.entries.drop k).map ofEntry

variable {u : Undefined} {rs : RaftState} {req : AppendEntriesReq}

theorem logIdxBase_le (hmis : mismatch u rs req = false) : logIdxBase req ≤ rs.log.length := by
  simp only [mismatch, Bool.or_eq_false_iff, decide_eq_false_iff_not, not_le] at hmis
  unfold logIdxBase
  omega

theorem spliced_accepted (hprev : -1 ≤ req.prevLogIndex) (hmis : mismatch u rs req = false) :
    Spliced rs.log (logIdxBase req) req.entries (accepted u rs req).log := by
  have hsplice := spliced_mergeEntries u req.entries (logIdxBase_le hmis)
  rwa [show ((logIdxBase req : ℕ) : ℤ) = req.prevLogIndex + 1 by unfold logIdxBase; omega] at hsplice

/-- The log after any request is the old one or a merge. -/
theorem log_executeReq (fd : ℤ) (rs : RaftState) (req : AppendEntriesReq) :
    (executeReq u fd rs req).1.log =
      if accepts u rs req then (accepted u rs req).log else rs.log := by
  by_cases hlt : req.term < rs.currentTerm
  · rw [append_stale u fd hlt, if_neg (by simp [accepts, hlt])]
  · have hle : rs.currentTerm ≤ req.term := not_lt.mp hlt
    cases hmis : mismatch u rs req with
    | true =>
      rw [append_mismatched fd hle hmis, if_neg (by simp [accepts, hmis])]
      rfl
    | false => rw [append_accepted fd hle hmis, if_pos (by simp [accepts, hle, hmis])]

theorem Spliced.merged {new : List LogEntry} (hbase : logIdxBase req ≤ rs.log.length)
    (h : Spliced rs.log (logIdxBase req) req.entries new) : Merged rs.log req new :=
  ⟨h.take_eq hbase, h.eq_kept, fun _ hk => h.eq_replaced hk⟩

/-- A log that has all entries of a request is left as it is by any part of it. -/
theorem log_repeated (fd : ℤ) {req' : AppendEntriesReq} (hprev : -1 ≤ req.prevLogIndex)
    (hall : ∀ j < req.entries.length, Present rs.log (logIdxBase req) req.entries j)
    (hsame : req'.prevLogIndex = req.prevLogIndex) (hpre : req'.entries <+: req.entries) :
    (executeReq u fd rs req').1.log = rs.log := by
  rw [log_executeReq]
  split_ifs with hacc
  · simp only [accepts, Bool.and_eq_true, Bool.not_eq_true'] at hacc
    refine (spliced_accepted (hsame ▸ hprev) hacc.2).eq_kept fun j hj => ?_
    obtain ⟨x, e, hx, he, hterm⟩ := hall j (by have := hpre.length_le; omega)
    refine ⟨x, req'.entries[j], ?_, List.getElem?_eq_getElem hj, ?_⟩
    · rw [logIdxBase, hsame]
      exact hx
    · rw [List.getElem?_eq_getElem (by have := hpre.length_le; omega)] at he
      rw [hpre.getElem hj, Option.some.inj he]
      exact hterm
  · rfl

/-- An accepted request merges its entries into the log; the same request read again, or an
older one with fewer entries, changes nothing. -/
theorem append_merges (u : Undefined) (fd : ℤ) (rs : RaftState) (req : AppendEntriesReq)
    (hacc : accepts u rs req = true) (hprev : -1 ≤ req.prevLogIndex) :
    Merged rs.log req (executeReq u fd rs req).1.log ∧
      ∀ (u' : Undefined) (fd' : ℤ) (req' : AppendEntriesReq),
        req'.prevLogIndex = req.prevLogIndex → req'.prevLogTerm = req.prevLogTerm →
        req'.entries <+: req.entries →
        (executeReq u' fd' (executeReq u fd rs req).1 req').1.log =
          (executeReq u fd rs req).1.log := by
  have hmis : mismatch u rs req = false := by
    simp only [accepts, Bool.and_eq_true, Bool.not_eq_true'] at hacc
    exact hacc.2
  have hsplice : Spliced rs.log (logIdxBase req) req.entries (executeReq u fd rs req).1.log := by
    rw [log_executeReq, if_pos hacc]
    exact spliced_accepted hprev hmis
  refine ⟨hsplice.merged (logIdxBase_le hmis), fun u' fd' req' hsame _ hpre => ?_⟩
  exact log_repeated fd' hprev (fun j hj => hsplice.present (logIdxBase_le hmis) hj) hsame hpre

/-- Three entries, the last two of a term that lost. -/
def conflicting : List LogEntry :=
  [⟨1, 0, fmtPays 100 200 5, 1, -1⟩, ⟨2, 1, fmtPays 200 300 5, 2, 7⟩,
    ⟨2, 2, fmtPays 300 400 5, 3, 8⟩]

def overwriting : AppendEntriesReq where
  term := 3
  leaderId := 1
  prevLogIndex := 0
  prevLogTerm := 1
  entries := [⟨3, 1, fmtPays 500 600 5, 4⟩]
  commitIndex := 0
  serverId := 0

theorem append_merges_conflict :
    let rs := { RaftState.new 0 0 with log := conflicting }
    (executeReq .zero 9 rs overwriting).1.log =
        conflicting.take 1 ++ overwriting.entries.map ofEntry ∧
      Merged rs.log overwriting (executeReq .zero 9 rs overwriting).1.log := by
  intro rs
  exact ⟨by decide, (append_merges .zero 9 rs overwriting (by decide) (by decide)).1⟩

end Raft2PC
