import Raft2PC.Spec.Discipline

/-! What `mergeEntries` makes of a log: nothing, or a new tail from the first entry on that
is missing or of another term. -/

namespace Raft2PC

open AppendEntriesExecutor

/-- Entry `j` of those put at `k` stands in the log, with the same term. -/
def Present (log : List LogEntry) (k : ℕ) (es : List Entry) (j : ℕ) : Prop :=
  ∃ x e, log[k + j]? = some x ∧ es[j]? = some e ∧ x.term = e.term

/-- The two outcomes of putting `es` at position `k` of the log. -/
inductive Spliced (log : List LogEntry) (k : ℕ) (es : List Entry) : List LogEntry → Prop
  | kept (hall : ∀ j < es.length, Present log k es j) : Spliced log k es log
  | replaced (n : ℕ) (hn : n < es.length) (hpre : ∀ j < n, Present log k es j)
      (hno : ¬Present log k es n) :
      Spliced log k es (log.take (k + n) ++ (es.drop n).map ofEntry)

variable {log new : List LogEntry} {k : ℕ} {e : Entry} {es : List Entry}

theorem present_succ {j : ℕ} : Present log k (e :: es) (j + 1) ↔ Present log (k + 1) es j := by
  unfold Present
  rw [List.getElem?_cons_succ, Nat.add_right_comm, Nat.add_assoc]

/-- The search stops at an entry that is not there. -/
theorem not_present_iff {u : Undefined} :
    ¬Present log k (e :: es) 0 ↔
      (log.length : ℤ) ≤ k ∨ e.term ≠ (readLog u log k).term := by
  simp only [Present, Nat.add_zero, List.getElem?_cons_zero, Option.some.injEq]
  by_cases hlen : k < log.length
  · have hread : readLog u log k = log[k] := by
      simp [readLog, List.getElem?_eq_getElem hlen]
    rw [hread, List.getElem?_eq_getElem hlen]
    constructor
    · intro hno
      right
      intro hterm
      exact hno ⟨_, _, rfl, rfl, hterm.symm⟩
    · rintro (hle | hne) ⟨x, y, hx, rfl, hterm⟩
      · omega
      · cases hx
        exact hne hterm.symm
  · rw [List.getElem?_eq_none (by omega)]
    simp only [reduceCtorEq, false_and, exists_false, not_false_eq_true, true_iff]
    left
    omega

theorem spliced_mergeEntries (u : Undefined) (es : List Entry) (hk : k ≤ log.length) :
    Spliced log k es (mergeEntries u log k es) := by
  induction es generalizing k with
  | nil => exact .kept fun j hj => absurd hj (Nat.not_lt_zero j)
  | cons e es ih =>
    simp only [mergeEntries]
    split_ifs with hstop
    · rw [Int.toNat_natCast]
      exact .replaced 0 (Nat.succ_pos _) (fun j hj => absurd hj (Nat.not_lt_zero j))
        (not_present_iff.mpr hstop)
    · have hhere : Present log k (e :: es) 0 := by
        by_contra hno
        exact hstop (not_present_iff.mp hno)
      rw [not_or, not_le] at hstop
      have hnext := ih (k := k + 1) (by omega)
      push_cast at hnext
      generalize mergeEntries u log (k + 1) es = new at hnext
      cases hnext with
      | kept hall =>
        refine .kept fun j hj => ?_
        cases j with
        | zero => exact hhere
        | succ j => exact present_succ.mpr (hall j (by simpa using hj))
      | replaced n hn hpre hno =>
        have hbefore : ∀ j < n + 1, Present log k (e :: es) j := by
          intro j hj
          cases j with
          | zero => exact hhere
          | succ j => exact present_succ.mpr (hpre j (by omega))
        have hsplice : Spliced log k (e :: es) _ :=
          .replaced (n + 1) (by simpa using hn) hbefore (mt present_succ.mp hno)
        rwa [List.drop_succ_cons, show k + (n + 1) = k + 1 + n by omega] at hsplice

namespace Spliced

theorem eq_kept (h : Spliced log k es new) (hall : ∀ j < es.length, Present log k es j) :
    new = log := by
  cases h with
  | kept => rfl
  | replaced n hn hpre hno => exact absurd (hall n hn) hno

theorem eq_replaced (h : Spliced log k es new) {n : ℕ} (hn : n < es.length)
    (hpre : ∀ j < n, Present log k es j) (hno : ¬Present log k es n) :
    new = log.take (k + n) ++ (es.drop n).map ofEntry := by
  cases h with
  | kept hall => exact absurd (hall n hn) hno
  | replaced m hm hpre' hno' =>
    rcases lt_trichotomy n m with hlt | rfl | hlt
    · exact absurd (hpre' n hlt) hno
    · rfl
    · exact absurd (hpre m hlt) hno'

/-- Nothing changes before the splice. -/
theorem take_eq (h : Spliced log k es new) (hk : k ≤ log.length) : new.take k = log.take k := by
  cases h with
  | kept => rfl
  | replaced n hn hpre hno =>
    rw [List.take_append_of_le_length, List.take_take, Nat.min_eq_left (Nat.le_add_right k n)]
    rw [List.length_take]
    omega

/-- The entries before the first one that is not there lie in the log. -/
theorem reach {n : ℕ} (hk : k ≤ log.length) (hpre : ∀ j < n, Present log k es j) :
    k + n ≤ log.length := by
  cases n with
  | zero => exact hk
  | succ n =>
    obtain ⟨x, e, hx, -, -⟩ := hpre n (Nat.lt_succ_self n)
    have hlt := (List.getElem?_eq_some_iff.mp hx).1
    omega

/-- What stands in the new log stood there before, or is one of the entries. -/
theorem origin (h : Spliced log k es new) (hk : k ≤ log.length) {i : ℕ} {x : LogEntry}
    (hx : new[i]? = some x) :
    log[i]? = some x ∨ ∃ j e, i = k + j ∧ es[j]? = some e ∧ x = ofEntry e := by
  cases h with
  | kept => exact Or.inl hx
  | replaced n hn hpre hno =>
    have hreach := reach hk hpre
    have hlen : (log.take (k + n)).length = k + n := by
      rw [List.length_take]
      omega
    by_cases hi : i < k + n
    · rw [List.getElem?_append_left (by omega), List.getElem?_take_of_lt hi] at hx
      exact Or.inl hx
    · rw [List.getElem?_append_right (by omega), hlen, List.getElem?_map, List.getElem?_drop] at hx
      obtain ⟨e, he, rfl⟩ := Option.map_eq_some_iff.mp hx
      exact Or.inr ⟨n + (i - (k + n)), e, by omega, he, rfl⟩

/-- All entries are present afterwards. -/
theorem present (h : Spliced log k es new) (hk : k ≤ log.length) {j : ℕ} (hj : j < es.length) :
    Present new k es j := by
  cases h with
  | kept hall => exact hall j hj
  | replaced n hn hpre hno =>
    have hreach := reach hk hpre
    have hlen : (log.take (k + n)).length = k + n := by
      rw [List.length_take]
      omega
    by_cases hlt : j < n
    · obtain ⟨x, e, hx, he, hterm⟩ := hpre j hlt
      refine ⟨x, e, ?_, he, hterm⟩
      rw [List.getElem?_append_left (by omega), List.getElem?_take_of_lt (by omega)]
      exact hx
    · refine ⟨ofEntry es[j], es[j], ?_, List.getElem?_eq_getElem hj, rfl⟩
      rw [List.getElem?_append_right (by omega), hlen, List.getElem?_map, List.getElem?_drop,
        show n + (k + j - (k + n)) = j by omega, List.getElem?_eq_getElem hj]
      rfl

end Spliced

end Raft2PC
