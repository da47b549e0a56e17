import Raft2PC.Proofs.LeaderAdvances
import Raft2PC.Proofs.PreparedIsolation
import Raft2PC.Sanity.Waiting
import Mathlib.Algebra.Order.BigOperators.Group.Finset

/-! Lock discipline of one leadership. The uncommitted transfers of the leader are a book of
promises, so the locked items are those they name, no two name the same, and their payments
stay within the money of the shard. -/

namespace Raft2PC

open AIOServer AppendEntriesExecutor

variable {shard : ℤ → Bool}

/-- What the items of the shard hold together. -/
def shardTotal (shard : ℤ → Bool) (tb : Table ℤ) : ℤ := ∑ k ∈ tb.keys with shard k = true, tb.get k

theorem shardTotal_eq {tb : Table ℤ} {S : Finset ℤ} (hS : tb.keys ⊆ S) :
    shardTotal shard tb = ∑ k ∈ S with shard k = true, tb.get k := by
  refine Finset.sum_subset (Finset.filter_subset_filter _ hS) fun k hk hno => ?_
  have habsent : k ∉ tb := fun hmem =>
    hno (Finset.mem_filter.mpr ⟨Finmap.mem_keys.mpr hmem, (Finset.mem_filter.mp hk).2⟩)
  rw [Table.get, Finmap.lookup_eq_none.mpr habsent]
  rfl

theorem shardTotal_transfer {a b : Table ℤ} {t : Transfer} (hsender : shard t.senderId = true)
    (hreceiver : shard t.receiverId = true) (hab : ∀ k, b.get k = a.get k + t.delta k) :
    shardTotal shard b = shardTotal shard a := by
  let S := a.keys ∪ b.keys ∪ {t.senderId, t.receiverId}
  have ha : a.keys ⊆ S := fun k hk => by simp [S, hk]
  have hb : b.keys ⊆ S := fun k hk => by simp [S, hk]
  have hs : t.senderId ∈ S.filter fun k => shard k = true := by simp [S, hsender]
  have hr : t.receiverId ∈ S.filter fun k => shard k = true := by simp [S, hreceiver]
  rw [shardTotal_eq ha, shardTotal_eq hb, Finset.sum_congr rfl fun k _ => hab k,
    Finset.sum_add_distrib]
  simp only [Transfer.delta]
  rw [Finset.sum_add_distrib, Finset.sum_ite_eq' _ t.senderId, Finset.sum_ite_eq' _ t.receiverId,
    if_pos hs, if_pos hr]
  omega

theorem shardTotal_congr {a b : Table ℤ} (hab : ∀ k, b.get k = a.get k) :
    shardTotal shard b = shardTotal shard a := by
  rw [shardTotal_eq (S := a.keys ∪ b.keys) Finset.subset_union_left,
    shardTotal_eq (S := a.keys ∪ b.keys) Finset.subset_union_right]
  exact Finset.sum_congr rfl fun k _ => hab k

/-- A shard in which nobody owes anything bounds each of its items. -/
theorem get_le_shardTotal {tb : Table ℤ} (hsolvent : ∀ k, 0 ≤ tb.get k) {k : ℤ}
    (hk : shard k = true) : tb.get k ≤ shardTotal shard tb := by
  rw [shardTotal_eq (S := insert k tb.keys) (Finset.subset_insert _ _)]
  exact Finset.single_le_sum (fun i _ => hsolvent i) (by simp [hk])

/-- What a leader that has committed up to `ci` keeps of the shard it started with. -/
structure Solid (shard : ℤ → Bool) (tb : Table ℤ) (ci : ℤ) (rs : RaftState) : Prop where
  booked : Booked shard ci rs
  total : shardTotal shard rs.localBalanceTb = shardTotal shard tb
  foreign : ∀ k, shard k = false → rs.balance k = tb.get k

theorem Solid.commit {tb : Table ℤ} {ci : ℤ} {rs : RaftState} (h : Solid shard tb ci rs)
    (u : Undefined) {i : ℕ} (hi : (i : ℤ) = ci + 1) (hlen : i < rs.log.length) :
    Solid shard tb (ci + 1) (commitEntry u rs i).1 := by
  obtain ⟨c, hc⟩ : ∃ c, rs.log[i].command = c := ⟨_, rfl⟩
  have hread : (readLog u rs.log i).command = c := by rw [readLog_of_lt hlen, hc]
  have hlegible : Legible shard c := by
    apply h.booked.legible
    rw [waiting_succ hi hlen, hc]
    exact List.mem_cons_self
  have hbooked := h.booked.pop u hi hlen
  cases hcross : isCross c with
  | true =>
    have hsame : ∀ k, (commitEntry u rs i).1.balance k = rs.balance k :=
      balance_commitEntry_cross (by rw [hread]; exact hcross)
    exact ⟨hbooked, (shardTotal_congr hsame).trans h.total,
      fun k hk => (hsame k).trans (h.foreign k hk)⟩
  | false =>
    obtain ⟨hsender, hreceiver, -⟩ := hlegible.ends hcross
    have hreads := hlegible.reads (isTransfer_of_not_isCross hcross) u.locals
    have hpaid : ∀ k, (commitEntry u rs i).1.balance k = rs.balance k + (terms c).delta k := by
      rw [← hread] at hreads hcross ⊢
      exact balance_commitEntry_intra hreads hcross
    refine ⟨hbooked, (shardTotal_transfer hsender hreceiver hpaid).trans h.total, fun k hk => ?_⟩
    rw [hpaid, h.foreign k hk, Transfer.delta, if_neg, if_neg]
    · exact add_zero _
    · rintro rfl
      exact Bool.false_ne_true (hk.symm.trans hreceiver)
    · rintro rfl
      exact Bool.false_ne_true (hk.symm.trans hsender)

theorem upheld_solid (shard : ℤ → Bool) (tb : Table ℤ) :
    Upheld (fun _ rs m => lawful shard rs.clusterId m = true) (Solid shard tb) where
  congr h hab := ⟨h.booked.congr hab, (shardTotal_congr hab.balance).trans h.total,
    fun k hk => (hab.balance k).trans (h.foreign k hk)⟩
  commit u _ h hi hlen := h.commit u hi hlen
  serve {rs} u {fd _} h hci hlaw :=
    have hsame := balance_lawful u fd rs hlaw
    ⟨h.booked.serve u fd hlaw hci, (shardTotal_congr hsame).trans h.total,
      fun k hk => (hsame k).trans (h.foreign k hk)⟩

/-! ### Runs -/

/-- The step keeps server `p` leader, and what it serves is lawful. -/
def leadsLawfully (shard : ℤ → Bool) (p : Idx) (s : Cluster) (e : Event) : Prop :=
  staysLeader p s e = true ∧
    match e.action with
    | .request q _ m => q = p → (s.servers p).pretendFail = false →
      lawful shard (s.raft p).clusterId m = true
    | _ => True

instance (shard : ℤ → Bool) (p : Idx) (s : Cluster) (e : Event) :
    Decidable (leadsLawfully shard p s e) := by
  unfold leadsLawfully
  split <;> infer_instance

/-- What holds of a leader that started with the balances `tb`. -/
structure LockDiscipline (shard : ℤ → Bool) (tb : Table ℤ) (rs : RaftState) : Prop where
  locked_iff : ∀ k, shard k = true → (rs.locked k = true ↔
    ∃ i, names rs.log rs.commitIndex i k)
  exclusive : ∀ k i j, shard k = true → names rs.log rs.commitIndex i k →
    names rs.log rs.commitIndex j k → i = j
  covered : ∀ i x, rs.log[i]? = some x → rs.commitIndex < (i : ℕ) → isCross x.command = false →
    (terms x.command).amount ≤ rs.balance (terms x.command).senderId
  solvent : ∀ k, 0 ≤ rs.balance k
  bounded : ∀ k, shard k = true → rs.balance k ≤ shardTotal shard tb
  foreign : ∀ k, shard k = false → rs.balance k = tb.get k

theorem names_iff {rs : RaftState} (hlow : -1 ≤ rs.commitIndex) {k : ℤ} (hk : shard k = true) :
    (∃ i, names rs.log rs.commitIndex i k) ↔
      ∃ j ∈ (waiting rs.log rs.commitIndex).map (promise shard), j.holds k := by
  simp only [List.mem_map, exists_exists_and_eq_and, mem_waiting hlow]
  constructor
  · rintro ⟨i, x, hx, hi, htr, hends⟩
    exact ⟨x.command, ⟨i, x, hx, hi, rfl⟩, htr, hk, hends⟩
  · rintro ⟨c, ⟨i, x, hx, hi, rfl⟩, htr, -, hends⟩
    exact ⟨i, x, hx, hi, htr, hends⟩

theorem waiting_getElem? {log : List LogEntry} {ci : ℤ} {i : ℕ} {x : LogEntry} (hlow : -1 ≤ ci)
    (hx : log[i]? = some x) (hi : ci < i) :
    (waiting log ci)[i - (ci + 1).toNat]? = some x.command := by
  rw [waiting, List.getElem?_map, List.getElem?_drop,
    show (ci + 1).toNat + (i - (ci + 1).toNat) = i by omega, hx]
  rfl

theorem Upholds.lockDiscipline {tb : Table ℤ} {rs : RaftState}
    (h : Upholds (Solid shard tb) rs) : LockDiscipline shard tb rs := by
  have hbook := h.holds.booked.book
  have hat : ∀ (i : ℕ) x, rs.log[i]? = some x → rs.commitIndex < i →
      ((waiting rs.log rs.commitIndex).map (promise shard))[i - (rs.commitIndex + 1).toNat]? =
        some (promise shard x.command) := by
    intro i x hx hi
    rw [List.getElem?_map, waiting_getElem? h.low hx hi]
    rfl
  constructor
  · intro k hk
    rw [names_iff h.low hk, ← hbook.held_iff, and_iff_right hk]
  · rintro k i j hk ⟨x, hx, hi, htr, hends⟩ ⟨y, hy, hj, htr', hends'⟩
    have hlow := h.low
    have hdisjoint := List.pairwise_iff_getElem.mp hbook.apart
    obtain ⟨hilt, hxi⟩ := List.getElem?_eq_some_iff.mp (hat i x hx hi)
    obtain ⟨hjlt, hyj⟩ := List.getElem?_eq_some_iff.mp (hat j y hy hj)
    rcases lt_trichotomy i j with hlt | heq | hlt
    · have hfar := hdisjoint _ _ hilt hjlt (by omega) k
      rw [hxi, hyj] at hfar
      exact absurd ⟨htr', hk, hends'⟩ (hfar ⟨htr, hk, hends⟩)
    · exact heq
    · have hfar := hdisjoint _ _ hjlt hilt (by omega) k
      rw [hxi, hyj] at hfar
      exact absurd ⟨htr, hk, hends⟩ (hfar ⟨htr', hk, hends'⟩)
  · intro i x hx hi hcross
    have hcov := hbook.covered _ (List.mem_of_getElem? (hat i x hx hi)) (terms x.command).senderId
    simpa [promise, hcross] using hcov
  · exact hbook.solvent
  · intro k hk
    rw [← h.holds.total]
    exact get_le_shardTotal hbook.solvent hk
  · exact h.holds.foreign

theorem Upholds.path {tb : Table ℤ} {p : Idx} {s s' : Cluster}
    (h : Upholds (Solid shard tb) (s.raft p))
    (hrun : Cluster.Path (leadsLawfully shard p) s s') :
    Upholds (Solid shard tb) (s'.raft p) := by
  induction hrun with
  | refl => exact h
  | step e _ hok ih =>
    obtain ⟨hlead, hlawful⟩ := hok
    refine ih.step (upheld_solid shard tb) (of_decide_eq_true hlead) fun fd m he hrun => ?_
    rw [he] at hlawful
    exact hlawful rfl hrun

/-- A leadership that starts with everything committed, nothing locked and no debts locks
exactly what its uncommitted transfers name, and overdraws nothing. -/
theorem lock_discipline (shard : ℤ → Bool) (p : Idx) (s s' : Cluster) (e : Event)
    (hnot : (s.raft p).role ≠ .leader) (hwin : ((s.step e).raft p).role = .leader)
    (hcommit : ((s.step e).raft p).commitIndex = ((s.step e).raft p).log.length - 1)
    (hunlocked : ∀ k, ((s.step e).raft p).locked k = false)
    (hsolvent : ∀ k, 0 ≤ ((s.step e).raft p).balance k)
    (hrun : Cluster.Path (leadsLawfully shard p) (s.step e) s') :
    LockDiscipline shard ((s.step e).raft p).localBalanceTb (s'.raft p) := by
  obtain ⟨h', hrec⟩ := recorded_step s Consensus.History.start e
  have hcoming := hrec.wins p hwin fun h => hnot h.1
  refine Upholds.lockDiscipline (Upholds.path ?_ hrun)
  have hnothing : waiting ((s.step e).raft p).log ((s.step e).raft p).commitIndex = [] := by
    rw [waiting, hcommit, List.drop_of_length_le (by omega)]
    rfl
  refine ⟨by omega, by omega, by omega, ⟨⟨fun c hc => ?_, ?_⟩, rfl, fun _ _ => rfl⟩⟩
  · rw [hnothing] at hc
    cases hc
  · rw [hnothing]
    exact .nil (fun k => by simp [hunlocked k]) hsolvent

/-- The items of the first cluster, if it has 1000 users. -/
def firstShard (k : ℤ) : Bool := 1 ≤ k && k ≤ 1000

/-- Two transfers, a PREPARE and an ABORT, the first two committed. -/
def lockAndCommit : List Event := calmly [.deliver 1 9, .deliver 2 9,
  .request 1 7 (pay 1 100 200 5), .request 1 8 (cross .prepare 2 300 1500 0), .timeout 1,
  .request 1 10 (pay 3 100 200 5), .request 1 11 (pay 3 400 500 0), .deliver 2 9, .deliver 3 9,
  .request 1 12 (cross .abort 2 300 1500 0)]

theorem lock_discipline_first :
    ((votedFirst.step ⟨.deliver 1 9, .zero⟩).run lockAndCommit |>.raft 1).locked 400 = true ∧
    LockDiscipline firstShard ((votedFirst.step ⟨.deliver 1 9, .zero⟩).raft 1).localBalanceTb
      ((votedFirst.step ⟨.deliver 1 9, .zero⟩).run lockAndCommit |>.raft 1) := by
  have hlock : ((votedFirst.step ⟨.deliver 1 9, .zero⟩).raft 1).localLock = ∅ := by decide
  have hpurse : ((votedFirst.step ⟨.deliver 1 9, .zero⟩).raft 1).localBalanceTb = purse := by decide
  refine ⟨by decide +kernel, lock_discipline firstShard 1 votedFirst _ ⟨.deliver 1 9, .zero⟩
    (by decide) (by decide) (by decide) (fun k => ?_) (fun k => ?_)
    (Cluster.Follows.path (by decide +kernel))⟩
  · rw [RaftState.locked, hlock, Table.get, Finmap.lookup_empty]
    rfl
  · rw [RaftState.balance, hpurse, purse, Table.get_insert]
    split_ifs
    · decide
    · rw [Table.get, Finmap.lookup_empty]
      exact le_rfl

end Raft2PC
