import Raft2PC.Sanity.Ledger
import Raft2PC.Proofs.LogMatching

/-! Commit order: `commit_index_` never falls and no position is applied twice, exactly
when no server is told to commit less than it has. -/

namespace Raft2PC

/-- Along the run `commit_index_` of `p` never decreases. -/
def NeverFalls (p : Idx) : Cluster → List Event → Prop
  | _, [] => True
  | s, e :: es =>
    (s.raft p).commitIndex ≤ ((s.step e).raft p).commitIndex ∧ NeverFalls p (s.step e) es

/-- The positions whose intra-shard commands the run applies to the balances of `p`, in
order. -/
def applications (p : Idx) : Cluster → List Event → List ℤ
  | _, [] => []
  | s, e :: es => applied s e p ++ applications p (s.step e) es

theorem commitIndex_step (s : Cluster) (e : Event) (p : Idx) :
    ((s.step e).raft p).commitIndex = (commitMove s e p).getD (s.raft p).commitIndex := by
  have htouch := touch_step s e p
  generalize (s.step e).raft p = rs at htouch
  cases htouch with
  | untouched h hmove hserve => rw [hmove]; exact h.commitIndex
  | served fd m he hserve hmove => rw [hmove]; exact (same_serve e.undef fd _ m).commitIndex
  | accepted req hacc hserve hmove => rw [hmove]; rfl
  | decided fd rsp hdec hserve hmove =>
    rw [hmove, (answered_executeRsp e.undef fd (decides_le hdec).le).commitIndex, if_pos hdec]
    rfl

theorem commitsForward_iff (s : Cluster) (e : Event) :
    commitsForward s e = true ↔
      ∀ p, (s.raft p).commitIndex ≤ ((s.step e).raft p).commitIndex := by
  have hmove : ∀ p, ((commitMove s e p).all fun n => decide ((s.raft p).commitIndex ≤ n)) = true ↔
      (s.raft p).commitIndex ≤ ((s.step e).raft p).commitIndex := by
    intro p
    rw [commitIndex_step]
    cases commitMove s e p with
    | none => simp
    | some n => simp
  simp only [commitsForward, List.all_eq_true, List.mem_finRange, true_implies, hmove]

theorem mem_indices {lo hi i : ℤ} : i ∈ indices lo hi ↔ lo ≤ i ∧ i ≤ hi := by
  simp only [indices, List.mem_map, List.mem_range]
  constructor
  · rintro ⟨k, hk, rfl⟩
    omega
  · rintro ⟨hlo, hhi⟩
    exact ⟨(i - lo).toNat, by omega, by omega⟩

theorem nodup_indices (lo hi : ℤ) : (indices lo hi).Nodup :=
  List.nodup_range.map fun a b (hab : lo + (a : ℤ) = lo + b) => by omega

theorem mem_applied {s : Cluster} {e : Event} {p : Idx} {i : ℤ} (hi : i ∈ applied s e p) :
    (s.raft p).commitIndex < i ∧ i ≤ ((s.step e).raft p).commitIndex := by
  rw [commitIndex_step]
  unfold applied at hi
  cases hmove : commitMove s e p with
  | none => simp [hmove] at hi
  | some n =>
    rw [hmove] at hi
    obtain ⟨hlo, hhi⟩ := mem_indices.mp (List.mem_filter.mp hi).1
    exact ⟨by omega, hhi⟩

theorem nodup_applied (s : Cluster) (e : Event) (p : Idx) : (applied s e p).Nodup := by
  unfold applied
  cases commitMove s e p with
  | none => exact List.nodup_nil
  | some n => exact (nodup_indices _ _).filter _

/-- While the commit index never falls, what is applied lies above it. -/
theorem above_commitIndex {p : Idx} {s : Cluster} {es : List Event} (h : NeverFalls p s es)
    {i : ℤ} (hi : i ∈ applications p s es) : (s.raft p).commitIndex < i := by
  induction es generalizing s with
  | nil => simp [applications] at hi
  | cons e es ih =>
    obtain ⟨hle, hrest⟩ := h
    rcases List.mem_append.mp hi with hi | hi
    · exact (mem_applied hi).1
    · have := ih hrest hi
      omega

theorem NeverFalls.once {p : Idx} {s : Cluster} {es : List Event} (h : NeverFalls p s es) :
    (applications p s es).Nodup := by
  induction es generalizing s with
  | nil => exact List.nodup_nil
  | cons e es ih =>
    obtain ⟨hle, hrest⟩ := h
    refine List.nodup_append.mpr ⟨nodup_applied s e p, ih hrest, ?_⟩
    rintro i hi j hj rfl
    have hhi := (mem_applied hi).2
    have hlo := above_commitIndex hrest hj
    omega

theorem neverFalls_of_forward {s : Cluster} {es : List Event}
    (hok : Cluster.Follows (commitsForward · ·) s es) (p : Idx) : NeverFalls p s es := by
  induction es generalizing s with
  | nil => trivial
  | cons e es ih => exact ⟨(commitsForward_iff s e).mp hok.1 p, ih hok.2⟩

/-- In every run: commit indices never fall and positions are applied at most once, if
and only if every step commits forward. -/
theorem single_application (s : Cluster) (es : List Event) :
    (∀ p, NeverFalls p s es ∧ (applications p s es).Nodup) ↔
      Cluster.Follows (commitsForward · ·) s es := by
  induction es generalizing s with
  | nil => exact ⟨fun _ => trivial, fun _ p => ⟨trivial, List.nodup_nil⟩⟩
  | cons e es ih =>
    constructor
    · intro h
      refine ⟨(commitsForward_iff s e).mpr fun p => (h p).1.1, (ih _).mp fun p => ?_⟩
      exact ⟨(h p).1.2, (h p).1.2.once⟩
    · intro hok p
      have hfalls := neverFalls_of_forward hok p
      exact ⟨hfalls, hfalls.once⟩

def Movement.position : Movement → Option ℤ
  | .intra pos _ => some pos
  | .cross _ => none

theorem positions_ledger (p : Idx) (s : Cluster) (es : List Event) :
    (ledger p s es).filterMap Movement.position = applications p s es := by
  induction es generalizing s with
  | nil => rfl
  | cons e es ih =>
    have hcross : ((carried s e p).toList.map Movement.cross).filterMap Movement.position = [] := by
      cases carried s e p <;> rfl
    have hintra : ((applied s e p).map fun idx => Movement.intra idx
        (transferAt e.undef ((s.step e).raft p).log idx)).filterMap Movement.position =
          applied s e p := by
      rw [List.filterMap_map]
      exact List.filterMap_some
    rw [ledger, movements, List.filterMap_append, List.filterMap_append, hintra, hcross,
      List.append_nil, ih, applications]

/-- What that means for the balances: they move by COMMITs and by the commands at positions, and
no position is among these twice. -/
theorem balances_applied_once {s : Cluster} {es : List Event}
    (hok : Cluster.Follows (commitsForward · ·) s es) (p : Idx) :
    ((ledger p s es).filterMap Movement.position).Nodup ∧
      ∀ k, ((s.run es).raft p).balance k = (s.raft p).balance k +
        ((ledger p s es).map (Movement.delta (s.raft p).clusterId k)).sum := by
  rw [positions_ledger]
  exact ⟨(neverFalls_of_forward hok p).once, balance_run p s es⟩

/-- Server 0 commits a transfer, reads an older heart beat that takes its commit index
back, and then a newer one. -/
def commitAgain : List Event := electFirst ++ calmly [.deliver 1 9, .deliver 2 9,
  .request 1 7 (pay 1 100 200 5), .timeout 1, .timeout 1, .deliver 2 9, .deliver 5 9, .timeout 1,
  .deliver 5 9, .deliver 3 9, .timeout 1, .deliver 7 9]

theorem applied_twice :
    Cluster.Reach Cluster.anyStep ((Cluster.init 0 purse).run commitAgain) ∧
    (((Cluster.init 0 purse).run commitAgain).raft 0).balance 100 = 0 ∧
    (((Cluster.init 0 purse).run commitAgain).raft 1).balance 100 = 5 ∧
    ¬∀ p, NeverFalls p (Cluster.init 0 purse) commitAgain ∧
      (applications p (Cluster.init 0 purse) commitAgain).Nodup :=
  ⟨Cluster.Follows.reach (by decide), by decide, by decide,
    fun h => absurd (h 0).2 (by decide)⟩

end Raft2PC
