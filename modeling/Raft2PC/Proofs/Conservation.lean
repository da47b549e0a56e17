import Raft2PC.Proofs.LockDiscipline

/-! Conservation of money. Both commit loops take from one account what they give to another,
so the money of a server changes by the COMMITs it carries out and by nothing else. -/

namespace Raft2PC

def total (tb : Table ℤ) : ℤ := ∑ k ∈ tb.keys, tb.get k

/-- What all items of cluster `cid` together gain from a transfer across shards. -/
def CrossShardReq.gain (req : CrossShardReq) (cid : ℤ) : ℤ :=
  (if req.senderClusterId = cid then -req.amount else 0) +
    if req.receiverClusterId = cid then req.amount else 0

/-- The COMMIT requests that the run carries out on server `p`, in order. -/
def commitsApplied (p : Idx) : Cluster → List Event → List CrossShardReq
  | _, [] => []
  | s, e :: es => (carried s e p).toList ++ commitsApplied p (s.step e) es

/-- What the transfers that leave, or enter, cluster `cid` are worth. -/
def sentBy (cid : ℤ) (reqs : List CrossShardReq) : ℤ :=
  ((reqs.filter fun req => req.senderClusterId = cid).map CrossShardReq.amount).sum

def receivedBy (cid : ℤ) (reqs : List CrossShardReq) : ℤ :=
  ((reqs.filter fun req => req.receiverClusterId = cid).map CrossShardReq.amount).sum

variable {S : Finset ℤ}

theorem total_eq {tb : Table ℤ} (hS : tb.keys ⊆ S) : total tb = ∑ k ∈ S, tb.get k := by
  have hsum : shardTotal (fun _ => true) tb = _ := shardTotal_eq hS
  simpa only [shardTotal, Finset.filter_true, total] using hsum

theorem total_add {a b : Table ℤ} {d : ℤ → ℤ} (hS : a.keys ∪ b.keys ⊆ S)
    (hab : ∀ k, b.get k = a.get k + d k) : total b = total a + ∑ k ∈ S, d k := by
  rw [total_eq (Finset.union_subset_left hS), total_eq (Finset.union_subset_right hS),
    Finset.sum_congr rfl fun k _ => hab k, Finset.sum_add_distrib]

/-- A transfer within the shard takes what it gives, also from and to one account. -/
theorem sum_delta (t : Transfer) (hs : t.senderId ∈ S) (hr : t.receiverId ∈ S) :
    ∑ k ∈ S, t.delta k = 0 := by
  simp only [Transfer.delta]
  rw [Finset.sum_add_distrib, Finset.sum_ite_eq' _ t.senderId, Finset.sum_ite_eq' _ t.receiverId,
    if_pos hs, if_pos hr]
  omega

theorem sum_deltas {ts : List Transfer} (hts : ∀ t ∈ ts, t.senderId ∈ S ∧ t.receiverId ∈ S) :
    ∑ k ∈ S, (ts.map fun t => t.delta k).sum = 0 := by
  induction ts with
  | nil => simp
  | cons t ts ih =>
    obtain ⟨hs, hr⟩ := hts t List.mem_cons_self
    simp only [List.map_cons, List.sum_cons]
    rw [Finset.sum_add_distrib, sum_delta t hs hr,
      ih fun t' ht' => hts t' (List.mem_cons_of_mem _ ht'), add_zero]

theorem sum_delta_cross (req : CrossShardReq) (cid : ℤ) (hs : req.senderId ∈ S)
    (hr : req.receiverId ∈ S) : ∑ k ∈ S, req.delta cid k = req.gain cid := by
  have hone : ∀ (c : Prop) [Decidable c] (i v : ℤ), i ∈ S →
      (∑ k ∈ S, if c ∧ k = i then v else 0) = if c then v else 0 := by
    intro c _ i v hi
    by_cases hc : c
    · simp [hc, hi]
    · simp [hc]
  simp only [CrossShardReq.delta, CrossShardReq.gain]
  rw [Finset.sum_add_distrib, hone _ _ _ hs, hone _ _ _ hr]

/-! ### Steps and runs -/

theorem total_step (s : Cluster) (e : Event) (p : Idx) :
    total ((s.step e).raft p).localBalanceTb = total (s.raft p).localBalanceTb +
      ((carried s e p).map fun req => req.gain (s.raft p).clusterId).getD 0 := by
  let ts := (applied s e p).map (transferAt e.undef ((s.step e).raft p).log)
  let ends := (ts.flatMap fun t => [t.senderId, t.receiverId]) ++
    (carried s e p).toList.flatMap fun req => [req.senderId, req.receiverId]
  let S := (s.raft p).localBalanceTb.keys ∪ ((s.step e).raft p).localBalanceTb.keys ∪ ends.toFinset
  have hends : ∀ k ∈ ends, k ∈ S := fun k hk => by simp [S, hk]
  have hbal : ∀ k, ((s.step e).raft p).localBalanceTb.get k = (s.raft p).localBalanceTb.get k +
      ((ts.map fun t => t.delta k).sum +
        ((carried s e p).map fun req => req.delta (s.raft p).clusterId k).getD 0) := by
    intro k
    have hk := balance_step s e p k
    rw [add_assoc] at hk
    rw [List.map_map]
    exact hk
  rw [total_add (S := S) Finset.subset_union_left hbal, Finset.sum_add_distrib, sum_deltas, zero_add]
  · congr 1
    cases hreq : carried s e p with
    | none => simp
    | some req =>
      refine sum_delta_cross req _ (hends _ ?_) (hends _ ?_) <;> simp [ends, hreq]
  · intro t ht
    refine ⟨hends _ ?_, hends _ ?_⟩ <;>
      exact List.mem_append_left _ (List.mem_flatMap.mpr ⟨t, ht, by simp⟩)

theorem sum_gain (cid : ℤ) (reqs : List CrossShardReq) :
    (reqs.map fun req => req.gain cid).sum = receivedBy cid reqs - sentBy cid reqs := by
  induction reqs with
  | nil => rfl
  | cons req reqs ih =>
    rw [List.map_cons, List.sum_cons, ih]
    simp only [receivedBy, sentBy, CrossShardReq.gain, List.filter_cons, decide_eq_true_eq]
    split_ifs
    · simp only [List.map_cons, List.sum_cons]
      omega
    · simp only [List.map_cons, List.sum_cons]
      omega
    · simp only [List.map_cons, List.sum_cons]
      omega
    · omega

theorem total_run (p : Idx) (s : Cluster) (es : List Event) :
    total ((s.run es).raft p).localBalanceTb = total (s.raft p).localBalanceTb +
      ((commitsApplied p s es).map fun req => req.gain (s.raft p).clusterId).sum := by
  induction es generalizing s with
  | nil => simp [Cluster.run, commitsApplied]
  | cons e es ih =>
    have hrun : (s.run (e :: es)).raft p = ((s.step e).run es).raft p := rfl
    rw [hrun, ih, total_step, clusterId_step, commitsApplied, List.map_append, List.sum_append,
      ← add_assoc]
    congr 2
    cases carried s e p <;> simp

/-- The money of a server is what it loaded, less the COMMITs that take from its cluster, and
with those that give to it; a step that carries out no COMMIT changes nothing. -/
theorem conservation (cid : ℕ) (shard : Table ℤ) (p : Idx) (es : List Event) :
    total (((Cluster.init cid shard).run es).raft p).localBalanceTb = total shard -
        sentBy cid (commitsApplied p (Cluster.init cid shard) es) +
        receivedBy cid (commitsApplied p (Cluster.init cid shard) es) ∧
      ∀ s e, carried s e p = none →
        total ((s.step e).raft p).localBalanceTb = total (s.raft p).localBalanceTb := by
  have hcid : ((Cluster.init cid shard).raft p).clusterId = cid := rfl
  have hstart : ((Cluster.init cid shard).raft p).localBalanceTb = shard := rfl
  refine ⟨?_, fun s e hno => ?_⟩
  · rw [total_run, sum_gain, hcid, hstart]
    omega
  · rw [total_step, hno]
    exact add_zero _

end Raft2PC
