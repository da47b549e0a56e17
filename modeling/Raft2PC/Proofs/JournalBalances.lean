import Raft2PC.Proofs.AppliedAlike
import Raft2PC.Proofs.OneJournal
import Raft2PC.Proofs.SingleApplication
import Raft2PC.Sanity.Projection
import Raft2PC.Sanity.Spoken

/-! Balances read off the journal. At any time the money on any server is what its shard held
at first, what the entries that it has committed of the one journal paid, and what the COMMITs
that it carried out itself moved. -/

namespace Raft2PC

open AIOServer Consensus

/-- All tests on a step, and no server commits less than it has. -/
def forward (s : Cluster) (e : Event) : Bool := disciplined s e && commitsForward s e

def Cluster.settledBy (p : Idx) (s : Cluster) (es : List Event) : List CrossShardReq :=
  settledIn (s.servers p) (heard p s es)

variable {cid : ℕ} {s : Cluster} {h : Hist} {e : Event} {es : List Event}

theorem forward.disciplined (hok : forward s e = true) : disciplined s e = true :=
  (Bool.and_eq_true_iff.mp hok).1

theorem handlerMade_created {fd : ℤ} {rs : RaftState} {m : ClientMsg} {x : LogEntry}
    (hx : created fd rs m = some x) : HandlerMade x.command := by
  cases admission_of_created hx with
  | intra req => exact .intra req
  | prepare req => exact .prepare req
  | commit req => exact .commit req
  | abort req => exact .abort req

/-- A disciplined step that lowers no commit index applies the log forward on every server. -/
theorem Committing.appliesForward (hc : Committing cid s.raft s.net h) (hup : s.Up)
    (hok : forward s e = true) (p : Idx) :
    ∀ x ∈ s.brings e p, AppliesForward (s.servers p) x := by
  obtain ⟨hdis, hforward⟩ := Bool.and_eq_true_iff.mp hok
  obtain ⟨h', hc', -, hrec⟩ := hc.next hdis
  intro x hx
  have hnext : ((s.servers p).next x).raftState = (s.step e).raft p := by
    have hstep := servers_step s e p (hup p)
    rw [Option.mem_def.mp hx] at hstep
    exact (congrArg AIOServer.raftState hstep).symm
  have hkept := ((hc.retains p).step hc hc' hrec).held
  have hlen : (committedLog (s.raft p)).length = ((s.raft p).commitIndex + 1).toNat := by
    have hhigh := (hc.server p).high
    rw [committedLog, List.length_take, entries_length]
    omega
  refine ⟨?_, ?_⟩
  · rw [hnext]
    exact (commitsForward_iff s e).mp hforward p
  · rw [hnext]
    exact ((List.prefix_iff_eq_take.mp hkept).trans (by rw [hlen]; rfl)).symm

theorem forward_run (cid : ℕ) (shard : Table ℤ)
    (hok : Cluster.Follows (forward · ·) (Cluster.init cid shard) es) :
    ∃ h, Committing cid ((Cluster.init cid shard).run es).raft
        ((Cluster.init cid shard).run es).net h ∧
      Spoken HandlerMade ((Cluster.init cid shard).run es).raft
        ((Cluster.init cid shard).run es).net ∧
      Cluster.Follows (fun s e => ∀ p, ∀ x ∈ s.brings e p, AppliesForward (s.servers p) x)
        (Cluster.init cid shard) es := by
  suffices hall : ∀ s h, Committing cid s.raft s.net h → Spoken HandlerMade s.raft s.net →
      s.Up → Cluster.Follows (forward · ·) s es →
      ∃ h, Committing cid (s.run es).raft (s.run es).net h ∧
        Spoken HandlerMade (s.run es).raft (s.run es).net ∧
        Cluster.Follows (fun s e => ∀ p, ∀ x ∈ s.brings e p, AppliesForward (s.servers p) x) s es
    from hall _ _ (committing_init cid shard) (spoken_init _ cid shard)
      (Cluster.up_init cid shard) hok
  intro s
  clear hok
  induction es generalizing s with
  | nil => exact fun h hc hspoken _ _ => ⟨h, hc, hspoken, trivial⟩
  | cons e es ih =>
    rintro h hc hspoken hup ⟨hok, hrest⟩
    obtain ⟨h', hc', -, hrec⟩ := hc.next (forward.disciplined hok)
    have hspoken' := hspoken.step hrec fun p fd m x _ _ hx => handlerMade_created hx
    obtain ⟨g, hcg, hspokeng, hf⟩ := ih _ h' hc' hspoken' (hup.step e) hrest
    exact ⟨g, hcg, hspokeng, hc.appliesForward hup hok, hf⟩

/-- Every balance, on every server at every time, by what the server has seen of the journal
and by the COMMITs it has carried out. -/
theorem balances_read_journal (cid : ℕ) (shard : Table ℤ) (es : List Event)
    (hok : Cluster.Follows (forward · ·) (Cluster.init cid shard) es) (p : Idx) (k : ℤ) :
    (((Cluster.init cid shard).run es).raft p).balance k = shard.get k +
      netEffect (((Cluster.init cid shard).asJournal es).view p) k +
        (((Cluster.init cid shard).settledBy p es).map fun req => req.delta cid k).sum := by
  have hup := Cluster.up_init cid shard
  have hdis : Cluster.Follows (disciplined · ·) (Cluster.init cid shard) es :=
    hok.mono fun s e => forward.disciplined
  obtain ⟨h, hc, hspoken, hf⟩ := forward_run cid shard hok
  have halone := (Cluster.follows_heard AppliesForward hup es).mp hf p
  have hrun := Cluster.servers_run hup p es
  have hend : InPlace (((Cluster.init cid shard).run es).raft p) := by
    refine ⟨?_, fun x hx => ?_⟩
    · have := (hc.server p).high
      omega
    · obtain ⟨y, hy, rfl⟩ := List.mem_map.mp (List.mem_of_mem_take hx)
      exact hspoken.logs p y hy
  rw [Cluster.raft, hrun] at hend
  have hbalance := balance_runs halone (le_refl (-1)) hend k
  rw [← hrun] at hbalance
  have hview := asJournal_view hdis (List.prefix_refl es) p
  have hstart : ((Cluster.init cid shard).servers p).raftState.balance k = shard.get k := rfl
  have hnone : netEffect (committedLog ((Cluster.init cid shard).servers p).raftState) k = 0 := rfl
  rw [hview]
  rw [hstart, hnone, add_zero] at hbalance
  exact hbalance

theorem balances_read_journal_both :
    (((Cluster.init 0 purse).run commitBoth).raft 0).balance 100 = 5 ∧
      (((Cluster.init 0 purse).run commitBoth).raft 0).balance 100 = purse.get 100 +
        netEffect (((Cluster.init 0 purse).asJournal commitBoth).view 0) 100 +
          (((Cluster.init 0 purse).settledBy 0 commitBoth).map fun req => req.delta 0 100).sum :=
  ⟨by decide, balances_read_journal 0 purse commitBoth (by decide) 0 100⟩

end Raft2PC
