import Raft2PC.Sanity.Isolation
import Raft2PC.Proofs.LogMatching

/-! Isolation on a leader that stays. The locks keep the uncommitted transfers of the log
apart; a PREPARE gives its locks up with the answer YES, and from then on only the
requests that arrive decide whether the money it was promised is still there. -/

namespace Raft2PC

open AIOServer AppendEntriesExecutor

def staysLeader (p : Idx) (s : Cluster) (e : Event) : Bool := ((s.step e).raft p).role = .leader

/-- A request that reaches the server keeps the promises of the callers. -/
def callersRouted (home : ℤ → ℤ) (p : Idx) (s : Cluster) (e : Event) : Bool :=
  match e.action with
  | .request q _ m => q ≠ p || (s.servers p).pretendFail || routed home (s.raft p) m
  | _ => true

/-- A request that reaches the server touches no item of an exposed transfer, or is
refused for another reason. -/
def preparedSpared (home : ℤ → ℤ) (n₀ : ℕ) (p : Idx) (s : Cluster) (e : Event) : Bool :=
  match e.action with
  | .request q fd m => q ≠ p || (s.servers p).pretendFail || spares home n₀ fd (s.raft p) m
  | _ => true

def undisturbed (home : ℤ → ℤ) (n₀ : ℕ) (p : Idx) (s : Cluster) (e : Event) : Prop :=
  staysLeader p s e = true ∧ callersRouted home p s e = true ∧
    preparedSpared home n₀ p s e = true

instance (home : ℤ → ℤ) (n₀ : ℕ) (p : Idx) (s : Cluster) (e : Event) :
    Decidable (undisturbed home n₀ p s e) := inferInstanceAs (Decidable (_ ∧ _ ∧ _))

/-- The commit indices lie in the log, and the open transfers are isolated. -/
structure Steady (home : ℤ → ℤ) (n₀ : ℕ) (rs : RaftState) : Prop where
  low : -1 ≤ rs.commitIndex
  coming : rs.commitIndex ≤ rs.comingCommitIndex
  inLog : rs.comingCommitIndex < rs.log.length
  isolated : Isolated home n₀ rs.commitIndex rs

theorem upheld_isolated (home : ℤ → ℤ) (n₀ : ℕ) :
    Upheld (fun fd rs m => routed home rs m = true ∧ spares home n₀ fd rs m = true)
      (Isolated home n₀) where
  congr h hab := h.congr hab
  commit u _ h hi hlen := h.commit u hi hlen
  serve u _ _ h _ hok := h.serve u _ hok.1 hok.2

theorem Steady.step {home : ℤ → ℤ} {n₀ : ℕ} {p : Idx} {s : Cluster} {e : Event}
    (h : Steady home n₀ (s.raft p)) (hok : undisturbed home n₀ p s e) :
    Steady home n₀ ((s.step e).raft p) := by
  obtain ⟨hlead, hrouted, hspared⟩ := hok
  have hbefore : Upholds (Isolated home n₀) (s.raft p) := ⟨h.low, h.coming, h.inLog, h.isolated⟩
  have hafter := hbefore.step (upheld_isolated home n₀) (of_decide_eq_true hlead)
    fun fd m he hrun => by
      simp only [callersRouted, preparedSpared, he, hrun, ne_eq, not_true_eq_false, decide_false,
        Bool.false_or] at hrouted hspared
      exact ⟨hrouted, hspared⟩
  exact ⟨hafter.low, hafter.coming, hafter.inLog, hafter.holds⟩

/-- A transfer the step admits on `p` shares no item with an open one. -/
def KeepsApart (home : ℤ → ℤ) (p : Idx) (s : Cluster) (e : Event) : Prop :=
  ∀ fd m x, e.action = .request p fd m → (s.servers p).pretendFail = false →
    created fd (s.raft p) m = some x → isTransfer x.command = true →
    ∀ i c k, openAt (s.raft p).log (s.raft p).commitIndex i = some c →
      touches home (s.raft p).clusterId c k = true →
      touches home (s.raft p).clusterId x.command k = false

/-- In every step of the run, admitted transfers keep off the items of the open ones, and
no balance is below 0 afterwards. -/
def IsolatesPrepared (home : ℤ → ℤ) (p : Idx) (s : Cluster) (es : List Event) : Prop :=
  ∀ a e b, es = a ++ e :: b →
    KeepsApart home p (s.run a) e ∧ ∀ k, 0 ≤ ((s.run (a ++ [e])).raft p).balance k

theorem Steady.keepsApart {home : ℤ → ℤ} {n₀ : ℕ} {p : Idx} {s : Cluster} {e : Event}
    (h : Steady home n₀ (s.raft p)) (hok : undisturbed home n₀ p s e) : KeepsApart home p s e := by
  intro fd m x he hrun hx htr i c k hc htc
  obtain ⟨-, hrouted, hspared⟩ := hok
  simp only [callersRouted, preparedSpared, he, hrun, ne_eq, not_true_eq_false, decide_false,
    Bool.false_or] at hrouted hspared
  exact h.isolated.apart hx hrouted hspared hc htc htr

/-- On a server that stays leader. That requests spare the transactions answered with YES is the
guard that the handlers lack; before YES the locks isolate a transfer, and no item is
overdrawn. -/
theorem prepared_isolation (home : ℤ → ℤ) (p : Idx) (s : Cluster) (es : List Event)
    (hstart : Steady home (s.raft p).log.length (s.raft p))
    (hrun : Cluster.Follows (undisturbed home (s.raft p).log.length p) s es) :
    IsolatesPrepared home p s es := by
  generalize (s.raft p).log.length = n₀ at hstart hrun
  induction es generalizing s with
  | nil =>
    intro a e b h
    exact absurd h (by simp)
  | cons x es ih =>
    obtain ⟨hok, hrest⟩ := hrun
    have hnext := hstart.step hok
    intro a e b h
    cases a with
    | nil =>
      obtain ⟨rfl, -⟩ := List.cons.inj h
      exact ⟨hstart.keepsApart hok, hnext.isolated.solvent⟩
    | cons y a =>
      obtain ⟨rfl, htail⟩ := List.cons.inj h
      exact ih (s.step x) hnext hrest a e b htail

theorem Steady.of_closed {home : ℤ → ℤ} {n₀ : ℕ} {rs : RaftState} (hlow : -1 ≤ rs.commitIndex)
    (hcoming : rs.commitIndex ≤ rs.comingCommitIndex)
    (hlen : rs.comingCommitIndex < rs.log.length)
    (hclosed : ∀ i, openAt rs.log rs.commitIndex i = none) (hsolvent : ∀ k, 0 ≤ rs.balance k) :
    Steady home n₀ rs where
  low := hlow
  coming := hcoming
  inLog := hlen
  isolated :=
    { written := fun i c hc => absurd (hc.symm.trans (hclosed i)) (by simp)
      exclusive := fun i _ c _ _ hc => absurd (hc.symm.trans (hclosed i)) (by simp)
      fenced := fun i c _ _ _ hc => absurd (hc.symm.trans (hclosed i)) (by simp)
      covered := fun i c hc => absurd (hc.symm.trans (hclosed i)) (by simp)
      solvent := hsolvent }

/-- `get_cluster_id_for_user`, with 1000 users in a cluster. -/
def clusterOfUser (userId : ℤ) : ℤ := (userId - 1) / 1000

/-- Server 1 has been elected and its first heart beats were answered. -/
def firstLeader : Cluster :=
  (Cluster.init 0 purse).run (electFirst ++ calmly [.deliver 1 9, .deliver 2 9])

/-- PREPARE, the answer YES, and COMMIT. -/
def prepareThenCommit : List Event := calmly [.request 1 7 (cross .prepare 1 100 1500 10),
  .request 1 8 (pay 2 100 200 10), .timeout 1, .deliver 2 9, .deliver 3 9,
  .request 1 9 (cross .commit 1 100 1500 10)]

theorem prepared_isolation_first :
    ((firstLeader.run prepareThenCommit).raft 1).balance 100 = 0 ∧
      IsolatesPrepared clusterOfUser 1 firstLeader prepareThenCommit := by
  refine ⟨by decide, prepared_isolation _ _ _ _ ?_ ?_⟩
  · refine .of_closed (by decide) (by decide) (by decide) (fun i => ?_) fun k => ?_
    · rw [show (firstLeader.raft 1).log = [] by decide, openAt, List.getElem?_nil]
    · rw [RaftState.balance, show (firstLeader.raft 1).localBalanceTb = purse by decide, purse,
        Table.get_insert]
      split_ifs
      · decide
      · rw [Table.get, Finmap.lookup_empty]
        exact le_rfl
  · decide

/-- A client spends the money between YES and COMMIT. -/
def spendPrepared : List Event := calmly [.request 1 7 (cross .prepare 1 100 1500 10),
  .timeout 1, .deliver 2 9, .deliver 3 9, .request 1 8 (pay 2 100 200 10), .timeout 1,
  .deliver 3 9, .deliver 4 9, .request 1 9 (cross .commit 1 100 1500 10)]

theorem prepared_overspent :
    Cluster.Reach Cluster.anyStep (firstLeader.run spendPrepared) ∧
    Cluster.Follows (fun s e => staysLeader 1 s e = true ∧ callersRouted clusterOfUser 1 s e = true)
      firstLeader spendPrepared ∧
    openAt ((firstLeader.run (spendPrepared.take 4)).raft 1).log 0 0 =
      some "[PREPARE] 100 pays 1500 $10".toList ∧
    ((created 8 ((firstLeader.run (spendPrepared.take 4)).raft 1) (pay 2 100 200 10)).map
      LogEntry.command) = some "100 pays 200 $10".toList ∧
    ((firstLeader.run spendPrepared).raft 1).balance 100 = -10 ∧
    ¬IsolatesPrepared clusterOfUser 1 firstLeader spendPrepared := by
  refine ⟨(Cluster.Follows.reach (by decide)).path (Cluster.Follows.path (by decide)), by decide,
    by decide, by decide, by decide, fun h => ?_⟩
  have hend := (h (spendPrepared.take 8) _ [] rfl).2 100
  exact absurd hend (by decide)

end Raft2PC
