import Raft2PC.Sanity.Votes
import Raft2PC.Sanity.Projection

/-! What `voted_for_` says. It is documented as the vote of the current term, and a vote
request of a later term clears it; the other three messages that bring a later term do not,
so the vote of an earlier term passes for one of the new term. -/

namespace Raft2PC

open AIOServer

def Votes (rs : RaftState) (req : RequestVoteReq) : Prop :=
  ∀ fd, (RequestVoteExecutor.executeReq fd rs req).2.findSome? (AIOAction.grant req) =
    some ⟨req.candidateId, req.term⟩

/-- `voted_for_` as it is documented, for a server that has cast `votes`. -/
structure VoteOfTerm (votes : List Vote) (rs : RaftState) : Prop where
  names : rs.votedFor = -1 ∨ ⟨rs.votedFor, rs.currentTerm⟩ ∈ votes
  /-- an earlier vote keeps nobody from voting -/
  free : (∀ c, ⟨c, rs.currentTerm⟩ ∉ votes) →
    ∀ req, RequestVoteExecutor.refuses rs req = false → Votes rs req

/-- A message of a later term, other than a request for a vote, reaches a server that has
voted before. -/
def outlives (sv : AIOServer) (x : Stimulus) : Bool :=
  overtaken sv x && sv.raftState.votedFor ≠ -1

def ballots : AIOServer → List Stimulus → List Vote
  | _, [] => []
  | sv, x :: xs => (ballot sv x).toList ++ ballots (sv.next x) xs

/-- No vote has been cast in a term that is still to come. -/
def Past (votes : List Vote) (rs : RaftState) : Prop := ∀ v ∈ votes, v.term ≤ rs.currentTerm

section
variable {votes : List Vote} {sv : AIOServer} {x : Stimulus} {rs : RaftState}

theorem VoteOfTerm.of_names (h : rs.votedFor = -1 ∨ ⟨rs.votedFor, rs.currentTerm⟩ ∈ votes) :
    VoteOfTerm votes rs where
  names := h
  free := by
    intro hnone req hreq fd
    have hvote : rs.votedFor = -1 := h.resolve_right (hnone _)
    have hgrants : grants rs req = true := by simp [grants, hreq, hvote]
    rw [vote_granted fd hgrants]
    rfl

theorem Past.next (h : Past votes sv.raftState) (x : Stimulus) :
    Past (votes ++ (ballot sv x).toList) (sv.next x).raftState := by
  intro v hv
  have hpoll := poll_next sv x
  generalize (sv.next x).raftState = rs at hpoll ⊢
  rcases List.mem_append.mp hv with hv | hv
  · have hold := h v hv
    cases hpoll with
    | kept hterm => omega
    | voted _ hle => omega
    | overtaken hlt => omega
  · rw [Option.mem_toList] at hv
    cases hpoll with
    | kept _ _ hballot => rw [hballot] at hv; cases hv
    | voted hballot =>
      rw [hballot] at hv
      cases hv
      exact le_refl _
    | overtaken _ _ hballot => rw [hballot] at hv; cases hv

/-- One step: the vote speaks of the new term unless it outlives the old one. -/
theorem voteOfTerm_next (hpast : Past votes sv.raftState) (h : VoteOfTerm votes sv.raftState) :
    VoteOfTerm (votes ++ (ballot sv x).toList) (sv.next x).raftState ↔ outlives sv x = false := by
  have hpoll := poll_next sv x
  generalize (sv.next x).raftState = rs at hpoll ⊢
  cases hpoll with
  | kept hterm hvote hballot hno =>
    refine iff_of_true (.of_names ?_) (by simp [outlives, hno])
    rw [hterm, hvote, hballot, Option.toList_none, List.append_nil]
    exact h.names
  | voted hballot hle hno =>
    refine iff_of_true (.of_names (Or.inr ?_)) (by simp [outlives, hno])
    rw [hballot]
    exact List.mem_append_right _ (List.mem_singleton_self _)
  | overtaken hlt hvote hballot hyes =>
    rw [hballot, Option.toList_none, List.append_nil]
    -- nobody has voted in the later term yet
    have hnone : ⟨rs.votedFor, rs.currentTerm⟩ ∉ votes := by
      intro hmem
      have hold : rs.currentTerm ≤ sv.raftState.currentTerm := hpast _ hmem
      omega
    constructor
    · intro hnow
      have hunset : rs.votedFor = -1 := hnow.names.resolve_right hnone
      simp [outlives, ← hvote, hunset]
    · intro hkeep
      have hunset : sv.raftState.votedFor = -1 := by simpa [outlives, hyes] using hkeep
      exact .of_names (Or.inl (hvote.trans hunset))

theorem voteOfTerm_runs (hpast : Past votes sv.raftState) (h : VoteOfTerm votes sv.raftState)
    (xs : List Stimulus) :
    (∀ past, past <+: xs → VoteOfTerm (votes ++ ballots sv past) (sv.runs past).raftState) ↔
      Follows (fun sv x => outlives sv x = false) sv xs := by
  induction xs generalizing votes sv with
  | nil =>
    refine iff_of_true (fun past hpre => ?_) trivial
    obtain rfl := List.prefix_nil.mp hpre
    rwa [ballots, List.append_nil]
  | cons x xs ih =>
    have hstep := voteOfTerm_next (x := x) hpast h
    have hlater : ∀ past, VoteOfTerm (votes ++ ballots sv (x :: past))
        (sv.runs (x :: past)).raftState ↔
          VoteOfTerm ((votes ++ (ballot sv x).toList) ++ ballots (sv.next x) past)
            ((sv.next x).runs past).raftState := by
      intro past
      rw [ballots, ← List.append_assoc]
      rfl
    have hnow : VoteOfTerm (votes ++ ballots sv []) (sv.runs []).raftState := by
      rwa [ballots, List.append_nil]
    constructor
    · intro hall
      have hfirst : outlives sv x = false := by
        have hone := (hlater []).mp (hall [x] (List.prefix_append [x] xs))
        rw [ballots, List.append_nil] at hone
        exact hstep.mp hone
      refine ⟨hfirst, (ih (hpast.next x) (hstep.mpr hfirst)).mp fun past hpre => ?_⟩
      exact (hlater past).mp (hall (x :: past) (List.cons_prefix_cons.mpr ⟨rfl, hpre⟩))
    · rintro ⟨hfirst, hrest⟩ past hpre
      cases past with
      | nil => exact hnow
      | cons y past =>
        obtain ⟨rfl, hshort⟩ := List.cons_prefix_cons.mp hpre
        exact (hlater past).mpr ((ih (hpast.next y) (hstep.mpr hfirst)).mpr hrest past hshort)

end

/-! ### Servers of a cluster -/

namespace Cluster

def ballots (p : Idx) (s : Cluster) (es : List Event) : List Vote :=
  Raft2PC.ballots (s.servers p) (heard p s es)

/-- The event takes no server to a later term with the vote of an earlier one. -/
def voteRenewed (s : Cluster) (e : Event) : Prop :=
  ∀ p, ∀ x ∈ s.brings e p, outlives (s.servers p) x = false

end Cluster

/-- The vote of every server speaks of its current term all along a run, exactly if no event
of the run lets a vote outlive its term. -/
theorem voted_for_current (cid : ℕ) (shard : Table ℤ) (es : List Event) :
    (∀ past, past <+: es → ∀ p, VoteOfTerm ((Cluster.init cid shard).ballots p past)
        (((Cluster.init cid shard).run past).raft p)) ↔
      Cluster.Follows Cluster.voteRenewed (Cluster.init cid shard) es := by
  have hup := Cluster.up_init cid shard
  have hstart : ∀ p, VoteOfTerm [] ((Cluster.init cid shard).raft p) :=
    fun p => .of_names (Or.inl rfl)
  have hnone : ∀ p, Past [] ((Cluster.init cid shard).raft p) := by
    intro p v hv
    cases hv
  have hserver : ∀ p, (∀ past, past <+: es → VoteOfTerm ((Cluster.init cid shard).ballots p past)
        (((Cluster.init cid shard).run past).raft p)) ↔
      Follows (fun sv x => outlives sv x = false) ((Cluster.init cid shard).servers p)
        (Cluster.heard p (Cluster.init cid shard) es) := by
    intro p
    rw [← voteOfTerm_runs (hnone p) (hstart p), ← Cluster.forall_heard]
    refine forall₂_congr fun past _ => ?_
    rw [Cluster.raft, Cluster.servers_run hup]
    rfl
  have hfollows := Cluster.follows_heard (fun sv x => outlives sv x = false) hup es
  refine Iff.trans ?_ hfollows.symm
  rw [← forall_congr' hserver]
  exact ⟨fun h p past hpast => h past hpast p, fun h past hpast p => h p past hpast⟩

/-- Server 0 stands in term 1, and server 1, whose log is longer, in terms 1 and 2. Server 1
refuses its vote to server 0, which learns of term 2 from the answer. -/
def rivals : List Event :=
  calmly [.request 1 7 (.intraShard withinShard), .timeout 0, .timeout 1, .timeout 1,
    .deliver 0 9, .deliver 5 9]

theorem vote_outlives_term :
    ¬ ∀ past, past <+: rivals → ∀ p, VoteOfTerm ((Cluster.init 0 purse).ballots p past)
      (((Cluster.init 0 purse).run past).raft p) := by
  intro h
  have hnames := (h rivals (List.prefix_refl _) 0).names
  revert hnames
  decide

end Raft2PC
