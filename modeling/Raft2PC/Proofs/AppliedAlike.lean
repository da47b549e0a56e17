import Raft2PC.Sanity.Effect
import Raft2PC.Sanity.Reaction
import Raft2PC.Proofs.StateMachineSafety

/-! Two replicas that have applied the same log hold the same money. The leader's loop and
the follower's may cut the log into any batches, and a COMMIT may come between any two. -/

namespace Raft2PC

open AIOServer

/-- `commit_index_` does not fall, and what lies up to it stays. -/
def AppliesForward (sv : AIOServer) (x : Stimulus) : Prop :=
  sv.raftState.commitIndex ≤ (sv.next x).raftState.commitIndex ∧
    (entries (sv.next x).raftState).take (sv.raftState.commitIndex + 1).toNat =
      committedLog sv.raftState

instance : ∀ sv x, Decidable (AppliesForward sv x) :=
  fun _ _ => inferInstanceAs (Decidable (_ ∧ _))

/-- A run from balances `tb` that has applied `L`, the entries up to position `n`. -/
structure Applies (tb : Table ℤ) (n : ℤ) (L : List Entry) (sv : AIOServer) (xs : List Stimulus) :
    Prop where
  balances : sv.raftState.localBalanceTb = tb
  fresh : sv.raftState.commitIndex = -1
  forward : Follows AppliesForward sv xs
  commitIndex : (sv.runs xs).raftState.commitIndex = n
  inLog : n < (sv.runs xs).raftState.log.length
  applied : committedLog (sv.runs xs).raftState = L
  once : ((settledIn sv xs).map CrossShardReq.id).Nodup

/-- The log goes up to `commit_index_`, and handlers wrote it. -/
structure InPlace (rs : RaftState) : Prop where
  inLog : rs.commitIndex < rs.log.length
  made : ∀ e ∈ committedLog rs, HandlerMade e.command

variable {sv : AIOServer} {x : Stimulus} {xs : List Stimulus}

theorem InPlace.before (h : InPlace (sv.next x).raftState) (hok : AppliesForward sv x)
    (hlow : -1 ≤ sv.raftState.commitIndex) : InPlace sv.raftState := by
  obtain ⟨hup, hkept⟩ := hok
  have hin := h.inLog
  refine ⟨?_, fun y hy => h.made y ?_⟩
  · have hlen := congrArg List.length hkept
    rw [committedLog, List.length_take, List.length_take, entries_length, entries_length] at hlen
    omega
  · rw [← hkept] at hy
    exact (List.take_prefix_take_left (by omega)).subset hy

theorem InPlace.start (hend : InPlace (sv.runs xs).raftState)
    (hf : Follows AppliesForward sv xs) (hlow : -1 ≤ sv.raftState.commitIndex) :
    InPlace sv.raftState := by
  induction xs generalizing sv with
  | nil => exact hend
  | cons x xs ih =>
    obtain ⟨hok, hrest⟩ := hf
    exact (ih hend hrest (hlow.trans hok.1)).before hok hlow

theorem InPlace.readsBack {rs : RaftState} (h : InPlace rs) (hlow : -1 ≤ rs.commitIndex) {i : ℕ}
    {x : LogEntry} (hi : (i : ℤ) ≤ rs.commitIndex) (hx : rs.log[i]? = some x) :
    ReadsBack x.command := by
  have hmem : x.entry ∈ committedLog rs := by
    apply List.mem_of_getElem? (i := i)
    rw [committedLog, List.getElem?_take_of_lt (by omega), entries_getElem?, hx]
    rfl
  exact (h.made _ hmem).readsBack

theorem balance_forward (hok : AppliesForward sv x) (hlow : -1 ≤ sv.raftState.commitIndex)
    (h : InPlace (sv.next x).raftState) (k : ℤ) :
    (sv.next x).raftState.balance k + netEffect (committedLog sv.raftState) k =
      sv.raftState.balance k + netEffect (committedLog (sv.next x).raftState) k +
        ((settled sv x).map fun req => req.delta sv.raftState.clusterId k).getD 0 := by
  have hin := h.inLog
  have hpaid := netEffect_paid (u := x.undef) k
    (fun i y hi hy => h.readsBack (hlow.trans hok.1) hi hy) hlow hok.1 (by omega)
  rw [hok.2, ← committedLog] at hpaid
  rw [balance_next, hpaid]
  omega

theorem balance_runs (hf : Follows AppliesForward sv xs) (hlow : -1 ≤ sv.raftState.commitIndex)
    (hend : InPlace (sv.runs xs).raftState) (k : ℤ) :
    (sv.runs xs).raftState.balance k + netEffect (committedLog sv.raftState) k =
      sv.raftState.balance k + netEffect (committedLog (sv.runs xs).raftState) k +
        ((settledIn sv xs).map fun req => req.delta sv.raftState.clusterId k).sum := by
  induction xs generalizing sv with
  | nil => simp [settledIn, runs]
  | cons x xs ih =>
    obtain ⟨hok, hrest⟩ := hf
    have hlow' := hlow.trans hok.1
    have hend' : InPlace ((sv.next x).runs xs).raftState := hend
    have hhere := balance_forward hok hlow (hend'.start hrest hlow') k
    have hthere := ih hrest hlow' hend'
    have hsum : ((settledIn sv (x :: xs)).map fun req => req.delta sv.raftState.clusterId k).sum =
        ((settled sv x).map fun req => req.delta sv.raftState.clusterId k).getD 0 +
          ((settledIn (sv.next x) xs).map fun req => req.delta sv.raftState.clusterId k).sum := by
      rw [settledIn, List.map_append, List.sum_append]
      cases settled sv x <;> simp
    have hruns : sv.runs (x :: xs) = (sv.next x).runs xs := rfl
    rw [clusterId_next] at hthere
    rw [hsum, hruns]
    omega

/-- What a run has paid in the end does not depend on how it got there. -/
theorem Applies.balance {tb : Table ℤ} {n : ℤ} {L : List Entry} (h : Applies tb n L sv xs)
    (hmade : ∀ e ∈ L, HandlerMade e.command) (k : ℤ) :
    (sv.runs xs).raftState.balance k = tb.get k + netEffect L k +
      ((settledIn sv xs).map fun req => req.delta sv.raftState.clusterId k).sum := by
  have hlow : -1 ≤ sv.raftState.commitIndex := h.fresh.ge
  have hend : InPlace (sv.runs xs).raftState :=
    ⟨by rw [h.commitIndex]; exact h.inLog, by rw [h.applied]; exact hmade⟩
  have hrun := balance_runs h.forward hlow hend k
  have hnone : committedLog sv.raftState = [] := by simp [committedLog, h.fresh]
  have hstart : sv.raftState.balance k = tb.get k := by rw [RaftState.balance, h.balances]
  have hzero : netEffect [] k = 0 := rfl
  rw [hnone, h.applied, hstart, hzero] at hrun
  omega

/-- A leader and a follower that have applied the same log and the same COMMITs. -/
theorem applied_alike {tb : Table ℤ} {n : ℤ} {L : List Entry} {leader follower : AIOServer}
    {xs ys : List Stimulus} (hx : Applies tb n L leader xs) (hy : Applies tb n L follower ys)
    (hmade : ∀ e ∈ L, HandlerMade e.command)
    (hcid : follower.raftState.clusterId = leader.raftState.clusterId)
    (hsame : ∀ req, req ∈ settledIn leader xs ↔ req ∈ settledIn follower ys) (k : ℤ) :
    (leader.runs xs).raftState.balance k = (follower.runs ys).raftState.balance k ∧
      (leader.runs xs).raftState.balance k = tb.get k + netEffect L k +
        ((settledIn leader xs).map fun req => req.delta leader.raftState.clusterId k).sum := by
  have hleader := hx.balance hmade k
  have hfollower := hy.balance hmade k
  have hperm : (settledIn leader xs).Perm (settledIn follower ys) :=
    (List.perm_ext_iff_of_nodup (.of_map _ hx.once) (.of_map _ hy.once)).mpr hsame
  refine ⟨?_, hleader⟩
  rw [hleader, hfollower, hcid, (hperm.map _).sum_eq]

/-! ### A leader and a follower -/

def settlement : CrossShardReq where
  phase := .commit
  senderClusterId := 0
  receiverClusterId := 1
  senderId := 100
  receiverId := 1100
  amount := 3
  id := 1

def withinEntry : Entry where
  term := 1
  index := 0
  command := fmtPays 100 200 5
  id := 0

/-- Server 1 is elected, two followers take over its entry, then the COMMIT arrives. -/
def leading : List Stimulus := stimuli [.timeout,
  .message 9 (.requestVoteRsp { term := 1, voteGranted := true }),
  .message 7 (.intraShardReq withinShard), .timeout,
  .message 9 (.appendEntriesRsp { term := 1, success := true, serverId := 0 }),
  .message 9 (.appendEntriesRsp { term := 1, success := true, serverId := 2 }),
  .message 7 (.crossShardReq settlement)]

def beatOf (entries : List Entry) (prevLogIndex prevLogTerm commitIndex : ℤ) : ServerInput :=
  .message 9 (.appendEntriesReq
    { term := 1
      leaderId := 1
      prevLogIndex := prevLogIndex
      prevLogTerm := prevLogTerm
      entries := entries
      commitIndex := commitIndex
      serverId := 0 })

/-- Server 0 reads the COMMIT first, and its own entry of it gives way to the leader's log. -/
def following : List Stimulus := stimuli [.message 7 (.crossShardReq settlement),
  beatOf [withinEntry] (-1) (-1) (-1), beatOf [] 0 1 0]

theorem applied_alike_purse :
    ((AIOServer.new 0 1 purse).runs leading).raftState.balance 100 =
        ((AIOServer.new 0 0 purse).runs following).raftState.balance 100 ∧
      ((AIOServer.new 0 1 purse).runs leading).raftState.balance 100 = 10 + -5 + -3 := by
  have hleader : Applies purse 0 [withinEntry] (AIOServer.new 0 1 purse) leading :=
    ⟨rfl, rfl, by decide, by decide, by decide, by decide, by decide⟩
  have hfollower : Applies purse 0 [withinEntry] (AIOServer.new 0 0 purse) following :=
    ⟨rfl, rfl, by decide, by decide, by decide, by decide, by decide⟩
  have hmade : ∀ e ∈ [withinEntry], HandlerMade e.command := by
    intro e he
    rw [List.mem_singleton.mp he]
    exact .intra withinShard
  have hx : settledIn (AIOServer.new 0 1 purse) leading = [settlement] := by decide
  have hy : settledIn (AIOServer.new 0 0 purse) following = [settlement] := by decide
  exact applied_alike hleader hfollower hmade rfl (by rw [hx, hy]; exact fun _ => Iff.rfl) 100

end Raft2PC
