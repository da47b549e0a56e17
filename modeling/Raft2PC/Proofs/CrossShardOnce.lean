import Raft2PC.Sanity.Ledger
import Raft2PC.Proofs.LogMatching

/-! A committed transfer across shards on one replica. Its money moves when the server
reads the routing service's COMMIT with no [COMMIT] entry in its log; the entry that comes
by replication moves nothing and makes the COMMIT a repetition. -/

namespace Raft2PC

def Movement.isOf (id : ℤ) : Movement → Bool
  | .cross req => req.id = id
  | .intra .. => false

/-- The COMMIT of `id` that an event brings to server `p`. -/
def commitFor (p : Idx) (id : ℤ) (e : Event) : Option CrossShardReq :=
  match e.action with
  | .request q _ (.crossShard req) =>
    if q = p ∧ req.phase = .commit ∧ req.id = id then some req else none
  | _ => none

/-- COMMIT of `id` arrives, the server runs and has a part in the transfer, and its log
has no [COMMIT] entry of the transaction. -/
def commitDue (s : Cluster) (e : Event) (p : Idx) (id : ℤ) : Bool :=
  match e.action with
  | .request q _ (.crossShard req) =>
    q = p && !(s.servers p).pretendFail && req.phase = .commit && req.id = id &&
      (req.senderClusterId = (s.raft p).clusterId ||
        req.receiverClusterId = (s.raft p).clusterId) &&
      !CrossShardExecutor.commitSeen (s.raft p) req
  | _ => false

/-- The log up to `commit_index_` has a [COMMIT] entry of `id`. -/
def commitLogged (rs : RaftState) (id : ℤ) : Bool :=
  (rs.log.take (rs.commitIndex + 1).toNat).any fun e => e.id = id && isCommit e.command

/-- What the run does to the balances of `p` on behalf of transaction `id`. -/
def effects (p : Idx) (id : ℤ) (s : Cluster) (es : List Event) : List Movement :=
  (ledger p s es).filter (Movement.isOf id)

/-- What it does to item `k` on behalf of all others. -/
def movedByOthers (p : Idx) (id : ℤ) (s : Cluster) (es : List Event) (k : ℤ) : ℤ :=
  (((ledger p s es).filter fun x => !x.isOf id).map (Movement.delta (s.raft p).clusterId k)).sum

theorem effects_step (s : Cluster) (e : Event) (p : Idx) (id : ℤ) :
    (movements s e p).filter (Movement.isOf id) =
      if commitDue s e p id then (commitFor p id e).toList.map .cross else [] := by
  have hintra : ((applied s e p).map fun idx => Movement.intra idx
      (transferAt e.undef ((s.step e).raft p).log idx)).filter (Movement.isOf id) = [] := by
    rw [List.filter_map, List.map_eq_nil_iff, List.filter_eq_nil_iff]
    intro idx _
    simp [Movement.isOf]
  rw [movements, List.filter_append, hintra, List.nil_append]
  obtain ⟨action, u⟩ := e
  cases action with
  | timeout q | deliver k fd | lose k => simp [carried, serves, commitDue]
  | request q fd m =>
    cases m with
    | intraShard req | printBalance req | printDatastore req | stop m | resume m =>
      simp only [commitDue, Bool.false_eq_true, if_false]
      unfold carried serves
      dsimp only
      split_ifs <;> rfl
    | crossShard req =>
      by_cases hq : q = p
      · subst hq
        cases hp : (s.servers q).pretendFail with
        | true => simp [carried, serves, commitDue, hp]
        | false =>
          by_cases hm : (req.senderClusterId = (s.raft q).clusterId ∨
              req.receiverClusterId = (s.raft q).clusterId) ∧
            req.phase = .commit ∧ CrossShardExecutor.commitSeen (s.raft q) req = false
          · by_cases hid : req.id = id
            · simp [carried, serves, commitDue, commitFor, hp, moves, hm, hid, Movement.isOf]
            · simp [carried, serves, commitDue, hp, moves, hm, hid, Movement.isOf]
          · have hdue : commitDue s ⟨.request q fd (.crossShard req), u⟩ q id = false := by
              simp only [commitDue, hp, Bool.and_eq_false_iff, decide_eq_false_iff_not,
                Bool.or_eq_false_iff, Bool.not_eq_false']
              by_contra hall
              simp only [not_or, not_and_or, not_not, Bool.not_eq_true] at hall
              tauto
            simp [carried, serves, hp, moves, hm, hdue]
      · simp [carried, serves, commitDue, hq]

theorem effects_cons (p : Idx) (id : ℤ) (s : Cluster) (e : Event) (es : List Event) :
    effects p id s (e :: es) =
      (if commitDue s e p id then (commitFor p id e).toList.map .cross else []) ++
        effects p id (s.step e) es := by
  rw [effects, ledger, List.filter_append, effects_step, effects]

theorem commitFor_isSome {s : Cluster} {e : Event} {p : Idx} {id : ℤ}
    (h : commitDue s e p id = true) : (commitFor p id e).isSome = true := by
  unfold commitDue at h
  unfold commitFor
  split at h
  · simp only [Bool.and_eq_true, decide_eq_true_eq] at h
    rw [if_pos (by tauto)]
    rfl
  · cases h

theorem effects_sublist (p : Idx) (id : ℤ) (s : Cluster) (es : List Event) :
    (effects p id s es).Sublist ((es.filterMap (commitFor p id)).map .cross) := by
  induction es generalizing s with
  | nil => exact List.Sublist.refl _
  | cons e es ih =>
    have harrivals : (e :: es).filterMap (commitFor p id) =
        (commitFor p id e).toList ++ es.filterMap (commitFor p id) := by
      rw [List.filterMap_cons]
      cases commitFor p id e <;> rfl
    rw [effects_cons, harrivals, List.map_append]
    refine List.Sublist.append ?_ (ih _)
    split_ifs
    · exact List.Sublist.refl _
    · exact List.nil_sublist _

theorem effects_ne_nil {p : Idx} {id : ℤ} {s : Cluster} {es : List Event} :
    effects p id s es ≠ [] ↔
      ∃ a e b, es = a ++ e :: b ∧ commitDue (s.run a) e p id = true := by
  induction es generalizing s with
  | nil => simp [effects, ledger]
  | cons x es ih =>
    rw [effects_cons]
    constructor
    · intro h
      by_cases hdue : commitDue s x p id = true
      · exact ⟨[], x, es, rfl, hdue⟩
      · rw [if_neg hdue, List.nil_append] at h
        obtain ⟨a, e, b, rfl, hdue'⟩ := ih.mp h
        exact ⟨x :: a, e, b, rfl, hdue'⟩
    · rintro ⟨a, e, b, heq, hdue⟩ hnil
      obtain ⟨hnow, hlater⟩ := List.append_eq_nil_iff.mp hnil
      cases a with
      | nil =>
        obtain ⟨rfl, -⟩ := List.cons.inj heq
        have hdue' : commitDue s x p id = true := hdue
        obtain ⟨req, hreq⟩ := Option.isSome_iff_exists.mp (commitFor_isSome hdue')
        rw [if_pos hdue', hreq] at hnow
        cases hnow
      | cons y a =>
        obtain ⟨rfl, rfl⟩ := List.cons.inj heq
        exact ih.mpr ⟨a, e, b, rfl, hdue⟩ hlater

/-- The balances are what the others make of them, and the effects of the transaction. -/
theorem balance_effects (p : Idx) (id : ℤ) (s : Cluster) (es : List Event) (k : ℤ) :
    ((s.run es).raft p).balance k = (s.raft p).balance k + movedByOthers p id s es k +
      ((effects p id s es).map (Movement.delta (s.raft p).clusterId k)).sum := by
  have hsplit := List.sum_map_filter_add_sum_map_filter_not (fun x => Movement.isOf id x = true)
    (Movement.delta (s.raft p).clusterId k) (ledger p s es)
  simp only [Bool.decide_eq_true, Bool.decide_eq_false, Bool.not_eq_true] at hsplit
  rw [balance_run, ← hsplit, add_assoc, movedByOthers, effects, add_comm (List.sum _)]

/-- Whenever the run has brought a [COMMIT] entry of the transfer below `commit_index_`, every
balance is what all other transactions make of it, and the transfer once. -/
def ReflectsOnce (p : Idx) (req : CrossShardReq) (s : Cluster) (es : List Event) : Prop :=
  ∀ pre, pre <+: es → commitLogged ((s.run pre).raft p) req.id = true → ∀ k,
    ((s.run pre).raft p).balance k = (s.raft p).balance k + movedByOthers p req.id s pre k +
      req.delta (s.raft p).clusterId k

/-- Before that, the COMMIT was read by a running server with no such entry in its log. -/
def CommitReadFirst (p : Idx) (id : ℤ) (s : Cluster) (es : List Event) : Prop :=
  ∀ pre, pre <+: es → commitLogged ((s.run pre).raft p) id = true →
    ∃ a e b, pre = a ++ e :: b ∧ commitDue (s.run a) e p id = true

/-- For a transaction whose COMMIT arrives at most once. A transfer that moves nothing on the
server is reflected by any balances. -/
theorem reflects_once_iff (p : Idx) (req : CrossShardReq) (s : Cluster) (es : List Event)
    (honce : (es.filterMap (commitFor p req.id)).Sublist [req]) :
    ReflectsOnce p req s es ↔
      CommitReadFirst p req.id s es ∨ ∀ k, req.delta (s.raft p).clusterId k = 0 := by
  have heffects : ∀ pre, pre <+: es → effects p req.id s pre = [] ∨
      effects p req.id s pre = [.cross req] := by
    intro pre hpre
    have harrived := (hpre.sublist.filterMap (commitFor p req.id)).trans honce
    have hsub := (effects_sublist p req.id s pre).trans (harrived.map Movement.cross)
    exact List.sublist_singleton.mp hsub
  constructor
  · intro h
    by_contra hno
    obtain ⟨hfirst, k, hk⟩ := by simpa only [not_or, not_forall] using hno
    apply hfirst
    intro pre hpre hlogged
    apply effects_ne_nil.mp
    intro hnil
    have hbal := h pre hpre hlogged k
    rw [balance_effects p req.id, hnil, List.map_nil, List.sum_nil] at hbal
    omega
  · intro h pre hpre hlogged k
    rw [balance_effects p req.id]
    rcases heffects pre hpre with hnil | hone
    · have hzero : req.delta (s.raft p).clusterId k = 0 := by
        rcases h with hfirst | hidle
        · exact absurd hnil (effects_ne_nil.mpr (hfirst pre hpre hlogged))
        · exact hidle k
      rw [hnil, hzero]
      rfl
    · rw [hone, List.map_singleton, List.sum_singleton]
      rfl

/-- The COMMIT of transaction 1, which takes 5 from item 100. -/
def commitOne : CrossShardReq :=
  { acrossShards with phase := .commit, receiverId := 1500, id := 1 }

/-- A follower reads the COMMIT of transaction 1 and then the leader's entry of it. -/
def commitDirect : List Event := electFirst ++ calmly [.deliver 1 9, .deliver 2 9,
  .request 0 7 (.crossShard commitOne), .request 1 7 (.crossShard commitOne),
  .timeout 1, .deliver 2 9, .deliver 3 9, .timeout 1, .deliver 3 9]

theorem reflects_once_direct :
    commitLogged (((Cluster.init 0 purse).run commitDirect).raft 0) 1 = true ∧
      commitOne.delta 0 100 = -5 ∧ ReflectsOnce 0 commitOne (Cluster.init 0 purse) commitDirect := by
  have hread : ∀ pre ∈ commitDirect.inits,
      commitLogged (((Cluster.init 0 purse).run pre).raft 0) 1 = true →
        (effects 0 1 (Cluster.init 0 purse) pre).length ≠ 0 := by decide
  refine ⟨by decide, by decide, (reflects_once_iff 0 commitOne _ _ (by decide)).mpr (Or.inl ?_)⟩
  intro pre hpre hlogged
  have hlen := hread pre ((List.mem_inits _ _).mpr hpre) hlogged
  exact effects_ne_nil.mp fun hnil => hlen (congrArg List.length hnil)

/-- The leader's entry is the first to reach the follower. -/
def commitReplicated : List Event := electFirst ++ calmly [.deliver 1 9, .deliver 2 9,
  .request 1 7 (.crossShard commitOne), .timeout 1, .deliver 2 9, .deliver 3 9,
  .timeout 1, .deliver 3 9, .request 0 7 (.crossShard commitOne)]

theorem commit_missed :
    Cluster.Reach Cluster.anyStep ((Cluster.init 0 purse).run commitReplicated) ∧
    (((Cluster.init 0 purse).run commitReplicated).raft 1).balance 100 = 5 ∧
    (((Cluster.init 0 purse).run commitReplicated).raft 0).balance 100 = 10 ∧
    (commitReplicated.filterMap (commitFor 0 1)).Sublist [commitOne] ∧
    ¬ReflectsOnce 0 commitOne (Cluster.init 0 purse) commitReplicated :=
  ⟨Cluster.Follows.reach (by decide), by decide, by decide, by decide,
    fun h => absurd (h commitReplicated List.prefix_rfl (by decide) 100) (by decide)⟩

end Raft2PC
