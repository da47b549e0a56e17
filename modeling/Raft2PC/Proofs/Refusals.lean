import Raft2PC.Sanity.Locks

/-! What a refusal leaves behind. The tests of a refused request read the balance of its
sender by an indexing that inserts the account, and `PrintBalance` sees the difference. -/

namespace Raft2PC

open AIOServer

/-- The handler's only answer is FAIL to a transfer within the shard, or NO to a PREPARE. -/
def Refused (fd : ℤ) (m : ClientMsg) (acts : List AIOAction) : Prop :=
  match m with
  | .intraShard req => acts = [.writeMsg fd (.intraShardRsp { result := .fail, id := req.id })]
  | .crossShard req =>
    req.phase = .prepare ∧ acts = [.writeMsg fd (.crossShardRsp { result := .no, id := req.id })]
  | _ => False

instance (fd : ℤ) (m : ClientMsg) (acts : List AIOAction) : Decidable (Refused fd m acts) := by
  unfold Refused
  split <;> infer_instance

/-- The two states cannot be told apart, neither by their log, commit index, locks and
accounts nor by what they answer to `PrintBalanceReq`. -/
structure Indistinct (a b : RaftState) : Prop where
  log : b.log = a.log
  commitIndex : b.commitIndex = a.commitIndex
  locked : ∀ k, b.locked k = a.locked k
  accounts : b.localBalanceTb.keys = a.localBalanceTb.keys
  answers : ∀ fd req, (PrintBalanceExecutor.executeReq fd b req).2 =
    (PrintBalanceExecutor.executeReq fd a req).2

/-- The account whose balance the tests of a request read, if they come that far. -/
def looksUp (rs : RaftState) : ClientMsg → Option ℤ
  | .intraShard req =>
    if rs.locked req.senderId || rs.locked req.receiverId then none else some req.senderId
  | .crossShard req =>
    if req.senderClusterId = rs.clusterId && !rs.locked req.senderId then some req.senderId
    else none
  | _ => none

variable {rs : RaftState} {m : ClientMsg} {fd : ℤ}

theorem balances_intraConflict (rs : RaftState) (req : IntraShardReq) :
    (IntraShardExecutor.conflict rs req).2.localBalanceTb =
      (looksUp rs (.intraShard req)).elim rs.localBalanceTb rs.localBalanceTb.touch := by
  unfold IntraShardExecutor.conflict looksUp
  cases hs : rs.locked req.senderId with
  | true => simp [hs]
  | false =>
    cases hr : rs.locked req.receiverId with
    | true => simp [hs, hr]
    | false => simp [hs, hr]

theorem balances_crossConflict (rs : RaftState) (req : CrossShardReq) :
    (CrossShardExecutor.conflict rs req).2.localBalanceTb =
      (looksUp rs (.crossShard req)).elim rs.localBalanceTb rs.localBalanceTb.touch := by
  have hreceiver : ∀ rs : RaftState,
      (CrossShardExecutor.receiverConflict rs req).2.localBalanceTb = rs.localBalanceTb := by
    intro rs
    unfold CrossShardExecutor.receiverConflict
    split_ifs <;> rfl
  have hsender : (CrossShardExecutor.senderConflict rs req).2.localBalanceTb =
      (looksUp rs (.crossShard req)).elim rs.localBalanceTb rs.localBalanceTb.touch := by
    unfold CrossShardExecutor.senderConflict looksUp
    by_cases hcid : req.senderClusterId = rs.clusterId
    · cases hs : rs.locked req.senderId with
      | true => simp [hcid, hs]
      | false => simp [hcid, hs]
    · simp [hcid]
  unfold CrossShardExecutor.conflict
  dsimp only
  split_ifs
  · exact hsender
  · rw [hreceiver, hsender]

/-- A request that is refused appends nothing, and inserts the account it looked up. -/
theorem refused_spec (u : Undefined) (h : Refused fd m (dispatch u fd rs m.msg).2) :
    created fd rs m = none ∧ (serve u fd rs m).localBalanceTb =
      (looksUp rs m).elim rs.localBalanceTb rs.localBalanceTb.touch := by
  cases m with
  | printBalance _ | printDatastore _ | stop _ | resume _ => exact h.elim
  | intraShard req =>
    simp only [Refused, ClientMsg.msg, dispatch] at h
    simp only [serve, ClientMsg.msg, dispatch, created, IntraShardExecutor.executeReq,
      seen_intraConflict] at h ⊢
    have htable := balances_intraConflict rs req
    by_cases hcid : req.clusterId = rs.clusterId
    · rw [if_pos hcid] at h ⊢
      cases hconf : (IntraShardExecutor.conflict rs req).1 with
      | true => simp [hcid, htable]
      | false =>
        cases hseen : IntraShardExecutor.seen rs req with
        | true => simp [hcid, htable]
        | false => simp [hconf, hseen] at h
    · simp [hcid] at h
  | crossShard req =>
    simp only [Refused, ClientMsg.msg, dispatch, CrossShardExecutor.executeReq] at h
    obtain ⟨hphase, h⟩ := h
    have htable := balances_crossConflict rs req
    by_cases hcid : req.senderClusterId = rs.clusterId ∨ req.receiverClusterId = rs.clusterId
    · simp only [hcid, hphase, if_true, CrossShardExecutor.prepare, seen_crossConflict] at h
      cases hconf : (CrossShardExecutor.conflict rs req).1 with
      | true =>
        simp [created, serve, ClientMsg.msg, dispatch, CrossShardExecutor.executeReq, hcid, hphase,
          CrossShardExecutor.prepare, hconf, htable]
      | false =>
        cases hseen : CrossShardExecutor.prepareSeen rs req with
        | true =>
          simp [created, serve, ClientMsg.msg, dispatch, CrossShardExecutor.executeReq, hcid,
            hphase, CrossShardExecutor.prepare, seen_crossConflict, hconf, hseen, htable]
        | false => simp [hconf, hseen] at h
    · simp [hcid] at h

/-- A refusal goes unnoticed if the account that was looked up is one of the shard's, or none
was. -/
theorem refusal_unnoticed (u : Undefined) (fd : ℤ) (rs : RaftState) (m : ClientMsg)
    (h : Refused fd m (dispatch u fd rs m.msg).2) :
    Indistinct rs (dispatch u fd rs m.msg).1 ↔ ∀ k ∈ looksUp rs m, k ∈ rs.localBalanceTb := by
  have hserve : (dispatch u fd rs m.msg).1 = serve u fd rs m := by
    cases m with
    | intraShard req | crossShard req => rfl
    | printBalance _ | printDatastore _ | stop _ | resume _ => exact h.elim
  obtain ⟨hnone, htable⟩ := refused_spec u h
  rw [hserve]
  constructor
  · intro hsame k hk
    have hkeys := hsame.accounts
    rw [htable, Option.mem_def.mp hk] at hkeys
    rw [← Finmap.mem_keys, ← hkeys, Finmap.mem_keys]
    exact Table.mem_touch.mpr (Or.inr rfl)
  · intro hheld
    have hkept : (serve u fd rs m).localBalanceTb = rs.localBalanceTb := by
      rw [htable]
      cases hlook : looksUp rs m with
      | none => rfl
      | some k => exact Table.touch_of_mem (hheld k hlook)
    constructor
    · rw [serve_log, hnone, Option.toList_none, List.append_nil]
    · exact (same_serve u fd rs m).commitIndex
    · intro k
      rw [locked_serve, hnone, Option.isSome_none, Bool.false_and, Bool.or_false]
    · rw [hkept]
    · intro fd req
      simp only [PrintBalanceExecutor.executeReq, hkept]

def tooMuch : IntraShardReq where
  clusterId := 0
  senderId := 100
  receiverId := 200
  amount := 50
  id := 0

def fromStranger : IntraShardReq where
  clusterId := 0
  senderId := 300
  receiverId := 100
  amount := 1
  id := 0

theorem refusal_unnoticed_tooMuch :
    Indistinct (AIOServer.new 0 1 purse).raftState (dispatch .zero 7
      (AIOServer.new 0 1 purse).raftState (ClientMsg.intraShard tooMuch).msg).1 := by
  refine (refusal_unnoticed .zero 7 (AIOServer.new 0 1 purse).raftState (.intraShard tooMuch)
    (by decide)).mpr fun k hk => ?_
  have hlook : looksUp (AIOServer.new 0 1 purse).raftState (.intraShard tooMuch) = some 100 := by
    decide
  rw [hlook] at hk
  cases hk
  exact Finmap.mem_insert.mpr (Or.inl rfl)

/-- `PrintBalance` of the account: -1 before the refusal, 0 after it. -/
theorem refusal_noticed :
    Refused 7 (.intraShard fromStranger) (dispatch .zero 7 (AIOServer.new 0 1 purse).raftState
      (ClientMsg.intraShard fromStranger).msg).2 ∧
    ¬Indistinct (AIOServer.new 0 1 purse).raftState (dispatch .zero 7
      (AIOServer.new 0 1 purse).raftState (ClientMsg.intraShard fromStranger).msg).1 := by
  refine ⟨by decide, fun hsame => ?_⟩
  have hprint := hsame.answers 8 { clusterId := 0, serverId := 1, dataItemID := 300 }
  revert hprint
  decide

end Raft2PC
