import Raft2PC.Spec.Server
import Raft2PC.Sanity.Isolation

/-! What one input does to a server's log, locks and money. A server of a cluster reacts to
what the step brings it and to nothing else. -/

namespace Raft2PC

open AIOServer AppendEntriesExecutor

/-- The four requests a running server serves. -/
def WrapperMessage.request : WrapperMessage → Option ClientMsg
  | .intraShardReq req => some (.intraShard req)
  | .crossShardReq req => some (.crossShard req)
  | .printBalanceReq req => some (.printBalance req)
  | .printDatastoreReq req => some (.printDatastore req)
  | _ => none

/-- The request that a server takes up. -/
def asked (sv : AIOServer) (x : Stimulus) : Option ClientMsg :=
  match x.input with
  | .message _ msg => if sv.keepRunning && !sv.pretendFail then msg.request else none
  | .timeout => none

/-- The four ways in which a server can react. -/
inductive Reaction (sv : AIOServer) (x : Stimulus) : RaftState → Prop
  | untouched {rs : RaftState} (h : Untouched sv.raftState rs) (hask : asked sv x = none) :
      Reaction sv x rs
  | served (fd : ℤ) (m : ClientMsg) (hx : x.input = .message fd m.msg)
      (hask : asked sv x = some m) : Reaction sv x (serve x.undef fd sv.raftState m)
  | accepted (fd : ℤ) (req : AppendEntriesReq) (hx : x.input = .message fd (.appendEntriesReq req))
      (hacc : accepts x.undef sv.raftState req = true) (hask : asked sv x = none) :
      Reaction sv x (accepted x.undef sv.raftState req)
  | decided (fd : ℤ) (rsp : AppendEntriesRsp) (hx : x.input = .message fd (.appendEntriesRsp rsp))
      (hdec : decides x.undef sv.raftState rsp = true) (hask : asked sv x = none) :
      Reaction sv x (executeRsp x.undef fd sv.raftState rsp).1

theorem reaction_message {sv : AIOServer} {fd : ℤ} {msg : WrapperMessage} {u : Undefined}
    (hrun : sv.keepRunning = true) :
    Reaction sv ⟨.message fd msg, u⟩ (process u fd sv msg).1.raftState := by
  have hquiet : msg.request = none → asked sv ⟨.message fd msg, u⟩ = none := by
    intro h
    simp [asked, h]
  by_cases hidle : msg.administers = true ∨ sv.pretendFail = true
  · rw [(process_idle u fd hidle).1]
    refine .untouched (.refl _) ?_
    rcases hidle with hadm | hp
    · apply hquiet
      cases msg with
      | stop _ | resume _ | exit _ => rfl
      | _ => cases hadm
    · simp [asked, hp]
  · rw [not_or, Bool.not_eq_true, Bool.not_eq_true] at hidle
    obtain ⟨hadm, hp⟩ := hidle
    rw [process_dispatch u fd hadm hp]
    have hserved : ∀ m : ClientMsg, m.msg = msg → msg.request = some m →
        (dispatch u fd sv.raftState msg).1 = serve u fd sv.raftState m →
        Reaction sv ⟨.message fd msg, u⟩ (dispatch u fd sv.raftState msg).1 := by
      rintro m rfl hm hserve
      rw [hserve]
      exact .served fd m rfl (by simp [asked, hrun, hp, hm])
    cases msg with
    | stop _ | resume _ | exit _ => cases hadm
    | intraShardRsp _ | crossShardRsp _ | printBalanceRsp _ | printDatastoreRsp _ | notSet =>
      exact .untouched (.refl _) (hquiet rfl)
    | intraShardReq req => exact hserved (.intraShard req) rfl rfl rfl
    | crossShardReq req => exact hserved (.crossShard req) rfl rfl rfl
    | printBalanceReq req => exact hserved (.printBalance req) rfl rfl rfl
    | printDatastoreReq req => exact hserved (.printDatastore req) rfl rfl rfl
    | requestVoteReq req => exact .untouched (untouched_voteReq fd sv.raftState req) (hquiet rfl)
    | requestVoteRsp rsp =>
      exact .untouched (untouched_voteRsp u fd sv.raftState rsp) (hquiet rfl)
    | appendEntriesReq req =>
      simp only [dispatch]
      cases hacc : accepts u sv.raftState req with
      | true =>
        rw [append_taken fd hacc]
        exact .accepted fd req rfl hacc (hquiet rfl)
      | false => exact .untouched (untouched_append fd hacc) (hquiet rfl)
    | appendEntriesRsp rsp =>
      simp only [dispatch]
      cases hdec : decides u sv.raftState rsp with
      | true => exact .decided fd rsp rfl hdec (hquiet rfl)
      | false => exact .untouched (untouched_rsp hdec) (hquiet rfl)

/-- Inputs for concrete runs. -/
def stimuli (xs : List ServerInput) : List Stimulus := xs.map fun x => ⟨x, .zero⟩

theorem next_timeout {sv : AIOServer} (u : Undefined) (hrun : sv.keepRunning = true) :
    sv.next ⟨.timeout, u⟩ = (sv.timeout u).1 := by
  simp [next, react, hrun]

theorem next_message {sv : AIOServer} (fd : ℤ) (msg : WrapperMessage) (u : Undefined)
    (hrun : sv.keepRunning = true) : sv.next ⟨.message fd msg, u⟩ = (process u fd sv msg).1 := by
  simp [next, react, hrun]

theorem next_exited {sv : AIOServer} (x : Stimulus) (hrun : sv.keepRunning = false) :
    sv.next x = sv := by
  simp [next, react, hrun]

theorem keepRunning_timeout (u : Undefined) (sv : AIOServer) :
    (sv.timeout u).1.keepRunning = sv.keepRunning := by
  unfold timeout
  split_ifs
  · rfl
  · dsimp only
    split <;> rfl

/-- No message but Exit ends the loop. -/
theorem keepRunning_other {msg : WrapperMessage} (u : Undefined) (fd : ℤ) (sv : AIOServer)
    (hexit : ∀ m, msg ≠ .exit m) : (process u fd sv msg).1.keepRunning = sv.keepRunning := by
  cases msg with
  | exit m => exact absurd rfl (hexit m)
  | _ =>
    simp only [process]
    split_ifs <;> rfl

theorem reaction_next (sv : AIOServer) (x : Stimulus) : Reaction sv x (sv.next x).raftState := by
  obtain ⟨input, u⟩ := x
  cases hrun : sv.keepRunning with
  | false =>
    rw [next_exited _ hrun]
    refine .untouched (.refl _) ?_
    cases input <;> simp [asked, hrun]
  | true =>
    cases input with
    | timeout =>
      rw [next_timeout u hrun]
      exact .untouched (untouched_timeout u sv) rfl
    | message fd msg =>
      rw [next_message fd msg u hrun]
      exact reaction_message hrun

/-! ### Servers of a cluster -/

/-- What a step of the cluster brings server `p`. -/
def Cluster.brings (s : Cluster) (e : Event) (p : Idx) : Option Stimulus :=
  match e.action with
  | .timeout q => if q = p then some ⟨.timeout, e.undef⟩ else none
  | .request q fd m => if q = p then some ⟨.message fd m.msg, e.undef⟩ else none
  | .deliver k fd =>
    match s.net[k]? with
    | some c => if c.reader = p then some ⟨.message fd c.msg, e.undef⟩ else none
    | none => none
  | .lose _ => none

theorem servers_after (s : Cluster) (p q : Idx) (r : AIOServer × List AIOAction)
    (net : List Connection) (reply : AIOAction → Option Connection) :
    (s.after q r net reply).servers p = if q = p then r.1 else s.servers p := by
  by_cases hq : q = p
  · subst hq
    simp [Cluster.after]
  · simp [Cluster.after, hq, Ne.symm hq]

/-- The servers of a cluster react to what they hear. -/
theorem servers_step (s : Cluster) (e : Event) (p : Idx) (hrun : (s.servers p).keepRunning = true) :
    (s.step e).servers p = ((s.brings e p).map (s.servers p).next).getD (s.servers p) := by
  obtain ⟨action, u⟩ := e
  cases action with
  | lose k => rfl
  | timeout q =>
    simp only [Cluster.step, Cluster.brings]
    rw [servers_after]
    split_ifs with hq
    · subst hq
      exact (next_timeout u hrun).symm
    · rfl
  | request q fd m =>
    simp only [Cluster.step, Cluster.brings]
    rw [servers_after]
    split_ifs with hq
    · subst hq
      exact (next_message fd m.msg u hrun).symm
    · rfl
  | deliver k fd =>
    simp only [Cluster.step, Cluster.brings]
    cases hk : s.net[k]? with
    | none => rfl
    | some c =>
      dsimp only
      rw [servers_after]
      split_ifs with hq
      · subst hq
        exact (next_message fd c.msg u hrun).symm
      · rfl

/-! ### Money -/

/-- The COMMIT that a server carries out. -/
def settled (sv : AIOServer) (x : Stimulus) : Option CrossShardReq :=
  (asked sv x).bind (moves sv.raftState)

/-- The COMMITs that a run carries out. -/
def settledIn : AIOServer → List Stimulus → List CrossShardReq
  | _, [] => []
  | sv, x :: xs => (settled sv x).toList ++ settledIn (sv.next x) xs

/-- Balances move by the commands that become committed and by the COMMIT carried out. -/
theorem balance_next (sv : AIOServer) (x : Stimulus) (k : ℤ) :
    (sv.next x).raftState.balance k = sv.raftState.balance k +
      paid x.undef (sv.next x).raftState.log k
        (indices (sv.raftState.commitIndex + 1) (sv.next x).raftState.commitIndex) +
      ((settled sv x).map fun req => req.delta sv.raftState.clusterId k).getD 0 := by
  have hreact := reaction_next sv x
  unfold settled
  generalize (sv.next x).raftState = rs at hreact
  have hnone : ∀ log : List LogEntry, ∀ ci : ℤ, paid x.undef log k (indices (ci + 1) ci) = 0 := by
    intro log ci
    rw [indices_eq_nil (by omega), paid_nil]
  cases hreact with
  | untouched h hask =>
    rw [hask, h.commitIndex, hnone]
    simp [RaftState.balance, h.balances]
  | served fd m hx hask =>
    rw [hask, (same_serve x.undef fd sv.raftState m).commitIndex, hnone, balance_serve]
    simp
  | accepted fd req hx hacc hask =>
    rw [hask, balance_accepted]
    simp [accepted]
  | decided fd rsp hx hdec hask =>
    have hans := answered_executeRsp x.undef fd (decides_le hdec).le
    rw [hask, balance_decided hdec, hans.commitIndex, if_pos hdec, paid_congr hans.entries]
    simp

theorem clusterId_next (sv : AIOServer) (x : Stimulus) :
    (sv.next x).raftState.clusterId = sv.raftState.clusterId := by
  have hreact := reaction_next sv x
  generalize (sv.next x).raftState = rs at hreact
  cases hreact with
  | untouched h hask => exact h.clusterId
  | served fd m hx hask => exact (same_serve x.undef fd _ m).clusterId
  | accepted fd req hx hacc hask => rfl
  | decided fd rsp hx hdec hask =>
    exact (answered_executeRsp x.undef fd (decides_le hdec).le).clusterId

end Raft2PC
