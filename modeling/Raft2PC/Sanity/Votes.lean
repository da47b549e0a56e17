import Raft2PC.Sanity.Reaction

/-! Terms and votes. A server votes when it grants a request and when it asks for votes
itself; any other message of a later term takes it there without a vote. -/

namespace Raft2PC

open AIOServer

/-- A vote, by whom it is for and the term it counts in. -/
structure Vote where
  candidateId : ℤ
  term : ℤ
deriving DecidableEq

/-- Who asks for votes has voted for itself. -/
def AIOAction.candidacy : AIOAction → Option Vote
  | .connect _ (.requestVoteReq req) _ => some ⟨req.candidateId, req.term⟩
  | _ => none

/-- The vote that an answer to `req` grants. -/
def AIOAction.grant (req : RequestVoteReq) : AIOAction → Option Vote
  | .writeMsg _ (.requestVoteRsp rsp) =>
    if rsp.voteGranted then some ⟨req.candidateId, rsp.term⟩ else none
  | _ => none

/-- The vote that a server casts, as it tells the others. -/
def ballot (sv : AIOServer) (x : Stimulus) : Option Vote :=
  match x.input with
  | .timeout => (sv.react x).2.findSome? AIOAction.candidacy
  | .message _ (.requestVoteReq req) => (sv.react x).2.findSome? (AIOAction.grant req)
  | .message _ _ => none

/-- The term that a message brings, unless it brings a candidate, too. -/
def WrapperMessage.term? : WrapperMessage → Option ℤ
  | .appendEntriesReq req => some req.term
  | .appendEntriesRsp rsp => some rsp.term
  | .requestVoteRsp rsp => some rsp.term
  | _ => none

/-- A server that looks at the message learns of a later term. -/
def overtaken (sv : AIOServer) (x : Stimulus) : Bool :=
  match x.input with
  | .timeout => false
  | .message _ msg => sv.keepRunning && !sv.pretendFail &&
      msg.term?.any fun term => sv.raftState.currentTerm < term

/-- What an input can do to the term and the vote of a server. -/
inductive Poll (sv : AIOServer) (x : Stimulus) (rs : RaftState) : Prop
  | kept (hterm : rs.currentTerm = sv.raftState.currentTerm)
      (hvote : rs.votedFor = sv.raftState.votedFor) (hballot : ballot sv x = none)
      (hno : overtaken sv x = false)
  | voted (hballot : ballot sv x = some ⟨rs.votedFor, rs.currentTerm⟩)
      (hle : sv.raftState.currentTerm ≤ rs.currentTerm) (hno : overtaken sv x = false)
  | overtaken (hlt : sv.raftState.currentTerm < rs.currentTerm)
      (hvote : rs.votedFor = sv.raftState.votedFor) (hballot : ballot sv x = none)
      (hyes : overtaken sv x = true)

theorem poll_timeout {sv : AIOServer} (u : Undefined) (hrun : sv.keepRunning = true) :
    Poll sv ⟨.timeout, u⟩ (sv.timeout u).1.raftState := by
  have hreact : sv.react ⟨.timeout, u⟩ = sv.timeout u := by simp [react, hrun]
  have hballot : ballot sv ⟨.timeout, u⟩ = (sv.timeout u).2.findSome? AIOAction.candidacy := by
    rw [ballot, hreact]
  have hbeat : ∀ rs, (broadcastHeartBeat u rs).2.findSome? AIOAction.candidacy = none := by
    intro rs
    rw [List.findSome?_eq_none_iff]
    intro a ha
    rcases List.mem_cons.mp ha with rfl | ha
    · rfl
    · obtain ⟨idx, -, rfl⟩ := List.mem_map.mp ha
      rfl
  cases hp : sv.pretendFail with
  | true =>
    have hidle : sv.timeout u = (sv, []) := by simp [timeout, hp]
    rw [hidle] at hballot ⊢
    exact .kept rfl rfl hballot rfl
  | false =>
    cases hrole : sv.raftState.role with
    | follower =>
      cases hheard : sv.raftState.heardHeartBeat with
      | true =>
        simp only [timeout, hp, hrole, hheard] at hballot ⊢
        exact .kept rfl rfl hballot rfl
      | false =>
        simp only [timeout, hp, hrole, hheard] at hballot ⊢
        exact .voted hballot (by simp [broadcastVote]) rfl
    | candidate =>
      simp only [timeout, hp, hrole] at hballot ⊢
      exact .voted hballot (by simp [broadcastVote]) rfl
    | leader =>
      simp only [timeout, hp, hrole] at hballot ⊢
      exact .kept rfl rfl (hballot.trans (hbeat _)) rfl

section
variable {sv : AIOServer} {rs : RaftState} {fd : ℤ} {u : Undefined}

/-- A message that is no request for a vote and brings no later term. -/
theorem Poll.same {msg : WrapperMessage} (hmsg : ∀ req, msg ≠ .requestVoteReq req)
    (hold : (msg.term?.any fun term => sv.raftState.currentTerm < term) = false)
    (hterm : rs.currentTerm = sv.raftState.currentTerm)
    (hvote : rs.votedFor = sv.raftState.votedFor) : Poll sv ⟨.message fd msg, u⟩ rs := by
  refine .kept hterm hvote ?_ ?_
  · cases msg with
    | requestVoteReq req => exact absurd rfl (hmsg req)
    | _ => rfl
  · simp [Raft2PC.overtaken, hold]

/-- A message of a later term, other than a request for a vote. -/
theorem Poll.later {msg : WrapperMessage} {term : ℤ} (hrun : sv.keepRunning = true)
    (hp : sv.pretendFail = false) (hmsg : msg.term? = some term)
    (hlt : sv.raftState.currentTerm < term) (hterm : rs.currentTerm = term)
    (hvote : rs.votedFor = sv.raftState.votedFor) : Poll sv ⟨.message fd msg, u⟩ rs := by
  refine .overtaken (hterm ▸ hlt) hvote ?_ ?_
  · cases msg with
    | requestVoteReq req => cases hmsg
    | _ => rfl
  · simp [Raft2PC.overtaken, hrun, hp, hmsg, hlt]

theorem poll_voteReq (req : RequestVoteReq) (hrun : sv.keepRunning = true)
    (hp : sv.pretendFail = false) :
    Poll sv ⟨.message fd (.requestVoteReq req), u⟩
      (RequestVoteExecutor.executeReq fd sv.raftState req).1 := by
  have hballot : ballot sv ⟨.message fd (.requestVoteReq req), u⟩ =
      (RequestVoteExecutor.executeReq fd sv.raftState req).2.findSome? (AIOAction.grant req) := by
    simp [ballot, react, hrun, process, hp, dispatch]
  have hno : Raft2PC.overtaken sv ⟨.message fd (.requestVoteReq req), u⟩ = false := by
    simp [Raft2PC.overtaken, WrapperMessage.term?]
  cases hg : grants sv.raftState req with
  | true =>
    rw [vote_granted fd hg] at hballot ⊢
    refine .voted hballot ?_ hno
    rcases grants_iff hg with hlt | ⟨heq, -⟩
    · exact hlt.le
    · exact heq.ge
  | false =>
    rw [vote_ungranted fd hg] at hballot ⊢
    exact .kept rfl rfl hballot hno

/-- A response of no later term leaves term and vote alone. -/
theorem voteRsp_same {rsp : RequestVoteRsp} (fd : ℤ)
    (hle : rsp.term ≤ sv.raftState.currentTerm) :
    (RequestVoteExecutor.executeRsp fd sv.raftState rsp).1.currentTerm =
        sv.raftState.currentTerm ∧
      (RequestVoteExecutor.executeRsp fd sv.raftState rsp).1.votedFor =
        sv.raftState.votedFor := by
  by_cases hc : counts sv.raftState rsp
  · by_cases hmaj : 2 ≤ sv.raftState.voteGrantedNum + 1
    · rw [rsp_elected fd hc hmaj]
      exact ⟨rfl, rfl⟩
    · rw [rsp_counted fd hc (by omega)]
      exact ⟨rfl, rfl⟩
  · rw [rsp_ignored fd hle hc]
    exact ⟨rfl, rfl⟩

theorem poll_voteRsp (rsp : RequestVoteRsp) (hrun : sv.keepRunning = true)
    (hp : sv.pretendFail = false) :
    Poll sv ⟨.message fd (.requestVoteRsp rsp), u⟩
      (dispatch u fd sv.raftState (.requestVoteRsp rsp)).1 := by
  by_cases hlt : sv.raftState.currentTerm < rsp.term
  · rw [dispatch_quiet u fd (rsp_outvoted fd hlt) (by simp [stepDown])]
    exact .later hrun hp rfl hlt rfl rfl
  · obtain ⟨hterm, hvote⟩ := voteRsp_same fd (not_lt.mp hlt)
    simp only [dispatch]
    split_ifs
    · exact .same (by simp) (decide_eq_false hlt) hterm hvote
    · exact .same (by simp) (decide_eq_false hlt) hterm hvote

theorem poll_appendReq (req : AppendEntriesReq) (hrun : sv.keepRunning = true)
    (hp : sv.pretendFail = false) :
    Poll sv ⟨.message fd (.appendEntriesReq req), u⟩
      (AppendEntriesExecutor.executeReq u fd sv.raftState req).1 := by
  by_cases hlt : req.term < sv.raftState.currentTerm
  · rw [append_stale u fd hlt]
    exact .same (by simp) (decide_eq_false hlt.not_gt) rfl rfl
  · have hle := not_lt.mp hlt
    have htaken : (AppendEntriesExecutor.executeReq u fd sv.raftState req).1.currentTerm =
          req.term ∧
        (AppendEntriesExecutor.executeReq u fd sv.raftState req).1.votedFor =
          sv.raftState.votedFor := by
      cases hmis : AppendEntriesExecutor.mismatch u sv.raftState req with
      | true =>
        rw [append_mismatched fd hle hmis]
        exact ⟨rfl, rfl⟩
      | false =>
        rw [append_accepted fd hle hmis]
        exact ⟨rfl, rfl⟩
    obtain ⟨hterm, hvote⟩ := htaken
    rcases hle.lt_or_eq with hnew | heq
    · exact .later hrun hp rfl hnew hterm hvote
    · exact .same (by simp) (decide_eq_false heq.not_lt) (hterm.trans heq.symm) hvote

theorem poll_appendRsp (rsp : AppendEntriesRsp) (hrun : sv.keepRunning = true)
    (hp : sv.pretendFail = false) :
    Poll sv ⟨.message fd (.appendEntriesRsp rsp), u⟩
      (AppendEntriesExecutor.executeRsp u fd sv.raftState rsp).1 := by
  by_cases hlt : sv.raftState.currentTerm < rsp.term
  · rw [rsp_deposed u fd hlt]
    exact .later hrun hp rfl hlt rfl rfl
  · have hans := answered_executeRsp u fd (not_lt.mp hlt)
    exact .same (by simp) (decide_eq_false hlt) hans.currentTerm hans.votedFor

theorem poll_request {m : ClientMsg} (hm : (dispatch u fd sv.raftState m.msg).1 =
    serve u fd sv.raftState m) : Poll sv ⟨.message fd m.msg, u⟩
      (dispatch u fd sv.raftState m.msg).1 := by
  have hsame := same_serve u fd sv.raftState m
  rw [hm]
  cases m <;> exact .same (by simp [ClientMsg.msg]) rfl hsame.currentTerm hsame.votedFor

theorem poll_message (msg : WrapperMessage) (hrun : sv.keepRunning = true) :
    Poll sv ⟨.message fd msg, u⟩ (process u fd sv msg).1.raftState := by
  by_cases hidle : msg.administers = true ∨ sv.pretendFail = true
  · obtain ⟨hraft, hacts⟩ := process_idle u fd hidle
    rw [hraft]
    refine .kept rfl rfl ?_ ?_
    · cases msg with
      | requestVoteReq req => simp [ballot, react, hrun, hacts]
      | _ => rfl
    · rcases hidle with hadm | hp
      · cases msg with
        | stop _ | resume _ | exit _ => simp [Raft2PC.overtaken, WrapperMessage.term?]
        | _ => cases hadm
      · simp [Raft2PC.overtaken, hp]
  · rw [not_or, Bool.not_eq_true, Bool.not_eq_true] at hidle
    obtain ⟨hadm, hp⟩ := hidle
    rw [process_dispatch u fd hadm hp]
    cases msg with
    | stop _ | resume _ | exit _ => cases hadm
    | intraShardRsp _ | crossShardRsp _ | printBalanceRsp _ | printDatastoreRsp _ | notSet =>
      exact .same (by simp) rfl rfl rfl
    | intraShardReq req => exact poll_request (m := .intraShard req) rfl
    | crossShardReq req => exact poll_request (m := .crossShard req) rfl
    | printBalanceReq req => exact poll_request (m := .printBalance req) rfl
    | printDatastoreReq req => exact poll_request (m := .printDatastore req) rfl
    | requestVoteReq req => exact poll_voteReq req hrun hp
    | requestVoteRsp rsp => exact poll_voteRsp rsp hrun hp
    | appendEntriesReq req => exact poll_appendReq req hrun hp
    | appendEntriesRsp rsp => exact poll_appendRsp rsp hrun hp

end

theorem poll_next (sv : AIOServer) (x : Stimulus) : Poll sv x (sv.next x).raftState := by
  obtain ⟨input, u⟩ := x
  cases hrun : sv.keepRunning with
  | false =>
    have hreact : sv.react ⟨input, u⟩ = (sv, []) := by simp [react, hrun]
    rw [next_exited _ hrun]
    cases input with
    | timeout => exact .kept rfl rfl (by simp [ballot, hreact]) rfl
    | message fd msg =>
      refine .kept rfl rfl ?_ (by simp [overtaken, hrun])
      cases msg with
      | requestVoteReq req => simp [ballot, hreact]
      | _ => rfl
  | true =>
    cases input with
    | timeout =>
      rw [next_timeout u hrun]
      exact poll_timeout u hrun
    | message fd msg =>
      rw [next_message fd msg u hrun]
      exact poll_message msg hrun

end Raft2PC
