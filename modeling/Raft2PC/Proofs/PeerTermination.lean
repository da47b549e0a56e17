import Raft2PC.Spec.EventLoop
import Raft2PC.Spec.Wire
import Raft2PC.Sanity.Reaction

/-! Who can end a server. A read that brings no bytes parses to no message at all, and
`process` has no case for that. -/

namespace Raft2PC

open AIOServer EventLoop

/-- The switch of `process` has a case for the message. -/
def WrapperMessage.dispatched : WrapperMessage → Bool
  | .intraShardReq _ | .crossShardReq _ | .appendEntriesReq _ | .appendEntriesRsp _
  | .requestVoteReq _ | .requestVoteRsp _ | .printBalanceReq _ | .printDatastoreReq _ => true
  | _ => false

def WrapperMessage.handled : WrapperMessage → Bool
  | .stop _ | .resume _ | .exit _ => true
  | msg => msg.dispatched

def ownExit (sv : AIOServer) (x : Stimulus) : Bool :=
  match x.input with
  | .message _ (.exit m) => sv.isMe m.clusterId m.serverId
  | _ => false

/-- A message that the server looks at is of a kind it knows, and takes it to no place
outside a vector. -/
def harmless (sv : AIOServer) (x : Stimulus) : Bool :=
  (match x.input with
    | .timeout => true
    | .message _ msg => sv.pretendFail || msg.handled) && staysInVectors sv x

def Harmless (proto : Protobuf) : EventLoop → List Completion → Prop
  | _, [] => True
  | s, c :: cs => (∀ x ∈ taken proto s c, harmless s.server x = true) ∧
      Harmless proto (s.step proto c) cs

/-- The handlers themselves never call `fatal_error`. -/
def Tame (acts : List AIOAction) : Prop := .fatalError ∉ acts

theorem Tame.append {a b : List AIOAction} (ha : Tame a) (hb : Tame b) : Tame (a ++ b) :=
  fun h => (List.mem_append.mp h).elim ha hb

theorem tame_broadcastVote (rs : RaftState) : Tame (broadcastVote rs).2 := by
  simp [Tame, broadcastVote]

theorem tame_broadcastHeartBeat (u : Undefined) (rs : RaftState) :
    Tame (broadcastHeartBeat u rs).2 := by
  simp [Tame, broadcastHeartBeat]

theorem tame_timeout (u : Undefined) (sv : AIOServer) : Tame (timeout u sv).2 := by
  unfold timeout
  split_ifs
  · simp [Tame]
  · dsimp only
    split
    · split_ifs
      · simp [Tame]
      · exact tame_broadcastVote _
    · exact tame_broadcastVote _
    · exact tame_broadcastHeartBeat u _

theorem tame_commitEntry (u : Undefined) (rs : RaftState) (idx : ℤ) :
    Tame (AppendEntriesExecutor.commitEntry u rs idx).2 := by
  unfold AppendEntriesExecutor.commitEntry
  dsimp only
  split_ifs <;> simp [Tame]

theorem tame_commitEntries (u : Undefined) (rs : RaftState) (idxs : List ℤ) :
    Tame (AppendEntriesExecutor.commitEntries u rs idxs).2 := by
  induction idxs generalizing rs with
  | nil => simp [Tame, AppendEntriesExecutor.commitEntries]
  | cons idx rest ih => exact (tame_commitEntry u rs idx).append (ih _)

theorem tame_commitLog (u : Undefined) (rs : RaftState) :
    Tame (AppendEntriesExecutor.commitLog u rs).2 := by
  unfold AppendEntriesExecutor.commitLog
  dsimp only
  split_ifs
  · exact (tame_commitEntries u rs _).append (by simp [Tame])
  · exact tame_commitEntries u rs _

theorem tame_appendRsp (u : Undefined) (fd : ℤ) (rs : RaftState) (rsp : AppendEntriesRsp) :
    Tame (AppendEntriesExecutor.executeRsp u fd rs rsp).2 := by
  unfold AppendEntriesExecutor.executeRsp
  refine Tame.append ?_ (by simp [Tame])
  split_ifs
  · unfold AppendEntriesExecutor.onSuccess
    dsimp only
    split_ifs
    · exact tame_commitLog u _
    · simp [Tame]
  · simp [Tame, AppendEntriesExecutor.onFailure]
  · simp [Tame]

theorem tame_intraShard (fd : ℤ) (rs : RaftState) (req : IntraShardReq) :
    Tame (IntraShardExecutor.executeReq fd rs req).2 := by
  unfold IntraShardExecutor.executeReq
  dsimp only
  split_ifs <;> simp [Tame]

theorem tame_crossShard (fd : ℤ) (rs : RaftState) (req : CrossShardReq) :
    Tame (CrossShardExecutor.executeReq fd rs req).2 := by
  unfold CrossShardExecutor.executeReq
  cases req.phase with
  | prepare =>
    unfold CrossShardExecutor.prepare
    dsimp only
    split_ifs <;> simp [Tame, CrossShardExecutor.reply]
  | commit =>
    unfold CrossShardExecutor.commit
    split_ifs <;> simp [Tame, CrossShardExecutor.reply]
  | abort =>
    unfold CrossShardExecutor.abort
    split_ifs <;> simp [Tame, CrossShardExecutor.reply]

theorem tame_dispatch {msg : WrapperMessage} (u : Undefined) (fd : ℤ) (rs : RaftState)
    (hmsg : msg.dispatched = true) : Tame (dispatch u fd rs msg).2 := by
  have hnil : Tame [] := by simp [Tame]
  cases msg with
  | intraShardRsp _ | crossShardRsp _ | printBalanceRsp _ | printDatastoreRsp _ | notSet
  | stop _ | resume _ | exit _ => cases hmsg
  | intraShardReq req =>
    simp only [dispatch]
    split_ifs
    · exact tame_intraShard fd rs req
    · exact hnil
  | crossShardReq req =>
    simp only [dispatch]
    split_ifs
    · exact tame_crossShard fd rs req
    · exact hnil
  | appendEntriesReq req =>
    simp only [dispatch, AppendEntriesExecutor.executeReq]
    split_ifs <;> simp [Tame]
  | appendEntriesRsp rsp => exact tame_appendRsp u fd rs rsp
  | requestVoteReq req =>
    simp only [dispatch, RequestVoteExecutor.executeReq]
    split_ifs <;> simp [Tame]
  | requestVoteRsp rsp =>
    have hclose : Tame (RequestVoteExecutor.executeRsp fd rs rsp).2 := by
      simp [Tame, RequestVoteExecutor.executeRsp]
    simp only [dispatch]
    split_ifs
    · exact hclose.append (tame_broadcastHeartBeat u _)
    · exact hclose
  | printBalanceReq req =>
    simp only [dispatch]
    split_ifs <;> simp [Tame, PrintBalanceExecutor.executeReq]
  | printDatastoreReq req =>
    simp only [dispatch]
    split_ifs <;> simp [Tame, PrintDatastoreExecutor.executeReq]

/-- `fatal_error` is called for a message of no known kind, by a server that looks at it. -/
theorem tame_process (u : Undefined) (fd : ℤ) (sv : AIOServer) (msg : WrapperMessage) :
    Tame (process u fd sv msg).2 ↔ (sv.pretendFail || msg.handled) = true := by
  by_cases hidle : msg.administers = true ∨ sv.pretendFail = true
  · rw [(process_idle u fd hidle).2]
    refine iff_of_true List.not_mem_nil ?_
    rcases hidle with hadm | hp
    · cases msg with
      | stop _ | resume _ | exit _ => simp [WrapperMessage.handled]
      | _ => cases hadm
    · simp [hp]
  · rw [not_or, Bool.not_eq_true, Bool.not_eq_true] at hidle
    obtain ⟨hadm, hp⟩ := hidle
    rw [process_dispatch u fd hadm hp, hp, Bool.false_or]
    cases msg with
    | stop _ | resume _ | exit _ => cases hadm
    | intraShardRsp _ | crossShardRsp _ | printBalanceRsp _ | printDatastoreRsp _ | notSet =>
      simp [Tame, dispatch, WrapperMessage.handled, WrapperMessage.dispatched]
    | intraShardReq _ | crossShardReq _ | appendEntriesReq _ | appendEntriesRsp _
    | requestVoteReq _ | requestVoteRsp _ | printBalanceReq _ | printDatastoreReq _ =>
      exact iff_of_true (tame_dispatch u fd _ rfl) rfl

variable {sv : AIOServer} {x : Stimulus} {proto : Protobuf} {s : EventLoop}
  {c : Completion} {cs : List Completion}

theorem dies_message {fd : ℤ} {msg : WrapperMessage} {u : Undefined}
    (hrun : sv.keepRunning = true) :
    sv.dies ⟨.message fd msg, u⟩ = !(sv.pretendFail || msg.handled) := by
  have htame := tame_process u fd sv msg
  cases hknown : sv.pretendFail || msg.handled with
  | true => simpa [dies, react, hrun, Tame] using htame.mpr hknown
  | false =>
    rw [hknown] at htame
    have hfatal : ¬ Tame (process u fd sv msg).2 := fun h => absurd (htame.mp h) Bool.false_ne_true
    simpa [dies, react, hrun, Tame] using hfatal

theorem dies_timeout {u : Undefined} (hrun : sv.keepRunning = true) :
    sv.dies ⟨.timeout, u⟩ = false := by
  simpa [dies, react, hrun, Tame] using tame_timeout u sv

theorem keepRunning_process (u : Undefined) (fd : ℤ) (sv : AIOServer) (msg : WrapperMessage) :
    (process u fd sv msg).1.keepRunning =
      (sv.keepRunning && !ownExit sv ⟨.message fd msg, u⟩) := by
  cases msg with
  | exit m =>
    simp only [process, ownExit]
    split_ifs with h <;> simp [h]
  | _ =>
    rw [keepRunning_other u fd sv (by simp)]
    simp [ownExit]

theorem keepRunning_next (hrun : sv.keepRunning = true) :
    (sv.next x).keepRunning = !ownExit sv x := by
  obtain ⟨input, u⟩ := x
  cases input with
  | timeout => simpa [next, react, hrun, ownExit] using keepRunning_timeout u sv
  | message fd msg => simpa [next, react, hrun] using keepRunning_process u fd sv msg

/-- A harmless input neither calls `fatal_error` nor leaves a vector. -/
theorem harmless_eq (hrun : sv.keepRunning = true) :
    harmless sv x = (!sv.dies x && staysInVectors sv x) := by
  obtain ⟨input, u⟩ := x
  cases input with
  | timeout => simp [harmless, dies_timeout hrun]
  | message fd msg => simp [harmless, dies_message hrun]

theorem ownExit_harmless (h : ownExit sv x = true) : harmless sv x = true := by
  obtain ⟨input, u⟩ := x
  cases input with
  | timeout => cases h
  | message fd msg =>
    cases msg with
    | exit m =>
      simp [harmless, staysInVectors, WrapperMessage.handled, matchedInVector, dispatchAccess]
    | _ => cases h

/-- An input is harmless if it cannot end the server, or is an Exit of its own. -/
theorem harmless_iff (hrun : sv.keepRunning = true) :
    harmless sv x = true ↔ (sv.mayEnd x = true → ownExit sv x = true) := by
  constructor
  · intro h
    simp only [harmless_eq hrun, Bool.and_eq_true, Bool.not_eq_true'] at h
    simp [mayEnd, h, keepRunning_next hrun]
  · intro h
    by_cases hown : ownExit sv x = true
    · exact ownExit_harmless hown
    · have hend : ¬ sv.mayEnd x = true := fun hend => hown (h hend)
      simpa [mayEnd, harmless_eq hrun, keepRunning_next hrun, hown] using hend

/-- A read that brings nothing, although it is documented to leave no message set, ends a
server that does not pretend to fail. -/
theorem empty_read_dies {fd : ℤ} (hrun : s.server.keepRunning = true)
    (hfail : s.server.pretendFail = false) (hk : s.pending[c.k]? = some (.read fd))
    (hres : c.res = 0) (hempty : proto.parse [] = .notSet) :
    ∃ x, taken proto s c = some x ∧ s.server.dies x = true := by
  have hinput : input proto (.read fd) c = some (.message fd .notSet) := by
    simp [input, skips, ETIME, parsed, hres, hempty]
  refine ⟨⟨.message fd .notSet, c.undef⟩, by simp [taken, hrun, hk, hinput], ?_⟩
  simp [dies_message hrun, hfail, WrapperMessage.handled, WrapperMessage.dispatched]

theorem running_of_taken (hx : taken proto s c = some x) : s.server.keepRunning = true := by
  by_contra hrun
  simp [taken, hrun] at hx

theorem dies_of_harmless (hx : taken proto s c = some x) (h : harmless s.server x = true) :
    s.server.dies x = false := by
  rw [harmless_eq (running_of_taken hx)] at h
  simpa using (Bool.and_eq_true_iff.mp h).1

/-- Only an Exit of its own ends a server, exactly in the runs of harmless inputs. -/
theorem only_exit_ends (proto : Protobuf) (s : EventLoop) (cs : List Completion) :
    (∀ sv x, Ends proto sv x s cs → ownExit sv x = true) ↔ Harmless proto s cs := by
  constructor
  · intro h
    induction cs generalizing s with
    | nil => trivial
    | cons c cs ih =>
      have hhead : ∀ x ∈ taken proto s c, harmless s.server x = true := by
        intro x hx
        exact (harmless_iff (running_of_taken hx)).mpr fun hend => h _ x (.here rfl hx hend)
      refine ⟨hhead, ih (s.step proto c) ?_⟩
      intro sv x hend
      exact h sv x (.later (fun y hy => dies_of_harmless hy (hhead y hy)) hend)
  · intro h sv x hend
    induction hend with
    | here hsv hx hend =>
      subst hsv
      exact (harmless_iff (running_of_taken hx)).mp (h.1 _ hx) hend
    | later _ _ ih => exact ih h.2

/-- The timer fires, server 1 is dialed and asked for its vote, and instead of an answer comes
the end of the connection, as the peer has exited. -/
def exitOfPeer : List Completion :=
  let socket : Peer → ℤ
    | .routingService => 9
    | .server idx => 10 + idx
  [⟨1, -ETIME, [], socket, .zero⟩, ⟨2, 0, [], socket, .zero⟩, ⟨4, 26, [], socket, .zero⟩,
    ⟨4, 0, [], socket, .zero⟩]

theorem peer_ends_server :
    ¬ ∀ sv x, Ends wire sv x (.start (AIOServer.new 0 0 ∅)) exitOfPeer → ownExit sv x = true := by
  intro h
  have hrun : Ends wire _ ⟨.message 11 .notSet, .zero⟩ (.start (AIOServer.new 0 0 ∅)) exitOfPeer :=
    .later (by decide) (.later (by decide) (.later (by decide) (.here rfl rfl (by decide))))
  cases h _ _ hrun

end Raft2PC
