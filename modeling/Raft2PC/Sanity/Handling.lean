import Raft2PC.Sanity.Answers
import Raft2PC.Spec.Descriptors

/-! What a handler does with the connection it reads from: it answers, closes it, leaves it with
the entry that it appends, or forgets it. -/

namespace Raft2PC

open AIOServer AppendEntriesExecutor

/-- Which request a reply answers. -/
inductive Answers : WrapperMessage → WrapperMessage → Prop
  | vote (req : RequestVoteReq) (rsp : RequestVoteRsp) :
      Answers (.requestVoteReq req) (.requestVoteRsp rsp)
  | append (req : AppendEntriesReq) (rsp : AppendEntriesRsp) (hid : rsp.serverId = req.serverId) :
      Answers (.appendEntriesReq req) (.appendEntriesRsp rsp)
  | intraShard (req : IntraShardReq) (result : IntraShardResultType) :
      Answers (.intraShardReq req) (.intraShardRsp ⟨result, req.id⟩)
  | crossShard (req : CrossShardReq) (result : CrossShardResultType)
      (hack : result = .ack ↔ req.phase ≠ .prepare) :
      Answers (.crossShardReq req) (.crossShardRsp ⟨result, req.id⟩)
  | balance (req : PrintBalanceReq) (balance : ℤ) : Answers (.printBalanceReq req)
      (.printBalanceRsp ⟨req.clusterId, req.serverId, req.dataItemID, balance⟩)
  | datastore (req : PrintDatastoreReq) (entries : List Entry) : Answers (.printDatastoreReq req)
      (.printDatastoreRsp ⟨req.clusterId, req.serverId, entries⟩)

/-- The entry of an intra-shard request, or of a PREPARE. -/
inductive Awaits : WrapperMessage → LogEntry → Prop
  | intraShard (req : IntraShardReq) {x : LogEntry} (hid : x.id = req.id)
      (hcmd : isCross x.command = false) : Awaits (.intraShardReq req) x
  | prepare (req : CrossShardReq) {x : LogEntry} (hphase : req.phase = .prepare)
      (hid : x.id = req.id) (hcmd : isCross x.command = true) : Awaits (.crossShardReq req) x

/-- What the commit of an entry answers. -/
inductive Settles (x : LogEntry) : WrapperMessage → Prop
  | success (hcmd : isCross x.command = false) : Settles x (.intraShardRsp ⟨.success, x.id⟩)
  | yes (hcmd : isCross x.command = true) : Settles x (.crossShardRsp ⟨.yes, x.id⟩)

theorem Settles.answers {x : LogEntry} {msg rsp : WrapperMessage} (h : Settles x rsp)
    (hx : Awaits msg x) : Answers msg rsp := by
  cases hx with
  | intraShard req hid hcmd =>
    cases h with
    | success => exact hid ▸ .intraShard req .success
    | yes hcross => rw [hcmd] at hcross; cases hcross
  | prepare req hphase hid hcmd =>
    cases h with
    | success hpays => rw [hcmd] at hpays; cases hpays
    | yes => exact hid ▸ .crossShard req .yes (by simp [hphase])

/-- The connections that entries of the log are waiting on. -/
def pendingFds (L : List LogEntry) : Multiset ℤ := ↑((L.map LogEntry.reqFd).filter (· ≠ -1))

/-- The connection that is written to and then closed, or closed at once. -/
def AIOAction.spends : AIOAction → Option ℤ
  | .writeMsg fd _ | .close fd => some fd
  | .connect .. | .updateDataShard | .fatalError => none

/-- The connections that are written to and then closed, or closed at once. -/
def spent (acts : List AIOAction) : Multiset ℤ := ↑(acts.filterMap AIOAction.spends)

@[simp] theorem spent_nil : spent [] = 0 := rfl

@[simp] theorem spent_writeMsg (fd : ℤ) (msg : WrapperMessage) (acts : List AIOAction) :
    spent (.writeMsg fd msg :: acts) = fd ::ₘ spent acts := rfl

@[simp] theorem spent_close (fd : ℤ) (acts : List AIOAction) :
    spent (.close fd :: acts) = fd ::ₘ spent acts := rfl

@[simp] theorem spent_updateDataShard (acts : List AIOAction) :
    spent (.updateDataShard :: acts) = spent acts := rfl

@[simp] theorem spent_fatalError (acts : List AIOAction) :
    spent (.fatalError :: acts) = spent acts := rfl

theorem spent_append (as bs : List AIOAction) : spent (as ++ bs) = spent as + spent bs := by
  simp [spent, List.filterMap_append]

theorem mem_spent {acts : List AIOAction} {fd : ℤ} {msg : WrapperMessage}
    (h : .writeMsg fd msg ∈ acts) : fd ∈ spent acts :=
  Multiset.mem_coe.mpr (List.mem_filterMap.mpr ⟨_, h, rfl⟩)

theorem pendingFds_append (L M : List LogEntry) :
    pendingFds (L ++ M) = pendingFds L + pendingFds M := by
  simp [pendingFds]

theorem pendingFds_single (x : LogEntry) :
    pendingFds [x] = if x.reqFd = -1 then 0 else {x.reqFd} := by
  by_cases h : x.reqFd = -1 <;> simp [pendingFds, h]

theorem mem_pendingFds {L : List LogEntry} {fd : ℤ} :
    fd ∈ pendingFds L ↔ ∃ x ∈ L, x.reqFd = fd ∧ fd ≠ -1 := by
  simp only [pendingFds, Multiset.mem_coe, List.mem_filter, List.mem_map, decide_eq_true_eq]
  constructor
  · rintro ⟨⟨x, hx, rfl⟩, hne⟩
    exact ⟨x, hx, rfl, hne⟩
  · rintro ⟨x, hx, rfl, hne⟩
    exact ⟨⟨x, hx, rfl⟩, hne⟩

/-- No entry of `L'` waits that does not wait in `L`. -/
structure Fewer (L L' : List LogEntry) : Prop where
  le : pendingFds L' ≤ pendingFds L
  mem : ∀ x ∈ L', x.reqFd ≠ -1 → x ∈ L

namespace Fewer

variable {L L' M : List LogEntry}

theorem refl (L : List LogEntry) : Fewer L L := ⟨le_rfl, fun _ hx _ => hx⟩

theorem trans (h : Fewer L L') (h' : Fewer L' M) : Fewer L M :=
  ⟨h'.le.trans h.le, fun x hx hne => h.mem x (h'.mem x hx hne) hne⟩

theorem append (L : List LogEntry) (hM : ∀ x ∈ M, x.reqFd = -1) : Fewer L (L ++ M) := by
  have hnone : pendingFds M = 0 := by
    refine Multiset.eq_zero_iff_forall_notMem.mpr fun fd hfd => ?_
    obtain ⟨x, hx, rfl, hne⟩ := mem_pendingFds.mp hfd
    exact hne (hM x hx)
  refine ⟨by rw [pendingFds_append, hnone, add_zero], fun x hx hne => ?_⟩
  rcases List.mem_append.mp hx with hx | hx
  · exact hx
  · exact absurd (hM x hx) hne

theorem take (L : List LogEntry) (n : ℕ) : Fewer L (L.take n) := by
  refine ⟨?_, fun x hx _ => List.mem_of_mem_take hx⟩
  have hsplit := congrArg pendingFds (List.take_append_drop n L)
  rw [pendingFds_append] at hsplit
  rw [← hsplit]
  exact Multiset.le_add_right _ _

theorem mergeEntries (u : Undefined) (L : List LogEntry) (pos : ℤ) (es : List Entry) :
    Fewer L (AppendEntriesExecutor.mergeEntries u L pos es) := by
  induction es generalizing pos with
  | nil => exact .refl L
  | cons e es ih =>
    simp only [AppendEntriesExecutor.mergeEntries]
    split_ifs
    · refine (take L pos.toNat).trans (.append _ fun x hx => ?_)
      obtain ⟨y, -, rfl⟩ := List.mem_map.mp hx
      rfl
    · exact ih _

end Fewer

/-- One message is read, or none, and the log goes from `L` to `L'`. -/
structure Handled (own : List (ℤ × WrapperMessage)) (L L' : List LogEntry)
    (acts : List AIOAction) : Prop where
  spent : spent acts + pendingFds L' ≤ ↑(own.map Prod.fst) + pendingFds L
  entries : ∀ x ∈ L', x.reqFd ≠ -1 → x ∈ L ∨ ∃ msg, (x.reqFd, msg) ∈ own ∧ Awaits msg x
  replies : ∀ fd rsp, .writeMsg fd rsp ∈ acts →
    (∃ msg, (fd, msg) ∈ own ∧ Answers msg rsp) ∨
      ∃ x ∈ L, x.reqFd = fd ∧ fd ≠ -1 ∧ Settles x rsp

namespace Handled

variable {own : List (ℤ × WrapperMessage)} {L L' L'' : List LogEntry} {acts acts' : List AIOAction}
  {fd : ℤ} {msg rsp : WrapperMessage} {x : LogEntry}

/-- Nothing is done to any connection. -/
theorem silent (hL : Fewer L L') (hspent : Raft2PC.spent acts = 0) : Handled own L L' acts where
  spent := by
    rw [hspent, zero_add]
    exact hL.le.trans (Multiset.le_add_left _ _)
  entries x hx hne := .inl (hL.mem x hx hne)
  replies fd rsp hrsp := by
    have hmem := mem_spent hrsp
    rw [hspent] at hmem
    exact absurd hmem (Multiset.notMem_zero _)

theorem reply (hL : Fewer L L') (hrsp : Answers msg rsp) :
    Handled [(fd, msg)] L L' [.writeMsg fd rsp] where
  spent := by
    rw [spent_writeMsg, spent_nil, Multiset.cons_zero]
    exact add_le_add_right hL.le _
  entries x hx hne := .inl (hL.mem x hx hne)
  replies fd' rsp' h := by
    obtain ⟨rfl, rfl⟩ : fd' = fd ∧ rsp' = rsp := by simpa using h
    exact .inl ⟨msg, List.mem_singleton_self _, hrsp⟩

theorem close (hL : Fewer L L') : Handled [(fd, msg)] L L' [.close fd] where
  spent := by
    rw [spent_close, spent_nil, Multiset.cons_zero]
    exact add_le_add_right hL.le _
  entries x hx hne := .inl (hL.mem x hx hne)
  replies fd' rsp' h := by simp at h

theorem admits (hfd : x.reqFd = fd) (hx : Awaits msg x) : Handled [(fd, msg)] L (L ++ [x]) [] where
  spent := by
    rw [spent_nil, zero_add, pendingFds_append, add_comm, pendingFds_single, hfd]
    refine add_le_add_left ?_ _
    split_ifs
    · exact Multiset.zero_le _
    · exact le_rfl
  entries y hy _ := by
    rcases List.mem_append.mp hy with hy | hy
    · exact .inl hy
    · obtain rfl := List.mem_singleton.mp hy
      exact .inr ⟨msg, hfd ▸ List.mem_singleton_self _, hx⟩
  replies fd' rsp' h := absurd h List.not_mem_nil

/-- One handler after another, of which the first reads no message. -/
theorem trans (h : Handled [] L L' acts) (h' : Handled own L' L'' acts') :
    Handled own L L'' (acts ++ acts') where
  spent := by
    have hfirst := h.spent
    rw [List.map_nil, Multiset.coe_nil, zero_add] at hfirst
    calc Raft2PC.spent (acts ++ acts') + pendingFds L''
        = Raft2PC.spent acts + (Raft2PC.spent acts' + pendingFds L'') := by
          rw [spent_append, add_assoc]
      _ ≤ Raft2PC.spent acts + (↑(own.map Prod.fst) + pendingFds L') := add_le_add_right h'.spent _
      _ = ↑(own.map Prod.fst) + (Raft2PC.spent acts + pendingFds L') := by
          rw [← add_assoc, ← add_assoc, add_comm (Raft2PC.spent acts)]
      _ ≤ ↑(own.map Prod.fst) + pendingFds L := add_le_add_right hfirst _
  entries x hx hne := by
    rcases h'.entries x hx hne with hx | hx
    · refine (h.entries x hx hne).imp_right ?_
      rintro ⟨msg, hmsg, -⟩
      cases hmsg
    · exact .inr hx
  replies fd rsp hrsp := by
    rcases List.mem_append.mp hrsp with hrsp | hrsp
    · refine (h.replies fd rsp hrsp).imp_left ?_
      rintro ⟨msg, hmsg, -⟩
      cases hmsg
    · refine (h'.replies fd rsp hrsp).imp_right ?_
      rintro ⟨x, hx, rfl, hne, hsettles⟩
      rcases h.entries x hx hne with hx | ⟨msg, hmsg, -⟩
      · exact ⟨x, hx, rfl, hne, hsettles⟩
      · cases hmsg

/-- What follows does nothing to any connection it did not open. -/
theorem andThen (h : Handled own L L' acts) (hspent : Raft2PC.spent acts' = 0) :
    Handled own L L' (acts ++ acts') where
  spent := by
    rw [spent_append, hspent, add_zero]
    exact h.spent
  entries := h.entries
  replies fd rsp hrsp := by
    rcases List.mem_append.mp hrsp with hrsp | hrsp
    · exact h.replies fd rsp hrsp
    · have hmem := mem_spent hrsp
      rw [hspent] at hmem
      exact absurd hmem (Multiset.notMem_zero _)

end Handled

/-! ### The commit loop -/

section
variable {u : Undefined} {fd : ℤ} {rs : RaftState}

/-- An entry is answered and stops waiting. -/
theorem pendingFds_clear {L : List LogEntry} {i : ℕ} (hi : i < L.length) (hne : L[i].reqFd ≠ -1) :
    L[i].reqFd ::ₘ pendingFds (L.modify i fun e => { e with reqFd := -1 }) = pendingFds L := by
  induction L generalizing i with
  | nil => exact absurd hi (Nat.not_lt_zero _)
  | cons x L ih =>
    have hcons : ∀ y (M : List LogEntry), pendingFds (y :: M) = pendingFds [y] + pendingFds M :=
      fun y M => pendingFds_append [y] M
    cases i with
    | zero =>
      rw [List.getElem_cons_zero] at hne ⊢
      rw [List.modify_zero_cons, hcons, hcons x, pendingFds_single, pendingFds_single, if_pos rfl,
        if_neg hne, zero_add, Multiset.singleton_add]
    | succ i =>
      rw [List.getElem_cons_succ] at hne ⊢
      rw [List.modify_succ_cons, hcons x (L.modify i _), hcons x L, ← Multiset.add_cons,
        ih (Nat.lt_of_succ_lt_succ hi) hne]

theorem handled_clear {L : List LogEntry} {i : ℕ} {rsp : WrapperMessage} (hi : i < L.length)
    (hne : L[i].reqFd ≠ -1) (hrsp : Settles L[i] rsp) :
    Handled [] L (L.modify i fun e => { e with reqFd := -1 }) [.writeMsg L[i].reqFd rsp] where
  spent := by
    rw [spent_writeMsg, spent_nil, Multiset.cons_add, zero_add, pendingFds_clear hi hne, List.map_nil,
      Multiset.coe_nil, zero_add]
  entries x hx hne := by
    obtain ⟨j, hj⟩ := List.mem_iff_getElem?.mp hx
    rw [List.getElem?_modify] at hj
    obtain ⟨y, hy, hyx⟩ := Option.map_eq_some_iff.mp hj
    split_ifs at hyx
    · exact absurd (congrArg LogEntry.reqFd hyx).symm hne
    · exact .inl (hyx ▸ List.mem_of_getElem? hy)
  replies fd rsp' h := by
    obtain ⟨rfl, rfl⟩ : fd = L[i].reqFd ∧ rsp' = rsp := by simpa using h
    exact .inr ⟨L[i], List.getElem_mem hi, rfl, hne, hrsp⟩

theorem handled_commitEntry (u : Undefined) {i : ℕ} (hi : i < rs.log.length) :
    Handled [] rs.log (commitEntry u rs i).1.log (commitEntry u rs i).2 := by
  have hread := readLog_of_lt (u := u) hi
  unfold commitEntry
  dsimp only
  rw [hread]
  split_ifs with hcross hprep hfd hfd
  · exact handled_clear hi hfd (.yes hcross)
  · exact .silent (.refl _) rfl
  · exact .silent (.refl _) rfl
  · exact handled_clear hi hfd (.success (by simpa using hcross))
  · exact .silent (.refl _) rfl

theorem handled_commitEntries (u : Undefined) {idxs : List ℤ}
    (hin : ∀ i ∈ idxs, 0 ≤ i ∧ i < rs.log.length) :
    Handled [] rs.log (commitEntries u rs idxs).1.log (commitEntries u rs idxs).2 := by
  induction idxs generalizing rs with
  | nil => exact .silent (.refl _) rfl
  | cons idx rest ih =>
    obtain ⟨hlo, hhi⟩ := hin idx List.mem_cons_self
    obtain ⟨i, rfl⟩ := Int.eq_ofNat_of_zero_le hlo
    refine (handled_commitEntry u (i := i) (by omega)).trans (ih fun j hj => ?_)
    rw [length_commitEntry]
    exact hin j (List.mem_cons_of_mem _ hj)

theorem handled_executeRsp {rsp : AppendEntriesRsp}
    (hin : decides u rs rsp = true → ∀ i ∈ indices (rs.commitIndex + 1) rs.comingCommitIndex,
      0 ≤ i ∧ i < rs.log.length) :
    Handled [(fd, .appendEntriesRsp rsp)] rs.log (executeRsp u fd rs rsp).1.log
      (executeRsp u fd rs rsp).2 := by
  cases hdec : decides u rs rsp with
  | true =>
    have hloop := @handled_commitEntries { rs with logGrantedNum := rs.logGrantedNum + 1 } u
      (indices (rs.commitIndex + 1) rs.comingCommitIndex) (hin hdec)
    rw [(executeRsp_decided fd hdec).1]
    simp only [decides, Bool.and_eq_true, decide_eq_true_eq] at hdec
    obtain ⟨⟨⟨hrole, hterm⟩, hsucc⟩, hc⟩ := hdec
    simp only [executeRsp]
    rw [if_pos (And.intro hrole hterm), if_pos hsucc]
    simp only [onSuccess, if_pos hc, commitLog]
    split_ifs
    · rw [List.append_assoc]
      exact hloop.trans ((Handled.silent (.refl _) rfl).trans (.close (.refl _)))
    · exact hloop.trans (.close (.refl _))
  | false =>
    have hacts : (executeRsp u fd rs rsp).2 = [.close fd] := by
      simp only [executeRsp]
      split_ifs with hlead hsucc
      · have hc : commits u { rs with logGrantedNum := rs.logGrantedNum + 1 } = false := by
          simpa [decides, hlead.1, hlead.2, hsucc] using hdec
        simp only [onSuccess, hc]
        rfl
      · rfl
      · rfl
    rw [hacts, (untouched_rsp hdec).log]
    exact .close (.refl _)

/-! ### The other handlers -/

theorem handled_intraShard (fd : ℤ) (rs : RaftState) (req : IntraShardReq) :
    Handled [(fd, .intraShardReq req)] rs.log (IntraShardExecutor.executeReq fd rs req).1.log
      (IntraShardExecutor.executeReq fd rs req).2 := by
  have hlog := log_intraConflict rs req
  simp only [IntraShardExecutor.executeReq]
  split_ifs
  · rw [hlog]
    exact .reply (.refl _) (.intraShard req .fail)
  · rw [hlog]
    exact .reply (.refl _) (.intraShard req .fail)
  · simp only [RaftState.setLock, RaftState.pushLog, hlog]
    exact .admits rfl (.intraShard req rfl (isCross_pays _ _ _))

theorem handled_prepare (fd : ℤ) (rs : RaftState) {req : CrossShardReq}
    (hphase : req.phase = .prepare) :
    Handled [(fd, .crossShardReq req)] rs.log (CrossShardExecutor.prepare fd rs req).1.log
      (CrossShardExecutor.prepare fd rs req).2 := by
  have hlog := log_crossConflict rs req
  have hno : Answers (.crossShardReq req) (.crossShardRsp ⟨.no, req.id⟩) :=
    .crossShard req .no (by simp [hphase])
  simp only [CrossShardExecutor.prepare]
  split_ifs
  · rw [hlog]
    exact .reply (.refl _) hno
  · rw [hlog]
    exact .reply (.refl _) hno
  · simp only [log_lockItems, RaftState.pushLog, hlog]
    exact .admits rfl (.prepare req hphase rfl rfl)

theorem handled_crossShard (fd : ℤ) (rs : RaftState) (req : CrossShardReq) :
    Handled [(fd, .crossShardReq req)] rs.log (CrossShardExecutor.executeReq fd rs req).1.log
      (CrossShardExecutor.executeReq fd rs req).2 := by
  have hnew : ∀ x : LogEntry, x.reqFd = -1 → Fewer rs.log (rs.log ++ [x]) := fun x hx =>
    .append _ fun y hy => List.mem_singleton.mp hy ▸ hx
  have hack : req.phase ≠ .prepare →
      Answers (.crossShardReq req) (.crossShardRsp ⟨.ack, req.id⟩) :=
    fun hphase => .crossShard req .ack (by simp [hphase])
  cases hphase : req.phase with
  | prepare =>
    simp only [CrossShardExecutor.executeReq, hphase]
    exact handled_prepare fd rs hphase
  | commit =>
    simp only [CrossShardExecutor.executeReq, hphase, CrossShardExecutor.commit]
    split_ifs
    · exact .reply (.refl _) (hack (by simp [hphase]))
    · simp only [log_transfer, RaftState.pushLog]
      have hsaved : Handled [] rs.log rs.log [.updateDataShard] :=
        .silent (.refl _) rfl
      exact hsaved.trans (.reply (hnew _ rfl) (hack (by simp [hphase])))
  | abort =>
    simp only [CrossShardExecutor.executeReq, hphase, CrossShardExecutor.abort]
    split_ifs
    · exact .reply (.refl _) (hack (by simp [hphase]))
    · simp only [RaftState.pushLog]
      exact .reply (hnew _ rfl) (hack (by simp [hphase]))

theorem handled_voteReq (fd : ℤ) (rs : RaftState) (req : RequestVoteReq) :
    Handled [(fd, .requestVoteReq req)] rs.log (RequestVoteExecutor.executeReq fd rs req).1.log
      (RequestVoteExecutor.executeReq fd rs req).2 := by
  rw [(untouched_voteReq fd rs req).log]
  cases hg : grants rs req with
  | true =>
    rw [vote_granted fd hg]
    exact .reply (.refl _) (.vote req _)
  | false =>
    rw [vote_ungranted fd hg]
    exact .reply (.refl _) (.vote req _)

theorem handled_appendReq (u : Undefined) (fd : ℤ) (rs : RaftState) (req : AppendEntriesReq) :
    Handled [(fd, .appendEntriesReq req)] rs.log (executeReq u fd rs req).1.log
      (executeReq u fd rs req).2 := by
  by_cases hlt : req.term < rs.currentTerm
  · rw [append_stale u fd hlt]
    exact .reply (.refl _) (.append req _ rfl)
  · cases hmis : mismatch u rs req with
    | true =>
      rw [append_mismatched fd (not_lt.mp hlt) hmis]
      exact .reply (.refl _) (.append req _ rfl)
    | false =>
      rw [append_accepted fd (not_lt.mp hlt) hmis]
      exact .reply (.mergeEntries u _ _ _) (.append req _ rfl)

theorem spent_beats (u : Undefined) (rs : RaftState) : spent (broadcastHeartBeat u rs).2 = 0 := by
  simp [spent, broadcastHeartBeat, AIOAction.spends]

theorem spent_broadcastVote (rs : RaftState) : spent (broadcastVote rs).2 = 0 := by
  simp [spent, broadcastVote, AIOAction.spends]

theorem handled_voteRsp (u : Undefined) (fd : ℤ) (rs : RaftState) (rsp : RequestVoteRsp) :
    Handled [(fd, .requestVoteRsp rsp)] rs.log (dispatch u fd rs (.requestVoteRsp rsp)).1.log
      (dispatch u fd rs (.requestVoteRsp rsp)).2 := by
  rw [(untouched_voteRsp u fd rs rsp).log]
  simp only [dispatch]
  split_ifs
  · exact (Handled.close (.refl _)).andThen (spent_beats u _)
  · exact .close (.refl _)

/-- The commit loop, if the message makes the server run it, stays in the log. -/
def CommitsInLog (u : Undefined) (rs : RaftState) (msg : WrapperMessage) : Prop :=
  ∀ rsp, msg = .appendEntriesRsp rsp → decides u rs rsp = true →
    ∀ i ∈ indices (rs.commitIndex + 1) rs.comingCommitIndex, 0 ≤ i ∧ i < rs.log.length

theorem handled_dispatch {msg : WrapperMessage} (hin : CommitsInLog u rs msg) :
    Handled [(fd, msg)] rs.log (dispatch u fd rs msg).1.log (dispatch u fd rs msg).2 := by
  cases msg with
  | intraShardReq req =>
    simp only [dispatch]
    split_ifs
    · exact handled_intraShard fd rs req
    · exact .silent (.refl _) rfl
  | crossShardReq req =>
    simp only [dispatch]
    split_ifs
    · exact handled_crossShard fd rs req
    · exact .silent (.refl _) rfl
  | appendEntriesReq req => exact handled_appendReq u fd rs req
  | appendEntriesRsp rsp => exact handled_executeRsp (hin rsp rfl)
  | requestVoteReq req => exact handled_voteReq fd rs req
  | requestVoteRsp rsp => exact handled_voteRsp u fd rs rsp
  | printBalanceReq req =>
    simp only [dispatch]
    split_ifs
    · exact .reply (.refl _) (.balance req _)
    · exact .silent (.refl _) rfl
  | printDatastoreReq req =>
    simp only [dispatch]
    split_ifs
    · exact .reply (.refl _) (.datastore req _)
    · exact .silent (.refl _) rfl
  | _ => exact .silent (.refl _) rfl

theorem handled_timeout (u : Undefined) (sv : AIOServer) :
    Handled [] sv.raftState.log (timeout u sv).1.raftState.log (timeout u sv).2 := by
  rw [(untouched_timeout u sv).log]
  refine .silent (.refl _) ?_
  unfold timeout
  split_ifs
  · rfl
  · dsimp only
    split
    · split_ifs
      · rfl
      · exact spent_broadcastVote _
    · exact spent_broadcastVote _
    · exact spent_beats u _

end

/-- The message that is read, with its connection. -/
def ServerInput.own : ServerInput → List (ℤ × WrapperMessage)
  | .timeout => []
  | .message fd msg => [(fd, msg)]

theorem commitsInLog_of_accesses {u : Undefined} {fd : ℤ} {rs : RaftState} {msg : WrapperMessage}
    (hin : (dispatchAccess u fd rs msg).all (fun a => a.InVector) = true) :
    CommitsInLog u rs msg := by
  rintro rsp rfl hdec i hi
  obtain ⟨hlead, hterm, hsucc⟩ : rs.role = .leader ∧ rsp.term = rs.currentTerm ∧
      rsp.success = true := by
    simp only [decides, Bool.and_eq_true, decide_eq_true_eq] at hdec
    exact ⟨hdec.1.1.1, hdec.1.1.2, hdec.1.2⟩
  simp only [dispatchAccess, rspAccess, hlead, hterm, hsucc, hdec, and_self, if_true,
    accessesOf, List.map_append, List.all_append, Bool.and_eq_true, List.all_map,
    List.all_eq_true, Function.comp_apply, decide_eq_true_eq] at hin
  exact hin.2 i hi

/-- Every input of a server. -/
theorem handled_input {sv : AIOServer} {x : Stimulus}
    (hin : ∀ fd msg, x.input = .message fd msg → msg.administers = false → sv.pretendFail = false →
      CommitsInLog x.undef sv.raftState msg) :
    Handled x.input.own sv.raftState.log (sv.react x).1.raftState.log (sv.react x).2 := by
  obtain ⟨input, u⟩ := x
  unfold react
  split_ifs with hrun
  · exact .silent (.refl _) rfl
  · cases input with
    | timeout => exact handled_timeout u sv
    | message fd msg =>
      by_cases hidle : msg.administers = true ∨ sv.pretendFail = true
      · dsimp only
        rw [(process_idle u fd hidle).1, (process_idle u fd hidle).2]
        exact .silent (.refl _) rfl
      · rw [not_or, Bool.not_eq_true, Bool.not_eq_true] at hidle
        obtain ⟨hadm, hp⟩ := hidle
        dsimp only
        rw [process_dispatch u fd hadm hp]
        exact handled_dispatch (hin fd msg rfl hadm hp)

theorem handled_react {sv : AIOServer} {x : Stimulus} (hin : staysInVectors sv x = true) :
    Handled x.input.own sv.raftState.log (sv.react x).1.raftState.log (sv.react x).2 := by
  refine handled_input fun fd msg hx _ hp => ?_
  simp only [staysInVectors, hx, hp, Bool.false_or, Bool.and_eq_true] at hin
  exact commitsInLog_of_accesses hin.2

end Raft2PC
