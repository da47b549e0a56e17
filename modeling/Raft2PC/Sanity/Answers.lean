import Raft2PC.Sanity.Locks
import Raft2PC.Spec.Sockets

/-! Pending connections. A log entry carries at most one, no two entries carry the same, and
what is written to it in the commit loop takes it out of the log. -/

namespace Raft2PC

open AIOServer AppendEntriesExecutor

@[simp] theorem answersOn_nil (fd : ℤ) : answersOn fd [] = [] := rfl

theorem answersOn_append (fd : ℤ) (as bs : List AIOAction) :
    answersOn fd (as ++ bs) = answersOn fd as ++ answersOn fd bs := List.filterMap_append

theorem answersOn_write (fd fd' : ℤ) (msg : WrapperMessage) :
    answersOn fd [.writeMsg fd' msg] = if fd' = fd then [msg] else [] := by
  unfold answersOn
  split_ifs with h <;> simp [h]

@[simp] theorem answersOn_close (fd fd' : ℤ) : answersOn fd [.close fd'] = [] := rfl

@[simp] theorem answersOn_updateDataShard (fd : ℤ) : answersOn fd [.updateDataShard] = [] := rfl

/-- No two entries wait on one connection. -/
def OwnFds (L : List LogEntry) : Prop :=
  ∀ (i j : ℕ) (x y : LogEntry), L[i]? = some x → L[j]? = some y → x.reqFd = y.reqFd →
    x.reqFd ≠ -1 → i = j

/-- From `L` to `L'` the positions `idxs` may have been answered: each connection at most
once, and then it is not pending any more. -/
structure Replies (L L' : List LogEntry) (acts : List AIOAction) (idxs : List ℤ) : Prop where
  kept : ∀ (i : ℕ) (x : LogEntry), L'[i]? = some x → x.reqFd ≠ -1 →
    L[i]? = some x ∧ answersOn x.reqFd acts = []
  once : ∀ fd, (answersOn fd acts).length ≤ 1
  origin : ∀ fd, ∀ msg ∈ answersOn fd acts,
    ∃ (i : ℕ) (x : LogEntry), L[i]? = some x ∧ x.reqFd = fd ∧ fd ≠ -1 ∧ (i : ℤ) ∈ idxs

namespace Replies

variable {L L' L₁ L₂ : List LogEntry} {acts acts₁ acts₂ : List AIOAction} {idxs idxs₁ idxs₂ : List ℤ}

theorem silent (L : List LogEntry) (idxs : List ℤ) (hno : ∀ fd, answersOn fd acts = []) :
    Replies L L acts idxs where
  kept i x hx _ := ⟨hx, hno _⟩
  once fd := by
    rw [hno]
    exact Nat.zero_le _
  origin fd msg hmsg := by
    rw [hno] at hmsg
    cases hmsg

theorem ownFds (h : Replies L L' acts idxs) (hL : OwnFds L) : OwnFds L' := by
  intro i j x y hx hy hxy hne
  exact hL i j x y (h.kept i x hx hne).1 (h.kept j y hy (hxy ▸ hne)).1 hxy hne

theorem trans (h₁ : Replies L L₁ acts₁ idxs₁) (h₂ : Replies L₁ L₂ acts₂ idxs₂) :
    Replies L L₂ (acts₁ ++ acts₂) (idxs₁ ++ idxs₂) where
  kept i x hx hne := by
    obtain ⟨hx₁, hno₂⟩ := h₂.kept i x hx hne
    obtain ⟨hx₀, hno₁⟩ := h₁.kept i x hx₁ hne
    exact ⟨hx₀, by rw [answersOn_append, hno₁, hno₂, List.append_nil]⟩
  once fd := by
    rw [answersOn_append, List.length_append]
    cases hans : answersOn fd acts₂ with
    | nil => simpa using h₁.once fd
    | cons msg rest =>
      -- an answer of the second part finds the connection pending, so the first gave none
      obtain ⟨i, x, hx, rfl, hne, -⟩ := h₂.origin fd msg (by rw [hans]; exact List.mem_cons_self)
      have honce := h₂.once x.reqFd
      rw [hans] at honce
      rw [(h₁.kept i x hx hne).2]
      simpa using honce
  origin fd msg hmsg := by
    rw [answersOn_append] at hmsg
    rcases List.mem_append.mp hmsg with hmsg | hmsg
    · obtain ⟨i, x, hx, hfd, hne, hi⟩ := h₁.origin fd msg hmsg
      exact ⟨i, x, hx, hfd, hne, List.mem_append_left _ hi⟩
    · obtain ⟨i, x, hx, hfd, hne, hi⟩ := h₂.origin fd msg hmsg
      exact ⟨i, x, (h₁.kept i x hx (hfd ▸ hne)).1, hfd, hne, List.mem_append_right _ hi⟩

/-- One position is answered and its connection forgotten. -/
theorem answer (hL : OwnFds L) {i : ℕ} (hi : i < L.length) (hne : L[i].reqFd ≠ -1)
    (msg : WrapperMessage) :
    Replies L (L.modify i fun e => { e with reqFd := -1 }) [.writeMsg L[i].reqFd msg] [i] where
  kept j x hx hne' := by
    rw [List.getElem?_modify] at hx
    cases hj : L[j]? with
    | none =>
      rw [hj] at hx
      cases hx
    | some y =>
      rw [hj] at hx
      have hij : i ≠ j := by
        rintro rfl
        rw [Option.map_eq_map, Option.map_some, if_pos rfl] at hx
        obtain rfl := Option.some.inj hx
        exact hne' rfl
      rw [Option.map_eq_map, Option.map_some, if_neg hij] at hx
      obtain rfl := Option.some.inj hx
      refine ⟨rfl, ?_⟩
      rw [answersOn_write, if_neg]
      exact fun hfd => hij (hL i j L[i] y (List.getElem?_eq_getElem hi) hj hfd hne)
  once fd := by
    rw [answersOn_write]
    split_ifs <;> simp
  origin fd msg' hmsg := by
    rw [answersOn_write] at hmsg
    split_ifs at hmsg with hfd
    · exact ⟨i, L[i], List.getElem?_eq_getElem hi, hfd, hfd ▸ hne, List.mem_singleton_self _⟩
    · cases hmsg

end Replies

/-! ### The commit loop -/

theorem replies_commitEntry (u : Undefined) {rs : RaftState} (hL : OwnFds rs.log) {i : ℕ}
    (hi : i < rs.log.length) :
    Replies rs.log (commitEntry u rs i).1.log (commitEntry u rs i).2 [i] := by
  have hread := readLog_of_lt (u := u) hi
  unfold commitEntry
  dsimp only
  split_ifs with hcross hprep hfd hfd
  · rw [hread] at hfd ⊢
    exact .answer hL hi hfd _
  · exact .silent _ _ fun _ => rfl
  · exact .silent _ _ fun _ => rfl
  · rw [hread] at hfd ⊢
    exact .answer hL hi hfd _
  · exact .silent _ _ fun _ => rfl

theorem length_commitEntry (u : Undefined) (rs : RaftState) (idx : ℤ) :
    (commitEntry u rs idx).1.log.length = rs.log.length := by
  have hlen := congrArg List.length (same_commitEntry u rs idx).2
  simpa using hlen

theorem replies_commitEntries (u : Undefined) {rs : RaftState} (hL : OwnFds rs.log)
    {idxs : List ℤ} (hin : ∀ i ∈ idxs, 0 ≤ i ∧ i < rs.log.length) :
    Replies rs.log (commitEntries u rs idxs).1.log (commitEntries u rs idxs).2 idxs := by
  induction idxs generalizing rs with
  | nil => exact .silent _ _ fun _ => rfl
  | cons idx rest ih =>
    obtain ⟨hlo, hhi⟩ := hin idx List.mem_cons_self
    obtain ⟨i, rfl⟩ := Int.eq_ofNat_of_zero_le hlo
    have hfirst := replies_commitEntry u hL (i := i) (by omega)
    have hrest := ih (hfirst.ownFds hL) fun j hj => by
      rw [length_commitEntry]
      exact hin j (List.mem_cons_of_mem _ hj)
    exact hfirst.trans hrest

/-- A response that commits runs the loop, then writes the shard to disk if it moved. -/
theorem commits_executeRsp {u : Undefined} (fd : ℤ) {rs : RaftState} {rsp : AppendEntriesRsp}
    (hdec : decides u rs rsp = true) :
    let after := commitEntries u { rs with logGrantedNum := rs.logGrantedNum + 1 }
      (indices (rs.commitIndex + 1) rs.comingCommitIndex)
    (executeRsp u fd rs rsp).1.log = after.1.log ∧ ∃ shard, (∀ fd', answersOn fd' shard = []) ∧
      (executeRsp u fd rs rsp).2 = after.2 ++ shard := by
  refine ⟨(executeRsp_decided fd hdec).1, ?_⟩
  simp only [decides, Bool.and_eq_true, decide_eq_true_eq] at hdec
  obtain ⟨⟨⟨hrole, hterm⟩, hsucc⟩, hc⟩ := hdec
  simp only [executeRsp]
  rw [if_pos (And.intro hrole hterm), if_pos hsucc]
  simp only [onSuccess, if_pos hc, commitLog]
  split_ifs
  · exact ⟨[.updateDataShard, .close fd], fun _ => rfl, List.append_assoc _ _ _⟩
  · exact ⟨[.close fd], fun _ => rfl, rfl⟩

theorem replies_executeRsp {u : Undefined} (fd : ℤ) {rs : RaftState} {rsp : AppendEntriesRsp}
    (hL : OwnFds rs.log) (hdec : decides u rs rsp = true)
    (hin : ∀ i ∈ indices (rs.commitIndex + 1) rs.comingCommitIndex, 0 ≤ i ∧ i < rs.log.length) :
    Replies rs.log (executeRsp u fd rs rsp).1.log (executeRsp u fd rs rsp).2
      (indices (rs.commitIndex + 1) rs.comingCommitIndex) := by
  obtain ⟨hlog, shard, hsilent, hacts⟩ := commits_executeRsp fd hdec
  have hloop := @replies_commitEntries u { rs with logGrantedNum := rs.logGrantedNum + 1 } hL _ hin
  rw [hlog, hacts]
  simpa using hloop.trans (.silent _ [] hsilent)

theorem silent_executeRsp {u : Undefined} (fd : ℤ) {rs : RaftState} {rsp : AppendEntriesRsp}
    (hno : decides u rs rsp = false) (fd' : ℤ) :
    answersOn fd' (executeRsp u fd rs rsp).2 = [] := by
  simp only [executeRsp]
  rw [answersOn_append]
  split_ifs with hlead hsucc
  · have hc : commits u { rs with logGrantedNum := rs.logGrantedNum + 1 } = false := by
      simpa [decides, hlead.1, hlead.2, hsucc] using hno
    simp only [onSuccess, hc]
    rfl
  · rfl
  · rfl

/-! ### The other handlers -/

/-- A merge keeps what is pending where it is, or drops it. -/
theorem pending_mergeEntries (u : Undefined) (L : List LogEntry) (pos : ℤ) (es : List Entry)
    {i : ℕ} {x : LogEntry} (hx : (mergeEntries u L pos es)[i]? = some x) (hne : x.reqFd ≠ -1) :
    L[i]? = some x := by
  induction es generalizing pos with
  | nil => exact hx
  | cons e es ih =>
    simp only [mergeEntries] at hx
    split_ifs at hx
    · rcases lt_or_ge i (L.take pos.toNat).length with hi | hi
      · rw [List.getElem?_append_left hi] at hx
        exact Consensus.getElem?_of_isPrefix (List.take_prefix _ _) hx
      · rw [List.getElem?_append_right hi] at hx
        obtain ⟨y, -, rfl⟩ := List.mem_map.mp (List.mem_of_getElem? hx)
        exact absurd rfl hne
    · exact ih _ hx

/-- What a server writes on the connection it reads, other than SUCCESS and YES. -/
def Refuses (fd : ℤ) (acts : List AIOAction) : Prop :=
  ∃ msg, isPositive msg = false ∧ ∀ fd', answersOn fd' acts = if fd = fd' then [msg] else []

theorem refuses_write (fd : ℤ) {msg : WrapperMessage} (hmsg : isPositive msg = false) :
    Refuses fd [.writeMsg fd msg] :=
  ⟨msg, hmsg, fun fd' => answersOn_write fd' fd msg⟩

theorem refuses_voteReq (fd : ℤ) (rs : RaftState) (req : RequestVoteReq) :
    Refuses fd (RequestVoteExecutor.executeReq fd rs req).2 := by
  cases hg : grants rs req with
  | true =>
    rw [vote_granted fd hg]
    exact refuses_write fd rfl
  | false =>
    rw [vote_ungranted fd hg]
    exact refuses_write fd rfl

theorem refuses_appendReq (u : Undefined) (fd : ℤ) (rs : RaftState) (req : AppendEntriesReq) :
    Refuses fd (executeReq u fd rs req).2 := by
  by_cases hlt : req.term < rs.currentTerm
  · rw [append_stale u fd hlt]
    exact refuses_write fd rfl
  · cases hmis : mismatch u rs req with
    | true =>
      rw [append_mismatched fd (not_lt.mp hlt) hmis]
      exact refuses_write fd rfl
    | false =>
      rw [append_accepted fd (not_lt.mp hlt) hmis]
      exact refuses_write fd rfl

theorem silent_beats (u : Undefined) (rs : RaftState) (fd' : ℤ) :
    answersOn fd' (broadcastHeartBeat u rs).2 = [] := by
  apply List.filterMap_eq_nil_iff.mpr
  intro a ha
  rcases List.mem_cons.mp ha with rfl | ha
  · rfl
  · obtain ⟨q, -, rfl⟩ := List.mem_map.mp ha
    rfl

theorem silent_broadcastVote (rs : RaftState) (fd' : ℤ) :
    answersOn fd' (broadcastVote rs).2 = [] := by
  apply List.filterMap_eq_nil_iff.mpr
  intro a ha
  rcases List.mem_cons.mp ha with rfl | ha
  · rfl
  · obtain ⟨q, -, rfl⟩ := List.mem_map.mp ha
    rfl

theorem silent_voteRsp (u : Undefined) (fd : ℤ) (rs : RaftState) (rsp : RequestVoteRsp)
    (fd' : ℤ) : answersOn fd' (dispatch u fd rs (.requestVoteRsp rsp)).2 = [] := by
  simp only [dispatch]
  split_ifs
  · rw [answersOn_append, silent_beats]
    rfl
  · rfl

theorem silent_timeout (u : Undefined) (sv : AIOServer) (fd' : ℤ) :
    answersOn fd' (timeout u sv).2 = [] := by
  unfold timeout
  split_ifs
  · rfl
  · dsimp only
    split
    · split_ifs
      · rfl
      · exact silent_broadcastVote _ _
    · exact silent_broadcastVote _ _
    · exact silent_beats _ _ _

/-- The entry created by a request waits on the connection of the request, or on none. -/
theorem created_fd {fd : ℤ} {rs : RaftState} {m : ClientMsg} {x : LogEntry}
    (hx : created fd rs m = some x) (hne : x.reqFd ≠ -1) : x.reqFd = fd := by
  cases admission_of_created hx with
  | intra | prepare => rfl
  | commit | abort => exact absurd rfl hne

theorem answers_intraShard (fd : ℤ) (rs : RaftState) (req : IntraShardReq) :
    (IntraShardExecutor.executeReq fd rs req).2 = [] ∨
      Refuses fd (IntraShardExecutor.executeReq fd rs req).2 ∧
        created fd rs (.intraShard req) = none := by
  simp only [IntraShardExecutor.executeReq, seen_intraConflict]
  by_cases hno : (IntraShardExecutor.conflict rs req).1 = true ∨
      IntraShardExecutor.seen rs req = true
  · refine Or.inr ⟨?_, ?_⟩
    · rcases hno with hno | hno
      · rw [if_pos hno]
        exact refuses_write fd rfl
      · rw [if_pos hno, ite_self]
        exact refuses_write fd rfl
    · simp only [created]
      rw [if_neg]
      rintro ⟨-, hconf, hseen⟩
      exact hno.elim hconf hseen
  · rw [not_or] at hno
    rw [if_neg hno.1, if_neg hno.2]
    exact Or.inl rfl

theorem answers_crossShard (fd : ℤ) (rs : RaftState) (req : CrossShardReq) :
    (CrossShardExecutor.executeReq fd rs req).2 = [] ∨
      Refuses fd (CrossShardExecutor.executeReq fd rs req).2 ∧
        ∀ x, created fd rs (.crossShard req) = some x → x.reqFd = -1 := by
  cases hphase : req.phase with
  | prepare =>
    simp only [CrossShardExecutor.executeReq, hphase, CrossShardExecutor.prepare,
      seen_crossConflict]
    by_cases hno : (CrossShardExecutor.conflict rs req).1 = true ∨
        CrossShardExecutor.prepareSeen rs req = true
    · refine Or.inr ⟨?_, fun x hx => ?_⟩
      · rcases hno with hno | hno
        · rw [if_pos hno]
          exact refuses_write fd rfl
        · rw [if_pos hno, ite_self]
          exact refuses_write fd rfl
      · simp [created, hphase, hno] at hx
    · rw [not_or] at hno
      rw [if_neg hno.1, if_neg hno.2]
      exact Or.inl rfl
  | commit =>
    refine Or.inr ⟨?_, fun x hx => ?_⟩
    · simp only [CrossShardExecutor.executeReq, hphase, CrossShardExecutor.commit]
      split_ifs <;> exact refuses_write fd rfl
    · simp only [created, hphase] at hx
      split_ifs at hx
      cases hx
      rfl
  | abort =>
    refine Or.inr ⟨?_, fun x hx => ?_⟩
    · simp only [CrossShardExecutor.executeReq, hphase, CrossShardExecutor.abort]
      split_ifs <;> exact refuses_write fd rfl
    · simp only [created, hphase] at hx
      split_ifs at hx
      cases hx
      rfl

/-- A request whose entry waits on its connection is not answered at once; any other is
refused, acknowledged or dropped. -/
theorem answers_client (u : Undefined) (fd : ℤ) (sv : AIOServer) (m : ClientMsg) :
    (∀ fd', answersOn fd' (process u fd sv m.msg).2 = []) ∨
      Refuses fd (process u fd sv m.msg).2 ∧
        ∀ x, created fd sv.raftState m = some x → x.reqFd = -1 := by
  cases m with
  | stop m | resume m => exact Or.inl fun _ => rfl
  | printBalance req | printDatastore req =>
    simp only [ClientMsg.msg, process, dispatch]
    split_ifs
    · exact Or.inl fun _ => rfl
    · exact Or.inr ⟨refuses_write fd rfl, fun x hx => by cases hx⟩
    · exact Or.inl fun _ => rfl
  | intraShard req =>
    simp only [ClientMsg.msg, process, dispatch]
    split_ifs
    · exact Or.inl fun _ => rfl
    · rcases answers_intraShard fd sv.raftState req with hno | ⟨hyes, hcreated⟩
      · exact Or.inl fun _ => by rw [hno]; rfl
      · exact Or.inr ⟨hyes, fun x hx => by rw [hcreated] at hx; cases hx⟩
    · exact Or.inl fun _ => rfl
  | crossShard req =>
    simp only [ClientMsg.msg, process, dispatch]
    split_ifs
    · exact Or.inl fun _ => rfl
    · rcases answers_crossShard fd sv.raftState req with hno | hyes
      · exact Or.inl fun _ => by rw [hno]; rfl
      · exact Or.inr hyes
    · exact Or.inl fun _ => rfl

end Raft2PC
