import Raft2PC.Sanity.Answers
import Raft2PC.Spec.Access
import Raft2PC.Spec.Sockets

/-! The accesses of a step are all that it reads of `log_`: where each of them is inside the
vector, the step does the same whatever stands outside. -/

namespace Raft2PC

open AIOServer AppendEntriesExecutor

variable {u v : Undefined} {rs : RaftState} {log : List LogEntry}

theorem readLog_congr {i : ℤ} (h : Access.InVector ⟨log.length, i⟩) (u v : Undefined) :
    readLog u log i = readLog v log i := by
  obtain ⟨hlo, hhi⟩ := h
  have hlt : i.toNat < log.length := by
    dsimp only at hlo hhi
    omega
  simp only [readLog, if_pos hlo, List.getElem?_eq_getElem hlt, Option.getD_some]

theorem inVector_of_accesses {idxs : List ℤ} (h : ∀ a ∈ accessesOf log idxs, a.InVector) {i : ℤ}
    (hi : i ∈ idxs) : Access.InVector ⟨log.length, i⟩ :=
  h _ (List.mem_map.mpr ⟨i, hi, rfl⟩)

theorem forall_accesses_append {as bs : List Access} (h : ∀ a ∈ as ++ bs, a.InVector) :
    (∀ a ∈ as, a.InVector) ∧ ∀ a ∈ bs, a.InVector :=
  List.forall_mem_append.mp h

/-! ### Heart beats -/

theorem heartBeat_congr {idx : Idx} (h : ∀ i ∈ rs.prevAccess idx, Access.InVector ⟨rs.log.length, i⟩) :
    heartBeat u rs idx = heartBeat v rs idx := by
  have hprev : rs.prevlogterm u idx = rs.prevlogterm v idx := by
    unfold RaftState.prevlogterm
    split_ifs with hzero
    · rfl
    · have hacc := h (rs.matched idx - 1) (by simp [RaftState.prevAccess, hzero])
      rw [readLog_congr hacc u v]
  simp only [heartBeat, hprev]

theorem broadcastHeartBeat_congr (h : ∀ a ∈ beatAccess rs, a.InVector) :
    broadcastHeartBeat u rs = broadcastHeartBeat v rs := by
  have hbeat : ∀ idx ∈ others rs,
      heartBeat u { rs with comingCommitIndex := (rs.log.length : ℤ) - 1 } idx =
        heartBeat v { rs with comingCommitIndex := (rs.log.length : ℤ) - 1 } idx := by
    intro idx hidx
    refine heartBeat_congr fun i hi => inVector_of_accesses h ?_
    exact List.mem_flatMap.mpr ⟨idx, hidx, List.mem_append_left _ hi⟩
  unfold broadcastHeartBeat
  dsimp only
  congr 2
  exact List.map_congr_left fun idx hidx => by rw [hbeat idx hidx]

/-! ### AppendEntries on a follower -/

theorem mismatch_congr {req : AppendEntriesReq}
    (h : ∀ a ∈ accessesOf rs.log (checkAccess rs req), a.InVector) :
    mismatch u rs req = mismatch v rs req := by
  unfold mismatch
  by_cases hout : (rs.log.length : ℤ) ≤ req.prevLogIndex ∨ req.prevLogIndex < 0
  · rcases hout with hhigh | hlow
    · simp [hhigh]
    · simp [not_le.mpr hlow]
  · have hacc : Access.InVector ⟨rs.log.length, req.prevLogIndex⟩ :=
      inVector_of_accesses h (by simp [checkAccess, hout])
    rw [readLog_congr hacc u v]

theorem mergeEntries_congr {es : List Entry} {pos : ℤ}
    (h : ∀ a ∈ accessesOf log (mergeAccess u log pos es), a.InVector) :
    mergeEntries u log pos es = mergeEntries v log pos es := by
  induction es generalizing pos with
  | nil => rfl
  | cons e es ih =>
    simp only [mergeEntries]
    by_cases hend : (log.length : ℤ) ≤ pos
    · rw [if_pos (Or.inl hend), if_pos (Or.inl hend)]
    · have hpos : Access.InVector ⟨log.length, pos⟩ :=
        inVector_of_accesses h (by simp [mergeAccess, hend])
      have hread := readLog_congr hpos u v
      by_cases hterm : e.term ≠ (readLog u log pos).term
      · rw [if_pos (Or.inr hterm), if_pos (Or.inr (hread ▸ hterm))]
      · have hgo : ¬((log.length : ℤ) ≤ pos ∨ e.term ≠ (readLog u log pos).term) :=
          not_or.mpr ⟨hend, hterm⟩
        rw [if_neg hgo, if_neg (hread ▸ hgo)]
        refine ih fun a ha => ?_
        obtain ⟨i, hi, rfl⟩ := List.mem_map.mp ha
        exact inVector_of_accesses h (by simp [mergeAccess, hend, hterm, hi])

theorem applyLog_congr (hlocals : u.locals = v.locals) {ci : ℤ}
    (h : ∀ a ∈ accessesOf rs.log (indices (rs.commitIndex + 1) ci), a.InVector) :
    applyLog u rs ci = applyLog v rs ci := by
  unfold applyLog
  refine List.foldl_ext _ _ _ fun tb idx hidx => ?_
  rw [readLog_congr (inVector_of_accesses h hidx) u v, applyCommand, applyCommand, hlocals]

theorem executeReq_congr (hlocals : u.locals = v.locals) {fd : ℤ} {req : AppendEntriesReq}
    (h : ∀ a ∈ reqAccess u rs req, a.InVector) :
    AppendEntriesExecutor.executeReq u fd rs req = AppendEntriesExecutor.executeReq v fd rs req := by
  unfold reqAccess at h
  by_cases hold : req.term < rs.currentTerm
  · rw [append_stale u fd hold, append_stale v fd hold]
  · rw [if_neg hold] at h
    have hle := not_lt.mp hold
    cases hmis : mismatch u rs req with
    | true =>
      simp only [hmis, if_true] at h
      rw [append_mismatched fd hle hmis, append_mismatched fd hle ((mismatch_congr h).symm.trans hmis)]
    | false =>
      simp only [hmis, Bool.false_eq_true, if_false] at h
      obtain ⟨hread, hcommit⟩ := forall_accesses_append h
      obtain ⟨hcheck, hmerge⟩ := forall_accesses_append hread
      have hlog := mergeEntries_congr (v := v) hmerge
      have hmis' := (mismatch_congr (v := v) hcheck).symm.trans hmis
      let merged : RaftState := { follow rs req.term with
        log := mergeEntries u rs.log (req.prevLogIndex + 1) req.entries }
      have hbal : applyLog u merged req.commitIndex = applyLog v merged req.commitIndex :=
        applyLog_congr hlocals hcommit
      rw [append_accepted fd hle hmis, append_accepted fd hle hmis']
      simp only [merged] at hbal
      simp only [accepted, hbal]
      simp only [follow, hlog]

/-! ### The commit loop of a leader -/

theorem commitEntries_congr (hlocals : u.locals = v.locals) {idxs : List ℤ}
    (h : ∀ i ∈ idxs, Access.InVector ⟨rs.log.length, i⟩) :
    commitEntries u rs idxs = commitEntries v rs idxs := by
  induction idxs generalizing rs with
  | nil => rfl
  | cons idx rest ih =>
    have hone : commitEntry u rs idx = commitEntry v rs idx := by
      rw [commitEntry, commitEntry, readLog_congr (h idx List.mem_cons_self) u v, hlocals]
    have hin : ∀ i ∈ rest, Access.InVector ⟨(commitEntry v rs idx).1.log.length, i⟩ := by
      intro i hi
      rw [length_commitEntry]
      exact h i (List.mem_cons_of_mem _ hi)
    simp only [commitEntries, hone, ih hin]

theorem commitLog_congr (hlocals : u.locals = v.locals)
    (h : ∀ i ∈ indices (rs.commitIndex + 1) rs.comingCommitIndex,
      Access.InVector ⟨rs.log.length, i⟩) : commitLog u rs = commitLog v rs := by
  unfold commitLog
  dsimp only
  rw [commitEntries_congr hlocals h]

theorem executeRsp_congr (hlocals : u.locals = v.locals) {fd : ℤ} {rsp : AppendEntriesRsp}
    (h : ∀ a ∈ rspAccess u rs rsp, a.InVector) :
    AppendEntriesExecutor.executeRsp u fd rs rsp = AppendEntriesExecutor.executeRsp v fd rs rsp := by
  have hsuccess : rs.role = .leader → rsp.term = rs.currentTerm → rsp.success = true →
      onSuccess u rs rsp = onSuccess v rs rsp := by
    intro hrole hterm hsucc
    rw [rspAccess, if_pos ⟨hrole, hterm, hsucc⟩] at h
    have hin := fun i hi => inVector_of_accesses h (i := i) hi
    have hcommits : commits u { rs with logGrantedNum := rs.logGrantedNum + 1 } =
        commits v { rs with logGrantedNum := rs.logGrantedNum + 1 } := by
      unfold commits
      by_cases hread : 2 ≤ rs.logGrantedNum + 1 ∧ 0 ≤ rs.comingCommitIndex
      · rw [readLog_congr (hin _ (by simp [hread])) u v]
      · rw [not_and_or] at hread
        rcases hread with hread | hread <;> simp [hread]
    have hlog : commits u { rs with logGrantedNum := rs.logGrantedNum + 1 } = true →
        commitLog u { rs with logGrantedNum := rs.logGrantedNum + 1 } =
          commitLog v { rs with logGrantedNum := rs.logGrantedNum + 1 } := by
      intro hc
      have hdec : decides u rs rsp = true := by
        rw [decides, hc]
        simp [hrole, hterm, hsucc]
      exact commitLog_congr hlocals fun i hi =>
        hin i (List.mem_append_right _ (by rw [if_pos hdec]; exact hi))
    unfold onSuccess
    dsimp only
    rw [← hcommits]
    split_ifs with hc
    · rw [hlog hc]
    · rfl
  unfold AppendEntriesExecutor.executeRsp
  by_cases hlead : rs.role = .leader ∧ rsp.term = rs.currentTerm
  · simp only [if_pos hlead]
    by_cases hsucc : rsp.success = true
    · simp only [hsucc, if_true, hsuccess hlead.1 hlead.2 hsucc]
    · simp only [hsucc, Bool.false_eq_true, if_false]
  · simp only [if_neg hlead]

/-! ### Steps -/

theorem printDatastore_congr {fd : ℤ} {req : PrintDatastoreReq}
    (h : ∀ a ∈ accessesOf rs.log (indices 0 rs.commitIndex), a.InVector) :
    PrintDatastoreExecutor.executeReq u fd rs req = PrintDatastoreExecutor.executeReq v fd rs req := by
  have hentries : PrintDatastoreExecutor.entries u rs = PrintDatastoreExecutor.entries v rs :=
    List.map_congr_left fun i hi => by rw [readLog_congr (inVector_of_accesses h hi) u v]
  rw [PrintDatastoreExecutor.executeReq, PrintDatastoreExecutor.executeReq, hentries]

theorem dispatch_congr (hlocals : u.locals = v.locals) {fd : ℤ} {m : WrapperMessage}
    (h : ∀ a ∈ dispatchAccess u fd rs m, a.InVector) : dispatch u fd rs m = dispatch v fd rs m := by
  cases m with
  | appendEntriesReq req => exact executeReq_congr hlocals h
  | appendEntriesRsp rsp => exact executeRsp_congr hlocals h
  | requestVoteRsp rsp =>
    simp only [dispatchAccess] at h
    simp only [dispatch]
    split_ifs with hrole
    · rw [if_pos hrole] at h
      rw [broadcastHeartBeat_congr h]
    · rfl
  | printDatastoreReq req =>
    simp only [dispatchAccess] at h
    simp only [dispatch]
    split_ifs with hme
    · rw [if_pos hme] at h
      exact printDatastore_congr h
    · rfl
  | _ => rfl

theorem process_congr (hlocals : u.locals = v.locals) {fd : ℤ} {sv : AIOServer} {m : WrapperMessage}
    (h : sv.pretendFail = false → ∀ a ∈ dispatchAccess u fd sv.raftState m, a.InVector) :
    process u fd sv m = process v fd sv m := by
  cases hp : sv.pretendFail with
  | true => cases m <;> simp [process, hp]
  | false =>
    have hd := dispatch_congr hlocals (h hp)
    cases m with
    | exit | resume | stop => rfl
    | _ => simp only [process, hp, Bool.false_eq_true, if_false, hd]

theorem timeout_congr {sv : AIOServer} (h : ∀ a ∈ sv.timeoutAccess, a.InVector) :
    sv.timeout u = sv.timeout v := by
  unfold timeout
  cases hp : sv.pretendFail with
  | true => rfl
  | false =>
    cases hrole : sv.raftState.role with
    | follower | candidate => simp only [hrole]
    | leader =>
      rw [timeoutAccess, if_pos ⟨hp, hrole⟩] at h
      simp only [hrole, broadcastHeartBeat_congr (v := v) h]

/-- A step whose accesses are all inside the vector does not see what stands outside. -/
theorem Cluster.step_congr (s : Cluster) (action : Action) (hlocals : u.locals = v.locals)
    (h : ∀ a ∈ s.accesses ⟨action, u⟩, a.InVector) : s.step ⟨action, u⟩ = s.step ⟨action, v⟩ := by
  have hprocess : ∀ (p : Idx) (fd : ℤ) (m : WrapperMessage),
      (∀ a ∈ if (s.servers p).pretendFail then [] else dispatchAccess u fd (s.raft p) m, a.InVector) →
        process u fd (s.servers p) m = process v fd (s.servers p) m := by
    intro p fd m hin
    refine process_congr hlocals fun hp a ha => hin a ?_
    rw [if_neg (by simp [hp])]
    exact ha
  cases action with
  | lose k => rfl
  | timeout p => simp only [step, timeout_congr (v := v) h]
  | request p fd m => simp only [step, hprocess p fd m.msg h]
  | deliver k fd =>
    simp only [accesses] at h
    simp only [step]
    cases hk : s.net[k]? with
    | none => rfl
    | some c =>
      simp only [hk] at h
      simp only [hprocess c.reader fd c.msg h]

theorem mem_rspAccess {rsp : AppendEntriesRsp} {i : ℤ} (hdec : decides u rs rsp = true)
    (hi : i ∈ indices (rs.commitIndex + 1) rs.comingCommitIndex) :
    ⟨rs.log.length, i⟩ ∈ rspAccess u rs rsp := by
  have hlead : rs.role = .leader ∧ rsp.term = rs.currentTerm ∧ rsp.success = true := by
    simp only [decides, Bool.and_eq_true, decide_eq_true_eq] at hdec
    exact ⟨hdec.1.1.1, hdec.1.1.2, hdec.1.2⟩
  rw [rspAccess, if_pos hlead, if_pos hdec]
  exact List.mem_map.mpr ⟨i, List.mem_append_right _ hi, rfl⟩

/-- The positions of the commit loop are among the accesses. -/
theorem mem_accesses_of_looped {s : Cluster} {e : Event} {p : Idx} {i : ℤ}
    (hi : i ∈ looped s e p) : ⟨(s.raft p).log.length, i⟩ ∈ s.accesses e := by
  unfold looped at hi
  split at hi
  · rename_i k fd hact
    split at hi
    · rename_i src dst req rsp hk
      split_ifs at hi with hloop
      · obtain ⟨rfl, hp, hdec⟩ := hloop
        have hrun : (s.servers src).pretendFail = false := by simpa using hp
        simp only [Cluster.accesses, hact, hk, Connection.reader, hrun, Bool.false_eq_true, if_false,
          Connection.msg]
        exact mem_rspAccess hdec hi
      · cases hi
    · cases hi
  · cases hi

end Raft2PC
