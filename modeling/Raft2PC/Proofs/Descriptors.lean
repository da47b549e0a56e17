import Raft2PC.Sanity.Rounds
import Raft2PC.Spec.Wire

/-! Who owns a descriptor. At any time the connections named by pending requests and by entries
of the log are open and all different, so that the loop closes only what is open and nobody
else names; what nobody names is never closed. -/

namespace Raft2PC

open EventLoop Handles

variable {proto : Protobuf} {s : Process} {c : Completion} {cs : List Completion}

/-- In a run every descriptor in use has one owner, and no round closes one that is closed. -/
structure OwnedAlong (proto : Protobuf) (s : Process) (cs : List Completion) : Prop where
  holds : ∀ past, past <+: cs → (s.run proto past).files.Holds (s.run proto past).held
  closes : ∀ past c, past ++ [c] <+: cs →
    (s.run proto past).files.Closes ((s.run proto past).ops proto c)

theorem Process.ne_bad (s : Process) {fd : ℤ} {n : ℕ} (hn : s.files.file fd = some n) :
    fd ≠ -1 := by
  rintro rfl
  rw [s.bad] at hn
  cases hn

/-- The connections that a round neither closes nor opens. -/
structure Keeps (s : Process) (c : Completion) (P : List IORequest) (L : List LogEntry)
    (acts : List AIOAction) (ops : List (Op ℤ)) (rest : Multiset ℤ) : Prop where
  had : closed ops + rest ≤ s.held
  has : inFlight P + pendingFds L = handedOut ops + rest
  others : inFlight (s.pending.eraseIdx c.k) ≤ rest
  entries : pendingFds L ≤ rest
  written : wrote acts ≤ rest

theorem inFlight_eraseIdx_le (rs : List IORequest) (k : ℕ) :
    inFlight (rs.eraseIdx k) ≤ inFlight rs :=
  Multiset.coe_le.mpr ((((List.eraseIdx_sublist rs k).filterMap _).filter _).subperm)

theorem Keeps.of_nil {P : List IORequest} {L : List LogEntry}
    (h : inFlight P + pendingFds L ≤ s.held)
    (hothers : inFlight (s.pending.eraseIdx c.k) ≤ inFlight P) :
    Keeps s c P L [] [] (inFlight P + pendingFds L) where
  had := by rwa [closed_nil, zero_add]
  has := by rw [handedOut_nil, zero_add]
  others := hothers.trans (Multiset.le_add_right _ _)
  entries := Multiset.le_add_left _ _
  written := Multiset.zero_le _

theorem held_erase {k : ℕ} {r : IORequest} (hk : s.pending[k]? = some r) :
    s.held = inFlight [r] + (inFlight (s.pending.eraseIdx k) + pendingFds s.log) := by
  rw [Process.held, inFlight_erase hk, add_assoc]

theorem spent_le {own : List (ℤ × WrapperMessage)} {L : List LogEntry} {acts : List AIOAction}
    {k : ℕ} {r : IORequest} (hk : s.pending[k]? = some r) (hh : Handled own s.log L acts)
    (hown : ↑(own.map Prod.fst) = inFlight [r]) :
    spent acts + (inFlight (s.pending.eraseIdx k) + pendingFds L) ≤ s.held := by
  have hspent := hh.spent
  rw [hown] at hspent
  rw [held_erase hk, add_left_comm, add_left_comm (inFlight [r])]
  exact add_le_add_right hspent _

theorem Keeps.of_handled (proto : Protobuf) {L : List LogEntry} {acts : List AIOAction} {P : List IORequest}
    {socket : Peer → ℤ}
    (hle : spent acts + (inFlight (s.pending.eraseIdx c.k) + pendingFds L) ≤ s.held)
    (hP : inFlight P = inFlight (s.pending.eraseIdx c.k) +
      inFlight (acts.filterMap (AIOAction.submit proto socket))) :
    Keeps s c P L acts (calls socket acts)
      (wrote acts + (inFlight (s.pending.eraseIdx c.k) + pendingFds L)) where
  had := by
    rw [← add_assoc]
    exact (add_le_add_left (closed_wrote_le socket acts) _).trans hle
  has := by
    rw [hP, inFlight_submit, add_comm (inFlight (s.pending.eraseIdx c.k)), add_assoc, add_assoc]
  others := (Multiset.le_add_right _ _).trans (Multiset.le_add_left _ _)
  entries := (Multiset.le_add_left _ _).trans (Multiset.le_add_left _ _)
  written := Multiset.le_add_right _ _

theorem Round.keeps {P : List IORequest} {L : List LogEntry} {acts : List AIOAction}
    {ops : List (Op ℤ)} {arrival : List (Carried WrapperMessage)}
    {delivery : List (Carried (List UInt8))}
    (h : Round proto s c P L acts ops arrival delivery) : ∃ rest, Keeps s c P L acts ops rest := by
  have herase := inFlight_eraseIdx_le s.pending c.k
  have happend : ∀ rs, inFlight (s.pending.eraseIdx c.k) ≤ inFlight (s.pending.eraseIdx c.k ++ rs) :=
    fun rs => by
      rw [inFlight_append]
      exact Multiset.le_add_right _ _
  cases h with
  | idle => exact ⟨_, .of_nil le_rfl herase⟩
  | failed => exact ⟨_, .of_nil (add_le_add_left herase _) le_rfl⟩
  | timed hk hh =>
    refine ⟨_, .of_handled proto (spent_le hk hh rfl) ?_⟩
    rw [inFlight_append, inFlight_append, inFlight_none rfl, add_zero]
  | read hk hn hh =>
    refine ⟨_, .of_handled proto (spent_le hk hh ?_) (inFlight_append _ _)⟩
    rw [inFlight_single rfl (s.ne_bad hn)]
    rfl
  | accepted hk hres =>
    refine ⟨inFlight (s.pending.eraseIdx c.k) + pendingFds s.log, ?_, ?_, Multiset.le_add_right _ _,
      Multiset.le_add_left _ _, Multiset.zero_le _⟩
    · rw [closed_grant, closed_nil, zero_add]
      exact add_le_add_left herase _
    · have hnew : inFlight [.accept, .read c.res] = {c.res} :=
        inFlight_single (r := .read c.res) rfl hres
      rw [inFlight_append, hnew, handedOut_grant, handedOut_nil, Multiset.cons_zero,
        add_comm (inFlight _), add_assoc]
  | connected hk =>
    refine ⟨_, .of_nil (le_of_eq ?_) (happend _)⟩
    rw [inFlight_append, held_erase hk, add_comm (inFlight _), add_assoc]
    rfl
  | asked hk hn =>
    refine ⟨_, .of_nil (le_of_eq ?_) (happend _)⟩
    rw [inFlight_append, held_erase hk, add_comm (inFlight _), add_assoc]
    rfl
  | told hk hn =>
    refine ⟨inFlight (s.pending.eraseIdx c.k) + pendingFds s.log, ?_, ?_, Multiset.le_add_right _ _,
      Multiset.le_add_left _ _, Multiset.zero_le _⟩
    · rw [held_erase hk, inFlight_single rfl (s.ne_bad hn)]
      exact le_rfl
    · rw [handedOut_close, handedOut_nil, zero_add]

/-- One round: what is held is open, and held once. -/
theorem holds_step (hH : s.files.Holds s.held) (hkernel : s.Kernel proto c)
    (hin : ∀ x ∈ taken proto s.loop c, staysInVectors s.loop.server x = true) :
    (s.step proto c).files.Holds (s.step proto c).held ∧ s.files.Closes (s.ops proto c) := by
  obtain ⟨rest, hkeeps⟩ := (round_step hkernel hin).keeps
  obtain ⟨hend, hcloses⟩ := (hH.mono hkeeps.had).after hkernel.grants
  refine ⟨?_, hcloses⟩
  rw [Process.held, hkeeps.has]
  exact hend

/-! ### Runs -/

theorem Process.Orderly.left {past more : List Completion} (h : s.Orderly proto (past ++ more)) :
    s.Orderly proto past := by
  induction past generalizing s with
  | nil => trivial
  | cons c past ih => exact ⟨h.1, ih h.2⟩

theorem Process.Orderly.right {past more : List Completion} (h : s.Orderly proto (past ++ more)) :
    (s.run proto past).Orderly proto more := by
  induction past generalizing s with
  | nil => exact h
  | cons c past ih => exact ih h.2

theorem holds_run (hH : s.files.Holds s.held) (h : s.Orderly proto cs) :
    (s.run proto cs).files.Holds (s.run proto cs).held := by
  induction cs generalizing s with
  | nil => exact hH
  | cons c cs ih => exact ih (holds_step hH h.1.1 h.1.2).1 h.2

theorem holds_start {server : AIOServer} {files : Registry ℤ} (bad : files.file (-1) = none)
    (hlog : server.raftState.log = []) :
    (Process.start server files bad).files.Holds (Process.start server files bad).held := by
  have hnone : (Process.start server files bad).held = 0 := by
    simp [Process.held, Process.pending, Process.log, Process.start, EventLoop.start, hlog,
      inFlight, pendingFds, IORequest.fd]
  rw [hnone]
  exact ⟨Multiset.nodup_zero, fun fd hfd => absurd hfd (Multiset.notMem_zero fd)⟩

/-- From the start on, whatever peers and kernel do, every descriptor that a pending request or
an entry names is open and named once, and `close` is only called on open ones. -/
theorem descriptors_owned (proto : Protobuf) (clusterId serverId : ℤ) (shard : Table ℤ)
    (files : Registry ℤ) (bad : files.file (-1) = none) (cs : List Completion)
    (h : (Process.start (.new clusterId serverId shard) files bad).Orderly proto cs) :
    OwnedAlong proto (.start (.new clusterId serverId shard) files bad) cs := by
  have hstart := holds_start bad (rfl : (AIOServer.new clusterId serverId shard).raftState.log = [])
  refine ⟨?_, ?_⟩
  · rintro past ⟨rest, rfl⟩
    exact holds_run hstart h.left
  · rintro past c ⟨rest, rfl⟩
    have hnext := h.left.right
    exact (holds_step (holds_run hstart h.left.left) hnext.1.1 hnext.1.2).2

def completion (k : ℕ) (res : ℤ) (bytes : List UInt8) : Completion where
  k := k
  res := res
  bytes := bytes
  socket _ := -1
  undef := .zero

/-- Two clients one after the other ask for a balance; both connections get the number 5. -/
def askTwice : List Completion :=
  let ask := wire.serialize (.printBalanceReq ⟨0, 0, 100⟩)
  [completion 0 5 [], completion 2 ask.length ask, completion 2 15 [],
    completion 1 5 [], completion 2 ask.length ask, completion 2 15 []]

theorem descriptors_owned_twice :
    OwnedAlong wire (.start (.new 0 0 purse) .empty rfl) askTwice :=
  descriptors_owned wire 0 0 purse .empty rfl askTwice (by decide)

/-! ### What nobody names -/

theorem forgotten_step (hkernel : s.Kernel proto c)
    (hin : ∀ x ∈ taken proto s.loop c, staysInVectors s.loop.server x = true) {fd : ℤ} {n : ℕ}
    (hopen : s.files.file fd = some n) (hforgot : fd ∉ s.held) :
    (s.step proto c).files.file fd = some n ∧ fd ∉ (s.step proto c).held := by
  obtain ⟨rest, hkeeps⟩ := (round_step hkernel hin).keeps
  have hclosed : fd ∉ closed (s.ops proto c) := fun h =>
    hforgot (Multiset.mem_of_le hkeeps.had (Multiset.mem_add.mpr (Or.inl h)))
  have hrest : fd ∉ rest := fun h =>
    hforgot (Multiset.mem_of_le hkeeps.had (Multiset.mem_add.mpr (Or.inr h)))
  refine ⟨Registry.file_after hkernel.grants hopen hclosed, ?_⟩
  rw [Process.held, hkeeps.has, Multiset.mem_add, not_or]
  refine ⟨Registry.notMem_handedOut hkernel.grants ?_ hclosed, hrest⟩
  rw [hopen]
  exact Option.some_ne_none n

theorem forgotten_run (h : s.Orderly proto cs) {fd : ℤ} {n : ℕ}
    (hopen : s.files.file fd = some n) (hforgot : fd ∉ s.held) :
    (s.run proto cs).files.file fd = some n := by
  induction cs generalizing s with
  | nil => exact hopen
  | cons c cs ih =>
    obtain ⟨hopen', hforgot'⟩ := forgotten_step h.1.1 h.1.2 hopen hforgot
    exact ih h.2 hopen' hforgot'

theorem failed_forgotten (proto : Protobuf) (hH : s.files.Holds s.held) {r : IORequest} (hr : s.completes c = some r)
    (hskip : skips r c.res = true) {fd : ℤ} (hfd : r.fd = some fd) (hne : fd ≠ -1) :
    (s.step proto c).files = s.files ∧ fd ∉ (s.step proto c).held := by
  have htaken : taken proto s.loop c = none := by
    rw [taken_eq proto hr]
    simp [input, hskip]
  have hacts : s.acts proto c = [] := by
    rw [Process.acts, htaken]
    rfl
  have hops : s.ops proto c = [] := by
    simp [Process.ops, hacts, hr, loopOps, hskip]
  have hpending : (s.step proto c).pending = s.pending.eraseIdx c.k := by
    simp [pending_step hr, hacts, EventLoop.follow, hskip]
  have hlog : (s.step proto c).log = s.log := by
    rw [log_step hr, htaken]
    rfl
  have hfiles : (s.step proto c).files = s.files.after (s.ops proto c) := rfl
  refine ⟨by rw [hfiles, hops]; rfl, ?_⟩
  have hnodup := hH.nodup
  rw [held_erase (completes_eq hr).2, inFlight_single hfd hne, Multiset.singleton_add,
    Multiset.nodup_cons] at hnodup
  rw [Process.held, hpending, hlog]
  exact hnodup.1

theorem Process.run_append (s : Process) (past more : List Completion) :
    s.run proto (past ++ more) = (s.run proto past).run proto more := List.foldl_append

/-- A connection that no request and no entry names any more is never closed, and one whose
I/O fails is such a connection from then on. -/
structure NeverClosed (proto : Protobuf) (s : Process) (cs : List Completion) : Prop where
  forgotten : ∀ past more, past ++ more = cs → ∀ fd n, (s.run proto past).files.file fd = some n →
    fd ∉ (s.run proto past).held → (s.run proto cs).files.file fd = some n
  failed : ∀ past c more, past ++ c :: more = cs → ∀ r fd n,
    (s.run proto past).completes c = some r → skips r c.res = true → r.fd = some fd →
    (s.run proto past).files.file fd = some n → (s.run proto cs).files.file fd = some n

theorem failed_stays_open (proto : Protobuf) (clusterId serverId : ℤ) (shard : Table ℤ)
    (files : Registry ℤ) (bad : files.file (-1) = none) (cs : List Completion)
    (h : (Process.start (.new clusterId serverId shard) files bad).Orderly proto cs) :
    NeverClosed proto (.start (.new clusterId serverId shard) files bad) cs := by
  have hstart := holds_start bad (rfl : (AIOServer.new clusterId serverId shard).raftState.log = [])
  refine ⟨?_, ?_⟩
  · rintro past more rfl fd n hopen hforgot
    rw [Process.run_append]
    exact forgotten_run h.right hopen hforgot
  · rintro past c more rfl r fd n hr hskip hfd hopen
    obtain ⟨hfiles, hforgot⟩ := failed_forgotten proto (holds_run hstart h.left) hr hskip hfd
      (Process.ne_bad _ hopen)
    rw [Process.run_append]
    refine forgotten_run h.right.2 ?_ hforgot
    rw [hfiles]
    exact hopen

/-- A client breaks its connection off before the server has read, and another one is served. -/
def breakOff : List Completion :=
  let ask := wire.serialize (.printBalanceReq ⟨0, 0, 100⟩)
  [completion 0 5 [], completion 2 (-104) [], completion 1 6 [], completion 2 ask.length ask,
    completion 2 15 []]

theorem failed_stays_open_off :
    ((Process.start (.new 0 0 purse) .empty rfl).run wire breakOff).files.file 5 = some 0 ∧
      NeverClosed wire (.start (.new 0 0 purse) .empty rfl) breakOff :=
  ⟨by decide, failed_stays_open wire 0 0 purse .empty rfl breakOff (by decide)⟩

/-! ### The timer and the listener -/

/-- The requests that the loop makes again when they complete. -/
def IORequest.rearmed : IORequest → Bool
  | .timeout | .accept => true
  | .connect .. | .read _ | .write .. => false

def failsIn (proto : Protobuf) (r : IORequest) : Process → List Completion → Bool
  | _, [] => false
  | s, c :: cs => (s.completes c = some r && skips r c.res) || failsIn proto r (s.step proto c) cs

theorem count_submit {r : IORequest} (hr : r.rearmed = true) (socket : Peer → ℤ)
    (acts : List AIOAction) : (acts.filterMap (AIOAction.submit proto socket)).count r = 0 := by
  refine List.count_eq_zero.mpr fun h => ?_
  obtain ⟨a, -, ha⟩ := List.mem_filterMap.mp h
  cases a with
  | writeMsg | connect =>
    cases ha
    cases hr
  | _ => cases ha

theorem count_follow {q r : IORequest} (hr : r.rearmed = true) (res : ℤ) :
    (EventLoop.follow q res).count r = if q = r ∧ skips q res = false then 1 else 0 := by
  unfold EventLoop.follow
  cases skips q res with
  | true => simp
  | false =>
    cases r with
    | connect | read | write => cases hr
    | timeout | accept =>
      cases q with
      | write fd buf type => cases type <;> simp
      | _ => simp

/-- A round leaves as many of them as there were, unless one fails. -/
theorem count_step (proto : Protobuf) (s : Process) (c : Completion) {r : IORequest} (hr : r.rearmed = true) :
    (s.step proto c).pending.count r + (if s.completes c = some r ∧ skips r c.res = true then 1 else 0) =
      s.pending.count r := by
  cases hq : s.completes c with
  | none => simp [Process.pending, step_idle proto hq]
  | some q =>
    have herase := (perm_eraseIdx (completes_eq hq).2).count_eq r
    rw [List.count_cons] at herase
    rw [pending_step hq, List.count_append, List.count_append, count_submit hr, count_follow hr]
    by_cases hqr : q = r
    · subst hqr
      cases skips q c.res <;> simp at herase ⊢ <;> omega
    · simp [hqr] at herase ⊢
      omega

theorem count_run {r : IORequest} (hr : r.rearmed = true) (hone : s.pending.count r ≤ 1) :
    (s.run proto cs).pending.count r =
      if failsIn proto r s cs = true then 0 else s.pending.count r := by
  induction cs generalizing s with
  | nil => rfl
  | cons c cs ih =>
    have hstep := count_step proto s c hr
    have hrest := @ih (s.step proto c) (by omega)
    rw [Process.run, List.foldl_cons, ← Process.run, hrest, failsIn]
    by_cases hfail : s.completes c = some r ∧ skips r c.res = true
    · rw [if_pos hfail] at hstep
      have hzero : (s.step proto c).pending.count r = 0 := by omega
      simp [hfail, hzero]
    · rw [if_neg hfail, add_zero] at hstep
      have hno : (decide (s.completes c = some r) && skips r c.res) = false := by simpa using hfail
      rw [hno, Bool.false_or, hstep]

/-- There is one timer and one listener, until a completion of theirs fails: from then on the
server never looks at the time again, or at no new connection. -/
theorem rearmed_until_failure (proto : Protobuf) (server : AIOServer) (files : Registry ℤ)
    (bad : files.file (-1) = none) (cs : List Completion) (r : IORequest)
    (hr : r.rearmed = true) :
    ((Process.start server files bad).run proto cs).pending.count r =
      if failsIn proto r (.start server files bad) cs = true then 0 else 1 := by
  have hone : (Process.start server files bad).pending.count r = 1 := by
    cases r with
    | timeout | accept => rfl
    | _ => cases hr
  rw [count_run hr hone.le, hone]

theorem rearmed_until_failure_full :
    failsIn wire .accept (.start (.new 0 0 purse) .empty rfl) [completion 0 (-24) []] = true ∧
    ((Process.start (.new 0 0 purse) .empty rfl).run wire [completion 0 (-24) []]).pending.count
        .accept = if failsIn wire .accept (.start (.new 0 0 purse) .empty rfl)
          [completion 0 (-24) []] = true then 0 else 1 :=
  ⟨by decide, rearmed_until_failure wire _ .empty rfl _ .accept rfl⟩

end Raft2PC
