import Raft2PC.Sanity.Handling

/-! One round of the loop and the connections it has in hand: what completes, and where the
connection of it goes. -/

namespace Raft2PC

open AIOServer EventLoop Handles

/-- The connections of pending requests. -/
def inFlight (rs : List IORequest) : Multiset ℤ := ↑((rs.filterMap IORequest.fd).filter (· ≠ -1))

namespace Process

def pending (s : Process) : List IORequest := s.loop.pending

def log (s : Process) : List LogEntry := s.loop.server.raftState.log

/-- Every connection that a pending request or an entry of the log names. -/
def held (s : Process) : Multiset ℤ := inFlight s.pending + pendingFds s.log

end Process

theorem inFlight_append (rs rs' : List IORequest) :
    inFlight (rs ++ rs') = inFlight rs + inFlight rs' := by
  simp [inFlight, List.filterMap_append]

theorem inFlight_single {r : IORequest} {fd : ℤ} (hr : r.fd = some fd) (hfd : fd ≠ -1) :
    inFlight [r] = {fd} := by
  simp [inFlight, hr, hfd]

theorem inFlight_none {r : IORequest} (hr : r.fd = none) : inFlight [r] = 0 := by
  simp [inFlight, hr]

theorem mem_inFlight {rs : List IORequest} {fd : ℤ} :
    fd ∈ inFlight rs ↔ (∃ r ∈ rs, r.fd = some fd) ∧ fd ≠ -1 := by
  simp [inFlight]

theorem perm_eraseIdx {α : Type*} {l : List α} {k : ℕ} {a : α} (hk : l[k]? = some a) :
    (a :: l.eraseIdx k).Perm l := by
  obtain ⟨hlt, rfl⟩ := List.getElem?_eq_some_iff.mp hk
  exact List.getElem_cons_eraseIdx_perm hlt

theorem filterMap_cons_toList {α β : Type*} (f : α → Option β) (a : α) (l : List α) :
    (a :: l).filterMap f = (f a).toList ++ l.filterMap f := by
  rw [List.filterMap_cons]
  cases f a <;> rfl

theorem inFlight_erase {rs : List IORequest} {k : ℕ} {r : IORequest} (hk : rs[k]? = some r) :
    inFlight rs = inFlight [r] + inFlight (rs.eraseIdx k) := by
  rw [← inFlight_append, List.singleton_append]
  exact (Multiset.coe_eq_coe.mpr (((perm_eraseIdx hk).filterMap _).filter _)).symm

/-! ### What the actions of a handler come to -/

/-- The connection that is written to. -/
def AIOAction.writes : AIOAction → Option ℤ
  | .writeMsg fd _ => some fd
  | .connect .. | .close _ | .updateDataShard | .fatalError => none

/-- The connections that are written to. -/
def wrote (acts : List AIOAction) : Multiset ℤ :=
  ↑((acts.filterMap AIOAction.writes).filter (· ≠ -1))

section
variable {proto : Protobuf} {socket : Peer → ℤ} {acts : List AIOAction} {a : AIOAction} {fd : ℤ}

theorem wrote_append (as bs : List AIOAction) : wrote (as ++ bs) = wrote as + wrote bs := by
  simp [wrote, List.filterMap_append]

/-- The calls of `socket` and `close`. -/
def calls (socket : Peer → ℤ) (acts : List AIOAction) : List (Op ℤ) :=
  acts.filterMap (AIOAction.op socket)

theorem calls_cons (socket : Peer → ℤ) (a : AIOAction) (acts : List AIOAction) :
    calls socket (a :: acts) = (a.op socket).toList ++ calls socket acts :=
  filterMap_cons_toList _ _ _

/-- Connections are submitted as they are opened, and replies where they are due. -/
theorem inFlight_submit (proto : Protobuf) (socket : Peer → ℤ) (acts : List AIOAction) :
    inFlight (acts.filterMap (AIOAction.submit proto socket)) =
      handedOut (calls socket acts) + wrote acts := by
  induction acts with
  | nil => rfl
  | cons a acts ih =>
    have hone : inFlight ([a].filterMap (AIOAction.submit proto socket)) =
        handedOut (a.op socket).toList + wrote [a] := by
      cases a with
      | connect peer msg type =>
        have hnone : wrote [.connect peer msg type] = 0 := rfl
        rw [hnone, add_zero]
        by_cases hbad : socket peer = -1 <;>
          simp [inFlight, AIOAction.submit, AIOAction.op, IORequest.fd, hbad]
      | writeMsg fd msg => rfl
      | close fd | updateDataShard | fatalError => rfl
    rw [calls_cons, handedOut_append, ← List.singleton_append, List.filterMap_append,
      inFlight_append, wrote_append, hone, ih, add_add_add_comm]

theorem closed_wrote_le (socket : Peer → ℤ) (acts : List AIOAction) :
    closed (calls socket acts) + wrote acts ≤ spent acts := by
  induction acts with
  | nil => exact le_rfl
  | cons a acts ih =>
    have hone : closed (a.op socket).toList + wrote [a] ≤ spent [a] := by
      cases a with
      | connect peer msg type =>
        simp only [AIOAction.op]
        split_ifs <;> exact le_rfl
      | writeMsg fd msg => exact Multiset.coe_le.mpr (List.filter_sublist.subperm)
      | close fd | updateDataShard | fatalError => exact le_rfl
    rw [calls_cons, closed_append, ← List.singleton_append, wrote_append, spent_append,
      add_add_add_comm]
    exact add_le_add hone ih

end

/-! ### Rounds -/

/-- What a round may do to the pending requests and to the log, the actions of its handler, its
calls, the message it reads and the buffer it has written. -/
inductive Round (proto : Protobuf) (s : Process) (c : Completion) :
    List IORequest → List LogEntry → List AIOAction → List (Op ℤ) →
      List (Carried WrapperMessage) → List (Carried (List UInt8)) → Prop
  | idle : Round proto s c s.pending s.log [] [] [] []
  | failed : Round proto s c (s.pending.eraseIdx c.k) s.log [] [] [] []
  | timed {L : List LogEntry} {acts : List AIOAction} (hk : s.pending[c.k]? = some .timeout)
      (hh : Handled [] s.log L acts) :
      Round proto s c (s.pending.eraseIdx c.k ++
        (acts.filterMap (AIOAction.submit proto c.socket) ++ [.timeout]))
        L acts (calls c.socket acts) [] []
  | read {L : List LogEntry} {acts : List AIOAction} {fd : ℤ} {msg : WrapperMessage} {n : ℕ}
      (hk : s.pending[c.k]? = some (.read fd)) (hn : s.files.file fd = some n)
      (hh : Handled [(fd, msg)] s.log L acts) :
      Round proto s c (s.pending.eraseIdx c.k ++ acts.filterMap (AIOAction.submit proto c.socket))
        L acts (calls c.socket acts) [(n, msg)] []
  | accepted (hk : s.pending[c.k]? = some .accept) (hres : c.res ≠ -1) :
      Round proto s c (s.pending.eraseIdx c.k ++ [.accept, .read c.res]) s.log [] [.grant c.res] [] []
  | connected {fd : ℤ} {buf : List UInt8} {type : AIOMessageType}
      (hk : s.pending[c.k]? = some (.connect fd buf type)) :
      Round proto s c (s.pending.eraseIdx c.k ++ [.write fd buf type]) s.log [] [] [] []
  | asked {fd : ℤ} {buf : List UInt8} {n : ℕ}
      (hk : s.pending[c.k]? = some (.write fd buf .waitResponse)) (hn : s.files.file fd = some n) :
      Round proto s c (s.pending.eraseIdx c.k ++ [.read fd]) s.log [] [] [] [(n, buf)]
  | told {fd : ℤ} {buf : List UInt8} {n : ℕ}
      (hk : s.pending[c.k]? = some (.write fd buf .noResponse)) (hn : s.files.file fd = some n) :
      Round proto s c (s.pending.eraseIdx c.k) s.log [] [.close fd] [] [(n, buf)]

section
variable {proto : Protobuf} {s : Process} {c : Completion} {r : IORequest}

theorem completes_eq (hr : s.completes c = some r) :
    s.loop.server.keepRunning = true ∧ s.pending[c.k]? = some r := by
  unfold Process.completes at hr
  split_ifs at hr with hrun
  exact ⟨hrun, hr⟩

theorem taken_eq (proto : Protobuf) (hr : s.completes c = some r) :
    taken proto s.loop c = (input proto r c).map fun x => ⟨x, c.undef⟩ := by
  obtain ⟨hrun, hk⟩ := completes_eq hr
  rw [Process.pending] at hk
  rw [taken, if_pos hrun, hk, Option.bind_some]

theorem taken_none (proto : Protobuf) (hr : s.completes c = none) : taken proto s.loop c = none := by
  unfold Process.completes at hr
  unfold taken
  split_ifs at hr ⊢
  · rw [hr]
    rfl
  · rfl

theorem step_idle (proto : Protobuf) (hr : s.completes c = none) : (s.step proto c).loop = s.loop := by
  unfold Process.completes at hr
  simp only [Process.step, EventLoop.step]
  split_ifs at hr with hrun
  · simp [hrun, hr]
  · simp [hrun]

theorem pending_step (hr : s.completes c = some r) :
    (s.step proto c).pending = s.pending.eraseIdx c.k ++
      (s.acts proto c).filterMap (AIOAction.submit proto c.socket) ++ EventLoop.follow r c.res := by
  have htaken := taken_eq proto hr
  obtain ⟨hrun, hk⟩ := completes_eq hr
  rw [Process.pending] at hk
  simp only [Process.pending, Process.step, EventLoop.step, hrun, hk, Process.acts, htaken]
  cases input proto r c <;> simp

theorem log_step (hr : s.completes c = some r) : (s.step proto c).log =
    ((taken proto s.loop c).map fun x => (s.loop.server.react x).1.raftState.log).getD s.log := by
  have htaken := taken_eq proto hr
  obtain ⟨hrun, hk⟩ := completes_eq hr
  rw [Process.pending] at hk
  simp only [Process.log, Process.step, EventLoop.step, hrun, hk, htaken]
  cases input proto r c <;> simp

theorem file_of_res (hkernel : s.Kernel proto c) (hr : s.completes c = some r) {fd : ℤ}
    (hfd : r.fd = some fd) (hskip : skips r c.res = false) : ∃ n, s.files.file fd = some n := by
  refine Option.ne_none_iff_exists'.mp fun hnone => ?_
  have hbad := hkernel.badf r hr fd hfd hnone
  have hne : r ≠ .timeout := by
    rintro rfl
    cases hfd
  by_cases htime : c.res = -ETIME
  · simp [skips, htime, hne] at hskip
  · simp [skips, htime, hbad] at hskip

theorem round_step (hkernel : s.Kernel proto c)
    (hin : ∀ x ∈ taken proto s.loop c, staysInVectors s.loop.server x = true) :
    Round proto s c (s.step proto c).pending (s.step proto c).log (s.acts proto c) (s.ops proto c)
      (s.arrival proto c) (s.delivery c) := by
  cases hr : s.completes c with
  | none =>
    have htaken := taken_none proto hr
    have hloop := step_idle proto hr
    simp only [Process.pending, Process.log, hloop, Process.acts, Process.ops, Process.arrival,
      Process.delivery, htaken, hr]
    exact .idle
  | some r =>
    have htaken := taken_eq proto hr
    obtain ⟨-, hk⟩ := completes_eq hr
    rw [pending_step hr, log_step hr]
    simp only [Process.acts, Process.ops, Process.arrival, Process.delivery, htaken, hr, input,
      loopOps, EventLoop.follow] at hin ⊢
    cases hskip : skips r c.res with
    | true =>
      cases r with
      | write fd buf type => simpa [hskip] using .failed
      | _ => simpa [hskip] using .failed
    | false =>
      simp only [hskip, Bool.false_eq_true, if_false] at hin
      cases r with
      | timeout =>
        have hh := handled_react (hin _ rfl)
        simpa [calls] using Round.timed hk hh
      | accept =>
        have hres : c.res ≠ -1 := by
          intro hbad
          simp [skips, hbad, ETIME] at hskip
        simpa [hskip] using .accepted hk hres
      | connect fd buf type => simpa using .connected hk
      | read fd =>
        obtain ⟨n, hn⟩ := file_of_res hkernel hr rfl hskip
        have hh := handled_react (hin _ rfl)
        simpa [hn] using .read hk hn hh
      | write fd buf type =>
        obtain ⟨n, hn⟩ := file_of_res hkernel hr rfl hskip
        cases type with
        | waitResponse => simpa [hn, hskip] using .asked hk hn
        | noResponse => simpa [hn, hskip] using .told hk hn

end

end Raft2PC
