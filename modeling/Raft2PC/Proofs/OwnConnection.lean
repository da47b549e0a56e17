import Raft2PC.Proofs.Descriptors

/-! Replies reach the connection their request came on. However often the kernel uses a number
again, a connection is read at most once and answered at most once, and what is written to it
answers what was read from it, or is what it was opened for. -/

namespace Raft2PC

open EventLoop Handles

variable {proto : Protobuf} {socket : Peer → ℤ}

def serialized (proto : Protobuf) (m : Carried WrapperMessage) : Carried (List UInt8) :=
  (m.1, proto.serialize m.2)

/-- The buffer a request is about, with the connection that it is for. -/
def IORequest.out (t : Registry ℤ) : IORequest → Option (Carried (List UInt8))
  | .connect fd buf _ | .write fd buf _ => (t.file fd).map fun n => (n, buf)
  | .timeout | .accept | .read _ => none

def outgoing (t : Registry ℤ) (rs : List IORequest) : Multiset (Carried (List UInt8)) :=
  ↑(rs.filterMap (IORequest.out t))

theorem outgoing_append (t : Registry ℤ) (rs rs' : List IORequest) :
    outgoing t (rs ++ rs') = outgoing t rs + outgoing t rs' := by
  simp [outgoing, List.filterMap_append]

theorem outgoing_erase (t : Registry ℤ) {rs : List IORequest} {k : ℕ} {r : IORequest}
    (hk : rs[k]? = some r) : outgoing t rs = outgoing t [r] + outgoing t (rs.eraseIdx k) := by
  rw [← outgoing_append, List.singleton_append]
  exact (Multiset.coe_eq_coe.mpr ((perm_eraseIdx hk).filterMap _)).symm

/-! ### The actions of one handler -/

section
variable {t : Registry ℤ} {a : AIOAction} {acts : List AIOAction}

theorem spent_cons (a : AIOAction) (acts : List AIOAction) :
    spent (a :: acts) = spent [a] + spent acts := spent_append [a] acts

theorem closed_op_le (socket : Peer → ℤ) (a : AIOAction) :
    closed (a.op socket).toList ≤ spent [a] := by
  have h := closed_wrote_le socket [a]
  rw [calls_cons, closed_append] at h
  exact (Multiset.le_add_right _ _).trans ((Multiset.le_add_right _ _).trans h)

/-- After one action the connections of the others are as they were. -/
theorem holds_action (hH : t.Holds (spent (a :: acts)))
    (hg : t.Grants (calls socket (a :: acts))) :
    (t.after (a.op socket).toList).Holds (spent acts) ∧
      ∀ fd ∈ spent acts, (t.after (a.op socket).toList).file fd = t.file fd := by
  rw [calls_cons, Registry.grants_append] at hg
  rw [spent_cons] at hH
  have hown := hH.mono (add_le_add_left (closed_op_le socket a) (spent acts))
  exact ⟨(hown.after hg.1).1.mono (Multiset.le_add_left _ _), fun fd hfd => hown.kept hg.1 hfd⟩

theorem along_reply (hH : t.Holds (spent acts)) (hg : t.Grants (calls socket acts)) :
    AIOAction.along AIOAction.reply socket t acts = acts.filterMap (AIOAction.reply socket t) := by
  induction acts generalizing t with
  | nil => rfl
  | cons a acts ih =>
    obtain ⟨hrest, hsame⟩ := holds_action hH hg
    rw [calls_cons, Registry.grants_append] at hg
    have hlater : acts.filterMap (AIOAction.reply socket (t.after (a.op socket).toList)) =
        acts.filterMap (AIOAction.reply socket t) := by
      apply List.filterMap_congr
      intro b hb
      cases b with
      | writeMsg fd msg => simp only [AIOAction.reply, hsame fd (mem_spent hb)]
      | _ => rfl
    rw [AIOAction.along, ih hrest hg.2, hlater, filterMap_cons_toList]

/-- What one action submits goes out on the connection it is for. -/
theorem outgoing_action (proto : Protobuf) (hH : t.Holds (spent (a :: acts)))
    (hop : t.Grants (a.op socket).toList)
    (hg : (t.after (a.op socket).toList).Grants (calls socket acts))
    (hbad : ((t.after (a.op socket).toList).after (calls socket acts)).file (-1) = none) :
    outgoing ((t.after (a.op socket).toList).after (calls socket acts))
        (a.submit proto socket).toList =
      ↑((AIOAction.reply socket t a).toList.map (serialized proto)) +
        ↑((AIOAction.dial socket t a).toList.map (serialized proto)) := by
  have hclosed : closed (calls socket acts) ≤ spent acts :=
    (Multiset.le_add_right _ _).trans (closed_wrote_le socket acts)
  have hkept : ∀ {t' : Registry ℤ} {fd : ℤ}, t'.Holds (fd ::ₘ spent acts) →
      t'.Grants (calls socket acts) → (t'.after (calls socket acts)).file fd = t'.file fd := by
    intro t' fd hH' hg'
    have hle : closed (calls socket acts) + {fd} ≤ fd ::ₘ spent acts := by
      rw [add_comm, Multiset.singleton_add]
      exact Multiset.cons_le_cons fd hclosed
    exact (hH'.mono hle).kept hg' (Multiset.mem_singleton_self fd)
  cases a with
  | writeMsg fd msg =>
    have hfile := hkept hH hg
    simp only [AIOAction.op, AIOAction.submit, AIOAction.reply, AIOAction.dial, outgoing,
      Option.toList_none, Option.toList_some, Registry.after, List.foldl_nil] at hfile ⊢
    cases hn : t.file fd <;> simp [IORequest.out, hn, hfile, serialized]
  | connect peer msg type =>
    by_cases hfail : socket peer = -1
    · simp [AIOAction.op, AIOAction.submit, AIOAction.reply, AIOAction.dial, outgoing,
        IORequest.out, hfail] at hbad ⊢
      simp [hbad]
    · have hfree : t.file (socket peer) = none := by
        simp only [AIOAction.op, if_neg hfail, Option.toList_some] at hop
        exact hop.1 (socket peer) rfl
      have hg' : (t.grant (socket peer)).Grants (calls socket acts) := by
        simpa [AIOAction.op, hfail, Registry.after, Registry.apply] using hg
      have hfile := hkept (hH.grant hfree) hg'
      simp only [AIOAction.op, AIOAction.submit, AIOAction.reply, AIOAction.dial, outgoing,
        if_neg hfail, Option.toList_none, Option.toList_some]
      simp [IORequest.out, Registry.after, Registry.apply, serialized] at hfile ⊢
      simp [hfile]
  | close fd | updateDataShard | fatalError => rfl

/-- What a handler submits is what it replies and what it dials. -/
theorem outgoing_submit (proto : Protobuf) (hH : t.Holds (spent acts))
    (hg : t.Grants (calls socket acts))
    (hbad : (t.after (calls socket acts)).file (-1) = none) :
    outgoing (t.after (calls socket acts)) (acts.filterMap (AIOAction.submit proto socket)) =
      ↑((AIOAction.along AIOAction.reply socket t acts).map (serialized proto)) +
        ↑((AIOAction.along AIOAction.dial socket t acts).map (serialized proto)) := by
  induction acts generalizing t with
  | nil => rfl
  | cons a acts ih =>
    obtain ⟨hrest, hsame⟩ := holds_action hH hg
    rw [calls_cons, Registry.grants_append] at hg
    rw [calls_cons, Registry.after_append] at hbad ⊢
    have hone := outgoing_action proto hH hg.1 hg.2 hbad
    rw [AIOAction.along, AIOAction.along, filterMap_cons_toList, outgoing_append, hone,
      ih hrest hg.2 hbad, List.map_append, List.map_append, ← Multiset.coe_add, ← Multiset.coe_add,
      add_add_add_comm]

theorem writes_sublist (acts : List AIOAction) :
    (acts.filterMap AIOAction.writes).Sublist (acts.filterMap AIOAction.spends) := by
  induction acts with
  | nil => exact List.Sublist.refl _
  | cons a acts ih =>
    rw [filterMap_cons_toList, filterMap_cons_toList]
    cases a with
    | close fd => exact ih.cons fd
    | writeMsg | connect | updateDataShard | fatalError => exact ih.append_left _

theorem nodup_replies (hnodup : (spent acts).Nodup) :
    ((acts.filterMap (AIOAction.reply socket t)).map Prod.fst).Nodup := by
  have hfst : (acts.filterMap (AIOAction.reply socket t)).map Prod.fst =
      (acts.filterMap AIOAction.writes).filterMap t.file := by
    rw [List.map_filterMap, List.filterMap_filterMap]
    apply List.filterMap_congr
    intro a _
    cases a with
    | writeMsg fd msg => cases h : t.file fd <;> simp [AIOAction.reply, AIOAction.writes, h]
    | _ => rfl
  rw [hfst]
  exact ((Multiset.coe_nodup.mp hnodup).sublist (writes_sublist acts)).filterMap
    fun fd fd' n hn hn' => t.apart fd fd' n hn hn'

theorem mem_replies {n : ℕ} {rsp : WrapperMessage}
    (h : (n, rsp) ∈ acts.filterMap (AIOAction.reply socket t)) :
    ∃ fd, .writeMsg fd rsp ∈ acts ∧ t.file fd = some n := by
  obtain ⟨a, ha, hreply⟩ := List.mem_filterMap.mp h
  cases a with
  | writeMsg fd msg =>
    obtain ⟨m, hm, heq⟩ := Option.map_eq_some_iff.mp hreply
    obtain ⟨rfl, rfl⟩ := Prod.mk.inj heq
    exact ⟨fd, ha, hm⟩
  | _ => cases hreply

end

/-! ### Connections in use -/

/-- The request will be followed by a read of the connection. -/
def IORequest.reads : IORequest → Option ℤ
  | .connect fd _ .waitResponse | .read fd | .write fd _ .waitResponse => some fd
  | .timeout | .accept | .connect _ _ .noResponse | .write _ _ .noResponse => none

theorem fd_of_reads {r : IORequest} {fd : ℤ} (h : r.reads = some fd) : r.fd = some fd := by
  cases r with
  | timeout | accept => cases h
  | read => exact h
  | connect fd buf type | write fd buf type =>
    cases type with
    | waitResponse => exact h
    | noResponse => cases h

/-- With what has been read (`A`), replied (`R`), dialed (`D`) and written (`W`) so far, by
connection. -/
structure Talk (proto : Protobuf) (t : Registry ℤ) (P : List IORequest) (L : List LogEntry)
    (A R D : List (Carried WrapperMessage)) (W : List (Carried (List UInt8))) : Prop where
  bad : t.file (-1) = none
  holds : t.Holds (inFlight P + pendingFds L)
  old : ∀ n ∈ A.map Prod.fst, n < t.opened
  readOnce : (A.map Prod.fst).Nodup
  answeredOnce : (R.map Prod.fst).Nodup
  answers : ∀ n rsp, (n, rsp) ∈ R → ∃ msg, (n, msg) ∈ A ∧ Answers msg rsp
  unread : ∀ r ∈ P, ∀ fd n, r.reads = some fd → t.file fd = some n → n ∉ A.map Prod.fst
  waits : ∀ x ∈ L, x.reqFd ≠ -1 → ∃ n msg, t.file x.reqFd = some n ∧ (n, msg) ∈ A ∧
    Awaits msg x ∧ n ∉ R.map Prod.fst
  unsent : ↑W + outgoing t P ≤ ↑((R ++ D).map (serialized proto))

section
variable {s : Process} {c : Completion} {t' : Registry ℤ} {P : List IORequest}
  {L : List LogEntry} {A R D : List (Carried WrapperMessage)}
  {W : List (Carried (List UInt8))} {acts : List AIOAction} {ops : List (Op ℤ)} {rest : Multiset ℤ}

theorem Talk.answered_read (h : Talk proto t' P L A R D W) {n : ℕ} (hn : n ∈ R.map Prod.fst) :
    n ∈ A.map Prod.fst := by
  obtain ⟨p, hp, rfl⟩ := List.mem_map.mp hn
  obtain ⟨msg, hmsg, -⟩ := h.answers p.1 p.2 hp
  exact List.mem_map.mpr ⟨_, hmsg, rfl⟩

/-- What goes out on the connections that are kept is the same. -/
theorem outgoing_kept {t t' : Registry ℤ} {rs : List IORequest} (hbad : t.file (-1) = none)
    (hbad' : t'.file (-1) = none) (hkept : ∀ fd ∈ inFlight rs, t'.file fd = t.file fd) :
    outgoing t' rs = outgoing t rs := by
  have hsame : ∀ r ∈ rs, ∀ fd, r.fd = some fd → t'.file fd = t.file fd := by
    intro r hr fd hfd
    by_cases hne : fd = -1
    · rw [hne, hbad, hbad']
    · exact hkept fd (mem_inFlight.mpr ⟨⟨r, hr, hfd⟩, hne⟩)
  refine congrArg Multiset.ofList (List.filterMap_congr fun r hr => ?_)
  cases r with
  | timeout | accept | read => rfl
  | connect fd | write fd => simp only [IORequest.out, hsame _ hr fd rfl]

theorem Keeps.file (hk : Keeps s c P L acts ops rest) (hH : s.files.Holds s.held)
    (hg : s.files.Grants ops) {fd : ℤ} (hfd : fd ∈ rest) :
    (s.files.after ops).file fd = s.files.file fd := (hH.mono hk.had).kept hg hfd

theorem Keeps.file_others (hk : Keeps s c P L acts ops rest) (hH : s.files.Holds s.held)
    (hg : s.files.Grants ops) {fd : ℤ} (hfd : fd ∈ inFlight (s.pending.eraseIdx c.k)) :
    (s.files.after ops).file fd = s.files.file fd :=
  hk.file hH hg (Multiset.mem_of_le hk.others hfd)

theorem mem_inFlight_others {r : IORequest} {fd : ℤ} {n : ℕ} (hbad : t'.file (-1) = none)
    (hr : r ∈ s.pending.eraseIdx c.k) (hfd : r.reads = some fd) (hn : t'.file fd = some n) :
    fd ∈ inFlight (s.pending.eraseIdx c.k) := by
  refine mem_inFlight.mpr ⟨⟨r, hr, fd_of_reads hfd⟩, ?_⟩
  rintro rfl
  rw [hbad] at hn
  cases hn

theorem Talk.unread_others (h : Talk proto s.files s.pending s.log A R D W)
    (hk : Keeps s c P L acts ops rest) (hg : s.files.Grants ops)
    (hbad : (s.files.after ops).file (-1) = none) {r : IORequest} {fd : ℤ} {n : ℕ}
    (hr : r ∈ s.pending.eraseIdx c.k) (hfd : r.reads = some fd)
    (hn : (s.files.after ops).file fd = some n) : s.files.file fd = some n ∧ n ∉ A.map Prod.fst := by
  rw [hk.file_others h.holds hg (mem_inFlight_others hbad hr hfd hn)] at hn
  exact ⟨hn, h.unread r (List.mem_of_mem_eraseIdx hr) fd n hfd hn⟩

theorem Talk.aside (h : Talk proto s.files s.pending s.log A R D W)
    (hk : Keeps s c P s.log [] ops rest) (hg : s.files.Grants ops)
    (hbad : (s.files.after ops).file (-1) = none) {more : List IORequest}
    {W' : List (Carried (List UInt8))} (hP : P = s.pending.eraseIdx c.k ++ more)
    (hmore : ∀ r ∈ more, ∀ fd n, r.reads = some fd → (s.files.after ops).file fd = some n →
      n ∉ A.map Prod.fst)
    (hunsent : ↑W' + outgoing (s.files.after ops) more + outgoing s.files (s.pending.eraseIdx c.k) ≤
      ↑W + outgoing s.files s.pending) :
    Talk proto (s.files.after ops) P s.log A R D W' where
  bad := hbad
  holds := by
    rw [hk.has]
    exact ((Registry.Holds.mono h.holds hk.had).after hg).1
  old n hn := (h.old n hn).trans_le (s.files.opened_after ops)
  readOnce := h.readOnce
  answeredOnce := h.answeredOnce
  answers := h.answers
  unread r hr fd n hfd hn := by
    rw [hP] at hr
    rcases List.mem_append.mp hr with hr | hr
    · exact (h.unread_others hk hg hbad hr hfd hn).2
    · exact hmore r hr fd n hfd hn
  waits x hx hne := by
    have hfile := hk.file h.holds hg
      (Multiset.mem_of_le hk.entries (mem_pendingFds.mpr ⟨x, hx, rfl, hne⟩))
    rw [hfile]
    exact h.waits x hx hne
  unsent := by
    have hkept := outgoing_kept h.bad hbad fun fd hfd => hk.file_others h.holds hg hfd
    rw [hP, outgoing_append, hkept, add_comm (outgoing _ _), ← add_assoc]
    exact hunsent.trans h.unsent

/-- What a handler opens is new, and only that is it going to read. -/
theorem handedOut_of_reads {r : IORequest} {fd : ℤ}
    (hr : r ∈ acts.filterMap (AIOAction.submit proto socket)) (hfd : r.reads = some fd)
    (hne : fd ≠ -1) : fd ∈ handedOut (calls socket acts) := by
  obtain ⟨a, ha, hsubmit⟩ := List.mem_filterMap.mp hr
  cases a with
  | writeMsg fd' msg =>
    cases hsubmit
    cases hfd
  | connect peer msg type =>
    cases hsubmit
    obtain rfl : socket peer = fd := by
      cases type with
      | waitResponse => exact Option.some.inj hfd
      | noResponse => cases hfd
    refine Multiset.mem_coe.mpr (List.mem_filterMap.mpr ⟨.grant (socket peer), ?_, rfl⟩)
    exact List.mem_filterMap.mpr ⟨_, ha, by simp [AIOAction.op, hne]⟩
  | _ => cases hsubmit

/-- What the handler has read, on connections from which nothing was read before. -/
structure Fresh (t : Registry ℤ) (own : List (ℤ × WrapperMessage))
    (A B : List (Carried WrapperMessage)) : Prop where
  own : ∀ n msg, (n, msg) ∈ B ↔ ∃ fd, (fd, msg) ∈ own ∧ t.file fd = some n
  once : (B.map Prod.fst).Nodup
  fresh : ∀ n ∈ B.map Prod.fst, n ∉ A.map Prod.fst

theorem Fresh.fd {t : Registry ℤ} {own : List (ℤ × WrapperMessage)}
    {A B : List (Carried WrapperMessage)} (h : Fresh t own A B) {n : ℕ} (hn : n ∈ B.map Prod.fst) :
    ∃ fd ∈ own.map Prod.fst, t.file fd = some n := by
  obtain ⟨p, hp, rfl⟩ := List.mem_map.mp hn
  obtain ⟨fd, hfd, hfile⟩ := (h.own p.1 p.2).mp hp
  exact ⟨fd, List.mem_map.mpr ⟨_, hfd, rfl⟩, hfile⟩

section
variable {own : List (ℤ × WrapperMessage)} {B : List (Carried WrapperMessage)} {r : IORequest}

/-- The connections that a handler replies on have had no reply. -/
theorem Talk.unanswered (h : Talk proto s.files s.pending s.log A R D W)
    (hh : Handled own s.log L acts) (hB : Fresh s.files own A B) {n : ℕ} {rsp : WrapperMessage}
    (hrsp : (n, rsp) ∈ acts.filterMap (AIOAction.reply socket s.files)) :
    n ∉ R.map Prod.fst ∧ ∃ msg, (n, msg) ∈ A ++ B ∧ Answers msg rsp := by
  obtain ⟨fd, hwrite, hfile⟩ := mem_replies hrsp
  rcases hh.replies fd rsp hwrite with ⟨msg, hmsg, hans⟩ | ⟨x, hx, rfl, hne, hsettles⟩
  · have hread : (n, msg) ∈ B := (hB.own n msg).mpr ⟨fd, hmsg, hfile⟩
    refine ⟨fun hn => ?_, msg, List.mem_append_right _ hread, hans⟩
    exact hB.fresh n (List.mem_map.mpr ⟨_, hread, rfl⟩) (h.answered_read hn)
  · obtain ⟨m, msg, hm, hmsg, hawaits, hno⟩ := h.waits x hx hne
    obtain rfl := Option.some.inj (hm.symm.trans hfile)
    exact ⟨hno, msg, List.mem_append_left _ hmsg, hsettles.answers hawaits⟩

/-- A round with a handler, which reads the connection of `r` or none. -/
theorem Talk.handle (h : Talk proto s.files s.pending s.log A R D W)
    (hr : s.pending[c.k]? = some r) (hh : Handled own s.log L acts)
    (hown : ↑(own.map Prod.fst) = inFlight [r]) (hB : Fresh s.files own A B)
    (hg : s.files.Grants (calls socket acts))
    (hbad : (s.files.after (calls socket acts)).file (-1) = none) {extra : List IORequest}
    (hextra : ∀ r ∈ extra, r.fd = none)
    (hP : P = s.pending.eraseIdx c.k ++ (acts.filterMap (AIOAction.submit proto socket) ++ extra)) :
    Talk proto (s.files.after (calls socket acts)) P L (A ++ B)
      (R ++ AIOAction.along AIOAction.reply socket s.files acts)
      (D ++ AIOAction.along AIOAction.dial socket s.files acts) W := by
  have hnone : inFlight extra = 0 := by
    refine Multiset.eq_zero_iff_forall_notMem.mpr fun fd hfd => ?_
    obtain ⟨⟨r', hr', hfd'⟩, -⟩ := mem_inFlight.mp hfd
    rw [hextra r' hr'] at hfd'
    cases hfd'
  have hle := spent_le hr hh hown
  have hk : Keeps s c P L acts (calls socket acts)
      (wrote acts + (inFlight (s.pending.eraseIdx c.k) + pendingFds L)) := by
    refine .of_handled proto hle ?_
    rw [hP, inFlight_append, inFlight_append, hnone, add_zero]
  have hspent : s.files.Holds (spent acts) := h.holds.mono ((Multiset.le_add_right _ _).trans hle)
  have hreplies := along_reply hspent hg
  have hnew : ∀ n, n ∈ (acts.filterMap (AIOAction.reply socket s.files)).map Prod.fst →
      n ∉ R.map Prod.fst := by
    intro n hn
    obtain ⟨p, hp, rfl⟩ := List.mem_map.mp hn
    exact (h.unanswered hh hB hp).1
  have hwaiting : ∀ x ∈ L, x.reqFd ≠ -1 → ∀ n, s.files.file x.reqFd = some n → n ∉ R.map Prod.fst →
      n ∉ (R ++ acts.filterMap (AIOAction.reply socket s.files)).map Prod.fst := by
    intro x hx hne n hn hno hmem
    rw [List.map_append] at hmem
    obtain ⟨p, hp, rfl⟩ := List.mem_map.mp ((List.mem_append.mp hmem).resolve_left hno)
    obtain ⟨fd, hwrite, hfile⟩ := mem_replies hp
    obtain rfl := s.files.apart fd x.reqFd _ hfile hn
    have hdisj := (Multiset.nodup_add.mp (Multiset.nodup_of_le hle h.holds.nodup)).2.2
    exact Multiset.disjoint_left.mp hdisj (mem_spent hwrite)
      (Multiset.mem_add.mpr (Or.inr (mem_pendingFds.mpr ⟨x, hx, rfl, hne⟩)))
  refine
    { bad := hbad
      holds := ?_
      old := fun n hn => ?_
      readOnce := ?_
      answeredOnce := ?_
      answers := fun n rsp hrsp => ?_
      unread := fun r' hr' fd n hfd hn hmem => ?_
      waits := fun x hx hne => ?_
      unsent := ?_ }
  · rw [hk.has]
    exact ((Registry.Holds.mono h.holds hk.had).after hg).1
  · rw [List.map_append] at hn
    refine lt_of_lt_of_le ?_ (s.files.opened_after _)
    rcases List.mem_append.mp hn with hn | hn
    · exact h.old n hn
    · obtain ⟨fd, -, hfile⟩ := hB.fd hn
      exact s.files.below fd n hfile
  · rw [List.map_append]
    exact List.nodup_append'.mpr ⟨h.readOnce, hB.once, fun n hn hn' => hB.fresh n hn' hn⟩
  · rw [hreplies, List.map_append]
    exact List.nodup_append'.mpr ⟨h.answeredOnce, nodup_replies hspent.nodup,
      fun n hn hn' => hnew n hn' hn⟩
  · rw [hreplies] at hrsp
    rcases List.mem_append.mp hrsp with hrsp | hrsp
    · obtain ⟨msg, hmsg, hans⟩ := h.answers n rsp hrsp
      exact ⟨msg, List.mem_append_left _ hmsg, hans⟩
    · exact (h.unanswered hh hB hrsp).2
  · rw [List.map_append] at hmem
    rw [hP] at hr'
    rcases List.mem_append.mp hr' with hr' | hr'
    · obtain ⟨hfile, hold⟩ := h.unread_others hk hg hbad hr' hfd hn
      obtain ⟨fd', hown', hfile'⟩ := hB.fd ((List.mem_append.mp hmem).resolve_left hold)
      obtain rfl := s.files.apart fd' fd n hfile' hfile
      -- two pending requests do not name one connection
      have hnodup := h.holds.nodup
      rw [← Process.held, held_erase hr, ← hown] at hnodup
      exact Multiset.disjoint_left.mp (Multiset.nodup_add.mp hnodup).2.2 (Multiset.mem_coe.mpr hown')
        (Multiset.mem_add.mpr (Or.inl (mem_inFlight_others hbad hr' hfd hn)))
    · rcases List.mem_append.mp hr' with hr' | hr'
      · have hne : fd ≠ -1 := by
          rintro rfl
          rw [hbad] at hn
          cases hn
        have hlate := Registry.file_handedOut (handedOut_of_reads hr' hfd hne) hn
        rcases List.mem_append.mp hmem with hmem | hmem
        · exact absurd (h.old n hmem) (not_lt.mpr hlate)
        · obtain ⟨fd', -, hfile⟩ := hB.fd hmem
          exact absurd (s.files.below fd' n hfile) (not_lt.mpr hlate)
      · have hnofd := hextra r' hr'
        rw [fd_of_reads hfd] at hnofd
        cases hnofd
  · have hmem := mem_pendingFds.mpr ⟨x, hx, rfl, hne⟩
    rw [hk.file h.holds hg (Multiset.mem_of_le hk.entries hmem), hreplies]
    rcases hh.entries x hx hne with hold | ⟨msg, hmsg, hawaits⟩
    · obtain ⟨n, msg, hn, hmsg, hawaits, hno⟩ := h.waits x hold hne
      exact ⟨n, msg, hn, List.mem_append_left _ hmsg, hawaits, hwaiting x hx hne n hn hno⟩
    · have hheld : x.reqFd ∈ s.held := by
        rw [held_erase hr, ← hown]
        exact Multiset.mem_add.mpr (Or.inl (Multiset.mem_coe.mpr
          (List.mem_map.mpr ⟨_, hmsg, rfl⟩)))
      obtain ⟨n, hn⟩ := Option.ne_none_iff_exists'.mp (h.holds.isOpen _ hheld)
      have hread : (n, msg) ∈ B := (hB.own n msg).mpr ⟨x.reqFd, hmsg, hn⟩
      refine ⟨n, msg, hn, List.mem_append_right _ hread, hawaits, hwaiting x hx hne n hn ?_⟩
      exact fun hno => hB.fresh n (List.mem_map.mpr ⟨_, hread, rfl⟩) (h.answered_read hno)
  · have hkept := outgoing_kept h.bad hbad fun fd hfd => hk.file_others h.holds hg hfd
    have hout : outgoing (s.files.after (calls socket acts)) extra = 0 := by
      refine congrArg Multiset.ofList (List.filterMap_eq_nil_iff.mpr fun r' hr' => ?_)
      have hnofd := hextra r' hr'
      cases r' with
      | timeout | accept | read => rfl
      | connect | write => cases hnofd
    have hothers : outgoing s.files (s.pending.eraseIdx c.k) ≤ outgoing s.files s.pending := by
      rw [outgoing_erase s.files hr]
      exact Multiset.le_add_left _ _
    rw [hP, outgoing_append, outgoing_append, hkept, hout, add_zero,
      outgoing_submit proto hspent hg hbad, ← add_assoc]
    have hbefore := (add_le_add_right hothers ↑W).trans h.unsent
    simp only [List.map_append, ← Multiset.coe_add] at hbefore ⊢
    have hmore := add_le_add_left hbefore
      (↑((AIOAction.along AIOAction.reply socket s.files acts).map (serialized proto)) +
        ↑((AIOAction.along AIOAction.dial socket s.files acts).map (serialized proto)))
    exact hmore.trans_eq (add_add_add_comm _ _ _ _)

end

theorem Talk.round (h : Talk proto s.files s.pending s.log A R D W)
    {arrival : List (Carried WrapperMessage)} {delivery : List (Carried (List UInt8))}
    (hround : Round proto s c P L acts ops arrival delivery) (hg : s.files.Grants ops)
    (hbad : (s.files.after ops).file (-1) = none) :
    Talk proto (s.files.after ops) P L (A ++ arrival)
      (R ++ AIOAction.along AIOAction.reply c.socket s.files acts)
      (D ++ AIOAction.along AIOAction.dial c.socket s.files acts) (W ++ delivery) := by
  obtain ⟨rest, hk⟩ := hround.keeps
  have hpending : ∀ {r r' : IORequest}, s.pending[c.k]? = some r → r'.reads = r.reads →
      ∀ q ∈ [r'], ∀ fd n, q.reads = some fd → s.files.file fd = some n → n ∉ A.map Prod.fst := by
    intro r r' hr hreads q hq fd n hfd hn
    rw [List.mem_singleton.mp hq, hreads] at hfd
    exact h.unread r (List.mem_of_getElem? hr) fd n hfd hn
  have hnone : ∀ q ∈ ([] : List IORequest), ∀ fd n, q.reads = some fd →
      (s.files.after ops).file fd = some n → n ∉ A.map Prod.fst := fun q hq =>
    absurd hq List.not_mem_nil
  have hsilent : ∀ rs : List IORequest, rs.filterMap (IORequest.out (s.files.after ops)) = [] →
      outgoing (s.files.after ops) rs = 0 := fun rs hrs => congrArg Multiset.ofList hrs
  have hothers : outgoing s.files (s.pending.eraseIdx c.k) ≤ outgoing s.files s.pending :=
    Multiset.coe_le.mpr ((List.eraseIdx_sublist _ _).filterMap _).subperm
  have hout : ∀ {fd : ℤ} {buf : List UInt8} {type : AIOMessageType} {n : ℕ},
      s.files.file fd = some n → s.pending[c.k]? = some (.write fd buf type) →
      ↑(W ++ [(n, buf)]) + outgoing s.files (s.pending.eraseIdx c.k) =
        ↑W + outgoing s.files s.pending := by
    intro fd buf type n hn hr
    have hone : outgoing s.files [.write fd buf type] = {(n, buf)} := by
      simp [outgoing, IORequest.out, hn]
    rw [outgoing_erase s.files hr, hone, ← add_assoc]
    rfl
  cases hround with
  | idle => simpa [AIOAction.along, Registry.after] using h
  | failed =>
    simp only [AIOAction.along, List.append_nil]
    refine h.aside hk hg hbad (List.append_nil _).symm hnone ?_
    rw [hsilent [] rfl, add_zero]
    exact add_le_add_right hothers _
  | timed hr hh =>
    have hB : Fresh s.files [] A [] := ⟨by simp, List.nodup_nil, by simp⟩
    have hnofd : ∀ r ∈ [IORequest.timeout], r.fd = none := by simp [IORequest.fd]
    have hafter := h.handle hr hh rfl hB hg hbad hnofd rfl
    rw [List.append_nil W]
    exact hafter
  | @read L acts fd msg n hr hn hh =>
    have hnew := h.unread _ (List.mem_of_getElem? hr) fd n rfl hn
    have hB : Fresh s.files [(fd, msg)] A [(n, msg)] := by
      refine ⟨fun m msg' => ?_, List.nodup_singleton _, by simpa using hnew⟩
      simp only [List.mem_singleton, Prod.mk.injEq]
      constructor
      · rintro ⟨rfl, rfl⟩
        exact ⟨fd, ⟨rfl, rfl⟩, hn⟩
      · rintro ⟨fd', ⟨rfl, rfl⟩, hm⟩
        exact ⟨Option.some.inj (hm.symm.trans hn), rfl⟩
    have hown : ↑([(fd, msg)].map Prod.fst) = inFlight [.read fd] :=
      (inFlight_single rfl (s.ne_bad hn)).symm
    have hnofd : ∀ r ∈ ([] : List IORequest), r.fd = none := by simp
    have hafter := h.handle hr hh hown hB hg hbad hnofd (by rw [List.append_nil])
    rw [List.append_nil W]
    exact hafter
  | accepted hr hres =>
    simp only [AIOAction.along, List.append_nil]
    refine h.aside hk hg hbad rfl (fun q hq fd n hfd hn hmem => ?_) ?_
    · obtain rfl : c.res = fd := by
        rcases List.mem_cons.mp hq with rfl | hq
        · cases hfd
        · rw [List.mem_singleton.mp hq] at hfd
          exact Option.some.inj hfd
      have hlate := Registry.file_handedOut (Multiset.mem_cons_self c.res 0) hn
      exact absurd (h.old n hmem) (not_lt.mpr hlate)
    · rw [hsilent _ rfl, add_zero]
      exact add_le_add_right hothers _
  | @connected fd buf type hr =>
    simp only [AIOAction.along, List.append_nil]
    refine h.aside hk hg hbad rfl (hpending hr (by cases type <;> rfl)) ?_
    rw [outgoing_erase s.files hr, add_assoc]
    exact le_rfl
  | asked hr hn =>
    simp only [AIOAction.along, List.append_nil]
    refine h.aside hk hg hbad rfl (hpending hr rfl) ?_
    rw [hsilent _ rfl, add_zero]
    exact (hout hn hr).le
  | told hr hn =>
    simp only [AIOAction.along, List.append_nil]
    refine h.aside hk hg hbad (List.append_nil _).symm hnone ?_
    rw [hsilent [] rfl, add_zero]
    exact (hout hn hr).le

end

/-! ### Runs -/

/-- What a run reads, replies, dials and writes, by connection. -/
structure Converses (proto : Protobuf) (s : Process) (cs : List Completion) : Prop where
  readOnce : ((Process.along proto (Process.arrival proto) s cs).map Prod.fst).Nodup
  answeredOnce : ((Process.along proto (Process.replies proto) s cs).map Prod.fst).Nodup
  answers : ∀ n rsp, (n, rsp) ∈ Process.along proto (Process.replies proto) s cs →
    ∃ msg, (n, msg) ∈ Process.along proto (Process.arrival proto) s cs ∧ Answers msg rsp
  delivered : (Process.along proto Process.delivery s cs : Multiset (Carried (List UInt8))) ≤
    ↑((Process.along proto (Process.replies proto) s cs ++
      Process.along proto (Process.dials proto) s cs).map (serialized proto))

theorem Talk.run {s : Process} {cs : List Completion} {A R D : List (Carried WrapperMessage)}
    {W : List (Carried (List UInt8))} (h : Talk proto s.files s.pending s.log A R D W)
    (hok : s.Orderly proto cs) :
    ∃ t P L, Talk proto t P L (A ++ Process.along proto (Process.arrival proto) s cs)
      (R ++ Process.along proto (Process.replies proto) s cs)
      (D ++ Process.along proto (Process.dials proto) s cs)
      (W ++ Process.along proto Process.delivery s cs) := by
  induction cs generalizing s A R D W with
  | nil =>
    simp only [Process.along, List.append_nil]
    exact ⟨_, _, _, h⟩
  | cons c cs ih =>
    obtain ⟨⟨hkernel, hin⟩, hrest⟩ := hok
    have hnext := h.round (round_step hkernel hin) hkernel.grants (s.step proto c).bad
    have hlater := ih hnext hrest
    simp only [Process.along, ← List.append_assoc]
    exact hlater

/-- Every reply goes to the connection that the request came on, whose number may have stood
for any other connections before: no connection is read or answered twice, a reply answers
what was read, and only replies and the requests that are dialed are written. -/
theorem replies_return (proto : Protobuf) (clusterId serverId : ℤ) (shard : Table ℤ)
    (files : Registry ℤ) (bad : files.file (-1) = none) (cs : List Completion)
    (h : (Process.start (.new clusterId serverId shard) files bad).Orderly proto cs) :
    Converses proto (.start (.new clusterId serverId shard) files bad) cs := by
  have hstart : Talk proto files (Process.start (.new clusterId serverId shard) files bad).pending
      (Process.start (.new clusterId serverId shard) files bad).log [] [] [] [] :=
    { bad := bad
      holds := holds_start bad rfl
      old := by simp
      readOnce := List.nodup_nil
      answeredOnce := List.nodup_nil
      answers := by simp
      unread := by simp
      waits := fun x hx => absurd hx List.not_mem_nil
      unsent := le_rfl }
  obtain ⟨t, P, L, hend⟩ := hstart.run h
  simp only [List.nil_append] at hend
  exact ⟨hend.readOnce, hend.answeredOnce, hend.answers,
    (Multiset.le_add_right _ _).trans hend.unsent⟩

theorem replies_return_twice :
    (Process.along wire (Process.replies wire) (.start (.new 0 0 purse) .empty rfl) askTwice).map
        Prod.fst = [0, 1] ∧ Converses wire (.start (.new 0 0 purse) .empty rfl) askTwice :=
  ⟨by decide, replies_return wire 0 0 purse .empty rfl askTwice (by decide)⟩

end Raft2PC
