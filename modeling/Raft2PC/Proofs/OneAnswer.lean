import Raft2PC.Proofs.LeaderAdvances
import Raft2PC.Sanity.Answers

/-! At most one answer per request of a client. A pending connection is that of one entry,
nothing has been written to it, and only the commit of that entry writes a positive answer. -/

namespace Raft2PC

open AIOServer AppendEntriesExecutor

/-- What is pending in `L'` is pending in `L` at the same position. -/
def Pends (L L' : List LogEntry) : Prop :=
  ∀ (i : ℕ) (x : LogEntry), L'[i]? = some x → x.reqFd ≠ -1 → L[i]? = some x

theorem Pends.refl (L : List LogEntry) : Pends L L := fun _ _ hx _ => hx

/-- The four ways in which a step of server `p` can write to connections and change what is
pending in its log. -/
inductive Exchange (s : Cluster) (e : Event) (p : Idx) (L' : List LogEntry)
    (acts : List AIOAction) : Prop
  | silent (hL : Pends (s.raft p).log L') (hno : ∀ fd, answersOn fd acts = [])
  | refused (fd : ℤ) (hread : s.reads e p = some fd) (hL : Pends (s.raft p).log L')
      (hacts : Refuses fd acts)
  | admitted (fd : ℤ) (m : ClientMsg) (x : LogEntry) (he : e.action = .request p fd m)
      (hx : created fd (s.raft p) m = some x) (hfd : x.reqFd = fd)
      (hL : L' = (s.raft p).log ++ [x]) (hno : ∀ fd', answersOn fd' acts = [])
  | committed (hrole : (s.raft p).role = .leader)
      (hacts : OwnFds (s.raft p).log → Replies (s.raft p).log L' acts (looped s e p))

theorem pends_append {L : List LogEntry} {x : LogEntry} (hx : x.reqFd = -1) :
    Pends L (L ++ [x]) := by
  intro i y hy hne
  rcases lt_or_ge i L.length with hi | hi
  · rwa [List.getElem?_append_left hi] at hy
  · rw [List.getElem?_append_right hi, List.getElem?_singleton] at hy
    split_ifs at hy
    obtain rfl := Option.some.inj hy
    exact absurd hx hne

open Cluster in
theorem exchange_request (s : Cluster) (p : Idx) (fd : ℤ) (m : ClientMsg) (u : Undefined) :
    Exchange s ⟨.request p fd m, u⟩ p ((s.step ⟨.request p fd m, u⟩).raft p).log
      (s.emits ⟨.request p fd m, u⟩ p) := by
  have hread : s.reads ⟨.request p fd m, u⟩ p = some fd := by simp [reads]
  have hacts : s.emits ⟨.request p fd m, u⟩ p = (process u fd (s.servers p) m.msg).2 := by
    simp [emits]
  have hraft : (s.step ⟨.request p fd m, u⟩).raft p =
      if (s.servers p).pretendFail then s.raft p else serve u fd (s.raft p) m := by
    rw [(step_request s p fd m u).1, Cluster.set, Function.update_self]
  rw [hacts, hraft]
  cases hp : (s.servers p).pretendFail with
  | true =>
    rcases answers_client u fd (s.servers p) m with hno | ⟨hyes, -⟩
    · exact .silent (.refl _) hno
    · exact .refused fd hread (.refl _) hyes
  | false =>
    rw [if_neg Bool.false_ne_true]
    have hlog := serve_log u fd (s.raft p) m
    cases hx : created fd (s.raft p) m with
    | none =>
      rw [hx, Option.toList_none, List.append_nil] at hlog
      rw [hlog]
      rcases answers_client u fd (s.servers p) m with hno | ⟨hyes, -⟩
      · exact .silent (.refl _) hno
      · exact .refused fd hread (.refl _) hyes
    | some x =>
      rw [hx, Option.toList_some] at hlog
      by_cases hfd : x.reqFd = -1
      · rw [hlog]
        rcases answers_client u fd (s.servers p) m with hno | ⟨hyes, -⟩
        · exact .silent (pends_append hfd) hno
        · exact .refused fd hread (pends_append hfd) hyes
      · rcases answers_client u fd (s.servers p) m with hno | ⟨-, hnone⟩
        · exact .admitted fd m x rfl hx (created_fd hx hfd) hlog hno
        · exact absurd (hnone x hx) hfd

open Cluster in
theorem exchange_deliver {s : Cluster} {p : Idx} {k : ℕ} {fd : ℤ} {u : Undefined}
    {c : Connection} (hcount : Counters (s.raft p)) (hk : s.net[k]? = some c)
    (hp : (s.servers p).pretendFail = false) (hc : c.reader = p) :
    Exchange s ⟨.deliver k fd, u⟩ p ((s.step ⟨.deliver k fd, u⟩).raft p).log
      (s.emits ⟨.deliver k fd, u⟩ p) := by
  subst hc
  have hread : s.reads ⟨.deliver k fd, u⟩ c.reader = some fd := by simp [reads, hk]
  have hacts : s.emits ⟨.deliver k fd, u⟩ c.reader =
      (dispatch u fd (s.raft c.reader) c.msg).2 := by
    simp only [emits, hk, if_true]
    rw [process_dispatch u fd (administers_connection c) hp]
    rfl
  rw [hacts, (step_deliver fd u hk hp).1, Cluster.set, Function.update_self]
  obtain ⟨src, dst, call⟩ := c
  cases call with
  | voteReq req =>
    refine .refused fd hread ?_ (refuses_voteReq fd _ req)
    simp only [Connection.reader, Connection.msg, dispatch]
    rw [(untouched_voteReq fd _ req).log]
    exact .refl _
  | voteRsp req rsp =>
    refine .silent ?_ (silent_voteRsp u fd _ rsp)
    simp only [Connection.reader, Connection.msg]
    rw [(untouched_voteRsp u fd _ rsp).log]
    exact .refl _
  | appendReq req =>
    refine .refused fd hread ?_ (refuses_appendReq u fd _ req)
    simp only [Connection.reader, Connection.msg, dispatch]
    by_cases hlt : req.term < (s.raft dst).currentTerm
    · rw [append_stale u fd hlt]
      exact .refl _
    · cases hmis : mismatch u (s.raft dst) req with
      | true =>
        rw [append_mismatched fd (not_lt.mp hlt) hmis]
        exact .refl _
      | false =>
        rw [append_accepted fd (not_lt.mp hlt) hmis]
        exact fun i x hx hne => pending_mergeEntries u _ _ _ hx hne
  | appendRsp req rsp =>
    simp only [Connection.reader, Connection.msg, dispatch] at hp hcount ⊢
    cases hdec : decides u (s.raft src) rsp with
    | true =>
      have hloop : looped s ⟨.deliver k fd, u⟩ src =
          indices ((s.raft src).commitIndex + 1) (s.raft src).comingCommitIndex := by
        simp [looped, hk, hp, hdec]
      obtain ⟨hrole, -⟩ := decides_spec hdec
      refine .committed hrole fun hL => ?_
      rw [hloop]
      refine replies_executeRsp fd hL hdec fun i hi => ?_
      have hlow := hcount.low
      have hin := hcount.inLog hrole
      obtain ⟨hlo, hhi⟩ := mem_indices.mp hi
      exact ⟨by omega, by omega⟩
    | false =>
      refine .silent ?_ (silent_executeRsp fd hdec)
      rw [(untouched_rsp hdec).log]
      exact .refl _

open Cluster in
theorem exchange_step {s : Cluster} {p : Idx} (hcount : Counters (s.raft p)) (e : Event) :
    Exchange s e p ((s.step e).raft p).log (s.emits e p) := by
  obtain ⟨action, u⟩ := e
  cases action with
  | lose k => exact .silent (.refl _) fun _ => rfl
  | timeout q =>
    rw [(step_timeout s q u).1]
    by_cases hq : q = p
    · subst hq
      refine .silent ?_ ?_
      · rw [Cluster.set, Function.update_self, (untouched_timeout u _).log]
        exact .refl _
      · simp only [emits, if_true]
        exact silent_timeout u _
    · refine .silent ?_ ?_
      · rw [Cluster.set, Function.update_of_ne (Ne.symm hq)]
        exact .refl _
      · simp [emits, hq]
  | request q fd m =>
    by_cases hq : q = p
    · subst hq
      exact exchange_request s q fd m u
    · refine .silent ?_ ?_
      · rw [(step_request s q fd m u).1, Cluster.set, Function.update_of_ne (Ne.symm hq)]
        exact .refl _
      · simp [emits, hq]
  | deliver k fd =>
    cases hk : s.net[k]? with
    | none =>
      rw [step_deliver_none fd u hk]
      exact .silent (.refl _) (by simp [emits, hk])
    | some c =>
      by_cases hc : c.reader = p
      · cases hp : (s.servers p).pretendFail with
        | true =>
          have hproc := process_pretending u fd (administers_connection c) hp
          refine .silent ?_ ?_
          · rw [(step_deliver_stopped fd u hk (hc ▸ hp)).1]
            exact .refl _
          · simp [emits, hk, hc, hproc]
        | false => exact exchange_deliver hcount hk hp hc
      · refine .silent ?_ ?_
        · cases hp : (s.servers c.reader).pretendFail with
          | true =>
            rw [(step_deliver_stopped fd u hk hp).1]
            exact .refl _
          | false =>
            rw [(step_deliver fd u hk hp).1, Cluster.set, Function.update_of_ne (Ne.symm hc)]
            exact .refl _
        · simp [emits, hk, hc]

/-! ### Runs -/

variable {p : Idx} {s : Cluster} {es : List Event} {e : Event} {fd : ℤ}

theorem sockets_append (p : Idx) (s : Cluster) (a b : List Event) :
    sockets p s (a ++ b) = sockets p s a ++ sockets p (s.run a) b := by
  induction a generalizing s with
  | nil => rfl
  | cons e a ih =>
    rw [List.cons_append, sockets, sockets, ih, List.append_assoc]
    rfl

theorem written_append (p : Idx) (fd : ℤ) (s : Cluster) (a b : List Event) :
    written p fd s (a ++ b) = written p fd s a ++ written p fd (s.run a) b := by
  induction a generalizing s with
  | nil => rfl
  | cons e a ih =>
    rw [List.cons_append, written, written, ih, List.append_assoc]
    rfl

theorem sockets_snoc (p : Idx) (s : Cluster) (es : List Event) (e : Event) :
    sockets p s (es ++ [e]) = sockets p s es ++ ((s.run es).reads e p).toList := by
  rw [sockets_append, sockets, sockets, List.append_nil]

theorem written_snoc (p : Idx) (fd : ℤ) (s : Cluster) (es : List Event) (e : Event) :
    written p fd s (es ++ [e]) = written p fd s es ++ answersOn fd ((s.run es).emits e p) := by
  rw [written_append, written, written, List.append_nil]

theorem mem_sockets {a b : List Event} (hread : (s.run a).reads e p = some fd) :
    fd ∈ sockets p s (a ++ e :: b) := by
  rw [sockets_append, sockets, hread]
  simp

theorem read_once {a a' b b' : List Event} {e' : Event}
    (honce : (sockets p s (a ++ e :: b)).Nodup) (hes : a ++ e :: b = a' ++ e' :: b')
    (hread : (s.run a).reads e p = some fd) (hread' : (s.run a').reads e' p = some fd) :
    a = a' ∧ e = e' := by
  have hlater : ∀ {s : Cluster} {e f : Event} {c d : List Event}, s.reads e p = some fd →
      (((s.step e).run c).reads f p = some fd) →
      ¬(sockets p s (e :: (c ++ f :: d))).Nodup := by
    intro s e f c d hfirst hsecond hnodup
    rw [sockets, hfirst, Option.toList_some, List.singleton_append, List.nodup_cons] at hnodup
    exact hnodup.1 (mem_sockets hsecond)
  induction a generalizing s a' with
  | nil =>
    cases a' with
    | nil =>
      obtain ⟨rfl, -⟩ := List.cons.inj hes
      exact ⟨rfl, rfl⟩
    | cons f c =>
      obtain ⟨rfl, rfl⟩ := List.cons.inj hes
      exact absurd honce (hlater hread hread')
  | cons f c ih =>
    cases a' with
    | nil =>
      obtain ⟨rfl, -⟩ := List.cons.inj hes
      exact absurd honce (hlater hread' hread)
    | cons f' c' =>
      obtain ⟨rfl, hrest⟩ := List.cons.inj hes
      rw [List.cons_append, sockets] at honce
      obtain ⟨rfl, rfl⟩ := ih (List.nodup_append.mp honce).2.1 hrest hread hread'
      exact ⟨rfl, rfl⟩

/-- Within the run `es` a request on `fd` created the entry `x` at position `i`. -/
def CreatedAt (p : Idx) (s : Cluster) (es : List Event) (fd : ℤ) (i : ℕ) (x : LogEntry) : Prop :=
  ∃ a e b m, es = a ++ e :: b ∧ e.action = .request p fd m ∧
    created fd ((s.run a).raft p) m = some x ∧ i = ((s.run a).raft p).log.length

theorem CreatedAt.snoc {i : ℕ} {x : LogEntry} (h : CreatedAt p s es fd i x) (e : Event) :
    CreatedAt p s (es ++ [e]) fd i x := by
  obtain ⟨a, e', b, m, rfl, hreq, hx, hi⟩ := h
  exact ⟨a, e', b ++ [e], m, by simp, hreq, hx, hi⟩

theorem reads_request {m : ClientMsg} (hreq : e.action = .request p fd m) (s : Cluster) :
    s.reads e p = some fd := by
  simp [Cluster.reads, hreq]

theorem CreatedAt.read {i : ℕ} {x : LogEntry} (h : CreatedAt p s es fd i x) :
    fd ∈ sockets p s es := by
  obtain ⟨a, e, b, m, rfl, hreq, -⟩ := h
  exact mem_sockets (reads_request hreq _)

/-- The pending connections after a run. -/
structure Pending (p : Idx) (s : Cluster) (es : List Event) : Prop where
  own : OwnFds ((s.run es).raft p).log
  origin : ∀ (i : ℕ) (x : LogEntry), ((s.run es).raft p).log[i]? = some x → x.reqFd ≠ -1 →
    CreatedAt p s es x.reqFd i x
  unanswered : ∀ (i : ℕ) (x : LogEntry), ((s.run es).raft p).log[i]? = some x → x.reqFd ≠ -1 →
    written p x.reqFd s es = []
  unread : ∀ fd, fd ∉ sockets p s es → written p fd s es = []
  once : ∀ fd, (written p fd s es).length ≤ 1

theorem FreshSockets.prefix {b : List Event} (h : FreshSockets p s (es ++ b)) :
    FreshSockets p s es := by
  obtain ⟨hnodup, hnonneg⟩ := h
  rw [sockets_append] at hnodup hnonneg
  exact ⟨(List.nodup_append.mp hnodup).1, fun fd hfd => hnonneg fd (List.mem_append_left _ hfd)⟩

theorem FreshSockets.unread (h : FreshSockets p s (es ++ [e]))
    (hread : (s.run es).reads e p = some fd) : fd ∉ sockets p s es := by
  intro hmem
  have hnodup := h.nodup
  rw [sockets_snoc, hread] at hnodup
  exact (List.nodup_append.mp hnodup).2.2 fd hmem fd (List.mem_singleton_self fd) rfl

theorem run_snoc (s : Cluster) (es : List Event) (e : Event) :
    s.run (es ++ [e]) = (s.run es).step e := by
  rw [Cluster.run_append]
  rfl

/-- A step that admits nothing, and writes only to connections that have had no answer. -/
theorem Pending.kept (h : Pending p s es)
    (hpend : Pends ((s.run es).raft p).log ((s.run (es ++ [e])).raft p).log)
    (hno : ∀ (i : ℕ) (x : LogEntry), ((s.run (es ++ [e])).raft p).log[i]? = some x →
      x.reqFd ≠ -1 → answersOn x.reqFd ((s.run es).emits e p) = [])
    (hunread : ∀ fd, fd ∉ sockets p s (es ++ [e]) → answersOn fd ((s.run es).emits e p) = [])
    (honce : ∀ fd, answersOn fd ((s.run es).emits e p) = [] ∨ written p fd s es = [] ∧
      (answersOn fd ((s.run es).emits e p)).length ≤ 1) : Pending p s (es ++ [e]) where
  own i j x y hx hy hxy hne := h.own i j x y (hpend i x hx hne) (hpend j y hy (hxy ▸ hne)) hxy hne
  origin i x hx hne := (h.origin i x (hpend i x hx hne) hne).snoc e
  unanswered i x hx hne := by
    rw [written_snoc, h.unanswered i x (hpend i x hx hne) hne, hno i x hx hne]
    rfl
  unread fd hfd := by
    have hold : fd ∉ sockets p s es := by
      intro hmem
      rw [sockets_snoc] at hfd
      exact hfd (List.mem_append_left _ hmem)
    rw [written_snoc, h.unread fd hold, hunread fd hfd]
    rfl
  once fd := by
    rw [written_snoc]
    rcases honce fd with hnil | ⟨hnil, hone⟩
    · rw [hnil, List.append_nil]
      exact h.once fd
    · rw [hnil, List.nil_append]
      exact hone

/-- The entry of a request that is admitted waits on a connection nothing was written to. -/
theorem Pending.admit (h : Pending p s es) (hfresh : FreshSockets p s (es ++ [e]))
    {m : ClientMsg} {x : LogEntry} (he : e.action = .request p fd m)
    (hx : created fd ((s.run es).raft p) m = some x) (hfd : x.reqFd = fd)
    (hlog : ((s.run (es ++ [e])).raft p).log = ((s.run es).raft p).log ++ [x])
    (hno : ∀ fd', answersOn fd' ((s.run es).emits e p) = []) : Pending p s (es ++ [e]) := by
  have hread := reads_request he (s.run es)
  have hnew : fd ∉ sockets p s es := hfresh.unread hread
  have hsame : ∀ fd', written p fd' s (es ++ [e]) = written p fd' s es := by
    intro fd'
    rw [written_snoc, hno, List.append_nil]
  have hcases : ∀ (i : ℕ) (y : LogEntry), ((s.run (es ++ [e])).raft p).log[i]? = some y →
      y.reqFd ≠ -1 → (((s.run es).raft p).log[i]? = some y ∧ y.reqFd ∈ sockets p s es) ∨
        i = ((s.run es).raft p).log.length ∧ y = x := by
    intro i y hy hne
    rw [hlog] at hy
    rcases lt_or_ge i ((s.run es).raft p).log.length with hi | hi
    · rw [List.getElem?_append_left hi] at hy
      exact Or.inl ⟨hy, (h.origin i y hy hne).read⟩
    · rw [List.getElem?_append_right hi, List.getElem?_singleton] at hy
      split_ifs at hy
      obtain rfl := Option.some.inj hy
      exact Or.inr ⟨by omega, rfl⟩
  constructor
  · intro i j y z hy hz hyz hne
    rcases hcases i y hy hne with ⟨hy', hold⟩ | ⟨hi, rfl⟩
    · rcases hcases j z hz (hyz ▸ hne) with ⟨hz', -⟩ | ⟨-, rfl⟩
      · exact h.own i j y z hy' hz' hyz hne
      · rw [hyz, hfd] at hold
        exact absurd hold hnew
    · rcases hcases j z hz (hyz ▸ hne) with ⟨-, hold⟩ | ⟨hj, rfl⟩
      · rw [← hyz, hfd] at hold
        exact absurd hold hnew
      · rw [hi, hj]
  · intro i y hy hne
    rcases hcases i y hy hne with ⟨hy', -⟩ | ⟨hi, rfl⟩
    · exact (h.origin i y hy' hne).snoc e
    · rw [hfd]
      exact ⟨es, e, [], m, rfl, he, hx, hi⟩
  · intro i y hy hne
    rw [hsame]
    rcases hcases i y hy hne with ⟨hy', -⟩ | ⟨-, rfl⟩
    · exact h.unanswered i y hy' hne
    · rw [hfd]
      exact h.unread fd hnew
  · intro fd' hfd'
    rw [sockets_snoc] at hfd'
    rw [hsame]
    exact h.unread fd' fun hmem => hfd' (List.mem_append_left _ hmem)
  · intro fd'
    rw [hsame]
    exact h.once fd'

theorem Pending.snoc (h : Pending p s es) (hfresh : FreshSockets p s (es ++ [e]))
    (hcount : Counters ((s.run es).raft p)) : Pending p s (es ++ [e]) := by
  have hex := exchange_step hcount e
  rw [← run_snoc] at hex
  cases hex with
  | silent hpend hno =>
    exact h.kept hpend (fun _ _ _ _ => hno _) (fun fd _ => hno fd) fun fd => Or.inl (hno fd)
  | refused fd hread hpend hacts =>
    obtain ⟨msg, -, hacts⟩ := hacts
    have hnew := hfresh.unread hread
    refine h.kept hpend (fun i x hx hne => ?_) (fun fd' hfd' => ?_) fun fd' => ?_
    · rw [hacts, if_neg]
      rintro rfl
      exact hnew (h.origin i x (hpend i x hx hne) hne).read
    · rw [hacts, if_neg]
      rintro rfl
      rw [sockets_snoc, hread] at hfd'
      exact hfd' (List.mem_append_right _ (List.mem_singleton_self fd))
    · rw [hacts]
      split_ifs with hfd
      · subst hfd
        exact Or.inr ⟨h.unread fd hnew, le_rfl⟩
      · exact Or.inl rfl
  | admitted fd m x he hx hfd hlog hno => exact h.admit hfresh he hx hfd hlog hno
  | committed hrole hacts =>
    have hrep := hacts h.own
    have hpend : Pends _ _ := fun i x hx hne => (hrep.kept i x hx hne).1
    refine h.kept hpend (fun i x hx hne => (hrep.kept i x hx hne).2) (fun fd hfd => ?_) fun fd => ?_
    · apply List.eq_nil_iff_forall_not_mem.mpr
      intro msg hmsg
      obtain ⟨i, x, hx, rfl, hne, -⟩ := hrep.origin fd msg hmsg
      have hold := (h.origin i x hx hne).read
      rw [sockets_snoc] at hfd
      exact hfd (List.mem_append_left _ hold)
    · rcases List.eq_nil_or_concat (answersOn fd ((s.run es).emits e p)) with hnil | ⟨_, msg, hmsg⟩
      · exact Or.inl hnil
      · obtain ⟨i, x, hx, rfl, hne, -⟩ := hrep.origin fd msg (by simp [hmsg])
        exact Or.inr ⟨h.unanswered i x hx hne, hrep.once _⟩

theorem run_nil_log (p : Idx) (cid : ℕ) (shard : Table ℤ) :
    (((Cluster.init cid shard).run []).raft p).log = [] := rfl

theorem pending_nil (p : Idx) (cid : ℕ) (shard : Table ℤ) :
    Pending p (Cluster.init cid shard) [] where
  own _ _ _ _ hx := absurd hx (by simp [run_nil_log])
  origin _ _ hx := absurd hx (by simp [run_nil_log])
  unanswered _ _ _ _ := rfl
  unread _ _ := rfl
  once _ := Nat.zero_le _

theorem Pending.run {cid : ℕ} {shard : Table ℤ}
    (hfresh : FreshSockets p (Cluster.init cid shard) es) :
    Pending p (Cluster.init cid shard) es := by
  induction es using List.reverseRecOn with
  | nil => exact pending_nil p cid shard
  | append_singleton es e ih =>
    obtain ⟨h, hl⟩ := (leading_init cid shard).run es
    exact (ih hfresh.prefix).snoc hfresh (hl.counters p)

/-- What server `p` writes to the connection `fd` of the request `m` it reads after the
events `a` of a run. -/
structure OneAnswer (p : Idx) (fd : ℤ) (m : ClientMsg) (s : Cluster) (a es : List Event) :
    Prop where
  once : (written p fd s es).length ≤ 1
  exclusive : ∀ msg ∈ written p fd s es, ∀ msg' ∈ written p fd s es,
    isPositive msg = isPositive msg'
  atCommit : ∀ c e d, es = c ++ e :: d → ∀ msg ∈ answersOn fd ((s.run c).emits e p),
    isPositive msg = true → ((s.run c).raft p).role = .leader ∧
      ∃ x, created fd ((s.run a).raft p) m = some x ∧
        ((s.run c).raft p).log[((s.run a).raft p).log.length]? = some x ∧
        (((s.run a).raft p).log.length : ℤ) ∈ looped (s.run c) e p

/-- A positive answer is written in a commit loop that reaches the pending entry. -/
theorem Pending.positive (h : Pending p s es) (hcount : Counters ((s.run es).raft p))
    {msg : WrapperMessage} (hmsg : msg ∈ answersOn fd ((s.run es).emits e p))
    (hpos : isPositive msg = true) : ((s.run es).raft p).role = .leader ∧
      ∃ (i : ℕ) (x : LogEntry), ((s.run es).raft p).log[i]? = some x ∧ CreatedAt p s es fd i x ∧
        (i : ℤ) ∈ looped (s.run es) e p := by
  cases exchange_step hcount e with
  | silent hpend hno =>
    rw [hno] at hmsg
    cases hmsg
  | refused fd' hread hpend hacts =>
    obtain ⟨msg', hneg, hacts⟩ := hacts
    rw [hacts] at hmsg
    split_ifs at hmsg
    · rw [List.mem_singleton.mp hmsg, hneg] at hpos
      cases hpos
    · cases hmsg
  | admitted fd' m x he hx hfd hlog hno =>
    rw [hno] at hmsg
    cases hmsg
  | committed hrole hacts =>
    obtain ⟨i, x, hx, rfl, hne, hi⟩ := (hacts h.own).origin fd msg hmsg
    exact ⟨hrole, i, x, hx, h.origin i x hx hne, hi⟩

/-- In every run in which no connection is read twice, a client's request gets at most one
answer, and a positive one only when its own entry is committed by the LEADER. -/
theorem one_answer (p : Idx) (cid : ℕ) (shard : Table ℤ) (a b : List Event) (e : Event) (fd : ℤ)
    (m : ClientMsg) (hreq : e.action = .request p fd m)
    (hfresh : FreshSockets p (Cluster.init cid shard) (a ++ e :: b)) :
    OneAnswer p fd m (Cluster.init cid shard) a (a ++ e :: b) := by
  have honce := (Pending.run hfresh).once fd
  refine ⟨honce, fun msg hmsg msg' hmsg' => ?_, fun c e' d hes msg hmsg hpos => ?_⟩
  · rcases Nat.le_one_iff_eq_zero_or_eq_one.mp honce with hzero | hone
    · rw [List.length_eq_zero_iff.mp hzero] at hmsg
      cases hmsg
    · obtain ⟨only, honly⟩ := List.length_eq_one_iff.mp hone
      rw [honly, List.mem_singleton] at hmsg hmsg'
      rw [hmsg, hmsg']
  · have hprefix := hfresh
    rw [hes] at hprefix
    obtain ⟨h, hl⟩ := (leading_init cid shard).run c
    obtain ⟨hrole, i, x, hx, hat, hi⟩ :=
      (Pending.run hprefix.prefix).positive (hl.counters p) hmsg hpos
    obtain ⟨a', e₀, c', m', rfl, hreq', hcreated, rfl⟩ := hat
    rw [List.append_assoc, List.cons_append] at hes
    obtain ⟨rfl, rfl⟩ := read_once hfresh.nodup hes (reads_request hreq _)
      (reads_request hreq' _)
    obtain rfl : m = m' := by
      rw [hreq] at hreq'
      exact (Action.request.inj hreq').2.2
    exact ⟨hrole, x, hcreated, hx, hi⟩

/-- Server 1 is elected, takes a transfer on connection 7 and commits it. -/
def payElected : List Event := calmly [.timeout 1, .deliver 0 3, .deliver 1 4]

def payCommitted : List Event := calmly
  [.timeout 1, .deliver 3 5, .deliver 4 6, .deliver 3 5, .deliver 3 8]

theorem one_answer_paid :
    let es := payElected ++ ⟨.request 1 7 (pay 1 100 200 5), .zero⟩ :: payCommitted
    written 1 7 (Cluster.init 0 purse) es = [.intraShardRsp { result := .success, id := 1 }] ∧
      OneAnswer 1 7 (pay 1 100 200 5) (Cluster.init 0 purse) payElected es :=
  ⟨by decide +kernel, one_answer 1 0 purse payElected payCommitted _ 7 _ rfl (by decide +kernel)⟩

end Raft2PC
