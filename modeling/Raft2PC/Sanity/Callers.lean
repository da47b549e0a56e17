import Raft2PC.Sanity.Requests

/-! How a coroutine of the routing service goes on when it is resumed: it awaits again, it
returns to its caller, or an exception ends it. Only the return touches a queue or forwards
a request. -/

namespace Raft2PC

/-- What goes on when the coroutine is done. -/
def Task.caller : Task → Caller
  | .prepare _ _ k | .commit _ k | .committed _ k | .abort _ _ k | .aborted _ _ k | .intra _ k
  | .replied _ k => k

inductive Next where
  | waits
  | returns
  | ends
deriving DecidableEq, Repr

/-- How the task goes on in state `s` when its await ends with `o`. -/
def Task.next (s : Routing) (o : Outcome) : Task → Next
  | .prepare req _ _ =>
    match o with
    | .answer .yes => if s.numReply req.id + 1 = 2 then .waits else .returns
    | .answer .no => if s.numReply req.id ≠ -1 then .waits else .returns
    | .answer .ack => .returns
    | .timeout => if s.numReply req.id ≠ -1 then .waits else .ends
    | .returns | .raises => .ends
  | .commit .. | .abort .. => .waits
  | .committed .. | .replied .. => if o = .raises then .ends else .returns
  | .aborted _ timedOut _ => if o = .raises ∨ timedOut then .ends else .returns
  | .intra .. => if o = .raises ∨ o = .timeout then .ends else .waits

/-- The message forwards a request to a server. -/
def Traffic.forwards : Traffic → Bool
  | .prepare .. | .intra .. => true
  | _ => false

namespace Routing

/-- From `a` to `b` only the counters change, and traffic that forwards nothing. -/
structure Aside (a b : Routing) : Prop where
  leaders : b.service.leaderPerCluster = a.service.leaderPerCluster
  queues : b.service.transactionRequest = a.service.transactionRequest
  tasks : b.tasks = a.tasks
  job : b.job = a.job
  traffic : ∃ extra, b.traffic = a.traffic ++ extra ∧ ∀ t ∈ extra, t.forwards = false

namespace Aside

theorem refl (a : Routing) : Aside a a :=
  ⟨rfl, rfl, rfl, rfl, [], (List.append_nil _).symm, fun _ ht => absurd ht List.not_mem_nil⟩

theorem trans {a b c : Routing} (h₁ : Aside a b) (h₂ : Aside b c) : Aside a c := by
  obtain ⟨e₁, he₁, hno₁⟩ := h₁.traffic
  obtain ⟨e₂, he₂, hno₂⟩ := h₂.traffic
  refine ⟨h₂.leaders.trans h₁.leaders, h₂.queues.trans h₁.queues, h₂.tasks.trans h₁.tasks,
    h₂.job.trans h₁.job, e₁ ++ e₂, by rw [he₂, he₁, List.append_assoc], fun t ht => ?_⟩
  rcases List.mem_append.mp ht with ht | ht
  · exact hno₁ t ht
  · exact hno₂ t ht

theorem setNumReply (a : Routing) (i n : ℤ) : Aside a (a.setNumReply i n) :=
  ⟨rfl, rfl, rfl, rfl, [], (List.append_nil _).symm, fun _ ht => absurd ht List.not_mem_nil⟩

theorem newId (a : Routing) : Aside a a.newId :=
  ⟨rfl, rfl, rfl, rfl, [], (List.append_nil _).symm, fun _ ht => absurd ht List.not_mem_nil⟩

theorem record (a : Routing) {t : Traffic} (ht : t.forwards = false) : Aside a (a.record t) := by
  refine ⟨rfl, rfl, rfl, rfl, [t], rfl, fun t' ht' => ?_⟩
  rw [List.mem_singleton.mp ht']
  exact ht

end Aside

/-- A task that goes on in state `s` as `Task.next` says. -/
inductive Goes (s : Routing) (now : ℤ) (t : Task) : Next → Routing → Prop
  | waits {a : Routing} {t' : Task} (h : Aside s a) (hk : t'.caller = t.caller) :
      Goes s now t .waits (a.await t')
  | returns {a : Routing} (h : Aside s a) : Goes s now t .returns (a.return_ now t.caller)
  | ends {a : Routing} (h : Aside s a) : Goes s now t .ends a

theorem goes_answered (s : Routing) (now : ℤ) (req : CrossShardReq) (c : ℕ) (k : Caller)
    (o : Outcome) :
    Goes s now (.prepare req c k) ((Task.prepare req c k).next s o) (s.answered now req c k o) := by
  have hans : ∀ r, Aside s (s.record (.answer req c r)) := fun r => .record s rfl
  cases o with
  | returns | raises => exact .ends (.refl s)
  | timeout =>
    simp only [Task.next, answered]
    split_ifs
    · exact .waits (.record s rfl) rfl
    · exact .ends (.setNumReply s _ _)
  | answer r =>
    cases r with
    | ack => exact .returns (hans .ack)
    | no =>
      have hnum : (s.record (.answer req c .no)).numReply req.id = s.numReply req.id := rfl
      simp only [Task.next, answered, hnum]
      split_ifs
      · exact .waits ((hans .no).trans (.record _ rfl)) rfl
      · exact .returns ((hans .no).trans (.setNumReply _ _ _))
    | yes =>
      have hnum : ((s.record (.answer req c .yes)).setNumReply req.id
          (s.numReply req.id + 1)).numReply req.id = s.numReply req.id + 1 := by
        rw [numReply_setNumReply, if_pos rfl]
      simp only [Task.next, answered, hnum]
      split_ifs
      · exact .waits (((hans .yes).trans (.setNumReply _ _ _)).trans (.record _ rfl)) rfl
      · exact .returns ((hans .yes).trans (.setNumReply _ _ _))

theorem goes_resume (s : Routing) (now : ℤ) (o : Outcome) (t : Task) :
    Goes s now t (t.next s o) (s.resume now o t) := by
  cases t with
  | prepare req c k => exact goes_answered s now req c k o
  | commit req k | abort req timedOut k => exact .waits (.record s rfl) rfl
  | intra req k =>
    simp only [Task.next, resume]
    split_ifs
    · exact .ends (.refl s)
    · exact .waits (.record s rfl) rfl
  | committed req k | replied req k =>
    simp only [Task.next, resume]
    split_ifs
    · exact .ends (.refl s)
    · exact .returns (.refl s)
  | aborted req timedOut k =>
    have hmark := Aside.setNumReply s req.id (-1)
    simp only [Task.next, resume]
    by_cases ho : o = .raises
    · rw [if_pos (Or.inl ho), if_pos ho]
      exact .ends (.refl s)
    · cases timedOut with
      | true =>
        rw [if_pos (Or.inr rfl), if_neg ho, if_pos rfl]
        exact .ends hmark
      | false =>
        rw [if_neg (by simp [ho]), if_neg ho, if_neg Bool.false_ne_true]
        exact .returns hmark

/-- What resuming a coroutine does, if there is one. -/
theorem resume_cases (s : Routing) (now : ℤ) (n : ℕ) (o : Outcome) :
    s.tasks[n]? = none ∧ s.step ⟨.resume n o, now⟩ = s ∨
    ∃ t a, s.tasks[n]? = some t ∧ Aside (s.wake n) a ∧
      (t.next s o = .waits ∧
          (∃ t', t'.caller = t.caller ∧ s.step ⟨.resume n o, now⟩ = a.await t') ∨
        t.next s o = .returns ∧ s.step ⟨.resume n o, now⟩ = a.return_ now t.caller ∨
        t.next s o = .ends ∧ s.step ⟨.resume n o, now⟩ = a) := by
  cases ht : s.tasks[n]? with
  | none =>
    refine Or.inl ⟨rfl, ?_⟩
    simp only [step, ht]
  | some t =>
    have hstep : s.step ⟨.resume n o, now⟩ = (s.wake n).resume now o t := by
      simp only [step, ht]
    have hgoes := goes_resume (s.wake n) now o t
    have hnext : t.next (s.wake n) o = t.next s o := rfl
    rw [hnext, ← hstep] at hgoes
    refine Or.inr ⟨t, ?_⟩
    generalize s.step ⟨.resume n o, now⟩ = b at hgoes ⊢
    generalize t.next s o = next at hgoes ⊢
    cases hgoes with
    | @waits a t' h hk => exact ⟨a, rfl, h, Or.inl ⟨rfl, t', hk, rfl⟩⟩
    | @returns a h => exact ⟨a, rfl, h, Or.inr (Or.inl ⟨rfl, rfl⟩)⟩
    | ends h => exact ⟨b, rfl, h, Or.inr (Or.inr ⟨rfl, rfl⟩)⟩

/-- A request across shards as the service numbers it. -/
def numbered (s : Routing) (req : CrossShardReq) : CrossShardReq :=
  { req with phase := .prepare, id := s.service.transactionId + 1 }

/-- The service with the counter of a new transaction. -/
def opened (s : Routing) : Routing := s.newId.setNumReply (s.service.transactionId + 1) 0

theorem Aside.opened (a : Routing) : Aside a a.opened := (Aside.newId a).trans (.setNumReply _ _ _)

/-- What `handle_request` does with a request across shards. -/
theorem handle_cross (s : Routing) (now : ℤ) (req : CrossShardReq) :
    s.handle now (.crossShardReq req) =
      match s.clusterIndex req.senderClusterId, s.clusterIndex req.receiverClusterId with
      | some sender, some receiver =>
        if s.leader sender ≠ -1 then
          s.opened.redirectCross (s.numbered req) sender
            (.receiver (s.numbered req) receiver (s.leader receiver ≠ -1))
        else
          (s.opened.enqueue sender (.cross (s.numbered req)) now).return_ now
            (.receiver (s.numbered req) receiver (s.leader receiver ≠ -1))
      | _, _ => s.opened := rfl

end Routing

end Raft2PC
