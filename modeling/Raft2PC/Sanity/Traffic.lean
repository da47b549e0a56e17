import Raft2PC.Sanity.Callers

/-! What a step of the routing service adds to its traffic. COMMIT comes with the YES that
makes two only, and a word of success only from a coroutine whose COMMIT was broadcast. -/

namespace Raft2PC

namespace Routing

/-- From `a` to `b` the traffic grows by messages with property `P`. -/
def Adds (P : Traffic → Prop) (a b : Routing) : Prop :=
  ∃ extra, b.traffic = a.traffic ++ extra ∧ ∀ t ∈ extra, P t

/-- All messages but COMMIT and the word of success have property `P`. -/
structure Usual (P : Traffic → Prop) : Prop where
  forward : ∀ t : Traffic, t.forwards = true → P t
  answer : ∀ req c r, P (.answer req c r)
  abort : ∀ req, P (.abort req)
  aborted : ∀ id, P (.reply id .aborted)
  intraReply : ∀ id, P (.intraReply id)

variable {P : Traffic → Prop} {a b c : Routing}

namespace Adds

theorem of_eq (h : b.traffic = a.traffic) : Adds P a b :=
  ⟨[], by rw [h, List.append_nil], fun t ht => absurd ht List.not_mem_nil⟩

theorem trans (h₁ : Adds P a b) (h₂ : Adds P b c) : Adds P a c := by
  obtain ⟨e₁, he₁, hp₁⟩ := h₁
  obtain ⟨e₂, he₂, hp₂⟩ := h₂
  refine ⟨e₁ ++ e₂, by rw [he₂, he₁, List.append_assoc], fun t ht => ?_⟩
  rcases List.mem_append.mp ht with ht | ht
  · exact hp₁ t ht
  · exact hp₂ t ht

theorem record (a : Routing) {t : Traffic} (ht : P t) : Adds P a (a.record t) := by
  refine ⟨[t], rfl, fun t' ht' => ?_⟩
  rw [List.mem_singleton.mp ht']
  exact ht

theorem returned (hP : ∀ t : Traffic, t.forwards = true → P t) (a : Routing) (now : ℤ)
    (k : Caller) : Adds P a (a.return_ now k) := by
  cases k with
  | done => exact of_eq rfl
  | receiver req c hasLeader =>
    cases hasLeader with
    | true => exact record a (hP (.prepare req c _) rfl)
    | false => exact of_eq rfl
  | pending c rest =>
    match rest with
    | [] => exact of_eq rfl
    | ⟨.intra req, t⟩ :: rest => exact record a (hP (.intra req _) rfl)
    | ⟨.cross req, t⟩ :: rest => exact record a (hP (.prepare req c _) rfl)

theorem handle (hP : ∀ t : Traffic, t.forwards = true → P t) (a : Routing) (now : ℤ)
    (m : Incoming) : Adds P a (a.handle now m) := by
  cases m with
  | appendEntriesReq leaderId =>
    simp only [Routing.handle]
    split
    · exact of_eq rfl
    · split_ifs
      · exact trans (of_eq rfl) (returned hP (a.setLeader _ leaderId) now _)
      · exact of_eq rfl
  | requestVoteReq candidateId =>
    simp only [Routing.handle]
    split <;> exact of_eq rfl
  | intraShardReq req =>
    simp only [Routing.handle]
    split
    · exact of_eq rfl
    · split_ifs
      · exact of_eq rfl
      · exact record a.newId (hP (.intra _ _) rfl)
  | crossShardReq req =>
    simp only [Routing.handle]
    split
    · split_ifs
      · exact record a (hP (.prepare _ _ _) rfl)
      · exact trans (of_eq rfl) (returned hP _ now _)
    · exact of_eq rfl

theorem stepJob (habort : ∀ req, P (.abort req)) (haborted : ∀ id, P (.reply id .aborted))
    (a : Routing) (now : ℤ) (o : Outcome) : Adds P a (a.stepJob now o) := by
  unfold Routing.stepJob
  split
  · exact of_eq rfl
  · split_ifs <;> exact of_eq rfl
  · exact of_eq rfl
  · split_ifs
    · exact of_eq rfl
    · split
      · exact of_eq rfl
      · split_ifs
        · exact record a (habort _)
        · exact of_eq rfl
  · exact record a (haborted _)
  · split_ifs <;> exact of_eq rfl
  · exact of_eq rfl

theorem answered (hP : Usual P) (a : Routing) (now : ℤ) (req : CrossShardReq) (c : ℕ) (k : Caller)
    {o : Outcome} (htwo : o = .answer .yes → a.numReply req.id + 1 = 2 → P (.commit req)) :
    Adds P a (a.answered now req c k o) := by
  have hans : ∀ r, Adds P a (a.record (.answer req c r)) := fun r => record a (hP.answer req c r)
  have hreturn : ∀ b : Routing, Adds P b (b.return_ now k) := fun b => returned hP.forward b now k
  cases o with
  | timeout =>
    simp only [Routing.answered]
    split_ifs
    · exact record a (hP.abort req)
    · exact of_eq rfl
  | returns | raises => exact of_eq rfl
  | answer r =>
    cases r with
    | ack => exact (hans .ack).trans (hreturn _)
    | no =>
      simp only [Routing.answered]
      split_ifs
      · exact (hans .no).trans (record _ (hP.abort req))
      · exact (hans .no).trans ((of_eq rfl).trans (hreturn _))
    | yes =>
      have hnum : ((a.record (.answer req c .yes)).setNumReply req.id
          (a.numReply req.id + 1)).numReply req.id = a.numReply req.id + 1 := by
        rw [numReply_setNumReply, if_pos rfl]
      simp only [Routing.answered]
      rw [hnum]
      split_ifs with hnum2
      · exact ((hans .yes).trans (of_eq rfl)).trans (record _ (htwo rfl hnum2))
      · exact (hans .yes).trans ((of_eq rfl).trans (hreturn _))

theorem resume (hP : Usual P) (a : Routing) (now : ℤ) {o : Outcome} {t : Task}
    (htwo : ∀ req c k, t = .prepare req c k → o = .answer .yes → a.numReply req.id + 1 = 2 →
      P (.commit req))
    (hsucceed : ∀ req k, t = .commit req k → P (.reply req.id .succeed)) :
    Adds P a (a.resume now o t) := by
  have hreturn : ∀ (b : Routing) (k : Caller), Adds P b (b.return_ now k) := fun b k =>
    returned hP.forward b now k
  cases t with
  | prepare req c k => exact answered hP a now req c k (htwo req c k rfl)
  | commit req k => exact record a (hsucceed req k rfl)
  | abort req timedOut k => exact record a (hP.aborted req.id)
  | committed req k | replied req k =>
    simp only [Routing.resume]
    split_ifs
    · exact of_eq rfl
    · exact hreturn a k
  | aborted req timedOut k =>
    simp only [Routing.resume]
    split_ifs
    · exact of_eq rfl
    · exact of_eq rfl
    · exact trans (of_eq rfl) (hreturn _ k)
  | intra req k =>
    simp only [Routing.resume]
    split_ifs
    · exact of_eq rfl
    · exact record a (hP.intraReply req.id)

end Adds

/-- A step adds usual messages; for COMMIT and the word of success it takes more. -/
theorem adds_step (hP : Usual P) (s : Routing) (e : RoutingEvent)
    (htwo : ∀ n req c k, e.action = .resume n (.answer .yes) →
      s.tasks[n]? = some (.prepare req c k) → s.numReply req.id + 1 = 2 → P (.commit req))
    (hsucceed : ∀ n o req k, e.action = .resume n o → s.tasks[n]? = some (.commit req k) →
      P (.reply req.id .succeed)) : Adds P s (s.step e) := by
  obtain ⟨action, now⟩ := e
  cases action with
  | handle m => exact .handle hP.forward s now m
  | job o => exact .stepJob hP.abort hP.aborted s now o
  | resume n o =>
    simp only [Routing.step]
    cases ht : s.tasks[n]? with
    | none => exact .of_eq rfl
    | some t =>
      apply Adds.trans (b := s.wake n) (.of_eq rfl)
      apply Adds.resume hP
      · rintro req c k rfl rfl hnum
        exact htwo n req c k rfl ht hnum
      · rintro req k rfl
        exact hsucceed n o req k rfl ht

end Routing

end Raft2PC
