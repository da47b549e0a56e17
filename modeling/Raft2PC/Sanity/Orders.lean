import Raft2PC.Sanity.Requests

/-! The requests that the routing service numbers, in the order of their ids. Whatever it keeps
or sends later is one of them. -/

namespace Raft2PC

def Request.id : Request → ℤ
  | .intra req => req.id
  | .cross req => req.id

/-- The request of a client's message, once it is numbered. -/
def Incoming.request (id : ℤ) : Incoming → Option Request
  | .intraShardReq req => some (.intra { req with id })
  | .crossShardReq req => some (.cross { req with phase := .prepare, id })
  | _ => none

/-! ### What the service keeps -/

def Caller.requests : Caller → List Request
  | .done => []
  | .receiver req _ _ => [.cross req]
  | .pending _ rest => rest.map Queued.request

def Task.requests : Task → List Request
  | .prepare req _ k | .commit req k | .committed req k | .abort req _ k | .aborted req _ k =>
    .cross req :: k.requests
  | .intra req k | .replied req k => .intra req :: k.requests

def Job.requests : Job → List Request
  | .scan _ rest kept => (rest ++ kept).map Queued.request
  | .abort _ rest kept req | .aborted _ rest kept req =>
    .cross req :: (rest ++ kept).map Queued.request
  | _ => []

def Traffic.requests : Traffic → List Request
  | .prepare req _ _ | .answer req _ _ | .commit req | .abort req => [.cross req]
  | .intra req _ => [.intra req]
  | .reply .. | .intraReply _ => []

namespace Routing

/-- Whatever request the service keeps or has sent has property `P`. -/
structure Knows (P : Request → Prop) (s : Routing) : Prop where
  queues : ∀ c, ∀ q ∈ s.queue c, P q.request
  tasks : ∀ t ∈ s.tasks, ∀ r ∈ t.requests, P r
  job : ∀ r ∈ s.job.requests, P r
  traffic : ∀ t ∈ s.traffic, ∀ r ∈ t.requests, P r

variable {P Q : Request → Prop} {s : Routing}

namespace Knows

theorem mono (h : Knows P s) (hPQ : ∀ r, P r → Q r) : Knows Q s where
  queues c q hq := hPQ _ (h.queues c q hq)
  tasks t ht r hr := hPQ r (h.tasks t ht r hr)
  job r hr := hPQ r (h.job r hr)
  traffic t ht r hr := hPQ r (h.traffic t ht r hr)

theorem setLeader (h : Knows P s) (c : ℕ) (serverId : ℤ) : Knows P (s.setLeader c serverId) :=
  ⟨h.queues, h.tasks, h.job, h.traffic⟩

theorem setNumReply (h : Knows P s) (i n : ℤ) : Knows P (s.setNumReply i n) :=
  ⟨h.queues, h.tasks, h.job, h.traffic⟩

theorem newId (h : Knows P s) : Knows P s.newId := ⟨h.queues, h.tasks, h.job, h.traffic⟩

theorem setJob (h : Knows P s) {j : Job} (hj : ∀ r ∈ j.requests, P r) : Knows P (s.setJob j) :=
  ⟨h.queues, h.tasks, hj, h.traffic⟩

theorem wake (h : Knows P s) (n : ℕ) : Knows P (s.wake n) :=
  ⟨h.queues, fun t ht => h.tasks t (List.mem_of_mem_eraseIdx ht), h.job, h.traffic⟩

theorem record (h : Knows P s) (t : Traffic) (ht : ∀ r ∈ t.requests, P r) :
    Knows P (s.record t) where
  queues := h.queues
  tasks := h.tasks
  job := h.job
  traffic := by
    intro t' ht'
    rcases List.mem_append.mp ht' with ht' | ht'
    · exact h.traffic t' ht'
    · rw [List.mem_singleton.mp ht']
      exact ht

theorem await (h : Knows P s) {t : Task} (ht : ∀ r ∈ t.requests, P r) : Knows P (s.await t) where
  queues := h.queues
  tasks := by
    intro t' ht'
    rcases List.mem_append.mp ht' with ht' | ht'
    · exact h.tasks t' ht'
    · rw [List.mem_singleton.mp ht']
      exact ht
  job := h.job
  traffic := h.traffic

theorem setQueue (h : Knows P s) (c : ℕ) {qs : List Queued} (hqs : ∀ q ∈ qs, P q.request) :
    Knows P (s.setQueue c qs) where
  queues := by
    intro i q hq
    by_cases hi : c = i ∧ c < s.service.transactionRequest.length
    · obtain ⟨rfl, hc⟩ := hi
      rw [queue, Routing.setQueue, List.getD_eq_getElem?_getD, List.getElem?_set_self hc] at hq
      exact hqs q hq
    · apply h.queues i q
      rw [queue, Routing.setQueue, List.getD_eq_getElem?_getD, List.getElem?_set] at hq
      rw [queue, List.getD_eq_getElem?_getD]
      split_ifs at hq with hci hc
      · exact absurd ⟨hci, hc⟩ hi
      · rwa [List.getElem?_eq_none (by omega)]
      · exact hq
  tasks := h.tasks
  job := h.job
  traffic := h.traffic

theorem enqueue (h : Knows P s) (c : ℕ) {r : Request} (now : ℤ) (hr : P r) :
    Knows P (s.enqueue c r now) := by
  refine h.setQueue c fun q hq => ?_
  rcases List.mem_append.mp hq with hq | hq
  · exact h.queues c q hq
  · rw [List.mem_singleton.mp hq]
    exact hr

theorem redirectCross (h : Knows P s) {req : CrossShardReq} (c : ℕ) {k : Caller}
    (hreq : P (.cross req)) (hk : ∀ r ∈ k.requests, P r) : Knows P (s.redirectCross req c k) :=
  (h.record _ (by simpa [Traffic.requests] using hreq)).await
    (List.forall_mem_cons.mpr ⟨hreq, hk⟩)

theorem redirectIntra (h : Knows P s) {req : IntraShardReq} (c : ℕ) {k : Caller}
    (hreq : P (.intra req)) (hk : ∀ r ∈ k.requests, P r) : Knows P (s.redirectIntra req c k) :=
  (h.record _ (by simpa [Traffic.requests] using hreq)).await
    (List.forall_mem_cons.mpr ⟨hreq, hk⟩)

theorem returned (h : Knows P s) (now : ℤ) {k : Caller} (hk : ∀ r ∈ k.requests, P r) :
    Knows P (s.return_ now k) := by
  cases k with
  | done => exact h
  | receiver req c hasLeader =>
    have hreq : P (.cross req) := hk _ List.mem_cons_self
    cases hasLeader with
    | true => exact h.redirectCross c hreq fun r hr => absurd hr List.not_mem_nil
    | false => exact h.enqueue c now hreq
  | pending c rest =>
    match rest with
    | [] => exact h.setQueue c fun q hq => absurd hq List.not_mem_nil
    | ⟨.intra req, t⟩ :: rest =>
      obtain ⟨hreq, hrest⟩ := List.forall_mem_cons.mp hk
      exact h.redirectIntra c hreq hrest
    | ⟨.cross req, t⟩ :: rest =>
      obtain ⟨hreq, hrest⟩ := List.forall_mem_cons.mp hk
      exact h.redirectCross c hreq hrest

theorem answered (h : Knows P s) (now : ℤ) {req : CrossShardReq} {c : ℕ} {k : Caller}
    (hreq : P (.cross req)) (hk : ∀ r ∈ k.requests, P r) (o : Outcome) :
    Knows P (s.answered now req c k o) := by
  have hone : ∀ r ∈ [Request.cross req], P r := by simpa using hreq
  have hall : ∀ r ∈ Request.cross req :: k.requests, P r := List.forall_mem_cons.mpr ⟨hreq, hk⟩
  cases o with
  | timeout =>
    simp only [Routing.answered]
    split_ifs
    · exact (h.record (.abort req) hone).await hall
    · exact h.setNumReply _ _
  | returns | raises => exact h
  | answer r =>
    have hans := h.record (.answer req c r) hone
    cases r with
    | ack => exact hans.returned now hk
    | no =>
      simp only [Routing.answered]
      split_ifs
      · exact (hans.record (.abort req) hone).await hall
      · exact (hans.setNumReply _ _).returned now hk
    | yes =>
      simp only [Routing.answered]
      split_ifs
      · exact ((hans.setNumReply _ _).record (.commit req) hone).await hall
      · exact (hans.setNumReply _ _).returned now hk

theorem resume (h : Knows P s) (now : ℤ) (o : Outcome) {t : Task} (ht : ∀ r ∈ t.requests, P r) :
    Knows P (s.resume now o t) := by
  have hno : ∀ r ∈ ([] : List Request), P r := fun r hr => absurd hr List.not_mem_nil
  cases t with
  | prepare req c k =>
    obtain ⟨hreq, hk⟩ := List.forall_mem_cons.mp ht
    exact h.answered now hreq hk o
  | commit req k => exact (h.record (.reply req.id .succeed) hno).await ht
  | abort req timedOut k => exact (h.record (.reply req.id .aborted) hno).await ht
  | committed req k =>
    simp only [Routing.resume]
    split_ifs
    · exact h
    · exact h.returned now (List.forall_mem_cons.mp ht).2
  | aborted req timedOut k =>
    simp only [Routing.resume]
    split_ifs
    · exact h
    · exact h.setNumReply _ _
    · exact (h.setNumReply _ _).returned now (List.forall_mem_cons.mp ht).2
  | intra req k =>
    simp only [Routing.resume]
    split_ifs
    · exact h
    · exact (h.record (.intraReply req.id) hno).await ht
  | replied req k =>
    simp only [Routing.resume]
    split_ifs
    · exact h
    · exact h.returned now (List.forall_mem_cons.mp ht).2

theorem stepJob (h : Knows P s) (now : ℤ) (o : Outcome) : Knows P (s.stepJob now o) := by
  have hj := h.job
  have hno : ∀ r ∈ ([] : List Request), P r := fun r hr => absurd hr List.not_mem_nil
  unfold Routing.stepJob
  cases hjob : s.job with
  | idle => exact h.setJob hno
  | dead => exact h
  | cluster i =>
    dsimp only
    split_ifs
    · exact h.setJob hno
    · refine h.setJob fun r hr => ?_
      obtain ⟨q, hq, rfl⟩ := List.mem_map.mp hr
      exact h.queues i q (by simpa using hq)
    · exact h.setJob hno
  | scan i rest kept =>
    rw [hjob] at hj
    have hmem : ∀ q, q ∈ rest ∨ q ∈ kept → P q.request := fun q hq =>
      hj _ (List.mem_map_of_mem (List.mem_append.mpr hq))
    cases rest with
    | nil => exact (h.setQueue i fun q hq => hmem q (Or.inr hq)).setJob hno
    | cons q rest =>
      obtain ⟨request, time⟩ := q
      have hq : P request := hmem ⟨request, time⟩ (Or.inl List.mem_cons_self)
      have hless : ∀ r ∈ (rest ++ kept).map Queued.request, P r := by
        intro r hr
        obtain ⟨q, hq, rfl⟩ := List.mem_map.mp hr
        exact hmem q ((List.mem_append.mp hq).imp_left (List.mem_cons_of_mem _))
      dsimp only
      split_ifs
      · refine h.setJob fun r hr => ?_
        obtain ⟨q, hq', rfl⟩ := List.mem_map.mp hr
        apply hmem q
        simp only [List.mem_append, List.mem_cons, List.not_mem_nil, or_false] at hq' ⊢
        tauto
      · cases request with
        | intra req => exact h.setJob hless
        | cross req =>
          dsimp only
          split_ifs
          · exact (h.record (.abort req) (by simpa [Traffic.requests] using hq)).setJob
              (List.forall_mem_cons.mpr ⟨hq, hless⟩)
          · exact (h.setNumReply _ _).setJob hless
  | abort i rest kept req =>
    rw [hjob] at hj
    exact (h.record (.reply req.id .aborted) hno).setJob hj
  | aborted i rest kept req =>
    rw [hjob] at hj
    dsimp only
    split_ifs
    · exact h.setJob hno
    · exact (h.setNumReply _ _).setJob (List.forall_mem_cons.mp hj).2

/-- Only what is numbered is new. -/
theorem handle (h : Knows P s) (now : ℤ) {m : Incoming}
    (hnew : ∀ r, m.request (s.service.transactionId + 1) = some r → P r) :
    Knows P (s.handle now m) := by
  cases m with
  | appendEntriesReq leaderId =>
    simp only [Routing.handle]
    split
    · exact h
    · rename_i c hc
      split_ifs
      · refine (h.setLeader c leaderId).returned now fun r hr => ?_
        obtain ⟨q, hq, rfl⟩ := List.mem_map.mp hr
        exact h.queues c q hq
      · exact h.setLeader c leaderId
  | requestVoteReq candidateId =>
    simp only [Routing.handle]
    split
    · exact h
    · exact h.setLeader _ _
  | intraShardReq req =>
    have hreq := hnew _ rfl
    simp only [Routing.handle]
    split
    · exact h.newId
    · split_ifs
      · exact h.newId.enqueue _ now hreq
      · exact h.newId.redirectIntra _ hreq fun r hr => absurd hr List.not_mem_nil
  | crossShardReq req =>
    have hreq := hnew _ rfl
    have hbase := h.newId.setNumReply (s.service.transactionId + 1) 0
    have hone : ∀ r ∈ [Request.cross { req with
        phase := .prepare, id := s.service.transactionId + 1 }], P r := by simpa using hreq
    simp only [Routing.handle]
    split
    · split_ifs
      · exact hbase.redirectCross _ hreq hone
      · exact (hbase.enqueue _ now hreq).returned now hone
    · exact hbase

end Knows

/-! ### Numbers -/

/-- The request that a step numbers. -/
def numbers (s : Routing) (e : RoutingEvent) : Option Request :=
  match e.action with
  | .handle m => m.request (s.service.transactionId + 1)
  | _ => none

/-- The requests that are numbered in a run, in order. -/
def orders : Routing → List RoutingEvent → List Request
  | _, [] => []
  | s, e :: es => (s.numbers e).toList ++ orders (s.step e) es

theorem Knows.step (h : Knows P s) (e : RoutingEvent) (hnew : ∀ r, s.numbers e = some r → P r) :
    Knows P (s.step e) := by
  obtain ⟨action, now⟩ := e
  cases action with
  | handle m => exact h.handle now hnew
  | job o => exact h.stepJob now o
  | resume n o =>
    simp only [Routing.step]
    cases ht : s.tasks[n]? with
    | none => exact h
    | some t => exact (h.wake n).resume now o (h.tasks t (List.mem_of_getElem? ht))

theorem knows_init (n : ℕ) (P : Request → Prop) : Knows P (Routing.init n) where
  queues c q hq := by
    have hnil : (Routing.init n).queue c = [] := by
      simp only [queue, init, List.getD_eq_getElem?_getD, List.getElem?_replicate]
      split_ifs <;> rfl
    rw [hnil] at hq
    exact absurd hq List.not_mem_nil
  tasks _ ht := absurd ht List.not_mem_nil
  job _ hr := absurd hr List.not_mem_nil
  traffic _ ht := absurd ht List.not_mem_nil

/-- All that the service keeps or has sent it has numbered itself. -/
theorem knows_run (n : ℕ) (es : List RoutingEvent) :
    Knows (· ∈ orders (Routing.init n) es) ((Routing.init n).run es) := by
  suffices h : ∀ (s : Routing) (P : Request → Prop), Knows P s →
      Knows (fun r => P r ∨ r ∈ orders s es) (s.run es) from
    (h _ (fun _ => False) (knows_init n _)).mono fun r hr => hr.resolve_left id
  induction es with
  | nil => exact fun s P h => h.mono fun r hr => Or.inl hr
  | cons e es ih =>
    intro s P h
    have hstep := (h.mono (Q := fun r => P r ∨ s.numbers e = some r) fun r hr => Or.inl hr).step e
      fun r hr => Or.inr hr
    refine (ih _ _ hstep).mono fun r hr => ?_
    rw [orders, List.mem_append, Option.mem_toList]
    tauto

theorem id_of_request {m : Incoming} {id : ℤ} {r : Request} (h : m.request id = some r) :
    r.id = id := by
  cases m with
  | intraShardReq req | crossShardReq req =>
    obtain rfl := Option.some.inj h
    rfl
  | _ => cases h

theorem transactionId_step (s : Routing) (e : RoutingEvent) :
    (s.step e).service.transactionId =
      s.service.transactionId + (s.numbers e).toList.length := by
  have hshape := congrArg Prod.fst (shape_step s e)
  simp only [shape] at hshape
  rw [hshape]
  unfold numbers
  cases e.action with
  | handle m => cases m <;> simp [Incoming.numbered, Incoming.request, newId]
  | _ => simp

/-- The ids are given out one after the other. -/
theorem id_orders {s : Routing} {es : List RoutingEvent} {k : ℕ} {r : Request}
    (h : (orders s es)[k]? = some r) : r.id = s.service.transactionId + 1 + k := by
  induction es generalizing s k with
  | nil => cases h
  | cons e es ih =>
    have hid := transactionId_step s e
    rw [orders] at h
    cases hn : s.numbers e with
    | none =>
      rw [hn] at h hid
      have hrest := ih h
      rw [hid] at hrest
      simpa using hrest
    | some r' =>
      rw [hn] at h hid
      cases k with
      | zero =>
        obtain rfl := Option.some.inj h
        unfold numbers at hn
        cases ha : e.action with
        | handle m =>
          rw [ha] at hn
          simpa using id_of_request hn
        | _ => simp [ha] at hn
      | succ k =>
        have hrest := ih (k := k) h
        rw [hrest, hid]
        simp only [Option.toList_some, List.length_singleton, Nat.cast_one, Nat.cast_add]
        omega

/-- No two of them have the same id. -/
theorem orders_unique {s : Routing} {es : List RoutingEvent} {r r' : Request}
    (h : r ∈ orders s es) (h' : r' ∈ orders s es) (hid : r.id = r'.id) : r = r' := by
  obtain ⟨k, hk⟩ := List.getElem?_of_mem h
  obtain ⟨k', hk'⟩ := List.getElem?_of_mem h'
  have hkk : k = k' := by
    have := id_orders hk
    have := id_orders hk'
    omega
  subst hkk
  exact Option.some.inj (hk.symm.trans hk')

end Routing

end Raft2PC
