import Raft2PC.Sanity.Routing

/-! Which requests the routing service keeps: every queue, coroutine and message holds
requests it has numbered itself, filed under the cluster of the sender or the receiver. -/

namespace Raft2PC

section Kept

variable (P : CrossShardReq → ℕ → Prop)

/-- If the request is one across shards, `P` holds of it and the cluster. -/
def Queued.Kept (c : ℕ) (q : Queued) : Prop := ∀ req, q.request = .cross req → P req c

def Caller.Kept : Caller → Prop
  | .done => True
  | .receiver req c _ => P req c
  | .pending c rest => ∀ q ∈ rest, q.Kept P c

def Task.Kept : Task → Prop
  | .prepare req c k => P req c ∧ k.Kept P
  | .commit req k | .committed req k | .abort req _ k | .aborted req _ k =>
    (∃ c, P req c) ∧ k.Kept P
  | .intra _ k | .replied _ k => k.Kept P

def Job.Kept : Job → Prop
  | .scan i rest kept => (∀ q ∈ rest, q.Kept P i) ∧ ∀ q ∈ kept, q.Kept P i
  | .abort i rest kept req | .aborted i rest kept req =>
    ((∀ q ∈ rest, q.Kept P i) ∧ ∀ q ∈ kept, q.Kept P i) ∧ P req i
  | _ => True

def Traffic.Kept : Traffic → Prop
  | .prepare req c _ | .answer req c _ => P req c
  | .commit req | .abort req => ∃ c, P req c
  | _ => True

/-- `P` holds of every request across shards the service keeps or has sent. -/
structure Routing.Kept (s : Routing) : Prop where
  queues : ∀ c, ∀ q ∈ s.queue c, q.Kept P c
  tasks : ∀ t ∈ s.tasks, t.Kept P
  job : s.job.Kept P
  traffic : ∀ t ∈ s.traffic, t.Kept P

end Kept

/-- The message gets a transaction id. -/
def Incoming.numbered : Incoming → Bool
  | .intraShardReq _ | .crossShardReq _ => true
  | _ => false

namespace Routing

variable {P : CrossShardReq → ℕ → Prop} {s : Routing}

/-! ### The primitives -/

theorem Kept.setLeader (h : s.Kept P) (c : ℕ) (serverId : ℤ) : (s.setLeader c serverId).Kept P :=
  ⟨h.queues, h.tasks, h.job, h.traffic⟩

theorem Kept.setNumReply (h : s.Kept P) (i n : ℤ) : (s.setNumReply i n).Kept P :=
  ⟨h.queues, h.tasks, h.job, h.traffic⟩

theorem Kept.newId (h : s.Kept P) : s.newId.Kept P := ⟨h.queues, h.tasks, h.job, h.traffic⟩

theorem Kept.setJob (h : s.Kept P) {j : Job} (hj : j.Kept P) : (s.setJob j).Kept P :=
  ⟨h.queues, h.tasks, hj, h.traffic⟩

theorem Kept.wake (h : s.Kept P) (n : ℕ) : (s.wake n).Kept P :=
  ⟨h.queues, fun t ht => h.tasks t (List.mem_of_mem_eraseIdx ht), h.job, h.traffic⟩

theorem Kept.record (h : s.Kept P) (t : Traffic) (ht : t.Kept P) : (s.record t).Kept P where
  queues := h.queues
  tasks := h.tasks
  job := h.job
  traffic := by
    intro t' ht'
    rcases List.mem_append.mp ht' with ht' | ht'
    · exact h.traffic t' ht'
    · rw [List.mem_singleton.mp ht']
      exact ht

theorem Kept.await (h : s.Kept P) (t : Task) (ht : t.Kept P) : (s.await t).Kept P where
  queues := h.queues
  tasks := by
    intro t' ht'
    rcases List.mem_append.mp ht' with ht' | ht'
    · exact h.tasks t' ht'
    · rw [List.mem_singleton.mp ht']
      exact ht
  job := h.job
  traffic := h.traffic

theorem Kept.setQueue (h : s.Kept P) {c : ℕ} {qs : List Queued} (hqs : ∀ q ∈ qs, q.Kept P c) :
    (s.setQueue c qs).Kept P where
  queues := by
    intro i q hq
    by_cases hi : c = i
    · subst hi
      rcases lt_or_ge c s.service.transactionRequest.length with hc | hc
      · rw [queue, Routing.setQueue, List.getD_eq_getElem?_getD, List.getElem?_set_self hc] at hq
        exact hqs q hq
      · rw [queue, Routing.setQueue, List.set_eq_of_length_le hc] at hq
        exact h.queues c q hq
    · rw [queue, Routing.setQueue, List.getD_eq_getElem?_getD, List.getElem?_set_ne hi,
        ← List.getD_eq_getElem?_getD] at hq
      exact h.queues i q hq
  tasks := h.tasks
  job := h.job
  traffic := h.traffic

theorem Kept.enqueue (h : s.Kept P) {c : ℕ} {r : Request} (now : ℤ)
    (hr : ∀ req, r = .cross req → P req c) : (s.enqueue c r now).Kept P := by
  refine h.setQueue fun q hq => ?_
  rcases List.mem_append.mp hq with hq | hq
  · exact h.queues c q hq
  · rw [List.mem_singleton.mp hq]
    exact hr

theorem Kept.redirectCross (h : s.Kept P) {req : CrossShardReq} {c : ℕ} {k : Caller}
    (hreq : P req c) (hk : k.Kept P) : (s.redirectCross req c k).Kept P :=
  (h.record (.prepare req c _) hreq).await (.prepare req c k) ⟨hreq, hk⟩

theorem Kept.redirectIntra (h : s.Kept P) (req : IntraShardReq) (c : ℕ) {k : Caller}
    (hk : k.Kept P) : (s.redirectIntra req c k).Kept P :=
  (h.record (.intra req _) trivial).await (.intra req k) hk

theorem Kept.return (h : s.Kept P) (now : ℤ) {k : Caller} (hk : k.Kept P) :
    (s.return_ now k).Kept P := by
  cases k with
  | done => exact h
  | receiver req c hasLeader =>
    cases hasLeader with
    | true => exact h.redirectCross hk trivial
    | false => exact h.enqueue now fun _ hreq => Request.cross.inj hreq ▸ hk
  | pending c rest =>
    match rest with
    | [] => exact h.setQueue fun q hq => absurd hq List.not_mem_nil
    | ⟨.intra req, t⟩ :: rest =>
      exact h.redirectIntra req c fun q hq => hk q (List.mem_cons_of_mem _ hq)
    | ⟨.cross req, t⟩ :: rest =>
      exact h.redirectCross (hk _ List.mem_cons_self req rfl)
        fun q hq => hk q (List.mem_cons_of_mem _ hq)

/-! ### The steps -/

theorem Kept.answered (h : s.Kept P) (now : ℤ) {req : CrossShardReq} {c : ℕ} {k : Caller}
    (hreq : P req c) (hk : k.Kept P) (o : Outcome) : (s.answered now req c k o).Kept P := by
  cases o with
  | timeout =>
    simp only [Routing.answered]
    split_ifs
    · exact (h.record (.abort req) ⟨c, hreq⟩).await (.abort req true k) ⟨⟨c, hreq⟩, hk⟩
    · exact h.setNumReply _ _
  | returns | raises => exact h
  | answer r =>
    have hans := h.record (.answer req c r) hreq
    cases r with
    | ack => exact hans.return now hk
    | no =>
      simp only [Routing.answered]
      split_ifs
      · exact (hans.record (.abort req) ⟨c, hreq⟩).await (.abort req false k) ⟨⟨c, hreq⟩, hk⟩
      · exact (hans.setNumReply _ _).return now hk
    | yes =>
      simp only [Routing.answered]
      split_ifs
      · exact ((hans.setNumReply _ _).record (.commit req) ⟨c, hreq⟩).await (.commit req k)
          ⟨⟨c, hreq⟩, hk⟩
      · exact (hans.setNumReply _ _).return now hk

theorem Kept.resume (h : s.Kept P) (now : ℤ) (o : Outcome) {t : Task} (ht : t.Kept P) :
    (s.resume now o t).Kept P := by
  cases t with
  | prepare req c k => exact h.answered now ht.1 ht.2 o
  | commit req k => exact (h.record (.reply req.id .succeed) trivial).await (.committed req k) ht
  | abort req timedOut k =>
    exact (h.record (.reply req.id .aborted) trivial).await (.aborted req timedOut k) ht
  | committed req k =>
    simp only [Routing.resume]
    split_ifs
    · exact h
    · exact h.return now ht.2
  | aborted req timedOut k =>
    simp only [Routing.resume]
    split_ifs
    · exact h
    · exact h.setNumReply _ _
    · exact (h.setNumReply _ _).return now ht.2
  | intra req k =>
    simp only [Routing.resume]
    split_ifs
    · exact h
    · exact (h.record (.intraReply req.id) trivial).await (.replied req k) ht
  | replied req k =>
    simp only [Routing.resume]
    split_ifs
    · exact h
    · exact h.return now ht

theorem Kept.stepJob (h : s.Kept P) (now : ℤ) (o : Outcome) : (s.stepJob now o).Kept P := by
  have hj := h.job
  unfold Routing.stepJob
  cases hjob : s.job with
  | idle => exact h.setJob trivial
  | dead => exact h
  | cluster i =>
    dsimp only
    split_ifs
    · exact h.setJob trivial
    · exact h.setJob ⟨h.queues i, fun q hq => absurd hq List.not_mem_nil⟩
    · exact h.setJob trivial
  | scan i rest kept =>
    rw [hjob] at hj
    obtain ⟨hrest, hkept⟩ := hj
    cases rest with
    | nil => exact (h.setQueue hkept).setJob trivial
    | cons q rest =>
      have hq := hrest q List.mem_cons_self
      have hrest' : ∀ q ∈ rest, q.Kept P i := fun q hq => hrest q (List.mem_cons_of_mem _ hq)
      obtain ⟨request, time⟩ := q
      dsimp only
      split_ifs
      · refine h.setJob ⟨hrest', fun q' hq' => ?_⟩
        rcases List.mem_append.mp hq' with hq' | hq'
        · exact hkept q' hq'
        · rw [List.mem_singleton.mp hq']
          exact hq
      · cases request with
        | intra req => exact h.setJob ⟨hrest', hkept⟩
        | cross req =>
          have hreq := hq req rfl
          dsimp only
          split_ifs
          · exact (h.record (.abort req) ⟨i, hreq⟩).setJob ⟨⟨hrest', hkept⟩, hreq⟩
          · exact (h.setNumReply _ _).setJob ⟨hrest', hkept⟩
  | abort i rest kept req =>
    rw [hjob] at hj
    exact (h.record (.reply req.id .aborted) trivial).setJob hj
  | aborted i rest kept req =>
    rw [hjob] at hj
    dsimp only
    split_ifs
    · exact h.setJob trivial
    · exact (h.setNumReply _ _).setJob hj.1

/-- The one step that brings a new request is the arrival of one across shards. -/
theorem Kept.handle (h : s.Kept P) (now : ℤ) {m : Incoming}
    (hnew : ∀ req, m = .crossShardReq req → ∀ a b,
      s.clusterIndex req.senderClusterId = some a → s.clusterIndex req.receiverClusterId = some b →
        P { req with phase := .prepare, id := s.service.transactionId + 1 } a ∧
          P { req with phase := .prepare, id := s.service.transactionId + 1 } b) :
    (s.handle now m).Kept P := by
  cases m with
  | appendEntriesReq leaderId =>
    simp only [Routing.handle]
    split
    · exact h
    · rename_i c hc
      split_ifs
      · exact (h.setLeader c leaderId).return now (h.queues c)
      · exact h.setLeader c leaderId
  | requestVoteReq candidateId =>
    simp only [Routing.handle]
    split
    · exact h
    · exact h.setLeader _ _
  | intraShardReq req =>
    simp only [Routing.handle]
    split
    · exact h.newId
    · split_ifs
      · exact h.newId.enqueue now fun _ hreq => by cases hreq
      · exact h.newId.redirectIntra _ _ trivial
  | crossShardReq req =>
    have hbase := h.newId.setNumReply (s.service.transactionId + 1) 0
    simp only [Routing.handle]
    split
    · rename_i sender receiver hs hr
      obtain ⟨hsender, hreceiver⟩ := hnew req rfl sender receiver hs hr
      split_ifs
      · exact hbase.redirectCross hsender hreceiver
      · exact (hbase.enqueue now fun _ hreq => Request.cross.inj hreq ▸ hsender).return now hreceiver
    · exact hbase

theorem Kept.mono {Q : CrossShardReq → ℕ → Prop} (h : s.Kept P) (hPQ : ∀ req c, P req c → Q req c) :
    s.Kept Q := by
  have hqueued : ∀ c q, Queued.Kept P c q → q.Kept Q c := fun c q hq req hreq =>
    hPQ req c (hq req hreq)
  have hsome : ∀ req, (∃ c, P req c) → ∃ c, Q req c := fun req ⟨c, hc⟩ => ⟨c, hPQ req c hc⟩
  have hcaller : ∀ k : Caller, k.Kept P → k.Kept Q := by
    intro k hk
    cases k with
    | done => trivial
    | receiver req c hasLeader => exact hPQ req c hk
    | pending c rest => exact fun q hq => hqueued c q (hk q hq)
  constructor
  · exact fun c q hq => hqueued c q (h.queues c q hq)
  · intro t ht
    have hold := h.tasks t ht
    cases t with
    | prepare req c k => exact ⟨hPQ req c hold.1, hcaller k hold.2⟩
    | commit req k | committed req k | abort req _ k | aborted req _ k =>
      exact ⟨hsome req hold.1, hcaller k hold.2⟩
    | intra req k | replied req k => exact hcaller k hold
  · have hold := h.job
    cases hjob : s.job with
    | idle | cluster i | dead => trivial
    | scan i rest kept =>
      rw [hjob] at hold
      exact ⟨fun q hq => hqueued i q (hold.1 q hq), fun q hq => hqueued i q (hold.2 q hq)⟩
    | abort i rest kept req | aborted i rest kept req =>
      rw [hjob] at hold
      exact ⟨⟨fun q hq => hqueued i q (hold.1.1 q hq), fun q hq => hqueued i q (hold.1.2 q hq)⟩,
        hPQ req i hold.2⟩
  · intro t ht
    have hold := h.traffic t ht
    cases t with
    | prepare req c server | answer req c r => exact hPQ req c hold
    | commit req | abort req => exact hsome req hold
    | reply id r | intra req server | intraReply id => trivial

/-! ### Numbering -/

/-- Last id given out and number of clusters. -/
def shape (s : Routing) : ℤ × ℕ :=
  (s.service.transactionId, s.service.leaderPerCluster.length)

@[simp] theorem shape_setLeader (s : Routing) (c : ℕ) (i : ℤ) :
    (s.setLeader c i).shape = s.shape := by
  simp [shape, Routing.setLeader]

theorem shape_return (s : Routing) (now : ℤ) (k : Caller) : (s.return_ now k).shape = s.shape := by
  cases k with
  | done => rfl
  | receiver req c hasLeader => cases hasLeader <;> rfl
  | pending c rest =>
    match rest with
    | [] => rfl
    | ⟨.intra req, t⟩ :: rest => rfl
    | ⟨.cross req, t⟩ :: rest => rfl

theorem shape_answered (s : Routing) (now : ℤ) (req : CrossShardReq) (c : ℕ) (k : Caller)
    (o : Outcome) : (s.answered now req c k o).shape = s.shape := by
  cases o with
  | timeout => simp only [Routing.answered]; split_ifs <;> rfl
  | returns | raises => rfl
  | answer r =>
    cases r with
    | ack => exact shape_return _ _ _
    | no =>
      simp only [Routing.answered]
      split_ifs
      · rfl
      · exact shape_return _ _ _
    | yes =>
      simp only [Routing.answered]
      split_ifs
      · rfl
      · exact shape_return _ _ _

theorem shape_resume (s : Routing) (now : ℤ) (o : Outcome) (t : Task) :
    (s.resume now o t).shape = s.shape := by
  cases t with
  | prepare req c k => exact shape_answered s now req c k o
  | commit req k | abort req timedOut k => rfl
  | intra req k => simp only [Routing.resume]; split_ifs <;> rfl
  | committed req k | replied req k =>
    simp only [Routing.resume]
    split_ifs
    · rfl
    · exact shape_return _ _ _
  | aborted req timedOut k =>
    simp only [Routing.resume]
    split_ifs
    · rfl
    · rfl
    · exact shape_return _ _ _

theorem shape_stepJob (s : Routing) (now : ℤ) (o : Outcome) : (s.stepJob now o).shape = s.shape := by
  unfold Routing.stepJob
  split
  · rfl
  · split_ifs <;> rfl
  · rfl
  · split_ifs
    · rfl
    · split
      · rfl
      · split_ifs <;> rfl
  · rfl
  · split_ifs <;> rfl
  · rfl

theorem shape_handle (s : Routing) (now : ℤ) (m : Incoming) :
    (s.handle now m).shape = if m.numbered then s.newId.shape else s.shape := by
  cases m with
  | appendEntriesReq leaderId =>
    change (s.handle now _).shape = s.shape
    simp only [Routing.handle]
    split
    · rfl
    · split_ifs
      · rw [shape_return, shape_setLeader]
      · rw [shape_setLeader]
  | requestVoteReq candidateId =>
    change (s.handle now _).shape = s.shape
    simp only [Routing.handle]
    split
    · rfl
    · rw [shape_setLeader]
  | intraShardReq req =>
    change (s.handle now _).shape = s.newId.shape
    simp only [Routing.handle]
    split
    · rfl
    · split_ifs <;> rfl
  | crossShardReq req =>
    change (s.handle now _).shape = s.newId.shape
    simp only [Routing.handle]
    split
    · split_ifs
      · rfl
      · rw [shape_return]
        rfl
    · rfl

theorem shape_step (s : Routing) (e : RoutingEvent) :
    (s.step e).shape = match e.action with
      | .handle m => if m.numbered then s.newId.shape else s.shape
      | _ => s.shape := by
  obtain ⟨action, now⟩ := e
  cases action with
  | handle m => exact shape_handle s now m
  | job o => exact shape_stepJob s now o
  | resume n o =>
    simp only [Routing.step]
    split
    · rfl
    · exact shape_resume _ _ _ _

/-- Ids are only given out, and the clusters are those of the configuration. -/
theorem shape_mono (s : Routing) (e : RoutingEvent) :
    s.service.transactionId ≤ (s.step e).service.transactionId ∧
      (s.step e).service.leaderPerCluster.length = s.service.leaderPerCluster.length := by
  have hsame : ∀ a : Routing, a.shape = s.shape ∨ a.shape = s.newId.shape →
      s.service.transactionId ≤ a.service.transactionId ∧
        a.service.leaderPerCluster.length = s.service.leaderPerCluster.length := by
    rintro a (ha | ha)
    · exact ⟨(congrArg Prod.fst ha).ge, congrArg Prod.snd ha⟩
    · have hid : a.service.transactionId = s.service.transactionId + 1 := congrArg Prod.fst ha
      exact ⟨by omega, congrArg Prod.snd ha⟩
  apply hsame
  rw [shape_step]
  split
  · split_ifs
    · exact Or.inr rfl
    · exact Or.inl rfl
  · exact Or.inl rfl

/-! ### One request for each id -/

/-- `req` is the request with its id, and `c` is the cluster of an end. -/
def Files (n : ℕ) (f : ℤ → CrossShardReq) (last : ℤ) (req : CrossShardReq) (c : ℕ) : Prop :=
  req.id ≤ last ∧ req = f req.id ∧ ∃ a b, pyIndex n req.senderClusterId = some a ∧
    pyIndex n req.receiverClusterId = some b ∧ (c = a ∨ c = b)

/-- `f` tells the requests by their ids; ids not given out have no count. -/
structure Filed (n : ℕ) (f : ℤ → CrossShardReq) (s : Routing) : Prop where
  length : s.service.leaderPerCluster.length = n
  kept : s.Kept (Files n f s.service.transactionId)
  fresh : ∀ i, s.service.transactionId < i → s.numReply i = 0

theorem Filed.init (n : ℕ) (f : ℤ → CrossShardReq) : Filed n f (Routing.init n) where
  length := List.length_replicate
  kept :=
    { queues := by
        intro c q hq
        have hnil : (Routing.init n).queue c = [] := by
          simp only [Routing.queue, Routing.init, List.getD_eq_getElem?_getD,
            List.getElem?_replicate]
          split_ifs <;> rfl
        rw [hnil] at hq
        exact absurd hq List.not_mem_nil
      tasks := fun t ht => absurd ht List.not_mem_nil
      job := trivial
      traffic := fun t ht => absurd ht List.not_mem_nil }
  fresh := fun i _ => by
    simp [Routing.numReply, Routing.init, Table.get]

theorem exists_filed_init (n : ℕ) : ∃ f, Filed n f (Routing.init n) :=
  ⟨fun _ =>
    { phase := .prepare
      senderClusterId := 0
      receiverClusterId := 0
      senderId := 0
      receiverId := 0
      amount := 0
      id := 0 }, Filed.init n _⟩

theorem Filed.input_le {n : ℕ} {f : ℤ → CrossShardReq} (h : Filed n f s) {e : RoutingEvent}
    {i : ℤ} {a : Input} (hin : s.input e = some (i, a)) : i ≤ s.service.transactionId := by
  obtain ⟨action, now⟩ := e
  cases action with
  | handle m => cases hin
  | resume n o =>
    simp only [input] at hin
    split at hin
    case h_5 => cases hin
    case h_4 req b k ht =>
      split_ifs at hin
      cases hin
      obtain ⟨c, hc⟩ := (h.kept.tasks _ (List.mem_of_getElem? ht)).1
      exact hc.1
    all_goals
      rename_i req c k ht
      cases hin
      exact (h.kept.tasks _ (List.mem_of_getElem? ht)).1.1
  | job o =>
    have hjob := h.kept.job
    simp only [input] at hin
    split at hin
    case h_3 => cases hin
    case h_1 j req time rest kept heq =>
      split_ifs at hin
      cases hin
      rw [heq] at hjob
      exact (hjob.1 _ List.mem_cons_self req rfl).1
    case h_2 j rest kept req heq =>
      split_ifs at hin
      cases hin
      rw [heq] at hjob
      exact hjob.2.1

theorem Files.mono {n : ℕ} {f g : ℤ → CrossShardReq} {last last' : ℤ} {req : CrossShardReq} {c : ℕ}
    (h : Files n f last req c) (hle : last ≤ last') (hfg : ∀ i ≤ last, f i = g i) :
    Files n g last' req c := by
  obtain ⟨hid, hreq, hc⟩ := h
  exact ⟨hid.trans hle, hreq.trans (hfg _ hid), hc⟩

/-- A transaction without an input keeps its count. -/
theorem fresh_step {n : ℕ} {f : ℤ → CrossShardReq} (h : Filed n f s) (e : RoutingEvent) {i : ℤ}
    (hi : s.service.transactionId < i) : (s.step e).numReply i = 0 := by
  have heff := effect_step s i e h.fresh
  have hnone : forId i (s.input e) = none := by
    cases hin : s.input e with
    | none => rfl
    | some x =>
      have hle := h.input_le hin
      rw [forId, if_neg (by omega)]
  have hnum : ∀ v w : View, Effect v none w → w.num = v.num := by
    intro v w hvw
    cases hvw <;> rfl
  rw [hnone] at heff
  exact (hnum _ _ heff).trans (h.fresh i hi)

theorem step_handle (s : Routing) (now : ℤ) (m : Incoming) :
    s.step ⟨.handle m, now⟩ = s.handle now m := rfl

/-- A new request gets an id that no other request has. -/
theorem Filed.step {n : ℕ} {f : ℤ → CrossShardReq} (h : Filed n f s) (e : RoutingEvent) :
    ∃ g, Filed n g (s.step e) := by
  obtain ⟨hle, hlen⟩ := shape_mono s e
  have hfresh : ∀ i, (s.step e).service.transactionId < i → (s.step e).numReply i = 0 :=
    fun i hi => fresh_step h e (by omega)
  have hsame : (s.step e).Kept (Files n f s.service.transactionId) →
      ∃ g, Filed n g (s.step e) := fun hkept =>
    ⟨f, hlen.trans h.length, hkept.mono fun _ _ hreq => hreq.mono hle fun _ _ => rfl, hfresh⟩
  obtain ⟨action, now⟩ := e
  cases action with
  | job o => exact hsame (h.kept.stepJob now o)
  | resume k o =>
    refine hsame ?_
    simp only [Routing.step]
    cases ht : s.tasks[k]? with
    | none => exact h.kept
    | some t => exact (h.kept.wake k).resume now o (h.kept.tasks t (List.mem_of_getElem? ht))
  | handle m =>
    cases m with
    | appendEntriesReq i | requestVoteReq i | intraShardReq req =>
      apply hsame
      rw [step_handle]
      apply h.kept.handle now
      intro req' hm
      cases hm
    | crossShardReq req =>
      have hid : (s.step ⟨.handle (.crossShardReq req), now⟩).service.transactionId =
          s.service.transactionId + 1 := congrArg Prod.fst (shape_step s _)
      obtain ⟨g, hg⟩ : ∃ g, g = Function.update f (s.service.transactionId + 1)
          { req with phase := .prepare, id := s.service.transactionId + 1 } := ⟨_, rfl⟩
      have hfg : ∀ i ≤ s.service.transactionId, f i = g i := by
        intro i hi
        rw [hg, Function.update_of_ne (by omega)]
      have hold : s.Kept (Files n g (s.service.transactionId + 1)) :=
        h.kept.mono fun _ _ hreq => hreq.mono (by omega) hfg
      refine ⟨g, hlen.trans h.length, ?_, hfresh⟩
      rw [hid, step_handle]
      refine hold.handle now fun req' hm a b ha hb => ?_
      obtain rfl := Incoming.crossShardReq.inj hm
      rw [clusterIndex, h.length] at ha hb
      have hself : { req with phase := .prepare, id := s.service.transactionId + 1 } =
          g (s.service.transactionId + 1) := by rw [hg, Function.update_self]
      exact ⟨⟨le_rfl, hself, a, b, ha, hb, Or.inl rfl⟩, ⟨le_rfl, hself, a, b, ha, hb, Or.inr rfl⟩⟩

/-- COMMIT of a transaction is COMMIT of the request filed under its id. -/
theorem Filed.unique {n : ℕ} {f : ℤ → CrossShardReq} (h : Filed n f s) {req : CrossShardReq}
    (hreq : .commit req ∈ s.traffic) : req = f req.id :=
  let ⟨_, hkept⟩ := h.kept.traffic _ hreq
  hkept.2.1

end Routing

end Raft2PC
