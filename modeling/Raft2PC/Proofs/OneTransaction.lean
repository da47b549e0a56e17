import Raft2PC.Proofs.CommitNeedsVotes
import Raft2PC.Sanity.Deployment
import Raft2PC.Sanity.Orders
import Raft2PC.Sanity.Provenance

/-! One transfer for each transaction id. Every entry in a log of any server of any cluster comes
from a transfer that a client has typed, and entries with the same id from the same one. -/

namespace Raft2PC

/-- What the client makes of a command, once it is numbered. -/
def Typed (r : Request) : Prop :=
  ∃ senderId recipientId amount m,
    Client.createSingleTransfer senderId recipientId amount = some m ∧ m.request r.id = some r

def Traffic.transactions : Traffic → List Transaction
  | .prepare req _ _ => [.cross req]
  | .commit req => [.cross { req with phase := .commit }]
  | .abort req => [.cross { req with phase := .abort }]
  | .intra req _ => [.intra req]
  | _ => []

def Transaction.order : Transaction → Request
  | .intra req => .intra req
  | .cross req => .cross { req with phase := .prepare }

theorem Transaction.id_order (t : Transaction) : t.order.id = t.id := by
  cases t <;> rfl

theorem Transaction.request_injective : Function.Injective Transaction.request := by
  intro t t' h
  cases t <;> cases t' <;> cases h <;> rfl

namespace Deployment

open Routing

variable {s : Deployment} {e : DeploymentEvent} {es : List DeploymentEvent} {n : ℕ}
  {shards : ℕ → Table ℤ}

/-- An entry of cluster `c` comes from a message on a line to the cluster. -/
def FromLine (s : Deployment) (c : ℕ) (x : Entry) : Prop :=
  ∃ l ∈ s.lines, l.cluster = c ∧ ∃ t : Transaction, l.msg = t.request ∧ t.Logs c x

structure Traced (s : Deployment) : Prop where
  posts : ∀ m ∈ s.posts, ∀ id r, m.request id = some r → Typed r
  lines : ∀ l ∈ s.lines, ∀ t : Transaction, l.msg = t.request →
    ∃ x ∈ s.routing.traffic, t ∈ x.transactions
  entered : ∀ c, Entered (s.FromLine c) (s.clusters c).raft (s.clusters c).net
  cluster : ∀ c p, ((s.clusters c).raft p).clusterId = c

/-! ### Messages to the service -/

theorem posts_step {m : Incoming} (h : m ∈ (s.step e).posts) :
    m ∈ s.posts ∨ (∃ c, e.action = .command c ∧ Client.posts c = some m) ∨
      ∃ a : AIOAction, a.post = some m := by
  have htake : m ∈ (s.take e).posts →
      m ∈ s.posts ∨ ∃ c, e.action = .command c ∧ Client.posts c = some m := by
    intro h
    unfold take at h
    cases he : e.action with
    | command c =>
      rw [he] at h
      exact (List.mem_append.mp h).imp_right fun h => ⟨c, rfl, Option.mem_toList.mp h⟩
    | arrive k =>
      rw [he] at h
      exact Or.inl (List.mem_of_mem_eraseIdx h)
    | answer n k =>
      rw [he] at h
      dsimp only at h
      split_ifs at h <;> exact Or.inl h
    | _ =>
      rw [he] at h
      exact Or.inl h
  have hold : m ∈ (s.take e).posts →
      m ∈ s.posts ∨ (∃ c, e.action = .command c ∧ Client.posts c = some m) ∨
        ∃ a : AIOAction, a.post = some m := fun h => (htake h).imp_right Or.inl
  cases hr : s.routes e with
  | some r =>
    rw [step_routed hr] at h
    exact hold h
  | none =>
    cases hs : s.stirs e with
    | none =>
      rw [step_neither hr hs] at h
      exact hold h
    | some x =>
      rw [step_stirred hs, stir] at h
      rcases List.mem_append.mp h with h | h
      · exact hold h
      · obtain ⟨p, -, hp⟩ := List.mem_flatMap.mp h
        obtain ⟨a, -, ha⟩ := List.mem_filterMap.mp hp
        exact Or.inr (Or.inr ⟨a, ha⟩)

/-- Servers send the service no requests to number. -/
theorem request_of_post {a : AIOAction} {m : Incoming} (h : a.post = some m) (id : ℤ) :
    m.request id = none := by
  unfold AIOAction.post at h
  split at h
  · obtain rfl := Option.some.inj h
    rfl
  · obtain rfl := Option.some.inj h
    rfl
  · cases h

theorem typed_of_command {c : ClientCommand} {m : Incoming} {id : ℤ} {r : Request}
    (hc : Client.posts c = some m) (hr : m.request id = some r) : Typed r := by
  cases c with
  | transfer senderId recipientId amount =>
    exact ⟨senderId, recipientId, amount, m, hc, by rw [id_of_request hr, hr]⟩
  | _ => cases hc

/-! ### Lines -/

theorem traffic_longer (s : Routing) (e : RoutingEvent) : s.traffic <+: (s.step e).traffic := by
  rcases traffic_step s e with ⟨extra, hextra, -⟩ | ⟨req, c, -, htraffic⟩
  · exact ⟨extra, hextra.symm⟩
  · exact ⟨_, htraffic.symm⟩

theorem traffic_grows (s : Deployment) (e : DeploymentEvent) :
    s.routing.traffic <+: (s.step e).routing.traffic := by
  rw [routing_step]
  cases s.routes e with
  | none => exact List.prefix_refl _
  | some r => exact traffic_longer s.routing r

/-- The client's own messages to servers ask for no entry. -/
theorem transaction_of_command {t : Transaction} {l : Line} (h : l ∈ s.commandOpens e) :
    l.msg ≠ t.request := by
  unfold commandOpens at h
  cases he : e.action with
  | command c =>
    simp only [he, List.mem_flatMap] at h
    obtain ⟨o, ho, hl⟩ := h
    have hmsg : l.msg = o.msg := by
      unfold Outgoing.lines at hl
      cases hc : pyIndex s.numCluster o.cluster with
      | none => simp [hc] at hl
      | some c =>
        rw [hc] at hl
        rw [List.mem_singleton.mp hl]
        rfl
    rw [hmsg]
    cases c with
    | transfer a b x => cases ho
    | balance i =>
      simp only [Client.sends, Client.printBalance, TransactionHandler.getBalance] at ho
      split_ifs at ho
      · obtain ⟨j, -, rfl⟩ := List.mem_map.mp ho
        cases t <;> simp [Transaction.request]
      · cases ho
    | dataStore =>
      simp only [Client.sends, TransactionHandler.getDataStore, List.mem_flatMap, List.mem_map] at ho
      obtain ⟨i, -, j, -, rfl⟩ := ho
      cases t <;> simp [Transaction.request]
    | stop i =>
      simp only [Client.sends, Client.stopServer] at ho
      split_ifs at ho
      · rw [List.mem_singleton.mp ho]
        cases t <;> simp [Transaction.request, TransactionHandler.stop]
      · cases ho
    | resume i =>
      simp only [Client.sends, Client.resumeServer] at ho
      split_ifs at ho
      · rw [List.mem_singleton.mp ho]
        cases t <;> simp [Transaction.request, TransactionHandler.resume]
      · cases ho
  | _ => simp [he] at h

/-- A line of the service carries what the service has sent. -/
theorem transaction_of_traffic {n : ℕ} {x : Traffic} {l : Line} (h : l ∈ x.lines n) :
    ∃ t ∈ x.transactions, l.msg = t.request := by
  have hbroadcast : ∀ phase req, l ∈ broadcastLines n phase req →
      l.msg = .crossShard { req with phase } := by
    intro phase req hl
    unfold broadcastLines at hl
    cases hb : Broadcast.start n req with
    | none => simp [hb] at hl
    | some b =>
      simp only [hb, Option.elim_some, List.mem_map] at hl
      obtain ⟨x, -, rfl⟩ := hl
      rfl
  cases x with
  | prepare req c server =>
    rw [List.mem_singleton.mp h]
    exact ⟨_, List.mem_singleton_self _, rfl⟩
  | intra req server =>
    simp only [Traffic.lines] at h
    cases hc : pyIndex n req.clusterId with
    | none => simp [hc] at h
    | some c =>
      rw [hc] at h
      rw [List.mem_singleton.mp h]
      exact ⟨_, List.mem_singleton_self _, rfl⟩
  | commit req => exact ⟨_, List.mem_singleton_self _, hbroadcast _ req h⟩
  | abort req => exact ⟨_, List.mem_singleton_self _, hbroadcast _ req h⟩
  | answer | reply | intraReply => cases h

theorem sent_subset (s : Deployment) (e : DeploymentEvent) :
    s.sent e ⊆ (s.step e).routing.traffic := by
  rw [sent, routing_step]
  cases s.routes e with
  | none => exact List.nil_subset _
  | some r => exact List.drop_subset _ _

/-! ### Steps -/

theorem FromLine.next {c : ℕ} {x : Entry} (h : s.FromLine c x) : (s.step e).FromLine c x := by
  obtain ⟨l, hl, hc, t, hmsg, hlogs⟩ := h
  obtain ⟨k, hk⟩ := List.getElem?_of_mem hl
  exact ⟨_, List.mem_of_getElem? (line_kept hk), hc, t, hmsg, hlogs⟩

theorem request_of_stirs {c : ℕ} {x : Event} {p : Idx} {fd : ℤ} {m : ClientMsg}
    (h : s.stirsIn e c = some x) (hx : x.action = .request p fd m) :
    ∃ (k : ℕ) (l : Line), e.action = .read k ∧ s.lines[k]? = some l ∧ l.read = false ∧
      l.cluster = c ∧ l.server = p ∧ l.msg = m := by
  obtain ⟨⟨c', x'⟩, hstirs, hif⟩ := Option.bind_eq_some_iff.mp h
  dsimp only at hif
  split_ifs at hif with hc
  obtain rfl := Option.some.inj hif
  subst hc
  unfold stirs at hstirs
  cases he : e.action with
  | read k =>
    rw [he] at hstirs
    dsimp only at hstirs
    cases hl : s.lines[k]? with
    | none => simp [hl] at hstirs
    | some l =>
      simp only [hl] at hstirs
      split_ifs at hstirs with hread
      obtain ⟨rfl, rfl⟩ := Prod.mk.inj (Option.some.inj hstirs)
      obtain ⟨rfl, -, rfl⟩ := Action.request.inj hx
      exact ⟨k, l, rfl, hl, by simpa using hread, rfl, rfl, rfl⟩
  | timeout | deliver | lose =>
    rw [he] at hstirs
    obtain ⟨rfl, rfl⟩ := Prod.mk.inj (Option.some.inj hstirs)
    cases hx
  | _ =>
    rw [he] at hstirs
    cases hstirs

theorem Traced.step (h : Traced s) (e : DeploymentEvent) : Traced (s.step e) where
  posts m hm id r hr := by
    rcases posts_step hm with hold | ⟨c, -, hc⟩ | ⟨a, ha⟩
    · exact h.posts m hold id r hr
    · exact typed_of_command hc hr
    · rw [request_of_post ha] at hr
      cases hr
  lines l hl t hmsg := by
    obtain ⟨k, hk⟩ := List.getElem?_of_mem hl
    rcases line_step hk with ⟨l₀, hl₀, rfl⟩ | ⟨-, hopen⟩
    · obtain ⟨x, hx, ht⟩ := h.lines l₀ (List.mem_of_getElem? hl₀) t hmsg
      exact ⟨x, (traffic_grows s e).subset hx, ht⟩
    · rcases List.mem_append.mp hopen with hcommand | hsent
      · exact absurd hmsg (transaction_of_command hcommand)
      · obtain ⟨x, hx, hlx⟩ := List.mem_flatMap.mp hsent
        obtain ⟨t', ht', hmsg'⟩ := transaction_of_traffic hlx
        obtain rfl := Transaction.request_injective (hmsg.symm.trans hmsg')
        exact ⟨x, sent_subset s e hx, ht'⟩
  entered c := by
    have hold : Entered ((s.step e).FromLine c) (s.clusters c).raft (s.clusters c).net :=
      (h.entered c).mono fun x hx => hx.next
    rw [clusters_step]
    cases hs : s.stirsIn e c with
    | none => exact hold
    | some ev =>
      refine hold.step fun p fd m x hev hx => ?_
      obtain ⟨k, l, -, hk, -, hc, -, rfl⟩ := request_of_stirs hs hev
      have hl := List.mem_of_getElem? hk
      obtain ⟨t, hmsg, hlogs⟩ := logs_created hx
      rw [h.cluster] at hlogs
      exact FromLine.next ⟨l, hl, hc, t, hmsg, hlogs⟩
  cluster c p := by
    rw [clusters_step]
    cases s.stirsIn e c with
    | none => exact h.cluster c p
    | some ev => exact (clusterId_step _ ev p).trans (h.cluster c p)

theorem traced_init (n : ℕ) (shards : ℕ → Table ℤ) : Traced (init n shards) where
  posts _ hm := absurd hm List.not_mem_nil
  lines _ hl := absurd hl List.not_mem_nil
  entered c := entered_init _ c (shards c)
  cluster _ _ := rfl

theorem Traced.run (h : Traced s) (es : List DeploymentEvent) : Traced (s.run es) := by
  induction es generalizing s with
  | nil => exact h
  | cons e es ih => exact ih (h.step e)

theorem post_of_routes {ev : RoutingEvent} {m : Incoming} (h : s.routes e = some ev)
    (hev : ev.action = .handle m) : m ∈ s.posts := by
  unfold routes at h
  cases he : e.action with
  | arrive k =>
    simp only [he, Option.map_eq_some_iff] at h
    obtain ⟨m', hm', rfl⟩ := h
    obtain rfl := RoutingAction.handle.inj hev
    exact List.mem_of_getElem? hm'
  | answer n k =>
    simp only [he] at h
    split at h
    · obtain ⟨o, -, rfl⟩ := Option.map_eq_some_iff.mp h
      cases hev
    · cases h
  | resume n o =>
    simp only [he] at h
    split at h
    · cases h
    · obtain rfl := Option.some.inj h
      cases hev
  | job o =>
    simp only [he] at h
    obtain rfl := Option.some.inj h
    cases hev
  | _ =>
    simp only [he] at h
    cases h

theorem Traced.typed_numbers (h : Traced s) {ev : RoutingEvent} {r : Request}
    (hev : s.routes e = some ev) (hr : s.routing.numbers ev = some r) : Typed r := by
  unfold numbers at hr
  cases ha : ev.action with
  | handle m =>
    rw [ha] at hr
    exact h.posts m (post_of_routes hev ha) _ r hr
  | _ => simp [ha] at hr

theorem Traced.typed (h : Traced s) {r : Request}
    (hr : r ∈ orders s.routing (routed s es)) : Typed r := by
  induction es generalizing s with
  | nil => cases hr
  | cons e es ih =>
    rw [routed] at hr
    have hrest := routing_step s e
    cases hev : s.routes e with
    | none =>
      rw [hev] at hr hrest
      exact ih (h.step e) (hrest ▸ hr)
    | some ev =>
      rw [hev, Option.toList_some] at hr hrest
      rw [List.singleton_append, orders] at hr
      rcases List.mem_append.mp hr with hr | hr
      · exact h.typed_numbers hev (Option.mem_toList.mp hr)
      · exact ih (h.step e) (hrest ▸ hr)

/-! ### Entries -/

/-- The requests that the service numbers in a run of the whole database. -/
def numbered (n : ℕ) (shards : ℕ → Table ℤ) (es : List DeploymentEvent) : List Request :=
  orders (Routing.init n) (routed (init n shards) es)

theorem phase_of_typed {req : CrossShardReq} (h : Typed (.cross req)) : req.phase = .prepare := by
  obtain ⟨a, b, x, m, -, hm⟩ := h
  cases m with
  | crossShardReq req' =>
    rw [← Request.cross.inj (Option.some.inj hm)]
  | _ => cases hm

theorem order_of_traffic {x : Traffic} {t : Transaction} (ht : t ∈ x.transactions)
    (hx : ∀ r ∈ x.requests, r ∈ numbered n shards es) : t.order ∈ numbered n shards es := by
  have hcross : ∀ (req : CrossShardReq) (phase : CrossShardPhaseType),
      Request.cross req ∈ numbered n shards es →
        (Transaction.cross { req with phase }).order ∈ numbered n shards es := by
    intro req phase hreq
    have hphase := phase_of_typed ((traced_init n shards).typed hreq)
    rw [Transaction.order]
    rwa [show { req with phase := CrossShardPhaseType.prepare } = req by rw [← hphase]]
  cases x with
  | prepare req c server =>
    obtain rfl := List.mem_singleton.mp ht
    exact hcross req req.phase (hx _ (List.mem_singleton_self _))
  | commit req | abort req =>
    obtain rfl := List.mem_singleton.mp ht
    exact hcross req _ (hx _ (List.mem_singleton_self _))
  | intra req server =>
    obtain rfl := List.mem_singleton.mp ht
    exact hx _ (List.mem_singleton_self _)
  | answer | reply | intraReply => cases ht

/-- Where the entries of a run come from. -/
structure OneTransaction (n : ℕ) (shards : ℕ → Table ℤ) (es : List DeploymentEvent) : Prop where
  typed : ∀ r ∈ numbered n shards es, Typed r
  inOrder : ∀ (k : ℕ) (r : Request), (numbered n shards es)[k]? = some r → r.id = k + 1
  entries : ∀ c p, ∀ x ∈ ((((init n shards).run es).clusters c).raft p).log,
    ∃ t : Transaction, t.order ∈ numbered n shards es ∧ t.Logs c x.entry
  same : ∀ c p c' p', ∀ x ∈ ((((init n shards).run es).clusters c).raft p).log,
    ∀ y ∈ ((((init n shards).run es).clusters c').raft p').log, x.id = y.id →
      ∃ t t' : Transaction, t.Logs c x.entry ∧ t'.Logs c' y.entry ∧ t.order = t'.order

theorem numbered_of_traffic {y : Traffic} (hy : y ∈ ((init n shards).run es).routing.traffic) :
    ∀ r ∈ y.requests, r ∈ numbered n shards es := by
  rw [routing_run] at hy
  exact (knows_run n (routed (init n shards) es)).traffic y hy

/-- An entry is a phase of a request that the service has numbered, and has sent. -/
theorem logged {c : ℕ} {p : Idx} {x : LogEntry}
    (hx : x ∈ ((((init n shards).run es).clusters c).raft p).log) :
    ∃ t : Transaction, t.order ∈ numbered n shards es ∧ t.Logs c x.entry ∧
      ∃ y ∈ ((init n shards).run es).routing.traffic, t ∈ y.transactions := by
  have htraced := (traced_init n shards).run es
  obtain ⟨l, hl, -, t, hmsg, hlogs⟩ := (htraced.entered c).logs p x hx
  obtain ⟨y, hy, ht⟩ := htraced.lines l hl t hmsg
  exact ⟨t, order_of_traffic ht (numbered_of_traffic hy), hlogs, y, hy, ht⟩

theorem order_unique {t t' : Transaction} (ht : t.order ∈ numbered n shards es)
    (ht' : t'.order ∈ numbered n shards es) (hid : t.id = t'.id) : t.order = t'.order := by
  apply orders_unique ht ht'
  rw [Transaction.id_order, Transaction.id_order, hid]

/-- In every run of the whole database, whatever is lost, repeated or forwarded late, as long as
servers read each other's messages whole: each entry in a log of any server is a phase of a
transfer that a client has typed and the service has numbered, one after the other, in a cluster
of the transfer; and entries with the same id are phases of the same transfer. -/
theorem one_transaction (n : ℕ) (shards : ℕ → Table ℤ) (es : List DeploymentEvent) :
    OneTransaction n shards es where
  typed _ hr := (traced_init n shards).typed hr
  inOrder k r hr := by
    have hfirst : (Routing.init n).service.transactionId = 0 := rfl
    rw [id_orders hr, hfirst]
    omega
  entries c p x hx := by
    obtain ⟨t, ht, hlogs, -⟩ := logged hx
    exact ⟨t, ht, hlogs⟩
  same c p c' p' x hx y hy hxy := by
    obtain ⟨t, ht, hlogs, -⟩ := logged hx
    obtain ⟨t', ht', hlogs', -⟩ := logged hy
    exact ⟨t, t', hlogs, hlogs',
      order_unique ht ht' (hlogs.id.symm.trans (hxy.trans hlogs'.id))⟩

end Deployment

end Raft2PC
