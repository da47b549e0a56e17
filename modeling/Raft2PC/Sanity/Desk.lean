import Raft2PC.Dispatch.Backlog
import Raft2PC.Sanity.Callers

/-! The queue of one cluster with its writers, as a backlog: producers are the handlers of
requests, a drain is the loop over the pending requests after a heart beat, and the sweep is
the job. Every step of the routing service makes at most one move on it. -/

namespace Raft2PC

open Dispatch

/-- What the loop over the pending requests of cluster `c` has still to forward. -/
def Caller.drain (c : ℕ) : Caller → Option (List Queued)
  | .pending c' rest => if c' = c then some rest else none
  | _ => none

/-- The move on the queue of `c` when a coroutine returns to this caller. -/
def Caller.move (c : ℕ) (now : ℤ) : Caller → Option (Move Queued)
  | .done | .receiver _ _ true => none
  | .receiver req c' false => if c' = c then some (.put [⟨.cross req, now⟩]) else none
  | .pending c' [] => if c' = c then some .finish else none
  | .pending c' (q :: _) => if c' = c then some (.next q) else none

/-- What the job has not come to, and what it keeps, of the queue of `c`. -/
def Job.sweep (c : ℕ) : Job → Option (List Queued × List Queued)
  | .scan i rest kept | .abort i rest kept _ | .aborted i rest kept _ =>
    if i = c then some (rest, kept) else none
  | _ => none

namespace Routing

def desk (c : ℕ) (s : Routing) : Backlog Queued where
  queue := s.queue c
  drains := (s.tasks.filterMap fun t => t.caller.drain c : List (List Queued))
  sweep := s.job.sweep c

/-- What the handler of a message puts into the queue of `c`. -/
def puts (c : ℕ) (s : Routing) (now : ℤ) : Incoming → List Queued
  | .intraShardReq req =>
    if s.clusterIndex req.clusterId = some c ∧ s.leader c = -1 then
      [⟨.intra { req with id := s.service.transactionId + 1 }, now⟩]
    else []
  | .crossShardReq req =>
    let item : Queued :=
      ⟨.cross { req with phase := .prepare, id := s.service.transactionId + 1 }, now⟩
    match s.clusterIndex req.senderClusterId, s.clusterIndex req.receiverClusterId with
    | some sender, some receiver =>
      if s.leader sender = -1 then
        (if sender = c then [item] else []) ++
          (if receiver = c ∧ s.leader receiver = -1 then [item] else [])
      else []
    | _, _ => []
  | _ => []

/-- The move a step makes on the queue of `c`. -/
def move (c : ℕ) (s : Routing) (e : RoutingEvent) : Option (Move Queued) :=
  match e.action with
  | .handle (.appendEntriesReq leaderId) =>
    if s.clusterIndex (leaderId / SERVER_NUM_PER_CLUSTER) = some c ∧ s.leader c = -1 then
      (s.queue c).head?.map .start
    else none
  | .handle m => if s.puts c e.now m = [] then none else some (.put (s.puts c e.now m))
  | .resume n o =>
    s.tasks[n]?.bind fun t =>
      match t.next s o with
      | .waits => none
      | .returns => t.caller.move c e.now
      | .ends => (t.caller.drain c).map fun _ => .quit
  | .job o =>
    match s.job with
    | .cluster i =>
      if i = c ∧ i < s.service.transactionRequest.length ∧ s.queue i ≠ [] then some .copy else none
    | .scan i [] _ => if i = c then some .write else none
    | .scan i (q :: _) _ =>
      if i = c then if e.now - q.time < 3000 then some .keep else some (.drop q) else none
    | .aborted i _ _ _ => if i = c ∧ o = .raises then some .crash else none
    | _ => none

/-- No move, or the given one. -/
inductive Moved (b : Backlog Queued) : Option (Move Queued) → Backlog Queued → Prop
  | none : Moved b none b
  | some {m : Move Queued} {b' : Backlog Queued} (h : Step b m b') : Moved b (some m) b'

/-! ### Primitives -/

variable {c : ℕ} {s : Routing}

theorem queue_setQueue (hc : c < s.service.transactionRequest.length) (i : ℕ) (q : List Queued) :
    (s.setQueue i q).queue c = if i = c then q else s.queue c := by
  simp only [queue, setQueue, List.getD_eq_getElem?_getD]
  by_cases hi : i = c
  · subst hi
    rw [List.getElem?_set_self hc, if_pos rfl]
    rfl
  · rw [List.getElem?_set_ne hi, if_neg hi]

theorem desk_aside {a b : Routing} (h : Aside a b) : b.desk c = a.desk c := by
  simp only [desk, queue, h.queues, h.tasks, h.job]

theorem desk_setQueue (hc : c < s.service.transactionRequest.length) (i : ℕ) (q : List Queued) :
    (s.setQueue i q).desk c =
      { s.desk c with queue := if i = c then q else s.queue c } := by
  simp only [desk, queue_setQueue hc]
  rfl

theorem desk_await (t : Task) : (s.await t).desk c =
    { s.desk c with drains := ((t.caller.drain c).toList : Multiset _) + (s.desk c).drains } := by
  have hlist : ((s.tasks ++ [t]).filterMap fun t => t.caller.drain c) =
      (s.tasks.filterMap fun t => t.caller.drain c) ++ (t.caller.drain c).toList := by
    rw [List.filterMap_append]
    cases h : t.caller.drain c <;> simp [h]
  have hdrains : ((s.await t).desk c).drains =
      ((t.caller.drain c).toList : Multiset _) + (s.desk c).drains := by
    rw [add_comm]
    simp only [desk, await, hlist, Multiset.coe_add]
  rw [← hdrains]
  rfl

/-- A task that runs again leaves its place among the drains. -/
theorem desk_wake {n : ℕ} {t : Task} (ht : s.tasks[n]? = some t) : s.desk c =
    { (s.wake n).desk c with
      drains := ((t.caller.drain c).toList : Multiset _) + ((s.wake n).desk c).drains } := by
  obtain ⟨hn, rfl⟩ := List.getElem?_eq_some_iff.mp ht
  have hperm := (List.getElem_cons_eraseIdx_perm hn).filterMap fun t => t.caller.drain c
  have hdrains : (s.desk c).drains =
      ((s.tasks[n].caller.drain c).toList : Multiset _) + ((s.wake n).desk c).drains := by
    refine (Multiset.coe_eq_coe.mpr hperm.symm).trans ?_
    rw [List.filterMap_cons]
    cases s.tasks[n].caller.drain c <;> rfl
  rw [← hdrains]
  rfl

theorem desk_redirectCross (req : CrossShardReq) (i : ℕ) (k : Caller) :
    (s.redirectCross req i k).desk c =
      { s.desk c with drains := ((k.drain c).toList : Multiset _) + (s.desk c).drains } :=
  desk_await (Task.prepare req i k)

theorem desk_redirectIntra (req : IntraShardReq) (i : ℕ) (k : Caller) :
    (s.redirectIntra req i k).desk c =
      { s.desk c with drains := ((k.drain c).toList : Multiset _) + (s.desk c).drains } :=
  desk_await (Task.intra req k)

/-! ### Steps -/

/-- The coroutine that returns is no longer a drain; its caller makes the move. -/
theorem moved_return (hc : c < s.service.transactionRequest.length) (now : ℤ) (k : Caller) :
    Moved { s.desk c with drains := ((k.drain c).toList : Multiset _) + (s.desk c).drains }
      (k.move c now) ((s.return_ now k).desk c) := by
  have hzero : ∀ D : Multiset (List Queued), ((none : Option (List Queued)).toList : Multiset _) + D =
      D := fun D => zero_add D
  have hcons : ∀ (rest : List Queued) (D : Multiset (List Queued)),
      ((some rest).toList : Multiset _) + D = rest ::ₘ D := fun rest D => Multiset.singleton_add rest D
  cases k with
  | done =>
    rw [show Caller.drain c .done = none from rfl, hzero]
    exact .none
  | receiver req c' hasLeader =>
    rw [show Caller.drain c (.receiver req c' hasLeader) = none from rfl, hzero]
    cases hasLeader with
    | true =>
      rw [return_, if_pos rfl, desk_redirectCross, show Caller.drain c .done = none from rfl,
        hzero]
      exact .none
    | false =>
      rw [return_, if_neg Bool.false_ne_true, enqueue, desk_setQueue hc, Caller.move]
      split_ifs with hi
      · subst hi
        exact .some (.put _ _)
      · exact .none
  | pending c' rest =>
    cases rest with
    | nil =>
      simp only [return_, Caller.drain, Caller.move, desk_setQueue hc]
      split_ifs with hi
      · rw [hcons]
        exact .some (.finish rfl)
      · rw [hzero]
        exact .none
    | cons q rest =>
      have hafter : ((s.return_ now (.pending c' (q :: rest))).desk c) = { s.desk c with
          drains := ((Caller.drain c (.pending c' rest)).toList : Multiset _) + (s.desk c).drains } := by
        obtain ⟨request, time⟩ := q
        cases request with
        | intra req => exact desk_redirectIntra req c' _
        | cross req => exact desk_redirectCross req c' _
      rw [hafter]
      simp only [Caller.drain, Caller.move]
      split_ifs with hi
      · rw [hcons, hcons]
        exact .some (.next rfl)
      · exact .none

theorem moved_resume (hc : c < s.service.transactionRequest.length) (now : ℤ) (n : ℕ)
    (o : Outcome) :
    Moved (s.desk c) (s.move c ⟨.resume n o, now⟩) ((s.step ⟨.resume n o, now⟩).desk c) := by
  obtain ⟨ht, hs⟩ | ⟨t, a, ht, haside, hgoes⟩ := resume_cases s now n o
  · rw [hs]
    simp only [move, ht]
    exact .none
  · simp only [move, ht, Option.bind_some]
    rw [desk_wake ht]
    rcases hgoes with ⟨hnext, t', hk, hs⟩ | ⟨hnext, hs⟩ | ⟨hnext, hs⟩
    · rw [hnext, hs, desk_await, hk, desk_aside haside]
      exact .none
    · have hlen : c < a.service.transactionRequest.length := by
        rw [haside.queues]
        exact hc
      rw [hnext, hs, ← desk_aside haside]
      exact moved_return hlen now t.caller
    · rw [hnext, hs, desk_aside haside]
      cases t.caller.drain c with
      | none =>
        rw [Option.toList_none, Multiset.coe_nil, zero_add]
        exact .none
      | some rest => exact .some (.quit (Multiset.singleton_add rest _))

theorem queue_enqueue (hc : c < s.service.transactionRequest.length) (i : ℕ) (r : Request)
    (now : ℤ) :
    (s.enqueue i r now).queue c = s.queue c ++ if i = c then [⟨r, now⟩] else [] := by
  rw [enqueue, queue_setQueue hc]
  split_ifs with hi
  · rw [hi]
  · rw [List.append_nil]

theorem desk_enqueue (hc : c < s.service.transactionRequest.length) (i : ℕ) (r : Request) (now : ℤ) :
    (s.enqueue i r now).desk c =
      { s.desk c with queue := s.queue c ++ if i = c then [⟨r, now⟩] else [] } := by
  rw [← queue_enqueue hc]
  rfl

theorem moved_put {b : Routing} (items : List Queued)
    (h : b.desk c = { s.desk c with queue := s.queue c ++ items }) :
    Moved (s.desk c) (if items = [] then none else some (.put items)) (b.desk c) := by
  rw [h]
  split_ifs with hnil
  · rw [hnil, List.append_nil]
    exact .none
  · exact .some (.put _ _)

theorem moved_beat (hc : c < s.service.transactionRequest.length) (now : ℤ) (leaderId : ℤ) :
    Moved (s.desk c) (s.move c ⟨.handle (.appendEntriesReq leaderId), now⟩)
      ((s.handle now (.appendEntriesReq leaderId)).desk c) := by
  simp only [move, handle]
  cases hi : s.clusterIndex (leaderId / SERVER_NUM_PER_CLUSTER) with
  | none => exact .none
  | some i =>
    dsimp only
    by_cases hstart : s.leader i = -1 ∧ s.queue i ≠ []
    · obtain ⟨q, rest, hq⟩ := List.exists_cons_of_ne_nil hstart.2
      rw [if_pos hstart, hq]
      have hafter : ((s.setLeader i leaderId).return_ now (.pending i (q :: rest))).desk c =
          { s.desk c with
            drains := ((Caller.drain c (.pending i rest)).toList : Multiset _) + (s.desk c).drains } := by
        obtain ⟨request, time⟩ := q
        cases request with
        | intra req => exact desk_redirectIntra (s := s.setLeader i leaderId) req i _
        | cross req => exact desk_redirectCross (s := s.setLeader i leaderId) req i _
      rw [hafter]
      by_cases hic : i = c
      · subst hic
        rw [if_pos ⟨rfl, hstart.1⟩, hq, show Caller.drain i (.pending i rest) = some rest from if_pos rfl]
        exact .some (.start hq)
      · rw [if_neg fun h => hic (Option.some.inj h.1),
          show Caller.drain c (.pending i rest) = none from if_neg hic, Option.toList_none,
          Multiset.coe_nil, zero_add]
        exact .none
    · rw [if_neg hstart]
      by_cases hic : i = c ∧ s.leader c = -1
      · obtain ⟨rfl, hleader⟩ := hic
        have hempty : s.queue i = [] := by
          by_contra hne
          exact hstart ⟨hleader, hne⟩
        rw [hempty]
        split_ifs <;> exact .none
      · rw [if_neg fun h => hic ⟨Option.some.inj h.1, h.2⟩]
        exact .none

theorem desk_intra (hc : c < s.service.transactionRequest.length) (now : ℤ) (req : IntraShardReq) :
    (s.handle now (.intraShardReq req)).desk c =
      { s.desk c with queue := s.queue c ++ s.puts c now (.intraShardReq req) } := by
  have hindex : s.newId.clusterIndex req.clusterId = s.clusterIndex req.clusterId := rfl
  simp only [handle, puts, hindex]
  cases hi : s.clusterIndex req.clusterId with
  | none =>
    rw [if_neg fun h => absurd h.1 (by simp), List.append_nil]
    rfl
  | some i =>
    have hleader : s.newId.leader i = s.leader i := rfl
    dsimp only
    rw [hleader]
    by_cases hno : s.leader i = -1
    · rw [if_pos hno, desk_enqueue (s := s.newId) hc]
      by_cases hic : i = c
      · subst hic
        rw [if_pos rfl, if_pos ⟨rfl, hno⟩]
        rfl
      · rw [if_neg hic, if_neg fun h => hic (Option.some.inj h.1)]
        rfl
    · have hput : ¬(some i = some c ∧ s.leader c = -1) := by
        rintro ⟨hic, hc⟩
        obtain rfl := Option.some.inj hic
        exact hno hc
      rw [if_neg hno, desk_redirectIntra, if_neg hput, List.append_nil,
        show Caller.drain c .done = none from rfl, Option.toList_none, Multiset.coe_nil, zero_add]
      rfl

theorem desk_cross (hc : c < s.service.transactionRequest.length) (now : ℤ) (req : CrossShardReq) :
    (s.handle now (.crossShardReq req)).desk c =
      { s.desk c with queue := s.queue c ++ s.puts c now (.crossShardReq req) } := by
  have hdesk : s.opened.desk c = { s.desk c with queue := s.queue c ++ [] } := by
    rw [desk_aside (Aside.opened s), List.append_nil]
    rfl
  have hlen : c < s.opened.service.transactionRequest.length := hc
  have hnone : ∀ (r : CrossShardReq) (i : ℕ) (b : Bool), Caller.drain c (.receiver r i b) = none :=
    fun _ _ _ => rfl
  rw [handle_cross]
  simp only [puts]
  cases s.clusterIndex req.senderClusterId with
  | none => exact hdesk
  | some sender =>
    cases s.clusterIndex req.receiverClusterId with
    | none => exact hdesk
    | some receiver =>
      dsimp only
      by_cases hsender : s.leader sender = -1
      · rw [if_neg (not_not.mpr hsender), if_pos hsender]
        by_cases hreceiver : s.leader receiver = -1
        · rw [return_, if_neg (by simp [hreceiver]), desk_enqueue (by simpa [enqueue, setQueue]),
            queue_enqueue hlen, desk_enqueue hlen, List.append_assoc]
          simp only [hreceiver, and_true]
          rfl
        · rw [return_, if_pos (by simp [hreceiver]), desk_redirectCross, desk_enqueue hlen,
            show Caller.drain c .done = none from rfl, Option.toList_none, Multiset.coe_nil, zero_add]
          simp only [hreceiver, and_false, if_false, List.append_nil]
          rfl
      · rw [if_pos hsender, if_neg hsender, desk_redirectCross, hnone, Option.toList_none,
          Multiset.coe_nil, zero_add]
        exact hdesk

theorem moved_handle (hc : c < s.service.transactionRequest.length) (now : ℤ) (m : Incoming) :
    Moved (s.desk c) (s.move c ⟨.handle m, now⟩) ((s.handle now m).desk c) := by
  cases m with
  | appendEntriesReq leaderId => exact moved_beat hc now leaderId
  | intraShardReq req => exact moved_put _ (desk_intra hc now req)
  | crossShardReq req => exact moved_put _ (desk_cross hc now req)
  | requestVoteReq candidateId =>
    apply moved_put []
    rw [List.append_nil]
    simp only [handle]
    split <;> rfl

theorem desk_setJob (s : Routing) (j : Job) :
    (s.setJob j).desk c = { s.desk c with sweep := j.sweep c } := rfl

theorem moved_job (hc : c < s.service.transactionRequest.length) (now : ℤ) (o : Outcome) :
    Moved (s.desk c) (s.move c ⟨.job o, now⟩) ((s.stepJob now o).desk c) := by
  have hsweep : (s.desk c).sweep = s.job.sweep c := rfl
  simp only [move, stepJob]
  -- a step of the job that leaves its copy and what it keeps
  have hsame : ∀ (b : Routing) (j : Job), b.desk c = s.desk c → j.sweep c = s.job.sweep c →
      Moved (s.desk c) none ((b.setJob j).desk c) := by
    intro b j hb hj
    rw [desk_setJob, hb, hj]
    exact .none
  cases hjob : s.job with
  | idle => exact hsame s _ rfl (by rw [hjob]; rfl)
  | dead => exact .none
  | cluster i =>
    rw [hjob] at hsame hsweep
    dsimp only
    by_cases hi : i < s.service.transactionRequest.length
    · rw [if_pos hi]
      by_cases hq : s.queue i = []
      · rw [if_pos hq, if_neg fun h => h.2.2 hq]
        exact hsame s _ rfl rfl
      · rw [if_neg hq]
        by_cases hic : i = c
        · subst hic
          rw [if_pos ⟨rfl, hi, hq⟩, desk_setJob, Job.sweep, if_pos rfl]
          exact .some (.copy hsweep)
        · rw [if_neg fun h => hic h.1]
          exact hsame s _ rfl (if_neg hic)
    · rw [if_neg hi, if_neg fun h => hi h.2.1]
      exact hsame s _ rfl rfl
  | scan i rest kept =>
    rw [hjob] at hsame hsweep
    cases rest with
    | nil =>
      dsimp only
      rw [desk_setJob, desk_setQueue hc]
      by_cases hic : i = c
      · subst hic
        rw [if_pos rfl, if_pos rfl]
        exact .some (.write (hsweep.trans (if_pos rfl)))
      · rw [if_neg hic, if_neg hic]
        have hnone : Job.sweep c (.scan i [] kept) = none := if_neg hic
        rw [hnone] at hsweep
        rw [show Job.sweep c (.cluster (i + 1)) = none from rfl, ← hsweep]
        exact .none
    | cons q rest =>
      obtain ⟨request, time⟩ := q
      by_cases hic : i = c
      · subst hic
        have hcopy : (s.desk i).sweep = some (⟨request, time⟩ :: rest, kept) :=
          hsweep.trans (if_pos rfl)
        have hdrop : Moved (s.desk i) (some (.drop ⟨request, time⟩))
            { s.desk i with sweep := some (rest, kept) } := .some (.drop hcopy)
        dsimp only
        rw [if_pos rfl]
        by_cases htime : now - time < 3000
        · rw [if_pos htime, if_pos htime, desk_setJob, Job.sweep, if_pos rfl]
          exact .some (.keep hcopy)
        · rw [if_neg htime, if_neg htime]
          cases request with
          | intra req =>
            dsimp only
            rw [desk_setJob, Job.sweep, if_pos rfl]
            exact hdrop
          | cross req =>
            dsimp only
            split_ifs
            · rw [desk_setJob, Job.sweep, if_pos rfl]
              exact hdrop
            · rw [desk_setJob, Job.sweep, if_pos rfl]
              exact hdrop
      · have hnone : ∀ (rest' kept' : List Queued), Job.sweep c (.scan i rest' kept') =
            Job.sweep c (.scan i (⟨request, time⟩ :: rest) kept) := fun _ _ =>
          (if_neg hic).trans (if_neg hic).symm
        dsimp only
        rw [if_neg hic]
        split_ifs
        · exact hsame s _ rfl (hnone _ _)
        · cases request with
          | intra req => exact hsame s _ rfl (hnone _ _)
          | cross req =>
            dsimp only
            split_ifs
            · exact hsame _ _ rfl ((if_neg hic).trans (if_neg hic).symm)
            · exact hsame _ _ rfl (hnone _ _)
  | abort i rest kept req => exact hsame _ _ rfl (by rw [hjob]; rfl)
  | aborted i rest kept req =>
    rw [hjob] at hsame hsweep
    dsimp only
    by_cases ho : o = .raises
    · rw [if_pos ho, desk_setJob]
      by_cases hic : i = c
      · rw [if_pos ⟨hic, ho⟩]
        exact .some (.crash _)
      · rw [if_neg fun h => hic h.1]
        have hnone : Job.sweep c (.aborted i rest kept req) = none := if_neg hic
        rw [hnone] at hsweep
        rw [show Job.sweep c .dead = none from rfl, ← hsweep]
        exact .none
    · rw [if_neg ho, if_neg fun h => ho h.2]
      exact hsame _ _ rfl rfl

/-- The queue of a cluster and its writers are a backlog, and a step is a move on it. -/
theorem moved_step (hc : c < s.service.transactionRequest.length) (e : RoutingEvent) :
    Moved (s.desk c) (s.move c e) ((s.step e).desk c) := by
  obtain ⟨action, now⟩ := e
  cases action with
  | handle m => exact moved_handle hc now m
  | resume n o => exact moved_resume hc now n o
  | job o => exact moved_job hc now o

/-- The desk stays as it is, or a move is made on it. -/
theorem moved_cases (hc : c < s.service.transactionRequest.length) (e : RoutingEvent) :
    s.move c e = none ∧ (s.step e).desk c = s.desk c ∨
      ∃ m, s.move c e = some m ∧ Step (s.desk c) m ((s.step e).desk c) := by
  have hmoved := moved_step hc e
  generalize s.move c e = m at hmoved ⊢
  generalize (s.step e).desk c = b at hmoved ⊢
  cases hmoved with
  | none => exact Or.inl ⟨rfl, rfl⟩
  | some h => exact Or.inr ⟨_, rfl, h⟩

/-- The message that forwards a queued request to server `i` of cluster `c`. -/
def forward (c : ℕ) (i : ℤ) (q : Queued) : Traffic :=
  match q.request with
  | .intra req => .intra req i
  | .cross req => .prepare req c i

theorem traffic_pending (s : Routing) (now : ℤ) (c : ℕ) (q : Queued) (rest : List Queued) :
    (s.return_ now (.pending c (q :: rest))).traffic =
      s.traffic ++ [forward c (s.leaderIndex c) q] := by
  obtain ⟨request, time⟩ := q
  cases request <;> rfl

/-- A caller hands out a request only in the loop over the pending ones. -/
theorem handed_pending {now : ℤ} {k : Caller} {m : Move Queued} {q : Queued}
    (hm : k.move c now = some m) (hq : q ∈ m.handed) : ∃ rest, k = .pending c (q :: rest) := by
  unfold Caller.move at hm
  split at hm
  · cases hm
  · cases hm
  · split_ifs at hm
    cases hm
    exact absurd hq (Multiset.notMem_zero q)
  · split_ifs at hm
    cases hm
    exact absurd hq (Multiset.notMem_zero q)
  · rename_i c' first rest
    split_ifs at hm with hc
    cases hm
    obtain rfl := Multiset.mem_singleton.mp hq
    exact ⟨rest, by rw [hc]⟩

/-- In the step a loop over the pending requests of `c` starts or goes on. -/
def loops (c : ℕ) (s : Routing) (e : RoutingEvent) : Bool :=
  match e.action with
  | .handle (.appendEntriesReq leaderId) =>
    s.clusterIndex (leaderId / SERVER_NUM_PER_CLUSTER) = some c
  | .resume n _ => (s.tasks[n]?).any fun t => (t.caller.drain c).isSome
  | _ => false

/-- A request that a drain hands out is sent to a server, and no other is in that step. -/
theorem traffic_handed {e : RoutingEvent} {m : Move Queued} {q : Queued}
    (hm : s.move c e = some m) (hq : q ∈ m.handed) :
    s.loops c e = true ∧ ∃ others i,
      (s.step e).traffic = s.traffic ++ others ++ [forward c i q] ∧
        ∀ t ∈ others, t.forwards = false := by
  obtain ⟨action, now⟩ := e
  have hput : ∀ items : List Queued,
      (if items = [] then none else some (Move.put items)) = some m → False := by
    intro items h
    split_ifs at h
    cases h
    exact Multiset.notMem_zero q hq
  cases action with
  | handle msg =>
    cases msg with
    | requestVoteReq candidateId => exact (hput (s.puts c now (.requestVoteReq candidateId)) hm).elim
    | intraShardReq req => exact (hput (s.puts c now (.intraShardReq req)) hm).elim
    | crossShardReq req => exact (hput (s.puts c now (.crossShardReq req)) hm).elim
    | appendEntriesReq leaderId =>
      simp only [move] at hm
      split_ifs at hm with hidle
      obtain ⟨hindex, hleader⟩ := hidle
      obtain ⟨first, hfirst, rfl⟩ := Option.map_eq_some_iff.mp hm
      obtain rfl := Multiset.mem_singleton.mp hq
      obtain ⟨rest, hrest⟩ : ∃ rest, s.queue c = q :: rest := by
        cases hqueue : s.queue c with
        | nil =>
          rw [hqueue] at hfirst
          cases hfirst
        | cons a rest =>
          rw [hqueue] at hfirst
          exact ⟨rest, by rw [Option.some.inj hfirst]⟩
      refine ⟨by simp [loops, hindex], [], (s.setLeader c leaderId).leaderIndex c, ?_,
        fun t ht => absurd ht List.not_mem_nil⟩
      simp only [step, handle, hindex]
      rw [if_pos ⟨hleader, by simp [hrest]⟩, hrest, traffic_pending, List.append_nil]
      rfl
  | resume n o =>
    obtain ⟨ht, -⟩ | ⟨t, a, ht, haside, hgoes⟩ := resume_cases s now n o
    · simp only [move, ht] at hm
      cases hm
    · simp only [move, ht, Option.bind_some] at hm
      rcases hgoes with ⟨hnext, -⟩ | ⟨hnext, hs⟩ | ⟨hnext, -⟩
      · rw [hnext] at hm
        cases hm
      · rw [hnext] at hm
        obtain ⟨rest, hcaller⟩ := handed_pending hm hq
        obtain ⟨others, hothers, hno⟩ := haside.traffic
        refine ⟨by simp [loops, ht, hcaller, Caller.drain], others, a.leaderIndex c, ?_, hno⟩
        rw [hs, hcaller, traffic_pending, hothers]
        rfl
      · rw [hnext] at hm
        obtain ⟨-, -, rfl⟩ := Option.map_eq_some_iff.mp hm
        exact absurd hq (Multiset.notMem_zero q)
  | job o =>
    have hnone : ∀ (p : Prop) [Decidable p] (m' : Move Queued), m'.handed = 0 →
        (if p then some m' else none) = some m → False := by
      intro p hp m' hm' h
      split_ifs at h
      cases h
      rw [hm'] at hq
      exact Multiset.notMem_zero q hq
    simp only [move] at hm
    split at hm
    · exact (hnone _ _ rfl hm).elim
    · exact (hnone _ _ rfl hm).elim
    · split_ifs at hm
      all_goals
        cases hm
        exact absurd hq (Multiset.notMem_zero q)
    · exact (hnone _ _ rfl hm).elim
    · cases hm

/-- The number of queues. -/
def width (s : Routing) : ℕ := s.service.transactionRequest.length

theorem width_return (s : Routing) (now : ℤ) (k : Caller) : (s.return_ now k).width = s.width := by
  have hset : ∀ (i : ℕ) (q : List Queued), (s.setQueue i q).width = s.width := fun i q =>
    List.length_set
  cases k with
  | done => rfl
  | receiver req c hasLeader =>
    cases hasLeader with
    | true => rfl
    | false => exact hset _ _
  | pending c rest =>
    match rest with
    | [] => exact hset c []
    | ⟨.intra req, t⟩ :: rest => rfl
    | ⟨.cross req, t⟩ :: rest => rfl

theorem width_step (s : Routing) (e : RoutingEvent) : (s.step e).width = s.width := by
  have hset : ∀ (s : Routing) (i : ℕ) (q : List Queued), (s.setQueue i q).width = s.width :=
    fun _ _ _ => List.length_set
  obtain ⟨action, now⟩ := e
  cases action with
  | resume n o =>
    obtain ⟨-, hs⟩ | ⟨t, a, -, haside, ⟨-, t', -, hs⟩ | ⟨-, hs⟩ | ⟨-, hs⟩⟩ := resume_cases s now n o
    · rw [hs]
    · rw [hs]
      exact congrArg List.length haside.queues
    · rw [hs, width_return]
      exact congrArg List.length haside.queues
    · rw [hs]
      exact congrArg List.length haside.queues
  | job o =>
    simp only [step, stepJob]
    split
    · rfl
    · split_ifs <;> rfl
    · exact hset _ _ _
    · split_ifs
      · rfl
      · split
        · rfl
        · split_ifs <;> rfl
    · rfl
    · split_ifs <;> rfl
    · rfl
  | handle m =>
    cases m with
    | appendEntriesReq leaderId =>
      simp only [step, handle]
      split
      · rfl
      · split_ifs
        · exact width_return _ _ _
        · rfl
    | requestVoteReq candidateId =>
      simp only [step, handle]
      split <;> rfl
    | intraShardReq req =>
      simp only [step, handle]
      split
      · rfl
      · split_ifs
        · exact hset _ _ _
        · rfl
    | crossShardReq req =>
      simp only [step, handle]
      split
      · split_ifs
        · rfl
        · exact (width_return _ _ _).trans (hset _ _ _)
      · rfl

end Routing

end Raft2PC
