import Raft2PC.Sanity.Forwards
import Raft2PC.Sanity.Runs

/-! The account of a queue. Handlers, the loop over the pending requests and the job all
write `transaction_request`, two of them from a copy; where none comes between another's copy
and what is made of it, every queued request is forwarded or dropped once. -/

namespace Raft2PC

open Dispatch

/-- The request that a message takes to cluster `c`, one of `n`. -/
def Traffic.requestTo (n c : ℕ) : Traffic → Option Request
  | .prepare req c' _ => if c' = c then some (.cross req) else none
  | .intra req _ => if Routing.pyIndex n req.clusterId = some c then some (.intra req) else none
  | _ => none

namespace Routing

/-- The requests a run puts into the queue of `c`. -/
def queued (c : ℕ) : Routing → List RoutingEvent → Multiset Queued
  | _, [] => 0
  | s, e :: es => (s.move c e).elim 0 Move.puts + queued c (s.step e) es

/-- The requests of the queue of `c` that the loops over it take up. -/
def forwarded (c : ℕ) : Routing → List RoutingEvent → Multiset Queued
  | _, [] => 0
  | s, e :: es => (s.move c e).elim 0 Move.handed + forwarded c (s.step e) es

/-- The requests of the queue of `c` that the job does not keep, with the time. -/
def dropped (c : ℕ) : Routing → List RoutingEvent → Multiset (Queued × ℤ)
  | _, [] => 0
  | s, e :: es =>
    ((s.move c e).elim 0 Move.dropped).map (fun q => (q, e.now)) + dropped c (s.step e) es

/-- The requests in the messages to cluster `c` that a loop adds to the traffic. -/
def sentIn (c : ℕ) (s : Routing) (e : RoutingEvent) : List Request :=
  if s.loops c e then
    ((s.step e).traffic.drop s.traffic.length).filterMap (Traffic.requestTo s.breadth c)
  else []

def sentToCluster (c : ℕ) : Routing → List RoutingEvent → Multiset Request
  | _, [] => 0
  | s, e :: es => (s.sentIn c e : Multiset Request) + sentToCluster c (s.step e) es

/-- What has left the queue of `c` was put there once for each time it left, what was put and
has not left is still there, and nothing was dropped before it had waited three seconds. What
was forwarded is what the traffic has for cluster `c`. -/
structure Accounted (c : ℕ) (s : Routing) (es : List RoutingEvent) : Prop where
  sent : sentToCluster c s es = (forwarded c s es).map Queued.request
  once : forwarded c s es + (dropped c s es).map Prod.fst ≤ queued c s es
  kept : queued c s es ≤
    ((s.run es).queue c : Multiset Queued) + (forwarded c s es + (dropped c s es).map Prod.fst)
  expired : ∀ x ∈ dropped c s es, 3000 ≤ x.2 - x.1.time

/-- No writer of a queue comes between another's copy and what is made of it. -/
def InTurn (s : Routing) (e : RoutingEvent) : Prop :=
  ∀ c < s.width, ∀ m ∈ s.move c e, (s.desk c).Orderly m

instance (s : Routing) (e : RoutingEvent) : Decidable (s.InTurn e) :=
  inferInstanceAs (Decidable (∀ c < s.width, ∀ m ∈ s.move c e, (s.desk c).Orderly m))

def TakeTurns : Routing → List RoutingEvent → Prop
  | _, [] => True
  | s, e :: es => s.InTurn e ∧ TakeTurns (s.step e) es

instance decidableTakeTurns : ∀ s es, Decidable (TakeTurns s es)
  | _, [] => inferInstanceAs (Decidable True)
  | s, e :: es =>
    have := decidableTakeTurns (s.step e) es
    inferInstanceAs (Decidable (s.InTurn e ∧ TakeTurns (s.step e) es))

variable {c : ℕ} {s : Routing} {e : RoutingEvent}

theorem move_drop {q : Queued} (h : s.move c e = some (.drop q)) : 3000 ≤ e.now - q.time := by
  obtain ⟨action, now⟩ := e
  cases action with
  | handle m =>
    cases m with
    | appendEntriesReq leaderId =>
      simp only [move] at h
      split_ifs at h
      obtain ⟨q', -, hm⟩ := Option.map_eq_some_iff.mp h
      cases hm
    | requestVoteReq | intraShardReq | crossShardReq =>
      simp only [move] at h
      split_ifs at h
      cases h
  | resume n o =>
    obtain ⟨t, -, ht⟩ := Option.bind_eq_some_iff.mp h
    have hmove : ∀ k : Caller, k.move c now ≠ some (.drop q) := by
      intro k hk
      unfold Caller.move at hk
      split at hk
      · cases hk
      · cases hk
      · split_ifs at hk
        cases hk
      · split_ifs at hk
        cases hk
      · split_ifs at hk
        cases hk
    split at ht
    · cases ht
    · exact absurd ht (hmove _)
    · obtain ⟨-, -, hm⟩ := Option.map_eq_some_iff.mp ht
      cases hm
  | job o =>
    simp only [move] at h
    split at h
    · split_ifs at h
      cases h
    · split_ifs at h
      cases h
    · split_ifs at h with hic htime
      · cases h
      · cases h
        exact not_lt.mp htime
    · split_ifs at h
      cases h
    · cases h

/-! ### Messages -/

theorem requestTo_eq_none {t : Traffic} (h : t.forwards = false) (n : ℕ) :
    t.requestTo n c = none := by
  cases t with
  | prepare | intra => cases h
  | _ => rfl

theorem requestTo_forward {n : ℕ} {q : Queued} (h : Home n c q) (i : ℤ) :
    (forward c i q).requestTo n c = some q.request := by
  obtain ⟨request, time⟩ := q
  cases request with
  | cross req => exact if_pos rfl
  | intra req => exact if_pos (h req rfl)

theorem filterMap_others {others : List Traffic} (h : ∀ t ∈ others, t.forwards = false) (n : ℕ) :
    others.filterMap (Traffic.requestTo n c) = [] :=
  List.filterMap_eq_nil_iff.mpr fun t ht => requestTo_eq_none (h t ht) n

theorem sentIn_handed {m : Move Queued} {q : Queued} (hm : s.move c e = some m)
    (hq : q ∈ m.handed) (hhome : Home s.breadth c q) : s.sentIn c e = [q.request] := by
  obtain ⟨hloops, others, i, htraffic, hno⟩ := traffic_handed hm hq
  rw [sentIn, if_pos hloops, htraffic, List.append_assoc, List.drop_left, List.filterMap_append,
    filterMap_others hno, List.nil_append, List.filterMap_cons, requestTo_forward hhome]
  rfl

theorem sentIn_others {others : List Traffic} (htraffic : (s.step e).traffic = s.traffic ++ others)
    (hno : ∀ t ∈ others, t.forwards = false) : s.sentIn c e = [] := by
  rw [sentIn, htraffic, List.drop_left, filterMap_others hno, ite_self]

theorem sentIn_heartBeat {leaderId now : ℤ}
    (hloops : s.loops c ⟨.handle (.appendEntriesReq leaderId), now⟩ = true)
    (h : ∀ m ∈ s.move c ⟨.handle (.appendEntriesReq leaderId), now⟩, m.handed = 0) :
    s.sentIn c ⟨.handle (.appendEntriesReq leaderId), now⟩ = [] := by
  have hindex : s.clusterIndex (leaderId / SERVER_NUM_PER_CLUSTER) = some c := by
    simpa [loops] using hloops
  have hstart : ¬(s.leader c = -1 ∧ s.queue c ≠ []) := by
    rintro ⟨hleader, hne⟩
    obtain ⟨q, rest, hq⟩ := List.exists_cons_of_ne_nil hne
    have hm : s.move c ⟨.handle (.appendEntriesReq leaderId), now⟩ = some (.start q) := by
      simp [move, hindex, hleader, hq]
    exact Multiset.singleton_ne_zero q (h _ hm)
  have htraffic : (s.step ⟨.handle (.appendEntriesReq leaderId), now⟩).traffic =
      s.traffic ++ [] := by
    simp only [step, handle, hindex]
    rw [if_neg hstart, List.append_nil]
    rfl
  exact sentIn_others htraffic fun t ht => absurd ht List.not_mem_nil

theorem sentIn_resume {n : ℕ} {o : Outcome} {now : ℤ} (hloops : s.loops c ⟨.resume n o, now⟩ = true)
    (h : ∀ m ∈ s.move c ⟨.resume n o, now⟩, m.handed = 0) : s.sentIn c ⟨.resume n o, now⟩ = [] := by
  obtain ⟨ht, hs⟩ | ⟨t, a, ht, haside, hgoes⟩ := resume_cases s now n o
  · simp only [loops, ht] at hloops
    cases hloops
  · obtain ⟨others, hothers, hno⟩ := haside.traffic
    refine sentIn_others ?_ hno
    rcases hgoes with ⟨-, t', -, hs⟩ | ⟨hnext, hs⟩ | ⟨-, hs⟩
    · rw [hs]
      exact hothers
    · have hdrain : (t.caller.drain c).isSome = true := by simpa [loops, ht] using hloops
      rw [hs]
      cases hcaller : t.caller with
      | done | receiver =>
        rw [hcaller] at hdrain
        cases hdrain
      | pending c' rest =>
        rw [hcaller, Caller.drain] at hdrain
        split_ifs at hdrain with hc'
        swap
        · cases hdrain
        subst hc'
        cases rest with
        | nil => exact hothers
        | cons q rest =>
          have hm : s.move c' ⟨.resume n o, now⟩ = some (.next q) := by
            simp [move, ht, hnext, hcaller, Caller.move]
          exact absurd (h _ hm) (Multiset.singleton_ne_zero q)
    · rw [hs]
      exact hothers

theorem sentIn_idle (h : ∀ m ∈ s.move c e, m.handed = 0) : s.sentIn c e = [] := by
  by_cases hloops : s.loops c e = true
  · obtain ⟨action, now⟩ := e
    cases action with
    | job o => cases hloops
    | resume n o => exact sentIn_resume hloops h
    | handle msg =>
      cases msg with
      | requestVoteReq | intraShardReq | crossShardReq => cases hloops
      | appendEntriesReq leaderId => exact sentIn_heartBeat hloops h
  · rw [sentIn, if_neg hloops]

/-- What a loop sends to the cluster is what it takes up. -/
theorem sentIn_eq (h : s.Housed) (hc : c < s.width) (e : RoutingEvent) :
    (s.sentIn c e : Multiset Request) =
      ((s.move c e).elim 0 Move.handed).map Queued.request := by
  have hhome := h.home c hc
  obtain ⟨hnone, -⟩ | ⟨m, hm, hs⟩ := moved_cases hc e
  · have hidle : ∀ m ∈ s.move c e, m.handed = 0 := by simp [hnone]
    rw [sentIn_idle hidle, hnone]
    rfl
  · have hone : ∀ q, m.handed = {q} → Home s.breadth c q → (s.sentIn c e : Multiset Request) =
        ((s.move c e).elim 0 Move.handed).map Queued.request := by
      intro q hq hhomeq
      have hmem : q ∈ m.handed := by
        rw [hq]
        exact Multiset.mem_singleton_self q
      rw [sentIn_handed hm hmem hhomeq, hm, Option.elim_some, hq, Multiset.map_singleton]
      rfl
    have hzero : m.handed = 0 → (s.sentIn c e : Multiset Request) =
        ((s.move c e).elim 0 Move.handed).map Queued.request := by
      intro hq
      have hidle : ∀ m' ∈ s.move c e, m'.handed = 0 := by simp [hm, hq]
      rw [sentIn_idle hidle, hm, Option.elim_some, hq]
      rfl
    generalize s.desk c = b at hs hhome
    generalize (s.step e).desk c = b' at hs
    cases hs with
    | @start q rest hqueue => exact hone q rfl (hhome.queue q (hqueue ▸ List.mem_cons_self))
    | @next q rest D hdrains =>
      exact hone q rfl (hhome.drains _ (hdrains ▸ Multiset.mem_cons_self _ _) q List.mem_cons_self)
    | put | finish | quit | copy | keep | drop | write | crash => exact hzero rfl

theorem sent_run {es : List RoutingEvent} (h : s.Housed) (hc : c < s.width) :
    sentToCluster c s es = (forwarded c s es).map Queued.request := by
  induction es generalizing s with
  | nil => rfl
  | cons e es ih =>
    have hrest := ih (h.step e) (by rw [width_step]; exact hc)
    rw [sentToCluster, forwarded, Multiset.map_add, sentIn_eq h hc, hrest]

theorem accounted_from {es : List RoutingEvent} {puts out : Multiset Queued} (hc : c < s.width)
    (hok : TakeTurns s es) (h : (s.desk c).Settled puts out) :
    ((s.run es).desk c).Settled (puts + queued c s es)
      (out + (forwarded c s es + (dropped c s es).map Prod.fst)) := by
  induction es generalizing s puts out with
  | nil => simpa [queued, forwarded, dropped, run] using h
  | cons e es ih =>
    obtain ⟨hturn, hrest⟩ := hok
    have hstep : ((s.step e).desk c).Settled (puts + (s.move c e).elim 0 Move.puts)
        (out + ((s.move c e).elim 0 Move.handed + (s.move c e).elim 0 Move.dropped)) := by
      obtain ⟨hnone, hdesk⟩ | ⟨m, hm, hs⟩ := moved_cases hc e
      · rw [hdesk, hnone]
        simpa using h
      · rw [hm]
        exact h.step hs (hturn c hc m hm)
    have hrun := ih (by rw [width_step]; exact hc) hrest hstep
    have hdrop : (((s.move c e).elim 0 Move.dropped).map fun q => (q, e.now)).map Prod.fst =
        (s.move c e).elim 0 Move.dropped := by
      rw [Multiset.map_map]
      exact Multiset.map_id' _
    have hputs : puts + queued c s (e :: es) =
        puts + (s.move c e).elim 0 Move.puts + queued c (s.step e) es := (add_assoc _ _ _).symm
    have hout : out + (forwarded c s (e :: es) + (dropped c s (e :: es)).map Prod.fst) =
        out + ((s.move c e).elim 0 Move.handed + (s.move c e).elim 0 Move.dropped) +
          (forwarded c (s.step e) es + (dropped c (s.step e) es).map Prod.fst) := by
      rw [forwarded, dropped, Multiset.map_add, hdrop, add_assoc out, add_add_add_comm]
    rw [hputs, hout]
    exact hrun

theorem expired_run (s : Routing) (es : List RoutingEvent) :
    ∀ x ∈ dropped c s es, 3000 ≤ x.2 - x.1.time := by
  induction es generalizing s with
  | nil => exact fun x hx => absurd hx (Multiset.notMem_zero x)
  | cons e es ih =>
    intro x hx
    rcases Multiset.mem_add.mp hx with hx | hx
    · obtain ⟨q, hq, rfl⟩ := Multiset.mem_map.mp hx
      cases hm : s.move c e with
      | none =>
        rw [hm] at hq
        exact absurd hq (Multiset.notMem_zero q)
      | some m =>
        rw [hm] at hq
        cases m with
        | drop q' =>
          obtain rfl := Multiset.mem_singleton.mp hq
          exact move_drop hm
        | _ => exact absurd hq (Multiset.notMem_zero q)
    · exact ih (s.step e) x hx

end Routing

open Routing

/-- In every run whose writers take turns, every queued request leaves its queue once: it is
forwarded once, or dropped once after three seconds. -/
theorem queue_accounts (n : ℕ) (es : List RoutingEvent) (hok : TakeTurns (Routing.init n) es)
    (c : ℕ) (hc : c < n) : Accounted c (Routing.init n) es := by
  have hwidth : c < (Routing.init n).width := by
    rw [width, Routing.init, List.length_replicate]
    exact hc
  have hempty : (Routing.init n).desk c = ⟨[], 0, none⟩ := by
    rw [desk, queue, Routing.init, List.getD_eq_getElem?_getD, List.getElem?_replicate, if_pos hc]
    rfl
  have hstart : ((Routing.init n).desk c).Settled 0 0 := by
    rw [hempty]
    exact Backlog.settled_empty
  have h := accounted_from hwidth hok hstart
  rw [zero_add, zero_add] at h
  exact ⟨sent_run (housed_init n) hwidth, h.out_le, h.le_queue, expired_run _ es⟩

/-- A request that comes while a leader's heart beat is being acted on, after a vote. -/
def queueDuringDrain : List RoutingEvent :=
  [⟨.handle (.intraShardReq withinShard), 0⟩, ⟨.handle (.appendEntriesReq 0), 1⟩,
    ⟨.handle (.requestVoteReq 1), 2⟩, ⟨.handle (.intraShardReq withinShard), 3⟩,
    ⟨.resume 0 .returns, 4⟩, ⟨.resume 0 .returns, 5⟩]

/-- Two leaders whose heart beats find the same request. -/
def drainTwice : List RoutingEvent :=
  [⟨.handle (.intraShardReq withinShard), 0⟩, ⟨.handle (.appendEntriesReq 0), 1⟩,
    ⟨.handle (.requestVoteReq 1), 2⟩, ⟨.handle (.appendEntriesReq 1), 3⟩]

theorem queue_unaccounted :
    ¬Accounted 0 (Routing.init 3) queueDuringDrain ∧ ¬Accounted 0 (Routing.init 3) drainTwice := by
  have hlost : ¬queued 0 (Routing.init 3) queueDuringDrain ≤
      (((Routing.init 3).run queueDuringDrain).queue 0 : Multiset Queued) +
        (forwarded 0 (Routing.init 3) queueDuringDrain +
          (dropped 0 (Routing.init 3) queueDuringDrain).map Prod.fst) := by
    decide +kernel
  have htwice : ¬forwarded 0 (Routing.init 3) drainTwice +
      (dropped 0 (Routing.init 3) drainTwice).map Prod.fst ≤
        queued 0 (Routing.init 3) drainTwice := by
    decide +kernel
  exact ⟨fun h => hlost h.kept, fun h => htwice h.once⟩

/-- One request is forwarded to the first leader, one is dropped when no other is found. -/
def drainThenSweep : List RoutingEvent :=
  [⟨.handle (.intraShardReq withinShard), 0⟩, ⟨.handle (.appendEntriesReq 0), 1⟩,
    ⟨.resume 0 .returns, 4⟩, ⟨.resume 0 .returns, 5⟩, ⟨.handle (.requestVoteReq 1), 6⟩,
    ⟨.handle (.intraShardReq withinShard), 7⟩, ⟨.job .returns, 3007⟩, ⟨.job .returns, 3007⟩,
    ⟨.job .returns, 3007⟩, ⟨.job .returns, 3007⟩]

theorem queue_accounts_both :
    (forwarded 0 (Routing.init 3) drainThenSweep).card = 1 ∧
      (dropped 0 (Routing.init 3) drainThenSweep).card = 1 ∧
      Accounted 0 (Routing.init 3) drainThenSweep :=
  ⟨by decide +kernel, by decide +kernel,
    queue_accounts 3 drainThenSweep (by decide +kernel) 0 (by decide)⟩

end Raft2PC
