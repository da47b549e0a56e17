import Raft2PC.Sanity.Heard
import Raft2PC.Sanity.Traffic

/-! What a step of the routing service forwards and where to. Queued requests stay with their
cluster, so what a coroutine forwards after an await goes to the cluster it turns to. -/

namespace Raft2PC

open Dispatch

/-- The cluster and the server of it that a request is forwarded to, among `n` clusters. -/
def Traffic.target (n : ℕ) : Traffic → Option (ℕ × ℤ)
  | .prepare _ c i => some (c, i)
  | .intra req i => (Routing.pyIndex n req.clusterId).map (·, i)
  | _ => none

/-- The cluster a coroutine turns to when it goes on. -/
def Caller.turn : Caller → Option ℕ
  | .receiver _ c true | .pending c (_ :: _) => some c
  | _ => none

namespace Routing

/-- The cluster to which a coroutine forwards a request when its await is over. -/
def turn (s : Routing) (e : RoutingEvent) : Option ℕ :=
  match e.action with
  | .resume n o => s.tasks[n]?.bind fun t => if t.next s o = .returns then t.caller.turn else none
  | _ => none

/-! ### Requests in the queue of their cluster -/

/-- An intra-shard request in the queue of `c` is for cluster `c`. -/
def Home (n c : ℕ) (q : Queued) : Prop :=
  ∀ req, q.request = .intra req → pyIndex n req.clusterId = some c

/-- Every pending loop is one of an existing cluster. -/
def Within (s : Routing) : Prop :=
  ∀ t ∈ s.tasks, ∀ c rest, t.caller = .pending c rest → c < s.breadth

variable {n c : ℕ} {s : Routing} {e : RoutingEvent}

theorem target_forward {q : Queued} (h : Home n c q) (i : ℤ) :
    (forward c i q).target n = some (c, i) := by
  obtain ⟨request, time⟩ := q
  cases request with
  | cross req => rfl
  | intra req =>
    show (pyIndex n req.clusterId).map (·, i) = some (c, i)
    rw [h req rfl]
    rfl

theorem home_cross (n c : ℕ) (req : CrossShardReq) (now : ℤ) : Home n c ⟨.cross req, now⟩ :=
  fun _ h => nomatch h

/-- Requests are put into the queues of their clusters. -/
theorem home_puts {m : Move Queued} (hm : s.move c e = some m) :
    ∀ q ∈ m.puts, Home s.breadth c q := by
  intro q hq
  obtain ⟨action, now⟩ := e
  have hput : ∀ items : List Queued, (∀ q ∈ items, Home s.breadth c q) →
      (if items = [] then none else some (Move.put items)) = some m → Home s.breadth c q := by
    intro items hall h
    split_ifs at h
    cases h
    exact hall q (Multiset.mem_coe.mp hq)
  have hnone : m.puts = 0 → Home s.breadth c q := by
    intro h
    rw [h] at hq
    exact absurd hq (Multiset.notMem_zero q)
  cases action with
  | handle msg =>
    cases msg with
    | appendEntriesReq leaderId =>
      simp only [move] at hm
      split_ifs at hm
      obtain ⟨first, -, rfl⟩ := Option.map_eq_some_iff.mp hm
      exact hnone rfl
    | requestVoteReq candidateId =>
      exact hput (s.puts c now (.requestVoteReq candidateId)) (fun q hq => absurd hq List.not_mem_nil) hm
    | intraShardReq req =>
      apply hput (s.puts c now (.intraShardReq req)) _ hm
      intro q hq
      simp only [puts] at hq
      split_ifs at hq with hfor
      · rw [List.mem_singleton.mp hq]
        intro req' hreq
        cases hreq
        exact hfor.1
      · exact absurd hq List.not_mem_nil
    | crossShardReq req =>
      apply hput (s.puts c now (.crossShardReq req)) _ hm
      intro q hq
      have hitem : ∃ req' now', q = ⟨.cross req', now'⟩ := by
        simp only [puts] at hq
        split at hq
        · split_ifs at hq <;> simp only [List.mem_append, List.mem_singleton, List.not_mem_nil,
            or_false, false_or, or_self] at hq <;> exact ⟨_, _, hq⟩
        · exact absurd hq List.not_mem_nil
      obtain ⟨req', now', rfl⟩ := hitem
      exact home_cross _ _ _ _
  | resume k o =>
    obtain ⟨t, -, hnext⟩ := Option.bind_eq_some_iff.mp hm
    split at hnext
    · cases hnext
    · unfold Caller.move at hnext
      split at hnext
      · cases hnext
      · cases hnext
      · split_ifs at hnext
        cases hnext
        rw [Multiset.mem_singleton.mp hq]
        exact home_cross _ _ _ _
      · split_ifs at hnext
        cases hnext
        exact hnone rfl
      · split_ifs at hnext
        cases hnext
        exact hnone rfl
    · obtain ⟨-, -, rfl⟩ := Option.map_eq_some_iff.mp hnext
      exact hnone rfl
  | job o =>
    simp only [move] at hm
    split at hm <;> try split_ifs at hm
    all_goals cases hm
    all_goals exact hnone rfl

theorem home_step (hc : c < s.width) (h : (s.desk c).All (Home s.breadth c)) (e : RoutingEvent) :
    ((s.step e).desk c).All (Home s.breadth c) := by
  obtain ⟨-, hdesk⟩ | ⟨m, hm, hs⟩ := moved_cases hc e
  · rw [hdesk]
    exact h
  · exact h.step hs (home_puts hm)

/-! ### Loops over pending requests -/

theorem within_await (h : s.Within) {t : Task}
    (ht : ∀ c rest, t.caller = .pending c rest → c < s.breadth) : (s.await t).Within := by
  intro t' ht'
  rcases List.mem_append.mp ht' with ht' | ht'
  · exact h t' ht'
  · rw [List.mem_singleton.mp ht']
    exact ht

theorem within_aside {a b : Routing} (h : a.Within) (hs : Aside a b) : b.Within := by
  intro t ht c rest hk
  rw [hs.tasks] at ht
  rw [breadth, hs.leaders]
  exact h t ht c rest hk

theorem within_wake (h : s.Within) (k : ℕ) : (s.wake k).Within :=
  fun t ht => h t (List.mem_of_mem_eraseIdx ht)

theorem within_return (h : s.Within) (now : ℤ) {k : Caller}
    (hk : ∀ c rest, k = .pending c rest → c < s.breadth) : (s.return_ now k).Within := by
  cases k with
  | done => exact h
  | receiver req c hasLeader =>
    cases hasLeader with
    | true => exact within_await h fun c rest hc => by cases hc
    | false => exact h
  | pending c rest =>
    match rest with
    | [] => exact h
    | ⟨.intra req, t⟩ :: rest =>
      refine within_await h fun c' rest' hc => ?_
      obtain ⟨rfl, -⟩ := Caller.pending.inj hc
      exact hk _ _ rfl
    | ⟨.cross req, t⟩ :: rest =>
      refine within_await h fun c' rest' hc => ?_
      obtain ⟨rfl, -⟩ := Caller.pending.inj hc
      exact hk _ _ rfl

theorem within_handle (h : s.Within) (now : ℤ) (m : Incoming) : (s.handle now m).Within := by
  have hset : ∀ i l, (s.setLeader i l).Within := fun i l t ht c rest hk =>
    (h t ht c rest hk).trans_eq List.length_set.symm
  cases m with
  | requestVoteReq candidateId =>
    simp only [handle]
    split
    · exact h
    · exact hset _ _
  | appendEntriesReq leaderId =>
    simp only [handle]
    cases hi : s.clusterIndex (leaderId / SERVER_NUM_PER_CLUSTER) with
    | none => exact h
    | some i =>
      dsimp only
      split_ifs
      · refine within_return (hset i leaderId) now fun c rest hc => ?_
        obtain ⟨rfl, -⟩ := Caller.pending.inj hc
        exact (pyIndex_lt hi).trans_eq List.length_set.symm
      · exact hset i leaderId
  | intraShardReq req =>
    simp only [handle]
    split
    · exact h
    · split_ifs
      · exact h
      · exact within_await h fun c rest hc => by cases hc
  | crossShardReq req =>
    simp only [handle]
    split
    · split_ifs
      · exact within_await h fun c rest hc => by cases hc
      · refine within_return ?_ now fun c rest hc => by cases hc
        exact h
    · exact h

theorem within_step (h : s.Within) (e : RoutingEvent) : (s.step e).Within := by
  obtain ⟨action, now⟩ := e
  cases action with
  | handle m => exact within_handle h now m
  | job o =>
    intro t ht c rest hk
    have htasks : (s.stepJob now o).tasks = s.tasks := by
      unfold stepJob
      split
      · rfl
      · split_ifs <;> rfl
      · rfl
      · split_ifs
        · rfl
        · split
          · rfl
          · split_ifs <;> rfl
      · rfl
      · split_ifs <;> rfl
      · rfl
    rw [breadth_step]
    exact h t (htasks ▸ ht) c rest hk
  | resume k o =>
    obtain ⟨-, hs⟩ | ⟨t, a, ht, haside, hgoes⟩ := resume_cases s now k o
    · rw [hs]
      exact h
    · have hcaller : ∀ c rest, t.caller = .pending c rest → c < a.breadth := by
        intro c rest hk
        rw [breadth, haside.leaders]
        exact h t (List.mem_of_getElem? ht) c rest hk
      have hafter : a.Within := within_aside (within_wake h k) haside
      rcases hgoes with ⟨-, t', hk, hs⟩ | ⟨-, hs⟩ | ⟨-, hs⟩
      · rw [hs]
        exact within_await hafter fun c rest hc => hcaller c rest (hk ▸ hc)
      · rw [hs]
        exact within_return hafter now hcaller
      · rw [hs]
        exact hafter

/-! ### Forwarding -/

/-- What a step forwards: at most one request, to the cluster whose leader it looks up. If no
await has just ended, that cluster was found to have a leader. -/
inductive Forwards (s : Routing) (e : RoutingEvent) : Prop
  | nothing (others : List Traffic) (h : (s.step e).traffic = s.traffic ++ others)
      (hno : ∀ t ∈ others, t.forwards = false) (hturn : s.turn e = none)
  | request (others : List Traffic) (t : Traffic) {c : ℕ}
      (h : (s.step e).traffic = s.traffic ++ (others ++ [t]))
      (hno : ∀ t ∈ others, t.forwards = false)
      (htarget : t.target s.breadth = some (c, (s.step e).leaderIndex c))
      (hturn : s.turn e = some c ∨ s.turn e = none ∧ (s.step e).leader c ≠ -1)

theorem Forwards.plain (h : (s.step e).traffic = s.traffic) (hturn : s.turn e = none) :
    s.Forwards e :=
  .nothing [] (h.trans (List.append_nil _).symm) (fun _ ht => absurd ht List.not_mem_nil) hturn

theorem Forwards.one (t : Traffic) (h : (s.step e).traffic = s.traffic ++ [t])
    (htarget : t.target s.breadth = some (c, (s.step e).leaderIndex c)) (hturn : s.turn e = none)
    (hleader : (s.step e).leader c ≠ -1) : s.Forwards e :=
  .request [] t h (fun _ ht => absurd ht List.not_mem_nil) htarget (Or.inr ⟨hturn, hleader⟩)

theorem leaderIndex_congr {a b : Routing}
    (h : b.service.leaderPerCluster = a.service.leaderPerCluster) (c : ℕ) :
    b.leaderIndex c = a.leaderIndex c := by
  rw [leaderIndex, leader, h, leaderIndex, leader]

theorem forwards_beat (hhome : ∀ c < s.width, (s.desk c).All (Home s.breadth c))
    (hwidth : s.width = s.breadth) (now : ℤ) {leaderId : ℤ} (hserver : 0 ≤ leaderId) :
    s.Forwards ⟨.handle (.appendEntriesReq leaderId), now⟩ := by
  cases hi : s.clusterIndex (leaderId / SERVER_NUM_PER_CLUSTER) with
  | none =>
    apply Forwards.plain _ rfl
    simp only [step, handle, hi]
  | some c =>
    have hc : c < s.breadth := pyIndex_lt hi
    by_cases hstart : s.leader c = -1 ∧ s.queue c ≠ []
    · obtain ⟨q, rest, hq⟩ := List.exists_cons_of_ne_nil hstart.2
      have hmem : q ∈ s.queue c := by
        rw [hq]
        exact List.mem_cons_self
      have hhomeq : Home s.breadth c q := (hhome c (hwidth ▸ hc)).queue q hmem
      have hstep : s.step ⟨.handle (.appendEntriesReq leaderId), now⟩ =
          (s.setLeader c leaderId).return_ now (.pending c (q :: rest)) := by
        simp only [step, handle, hi]
        rw [if_pos hstart, hq]
      have hleaders := leaders_return (s.setLeader c leaderId) now (.pending c (q :: rest))
      rw [← hstep] at hleaders
      apply Forwards.one (forward c ((s.setLeader c leaderId).leaderIndex c) q) _ _ rfl
      · rw [leader, hleaders, ← leader, leader_setLeader hc, if_pos rfl]
        omega
      · rw [hstep, traffic_pending]
        rfl
      · rw [target_forward hhomeq, leaderIndex_congr hleaders]
    · apply Forwards.plain _ rfl
      simp only [step, handle, hi]
      rw [if_neg hstart]
      rfl

theorem forwards_intra (now : ℤ) (req : IntraShardReq) :
    s.Forwards ⟨.handle (.intraShardReq req), now⟩ := by
  cases hi : s.clusterIndex req.clusterId with
  | none =>
    apply Forwards.plain _ rfl
    have hnew : s.newId.clusterIndex req.clusterId = none := hi
    simp only [step, handle, hnew]
    rfl
  | some c =>
    have hnew : s.newId.clusterIndex req.clusterId = some c := hi
    by_cases hno : s.leader c = -1
    · apply Forwards.plain _ rfl
      have hnone : s.newId.leader c = -1 := hno
      simp only [step, handle, hnew]
      rw [if_pos hnone]
      rfl
    · have hone : ¬s.newId.leader c = -1 := hno
      have hstep : s.step ⟨.handle (.intraShardReq req), now⟩ =
          s.newId.redirectIntra { req with id := s.service.transactionId + 1 } c .done := by
        simp only [step, handle, hnew]
        rw [if_neg hone]
        rfl
      apply Forwards.one (.intra { req with id := s.service.transactionId + 1 } (s.leaderIndex c))
        _ _ rfl
      · rw [hstep]
        exact hno
      · rw [hstep]
        rfl
      · rw [hstep]
        exact congrArg (Option.map (·, s.leaderIndex c)) hi

theorem forwards_cross (now : ℤ) (req : CrossShardReq) :
    s.Forwards ⟨.handle (.crossShardReq req), now⟩ := by
  have hhandle : s.step ⟨.handle (.crossShardReq req), now⟩ = _ := handle_cross s now req
  cases hsender : s.clusterIndex req.senderClusterId with
  | none =>
    simp only [hsender] at hhandle
    apply Forwards.plain _ rfl
    rw [hhandle]
    rfl
  | some sender =>
    cases hreceiver : s.clusterIndex req.receiverClusterId with
    | none =>
      simp only [hsender, hreceiver] at hhandle
      apply Forwards.plain _ rfl
      rw [hhandle]
      rfl
    | some receiver =>
      simp only [hsender, hreceiver] at hhandle
      by_cases hknown : s.leader sender = -1
      · rw [if_neg (not_not.mpr hknown)] at hhandle
        by_cases hother : s.leader receiver = -1
        · rw [return_, if_neg (by simp [hother])] at hhandle
          apply Forwards.plain _ rfl
          rw [hhandle]
          rfl
        · rw [return_, if_pos (by simp [hother])] at hhandle
          apply Forwards.one (.prepare (s.numbered req) receiver (s.leaderIndex receiver)) _ _ rfl
          · rw [hhandle]
            exact hother
          · rw [hhandle]
            rfl
          · rw [hhandle]
            rfl
      · rw [if_pos hknown] at hhandle
        apply Forwards.one (.prepare (s.numbered req) sender (s.leaderIndex sender)) _ _ rfl
        · rw [hhandle]
          exact hknown
        · rw [hhandle]
          rfl
        · rw [hhandle]
          rfl

theorem forwards_resume (hhome : ∀ c < s.width, (s.desk c).All (Home s.breadth c))
    (hwidth : s.width = s.breadth) (hwithin : s.Within) (now : ℤ) (k : ℕ) (o : Outcome) :
    s.Forwards ⟨.resume k o, now⟩ := by
  obtain ⟨ht, hs⟩ | ⟨t, a, ht, haside, hgoes⟩ := resume_cases s now k o
  · apply Forwards.plain
    · rw [hs]
    · simp only [turn, ht, Option.bind_none]
  · have hmem : t ∈ s.tasks := List.mem_of_getElem? ht
    have hturn : s.turn ⟨.resume k o, now⟩ =
        if t.next s o = .returns then t.caller.turn else none := by
      simp only [turn, ht, Option.bind_some]
    obtain ⟨others, hothers, hno⟩ := haside.traffic
    rcases hgoes with ⟨hnext, t', -, hs⟩ | ⟨hnext, hs⟩ | ⟨hnext, hs⟩
    · rw [hnext] at hturn
      refine .nothing others ?_ hno hturn
      rw [hs]
      exact hothers
    · rw [hnext, if_pos rfl] at hturn
      cases hcaller : t.caller with
      | done =>
        rw [hcaller] at hs hturn
        refine .nothing others ?_ hno hturn
        rw [hs]
        exact hothers
      | receiver req c hasLeader =>
        rw [hcaller] at hs hturn
        cases hasLeader with
        | false =>
          refine .nothing others ?_ hno hturn
          rw [hs]
          exact hothers
        | true =>
          refine .request others (.prepare req c (a.leaderIndex c)) ?_ hno ?_ (Or.inl hturn)
          · rw [hs, ← List.append_assoc]
            exact congrArg (· ++ [Traffic.prepare req c (a.leaderIndex c)]) hothers
          · rw [hs]
            rfl
      | pending c rest =>
        rw [hcaller] at hs hturn
        cases rest with
        | nil =>
          refine .nothing others ?_ hno hturn
          rw [hs]
          exact hothers
        | cons q rest =>
          have hdrain : q :: rest ∈ (s.desk c).drains := by
            refine Multiset.mem_coe.mpr (List.mem_filterMap.mpr ⟨t, hmem, ?_⟩)
            rw [hcaller]
            exact if_pos rfl
          have hc : c < s.width := hwidth ▸ hwithin t hmem c _ hcaller
          have hhomeq : Home s.breadth c q := (hhome c hc).drains _ hdrain q List.mem_cons_self
          refine .request others (forward c (a.leaderIndex c) q) ?_ hno ?_ (Or.inl hturn)
          · rw [hs, traffic_pending, hothers, List.append_assoc]
            rfl
          · rw [hs, target_forward hhomeq, leaderIndex_congr (leaders_return a now _)]
    · rw [hnext] at hturn
      refine .nothing others ?_ hno hturn
      rw [hs]
      exact hothers

/-- A step forwards at most one request, and only after an await or to a cluster with a
leader. -/
theorem forwards_step (hhome : ∀ c < s.width, (s.desk c).All (Home s.breadth c))
    (hwidth : s.width = s.breadth) (hwithin : s.Within)
    (hserver : ∀ id, e.action = .handle (.appendEntriesReq id) → 0 ≤ id) : s.Forwards e := by
  obtain ⟨action, now⟩ := e
  cases action with
  | handle m =>
    cases m with
    | appendEntriesReq leaderId => exact forwards_beat hhome hwidth now (hserver leaderId rfl)
    | intraShardReq req => exact forwards_intra now req
    | crossShardReq req => exact forwards_cross now req
    | requestVoteReq candidateId =>
      apply Forwards.plain _ rfl
      simp only [step, handle]
      split <;> rfl
  | resume k o => exact forwards_resume hhome hwidth hwithin now k o
  | job o =>
    obtain ⟨others, hothers, hno⟩ := Adds.stepJob (P := fun t => t.forwards = false)
      (fun _ => rfl) (fun _ => rfl) s now o
    exact .nothing others hothers hno rfl

/-! ### States reached -/

/-- What every state reached has: a queue for each cluster, with requests of its own only. -/
structure Housed (s : Routing) : Prop where
  width : s.width = s.breadth
  within : s.Within
  home : ∀ c < s.width, (s.desk c).All (Home s.breadth c)

theorem housed_init (n : ℕ) : (Routing.init n).Housed := by
  refine ⟨List.length_replicate.trans List.length_replicate.symm,
    fun t ht => absurd ht List.not_mem_nil, fun c hc => ?_⟩
  have hempty : (Routing.init n).queue c = [] := by
    rw [queue, Routing.init, List.getD_eq_getElem?_getD, List.getElem?_replicate]
    split_ifs <;> rfl
  refine ⟨fun q hq => ?_, fun d hd => absurd hd (Multiset.notMem_zero d),
    fun x hx => by cases hx⟩
  have hq' : q ∈ (Routing.init n).queue c := hq
  rw [hempty] at hq'
  exact absurd hq' List.not_mem_nil

theorem Housed.step (h : s.Housed) (e : RoutingEvent) : (s.step e).Housed := by
  refine ⟨?_, within_step h.within e, fun c hc => ?_⟩
  · rw [width_step, breadth_step]
    exact h.width
  · rw [width_step] at hc
    rw [breadth_step]
    exact home_step hc (h.home c hc) e

theorem housed_run (n : ℕ) (es : List RoutingEvent) : ((Routing.init n).run es).Housed := by
  induction es using List.reverseRecOn with
  | nil => exact housed_init n
  | append_singleton es e ih =>
    rw [run_concat]
    exact ih.step e

end Routing

end Raft2PC
