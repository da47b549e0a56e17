import Raft2PC.Sanity.Desk

/-! What the routing service knows of a cluster's leader is the last message that came from
its servers: the sender if it was a heart beat, and nobody if it was a request for votes. -/

namespace Raft2PC

/-- The cluster whose server sent the message, among `n` clusters. -/
def Incoming.cluster (n : ℕ) : Incoming → Option ℕ
  | .appendEntriesReq id | .requestVoteReq id => Routing.pyIndex n (id / SERVER_NUM_PER_CLUSTER)
  | .intraShardReq _ | .crossShardReq _ => none

/-- The leader that a message of a server makes known. -/
def Incoming.leads : Incoming → ℤ
  | .appendEntriesReq leaderId => leaderId
  | _ => -1

/-- The message a server of cluster `c` has sent in this event. -/
def RoutingEvent.heard (n c : ℕ) (e : RoutingEvent) : Option Incoming :=
  match e.action with
  | .handle m => if m.cluster n = some c then some m else none
  | _ => none

/-- The messages of the servers of cluster `c` so far. -/
def heard (n c : ℕ) (es : List RoutingEvent) : List Incoming := es.filterMap (·.heard n c)

theorem heard_spec {n c : ℕ} {e : RoutingEvent} {m : Incoming} (h : e.heard n c = some m) :
    e.action = .handle m ∧ m.cluster n = some c := by
  obtain ⟨action, now⟩ := e
  cases action with
  | handle m' =>
    simp only [RoutingEvent.heard] at h
    split_ifs at h with hc
    rw [← Option.some.inj h]
    exact ⟨rfl, hc⟩
  | resume | job => cases h

theorem mem_heard {n c : ℕ} {es : List RoutingEvent} {m : Incoming} (h : m ∈ heard n c es) :
    ∃ e ∈ es, e.action = .handle m ∧ m.cluster n = some c := by
  obtain ⟨e, he, hm⟩ := List.mem_filterMap.mp h
  exact ⟨e, he, heard_spec hm⟩

theorem heard_concat (n c : ℕ) (es : List RoutingEvent) (e : RoutingEvent) :
    heard n c (es ++ [e]) = heard n c es ++ (e.heard n c).toList := by
  rw [heard, List.filterMap_append]
  cases h : e.heard n c <;> simp [heard, h]

namespace Routing

/-- The number of clusters. -/
def breadth (s : Routing) : ℕ := s.service.leaderPerCluster.length

variable {s : Routing}

theorem leader_setLeader {i : ℕ} (hi : i < s.breadth) (c : ℕ) (l : ℤ) :
    (s.setLeader i l).leader c = if i = c then l else s.leader c := by
  simp only [leader, setLeader, List.getD_eq_getElem?_getD]
  by_cases hic : i = c
  · subst hic
    rw [List.getElem?_set_self hi, if_pos rfl]
    rfl
  · rw [List.getElem?_set_ne hic, if_neg hic]

theorem pyIndex_lt {n c : ℕ} {i : ℤ} (h : pyIndex n i = some c) : c < n := by
  unfold pyIndex at h
  split_ifs at h <;> simp only [Option.some.injEq] at h <;> omega

theorem pyIndex_of_nonneg {n c : ℕ} {i : ℤ} (h : pyIndex n i = some c) (hi : 0 ≤ i) : i = c := by
  unfold pyIndex at h
  split_ifs at h <;> simp only [Option.some.injEq] at h <;> omega

/-! ### Leaders over a step -/

theorem leaders_return (s : Routing) (now : ℤ) (k : Caller) :
    (s.return_ now k).service.leaderPerCluster = s.service.leaderPerCluster := by
  cases k with
  | done => rfl
  | receiver req c hasLeader => cases hasLeader <;> rfl
  | pending c rest =>
    match rest with
    | [] => rfl
    | ⟨.intra req, t⟩ :: rest => rfl
    | ⟨.cross req, t⟩ :: rest => rfl

theorem leaders_resume (s : Routing) (now : ℤ) (n : ℕ) (o : Outcome) :
    (s.step ⟨.resume n o, now⟩).service.leaderPerCluster = s.service.leaderPerCluster := by
  obtain ⟨-, hs⟩ | ⟨t, a, -, haside, ⟨-, t', -, hs⟩ | ⟨-, hs⟩ | ⟨-, hs⟩⟩ := resume_cases s now n o
  · rw [hs]
  · rw [hs]
    exact haside.leaders
  · rw [hs, leaders_return]
    exact haside.leaders
  · rw [hs]
    exact haside.leaders

theorem leaders_job (s : Routing) (now : ℤ) (o : Outcome) :
    (s.stepJob now o).service.leaderPerCluster = s.service.leaderPerCluster := by
  unfold stepJob
  split
  · rfl
  · split_ifs <;> rfl
  · rfl
  · split_ifs
    · rfl
    · split
      · rfl
      · split_ifs <;> rfl
  · rfl
  · split_ifs <;> rfl
  · rfl

theorem leaders_handle (s : Routing) (now : ℤ) (m : Incoming) :
    (s.handle now m).service.leaderPerCluster = match m.cluster s.breadth with
      | some c => s.service.leaderPerCluster.set c m.leads
      | none => s.service.leaderPerCluster := by
  cases m with
  | appendEntriesReq leaderId =>
    simp only [handle, Incoming.cluster, breadth, clusterIndex]
    cases pyIndex s.service.leaderPerCluster.length (leaderId / SERVER_NUM_PER_CLUSTER) with
    | none => rfl
    | some c =>
      dsimp only
      split_ifs
      · exact leaders_return _ _ _
      · rfl
  | requestVoteReq candidateId =>
    simp only [handle, Incoming.cluster, breadth, clusterIndex]
    cases pyIndex s.service.leaderPerCluster.length (candidateId / SERVER_NUM_PER_CLUSTER) <;> rfl
  | intraShardReq req =>
    simp only [handle, Incoming.cluster]
    split
    · rfl
    · split_ifs <;> rfl
  | crossShardReq req =>
    simp only [handle, Incoming.cluster]
    split
    · split_ifs
      · rfl
      · exact leaders_return _ _ _
    · rfl

theorem breadth_step (s : Routing) (e : RoutingEvent) : (s.step e).breadth = s.breadth := by
  obtain ⟨action, now⟩ := e
  cases action with
  | handle m =>
    refine (congrArg List.length (leaders_handle s now m)).trans ?_
    split
    · exact List.length_set
    · rfl
  | resume n o => exact congrArg List.length (leaders_resume s now n o)
  | job o => exact congrArg List.length (leaders_job s now o)

/-- A message of a server of `c` decides who leads `c`; nothing else does. -/
theorem leader_step (s : Routing) (e : RoutingEvent) (c : ℕ) :
    (s.step e).leader c = (e.heard s.breadth c).elim (s.leader c) Incoming.leads := by
  obtain ⟨action, now⟩ := e
  have hsame : ∀ a b : Routing, b.service.leaderPerCluster = a.service.leaderPerCluster →
      b.leader c = a.leader c := fun a b h => by rw [leader, h, leader]
  cases action with
  | resume n o => exact hsame _ _ (leaders_resume s now n o)
  | job o => exact hsame _ _ (leaders_job s now o)
  | handle m =>
    have hleaders := leaders_handle s now m
    simp only [step, RoutingEvent.heard]
    cases hi : m.cluster s.breadth with
    | none =>
      rw [hi] at hleaders
      rw [if_neg (by simp)]
      exact hsame _ _ hleaders
    | some i =>
      rw [hi] at hleaders
      have hlt : i < s.breadth := by
        cases m with
        | appendEntriesReq | requestVoteReq => exact pyIndex_lt hi
        | intraShardReq | crossShardReq => cases hi
      have hset : (s.handle now m).leader c = (s.setLeader i m.leads).leader c := hsame _ _ hleaders
      rw [hset, leader_setLeader hlt]
      by_cases hic : i = c
      · rw [if_pos hic, if_pos (congrArg some hic)]
        rfl
      · rw [if_neg hic, if_neg fun h => hic (Option.some.inj h)]
        rfl

theorem breadth_init (n : ℕ) : (Routing.init n).breadth = n := List.length_replicate

theorem run_concat (s : Routing) (es : List RoutingEvent) (e : RoutingEvent) :
    s.run (es ++ [e]) = (s.run es).step e := List.foldl_append

theorem breadth_run (n : ℕ) (es : List RoutingEvent) : ((Routing.init n).run es).breadth = n := by
  induction es using List.reverseRecOn with
  | nil => exact breadth_init n
  | append_singleton es e ih =>
    rw [run_concat, breadth_step]
    exact ih

/-- The last message that came from the servers of `c` tells who leads `c`. -/
theorem leader_run (n c : ℕ) (es : List RoutingEvent) :
    ((Routing.init n).run es).leader c =
      (heard n c es).getLast?.elim (-1) Incoming.leads := by
  induction es using List.reverseRecOn with
  | nil =>
    show (List.replicate n (-1 : ℤ)).getD c (-1) = -1
    rw [List.getD_eq_getElem?_getD, List.getElem?_replicate]
    split_ifs <;> rfl
  | append_singleton es e ih =>
    rw [run_concat, leader_step, breadth_run, heard_concat, ih]
    cases e.heard n c with
    | none => rw [Option.toList_none, List.append_nil]; rfl
    | some m => rw [Option.toList_some, List.getLast?_concat]; rfl

end Routing

end Raft2PC
