import Raft2PC.Sanity.Forwards
import Raft2PC.Sanity.Runs

/-! Where requests are sent. The address is looked up after the await before it; the request
goes to the leader the service knows exactly when, at that moment, the last message that came
from the servers of the cluster is a heart beat. -/

namespace Raft2PC

def serverIndexToId (c : ℕ) (i : ℤ) : ℤ := c * SERVER_NUM_PER_CLUSTER + i

namespace Routing

/-- Server `i` of cluster `c` exists and is the leader the service knows. -/
def KnownLeader (s : Routing) (c : ℕ) (i : ℤ) : Prop :=
  s.leader c ≠ -1 ∧ 0 ≤ i ∧ i < SERVER_NUM_PER_CLUSTER ∧ s.leader c = serverIndexToId c i

/-- Every request forwarded in the step goes to a leader known at that moment. In a step no
leader changes after a target is picked. -/
def RightPicks (s : Routing) (e : RoutingEvent) : Prop :=
  ∀ t ∈ (s.step e).traffic.drop s.traffic.length, ∀ x ∈ t.target s.breadth,
    (s.step e).KnownLeader x.1 x.2

variable {n c : ℕ} {s : Routing} {e : RoutingEvent}

theorem target_of_not_forwards {t : Traffic} (h : t.forwards = false) (n : ℕ) :
    t.target n = none := by
  cases t with
  | prepare | intra => cases h
  | answer | commit | abort | reply | intraReply => rfl

/-- The step picks its targets right if and only if the cluster a coroutine turns to after an
await has a leader in that cluster. -/
theorem rightPicks_iff (hforwards : s.Forwards e)
    (hserver : ∀ c, (s.step e).leader c ≠ -1 →
      (s.step e).leader c / SERVER_NUM_PER_CLUSTER = c) :
    s.RightPicks e ↔ ∀ c, s.turn e = some c → (s.step e).leader c ≠ -1 := by
  have hnone : ∀ {others : List Traffic}, (∀ t ∈ others, t.forwards = false) → ∀ t ∈ others,
      ∀ x ∈ t.target s.breadth, (s.step e).KnownLeader x.1 x.2 := by
    intro others hno t ht x hx
    rw [target_of_not_forwards (hno t ht)] at hx
    cases hx
  have hpick : ∀ c, (s.step e).leader c ≠ -1 →
      (s.step e).KnownLeader c ((s.step e).leaderIndex c) := by
    intro c hc
    have hcluster := hserver c hc
    rw [SERVER_NUM_PER_CLUSTER] at hcluster
    refine ⟨hc, ?_, ?_, ?_⟩ <;> simp only [leaderIndex, serverIndexToId, SERVER_NUM_PER_CLUSTER] <;>
      omega
  cases hforwards with
  | nothing others h hno hturn =>
    rw [RightPicks, h, List.drop_left]
    refine ⟨fun _ c hc => ?_, fun _ => hnone hno⟩
    rw [hturn] at hc
    cases hc
  | @request others t c h hno htarget hturn =>
    have honly : s.RightPicks e ↔ (s.step e).KnownLeader c ((s.step e).leaderIndex c) := by
      rw [RightPicks, h, List.drop_left]
      constructor
      · intro hall
        exact hall t (List.mem_append_right _ (List.mem_singleton.mpr rfl)) _ htarget
      · intro hknown t' ht' x hx
        rcases List.mem_append.mp ht' with ht' | ht'
        · exact hnone hno t' ht' x hx
        · rw [List.mem_singleton.mp ht', htarget] at hx
          cases hx
          exact hknown
    rw [honly]
    constructor
    · intro hknown c' hc'
      rcases hturn with hturn | ⟨hturn, -⟩
      · rw [hturn] at hc'
        cases hc'
        exact hknown.1
      · rw [hturn] at hc'
        cases hc'
    · intro hall
      rcases hturn with hturn | ⟨-, hleader⟩
      · exact hpick c (hall c hturn)
      · exact hpick c hleader

theorem leader_cluster {es : List RoutingEvent}
    (hserver : ∀ e ∈ es, ∀ id, e.action = .handle (.appendEntriesReq id) → 0 ≤ id)
    (h : ((Routing.init n).run es).leader c ≠ -1) :
    ((Routing.init n).run es).leader c / SERVER_NUM_PER_CLUSTER = c := by
  rw [leader_run] at h ⊢
  cases hlast : (heard n c es).getLast? with
  | none =>
    rw [hlast] at h
    exact absurd rfl h
  | some m =>
    obtain ⟨e, he, haction, hcluster⟩ := mem_heard (List.mem_of_getLast? hlast)
    cases m with
    | appendEntriesReq id =>
      apply pyIndex_of_nonneg hcluster
      exact Int.ediv_nonneg (hserver e he id haction) (by decide)
    | requestVoteReq | intraShardReq | crossShardReq =>
      rw [hlast] at h
      exact absurd rfl h

end Routing

open Routing

/-- Requests go to known leaders only, if and only if a coroutine that turns to a cluster after
an await finds a heart beat to be the last message from that cluster. -/
theorem right_picks (n : ℕ) (es : List RoutingEvent)
    (hserver : ∀ e ∈ es, ∀ id, e.action = .handle (.appendEntriesReq id) → 0 ≤ id) :
    (∀ past e rest, es = past ++ e :: rest → ((Routing.init n).run past).RightPicks e) ↔
      ∀ past e rest, es = past ++ e :: rest → ∀ c, ((Routing.init n).run past).turn e = some c →
        ∃ id, (heard n c past).getLast? = some (.appendEntriesReq id) := by
  refine forall_congr' fun past => forall_congr' fun e => forall_congr' fun rest =>
    forall_congr' fun hes => ?_
  obtain ⟨s, hs⟩ : ∃ s, s = (Routing.init n).run past := ⟨_, rfl⟩
  have hpast : ∀ e' ∈ past, ∀ id, e'.action = .handle (.appendEntriesReq id) → 0 ≤ id :=
    fun e' he' => hserver e' (hes ▸ List.mem_append_left _ he')
  have he : ∀ id, e.action = .handle (.appendEntriesReq id) → 0 ≤ id :=
    hserver e (hes ▸ List.mem_append_right _ List.mem_cons_self)
  have hhoused : s.Housed := hs ▸ housed_run n past
  have hcluster : ∀ c, (s.step e).leader c ≠ -1 →
      (s.step e).leader c / SERVER_NUM_PER_CLUSTER = c := by
    rw [hs, ← run_concat]
    intro c
    apply leader_cluster
    intro e' he'
    rcases List.mem_append.mp he' with he' | he'
    · exact hpast e' he'
    · exact List.mem_singleton.mp he' ▸ he
  have hiff := rightPicks_iff (forwards_step hhoused.home hhoused.width hhoused.within he) hcluster
  rw [← hs, hiff]
  refine forall_congr' fun c => forall_congr' fun hturn => ?_
  -- only an await that ends turns to a cluster, and no leader changes then
  have hsame : (s.step e).leader c = s.leader c := by
    obtain ⟨action, now⟩ := e
    cases action with
    | handle | job => cases hturn
    | resume k o => rw [leader, leaders_resume, ← leader]
  rw [hsame, hs, leader_run]
  constructor
  · intro hleader
    cases hlast : (heard n c past).getLast? with
    | none =>
      rw [hlast] at hleader
      exact absurd rfl hleader
    | some m =>
      rw [hlast] at hleader
      cases m with
      | appendEntriesReq id => exact ⟨id, rfl⟩
      | requestVoteReq | intraShardReq | crossShardReq => exact absurd rfl hleader
  · rintro ⟨id, hlast⟩
    have hne : (0 : ℤ) ≤ id := by
      obtain ⟨e', he', haction, -⟩ := mem_heard (List.mem_of_getLast? hlast)
      exact hpast e' he' id haction
    rw [hlast]
    show id ≠ -1
    omega

/-- Both leaders are known when the transfer comes; its sender's one votes YES. -/
def bothKnown : List RoutingEvent :=
  [⟨.handle (.appendEntriesReq 0), 0⟩, ⟨.handle (.appendEntriesReq 3), 1⟩,
    ⟨.handle (.crossShardReq acrossShards), 2⟩, ⟨.resume 0 (.answer .yes), 4⟩]

/-- The same, but meanwhile a server of the other cluster asks for votes. -/
def voteMeanwhile : List RoutingEvent :=
  [⟨.handle (.appendEntriesReq 0), 0⟩, ⟨.handle (.appendEntriesReq 3), 1⟩,
    ⟨.handle (.crossShardReq acrossShards), 2⟩, ⟨.handle (.requestVoteReq 4), 3⟩]

theorem unknown_picked :
    ¬((Routing.init 2).run voteMeanwhile).RightPicks ⟨.resume 0 (.answer .yes), 4⟩ := by
  intro h
  have hsent : (((Routing.init 2).run voteMeanwhile).step ⟨.resume 0 (.answer .yes), 4⟩).traffic.drop
      ((Routing.init 2).run voteMeanwhile).traffic.length =
      [.answer { acrossShards with id := 1 } 0 .yes, .prepare { acrossShards with id := 1 } 1 2] := by
    decide +kernel
  have hknown := h (.prepare { acrossShards with id := 1 } 1 2) (by rw [hsent]; simp) (1, 2) rfl
  exact hknown.1 (by decide +kernel)

theorem right_picks_known :
    (∀ e ∈ bothKnown, ∀ id, e.action = .handle (.appendEntriesReq id) → 0 ≤ id) ∧
    ((∀ past e rest, bothKnown = past ++ e :: rest → ((Routing.init 2).run past).RightPicks e) ↔
      ∀ past e rest, bothKnown = past ++ e :: rest → ∀ c,
        ((Routing.init 2).run past).turn e = some c →
          ∃ id, (heard 2 c past).getLast? = some (.appendEntriesReq id)) := by
  have hserver : ∀ e ∈ bothKnown, ∀ id, e.action = .handle (.appendEntriesReq id) → 0 ≤ id := by
    intro e he id hid
    simp only [bothKnown, List.mem_cons, List.not_mem_nil, or_false] at he
    rcases he with rfl | rfl | rfl | rfl <;> cases hid <;> decide
  exact ⟨hserver, right_picks 2 bothKnown hserver⟩

end Raft2PC
