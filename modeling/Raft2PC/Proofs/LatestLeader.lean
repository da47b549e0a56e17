import Raft2PC.Sanity.Heard

/-! The service looks at no term. It takes the sender of the last heart beat for the leader,
so a deposed leader that is still sending can be taken for it again. -/

namespace Raft2PC

/-- An event with the term of its message. -/
structure Posted where
  term : ℤ
  event : RoutingEvent

def Posted.beat (n c : ℕ) (p : Posted) : Option (ℤ × ℤ) :=
  match p.event.heard n c with
  | some (.appendEntriesReq leaderId) => some (p.term, leaderId)
  | _ => none

def heartBeats (n c : ℕ) (ps : List Posted) : List (ℤ × ℤ) := ps.filterMap (·.beat n c)

/-- The server has sent a heart beat with the highest term received so far. -/
def HighestTerm (n c : ℕ) (ps : List Posted) (server : ℤ) : Prop :=
  ∃ t, (t, server) ∈ heartBeats n c ps ∧ ∀ b ∈ heartBeats n c ps, b.1 ≤ t

theorem heartBeats_concat (n c : ℕ) (ps : List Posted) (p : Posted) :
    heartBeats n c (ps ++ [p]) = heartBeats n c ps ++ (p.beat n c).toList := by
  rw [heartBeats, List.filterMap_append]
  cases h : p.beat n c <;> simp [heartBeats, h]

/-- If the last message of the cluster is a heart beat, it is the last of its heart beats. -/
theorem last_beat {n c : ℕ} {ps : List Posted} {leaderId : ℤ}
    (h : (heard n c (ps.map Posted.event)).getLast? = some (.appendEntriesReq leaderId)) :
    ∃ t, (heartBeats n c ps).getLast? = some (t, leaderId) := by
  induction ps using List.reverseRecOn with
  | nil => cases h
  | append_singleton ps p ih =>
    rw [List.map_append, List.map_singleton, heard_concat] at h
    rw [heartBeats_concat]
    cases hp : p.event.heard n c with
    | none =>
      rw [hp, Option.toList_none, List.append_nil] at h
      rw [Posted.beat, hp, Option.toList_none, List.append_nil]
      exact ih h
    | some m =>
      rw [hp, Option.toList_some, List.getLast?_concat] at h
      cases h
      rw [Posted.beat, hp, Option.toList_some, List.getLast?_concat]
      exact ⟨p.term, rfl⟩

theorem leader_beat (n c : ℕ) (ps : List Posted) :
    ((Routing.init n).run (ps.map Posted.event)).leader c = -1 ∨ ∃ t,
      (heartBeats n c ps).getLast? =
        some (t, ((Routing.init n).run (ps.map Posted.event)).leader c) := by
  rw [Routing.leader_run]
  cases hlast : (heard n c (ps.map Posted.event)).getLast? with
  | none => exact Or.inl rfl
  | some m =>
    cases m with
    | appendEntriesReq leaderId => exact Or.inr (last_beat hlast)
    | requestVoteReq | intraShardReq | crossShardReq => exact Or.inl rfl

/-- The leader of a cluster is -1 or the sender of its last heart beat. As long as its heart
beats come in the order of their terms, that one has the highest term so far. -/
theorem latest_leader (n c : ℕ) (ps : List Posted) :
    (((Routing.init n).run (ps.map Posted.event)).leader c = -1 ∨ ∃ t,
      (heartBeats n c ps).getLast? =
        some (t, ((Routing.init n).run (ps.map Posted.event)).leader c)) ∧
    ((heartBeats n c ps).Pairwise (fun a b => a.1 ≤ b.1) →
      ((Routing.init n).run (ps.map Posted.event)).leader c = -1 ∨
        HighestTerm n c ps (((Routing.init n).run (ps.map Posted.event)).leader c)) := by
  refine ⟨leader_beat n c ps, fun hordered => ?_⟩
  apply (leader_beat n c ps).imp_right
  rintro ⟨t, hlast⟩
  obtain ⟨before, hlist⟩ := List.getLast?_eq_some_iff.mp hlast
  refine ⟨t, List.mem_of_getLast? hlast, fun b hb => ?_⟩
  rw [hlist] at hordered hb
  obtain ⟨-, -, hle⟩ := List.pairwise_append.mp hordered
  rcases List.mem_append.mp hb with hb | hb
  · exact hle b hb _ (List.mem_singleton.mpr rfl)
  · rw [List.mem_singleton.mp hb]

def orderedBeats : List Posted :=
  [⟨1, .handle (.appendEntriesReq 0), 0⟩, ⟨2, .handle (.appendEntriesReq 1), 1⟩]

theorem latest_leader_ordered :
    ((Routing.init 2).run (orderedBeats.map Posted.event)).leader 0 = 1 ∧
      HighestTerm 2 0 orderedBeats 1 := by
  have hleader : ((Routing.init 2).run (orderedBeats.map Posted.event)).leader 0 = 1 := by decide
  have hordered : (heartBeats 2 0 orderedBeats).Pairwise (fun a b => a.1 ≤ b.1) := by decide
  have hlatest := (latest_leader 2 0 orderedBeats).2 hordered
  rw [hleader] at hlatest
  exact ⟨hleader, hlatest.resolve_left (by decide)⟩

/-- A heart beat of term 1 that comes after one of term 2. -/
def delayedBeat : List Posted :=
  [⟨2, .handle (.appendEntriesReq 1), 0⟩, ⟨1, .handle (.appendEntriesReq 0), 1⟩]

theorem deposed_leader :
    ¬(((Routing.init 2).run (delayedBeat.map Posted.event)).leader 0 = -1 ∨
      HighestTerm 2 0 delayedBeat
        (((Routing.init 2).run (delayedBeat.map Posted.event)).leader 0)) := by
  have hleader : ((Routing.init 2).run (delayedBeat.map Posted.event)).leader 0 = 0 := by decide
  have hlist : heartBeats 2 0 delayedBeat = [(2, 1), (1, 0)] := by decide
  rw [hleader]
  rintro (hnone | ⟨t, ht, hhighest⟩)
  · cases hnone
  · rw [hlist] at ht hhighest
    have hone : (2, 1) = (t, 0) ∨ (1, 0) = (t, (0 : ℤ)) := by simpa [eq_comm] using ht
    have htwo : (2 : ℤ) ≤ t := hhighest (2, 1) List.mem_cons_self
    rcases hone with h | h
    · cases h
    · cases h
      exact absurd htwo (by decide)

end Raft2PC
