import Raft2PC.Sanity.Reaction

/-! A server of a cluster, seen alone: a run of the cluster is for each of its servers a run
on what the server hears. -/

namespace Raft2PC

open AIOServer

/-! ### Servers keep running -/

theorem keepRunning_client (u : Undefined) (fd : ℤ) (sv : AIOServer) (m : ClientMsg) :
    (process u fd sv m.msg).1.keepRunning = sv.keepRunning := by
  apply keepRunning_other
  cases m <;> simp [ClientMsg.msg]

theorem keepRunning_connection (u : Undefined) (fd : ℤ) (sv : AIOServer) (c : Connection) :
    (process u fd sv c.msg).1.keepRunning = sv.keepRunning := by
  apply keepRunning_other
  unfold Connection.msg
  split <;> simp

namespace Cluster

variable {s : Cluster} {e : Event} {es past : List Event} {p : Idx}

/-- No server has been told to exit. -/
def Up (s : Cluster) : Prop := ∀ p, (s.servers p).keepRunning = true

theorem up_init (cid : ℕ) (shard : Table ℤ) : Up (init cid shard) := fun _ => rfl

theorem Up.after {q : Idx} {r : AIOServer × List AIOAction} (hs : s.Up)
    (hr : r.1.keepRunning = (s.servers q).keepRunning) (net : List Connection)
    (reply : AIOAction → Option Connection) : (s.after q r net reply).Up := by
  intro p
  rw [servers_after]
  split_ifs with hq
  · rw [hr, hs q]
  · exact hs p

theorem Up.step (hs : s.Up) (e : Event) : (s.step e).Up := by
  obtain ⟨action, u⟩ := e
  cases action with
  | timeout q => exact hs.after (keepRunning_timeout u _) _ _
  | request q fd m => exact hs.after (keepRunning_client u fd _ m) _ _
  | deliver k fd =>
    simp only [Cluster.step]
    cases s.net[k]? with
    | none => exact hs
    | some c => exact hs.after (keepRunning_connection u fd _ c) _ _
  | lose k => exact hs

/-! ### What a server hears -/

/-- What a run of the cluster brings server `p`. -/
def heard (p : Idx) : Cluster → List Event → List Stimulus
  | _, [] => []
  | s, e :: es => (s.brings e p).toList ++ heard p (s.step e) es

theorem heard_append (p : Idx) (s : Cluster) (past es : List Event) :
    heard p s (past ++ es) = heard p s past ++ heard p (s.run past) es := by
  induction past generalizing s with
  | nil => rfl
  | cons e past ih =>
    rw [List.cons_append, heard, heard, ih, List.append_assoc]
    rfl

/-- A run of the cluster, as one of its servers sees it. -/
theorem servers_run (hs : s.Up) (p : Idx) (es : List Event) :
    (s.run es).servers p = (s.servers p).runs (heard p s es) := by
  induction es generalizing s with
  | nil => rfl
  | cons e es ih =>
    have hstep := servers_step s e p (hs p)
    have hrest : (s.run (e :: es)).servers p =
        ((s.step e).servers p).runs (heard p (s.step e) es) := ih (hs.step e)
    rw [hrest, hstep, heard, runs, runs, List.foldl_append]
    cases s.brings e p <;> rfl

/-- What a server has heard so far it has heard in a past of its cluster. -/
theorem exists_heard {xs : List Stimulus} (h : xs <+: heard p s es) :
    ∃ past, past <+: es ∧ heard p s past = xs := by
  induction es generalizing s xs with
  | nil => exact ⟨[], List.prefix_refl _, (List.prefix_nil.mp h).symm⟩
  | cons e es ih =>
    have hlater : ∀ ys, ys <+: heard p (s.step e) es →
        ∃ past, past <+: e :: es ∧ heard p s past = (s.brings e p).toList ++ ys := by
      intro ys hys
      obtain ⟨past, hpast, rfl⟩ := ih hys
      exact ⟨e :: past, List.cons_prefix_cons.mpr ⟨rfl, hpast⟩, rfl⟩
    rw [heard] at h
    cases hb : s.brings e p with
    | none =>
      rw [hb] at h hlater
      exact hlater xs h
    | some x =>
      rw [hb] at h hlater
      cases xs with
      | nil => exact ⟨[], List.nil_prefix, rfl⟩
      | cons y ys =>
        obtain ⟨rfl, hys⟩ := List.cons_prefix_cons.mp h
        exact hlater ys hys

/-- The pasts of a server are those of its cluster. -/
theorem forall_heard {P : List Stimulus → Prop} :
    (∀ past, past <+: es → P (heard p s past)) ↔ ∀ xs, xs <+: heard p s es → P xs := by
  constructor
  · intro h xs hxs
    obtain ⟨past, hpast, rfl⟩ := exists_heard hxs
    exact h past hpast
  · rintro h past ⟨rest, rfl⟩
    apply h
    rw [heard_append]
    exact List.prefix_append _ _

/-- A condition on what a server hears, along a run of the cluster. -/
theorem follows_heard (ok : AIOServer → Stimulus → Prop) (hs : s.Up) (es : List Event) :
    Follows (fun s e => ∀ p, ∀ x ∈ s.brings e p, ok (s.servers p) x) s es ↔
      ∀ p, AIOServer.Follows ok (s.servers p) (heard p s es) := by
  induction es generalizing s with
  | nil => exact iff_of_true trivial fun _ => trivial
  | cons e es ih =>
    have hcons : ∀ p, AIOServer.Follows ok (s.servers p) (heard p s (e :: es)) ↔
        (∀ x ∈ s.brings e p, ok (s.servers p) x) ∧
          AIOServer.Follows ok ((s.step e).servers p) (heard p (s.step e) es) := by
      intro p
      rw [servers_step s e p (hs p), heard]
      cases s.brings e p <;> simp [AIOServer.Follows]
    rw [forall_congr' hcons, forall_and, Follows, ih (hs.step e)]

end Cluster

end Raft2PC
