import Raft2PC.Proofs.OneAnswer
import Raft2PC.Sanity.Handling
import Raft2PC.Sanity.Projection

/-! Whatever a server of a cluster writes to a connection answers a message that it has read
from it. -/

namespace Raft2PC

open AIOServer Cluster

variable {s : Cluster} {e : Event} {es : List Event} {p : Idx} {fd : ℤ}

/-- What a server reads in a step, with the connections. -/
def Cluster.readsOn (s : Cluster) (e : Event) (p : Idx) : List (ℤ × WrapperMessage) :=
  (s.brings e p).toList.flatMap fun x => x.input.own

/-- What a server reads in a run, with the connections. -/
def readOn (p : Idx) : Cluster → List Event → List (ℤ × WrapperMessage)
  | _, [] => []
  | s, e :: es => s.readsOn e p ++ readOn p (s.step e) es

theorem readOn_append (p : Idx) (s : Cluster) (past es : List Event) :
    readOn p s (past ++ es) = readOn p s past ++ readOn p (s.run past) es := by
  induction past generalizing s with
  | nil => rfl
  | cons e past ih =>
    rw [List.cons_append, readOn, readOn, ih, List.append_assoc]
    rfl

theorem readsOn_fst (s : Cluster) (e : Event) (p : Idx) :
    (s.readsOn e p).map Prod.fst = (s.reads e p).toList := by
  obtain ⟨action, u⟩ := e
  unfold readsOn brings reads
  cases action with
  | timeout q =>
    dsimp only
    split_ifs <;> rfl
  | request q fd m =>
    dsimp only
    split_ifs <;> rfl
  | deliver k fd =>
    dsimp only
    cases s.net[k]? with
    | none => rfl
    | some c =>
      dsimp only
      split_ifs <;> rfl
  | lose k => rfl

theorem readOn_fst (p : Idx) (s : Cluster) (es : List Event) :
    (readOn p s es).map Prod.fst = sockets p s es := by
  induction es generalizing s with
  | nil => rfl
  | cons e es ih => rw [readOn, sockets, List.map_append, readsOn_fst, ih]

/-- What a server writes is how it reacts to what the step brings it. -/
theorem emits_eq (hrun : (s.servers p).keepRunning = true) :
    s.emits e p = (s.brings e p).elim [] fun x => ((s.servers p).react x).2 := by
  obtain ⟨action, u⟩ := e
  unfold emits brings
  cases action with
  | timeout q =>
    dsimp only
    split_ifs
    · simp [react, hrun]
    · rfl
  | request q fd m =>
    dsimp only
    split_ifs
    · simp [react, hrun]
    · rfl
  | deliver k fd =>
    dsimp only
    cases s.net[k]? with
    | none => rfl
    | some c =>
      dsimp only
      split_ifs
      · simp [react, hrun]
      · rfl
  | lose k => rfl

theorem handled_step (hrun : (s.servers p).keepRunning = true) (hcount : Counters (s.raft p)) :
    Handled (s.readsOn e p) (s.raft p).log ((s.step e).raft p).log (s.emits e p) := by
  have hserver := servers_step s e p hrun
  rw [emits_eq hrun, Cluster.raft, Cluster.raft, hserver, readsOn]
  cases s.brings e p with
  | none => exact .silent (.refl _) rfl
  | some x =>
    rw [Option.toList_some, List.flatMap_singleton]
    refine handled_input fun fd msg hx hadm hp rsp hmsg hdec i hi => ?_
    have hlow := hcount.low
    have hin := hcount.inLog (decides_spec hdec).1
    obtain ⟨hlo, hhi⟩ := mem_indices.mp hi
    simp only [Cluster.raft] at hlow hin
    exact ⟨by omega, by omega⟩

/-- Every reply, and every entry that waits, is for a message that was read. -/
structure Conversing (p : Idx) (s : Cluster) (es : List Event) : Prop where
  entries : ∀ x ∈ ((s.run es).raft p).log, x.reqFd ≠ -1 →
    ∃ msg, (x.reqFd, msg) ∈ readOn p s es ∧ Awaits msg x
  replies : ∀ fd, ∀ rsp ∈ written p fd s es, ∃ msg, (fd, msg) ∈ readOn p s es ∧ Answers msg rsp

theorem mem_answersOn {acts : List AIOAction} {rsp : WrapperMessage}
    (h : rsp ∈ answersOn fd acts) : .writeMsg fd rsp ∈ acts := by
  obtain ⟨a, ha, hmsg⟩ := List.mem_filterMap.mp h
  cases a with
  | writeMsg fd' msg =>
    dsimp only at hmsg
    split_ifs at hmsg with hfd
    obtain rfl := Option.some.inj hmsg
    exact hfd ▸ ha
  | _ => cases hmsg

theorem Conversing.snoc (h : Conversing p s es) (hrun : ((s.run es).servers p).keepRunning = true)
    (hcount : Counters ((s.run es).raft p)) : Conversing p s (es ++ [e]) := by
  have hstep := handled_step (e := e) hrun hcount
  have hread : readOn p s (es ++ [e]) = readOn p s es ++ (s.run es).readsOn e p := by
    rw [readOn_append, readOn, readOn, List.append_nil]
  constructor
  · intro x hx hne
    rw [run_snoc] at hx
    rw [hread]
    rcases hstep.entries x hx hne with hold | ⟨msg, hmsg, hawaits⟩
    · obtain ⟨msg, hmsg, hawaits⟩ := h.entries x hold hne
      exact ⟨msg, List.mem_append_left _ hmsg, hawaits⟩
    · exact ⟨msg, List.mem_append_right _ hmsg, hawaits⟩
  · intro fd rsp hrsp
    rw [written_snoc] at hrsp
    rw [hread]
    rcases List.mem_append.mp hrsp with hold | hnew
    · obtain ⟨msg, hmsg, hans⟩ := h.replies fd rsp hold
      exact ⟨msg, List.mem_append_left _ hmsg, hans⟩
    · rcases hstep.replies fd rsp (mem_answersOn hnew) with ⟨msg, hmsg, hans⟩ | ⟨x, hx, rfl, hne, hset⟩
      · exact ⟨msg, List.mem_append_right _ hmsg, hans⟩
      · obtain ⟨msg, hmsg, hawaits⟩ := h.entries x hx hne
        exact ⟨msg, List.mem_append_left _ hmsg, hset.answers hawaits⟩

theorem Cluster.Up.run (hs : s.Up) (es : List Event) : (s.run es).Up := by
  induction es generalizing s with
  | nil => exact hs
  | cons e es ih => exact ih (hs.step e)

theorem Conversing.run (p : Idx) (cid : ℕ) (shard : Table ℤ) (es : List Event) :
    Conversing p (Cluster.init cid shard) es := by
  induction es using List.reverseRecOn with
  | nil =>
    exact ⟨fun _ hx => absurd hx List.not_mem_nil, fun _ _ hrsp => absurd hrsp List.not_mem_nil⟩
  | append_singleton es e ih =>
    obtain ⟨h, hl⟩ := (leading_init cid shard).run es
    exact ih.snoc ((up_init cid shard).run es p) (hl.counters p)

end Raft2PC
