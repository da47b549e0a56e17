import Raft2PC.Consensus.Journal
import Raft2PC.Proofs.StateMachineSafety
import Raft2PC.Spec.Sockets

/-! One journal. What the servers of a cluster commit in the course of a run is read off one
journal that only grows, and no server loses an entry that it has committed. -/

namespace Raft2PC

open AIOServer Consensus

namespace Cluster

def views (s : Cluster) : List (List Entry) :=
  (List.finRange SERVER_NUM_PER_CLUSTER).map fun p => committedLog (s.raft p)

/-- The longest log committed so far in a run, when `L` was the longest before it. -/
def journal : List Entry → Cluster → List Event → List Entry
  | L, s, [] => extend L s.views
  | L, s, e :: es => journal (extend L s.views) (s.step e) es

/-- The journal after a run, and how far each server has committed it. -/
def asJournal (s : Cluster) (es : List Event) : Journal Idx Entry where
  entries := journal [] s es
  read p := (committedLog ((s.run es).raft p)).length

end Cluster

/-- A run of the cluster as one of the journal. -/
structure OneJournal (s : Cluster) (es : List Event) : Prop where
  view : ∀ past, past <+: es → ∀ p,
    (s.asJournal past).view p = committedLog ((s.run past).raft p)
  step : ∀ past more, past ++ more <+: es → (s.asJournal past).Step (s.asJournal (past ++ more))
  /-- whatever PrintDatastore lists is what the server has seen of the journal -/
  printed : ∀ past e, past ++ [e] <+: es → ∀ p fd req,
    e.action = .request p fd (.printDatastore req) →
    ∀ msg ∈ answersOn fd ((s.run past).emits e p), ∃ rsp : PrintDatastoreRsp, msg = .printDatastoreRsp rsp ∧
      rsp.entries = ((s.asJournal past).view p).map fun x => { x with id := 0 }

/-- What a server has committed in a run stays in its log. -/
def KeepsCommitted (s : Cluster) (es : List Event) : Prop :=
  ∀ past more, past ++ more <+: es → ∀ p,
    committedLog ((s.run past).raft p) <+: entries ((s.run (past ++ more)).raft p)

variable {cid : ℕ} {s : Cluster} {h h' : Hist} {e : Event} {es : List Event} {L : List Entry}
  {p : Idx} {R : Idx → RaftState} {N : List Connection}

/-! ### The longest committed log -/

/-- `L` has been committed by some server, in some term. -/
def Ratified (h : Hist) (L : List Entry) : Prop := ∃ T, h.Chosen Entry.term T L

theorem Committing.ratified (hc : Committing cid R N h) (p : Idx) :
    Ratified h (committedLog (R p)) := ⟨_, (hc.server p).chosen⟩

theorem Committing.chain (hc : Committing cid R N h) (L M : List Entry) (hL : Ratified h L)
    (hM : Ratified h M) : L <+: M ∨ M <+: L := by
  obtain ⟨T, hL⟩ := hL
  obtain ⟨U, hM⟩ := hM
  exact hL.comparable hc.logging.sound.matched hc.logging.sound.kept hc.careful hM

theorem Committing.views (hc : Committing cid s.raft s.net h) : ∀ M ∈ s.views, Ratified h M := by
  intro M hM
  obtain ⟨p, -, rfl⟩ := List.mem_map.mp hM
  exact hc.ratified p

theorem Committing.extend (hc : Committing cid s.raft s.net h) (hL : Ratified h L) :
    Ratified h (extend L s.views) ∧ L <+: extend L s.views ∧
      ∀ p, committedLog (s.raft p) <+: extend L s.views := by
  obtain ⟨hlong, hviews⟩ := isPrefix_extend hc.chain hL hc.views
  exact ⟨extend_mem hL hc.views, hlong, fun p =>
    hviews _ (List.mem_map.mpr ⟨p, List.mem_finRange p, rfl⟩)⟩

theorem Committing.next (hc : Committing cid s.raft s.net h) (hok : disciplined s e = true) :
    ∃ h', Committing cid (s.step e).raft (s.step e).net h' ∧ h.Extends h' ∧
      Recorded s h e (s.step e).raft (s.step e).net h' := by
  obtain ⟨h', hrec⟩ := recorded_step s h e
  exact ⟨h', hc.step hok hrec, hc.logging.voting.extends hrec, hrec⟩

theorem Ratified.extends (hL : Ratified h L) (hc : Committing cid R N h) (hx : h.Extends h') :
    Ratified h' L := by
  obtain ⟨T, hL⟩ := hL
  exact ⟨T, hL.extends hc.logging.sound.matched hx⟩

theorem Committing.journal_grows (hc : Committing cid s.raft s.net h) (hL : Ratified h L)
    (hok : Cluster.Follows (disciplined · ·) s es) :
    L <+: Cluster.journal L s es ∧
      ∀ p, committedLog ((s.run es).raft p) <+: Cluster.journal L s es := by
  induction es generalizing s h L with
  | nil =>
    obtain ⟨-, hlong, hviews⟩ := hc.extend hL
    exact ⟨hlong, hviews⟩
  | cons e es ih =>
    obtain ⟨hL', hlong, -⟩ := hc.extend hL
    obtain ⟨h', hc', hx, -⟩ := hc.next hok.1
    obtain ⟨hmore, hviews⟩ := ih hc' (hL'.extends hc hx) hok.2
    exact ⟨hlong.trans hmore, hviews⟩

theorem Committing.journal_append (hc : Committing cid s.raft s.net h) (hL : Ratified h L)
    {past more : List Event} (hok : Cluster.Follows (disciplined · ·) s (past ++ more)) :
    Cluster.journal L s past <+: Cluster.journal L s (past ++ more) := by
  induction past generalizing s h L with
  | nil =>
    obtain ⟨hL', -, -⟩ := hc.extend hL
    cases more with
    | nil => exact List.prefix_refl _
    | cons e more =>
      obtain ⟨h', hc', hx, -⟩ := hc.next hok.1
      exact (hc'.journal_grows (hL'.extends hc hx) hok.2).1
  | cons e past ih =>
    obtain ⟨hL', -, -⟩ := hc.extend hL
    obtain ⟨h', hc', hx, -⟩ := hc.next hok.1
    exact ih hc' (hL'.extends hc hx) hok.2

/-! ### Logs keep what is committed -/

/-- Server `p` holds `L`, which was committed in a term up to its own. -/
structure Retains (h : Hist) (rs : RaftState) (L : List Entry) : Prop where
  chosen : h.Chosen Entry.term rs.currentTerm L
  held : L <+: entries rs

theorem Committing.retains (hc : Committing cid R N h) (p : Idx) :
    Retains h (R p) (committedLog (R p)) :=
  ⟨(hc.server p).chosen, List.take_prefix _ _⟩

/-- Nobody overwrites it: a leader whose entries are taken over has it, too. -/
theorem Retains.step (hL : Retains h (s.raft p) L) (hc : Committing cid s.raft s.net h)
    (hc' : Committing cid R N h') (hs : Recorded s h e R N h') : Retains h' (R p) L := by
  have hx := hc.logging.voting.extends hs
  have hlog : ∀ q, h.log q = entries (s.raft q) := fun q => (hc.logging.logger q).log
  have hlog' : h'.log p = entries (R p) := (hc'.logging.logger p).log
  have hterm : (s.raft p).currentTerm ≤ (R p).currentTerm := by
    rw [← (hc.logging.voting.voter p).term, ← (hc'.logging.voting.voter p).term]
    exact hx.ballots.term p
  refine ⟨(hL.chosen.extends hc.logging.sound.matched hx).mono hterm, ?_⟩
  rw [← hlog']
  have hheld : L <+: h.log p := by
    rw [hlog]
    exact hL.held
  cases hs with
  | request q fd m he hp =>
    cases created fd (s.raft q) m with
    | none => exact hheld
    | some x =>
      simp only [Option.map_some, Option.getD_some, History.append, Function.update_apply]
      split_ifs with hq
      · rw [← hq]
        exact hheld.trans (List.prefix_append _ _)
      · exact hheld
  | accepted k fd src dst req he hp hk hle hmis =>
    simp only [History.accept, Function.update_apply]
    split_ifs with hq
    · subst hq
      have hled := hc.logging.led hk
      exact install_keeps _ hheld (hL.chosen.le_leaderLog hc.logging.sound.matched
        hc.logging.sound.kept hc.careful hle hled.leader)
    · exact hheld
  | _ => exact hheld

theorem Retains.run (hL : Retains h (s.raft p) L) (hc : Committing cid s.raft s.net h)
    (hok : Cluster.Follows (disciplined · ·) s es) : L <+: entries ((s.run es).raft p) := by
  induction es generalizing s h with
  | nil => exact hL.held
  | cons e es ih =>
    obtain ⟨h', hc', -, hrec⟩ := hc.next hok.1
    exact ih (hL.step hc hc' hrec) hc' hok.2

theorem Committing.keeps (hc : Committing cid s.raft s.net h) {past more : List Event}
    (hok : Cluster.Follows (disciplined · ·) s (past ++ more)) (p : Idx) :
    committedLog ((s.run past).raft p) <+: entries ((s.run (past ++ more)).raft p) := by
  induction past generalizing s h with
  | nil => exact (hc.retains p).run hc hok
  | cons e past ih =>
    obtain ⟨h', hc', -, -⟩ := hc.next hok.1
    exact ih hc' hok.2

/-! ### Runs -/

theorem Cluster.Follows.left {ok : Cluster → Event → Prop} {past more : List Event}
    (h : Cluster.Follows ok s (past ++ more)) : Cluster.Follows ok s past := by
  induction past generalizing s with
  | nil => trivial
  | cons e past ih => exact ⟨h.1, ih h.2⟩

/-- PrintDatastore writes the committed log, without the ids, on the connection it reads. -/
theorem printed_committed {fd : ℤ} {req : PrintDatastoreReq} (hcommit : CommitOk h (s.raft p))
    (he : e.action = .request p fd (.printDatastore req)) {msg : WrapperMessage}
    (hmsg : msg ∈ answersOn fd (s.emits e p)) : ∃ rsp : PrintDatastoreRsp,
      msg = .printDatastoreRsp rsp ∧
        rsp.entries = (committedLog (s.raft p)).map fun x => { x with id := 0 } := by
  simp only [Cluster.emits, he, if_true, ClientMsg.msg, process, dispatch] at hmsg
  split_ifs at hmsg
  · cases hmsg
  · have hone : answersOn fd (PrintDatastoreExecutor.executeReq e.undef fd (s.raft p) req).2 =
        [.printDatastoreRsp ⟨req.clusterId, req.serverId,
          PrintDatastoreExecutor.entries e.undef (s.raft p)⟩] := by
      simp [PrintDatastoreExecutor.executeReq, answersOn]
    change msg ∈ answersOn fd (PrintDatastoreExecutor.executeReq e.undef fd (s.raft p) req).2 at hmsg
    rw [hone, List.mem_singleton] at hmsg
    exact ⟨_, hmsg, hcommit.prints e.undef⟩
  · cases hmsg

theorem ratified_nil : Ratified (History.start : Hist) [] := ⟨0, Or.inl rfl⟩

section
variable {shard : Table ℤ} {past more : List Event}

theorem asJournal_view (hok : Cluster.Follows (disciplined · ·) (Cluster.init cid shard) es)
    (hpast : past <+: es) (p : Idx) : ((Cluster.init cid shard).asJournal past).view p =
      committedLog (((Cluster.init cid shard).run past).raft p) := by
  obtain ⟨rest, rfl⟩ := hpast
  exact Journal.view_eq (((committing_init cid shard).journal_grows ratified_nil hok.left).2 p) rfl

theorem asJournal_step (hok : Cluster.Follows (disciplined · ·) (Cluster.init cid shard) es)
    (h : past ++ more <+: es) : ((Cluster.init cid shard).asJournal past).Step
      ((Cluster.init cid shard).asJournal (past ++ more)) := by
  obtain ⟨rest, rfl⟩ := h
  have hc := committing_init cid shard
  exact ⟨hc.journal_append ratified_nil hok.left,
    fun p => ((hc.journal_grows ratified_nil hok.left).2 p).length_le⟩

end

theorem mem_journal {x : Entry} (hx : x ∈ Cluster.journal L s es) :
    x ∈ L ∨ ∃ past p, past <+: es ∧ x ∈ committedLog ((s.run past).raft p) := by
  have hlong : ∀ (L : List Entry) (s : Cluster), x ∈ extend L s.views →
      x ∈ L ∨ ∃ p, x ∈ committedLog (s.raft p) := by
    intro L s
    refine @extend_mem _ (fun M => x ∈ M → x ∈ L ∨ ∃ p, x ∈ committedLog (s.raft p)) L s.views
      Or.inl fun M hM hx => ?_
    obtain ⟨p, -, rfl⟩ := List.mem_map.mp hM
    exact Or.inr ⟨p, hx⟩
  induction es generalizing s L with
  | nil => exact (hlong L s hx).imp_right fun ⟨p, hp⟩ => ⟨[], p, List.prefix_refl _, hp⟩
  | cons e es ih =>
    rcases ih hx with hx | ⟨past, p, hpast, hp⟩
    · exact (hlong L s hx).imp_right fun ⟨p, hp⟩ => ⟨[], p, List.nil_prefix, hp⟩
    · exact Or.inr ⟨e :: past, p, List.cons_prefix_cons.mpr ⟨rfl, hpast⟩, hp⟩

/-- A disciplined run of a cluster is a run of one journal, and what PrintDatastore lists, on
any server at any time, is what that server has seen of it. -/
theorem one_journal (cid : ℕ) (shard : Table ℤ) (es : List Event)
    (hok : Cluster.Follows (disciplined · ·) (Cluster.init cid shard) es) :
    OneJournal (Cluster.init cid shard) es := by
  refine ⟨fun past hpast => asJournal_view hok hpast, fun past more h => asJournal_step hok h, ?_⟩
  rintro past e hpast p fd req he msg hmsg
  have hreach : Cluster.Reach (disciplined · ·) ((Cluster.init cid shard).run past) := by
    obtain ⟨rest, rfl⟩ := hpast
    exact hok.left.left.reach
  obtain ⟨g, ht⟩ := hreach.tracked
  obtain ⟨cid', hc'⟩ := ht.committing
  rw [asJournal_view hok ((List.prefix_append past [e]).trans hpast) p]
  exact printed_committed (hc'.server p) he hmsg

theorem one_journal_both :
    (((Cluster.init 0 purse).run commitBoth).raft 1).commitIndex = 0 ∧
      OneJournal (Cluster.init 0 purse) commitBoth :=
  ⟨by decide, one_journal 0 purse commitBoth (by decide)⟩

/-- No server ever loses an entry that it has committed. -/
theorem keeps_committed (cid : ℕ) (shard : Table ℤ) (es : List Event)
    (hok : Cluster.Follows (disciplined · ·) (Cluster.init cid shard) es) :
    KeepsCommitted (Cluster.init cid shard) es := by
  rintro past more ⟨rest, rfl⟩ p
  exact (committing_init cid shard).keeps hok.left p

theorem keeps_committed_both : KeepsCommitted (Cluster.init 0 purse) commitBoth :=
  keeps_committed 0 purse commitBoth (by decide)

end Raft2PC
