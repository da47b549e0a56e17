import Raft2PC.Proofs.Leading
import Raft2PC.Proofs.SingleApplication
import Raft2PC.Spec.Sockets

/-! One leadership only appends and only advances. A leader of term `T` either goes on as
it is, or has a later term for good; and as it goes on, its log grows at the end and its
two commit counters stay in order. -/

namespace Raft2PC

open AIOServer AppendEntriesExecutor Consensus

def Leads (s : Cluster) (p : Idx) (T : ℤ) : Prop :=
  (s.raft p).role = .leader ∧ (s.raft p).currentTerm = T

instance (s : Cluster) (p : Idx) (T : ℤ) : Decidable (Leads s p T) :=
  inferInstanceAs (Decidable (_ ∧ _))

/-- What a leader keeps while it leads, from `a` to `b`. -/
structure Continues (a b : RaftState) : Prop where
  role : b.role = a.role
  currentTerm : b.currentTerm = a.currentTerm
  log : entries a <+: entries b
  commitIndex : b.commitIndex = a.commitIndex ∨ b.commitIndex = a.comingCommitIndex
  coming : b.comingCommitIndex = a.comingCommitIndex ∨
    b.comingCommitIndex + 1 = (a.log.length : ℤ)

theorem Continues.refl (a : RaftState) : Continues a a :=
  ⟨rfl, rfl, List.prefix_refl _, Or.inl rfl, Or.inl rfl⟩

/-- The commit counters are in order and within the log. -/
structure Ordered (rs : RaftState) : Prop where
  commitIndex : rs.commitIndex ≤ rs.comingCommitIndex
  coming : rs.comingCommitIndex < rs.log.length

/-- The log of `b` extends that of `a`, and `b` has committed no less. -/
structure Onward (a b : RaftState) : Prop where
  log : entries a <+: entries b
  commitIndex : a.commitIndex ≤ b.commitIndex

theorem Onward.refl (a : RaftState) : Onward a a := ⟨List.prefix_refl _, le_rfl⟩

theorem Onward.trans {a b c : RaftState} (h₁ : Onward a b) (h₂ : Onward b c) : Onward a c :=
  ⟨h₁.log.trans h₂.log, h₁.commitIndex.trans h₂.commitIndex⟩

theorem Continues.onward {a b : RaftState} (hab : Continues a b) (ha : Ordered a) :
    Onward a b := by
  refine ⟨hab.log, ?_⟩
  have := ha.commitIndex
  rcases hab.commitIndex with hb | hb <;> omega

theorem Continues.ordered {a b : RaftState} (hab : Continues a b) (ha : Ordered a) :
    Ordered b := by
  obtain ⟨hcommit, hcoming⟩ := ha
  have hlen := hab.log.length_le
  rw [entries_length, entries_length] at hlen
  constructor
  · rcases hab.commitIndex with hb | hb <;> rcases hab.coming with hb' | hb' <;> omega
  · rcases hab.coming with hb | hb <;> omega

/-! ### One step of a leader -/

variable {cid : ℕ} {s : Cluster} {e : Event} {h h' : Hist} {R : Idx → RaftState}
  {N : List Connection} {p : Idx} {T : ℤ}

/-- The vote of a leader is its own, so it grants another one in a later term only. -/
theorem Voting.grants_later (hv : Voting cid s.raft s.net h) {req : RequestVoteReq}
    (hrole : (s.raft p).role = .leader) (hyes : grants (s.raft p) req = true) :
    (s.raft p).currentTerm < req.term := by
  rcases grants_iff hyes with hlt | ⟨-, hvoted, -⟩
  · exact hlt
  · have hown := (hv.voter p).voted p ((hv.voter p).stood (by rw [hrole]; decide))
    have hpos := serverId_nonneg cid p
    omega

/-- A leader that reads a heart beat of another server does so in a later term. -/
theorem Leading.reads_later (hl : Leading cid s.raft s.net h) {k : ℕ} {src dst : Idx}
    {req : AppendEntriesReq} (hk : s.net[k]? = some ⟨src, dst, .appendReq req⟩)
    (hrole : (s.raft dst).role = .leader) (hle : (s.raft dst).currentTerm ≤ req.term) :
    (s.raft dst).currentTerm < req.term := by
  have hsend := hl.sends hk
  have hlead := (hl.voting.voter dst).leads hrole
  rcases hle.lt_or_eq with hlt | heq
  · exact hlt
  · rw [heq, hsend.leader] at hlead
    exact absurd (Option.some.inj hlead) hsend.ne

/-- A leader goes on, or has a later term. -/
theorem Leading.stays (hl : Leading cid s.raft s.net h) (hs : Recorded s h e R N h') :
    ∀ p, (s.raft p).role = .leader →
      (s.raft p).currentTerm < (R p).currentTerm ∨ Continues (s.raft p) (R p) := by
  have hidle : ∀ q, (s.raft q).role = .leader →
      (s.raft q).currentTerm < (s.raft q).currentTerm ∨ Continues (s.raft q) (s.raft q) :=
    fun q _ => Or.inr (.refl _)
  have hmoved : ∀ p rs, ((s.raft p).role = .leader →
      (s.raft p).currentTerm < rs.currentTerm ∨ Continues (s.raft p) rs) →
      ∀ q, (s.raft q).role = .leader → (s.raft q).currentTerm < (s.set p rs q).currentTerm ∨
        Continues (s.raft q) (s.set p rs q) := by
    intro p rs hp
    exact Cluster.forall_set (P := fun q rs => (s.raft q).role = .leader →
      (s.raft q).currentTerm < rs.currentTerm ∨ Continues (s.raft q) rs) hp fun q _ => hidle q
  cases hs with
  | drop | ungranted | stale => exact hidle
  | idle p b =>
    exact hmoved p _ fun _ => Or.inr ⟨rfl, rfl, List.prefix_refl _, Or.inl rfl, Or.inl rfl⟩
  | campaign p b hrole => exact hmoved p _ fun hlead => absurd hlead hrole
  | beat p hrole | reminded k p dst req rsp hk hrole =>
    refine hmoved p _ fun _ => Or.inr ⟨rfl, rfl, List.prefix_refl _, Or.inl rfl, Or.inr ?_⟩
    simp only [broadcastHeartBeat]
    omega
  | request p fd m he hp =>
    have hsame := same_serve e.undef fd (s.raft p) m
    refine hmoved p _ fun _ => Or.inr ⟨hsame.role, hsame.currentTerm, ?_,
      Or.inl hsame.commitIndex, Or.inl hsame.comingCommitIndex⟩
    rw [entries, entries, serve_log, List.map_append]
    exact List.prefix_append _ _
  | granted k fd src dst req he hp hk hyes =>
    exact hmoved dst _ fun hlead => Or.inl (hl.voting.grants_later hlead hyes)
  | counted k src dst req rsp hk hc hfew | elected k src dst req rsp hk hc hmaj =>
    refine hmoved src _ fun hlead => ?_
    rw [hc.1] at hlead
    cases hlead
  | outvoted k src dst req rsp hk hlt | deposed k src dst req rsp hk hlt =>
    exact hmoved src _ fun _ => Or.inl hlt
  | mismatched k src dst req hk hle hmis | accepted k fd src dst req he hp hk hle hmis =>
    exact hmoved dst _ fun hlead => Or.inl (hl.reads_later hk hlead hle)
  | answered k fd src dst req rsp he hp hk hle =>
    have hans := answered_executeRsp e.undef fd hle
    refine hmoved src _ fun _ => Or.inr ⟨hans.role, hans.currentTerm, ?_, ?_,
      Or.inl hans.comingCommitIndex⟩
    · rw [entries, entries, hans.entries]
    · rw [hans.commitIndex]
      split_ifs
      · exact Or.inr rfl
      · exact Or.inl rfl

theorem Recorded.wins (hs : Recorded s h e R N h') :
    ∀ p, (R p).role = .leader →
      ¬((s.raft p).role = .leader ∧ (s.raft p).currentTerm = (R p).currentTerm) →
      (R p).comingCommitIndex + 1 = ((R p).log.length : ℤ) := by
  have hidle : ∀ q, (s.raft q).role = .leader →
      ¬((s.raft q).role = .leader ∧ (s.raft q).currentTerm = (s.raft q).currentTerm) →
      (s.raft q).comingCommitIndex + 1 = ((s.raft q).log.length : ℤ) :=
    fun q hrole hnot => absurd ⟨hrole, rfl⟩ hnot
  have hmoved : ∀ p rs, (rs.role = .leader →
      ¬((s.raft p).role = .leader ∧ (s.raft p).currentTerm = rs.currentTerm) →
      rs.comingCommitIndex + 1 = (rs.log.length : ℤ)) →
      ∀ q, (s.set p rs q).role = .leader →
        ¬((s.raft q).role = .leader ∧ (s.raft q).currentTerm = (s.set p rs q).currentTerm) →
        (s.set p rs q).comingCommitIndex + 1 = ((s.set p rs q).log.length : ℤ) := by
    intro p rs hp
    exact Cluster.forall_set (P := fun q rs => rs.role = .leader →
      ¬((s.raft q).role = .leader ∧ (s.raft q).currentTerm = rs.currentTerm) →
      rs.comingCommitIndex + 1 = (rs.log.length : ℤ)) hp fun q _ => hidle q
  cases hs with
  | drop | ungranted | stale => exact hidle
  | idle p b => exact hmoved p _ fun hrole hnot => absurd ⟨hrole, rfl⟩ hnot
  | campaign p b hrole => exact hmoved p _ fun hlead => absurd hlead (by simp [broadcastVote])
  | beat p hrole | reminded k p dst req rsp hk hrole =>
    exact hmoved p _ fun hrole hnot => absurd ⟨hrole, rfl⟩ hnot
  | request p fd m he hp =>
    have hsame := same_serve e.undef fd (s.raft p) m
    exact hmoved p _ fun hrole hnot =>
      absurd ⟨hsame.role.symm.trans hrole, hsame.currentTerm.symm⟩ hnot
  | granted | outvoted | deposed | mismatched | accepted =>
    exact hmoved _ _ fun hrole => Role.noConfusion hrole
  | counted k src dst req rsp hk hc hfew =>
    refine hmoved src _ fun hrole => ?_
    have hcand : (s.raft src).role = .candidate := hc.1
    rw [show (s.raft src).role = .leader from hrole] at hcand
    cases hcand
  | elected k src dst req rsp hk hc hmaj =>
    refine hmoved src _ fun _ _ => ?_
    simp only [broadcastHeartBeat]
    omega
  | answered k fd src dst req rsp he hp hk hle =>
    have hans := answered_executeRsp e.undef fd hle
    exact hmoved src _ fun hrole hnot =>
      absurd ⟨hans.role.symm.trans hrole, hans.currentTerm.symm⟩ hnot

theorem Leading.term_le (hl : Leading cid s.raft s.net h) (es : List Event) (p : Idx) :
    (s.raft p).currentTerm ≤ ((s.run es).raft p).currentTerm := by
  induction es generalizing s h with
  | nil => exact le_rfl
  | cons e es ih =>
    obtain ⟨h', hl', hx⟩ := hl.next e
    have hterm := hx.ballots.term p
    rw [(hl.voting.voter p).term, (hl'.voting.voter p).term] at hterm
    exact hterm.trans (ih hl')

/-! ### Runs of a leadership -/

theorem Leading.continues (hl : Leading cid s.raft s.net h) (hs : Leads s p T) (e : Event)
    (es : List Event) (hlast : Leads ((s.step e).run es) p T) :
    Continues (s.raft p) ((s.step e).raft p) := by
  obtain ⟨h', hrec⟩ := recorded_step s h e
  rcases hl.stays hrec p hs.1 with hlt | hcont
  · have hle := (hl.step hrec).term_le es p
    rw [hs.2] at hlt
    rw [hlast.2] at hle
    omega
  · exact hcont

theorem Continues.leads (hc : Continues (s.raft p) ((s.step e).raft p)) (hs : Leads s p T) :
    Leads (s.step e) p T :=
  ⟨hc.role.trans hs.1, hc.currentTerm.trans hs.2⟩

theorem Leading.onward (hl : Leading cid s.raft s.net h) (es : List Event) (hs : Leads s p T)
    (hord : Ordered (s.raft p)) (hlast : Leads (s.run es) p T) :
    Onward (s.raft p) ((s.run es).raft p) ∧ Ordered ((s.run es).raft p) := by
  induction es generalizing s h with
  | nil => exact ⟨.refl _, hord⟩
  | cons e es ih =>
    have hcont := hl.continues hs e es hlast
    obtain ⟨h', hl', -⟩ := hl.next e
    obtain ⟨honward, hlater⟩ := ih hl' (hcont.leads hs) (hcont.ordered hord) hlast
    exact ⟨(hcont.onward hord).trans honward, hlater⟩

/-- The positions its commit loop runs over while it is LEADER of term `T`, in order. -/
def loops (p : Idx) (T : ℤ) : Cluster → List Event → List ℤ
  | _, [] => []
  | s, e :: es => (if Leads s p T then looped s e p else []) ++ loops p T (s.step e) es

theorem looped_eq (s : Cluster) (e : Event) (p : Idx) : looped s e p = [] ∨
    looped s e p = indices ((s.raft p).commitIndex + 1) (s.raft p).comingCommitIndex ∧
      ((s.step e).raft p).commitIndex = (s.raft p).comingCommitIndex := by
  rw [commitIndex_step]
  unfold looped commitMove
  cases e.action with
  | deliver k fd =>
    dsimp only
    cases s.net[k]? with
    | none => exact Or.inl rfl
    | some c =>
      obtain ⟨src, dst, call⟩ := c
      cases call with
      | appendRsp req rsp =>
        dsimp only
        split_ifs
        · exact Or.inr ⟨rfl, rfl⟩
        · exact Or.inl rfl
      | voteReq | voteRsp | appendReq => exact Or.inl rfl
  | timeout | request | lose => exact Or.inl rfl

theorem mem_looped {i : ℤ} (hi : i ∈ looped s e p) : (s.raft p).commitIndex < i ∧
    i ≤ (s.raft p).comingCommitIndex ∧ i ≤ ((s.step e).raft p).commitIndex := by
  rcases looped_eq s e p with hnil | ⟨hloop, hcommit⟩
  · rw [hnil] at hi
    cases hi
  · rw [hloop] at hi
    obtain ⟨hlo, hhi⟩ := mem_indices.mp hi
    exact ⟨by omega, hhi, by omega⟩

theorem nodup_looped (s : Cluster) (e : Event) (p : Idx) : (looped s e p).Nodup := by
  rcases looped_eq s e p with hnil | ⟨hloop, -⟩
  · rw [hnil]
    exact List.nodup_nil
  · rw [hloop]
    exact nodup_indices _ _

/-- A leadership that is over has no more rounds. -/
theorem Leading.loops_over (hl : Leading cid s.raft s.net h) (es : List Event)
    (hlt : T < (s.raft p).currentTerm) : loops p T s es = [] := by
  induction es generalizing s h with
  | nil => rfl
  | cons e es ih =>
    obtain ⟨h', hl', -⟩ := hl.next e
    have hle := hl.term_le [e] p
    have hrest := ih hl' (lt_of_lt_of_le hlt hle)
    rw [loops, if_neg (fun hs => by have := hs.2; omega), hrest]
    rfl

theorem Leading.loops_once (hl : Leading cid s.raft s.net h) (es : List Event)
    (hs : Leads s p T) (hord : Ordered (s.raft p)) :
    (∀ i ∈ loops p T s es, (s.raft p).commitIndex < i) ∧ (loops p T s es).Nodup := by
  induction es generalizing s h with
  | nil => exact ⟨fun i hi => (by cases hi), List.nodup_nil⟩
  | cons e es ih =>
    obtain ⟨h', hrec⟩ := recorded_step s h e
    have hl' := hl.step hrec
    rw [loops, if_pos hs]
    rcases hl.stays hrec p hs.1 with hlt | hcont
    · rw [hl'.loops_over es (hs.2 ▸ hlt), List.append_nil]
      exact ⟨fun i hi => (mem_looped hi).1, nodup_looped s e p⟩
    · obtain ⟨habove, honce⟩ := ih hl' (hcont.leads hs) (hcont.ordered hord)
      have hle := (hcont.onward hord).commitIndex
      refine ⟨fun i hi => ?_, List.nodup_append.mpr ⟨nodup_looped s e p, honce, ?_⟩⟩
      · rcases List.mem_append.mp hi with hi | hi
        · exact (mem_looped hi).1
        · exact lt_of_le_of_lt hle (habove i hi)
      · rintro i hi j hj rfl
        have hhi := (mem_looped hi).2.2
        have hlo := habove i hj
        omega

/-- What one leadership of server `p` in term `T` keeps in a run from `s`. -/
structure OneLeadership (p : Idx) (T : ℤ) (s : Cluster) (es : List Event) : Prop where
  onward : ∀ a b c, es = a ++ b ++ c → Leads (s.run a) p T → Leads (s.run (a ++ b)) p T →
    Onward ((s.run a).raft p) ((s.run (a ++ b)).raft p)
  ordered : ∀ a b, es = a ++ b → Leads (s.run a) p T → Ordered ((s.run a).raft p)
  inRange : ∀ a e b, es = a ++ e :: b → Leads (s.run a) p T →
    ∀ i ∈ looped (s.run a) e p, 0 ≤ i ∧ i < ((s.run a).raft p).log.length
  once : (loops p T s es).Nodup

theorem Leading.run (hl : Leading cid s.raft s.net h) (es : List Event) :
    ∃ h', Leading cid (s.run es).raft (s.run es).net h' := by
  induction es generalizing s h with
  | nil => exact ⟨h, hl⟩
  | cons e es ih =>
    obtain ⟨h', hl', -⟩ := hl.next e
    exact ih hl'

theorem Cluster.run_append (s : Cluster) (a b : List Event) :
    s.run (a ++ b) = (s.run a).run b := List.foldl_append

/-- Whoever becomes LEADER of term `T` with its commit index in its log only appends and
only advances, as long as it is LEADER of that term. -/
theorem leader_advances (hs : Cluster.Reach Cluster.anyStep s) (hnot : ¬Leads s p T)
    (hwin : Leads (s.step e) p T)
    (hin : ((s.step e).raft p).commitIndex < ((s.step e).raft p).log.length)
    (es : List Event) : OneLeadership p T (s.step e) es := by
  obtain ⟨h, ht⟩ := hs.tracked
  obtain ⟨cid, hl₀⟩ := ht.leading
  obtain ⟨h', hrec⟩ := recorded_step s h e
  have hl := hl₀.step hrec
  have hcoming := hrec.wins p hwin.1 (by rw [hwin.2]; exact hnot)
  have hord : Ordered ((s.step e).raft p) := ⟨by omega, by omega⟩
  refine ⟨?_, ?_, ?_, (hl.loops_once es hwin hord).2⟩
  · intro a b c _ ha hb
    obtain ⟨g, hla⟩ := hl.run a
    rw [Cluster.run_append] at hb ⊢
    exact (hla.onward b ha (hl.onward a hwin hord ha).2 hb).1
  · intro a b _ ha
    exact (hl.onward a hwin hord ha).2
  · intro a e' b _ ha i hi
    obtain ⟨g, hla⟩ := hl.run a
    have hlow := (hla.counters p).low
    have hcoming := (hl.onward a hwin hord ha).2.coming
    obtain ⟨hlo, hhi, -⟩ := mem_looped hi
    exact ⟨by omega, by omega⟩

/-- The vote that makes server 1 the leader of term 1 has arrived, but is not read yet. -/
def votedFirst : Cluster := (Cluster.init 0 purse).run (calmly [.timeout 1, .deliver 0 9])

/-- Its leadership up to its first commit. -/
def payFirst : List Event := calmly [.deliver 1 9, .deliver 2 9,
  .request 1 7 (pay 1 100 200 5), .timeout 1, .deliver 2 9, .deliver 3 9]

theorem votedFirst_reach : Cluster.Reach Cluster.anyStep votedFirst :=
  Cluster.Follows.reach (by decide)

theorem leader_advances_first :
    loops 1 1 (votedFirst.step ⟨.deliver 1 9, .zero⟩) payFirst = [0] ∧
      OneLeadership 1 1 (votedFirst.step ⟨.deliver 1 9, .zero⟩) payFirst :=
  ⟨by decide, leader_advances votedFirst_reach (by decide) (by decide) (by decide) payFirst⟩

end Raft2PC
