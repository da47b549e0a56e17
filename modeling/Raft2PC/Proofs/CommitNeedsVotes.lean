import Raft2PC.Proofs.DecisionUniqueness
import Raft2PC.Sanity.Traffic

/-! COMMIT needs both votes. The counter of a transaction never exceeds its YES answers,
so the second of them is the only one that can bring COMMIT, and if no cluster answers
twice it comes from the other cluster. -/

namespace Raft2PC

open Routing

def Traffic.isYesFrom (id : ℤ) (c : ℕ) : Traffic → Bool
  | .answer req c' .yes => req.id = id && c' = c
  | _ => false

/-! ### Traffic only grows -/

/-- From `a` to `b` no COMMIT is broadcast. -/
def Grows (a b : Routing) : Prop :=
  ∃ extra, b.traffic = a.traffic ++ extra ∧ ∀ req, Traffic.commit req ∉ extra

theorem usual_noCommit : Usual fun t => ∀ req, t ≠ .commit req where
  forward t ht req h := by
    rw [h] at ht
    cases ht
  answer req c r req' h := nomatch h
  abort req req' h := nomatch h
  aborted id req h := nomatch h
  intraReply id req h := nomatch h

/-- A step broadcasts COMMIT only with the YES that makes two. -/
theorem traffic_step (s : Routing) (e : RoutingEvent) :
    Grows s (s.step e) ∨ ∃ req c, s.numReply req.id + 1 = 2 ∧
      (s.step e).traffic = s.traffic ++ [.answer req c .yes, .commit req] := by
  by_cases htwo : ∃ n req c k, e.action = .resume n (.answer .yes) ∧
      s.tasks[n]? = some (.prepare req c k) ∧ s.numReply req.id + 1 = 2
  · obtain ⟨n, req, c, k, he, ht, hnum⟩ := htwo
    refine Or.inr ⟨req, c, hnum, ?_⟩
    have hnum' : (((s.wake n).record (.answer req c .yes)).setNumReply req.id
        ((s.wake n).numReply req.id + 1)).numReply req.id = 2 := by
      rw [numReply_setNumReply, if_pos rfl]
      exact hnum
    simp only [Routing.step, he, ht, Routing.resume, Routing.answered]
    rw [if_pos hnum']
    simp [Routing.await, Routing.record, Routing.setNumReply, Routing.wake]
  · obtain ⟨extra, hextra, hno⟩ := adds_step usual_noCommit s e
      (fun n req c k he ht hnum => absurd ⟨n, req, c, k, he, ht, hnum⟩ htwo)
      (fun _ _ _ _ _ _ _ h => by cases h)
    exact Or.inl ⟨extra, hextra, fun req hreq => hno _ hreq req rfl⟩

/-! ### Votes -/

/-- No cluster has answered YES to the same transaction twice. -/
def AnswersOnce (s : Routing) : Prop :=
  ∀ id c, s.traffic.countP (Traffic.isYesFrom id c) ≤ 1

/-- The clusters of the sender and of the receiver have both answered YES to `req`. -/
def BothVoted (n : ℕ) (traffic : List Traffic) (req : CrossShardReq) : Prop :=
  ∃ c d, pyIndex n req.senderClusterId = some c ∧ pyIndex n req.receiverClusterId = some d ∧
    .answer req c .yes ∈ traffic ∧ .answer req d .yes ∈ traffic

section Votes

variable {n : ℕ} {f : ℤ → CrossShardReq} {last : ℤ} {L : List Traffic}

/-- A YES comes from one of the two clusters of its transaction. -/
theorem countYes_le (hL : ∀ t ∈ L, t.Kept (Files n f last)) {id : ℤ} {a b : ℕ}
    (ha : pyIndex n (f id).senderClusterId = some a)
    (hb : pyIndex n (f id).receiverClusterId = some b) :
    L.countP (Traffic.isYes id) ≤
      L.countP (Traffic.isYesFrom id a) + L.countP (Traffic.isYesFrom id b) := by
  induction L with
  | nil => simp
  | cons t L ih =>
    have hrest := ih fun t ht => hL t (List.mem_cons_of_mem _ ht)
    have hhead : t.isYes id = true → t.isYesFrom id a = true ∨ t.isYesFrom id b = true := by
      intro hyes
      have hkept := hL t List.mem_cons_self
      cases t with
      | answer req c r =>
        cases r with
        | yes =>
          simp only [Traffic.isYes, decide_eq_true_eq] at hyes
          obtain ⟨-, hreq, a', b', ha', hb', hc⟩ := hkept
          rw [hreq, hyes] at ha' hb'
          obtain rfl := Option.some.inj (ha.symm.trans ha')
          obtain rfl := Option.some.inj (hb.symm.trans hb')
          simp only [Traffic.isYesFrom, hyes, decide_true, Bool.true_and, decide_eq_true_eq]
          exact hc
        | no | ack => cases hyes
      | _ => cases hyes
    simp only [List.countP_cons]
    by_cases hyes : t.isYes id = true
    · rcases hhead hyes with hc | hc
      · rw [if_pos hyes, if_pos hc]
        omega
      · rw [if_pos hyes, if_pos hc]
        omega
    · rw [if_neg hyes]
      omega

theorem exists_yes (hL : ∀ t ∈ L, t.Kept (Files n f last)) {id : ℤ}
    (hpos : 0 < L.countP (Traffic.isYes id)) : ∃ a b,
      pyIndex n (f id).senderClusterId = some a ∧ pyIndex n (f id).receiverClusterId = some b := by
  obtain ⟨t, ht, hyes⟩ := List.countP_pos_iff.mp hpos
  have hkept := hL t ht
  cases t with
  | answer req c r =>
    cases r with
    | yes =>
      simp only [Traffic.isYes, decide_eq_true_eq] at hyes
      obtain ⟨-, hreq, a, b, ha, hb, -⟩ := hkept
      rw [hreq, hyes] at ha hb
      exact ⟨a, b, ha, hb⟩
    | no | ack => cases hyes
  | _ => cases hyes

theorem countYes_le_two (hL : ∀ t ∈ L, t.Kept (Files n f last))
    (honce : ∀ id c, L.countP (Traffic.isYesFrom id c) ≤ 1) (id : ℤ) :
    L.countP (Traffic.isYes id) ≤ 2 := by
  rcases Nat.eq_zero_or_pos (L.countP (Traffic.isYes id)) with hzero | hpos
  · omega
  · obtain ⟨a, b, ha, hb⟩ := exists_yes hL hpos
    have hle := countYes_le hL ha hb
    have hone := honce id a
    have hone' := honce id b
    omega

theorem mem_of_yesFrom (hL : ∀ t ∈ L, t.Kept (Files n f last)) {id : ℤ} {c : ℕ}
    (hpos : 0 < L.countP (Traffic.isYesFrom id c)) : .answer (f id) c .yes ∈ L := by
  obtain ⟨t, ht, hyes⟩ := List.countP_pos_iff.mp hpos
  have hkept := hL t ht
  cases t with
  | answer req c' r =>
    cases r with
    | yes =>
      simp only [Traffic.isYesFrom, Bool.and_eq_true, decide_eq_true_eq] at hyes
      obtain ⟨hid, rfl⟩ := hyes
      have hreq := hkept.2.1
      rw [hid] at hreq
      rwa [← hreq]
    | no | ack => cases hyes
  | _ => cases hyes

/-- Two YES answers are one of each cluster. -/
theorem bothVoted_of_two (hL : ∀ t ∈ L, t.Kept (Files n f last))
    (honce : ∀ id c, L.countP (Traffic.isYesFrom id c) ≤ 1) {id : ℤ}
    (htwo : 2 ≤ L.countP (Traffic.isYes id)) : BothVoted n L (f id) := by
  have hpos : 0 < L.countP (Traffic.isYes id) := by omega
  obtain ⟨a, b, ha, hb⟩ := exists_yes hL hpos
  have hle := countYes_le hL ha hb
  have hone := honce id a
  have hone' := honce id b
  exact ⟨a, b, ha, hb, mem_of_yesFrom hL (by omega), mem_of_yesFrom hL (by omega)⟩

end Votes

/-- The counters lag behind the votes, and COMMIT comes once, after both of them. -/
structure Voted (n : ℕ) (s : Routing) : Prop where
  counted : ∀ id, s.numReply id ≤ s.traffic.countP (Traffic.isYes id)
  once : ∀ id, s.traffic.countP (Traffic.isCommit id) ≤ 1
  late : ∀ id, 0 < s.traffic.countP (Traffic.isCommit id) →
    2 ≤ s.traffic.countP (Traffic.isYes id)
  both : ∀ a b req, s.traffic = a ++ .commit req :: b → BothVoted n a req

theorem Voted.step {n : ℕ} {f g : ℤ → CrossShardReq} {s : Routing} {e : RoutingEvent}
    (h : Voted n s) (hf : Filed n f s) (hg : Filed n g (s.step e))
    (honce : AnswersOnce (s.step e)) : Voted n (s.step e) := by
  have hview : ∀ id, (((s.step e).view id).num ≤ ((s.step e).view id).yes) ∧
      ((s.step e).view id).commits ≤ 1 ∧
      (0 < ((s.step e).view id).commits → 2 ≤ ((s.step e).view id).yes) := by
    intro id
    have hle : ((s.step e).view id).yes ≤ 2 := countYes_le_two hg.kept.traffic honce id
    have hcounted : (s.view id).num ≤ (s.view id).yes := h.counted id
    have hone : (s.view id).commits ≤ 1 := h.once id
    have hlate : 0 < (s.view id).commits → 2 ≤ (s.view id).yes := h.late id
    have heff := effect_step s id e hf.fresh
    generalize s.view id = v at *
    generalize (s.step e).view id = w at *
    generalize forId id (s.input e) = i at heff
    cases heff with
    | quiet | refused => exact ⟨hcounted, hone, hlate⟩
    | counted | committed | aborted | replied | marked | dropped =>
      dsimp only at *
      omega
  refine ⟨fun id => (hview id).1, fun id => (hview id).2.1, fun id => (hview id).2.2, ?_⟩
  intro a b req hsplit
  rcases traffic_step s e with ⟨extra, hextra, hno⟩ | ⟨r, c, hnum, htraffic⟩
  · rw [hextra] at hsplit
    rcases List.append_eq_append_iff.mp hsplit with ⟨a', rfl, hin⟩ | ⟨c', hold, hrest⟩
    · exact absurd (hin ▸ List.mem_append_right _ List.mem_cons_self) (hno req)
    · cases c' with
      | nil =>
        rw [List.nil_append] at hrest
        exact absurd (hrest ▸ List.mem_cons_self) (hno req)
      | cons x c' =>
        obtain ⟨rfl, -⟩ := List.cons.inj hrest
        exact h.both a c' req hold
  · rw [htraffic] at hsplit
    rcases List.append_eq_append_iff.mp hsplit with ⟨a', rfl, hin⟩ | ⟨c', hold, hrest⟩
    · -- the COMMIT of this step
      match a' with
      | [] => cases hin
      | [x] =>
        obtain ⟨rfl, rfl, rfl⟩ : .answer r c .yes = x ∧ r = req ∧ b = [] := by simpa using hin
        have hreq : r = g r.id := hg.unique (htraffic ▸ by simp)
        have hsub : (s.traffic ++ [Traffic.answer r c .yes]).Sublist (s.step e).traffic := by
          rw [htraffic]
          exact (List.Sublist.refl _).append (List.sublist_append_left _ [Traffic.commit r])
        have hold : s.numReply r.id ≤ s.traffic.countP (Traffic.isYes r.id) := h.counted r.id
        have htwo : 2 ≤ (s.traffic ++ [Traffic.answer r c .yes]).countP (Traffic.isYes r.id) := by
          rw [List.countP_append, List.countP_singleton, if_pos (by simp [Traffic.isYes])]
          omega
        have hboth := bothVoted_of_two (fun t ht => hg.kept.traffic t (hsub.subset ht))
          (fun id d => hsub.countP_le.trans (honce id d)) htwo
        rwa [← hreq] at hboth
      | [x, y] => simp at hin
      | x :: y :: z :: a' => simp at hin
    · cases c' with
      | nil => cases hrest
      | cons x c' =>
        obtain ⟨rfl, -⟩ := List.cons.inj hrest
        exact h.both a c' req hold

theorem Voted.init (n : ℕ) : Voted n (Routing.init n) where
  counted := fun id => by simp [Routing.numReply, Routing.init, Table.get]
  once := fun id => Nat.zero_le 1
  late := fun id hpos => absurd hpos (lt_irrefl 0)
  both := fun a b req hsplit => by cases a <;> cases hsplit

theorem AnswersOnce.of_step {s : Routing} {e : RoutingEvent} (h : AnswersOnce (s.step e)) :
    AnswersOnce s := by
  have hsub : s.traffic.Sublist (s.step e).traffic := by
    rcases traffic_step s e with ⟨extra, hextra, -⟩ | ⟨r, c, -, htraffic⟩
    · rw [hextra]
      exact List.sublist_append_left _ _
    · rw [htraffic]
      exact List.sublist_append_left _ _
  exact fun id c => hsub.countP_le.trans (h id c)

theorem AnswersOnce.of_run {s : Routing} (es : List RoutingEvent)
    (h : AnswersOnce (s.run es)) : AnswersOnce s := by
  induction es generalizing s with
  | nil => exact h
  | cons e es ih => exact (ih h).of_step

theorem Voted.run {n : ℕ} {f : ℤ → CrossShardReq} {s : Routing} (es : List RoutingEvent)
    (h : Voted n s) (hf : Filed n f s) (honce : AnswersOnce (s.run es)) : Voted n (s.run es) := by
  induction es generalizing s f with
  | nil => exact h
  | cons e es ih =>
    obtain ⟨g, hg⟩ := hf.step e
    have hstep : AnswersOnce (s.step e) := AnswersOnce.of_run es honce
    exact ih (h.step hf hg hstep) hg honce

/-- In every run in which no cluster answers YES to a transaction twice, COMMIT is broadcast
at most once, after a YES of the sender's cluster and one of the receiver's cluster. -/
theorem commit_needs_votes (n : ℕ) (es : List RoutingEvent)
    (honce : AnswersOnce ((Routing.init n).run es)) :
    (∀ id, ((Routing.init n).run es).traffic.countP (Traffic.isCommit id) ≤ 1) ∧
      ∀ a b req, ((Routing.init n).run es).traffic = a ++ .commit req :: b → BothVoted n a req := by
  obtain ⟨f, hf⟩ := exists_filed_init n
  have h := (Voted.init n).run es hf honce
  exact ⟨h.once, h.both⟩

def bothSayYes : List RoutingEvent :=
  [⟨.handle (.appendEntriesReq 1), 0⟩, ⟨.handle (.appendEntriesReq 4), 0⟩,
    ⟨.handle clientTransfer, 0⟩, ⟨.resume 0 (.answer .yes), 10⟩, ⟨.resume 0 (.answer .yes), 20⟩]

theorem answersOnce_bothSayYes : AnswersOnce ((Routing.init 2).run bothSayYes) := by
  intro id c
  obtain ⟨req, hreq⟩ : ∃ req, ((Routing.init 2).run bothSayYes).traffic =
      [.prepare req 0 1, .answer req 0 .yes, .prepare req 1 1, .answer req 1 .yes,
        .commit req] := ⟨_, rfl⟩
  rw [hreq]
  simp only [List.countP_cons, List.countP_nil, Traffic.isYesFrom, Bool.and_eq_true,
    decide_eq_true_eq, Bool.false_eq_true, if_false]
  split_ifs <;> omega

theorem commit_needs_votes_both :
    ((Routing.init 2).run bothSayYes).traffic.countP (Traffic.isCommit 1) = 1 ∧
      ∀ a b req, ((Routing.init 2).run bothSayYes).traffic = a ++ .commit req :: b →
        BothVoted 2 a req :=
  ⟨by decide, (commit_needs_votes 2 bothSayYes answersOnce_bothSayYes).2⟩

end Raft2PC
