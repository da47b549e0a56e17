import Raft2PC.Escrow.Book
import Raft2PC.Sanity.Isolation
import Mathlib.Algebra.BigOperators.Group.Finset.Piecewise

/-! The uncommitted commands of a leader as a book of promises: the lock table marks the
items that are held, an admitted request is pushed and the commit loop pops. -/

namespace Raft2PC

open AIOServer AppendEntriesExecutor

/-- The commands above the commit index, oldest first. -/
def waiting (log : List LogEntry) (ci : ℤ) : List Text :=
  (log.drop (ci + 1).toNat).map LogEntry.command

/-- What a command will do when it is committed, seen from the items of the shard. -/
def promise (shard : ℤ → Bool) (c : Text) : Escrow.Promise ℤ ℤ where
  holds k := isTransfer c = true ∧ shard k = true ∧
    (k = (terms c).senderId ∨ k = (terms c).receiverId)
  takes k := if !isCross c ∧ k = (terms c).senderId then (terms c).amount else 0
  gives k := if !isCross c ∧ k = (terms c).receiverId then (terms c).amount else 0

/-- A transfer reads back as itself; an intra-shard one is within the shard. -/
structure Legible (shard : ℤ → Bool) (c : Text) : Prop where
  reads : isTransfer c = true → ∀ u, sscanf u (formatOf c) c = terms c
  ends : isCross c = false → shard (terms c).senderId = true ∧
    shard (terms c).receiverId = true ∧ 0 ≤ (terms c).amount

/-- The book of a server whose log is committed up to `ci`. -/
structure Booked (shard : ℤ → Bool) (ci : ℤ) (rs : RaftState) : Prop where
  legible : ∀ c ∈ waiting rs.log ci, Legible shard c
  book : Escrow.Book ((waiting rs.log ci).map (promise shard))
    (fun k => shard k = true ∧ rs.locked k = true) rs.balance

variable {shard : ℤ → Bool} {ci : ℤ} {rs : RaftState} {c : Text}

theorem isTransfer_of_not_isCross (h : isCross c = false) : isTransfer c = true := by
  rw [isTransfer, h]
  rfl

theorem Legible.sound (h : Legible shard c) : (promise shard c).Sound := by
  refine ⟨fun k => ?_, fun k hk => ⟨?_, ?_⟩⟩
  · simp only [promise]
    split_ifs with hgives
    · exact (h.ends (by simpa using hgives.1)).2.2
    · exact le_rfl
  · simp only [promise]
    rw [if_neg]
    rintro ⟨hcross, rfl⟩
    have hcross' : isCross c = false := by simpa using hcross
    exact hk ⟨isTransfer_of_not_isCross hcross', (h.ends hcross').1, Or.inl rfl⟩
  · simp only [promise]
    rw [if_neg]
    rintro ⟨hcross, rfl⟩
    have hcross' : isCross c = false := by simpa using hcross
    exact hk ⟨isTransfer_of_not_isCross hcross', (h.ends hcross').2.1, Or.inr rfl⟩

theorem waiting_append {log : List LogEntry} (x : LogEntry) (hci : ci < log.length) :
    waiting (log ++ [x]) ci = waiting log ci ++ [x.command] := by
  rw [waiting, List.drop_append_of_le_length (by omega), List.map_append]
  rfl

theorem waiting_succ {log : List LogEntry} {i : ℕ} (hi : (i : ℤ) = ci + 1) (hlen : i < log.length) :
    waiting log ci = log[i].command :: waiting log (ci + 1) := by
  rw [waiting, waiting, show (ci + 1).toNat = i by omega,
    show (ci + 1 + 1).toNat = i + 1 by omega, List.drop_eq_getElem_cons hlen, List.map_cons]

theorem waiting_congr {a b : List LogEntry}
    (hab : a.map LogEntry.entry = b.map LogEntry.entry) (ci : ℤ) : waiting a ci = waiting b ci := by
  have hcmd : ∀ l : List LogEntry, l.map LogEntry.command =
      (l.map LogEntry.entry).map Entry.command := by
    intro l
    rw [List.map_map]
    rfl
  rw [waiting, waiting, List.map_drop, List.map_drop, hcmd, hcmd, hab]

theorem mem_waiting {log : List LogEntry} (hci : -1 ≤ ci) :
    c ∈ waiting log ci ↔ ∃ (i : ℕ) (x : LogEntry), log[i]? = some x ∧ ci < i ∧ x.command = c := by
  rw [waiting, List.mem_map]
  constructor
  · rintro ⟨x, hx, rfl⟩
    obtain ⟨j, hj⟩ := List.mem_iff_getElem?.mp hx
    rw [List.getElem?_drop] at hj
    exact ⟨_, x, hj, by omega, rfl⟩
  · rintro ⟨i, x, hx, hlt, rfl⟩
    refine ⟨x, List.mem_iff_getElem?.mpr ⟨i - (ci + 1).toNat, ?_⟩, rfl⟩
    rw [List.getElem?_drop, show (ci + 1).toNat + (i - (ci + 1).toNat) = i by omega]
    exact hx

theorem Booked.congr {rs' : RaftState} (h : Booked shard ci rs) (hsame : SameTables rs rs') :
    Booked shard ci rs' := by
  have hwait := waiting_congr hsame.log ci
  refine ⟨fun c hc => h.legible c (hwait ▸ hc), ?_⟩
  rw [hwait]
  exact h.book.congr (fun k => by rw [hsame.locked]) hsame.balance

/-- The commit loop, one position. -/
theorem Booked.pop (h : Booked shard ci rs) (u : Undefined) {i : ℕ} (hi : (i : ℤ) = ci + 1)
    (hlen : i < rs.log.length) : Booked shard (ci + 1) (commitEntry u rs i).1 := by
  have hlog := (same_commitEntry u rs i).2
  have hwait := waiting_succ hi hlen
  obtain ⟨c, hc⟩ : ∃ c, rs.log[i].command = c := ⟨_, rfl⟩
  rw [hc] at hwait
  have hread : (readLog u rs.log i).command = c := by rw [readLog_of_lt hlen, hc]
  have hbook := h.book
  rw [hwait, List.map_cons] at hbook
  have hlegible : Legible shard c := h.legible c (by rw [hwait]; exact List.mem_cons_self)
  refine ⟨fun d hd => h.legible d ?_, ?_⟩
  · rw [waiting_congr hlog] at hd
    rw [hwait]
    exact List.mem_cons_of_mem _ hd
  · rw [waiting_congr hlog]
    refine hbook.pop.congr (fun k => ?_) fun k => ?_
    · cases htr : isTransfer c with
      | false =>
        rw [locked_commitEntry_other (by rw [hread]; exact htr)]
        simp [promise, htr]
      | true =>
        rw [locked_commitEntry (by rw [hread]; exact hlegible.reads htr _)
          (by rw [hread]; exact htr), hread]
        simp only [promise, htr, true_and]
        split_ifs with hr hs
        · subst hr
          simpa using fun hk _ => hk
        · subst hs
          simpa using fun hk _ => hk
        · simp [hr, hs]
    · cases hcross : isCross c with
      | true =>
        rw [balance_commitEntry_cross (by rw [hread]; exact hcross)]
        simp [promise, hcross]
      | false =>
        have htr := isTransfer_of_not_isCross hcross
        rw [balance_commitEntry_intra (by rw [hread]; exact hlegible.reads htr _)
          (by rw [hread]; exact hcross), hread]
        simp only [promise, hcross, Transfer.delta, Bool.not_false, true_and]
        split_ifs <;> omega

/-- What may be sent to the leader of cluster `cid`: amounts are not negative, and exactly
the ends that belong to the cluster are items of its shard. -/
def lawful (shard : ℤ → Bool) (cid : ℤ) : ClientMsg → Bool
  | .intraShard req => shard req.senderId && shard req.receiverId && 0 ≤ req.amount
  | .crossShard req => req.phase ≠ .commit &&
      decide (req.senderClusterId = cid) == shard req.senderId &&
      decide (req.receiverClusterId = cid) == shard req.receiverId
  | _ => true

theorem legible_pays {a b d : ℤ} (ha : shard a = true) (hb : shard b = true) (hd : 0 ≤ d) :
    Legible shard (fmtPays a b d) where
  reads _ u := by rw [terms_pays, formatOf_pays, sscanf_pays]
  ends _ := by rw [terms_pays]; exact ⟨ha, hb, hd⟩

theorem legible_prepare (req : CrossShardReq) :
    Legible shard (CrossShardExecutor.prepareCommand req) where
  reads _ u := by
    rw [terms_prepare]
    unfold CrossShardExecutor.prepareCommand
    rw [formatOf_prepare, sscanf_prepare]
  ends h := by
    unfold CrossShardExecutor.prepareCommand at h
    rw [isCross_prepare] at h
    cases h

theorem legible_abort (req : CrossShardReq) :
    Legible shard (CrossShardExecutor.abortCommand req) where
  reads h := absurd h (by rw [isTransfer_abort]; exact Bool.false_ne_true)
  ends h := by cases h

/-- COMMIT is the only request that moves money. -/
theorem moves_lawful {cid : ℤ} {m : ClientMsg} (hlaw : lawful shard cid m = true) :
    moves rs m = none := by
  cases m with
  | crossShard req =>
    simp only [lawful, Bool.and_eq_true, decide_eq_true_eq] at hlaw
    simp [moves, hlaw.1.1]
  | _ => rfl

theorem balance_lawful (u : Undefined) (fd : ℤ) (rs : RaftState) {cid : ℤ} {m : ClientMsg}
    (hlaw : lawful shard cid m = true) (k : ℤ) :
    (serve u fd rs m).balance k = rs.balance k := by
  rw [balance_serve, moves_lawful hlaw, Option.map_none, Option.getD_none, add_zero]

theorem takes_cross (h : isCross c = true) (k : ℤ) : (promise shard c).takes k = 0 := by
  simp [promise, h]

/-- The entry of an admitted request promises what the tests of its handler made sure of. -/
theorem admitted_promise {fd : ℤ} {m : ClientMsg} {x : LogEntry}
    (hx : created fd rs m = some x) (hlaw : lawful shard rs.clusterId m = true)
    (hsolvent : ∀ k, 0 ≤ rs.balance k) :
    Legible shard x.command ∧ (∀ k, (promise shard x.command).holds k →
        rs.locked k = false) ∧
      (∀ k, (promise shard x.command).takes k ≤ rs.balance k) ∧
      ∀ k, shard k = true → (locks rs k m = true ↔ (promise shard x.command).holds k) := by
  cases admission_of_created hx with
  | intra req hcid hs hr hcov =>
    simp only [lawful, Bool.and_eq_true, decide_eq_true_eq] at hlaw
    obtain ⟨⟨hsender, hreceiver⟩, hamount⟩ := hlaw
    refine ⟨legible_pays hsender hreceiver hamount, fun k hk => ?_, fun k => ?_, fun k hk => ?_⟩
    · simp only [promise, terms_pays] at hk
      rcases hk.2.2 with rfl | rfl
      · exact hs
      · exact hr
    · simp only [promise, terms_pays]
      split_ifs with htakes
      · rw [htakes.2]
        exact hcov
      · exact hsolvent k
    · simp [promise, locks, terms_pays, isTransfer_pays, hk]
  | prepare req hphase hs hr hnew =>
    simp only [lawful, Bool.and_eq_true, beq_iff_eq] at hlaw
    obtain ⟨⟨-, hsender⟩, hreceiver⟩ := hlaw
    refine ⟨legible_prepare req, fun k hk => ?_, fun k => ?_, fun k hk => ?_⟩
    · simp only [promise, terms_prepare] at hk
      obtain ⟨-, hshard, rfl | rfl⟩ := hk
      · exact (hs (of_decide_eq_true (hsender.trans hshard))).1
      · exact hr (of_decide_eq_true (hreceiver.trans hshard))
    · exact (takes_cross (isCross_prepareCommand req) k).trans_le (hsolvent k)
    · simp only [promise, locks, terms_prepare, isTransfer_prepare, hphase, hk, hsender, hreceiver,
        decide_true, Bool.true_and, Bool.or_eq_true, Bool.and_eq_true, decide_eq_true_eq, true_and]
      constructor
      · rintro (⟨-, hk⟩ | ⟨-, hk⟩)
        · exact Or.inl hk
        · exact Or.inr hk
      · rintro (rfl | rfl)
        · exact Or.inl ⟨hk, rfl⟩
        · exact Or.inr ⟨hk, rfl⟩
  | commit req hphase => simp [lawful, hphase] at hlaw
  | abort req hphase =>
    refine ⟨legible_abort req, fun k hk => ?_, fun k => ?_, fun k hk => ?_⟩
    · exact absurd hk.1 (by rw [isTransfer_abort]; exact Bool.false_ne_true)
    · exact (takes_cross (isCross_abortCommand req) k).trans_le (hsolvent k)
    · simp [promise, locks, hphase, isTransfer_abort]

theorem Booked.serve (h : Booked shard rs.commitIndex rs) (u : Undefined) (fd : ℤ)
    {m : ClientMsg} (hlaw : lawful shard rs.clusterId m = true)
    (hci : rs.commitIndex < rs.log.length) :
    Booked shard rs.commitIndex (Raft2PC.serve u fd rs m) := by
  have hlog := serve_log u fd rs m
  have hbal := balance_lawful u fd rs hlaw
  have hlock := locked_serve u fd rs m
  cases hx : created fd rs m with
  | none =>
    rw [hx, Option.toList_none, List.append_nil] at hlog
    refine h.congr ⟨(same_serve u fd rs m).clusterId, by rw [hlog], fun k => ?_, fun k => ?_⟩
    · rw [hlock, hx, Option.isSome_none, Bool.false_and, Bool.or_false]
    · exact hbal k
  | some x =>
    rw [hx, Option.toList_some] at hlog
    obtain ⟨hlegible, hfree, hcov, hlocks⟩ := admitted_promise hx hlaw h.book.solvent
    have hwait := waiting_append x hci
    rw [← hlog] at hwait
    refine ⟨fun c hc => ?_, ?_⟩
    · rw [hwait] at hc
      rcases List.mem_append.mp hc with hc | hc
      · exact h.legible c hc
      · rw [List.mem_singleton.mp hc]
        exact hlegible
    · rw [hwait, List.map_append]
      refine (h.book.push hlegible.sound (fun k hk hheld => ?_) hcov).congr (fun k => ?_)
        fun k => ?_
      · exact Bool.false_ne_true ((hfree k hk).symm.trans hheld.2)
      · rw [hlock, hx, Option.isSome_some, Bool.true_and, Bool.or_eq_true]
        constructor
        · rintro ⟨hk, hheld | hheld⟩
          · exact Or.inl ⟨hk, hheld⟩
          · exact Or.inr ((hlocks k hk).mp hheld)
        · rintro (⟨hk, hheld⟩ | hheld)
          · exact ⟨hk, Or.inl hheld⟩
          · exact ⟨hheld.2.1, Or.inr ((hlocks k hheld.2.1).mpr hheld)⟩
      · exact hbal k

end Raft2PC
