import Mathlib.Algebra.Order.Group.Multiset

/-! A shared list of items and its three kinds of writers. Producers put items at its end.
A drain copies the list, hands the items out one by one and then empties the list. A sweep
copies it too, keeps or drops each item and then writes back what it kept. As long as none
of them overwrites what another has changed, every item leaves the list once. -/

namespace Dispatch

structure Backlog (α : Type*) where
  queue : List α
  /-- for each drain under way, what it has still to hand out -/
  drains : Multiset (List α)
  /-- what the sweep has not come to, and what it keeps -/
  sweep : Option (List α × List α)

inductive Move (α : Type*) where
  | put (items : List α)
  /-- a drain starts and hands out the first item -/
  | start (a : α)
  | next (a : α)
  | finish
  /-- a drain ends before its end -/
  | quit
  | copy
  | keep
  | drop (a : α)
  | write
  /-- the sweep ends before its end -/
  | crash
deriving DecidableEq

variable {α : Type*}

namespace Move

def puts : Move α → Multiset α
  | .put items => items
  | _ => 0

def handed : Move α → Multiset α
  | .start a | .next a => {a}
  | _ => 0

def dropped : Move α → Multiset α
  | .drop a => {a}
  | _ => 0

end Move

inductive Step : Backlog α → Move α → Backlog α → Prop
  | put (b : Backlog α) (items : List α) :
      Step b (.put items) { b with queue := b.queue ++ items }
  | start {b : Backlog α} {a : α} {rest : List α} (h : b.queue = a :: rest) :
      Step b (.start a) { b with drains := rest ::ₘ b.drains }
  | next {b : Backlog α} {a : α} {rest : List α} {D : Multiset (List α)}
      (h : b.drains = (a :: rest) ::ₘ D) : Step b (.next a) { b with drains := rest ::ₘ D }
  | finish {b : Backlog α} {D : Multiset (List α)} (h : b.drains = [] ::ₘ D) :
      Step b .finish { b with queue := [], drains := D }
  | quit {b : Backlog α} {rest : List α} {D : Multiset (List α)} (h : b.drains = rest ::ₘ D) :
      Step b .quit { b with drains := D }
  | copy {b : Backlog α} (h : b.sweep = none) :
      Step b .copy { b with sweep := some (b.queue, []) }
  | keep {b : Backlog α} {a : α} {rest kept : List α} (h : b.sweep = some (a :: rest, kept)) :
      Step b .keep { b with sweep := some (rest, kept ++ [a]) }
  | drop {b : Backlog α} {a : α} {rest kept : List α} (h : b.sweep = some (a :: rest, kept)) :
      Step b (.drop a) { b with sweep := some (rest, kept) }
  | write {b : Backlog α} {kept : List α} (h : b.sweep = some ([], kept)) :
      Step b .write { b with queue := kept, sweep := none }
  | crash (b : Backlog α) : Step b .crash { b with sweep := none }

namespace Backlog

/-- The move does not come between another writer's copy and what that writer makes of it. -/
def Orderly (b : Backlog α) : Move α → Prop
  | .put _ => b.drains.card = 0 ∧ b.sweep = none
  | .start _ => b.drains.card = 0 ∧ ∀ x ∈ b.sweep, x.2 ++ x.1 = b.queue
  | .finish => b.sweep = none
  | .drop _ => b.drains.card = 0
  | .quit | .crash => False
  | _ => True

instance [DecidableEq α] (b : Backlog α) : DecidablePred b.Orderly
  | .put _ => inferInstanceAs (Decidable (b.drains.card = 0 ∧ b.sweep = none))
  | .start _ =>
    inferInstanceAs (Decidable (b.drains.card = 0 ∧ ∀ x ∈ b.sweep, x.2 ++ x.1 = b.queue))
  | .finish => inferInstanceAs (Decidable (b.sweep = none))
  | .drop _ => inferInstanceAs (Decidable (b.drains.card = 0))
  | .quit | .crash => inferInstanceAs (Decidable False)
  | .next _ | .copy | .keep | .write => inferInstanceAs (Decidable True)

/-- What has not left the list yet: what a drain has still to hand out, else what the sweep
will write back, else the list. -/
def Waiting (b : Backlog α) (waiting : List α) : Prop :=
  match b.sweep with
  | none => b.drains = {waiting} ∨ b.drains = 0 ∧ waiting = b.queue
  | some (rest, kept) =>
    b.drains = {waiting} ∧ kept ++ rest = b.queue ∨ b.drains = 0 ∧ waiting = kept ++ rest

/-- Of the items `puts` put so far, those that have not left are still in the list. -/
def Settled (puts out : Multiset α) (b : Backlog α) : Prop :=
  ∃ waiting : List α, puts = (waiting : Multiset α) + out ∧ List.Sublist waiting b.queue ∧
    b.Waiting waiting

variable {b b' : Backlog α} {puts out : Multiset α} {m : Move α} {waiting : List α}

theorem settled_empty : Settled 0 0 (⟨[], 0, none⟩ : Backlog α) :=
  ⟨[], rfl, List.Sublist.refl _, Or.inr ⟨rfl, rfl⟩⟩

theorem Settled.out_le (h : Settled puts out b) : out ≤ puts := by
  obtain ⟨waiting, rfl, -⟩ := h
  exact Multiset.le_add_left _ _

theorem Settled.le_queue (h : Settled puts out b) : puts ≤ (b.queue : Multiset α) + out := by
  obtain ⟨waiting, rfl, hsub, -⟩ := h
  exact Multiset.add_le_add_right (Multiset.coe_le.mpr hsub.subperm)

/-- A drain under way is the only one, and the sweep has dropped nothing. -/
theorem Waiting.draining (h : b.Waiting waiting) {rest : List α} {D : Multiset (List α)}
    (hd : b.drains = rest ::ₘ D) :
    waiting = rest ∧ D = 0 ∧ ∀ x ∈ b.sweep, x.2 ++ x.1 = b.queue := by
  have honly : b.drains = {waiting} → waiting = rest ∧ D = 0 := by
    intro hw
    have hone : rest ::ₘ D = {waiting} := hd.symm.trans hw
    have hD : D = 0 := by
      have hcard := congrArg Multiset.card hone
      rw [Multiset.card_cons, Multiset.card_singleton] at hcard
      exact Multiset.card_eq_zero.mp (by omega)
    rw [hD, Multiset.cons_zero] at hone
    exact ⟨(Multiset.singleton_inj.mp hone).symm, hD⟩
  have hnot : b.drains ≠ 0 := by
    rw [hd]
    exact Multiset.cons_ne_zero
  unfold Waiting at h
  cases hsweep : b.sweep with
  | none =>
    rw [hsweep] at h
    obtain ⟨hw, hD⟩ := honly (h.resolve_right fun hr => hnot hr.1)
    exact ⟨hw, hD, fun x hx => absurd hx (by simp)⟩
  | some x =>
    rw [hsweep] at h
    obtain ⟨hone, hcopy⟩ := h.resolve_right fun hr => hnot hr.1
    obtain ⟨hw, hD⟩ := honly hone
    refine ⟨hw, hD, fun y hy => ?_⟩
    rw [← Option.some.inj hy]
    exact hcopy

/-- Without a drain, the list waits, or what the sweep will write back. -/
theorem Waiting.idle (h : b.Waiting waiting) (hno : b.drains.card = 0) :
    b.drains = 0 ∧ (b.sweep = none → waiting = b.queue) ∧ ∀ x ∈ b.sweep, waiting = x.2 ++ x.1 := by
  have hzero := Multiset.card_eq_zero.mp hno
  have hnot : b.drains ≠ {waiting} := by
    rw [hzero]
    exact (Multiset.singleton_ne_zero waiting).symm
  unfold Waiting at h
  cases hsweep : b.sweep with
  | none =>
    rw [hsweep] at h
    exact ⟨hzero, fun _ => (h.resolve_left hnot).2, fun x hx => absurd hx (by simp)⟩
  | some x =>
    rw [hsweep] at h
    refine ⟨hzero, fun hnone => absurd hnone (by simp), fun y hy => ?_⟩
    rw [← Option.some.inj hy]
    exact (h.resolve_left fun hl => hnot hl.1).2

/-- Handing out or dropping `a` moves it from what waits to what is out. -/
theorem leaves (a : α) (l r : List α) (out : Multiset α) :
    ((l ++ a :: r : List α) : Multiset α) + out = ((l ++ r : List α) : Multiset α) + (out + {a}) := by
  have hfront : ((l ++ a :: r : List α) : Multiset α) = a ::ₘ ((l ++ r : List α) : Multiset α) :=
    Multiset.coe_eq_coe.mpr List.perm_middle
  calc ((l ++ a :: r : List α) : Multiset α) + out
      = {a} + ((l ++ r : List α) : Multiset α) + out := by rw [hfront, Multiset.singleton_add]
    _ = ((l ++ r : List α) : Multiset α) + (out + {a}) := by
      rw [add_comm ({a} : Multiset α), add_assoc, add_comm ({a} : Multiset α)]

/-- An orderly step keeps the account. -/
theorem Settled.step (h : Settled puts out b) (hs : Step b m b') (hok : b.Orderly m) :
    Settled (puts + m.puts) (out + (m.handed + m.dropped)) b' := by
  obtain ⟨waiting, rfl, hsub, hw⟩ := h
  have hquiet : ∀ w : Multiset α, w + out + 0 = w + (out + (0 + 0)) := fun w => by
    rw [add_zero, add_zero, add_zero]
  cases hs with
  | quit | crash => exact hok.elim
  | put items =>
    obtain ⟨hno, hsweep⟩ := hok
    obtain ⟨hd, hq, -⟩ := hw.idle hno
    obtain rfl := hq hsweep
    refine ⟨b.queue ++ items, ?_, List.Sublist.refl _, ?_⟩
    · simp only [Move.puts, Move.handed, Move.dropped, add_zero, ← Multiset.coe_add]
      exact add_right_comm _ _ _
    · rw [Waiting, hsweep]
      exact Or.inr ⟨hd, rfl⟩
  | @start a rest hqueue =>
    obtain ⟨hno, hcopy⟩ := hok
    obtain ⟨hd, hq, hsw⟩ := hw.idle hno
    have hall : waiting = a :: rest := by
      rw [← hqueue]
      cases hsweep : b.sweep with
      | none => exact hq hsweep
      | some x => exact (hsw x hsweep).trans (hcopy x hsweep)
    refine ⟨rest, ?_, ?_, ?_⟩
    · simp only [Move.puts, Move.handed, Move.dropped, add_zero, hall]
      exact leaves a [] rest out
    · exact hqueue ▸ List.sublist_cons_self a rest
    · rw [Waiting, hd, Multiset.cons_zero]
      cases hsweep : b.sweep with
      | none => exact Or.inl rfl
      | some x => exact Or.inl ⟨rfl, hcopy x hsweep⟩
  | @next a rest D hdrains =>
    obtain ⟨rfl, rfl, hcopy⟩ := hw.draining hdrains
    refine ⟨rest, ?_, (List.sublist_cons_self a rest).trans hsub, ?_⟩
    · simp only [Move.puts, Move.handed, Move.dropped, add_zero]
      exact leaves a [] rest out
    · rw [Waiting, Multiset.cons_zero]
      cases hsweep : b.sweep with
      | none => exact Or.inl rfl
      | some x => exact Or.inl ⟨rfl, hcopy x hsweep⟩
  | finish hdrains =>
    have hsweep : b.sweep = none := hok
    obtain ⟨rfl, rfl, -⟩ := hw.draining hdrains
    refine ⟨[], hquiet _, List.Sublist.refl _, ?_⟩
    rw [Waiting, hsweep]
    exact Or.inr ⟨rfl, rfl⟩
  | copy hsweep =>
    refine ⟨waiting, hquiet _, hsub, ?_⟩
    rw [Waiting, hsweep] at hw
    exact hw.imp (fun hd => ⟨hd, rfl⟩) fun hd => hd
  | @keep a rest kept hsweep =>
    have hshift : kept ++ [a] ++ rest = kept ++ a :: rest := by
      rw [List.append_assoc, List.singleton_append]
    refine ⟨waiting, hquiet _, hsub, ?_⟩
    rw [Waiting, hsweep] at hw
    show _ ∧ kept ++ [a] ++ rest = b.queue ∨ _ ∧ waiting = kept ++ [a] ++ rest
    rw [hshift]
    exact hw
  | @drop a rest kept hsweep =>
    obtain ⟨hd, -, hrest⟩ := hw.idle hok
    obtain rfl := hrest _ hsweep
    have hless : (kept ++ rest).Sublist (kept ++ a :: rest) :=
      List.Sublist.append_left (List.sublist_cons_self a rest) kept
    refine ⟨kept ++ rest, ?_, hless.trans hsub, Or.inr ⟨hd, rfl⟩⟩
    simp only [Move.puts, Move.handed, Move.dropped, add_zero, zero_add]
    exact leaves a kept rest out
  | @write kept hsweep =>
    rw [Waiting, hsweep] at hw
    dsimp only at hw
    rw [List.append_nil] at hw
    refine ⟨waiting, hquiet _, ?_, ?_⟩
    · rcases hw with ⟨-, hcopy⟩ | ⟨-, hall⟩
      · exact hcopy ▸ hsub
      · exact hall ▸ List.Sublist.refl _
    · exact hw.imp_left And.left

/-- `P` holds of every item in the list and in the copies of it. -/
structure All (P : α → Prop) (b : Backlog α) : Prop where
  queue : ∀ a ∈ b.queue, P a
  drains : ∀ d ∈ b.drains, ∀ a ∈ d, P a
  sweep : ∀ x ∈ b.sweep, (∀ a ∈ x.1, P a) ∧ ∀ a ∈ x.2, P a

theorem All.step {P : α → Prop} (h : All P b) (hs : Step b m b') (hput : ∀ a ∈ m.puts, P a) :
    All P b' := by
  cases hs with
  | put items =>
    refine ⟨fun a ha => ?_, h.drains, h.sweep⟩
    rcases List.mem_append.mp ha with ha | ha
    · exact h.queue a ha
    · exact hput a ha
  | start hqueue =>
    refine ⟨h.queue, fun d hd a ha => ?_, h.sweep⟩
    rcases Multiset.mem_cons.mp hd with rfl | hd
    · exact h.queue a (hqueue ▸ List.mem_cons_of_mem _ ha)
    · exact h.drains d hd a ha
  | next hdrains =>
    refine ⟨h.queue, fun d hd a ha => ?_, h.sweep⟩
    rcases Multiset.mem_cons.mp hd with rfl | hd
    · exact h.drains _ (hdrains ▸ Multiset.mem_cons_self _ _) a (List.mem_cons_of_mem _ ha)
    · exact h.drains d (hdrains ▸ Multiset.mem_cons_of_mem hd) a ha
  | finish hdrains =>
    exact ⟨fun a ha => absurd ha List.not_mem_nil,
      fun d hd => h.drains d (hdrains ▸ Multiset.mem_cons_of_mem hd), h.sweep⟩
  | quit hdrains =>
    exact ⟨h.queue, fun d hd => h.drains d (hdrains ▸ Multiset.mem_cons_of_mem hd), h.sweep⟩
  | copy hsweep =>
    refine ⟨h.queue, h.drains, fun x hx => ?_⟩
    rw [← Option.some.inj hx]
    exact ⟨h.queue, fun a ha => absurd ha List.not_mem_nil⟩
  | keep hsweep =>
    obtain ⟨hrest, hkept⟩ := h.sweep _ hsweep
    refine ⟨h.queue, h.drains, fun x hx => ?_⟩
    rw [← Option.some.inj hx]
    refine ⟨fun a ha => hrest a (List.mem_cons_of_mem _ ha), fun a ha => ?_⟩
    rcases List.mem_append.mp ha with ha | ha
    · exact hkept a ha
    · rw [List.mem_singleton.mp ha]
      exact hrest _ List.mem_cons_self
  | drop hsweep =>
    obtain ⟨hrest, hkept⟩ := h.sweep _ hsweep
    refine ⟨h.queue, h.drains, fun x hx => ?_⟩
    rw [← Option.some.inj hx]
    exact ⟨fun a ha => hrest a (List.mem_cons_of_mem _ ha), hkept⟩
  | write hsweep =>
    exact ⟨(h.sweep _ hsweep).2, h.drains, fun x hx => absurd hx (by simp)⟩
  | crash => exact ⟨h.queue, h.drains, fun x hx => absurd hx (by simp)⟩

end Backlog

end Dispatch
