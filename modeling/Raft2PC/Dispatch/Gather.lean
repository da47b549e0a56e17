import Mathlib.Data.List.Basic

/-! Calls that are made at once to the members of several groups. Waiting for them is over
when one has raised or all have returned. As long as no call raises before each group has
acknowledged, and none that returns leaves its group without hope of it, each group has
acknowledged when the wait is over. -/

namespace Gather

inductive Status where
  | pending
  | returned
  | raised
deriving DecidableEq

/-- A call to a member of group `group`, and whether that member has acknowledged it. -/
structure Call (κ : Type*) where
  group : κ
  status : Status
  acked : Bool

variable {κ : Type*}

/-- The wait for all calls is over. -/
def Over (calls : List (Call κ)) : Prop :=
  (∃ x ∈ calls, x.status = .raised) ∨ ∀ x ∈ calls, x.status = .returned

def Acked (calls : List (Call κ)) (k : κ) : Prop := ∃ x ∈ calls, x.group = k ∧ x.acked = true

/-- Each group has acknowledged or has a call that may still bring it, and if a call has
raised, each has acknowledged. -/
structure Covered (calls : List (Call κ)) : Prop where
  hope : ∀ x ∈ calls, Acked calls x.group ∨ ∃ y ∈ calls, y.group = x.group ∧ y.status = .pending
  raised : ∀ x ∈ calls, x.status = .raised → ∀ y ∈ calls, Acked calls y.group

/-- A change of call `i` that keeps the calls covered. -/
inductive Change (calls : List (Call κ)) (i : ℕ) (x : Call κ) : Call κ → Prop
  | ack (acked : Bool) (h : x.acked = true → acked = true) : Change calls i x { x with acked }
  | returns
      (h : Acked calls x.group ∨
        ∃ k y, k ≠ i ∧ calls[k]? = some y ∧ y.group = x.group ∧ y.status = .pending) :
      Change calls i x { x with status := .returned }
  | raises (h : ∀ y ∈ calls, Acked calls y.group) : Change calls i x { x with status := .raised }

variable {calls : List (Call κ)} {i : ℕ} {x x' : Call κ}

theorem covered_start (h : ∀ x ∈ calls, x.status = .pending) : Covered calls where
  hope x hx := Or.inr ⟨x, hx, rfl, h x hx⟩
  raised x hx hraised := by
    rw [h x hx] at hraised
    cases hraised

/-- When the wait is over, each group has acknowledged. -/
theorem Covered.acked (h : Covered calls) (hover : Over calls) :
    ∀ x ∈ calls, Acked calls x.group := by
  intro x hx
  rcases hover with ⟨y, hy, hraised⟩ | hall
  · exact h.raised y hy hraised x hx
  · rcases h.hope x hx with hacked | ⟨y, hy, -, hpending⟩
    · exact hacked
    · rw [hall y hy] at hpending
      cases hpending

theorem Change.group (h : Change calls i x x') : x'.group = x.group := by
  cases h <;> rfl

theorem Change.acked (h : Change calls i x x') : x.acked = true → x'.acked = true := by
  cases h with
  | ack acked h => exact h
  | returns | raises => exact id

theorem mem_changed (hi : calls[i]? = some x) : x' ∈ calls.set i x' := by
  obtain ⟨hlt, -⟩ := List.getElem?_eq_some_iff.mp hi
  exact List.mem_set hlt x'

theorem mem_other {k : ℕ} {y : Call κ} (hk : calls[k]? = some y) (hne : k ≠ i) :
    y ∈ calls.set i x' := by
  apply List.mem_of_getElem? (i := k)
  rw [List.getElem?_set_ne hne.symm]
  exact hk

theorem Acked.change {k : κ} (hi : calls[i]? = some x) (h : Change calls i x x')
    (hk : Acked calls k) : Acked (calls.set i x') k := by
  obtain ⟨y, hy, hgroup, hacked⟩ := hk
  obtain ⟨m, hm⟩ := List.getElem?_of_mem hy
  by_cases hmi : m = i
  · subst hmi
    obtain rfl : x = y := Option.some.inj (hi.symm.trans hm)
    exact ⟨x', mem_changed hi, h.group.trans hgroup, h.acked hacked⟩
  · exact ⟨y, mem_other hm hmi, hgroup, hacked⟩

theorem Covered.change (h : Covered calls) (hi : calls[i]? = some x) (hx : Change calls i x x') :
    Covered (calls.set i x') := by
  have hmem : x ∈ calls := List.mem_of_getElem? hi
  have hold : ∀ y ∈ calls.set i x', ∃ z ∈ calls, z.group = y.group := by
    intro y hy
    rcases List.mem_or_eq_of_mem_set hy with hy | rfl
    · exact ⟨y, hy, rfl⟩
    · exact ⟨x, hmem, hx.group.symm⟩
  constructor
  · intro y hy
    obtain ⟨z, hz, hzy⟩ := hold y hy
    rw [← hzy]
    rcases h.hope z hz with hacked | ⟨w, hw, hgroup, hpending⟩
    · exact Or.inl (hacked.change hi hx)
    · obtain ⟨m, hm⟩ := List.getElem?_of_mem hw
      by_cases hmi : m = i
      · subst hmi
        obtain rfl : x = w := Option.some.inj (hi.symm.trans hm)
        -- the call that gave hope is the one that changes
        cases hx with
        | ack acked h => exact Or.inr ⟨_, mem_changed hi, hgroup, hpending⟩
        | raises h =>
          exact Or.inl ((h z hz).change hi (.raises h))
        | returns hret =>
          rcases hret with hacked | ⟨k, v, hk, hv, hvgroup, hvpending⟩
          · rw [hgroup] at hacked
            exact Or.inl (hacked.change hi (.returns (Or.inl (hgroup ▸ hacked))))
          · exact Or.inr ⟨v, mem_other hv hk, hvgroup.trans hgroup, hvpending⟩
      · exact Or.inr ⟨w, mem_other hm hmi, hgroup, hpending⟩
  · intro y hy hraised z hz
    obtain ⟨w, hw, hwz⟩ := hold z hz
    rw [← hwz]
    have hall : ∀ v ∈ calls, Acked calls v.group := by
      rcases List.mem_or_eq_of_mem_set hy with hy | rfl
      · exact h.raised y hy hraised
      · cases hx with
        | ack acked h' => exact h.raised x hmem hraised
        | returns => cases hraised
        | raises h' => exact h'
    exact (hall w hw).change hi hx

end Gather
