import Mathlib.Algebra.Order.Group.Defs
import Mathlib.Algebra.Order.Monoid.Unbundled.Basic
import Mathlib.Data.List.Pairwise

/-! Payments that are promised first and made later, in the order of the promises. A promise
holds the items it will move money between, so that it finds them as they were when it was
made; a book of promises in which no item is held twice never overdraws. -/

namespace Escrow

variable {ι M : Type*} [AddCommGroup M] [LinearOrder M] [IsOrderedAddMonoid M]

structure Promise (ι M : Type*) where
  holds : ι → Prop
  takes : ι → M
  gives : ι → M

/-- A promise moves money between items it holds only. -/
structure Promise.Sound (j : Promise ι M) : Prop where
  gives : ∀ k, 0 ≤ j.gives k
  idle : ∀ k, ¬j.holds k → j.takes k = 0 ∧ j.gives k = 0

/-- The promises `q`, oldest first, the items marked as held, and the balances. -/
structure Book (q : List (Promise ι M)) (held : ι → Prop) (bal : ι → M) : Prop where
  sound : ∀ j ∈ q, j.Sound
  held_iff : ∀ k, held k ↔ ∃ j ∈ q, j.holds k
  apart : q.Pairwise fun i j => ∀ k, i.holds k → ¬j.holds k
  covered : ∀ j ∈ q, ∀ k, j.takes k ≤ bal k
  solvent : ∀ k, 0 ≤ bal k

namespace Book

variable {q : List (Promise ι M)} {j : Promise ι M} {held held' : ι → Prop} {bal bal' : ι → M}

omit [IsOrderedAddMonoid M] in
theorem nil (hheld : ∀ k, ¬held k) (hbal : ∀ k, 0 ≤ bal k) : Book [] held bal where
  sound j hj := absurd hj List.not_mem_nil
  held_iff k := by simp [hheld k]
  apart := List.Pairwise.nil
  covered j hj := absurd hj List.not_mem_nil
  solvent := hbal

omit [IsOrderedAddMonoid M] in
theorem congr (h : Book q held bal) (hheld : ∀ k, held' k ↔ held k) (hbal : ∀ k, bal' k = bal k) :
    Book q held' bal' where
  sound := h.sound
  held_iff k := (hheld k).trans (h.held_iff k)
  apart := h.apart
  covered j hj k := by rw [hbal]; exact h.covered j hj k
  solvent k := by rw [hbal]; exact h.solvent k

omit [IsOrderedAddMonoid M] in
/-- A promise that finds its items free and its money there. -/
theorem push (h : Book q held bal) (hj : j.Sound) (hfree : ∀ k, j.holds k → ¬held k)
    (hcov : ∀ k, j.takes k ≤ bal k) : Book (q ++ [j]) (fun k => held k ∨ j.holds k) bal where
  sound i hi := by
    rcases List.mem_append.mp hi with hi | hi
    · exact h.sound i hi
    · rw [List.mem_singleton.mp hi]
      exact hj
  held_iff k := by
    rw [h.held_iff]
    constructor
    · rintro (⟨i, hi, hk⟩ | hk)
      · exact ⟨i, List.mem_append_left _ hi, hk⟩
      · exact ⟨j, List.mem_append_right _ (List.mem_singleton_self j), hk⟩
    · rintro ⟨i, hi, hk⟩
      rcases List.mem_append.mp hi with hi | hi
      · exact Or.inl ⟨i, hi, hk⟩
      · rw [List.mem_singleton.mp hi] at hk
        exact Or.inr hk
  apart := by
    refine List.pairwise_append.mpr ⟨h.apart, List.pairwise_singleton _ _, ?_⟩
    intro i hi j' hj' k hik hjk
    rw [List.mem_singleton.mp hj'] at hjk
    exact hfree k hjk ((h.held_iff k).mpr ⟨i, hi, hik⟩)
  covered i hi := by
    rcases List.mem_append.mp hi with hi | hi
    · exact h.covered i hi
    · rw [List.mem_singleton.mp hi]
      exact hcov
  solvent := h.solvent

/-- The oldest promise is kept: its items are free again and the money has moved. -/
theorem pop (h : Book (j :: q) held bal) :
    Book q (fun k => held k ∧ ¬j.holds k) (fun k => bal k - j.takes k + j.gives k) := by
  have hjs := h.sound j List.mem_cons_self
  obtain ⟨hfar, hrest⟩ := List.pairwise_cons.mp h.apart
  have hnonneg : ∀ k, 0 ≤ bal k - j.takes k + j.gives k := fun k =>
    add_nonneg (sub_nonneg.mpr (h.covered j List.mem_cons_self k)) (hjs.gives k)
  refine ⟨fun i hi => h.sound i (List.mem_cons_of_mem _ hi), fun k => ?_, hrest,
    fun i hi k => ?_, hnonneg⟩
  · rw [h.held_iff]
    constructor
    · rintro ⟨⟨i, hi, hk⟩, hno⟩
      rcases List.mem_cons.mp hi with rfl | hi
      · exact absurd hk hno
      · exact ⟨i, hi, hk⟩
    · rintro ⟨i, hi, hk⟩
      exact ⟨⟨i, List.mem_cons_of_mem _ hi, hk⟩, fun hj => hfar i hi k hj hk⟩
  · by_cases hj : j.holds k
    · -- whoever else is in the book neither holds this item nor takes from it
      have hi' := (h.sound i (List.mem_cons_of_mem _ hi)).idle k (hfar i hi k hj)
      rw [hi'.1]
      exact hnonneg k
    · obtain ⟨htakes, hgives⟩ := hjs.idle k hj
      rw [htakes, hgives, sub_zero, add_zero]
      exact h.covered i (List.mem_cons_of_mem _ hi) k

end Book

end Escrow
