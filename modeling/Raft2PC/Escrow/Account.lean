import Mathlib.Algebra.BigOperators.Group.List.Basic
import Mathlib.Algebra.Order.Group.Defs

/-! Accounts kept as a list of postings. A list is solvent if nothing is ever overdrawn
while it is posted from the left, so each of its prefixes is solvent too. -/

namespace Escrow

variable {ι M : Type*} [AddCommGroup M]

/-- What item `k` holds once the postings `L` are made. -/
def worth (b : ι → M) (L : List (ι → M)) (k : ι) : M := b k + (L.map fun d => d k).sum

@[simp] theorem worth_nil (b : ι → M) (k : ι) : worth b [] k = b k := by
  rw [worth, List.map_nil, List.sum_nil, add_zero]

theorem worth_append (b : ι → M) (L L' : List (ι → M)) (k : ι) :
    worth b (L ++ L') k = worth b L k + (L'.map fun d => d k).sum := by
  rw [worth, worth, List.map_append, List.sum_append, add_assoc]

theorem worth_concat (b : ι → M) (L : List (ι → M)) (d : ι → M) (k : ι) :
    worth b (L ++ [d]) k = worth b L k + d k := by
  rw [worth_append, List.map_singleton, List.sum_singleton]

/-- Postings that pass an item by leave it as it was. -/
theorem worth_append_idle {b : ι → M} {L L' : List (ι → M)} {k : ι} (h : ∀ d ∈ L', d k = 0) :
    worth b (L ++ L') k = worth b L k := by
  rw [worth_append, List.sum_eq_zero, add_zero]
  intro x hx
  obtain ⟨d, hd, rfl⟩ := List.mem_map.mp hx
  exact h d hd

variable [LinearOrder M]

def Solvent (b : ι → M) (L : List (ι → M)) : Prop := ∀ P, P <+: L → ∀ k, 0 ≤ worth b P k

namespace Solvent

variable {b : ι → M} {L L' : List (ι → M)}

theorem nil (hb : ∀ k, 0 ≤ b k) : Solvent b [] := by
  intro P hP k
  rw [List.prefix_nil.mp hP, worth_nil]
  exact hb k

theorem of_isPrefix (h : Solvent b L) (hp : L' <+: L) : Solvent b L' :=
  fun P hP => h P (hP.trans hp)

theorem concat (h : Solvent b L) {d : ι → M} (hd : ∀ k, 0 ≤ worth b L k + d k) :
    Solvent b (L ++ [d]) := by
  intro P hP k
  rcases List.prefix_concat_iff.mp hP with rfl | hP
  · rw [worth_concat]
    exact hd k
  · exact h P hP k

end Solvent

end Escrow
