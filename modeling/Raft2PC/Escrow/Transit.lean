import Mathlib.Algebra.BigOperators.Group.Finset.Basic
import Mathlib.Algebra.BigOperators.Group.Finset.Sigma
import Mathlib.Algebra.BigOperators.Group.Finset.Piecewise
import Mathlib.Tactic.Abel

/-! Money between sites. A transfer is posted at its source and at its target, each in its own
time; what has left the one and not reached the other is in transit, and nothing else is
missing. -/

namespace Escrow

variable {σ ι M : Type*} [DecidableEq σ] [DecidableEq ι] [AddCommGroup M]

structure Remittance (σ M : Type*) where
  source : σ
  target : σ
  amount : M

/-- What a site gains from a transfer that is posted there. -/
def Remittance.gain (t : Remittance σ M) (s : σ) : M :=
  (if t.source = s then -t.amount else 0) + if t.target = s then t.amount else 0

/-- What has left the source of transfer `i` and not reached its target, or the other way about
if the target was the first. -/
def inTransit (posted : σ → Finset ι) (t : ι → Remittance σ M) (i : ι) : M :=
  (if i ∈ posted (t i).source then (t i).amount else 0) -
    if i ∈ posted (t i).target then (t i).amount else 0

variable {posted : σ → Finset ι} {t : ι → Remittance σ M} {sites : Finset σ} {B : Finset ι}

omit [DecidableEq σ] in
theorem inTransit_eq_zero {i : ι} (h : i ∈ posted (t i).source ↔ i ∈ posted (t i).target) :
    inTransit posted t i = 0 := by
  rw [inTransit]
  by_cases hi : i ∈ posted (t i).source
  · rw [if_pos hi, if_pos (h.mp hi), sub_self]
  · rw [if_neg hi, if_neg fun hi' => hi (h.mpr hi'), sub_self]

/-- What all sites gain from one transfer. -/
theorem sum_gain {i : ι} (hsource : (t i).source ∈ sites) (htarget : (t i).target ∈ sites) :
    ∑ s ∈ sites, (if i ∈ posted s then (t i).gain s else 0) = -inTransit posted t i := by
  have hsplit : ∀ s, (if i ∈ posted s then (t i).gain s else 0) =
      (if (t i).source = s then (if i ∈ posted s then -(t i).amount else 0) else 0) +
        if (t i).target = s then (if i ∈ posted s then (t i).amount else 0) else 0 := by
    intro s
    rw [Remittance.gain]
    split_ifs <;> simp
  rw [Finset.sum_congr rfl fun s _ => hsplit s, Finset.sum_add_distrib, Finset.sum_ite_eq,
    Finset.sum_ite_eq, if_pos hsource, if_pos htarget, inTransit, neg_sub]
  split_ifs <;> abel

/-- What the sites gain from all that is posted is what is in transit to them. -/
theorem sum_posted (hposted : ∀ s ∈ sites, posted s ⊆ B)
    (hends : ∀ i ∈ B, (t i).source ∈ sites ∧ (t i).target ∈ sites) :
    ∑ s ∈ sites, ∑ i ∈ posted s, (t i).gain s = -∑ i ∈ B, inTransit posted t i := by
  calc ∑ s ∈ sites, ∑ i ∈ posted s, (t i).gain s
      = ∑ s ∈ sites, ∑ i ∈ B, (if i ∈ posted s then (t i).gain s else 0) := by
        refine Finset.sum_congr rfl fun s hs => ?_
        rw [← Finset.sum_filter, Finset.filter_mem_eq_inter,
          Finset.inter_eq_right.mpr (hposted s hs)]
    _ = ∑ i ∈ B, ∑ s ∈ sites, (if i ∈ posted s then (t i).gain s else 0) := Finset.sum_comm
    _ = ∑ i ∈ B, -inTransit posted t i :=
        Finset.sum_congr rfl fun i hi => sum_gain (hends i hi).1 (hends i hi).2
    _ = -∑ i ∈ B, inTransit posted t i := Finset.sum_neg_distrib _

end Escrow
