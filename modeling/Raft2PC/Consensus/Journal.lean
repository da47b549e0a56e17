import Mathlib.Data.List.Infix
import Mathlib.Tactic.Common

/-! A journal with readers. Entries are only ever added at its end, and what a reader has seen
is a prefix of it. Lists that are prefixes of one another make up such a journal: the longest
of them. -/

namespace Consensus

variable {ν ε : Type*}

/-- A journal and how far each node has read it. -/
structure Journal (ν ε : Type*) where
  entries : List ε
  read : ν → ℕ

namespace Journal

def view (j : Journal ν ε) (v : ν) : List ε := j.entries.take (j.read v)

/-- The journal grows at its end, and nobody reads past it. -/
structure Step (j j' : Journal ν ε) : Prop where
  grows : j.entries <+: j'.entries
  inside : ∀ v, j'.read v ≤ j'.entries.length

theorem view_isPrefix (j : Journal ν ε) (v : ν) : j.view v <+: j.entries := List.take_prefix _ _

/-- Who has read `n` entries of a prefix has read the prefix up to `n`. -/
theorem view_eq {j : Journal ν ε} {v : ν} {L : List ε} (hL : L <+: j.entries)
    (hread : j.read v = L.length) : j.view v = L := by
  rw [view, hread]
  exact (List.prefix_iff_eq_take.mp hL).symm

end Journal

/-! ### The longest of several lists -/

def longer (L M : List ε) : List ε := if L.length < M.length then M else L

/-- The longest of `L` and of the lists in `views`. -/
def extend (L : List ε) (views : List (List ε)) : List ε := views.foldl longer L

theorem longer_mem {C : List ε → Prop} {L M : List ε} (hL : C L) (hM : C M) : C (longer L M) := by
  unfold longer
  split_ifs
  · exact hM
  · exact hL

theorem isPrefix_longer {L M : List ε} (h : L <+: M ∨ M <+: L) :
    L <+: longer L M ∧ M <+: longer L M := by
  unfold longer
  split_ifs with hlt
  · refine ⟨h.resolve_right fun hML => ?_, List.prefix_refl M⟩
    have := hML.length_le
    omega
  · refine ⟨List.prefix_refl L, h.elim (fun hLM => ?_) id⟩
    rw [hLM.eq_of_length_le (not_lt.mp hlt)]

section
variable {C : List ε → Prop} {L : List ε} {views : List (List ε)}

theorem extend_mem (hL : C L) (hviews : ∀ M ∈ views, C M) : C (extend L views) := by
  induction views generalizing L with
  | nil => exact hL
  | cons M views ih =>
    exact ih (longer_mem hL (hviews M List.mem_cons_self)) fun N hN =>
      hviews N (List.mem_cons_of_mem M hN)

/-- In a chain the longest list has all the others as prefixes. -/
theorem isPrefix_extend (hC : ∀ L M, C L → C M → L <+: M ∨ M <+: L) (hL : C L)
    (hviews : ∀ M ∈ views, C M) :
    L <+: extend L views ∧ ∀ M ∈ views, M <+: extend L views := by
  induction views generalizing L with
  | nil => exact ⟨List.prefix_refl L, fun _ hM => absurd hM List.not_mem_nil⟩
  | cons M views ih =>
    have hM := hviews M List.mem_cons_self
    obtain ⟨hL', hM'⟩ := isPrefix_longer (hC L M hL hM)
    obtain ⟨hlong, hrest⟩ := ih (longer_mem hL hM) fun N hN =>
      hviews N (List.mem_cons_of_mem M hN)
    refine ⟨hL'.trans hlong, fun N hN => ?_⟩
    rcases List.mem_cons.mp hN with rfl | hN
    · exact hM'.trans hlong
    · exact hrest N hN

end

end Consensus
