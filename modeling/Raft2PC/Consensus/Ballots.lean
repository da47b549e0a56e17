import Mathlib.Data.Fintype.Card
import Mathlib.Data.Finset.Card
import Mathlib.Algebra.Order.Group.Int
import Mathlib.Tactic.Common

/-! Terms, votes and leaders. Every node casts at most one vote in a term and a leader
has the votes of more than half of the nodes, so a term has at most one leader. -/

namespace Consensus

variable {ν : Type*}

/-- More than half of the nodes. -/
def Quorum [Fintype ν] (Q : Finset ν) : Prop := Fintype.card ν < 2 * Q.card

theorem Quorum.meet [Fintype ν] {P Q : Finset ν} (hP : Quorum P) (hQ : Quorum Q) :
    ∃ v, v ∈ P ∧ v ∈ Q := by
  classical
  unfold Quorum at hP hQ
  have hsum : (Finset.univ : Finset ν).card < P.card + Q.card := by
    rw [Finset.card_univ]; omega
  obtain ⟨v, hv⟩ := Finset.inter_nonempty_of_card_lt_card_add_card
    (Finset.subset_univ P) (Finset.subset_univ Q) hsum
  exact ⟨v, Finset.mem_inter.mp hv⟩

/-- Who is in which term, who voted for whom, and who won. Votes and wins are never
forgotten. -/
structure Ballots (ν : Type*) where
  term : ν → ℤ
  vote : ν → ℤ → Option ν
  leader : ℤ → Option ν

namespace Ballots

def start : Ballots ν where
  term _ := 0
  vote _ _ := none
  leader _ := none

/-- Node `c` becomes the leader of term `T`. -/
def elect (b : Ballots ν) (c : ν) (T : ℤ) : Ballots ν :=
  { b with leader := Function.update b.leader T (some c) }

/-- Everything on record in `b` is on record in `b'`. -/
structure Extends (b b' : Ballots ν) : Prop where
  term : ∀ v, b.term v ≤ b'.term v
  vote : ∀ v T c, b.vote v T = some c → b'.vote v T = some c
  leader : ∀ T c, b.leader T = some c → b'.leader T = some c

theorem Extends.refl (b : Ballots ν) : Extends b b :=
  ⟨fun _ => le_rfl, fun _ _ _ h => h, fun _ _ h => h⟩

theorem Extends.trans {a b c : Ballots ν} (h₁ : Extends a b) (h₂ : Extends b c) : Extends a c :=
  ⟨fun v => (h₁.term v).trans (h₂.term v), fun v T d h => h₂.vote v T d (h₁.vote v T d h),
    fun T d h => h₂.leader T d (h₁.leader T d h)⟩

section
variable [DecidableEq ν]

/-- Node `v` moves to term `T` without voting. -/
def advance (b : Ballots ν) (v : ν) (T : ℤ) : Ballots ν :=
  { b with term := Function.update b.term v T }

/-- Node `v` moves to term `T` and votes for `c`. -/
def cast (b : Ballots ν) (v : ν) (T : ℤ) (c : ν) : Ballots ν :=
  { b with
    term := Function.update b.term v T
    vote := Function.update b.vote v (Function.update (b.vote v) T (some c)) }

theorem cast_vote (b : Ballots ν) (v w c : ν) (T U : ℤ) :
    (b.cast v T c).vote w U = if w = v ∧ U = T then some c else b.vote w U := by
  simp only [cast, Function.update_apply]
  by_cases hw : w = v
  · subst hw
    by_cases hU : U = T <;> simp [hU]
  · simp [hw]

theorem update_term_le {b : Ballots ν} {v : ν} {T : ℤ} (hT : b.term v ≤ T) (w : ν) :
    b.term w ≤ Function.update b.term v T w := by
  rw [Function.update_apply]
  split_ifs with h
  · subst h; exact hT
  · exact le_rfl

theorem extends_advance {b : Ballots ν} {v : ν} {T : ℤ} (hT : b.term v ≤ T) :
    Extends b (b.advance v T) :=
  ⟨update_term_le hT, fun _ _ _ h => h, fun _ _ h => h⟩

theorem extends_cast {b : Ballots ν} {v c : ν} {T : ℤ} (hT : b.term v ≤ T)
    (hfree : b.vote v T = none) : Extends b (b.cast v T c) := by
  refine ⟨update_term_le hT, fun w U d h => ?_, fun _ _ h => h⟩
  rw [cast_vote, if_neg]
  · exact h
  · rintro ⟨rfl, rfl⟩
    simp [hfree] at h

end

variable [Fintype ν]

structure Valid (b : Ballots ν) : Prop where
  vote_le : ∀ v T c, b.vote v T = some c → T ≤ b.term v
  elected : ∀ T c, b.leader T = some c → ∃ Q, Quorum Q ∧ ∀ v ∈ Q, b.vote v T = some c

/-- Nobody has voted in a term it has not reached. -/
theorem Valid.free_above {b : Ballots ν} (hb : Valid b) {v : ν} {T : ℤ} (hT : b.term v < T) :
    b.vote v T = none := by
  cases hcase : b.vote v T with
  | none => rfl
  | some c => exact absurd (hb.vote_le v T c hcase) (not_le.mpr hT)

theorem start_valid : Valid (start : Ballots ν) :=
  ⟨fun _ _ _ h => by simp [start] at h, fun _ _ h => by simp [start] at h⟩

theorem Valid.elect {b : Ballots ν} (hb : Valid b) {c : ν} {T : ℤ} {Q : Finset ν}
    (hQ : Quorum Q) (hvote : ∀ v ∈ Q, b.vote v T = some c) : Valid (b.elect c T) := by
  refine ⟨hb.vote_le, fun U d h => ?_⟩
  simp only [Ballots.elect, Function.update_apply] at h
  split_ifs at h with hU
  · cases h; subst hU
    exact ⟨Q, hQ, hvote⟩
  · exact hb.elected U d h

/-- Two quorums of votes in one term are for the same node. -/
theorem Valid.leader_unique {b : Ballots ν} (hb : Valid b) {c d : ν} {T : ℤ} {Q : Finset ν}
    (hQ : Quorum Q) (hvote : ∀ v ∈ Q, b.vote v T = some c) (hd : b.leader T = some d) :
    c = d := by
  obtain ⟨P, hP, hvoteP⟩ := hb.elected T d hd
  obtain ⟨v, hvQ, hvP⟩ := hQ.meet hP
  exact Option.some.inj ((hvote v hvQ).symm.trans (hvoteP v hvP))

theorem Valid.extends_elect {b : Ballots ν} (hb : Valid b) {c : ν} {T : ℤ} {Q : Finset ν}
    (hQ : Quorum Q) (hvote : ∀ v ∈ Q, b.vote v T = some c) : Extends b (b.elect c T) := by
  refine ⟨fun _ => le_rfl, fun _ _ _ h => h, fun U d h => ?_⟩
  simp only [Ballots.elect, Function.update_apply]
  split_ifs with hU
  · subst hU
    rw [hb.leader_unique hQ hvote h]
  · exact h

variable [DecidableEq ν]

theorem Valid.advance {b : Ballots ν} (hb : Valid b) {v : ν} {T : ℤ} (hT : b.term v ≤ T) :
    Valid (b.advance v T) :=
  ⟨fun w U c h => (hb.vote_le w U c h).trans (update_term_le hT w), hb.elected⟩

theorem Valid.cast {b : Ballots ν} (hb : Valid b) {v c : ν} {T : ℤ} (hT : b.term v ≤ T)
    (hfree : b.vote v T = none) : Valid (b.cast v T c) := by
  refine ⟨fun w U d h => ?_, fun U d h => ?_⟩
  · rw [cast_vote] at h
    split_ifs at h with hwU
    · simp [Ballots.cast, hwU.1, hwU.2]
    · exact (hb.vote_le w U d h).trans (update_term_le hT w)
  · obtain ⟨Q, hQ, hvote⟩ := hb.elected U d h
    exact ⟨Q, hQ, fun w hw => (extends_cast hT hfree).vote w U d (hvote w hw)⟩

end Ballots

end Consensus
