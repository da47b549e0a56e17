import Mathlib.Data.Prod.Lex
import Mathlib.Order.WellFounded

/-! Progress by descent. Whoever can always go on to its goal or to a smaller rank comes to its
goal in the end. -/

namespace Consensus

variable {σ ρ : Type*} [LT ρ] [WellFoundedLT ρ]

theorem exists_goal {R : σ → σ → Prop} (htrans : ∀ {a b c}, R a b → R b c → R a c)
    {P G : σ → Prop} (rank : σ → ρ)
    (hnext : ∀ s, P s → (∃ t, R s t ∧ G t) ∨ ∃ t, R s t ∧ P t ∧ rank t < rank s) {s : σ}
    (hs : P s) : ∃ t, R s t ∧ G t := by
  induction hr : rank s using WellFoundedLT.induction generalizing s with
  | ind r ih =>
    rcases hnext s hs with hgoal | ⟨t, hst, ht, hlt⟩
    · exact hgoal
    · obtain ⟨g, htg, hg⟩ := ih (rank t) (hr ▸ hlt) ht rfl
      exact ⟨g, htrans hst htg, hg⟩

end Consensus
