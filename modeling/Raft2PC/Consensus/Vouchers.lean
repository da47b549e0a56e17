import Raft2PC.Consensus.Completeness

/-! Vouchers. The leader that appends an entry may hold a voucher for it and cash it once the
entry is chosen. Nobody else gets one for this entry, so that what no log says twice is cashed
at most once, by all nodes together. -/

namespace Consensus

variable {ν ε κ : Type*}

namespace History

/-- `P` holds of every log and of all that a leader ever had in its log. -/
structure Everywhere (h : History ν ε) (P : List ε → Prop) : Prop where
  log : ∀ v, P (h.log v)
  leaderLog : ∀ T, P (h.leaderLog T)

/-- A voucher: an entry with its position. -/
abbrev Voucher (ε : Type*) := ℕ × ε

/-- The vouchers that the nodes hold, and those cashed so far. -/
structure Vouched (tm : ε → ℤ) [Fintype ν] (h : History ν ε) (held : ν → Set (Voucher ε))
    (cashed : List (Voucher ε)) : Prop where
  own : ∀ v, ∀ t ∈ held v,
    h.leader (tm t.2) = some v ∧ (h.leaderLog (tm t.2))[t.1]? = some t.2
  uncashed : ∀ v, ∀ t ∈ held v, t ∉ cashed
  chosen : ∀ t ∈ cashed, ∃ T L, h.Chosen tm T L ∧ L[t.1]? = some t.2
  nodup : cashed.Nodup

variable {tm : ε → ℤ} {P : List ε → Prop} {h h' : History ν ε} {held held' : ν → Set (Voucher ε)}
  {cashed : List (Voucher ε)}

/-! ### What prefixes inherit and appends keep -/

theorem Everywhere.elect (hP : h.Everywhere P) [DecidableEq ν] (c : ν) (T : ℤ) :
    (h.elect c T).Everywhere P where
  log := hP.log
  leaderLog U := by
    simp only [History.elect, Function.update_apply]
    split_ifs
    · exact hP.log c
    · exact hP.leaderLog U

theorem Everywhere.append (hP : h.Everywhere P) [DecidableEq ν] {c : ν} {e : ε}
    (hlead : h.log c = h.leaderLog (h.term c)) (hnew : P (h.log c ++ [e])) :
    (h.append c e).Everywhere P where
  log v := by
    simp only [History.append, Function.update_apply]
    split_ifs
    · exact hnew
    · exact hP.log v
  leaderLog U := by
    simp only [History.append, Function.update_apply, ← hlead]
    split_ifs
    · exact hnew
    · exact hP.leaderLog U

theorem Everywhere.accept (hP : h.Everywhere P) [DecidableEq ν] [DecidableEq ε]
    (hshort : ∀ L M, L <+: M → P M → P L) (v : ν) (T : ℤ) (m : ℕ) :
    (h.accept v T m).Everywhere P where
  log w := by
    simp only [History.accept, Function.update_apply, install]
    split_ifs
    · exact hP.log v
    · exact hshort _ _ (List.take_prefix m _) (hP.leaderLog T)
    · exact hP.log w
  leaderLog := hP.leaderLog

/-- What is chosen is the beginning of a leader's log. -/
theorem Chosen.inherits [Fintype ν] {T : ℤ} {L : List ε} (hL : h.Chosen tm T L) (hP : h.Everywhere P)
    (hshort : ∀ L M, L <+: M → P M → P L) (hnil : P []) : P L := by
  rcases hL with rfl | ⟨U, i, -, -, hL⟩
  · exact hnil
  · exact hshort _ _ (hL.trans (List.take_prefix _ _)) (hP.leaderLog U)

theorem Chosen.rooted [Fintype ν] {T : ℤ} {L : List ε} (hL : h.Chosen tm T L)
    (hm : h.Matched tm) : h.Rooted tm L := by
  rcases hL with rfl | ⟨U, i, -, -, hL⟩
  · exact .nil h
  · exact (hm.leaderLog U).of_isPrefix (hL.trans (List.take_prefix _ _))

/-! ### Vouchers are cashed once -/

section

variable [Fintype ν]

theorem Vouched.start : Vouched tm (start : History ν ε) (fun _ => ∅) [] where
  own _ t ht := absurd ht (Set.notMem_empty t)
  uncashed _ t ht := absurd ht (Set.notMem_empty t)
  chosen _ ht := absurd ht List.not_mem_nil
  nodup := List.nodup_nil

/-- Vouchers may be lost. -/
theorem Vouched.fewer (hV : Vouched tm h held cashed) (hm : h.Matched tm) (hx : Extends h h')
    (hheld : ∀ v, held' v ⊆ held v) : Vouched tm h' held' cashed where
  own v t ht := by
    obtain ⟨hlead, hget⟩ := hV.own v t (hheld v ht)
    exact ⟨hx.ballots.leader _ v hlead, getElem?_of_isPrefix (hx.leaderLog _ v hlead) hget⟩
  uncashed v t ht := hV.uncashed v t (hheld v ht)
  chosen t ht := by
    obtain ⟨T, L, hL, hget⟩ := hV.chosen t ht
    exact ⟨T, L, hL.extends hm hx, hget⟩
  nodup := hV.nodup

/-- The leader of a term gets the voucher for the entry that it appends: nobody was given one
for this position of its log before. -/
theorem Vouched.issue (hV : Vouched tm h held cashed) (hm : h.Matched tm) (hx : Extends h h')
    {c : ν} {e : ε} (hlead : h'.leader (tm e) = some c)
    (hget : (h'.leaderLog (tm e))[(h.leaderLog (tm e)).length]? = some e)
    (hheld : ∀ v, ∀ t ∈ held' v, t ∈ held v ∨ v = c ∧ t = ((h.leaderLog (tm e)).length, e)) :
    Vouched tm h' held' cashed := by
  have hold := hV.fewer hm hx fun _ => subset_rfl
  refine ⟨fun v t ht => ?_, fun v t ht => ?_, hold.chosen, hold.nodup⟩
  · rcases hheld v t ht with ht | ⟨rfl, rfl⟩
    · exact hold.own v t ht
    · exact ⟨hlead, hget⟩
  · rcases hheld v t ht with ht | ⟨rfl, rfl⟩
    · exact hold.uncashed v t ht
    · intro hmem
      -- what is cashed stands in the log of its leader already
      obtain ⟨T, L, hL, hget⟩ := hV.chosen _ hmem
      obtain ⟨-, htake, -⟩ := hL.rooted hm _ _ hget
      have hlen := htake.length_le
      have hlt := (List.getElem?_eq_some_iff.mp hget).1
      rw [List.length_take] at hlen
      dsimp only at hlt hlen
      omega

/-- Two nodes never hold the same voucher. -/
theorem Vouched.holder (hV : Vouched tm h held cashed) {v w : ν} {t : Voucher ε}
    (hv : t ∈ held v) (hw : t ∈ held w) : v = w :=
  Option.some.inj ((hV.own v t hv).1.symm.trans (hV.own w t hw).1)

/-- Nodes cash vouchers for chosen entries and give them away. -/
theorem Vouched.cash (hV : Vouched tm h held cashed) {new : List (Voucher ε)} (hnew : new.Nodup)
    (hcash : ∀ t ∈ new, ∃ v, t ∈ held v)
    (hchosen : ∀ t ∈ new, ∃ T L, h.Chosen tm T L ∧ L[t.1]? = some t.2)
    (hheld : ∀ v, ∀ t ∈ held' v, t ∈ held v ∧ t ∉ new) :
    Vouched tm h held' (cashed ++ new) where
  own v t ht := hV.own v t (hheld v t ht).1
  uncashed v t ht := by
    rw [List.mem_append, not_or]
    exact ⟨hV.uncashed v t (hheld v t ht).1, (hheld v t ht).2⟩
  chosen t ht := (List.mem_append.mp ht).elim (hV.chosen t) (hchosen t)
  nodup := by
    refine List.nodup_append.mpr ⟨hV.nodup, hnew, ?_⟩
    rintro t ht t' ht' rfl
    obtain ⟨v, hv⟩ := hcash t ht'
    exact hV.uncashed v t hv ht

/-- What chosen entries say at most once is cashed at most once. -/
theorem Vouched.once (hV : Vouched tm h held cashed) (hm : h.Matched tm) (hk : h.Kept)
    (hcare : h.Careful tm) (about : ε → Option κ)
    (honce : ∀ T L, h.Chosen tm T L → ∀ (i j : ℕ) (a b : ε) (k : κ), L[i]? = some a →
      L[j]? = some b → about a = some k → about b = some k → i = j) :
    (cashed.filterMap fun t => about t.2).Nodup := by
  rw [List.Nodup, List.pairwise_filterMap]
  refine hV.nodup.imp_of_mem fun {t t'} ht ht' hne k hk' k' hk'' => ?_
  rintro rfl
  apply hne
  obtain ⟨T, L, hL, hget⟩ := hV.chosen t ht
  obtain ⟨T', L', hL', hget'⟩ := hV.chosen t' ht'
  -- both entries stand in the longer of the two lists
  obtain ⟨U, M, hM, hM₁, hM₂⟩ : ∃ U M, h.Chosen tm U M ∧ M[t.1]? = some t.2 ∧
      M[t'.1]? = some t'.2 := by
    rcases hL.comparable hm hk hcare hL' with hp | hp
    · exact ⟨T', L', hL', getElem?_of_isPrefix hp hget, hget'⟩
    · exact ⟨T, L, hL, hget, getElem?_of_isPrefix hp hget'⟩
  have hpos := honce U M hM _ _ _ _ k hM₁ hM₂ hk' hk''
  rw [hpos, hM₂] at hM₁
  exact Prod.ext hpos (Option.some.inj hM₁).symm

end

end History

end Consensus
