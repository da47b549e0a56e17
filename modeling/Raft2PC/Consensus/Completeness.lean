import Raft2PC.Consensus.History

/-! Leader completeness. An entry of a leader's own term that a quorum has stored is in
the starting log of every later leader, provided votes go to candidates whose log is at
least as up to date as the voter's. Lists below such an entry are `Chosen`, and any two
chosen lists are prefixes of one another. -/

namespace Consensus

variable {ν ε : Type*}

namespace History

/-- Node `v` has stored the first `m` entries of the leader of term `T`, in that term. -/
def Stored (h : History ν ε) (v : ν) (T : ℤ) (m : ℕ) : Prop :=
  m ≤ h.acked v T ∨ (h.leader T = some v ∧ m ≤ (h.leaderLog T).length)

/-- `L` still has what was stored in term `T`, or a leader elected after `T` and no later
than `B` never had it. -/
def Held (h : History ν ε) (L : List ε) (T : ℤ) (m : ℕ) (B : ℤ) : Prop :=
  (h.leaderLog T).take m <+: L ∨
    ∃ U c, T < U ∧ U ≤ B ∧ h.leader U = some c ∧ ¬(h.leaderLog T).take m <+: h.startLog U

theorem Held.mono {h : History ν ε} {L : List ε} {T B B' : ℤ} {m : ℕ} (hL : h.Held L T m B)
    (hB : B ≤ B') : h.Held L T m B' := by
  rcases hL with hp | ⟨U, c, hTU, hUB, hc, hn⟩
  · exact Or.inl hp
  · exact Or.inr ⟨U, c, hTU, hUB.trans hB, hc, hn⟩

theorem Held.longer {h : History ν ε} {L M : List ε} {T B : ℤ} {m : ℕ} (hL : h.Held L T m B)
    (hp : L <+: M) : h.Held M T m B :=
  hL.imp_left fun h => h.trans hp

theorem Held.zero (h : History ν ε) (L : List ε) (T B : ℤ) : h.Held L T 0 B :=
  Or.inl (by simp)

/-- The invariant behind leader completeness: what a node stored stays in its log and in
the logs it votes with, up to the fault of a later leader. -/
structure Kept [Fintype ν] (h : History ν ε) : Prop where
  acked_le : ∀ v T, 0 < h.acked v T →
    T ≤ h.term v ∧ h.acked v T ≤ (h.leaderLog T).length ∧ h.leader T ≠ none
  keep : ∀ v T m, h.Stored v T m → h.Held (h.log v) T m (h.term v)
  keep_ballot : ∀ v T U m c, T < U → h.vote v U = some c → h.Stored v T m →
    h.Held (h.ballotLog v U) T m U
  elected : ∀ U c, h.leader U = some c → ∃ Q, Quorum Q ∧ ∀ v ∈ Q, h.vote v U = some c ∧
    ∀ T m, T < U → h.Stored v T m → h.Held (h.ballotLog v U) T m (U - 1)

/-- While the leader of a term is in that term, nobody else has an entry it created that
it has not got from the leader, directly or through somebody who had. -/
structure Copied (tm : ε → ℤ) (h : History ν ε) : Prop where
  log : ∀ T p v i e, h.leader T = some p → h.term p = T → v ≠ p → (h.log v)[i]? = some e →
    tm e = T → ∃ w, w ≠ p ∧ i < h.acked w T
  leaderLog : ∀ T U p i e, h.leader T = some p → h.term p = T → U ≠ T →
    (h.leaderLog U)[i]? = some e → tm e = T → ∃ w, w ≠ p ∧ i < h.acked w T

variable {tm : ε → ℤ} [Fintype ν] {h : History ν ε}

theorem Stored.bound (hk : h.Kept) (hm : h.Matched tm) {v : ν} {T : ℤ} {m : ℕ}
    (hs : h.Stored v T m) (hpos : 0 < m) :
    T ≤ h.term v ∧ m ≤ (h.leaderLog T).length ∧ h.leader T ≠ none := by
  rcases hs with hs | ⟨hlead, hlen⟩
  · obtain ⟨hT, hlen, hlead⟩ := hk.acked_le v T (by omega)
    exact ⟨hT, by omega, hlead⟩
  · exact ⟨hm.leader_le hlead, hlen, by simp [hlead]⟩

omit [Fintype ν] in
theorem Stored.extends {h' : History ν ε} {v : ν} {T : ℤ} {m : ℕ} (hs : h.Stored v T m)
    (hx : Extends h h') : h'.Stored v T m := by
  rcases hs with hs | ⟨hlead, hlen⟩
  · exact Or.inl (hs.trans (hx.acked v T))
  · exact Or.inr ⟨hx.ballots.leader T v hlead, hlen.trans (hx.leaderLog T v hlead).length_le⟩

theorem Stored.take_eq {h' : History ν ε} (hk : h.Kept) (hm : h.Matched tm) {v : ν} {T : ℤ}
    {m : ℕ} (hs : h.Stored v T m) (hx : Extends h h') :
    (h'.leaderLog T).take m = (h.leaderLog T).take m := by
  rcases Nat.eq_zero_or_pos m with rfl | hpos
  · simp
  · obtain ⟨-, hlen, hlead⟩ := hs.bound hk hm hpos
    obtain ⟨c, hc⟩ := Option.ne_none_iff_exists'.mp hlead
    exact take_eq_of_isPrefix (hx.leaderLog T c hc) hlen

theorem Held.extends {h' : History ν ε} (hk : h.Kept) (hm : h.Matched tm) {v : ν} {T B : ℤ}
    {m : ℕ} {L : List ε} (hs : h.Stored v T m) (hL : h.Held L T m B) (hx : Extends h h') :
    h'.Held L T m B := by
  have htake := hs.take_eq hk hm hx
  rcases hL with hp | ⟨U, c, hTU, hUB, hc, hn⟩
  · exact Or.inl (by rw [htake]; exact hp)
  · refine Or.inr ⟨U, c, hTU, hUB, hx.ballots.leader U c hc, ?_⟩
    rw [htake, hx.startLog U c hc]
    exact hn

omit [Fintype ν] in
theorem start_copied : Copied tm (start : History ν ε) where
  log T p v i e hp := by simp [start, Ballots.start] at hp
  leaderLog T U p i e hp := by simp [start, Ballots.start] at hp

theorem start_kept : Kept (start : History ν ε) where
  acked_le v T hpos := by simp [start] at hpos
  keep v T m _ := Or.inl (by simp [start])
  keep_ballot v T U m c _ hc := by simp [start, Ballots.start] at hc
  elected U c hc := by simp [start, Ballots.start] at hc

section
variable [DecidableEq ν]

/-! ### A node moves to a new term -/

theorem Kept.advance (hk : h.Kept) {v : ν} {T : ℤ} (hT : h.term v ≤ T) :
    (h.advance v T).Kept where
  acked_le w U hpos := by
    obtain ⟨hU, hrest⟩ := hk.acked_le w U hpos
    exact ⟨hU.trans (Ballots.update_term_le hT w), hrest⟩
  keep w U m hs := (hk.keep w U m hs).mono (Ballots.update_term_le hT w)
  keep_ballot := hk.keep_ballot
  elected := hk.elected

theorem Copied.advance (hc : h.Copied tm) (hm : h.Matched tm) {v : ν} {T : ℤ}
    (hT : h.term v ≤ T) : (h.advance v T).Copied tm := by
  have hterm : ∀ U p, h.leader U = some p → (h.advance v T).term p = U → h.term p = U := by
    intro U p hp hU
    have h₁ := hm.leader_le hp
    have h₂ := Ballots.update_term_le (b := h.toBallots) hT p
    exact le_antisymm (h₂.trans hU.le) h₁
  exact ⟨fun U p w i e hp hU => hc.log U p w i e hp (hterm U p hp hU),
    fun U V p i e hp hU => hc.leaderLog U V p i e hp (hterm U p hp hU)⟩

/-! ### A node votes -/

theorem Kept.cast (hk : h.Kept) {v c : ν} {T : ℤ} (hT : h.term v ≤ T)
    (hfree : h.vote v T = none) : (h.cast v T c).Kept := by
  have hx := extends_cast (c := c) hT hfree
  refine
    { acked_le := (hk.advance hT).acked_le
      keep := (hk.advance hT).keep
      keep_ballot := ?_
      elected := ?_ }
  · intro w U V m d hUV hd hs
    have hs' : h.Stored w U m := hs
    have hd' := hd
    simp only [History.cast, Ballots.cast_vote] at hd'
    split_ifs at hd' with hwV
    · obtain ⟨rfl, rfl⟩ := hwV
      have hballot : (h.cast w V c).ballotLog w V = h.log w := by simp [History.cast]
      rw [hballot]
      exact (hk.keep w U m hs').mono hT
    · have hheld := hk.keep_ballot w U V m d hUV hd' hs'
      rw [← hx.ballotLog w V d hd'] at hheld
      exact hheld
  · intro U d hd
    obtain ⟨Q, hQ, hall⟩ := hk.elected U d hd
    refine ⟨Q, hQ, fun w hw => ?_⟩
    obtain ⟨hvote, hheld⟩ := hall w hw
    refine ⟨hx.ballots.vote w U d hvote, fun V m hVU hs => ?_⟩
    rw [hx.ballotLog w U d hvote]
    exact hheld V m hVU hs

theorem Copied.cast (hc : h.Copied tm) (hm : h.Matched tm) {v c : ν} {T : ℤ}
    (hT : h.term v ≤ T) : (h.cast v T c).Copied tm :=
  ⟨(hc.advance hm hT).log, (hc.advance hm hT).leaderLog⟩

/-! ### A node is elected -/

omit [DecidableEq ν] in
theorem Kept.elect (hk : h.Kept) (hm : h.Matched tm) {c : ν} {T : ℤ} {Q : Finset ν}
    (hQ : Quorum Q) (hvote : ∀ v ∈ Q, h.vote v T = some c) (hnone : h.leader T = none)
    (hterm : h.term c = T) : (h.elect c T).Kept := by
  have hx := extends_elect hm.ballots hQ hvote hnone
  have hlead : ∀ {U d}, (h.elect c T).leader U = some d →
      (U = T ∧ d = c) ∨ (U ≠ T ∧ h.leader U = some d) := by
    intro U d hd
    simp only [History.elect, Ballots.elect, Function.update_apply] at hd
    split_ifs at hd with hU
    · exact Or.inl ⟨hU, (Option.some.inj hd).symm⟩
    · exact Or.inr ⟨hU, hd⟩
  -- only the new leader stores anything new, and only in its own term
  have hstored : ∀ {v U m}, (h.elect c T).Stored v U m → h.Stored v U m ∨ (v = c ∧ U = T) := by
    intro v U m hs
    rcases hs with hs | ⟨hl, hlen⟩
    · exact Or.inl (Or.inl hs)
    · rcases hlead hl with ⟨rfl, rfl⟩ | ⟨hU, hold⟩
      · exact Or.inr ⟨rfl, rfl⟩
      · refine Or.inl (Or.inr ⟨hold, ?_⟩)
        simpa [History.elect, hU] using hlen
  refine
    { acked_le := ?_
      keep := ?_
      keep_ballot := ?_
      elected := ?_ }
  · intro v U hpos
    obtain ⟨hU, hlen, hl⟩ := hk.acked_le v U hpos
    obtain ⟨d, hd⟩ := Option.ne_none_iff_exists'.mp hl
    refine ⟨hU, hlen.trans (hx.leaderLog U d hd).length_le, ?_⟩
    simp [hx.ballots.leader U d hd]
  · intro v U m hs
    rcases hstored hs with hold | ⟨rfl, rfl⟩
    · exact (hk.keep v U m hold).extends hk hm hold hx
    · refine Or.inl ?_
      simpa [History.elect] using List.take_prefix m (h.log v)
  · intro v U V m d hUV hd hs
    rcases hstored hs with hold | ⟨rfl, rfl⟩
    · exact (hk.keep_ballot v U V m d hUV hd hold).extends hk hm hold hx
    · have := hm.ballots.vote_le v V d hd
      omega
  · intro U d hd
    rcases hlead hd with ⟨rfl, rfl⟩ | ⟨hU, hold⟩
    · refine ⟨Q, hQ, fun v hv => ⟨hvote v hv, fun V m hVU hs => ?_⟩⟩
      have hold : h.Stored v V m := by
        rcases hstored hs with hold | ⟨-, rfl⟩
        · exact hold
        · omega
      apply Held.extends hk hm hold ?_ hx
      -- no leader of the new term existed when its voters voted
      rcases hk.keep_ballot v V U m d hVU (hvote v hv) hold with hp | ⟨W, b, hVW, hWU, hb, hn⟩
      · exact Or.inl hp
      · have hne : W ≠ U := by rintro rfl; simp [hnone] at hb
        exact Or.inr ⟨W, b, hVW, by omega, hb, hn⟩
    · obtain ⟨P, hP, hall⟩ := hk.elected U d hold
      refine ⟨P, hP, fun v hv => ⟨(hall v hv).1, fun V m hVU hs => ?_⟩⟩
      rcases hstored hs with hold' | ⟨rfl, rfl⟩
      · exact ((hall v hv).2 V m hVU hold').extends hk hm hold' hx
      · have := hm.ballots.vote_le v U d (hall v hv).1
        omega

omit [DecidableEq ν] in
theorem Copied.elect (hc : h.Copied tm) (hm : h.Matched tm) {c : ν} {T : ℤ}
    (hnone : h.leader T = none) (hterm : h.term c = T) : (h.elect c T).Copied tm := by
  -- nobody has an entry of a term without a leader
  have hfresh : ∀ (v : ν) (i : ℕ) (e : ε), (h.log v)[i]? = some e → tm e ≠ T := by
    rintro v i e hi rfl
    exact (hm.log v i e hi).1 hnone
  have hlead : ∀ {U d}, (h.elect c T).leader U = some d → U ≠ T → h.leader U = some d := by
    intro U d hd hU
    simpa [History.elect, Ballots.elect, hU] using hd
  refine ⟨fun U p v i e hp hU hv hi he => ?_, fun U V p i e hp hU hV hi he => ?_⟩
  · have hUT : U ≠ T := by rintro rfl; exact hfresh v i e hi he
    exact hc.log U p v i e (hlead hp hUT) hU hv hi he
  · by_cases hUT : U = T
    · subst hUT
      have hold : (h.leaderLog V)[i]? = some e := by
        simpa [History.elect, hV] using hi
      exact absurd (he ▸ hnone) (hm.leaderLog V i e hold).1
    · by_cases hVT : V = T
      · subst hVT
        have hlog : (h.log c)[i]? = some e := by simpa [History.elect] using hi
        have hcp : c ≠ p := by
          rintro rfl
          exact hUT (hU.symm.trans hterm)
        exact hc.log U p c i e (hlead hp hUT) hU hcp hlog he
      · have hold : (h.leaderLog V)[i]? = some e := by
          simpa [History.elect, hVT] using hi
        exact hc.leaderLog U V p i e (hlead hp hUT) hU hV hold he

/-! ### A leader appends -/

theorem Kept.append (hk : h.Kept) (hm : h.Matched tm) {c : ν} {e : ε}
    (hlead : h.leader (h.term c) = some c) : (h.append c e).Kept := by
  have hx : Extends h (h.append c e) := extends_append c e
  have hlog : h.log c = h.leaderLog (h.term c) := hm.leading _ c hlead rfl
  have hgrow : ∀ v, h.log v <+: (h.append c e).log v := by
    intro v
    simp only [History.append, Function.update_apply]
    split_ifs with hv
    · subst hv; exact List.prefix_append _ _
    · exact List.prefix_refl _
  have hstored : ∀ {v U m}, (h.append c e).Stored v U m →
      h.Stored v U m ∨ (v = c ∧ U = h.term c) := by
    intro v U m hs
    rcases hs with hs | ⟨hl, hlen⟩
    · exact Or.inl (Or.inl hs)
    · by_cases hU : U = h.term c
      · subst hU
        have hl' : h.leader (h.term c) = some v := hl
        rw [hlead] at hl'
        exact Or.inr ⟨(Option.some.inj hl').symm, rfl⟩
      · refine Or.inl (Or.inr ⟨hl, ?_⟩)
        simpa [History.append, hU] using hlen
  refine
    { acked_le := ?_
      keep := ?_
      keep_ballot := ?_
      elected := ?_ }
  · intro v U hpos
    obtain ⟨hU, hlen, hl⟩ := hk.acked_le v U hpos
    obtain ⟨d, hd⟩ := Option.ne_none_iff_exists'.mp hl
    exact ⟨hU, hlen.trans (hx.leaderLog U d hd).length_le, hl⟩
  · intro v U m hs
    rcases hstored hs with hold | ⟨rfl, rfl⟩
    · exact ((hk.keep v U m hold).extends hk hm hold hx).longer (hgrow v)
    · refine Or.inl ?_
      simp only [History.append, Function.update_self, ← hlog]
      exact List.take_prefix _ _
  · intro v U V m d hUV hd hs
    rcases hstored hs with hold | ⟨rfl, rfl⟩
    · exact (hk.keep_ballot v U V m d hUV hd hold).extends hk hm hold hx
    · have := hm.ballots.vote_le v V d hd
      omega
  · intro U d hd
    obtain ⟨Q, hQ, hall⟩ := hk.elected U d hd
    refine ⟨Q, hQ, fun v hv => ⟨(hall v hv).1, fun V m hVU hs => ?_⟩⟩
    rcases hstored hs with hold | ⟨rfl, rfl⟩
    · exact ((hall v hv).2 V m hVU hold).extends hk hm hold hx
    · have := hm.ballots.vote_le v U d (hall v hv).1
      omega

omit [Fintype ν] in
theorem Copied.append (hc : h.Copied tm) {c : ν} {e : ε} (hlead : h.leader (h.term c) = some c)
    (he : tm e = h.term c) : (h.append c e).Copied tm := by
  have hnew : ∀ {L : List ε} {i : ℕ} {a : ε} {T : ℤ}, (L ++ [e])[i]? = some a → tm a = T →
      T ≠ h.term c → L[i]? = some a := by
    intro L i a T hi ha hT
    by_cases hlt : i < L.length
    · rwa [List.getElem?_append_left hlt] at hi
    · rw [List.getElem?_append_right (by omega)] at hi
      have hae : a = e := List.mem_singleton.mp (List.mem_iff_getElem?.mpr ⟨_, hi⟩)
      subst hae
      exact absurd (ha.symm.trans he) hT
  refine ⟨fun T p v i a hp hT hv hi ha => ?_, fun T U p i a hp hT hU hi ha => ?_⟩
  · have hp' : h.leader T = some p := hp
    have hT' : h.term p = T := hT
    by_cases hvc : v = c
    · subst hvc
      have hne : T ≠ h.term v := by
        rintro rfl
        rw [hlead] at hp'
        exact hv (Option.some.inj hp')
      have hi' : (h.log v ++ [e])[i]? = some a := by simpa [History.append] using hi
      exact hc.log T p v i a hp' hT' hv (hnew hi' ha hne) ha
    · have hi' : (h.log v)[i]? = some a := by simpa [History.append, hvc] using hi
      exact hc.log T p v i a hp' hT' hv hi' ha
  · by_cases hUc : U = h.term c
    · subst hUc
      have hi' : (h.leaderLog (h.term c) ++ [e])[i]? = some a := by
        simpa [History.append] using hi
      exact hc.leaderLog T _ p i a hp hT hU (hnew hi' ha (Ne.symm hU)) ha
    · have hi' : (h.leaderLog U)[i]? = some a := by simpa [History.append, hUc] using hi
      exact hc.leaderLog T U p i a hp hT hU hi' ha

/-! ### A node takes over a leader's log -/

section
variable [DecidableEq ε]

omit [Fintype ν] in
theorem accept_acked (v w : ν) (T U : ℤ) (m : ℕ) :
    (h.accept v T m).acked w U =
      if w = v ∧ U = T then max (h.acked v T) m else h.acked w U := by
  simp only [History.accept, Function.update_apply]
  by_cases hw : w = v
  · subst hw
    by_cases hU : U = T <;> simp [hU]
  · simp [hw]

theorem Kept.accept (hk : h.Kept) (hm : h.Matched tm) {v c : ν} {T : ℤ} {m : ℕ}
    (hT : h.term v ≤ T) (hc : h.leader T = some c) (hv : v ≠ c)
    (hlen : m ≤ (h.leaderLog T).length) : (h.accept v T m).Kept := by
  have hx : Extends h (h.accept v T m) := extends_accept hT
  have hstored : ∀ {w U n}, (h.accept v T m).Stored w U n →
      h.Stored w U n ∨ (w = v ∧ U = T ∧ n ≤ m) := by
    intro w U n hs
    rcases hs with hs | hs
    · rw [accept_acked] at hs
      split_ifs at hs with hwU
      · obtain ⟨rfl, rfl⟩ := hwU
        rcases le_max_iff.mp hs with hs | hs
        · exact Or.inl (Or.inl hs)
        · exact Or.inr ⟨rfl, rfl, hs⟩
      · exact Or.inl (Or.inl hs)
    · exact Or.inl (Or.inr hs)
  have hterm : (h.accept v T m).term v = T := by simp [History.accept, Ballots.advance]
  have hlogv : (h.accept v T m).log v = install ((h.leaderLog T).take m) (h.log v) := by
    simp [History.accept]
  refine
    { acked_le := ?_
      keep := ?_
      keep_ballot := ?_
      elected := ?_ }
  · intro w U hpos
    rw [accept_acked] at hpos ⊢
    split_ifs at hpos ⊢ with hwU
    · obtain ⟨rfl, rfl⟩ := hwU
      refine ⟨hterm.ge, ?_, by simp [History.accept, Ballots.advance, hc]⟩
      change max (h.acked w U) m ≤ (h.leaderLog U).length
      rcases Nat.eq_zero_or_pos (h.acked w U) with h0 | h0
      · simpa [h0] using hlen
      · exact max_le (hk.acked_le w U h0).2.1 hlen
    · obtain ⟨hU, hrest⟩ := hk.acked_le w U hpos
      exact ⟨hU.trans (hx.ballots.term w), hrest⟩
  · intro w U n hs
    by_cases hw : w = v
    · subst hw
      rw [hterm, hlogv]
      rcases hstored hs with hold | ⟨-, rfl, hn⟩
      · rcases Nat.eq_zero_or_pos n with rfl | hpos
        · exact Held.zero _ _ _ _
        · have hUle : U ≤ h.term w := (hold.bound hk hm hpos).1
          rcases hk.keep w U n hold with hp | ⟨W, d, hUW, hWB, hd, hn⟩
          · -- the log had it: it survives if the leader of `T` has it, else `T` is at fault
            by_cases hUT : U = T
            · subst hUT
              exact Or.inl (install_keeps m hp (List.take_prefix n _))
            · by_cases hst : (h.leaderLog U).take n <+: h.startLog T
              · exact Or.inl (install_keeps m hp (hst.trans (hm.start_isPrefix T c hc)))
              · exact Or.inr ⟨T, c, by omega, le_rfl, hc, hst⟩
          · exact Or.inr ⟨W, d, hUW, hWB.trans hT, hd, hn⟩
      · refine Or.inl (List.IsPrefix.trans ?_ (install_isPrefix _ _))
        have htake : (h.leaderLog U).take n = ((h.leaderLog U).take m).take n := by
          rw [List.take_take, Nat.min_eq_left hn]
        exact htake ▸ List.take_prefix _ _
    · have hold : h.Stored w U n := by
        rcases hstored hs with hold | ⟨rfl, -⟩
        · exact hold
        · exact absurd rfl hw
      have hheld := (hk.keep w U n hold).extends hk hm hold hx
      simpa [History.accept, Ballots.advance, hw] using hheld
  · intro w U V n d hUV hd hs
    rcases hstored hs with hold | ⟨rfl, rfl, -⟩
    · exact hk.keep_ballot w U V n d hUV hd hold
    · have := hm.ballots.vote_le w V d hd
      omega
  · intro U d hd
    obtain ⟨Q, hQ, hall⟩ := hk.elected U d hd
    refine ⟨Q, hQ, fun w hw => ⟨(hall w hw).1, fun V n hVU hs => ?_⟩⟩
    rcases hstored hs with hold | ⟨rfl, rfl, -⟩
    · exact (hall w hw).2 V n hVU hold
    · have := hm.ballots.vote_le w U d (hall w hw).1
      omega

theorem Copied.accept (hcop : h.Copied tm) (hm : h.Matched tm) {v c : ν} {T : ℤ} {m : ℕ}
    (hT : h.term v ≤ T) (hc : h.leader T = some c) (hv : v ≠ c) :
    (h.accept v T m).Copied tm := by
  have hx : Extends h (h.accept v T m) := extends_accept hT
  have hadv := hcop.advance hm hT
  have hacked : ∀ {U p i}, (∃ w, w ≠ p ∧ i < h.acked w U) →
      ∃ w, w ≠ p ∧ i < (h.accept v T m).acked w U := by
    rintro U p i ⟨w, hw, hi⟩
    exact ⟨w, hw, hi.trans_le (hx.acked w U)⟩
  refine ⟨fun U p w i e hp hU hw hi he => ?_, fun U V p i e hp hU hV hi he =>
    hacked (hadv.leaderLog U V p i e hp hU hV hi he)⟩
  by_cases hwv : w = v
  · subst hwv
    have hlog : (h.accept w T m).log w = install ((h.leaderLog T).take m) (h.log w) := by
      simp [History.accept]
    rw [hlog, install] at hi
    split_ifs at hi with hpre
    · exact hacked (hadv.log U p w i e hp hU hw hi he)
    · by_cases hUT : U = T
      · subst hUT
        refine ⟨w, hw, ?_⟩
        have him := (List.getElem?_eq_some_iff.mp hi).1
        rw [accept_acked, if_pos ⟨rfl, rfl⟩]
        simp only [List.length_take] at him
        omega
      · have hi' := getElem?_of_isPrefix (List.take_prefix m (h.leaderLog T)) hi
        exact hacked (hadv.leaderLog U T p i e hp hU (Ne.symm hUT) hi' he)
  · have hi' : (h.log w)[i]? = some e := by simpa [History.accept, hwv] using hi
    exact hacked (hadv.log U p w i e hp hU hw hi' he)

end

end

/-! ### Leader completeness -/

variable (tm)

/-- `L` is at least as up to date as `M`: a later last term, or the same and no shorter. -/
def UpToDate (L M : List ε) : Prop :=
  ∀ b, M.getLast? = some b → ∃ a, L.getLast? = some a ∧
    (tm b < tm a ∨ (tm a = tm b ∧ M.length ≤ L.length))

/-- Votes went to candidates at least as up to date as the voter. -/
def Careful (h : History ν ε) : Prop :=
  ∀ v T c, h.vote v T = some c → UpToDate tm (h.ballotLog c T) (h.ballotLog v T)

/-- The entry at position `i` of the leader of term `T` is of that term and on a quorum. -/
def Durable (h : History ν ε) (T : ℤ) (i : ℕ) : Prop :=
  (∃ Q, Quorum Q ∧ ∀ v ∈ Q, h.Stored v T (i + 1)) ∧
    ∃ e, (h.leaderLog T)[i]? = some e ∧ tm e = T

/-- `L` lies below a durable entry of a term up to `T`. -/
def Chosen (h : History ν ε) (T : ℤ) (L : List ε) : Prop :=
  L = [] ∨ ∃ U i, U ≤ T ∧ h.Durable tm U i ∧ L <+: (h.leaderLog U).take (i + 1)

variable {tm}

theorem Durable.leader {T : ℤ} {i : ℕ} (hd : h.Durable tm T i) (hm : h.Matched tm) :
    ∃ c, h.leader T = some c := by
  obtain ⟨-, e, hi, he⟩ := hd
  exact Option.ne_none_iff_exists'.mp (he ▸ (hm.leaderLog T i e hi).1)

/-- A log at least as up to date as one that has a durable prefix has it too, if the
leaders between have it. -/
theorem UpToDate.carries (hm : h.Matched tm) {L M : List ε} (hL : h.Rooted tm L)
    (hM : h.Rooted tm M) (hup : UpToDate tm L M) {T B : ℤ} {i : ℕ} {e : ε}
    (hi : (h.leaderLog T)[i]? = some e) (he : tm e = T)
    (hMi : (h.leaderLog T).take (i + 1) <+: M) (hB : ∀ a ∈ L, tm a ≤ B)
    (hbetween : ∀ U c, T < U → U ≤ B → h.leader U = some c →
      (h.leaderLog T).take (i + 1) <+: h.startLog U) :
    (h.leaderLog T).take (i + 1) <+: L := by
  have hlt := (List.getElem?_eq_some_iff.mp hi).1
  have hMe : M[i]? = some e :=
    getElem?_of_isPrefix hMi (by rw [List.getElem?_take_of_lt (by omega)]; exact hi)
  have hMne : M ≠ [] := by rintro rfl; simp at hMe
  obtain ⟨b, hb⟩ := Option.ne_none_iff_exists'.mp
    (show M.getLast? ≠ none by simpa [List.getLast?_eq_none_iff] using hMne)
  obtain ⟨a, ha, hcmp⟩ := hup b hb
  rw [List.getLast?_eq_getElem?] at ha hb
  have hMlen := (List.getElem?_eq_some_iff.mp hb).1
  have hLlen := (List.getElem?_eq_some_iff.mp ha).1
  have hilt := (List.getElem?_eq_some_iff.mp hMe).1
  have hTb : T ≤ tm b := he ▸ hm.sorted hM (by omega) hMe hb
  have hLall : L.take (L.length - 1 + 1) = L := by
    rw [Nat.sub_add_cancel (by omega), List.take_length]
  rcases hcmp with hlater | ⟨hsame, hlong⟩
  · -- a later last term: that leader started with the prefix and `L` ends behind its start
    obtain ⟨hlead, htake, hstart⟩ := hL _ a ha
    obtain ⟨c, hc⟩ := Option.ne_none_iff_exists'.mp hlead
    have hmem : a ∈ L := List.mem_iff_getElem?.mpr ⟨_, ha⟩
    have hpre := hbetween (tm a) c (by omega) (hB a hmem) hc
    rw [hLall] at htake
    apply List.prefix_of_prefix_length_le (hpre.trans (hm.start_isPrefix _ c hc)) htake
    have := hpre.length_le
    omega
  · -- the same last term: both end in one leader's log and `L` is the longer
    obtain ⟨-, htakeL, -⟩ := hL _ a ha
    obtain ⟨-, htakeM, -⟩ := hM _ b hb
    rw [hLall, hsame] at htakeL
    have hMall : M.take (M.length - 1 + 1) = M := by
      rw [Nat.sub_add_cancel (by omega), List.take_length]
    rw [hMall] at htakeM
    exact hMi.trans (List.prefix_of_prefix_length_le htakeM htakeL hlong)

/-- Every leader elected after a term starts with the durable entries of that term. -/
theorem leader_completeness (hm : h.Matched tm) (hk : h.Kept) (hcare : h.Careful tm) {T : ℤ}
    {i : ℕ} (hd : h.Durable tm T i) :
    ∀ U c, T < U → h.leader U = some c → (h.leaderLog T).take (i + 1) <+: h.startLog U := by
  obtain ⟨⟨Q, hQ, hstored⟩, e, hi, he⟩ := hd
  -- induction on how far the term lies behind `T`
  suffices hall : ∀ n : ℕ, ∀ U c, T < U → U ≤ T + n → h.leader U = some c →
      (h.leaderLog T).take (i + 1) <+: h.startLog U from
    fun U c hTU hc => hall (U - T).toNat U c hTU (by omega) hc
  intro n
  induction n with
  | zero => intro U c hTU hU; omega
  | succ n ih =>
    intro U c hTU hU hc
    obtain ⟨P, hP, hvoters⟩ := hk.elected U c hc
    obtain ⟨v, hvQ, hvP⟩ := hQ.meet hP
    obtain ⟨hvote, hheld⟩ := hvoters v hvP
    have hbetween : ∀ W d, T < W → W ≤ U - 1 → h.leader W = some d →
        (h.leaderLog T).take (i + 1) <+: h.startLog W :=
      fun W d hTW hWU hd => ih W d hTW (by omega) hd
    have hballot : (h.leaderLog T).take (i + 1) <+: h.ballotLog v U := by
      rcases hheld T (i + 1) hTU (hstored v hvQ) with hp | ⟨W, d, hTW, hWU, hd, hn⟩
      · exact hp
      · exact absurd (hbetween W d hTW hWU hd) hn
    have hself := hm.own_vote U c hc
    rw [hm.own_start U c hc]
    refine UpToDate.carries hm (hm.ballotLog c U) (hm.ballotLog v U) (hcare v U c hvote) hi he
      hballot (B := U - 1) (fun a ha => ?_) hbetween
    have := hm.before c U hself a ha
    omega

/-- A node that stored a durable prefix still has it. -/
theorem Durable.kept (hm : h.Matched tm) (hk : h.Kept) (hcare : h.Careful tm) {T : ℤ} {i : ℕ}
    (hd : h.Durable tm T i) {v : ν} (hs : h.Stored v T (i + 1)) :
    (h.leaderLog T).take (i + 1) <+: h.log v := by
  rcases hk.keep v T (i + 1) hs with hp | ⟨U, c, hTU, -, hc, hn⟩
  · exact hp
  · exact absurd (leader_completeness hm hk hcare hd U c hTU hc) hn

theorem Durable.extends {h' : History ν ε} (hm : h.Matched tm) {T : ℤ} {i : ℕ}
    (hd : h.Durable tm T i) (hx : Extends h h') : h'.Durable tm T i := by
  obtain ⟨c, hc⟩ := hd.leader hm
  obtain ⟨⟨Q, hQ, hstored⟩, e, hi, he⟩ := hd
  exact ⟨⟨Q, hQ, fun v hv => (hstored v hv).extends hx⟩,
    e, getElem?_of_isPrefix (hx.leaderLog T c hc) hi, he⟩

theorem Chosen.extends {h' : History ν ε} (hm : h.Matched tm) {T : ℤ} {L : List ε}
    (hL : h.Chosen tm T L) (hx : Extends h h') : h'.Chosen tm T L := by
  rcases hL with rfl | ⟨U, i, hU, hd, hp⟩
  · exact Or.inl rfl
  · obtain ⟨c, hc⟩ := hd.leader hm
    refine Or.inr ⟨U, i, hU, hd.extends hm hx, ?_⟩
    have hlen : i + 1 ≤ (h.leaderLog U).length := by
      obtain ⟨-, e, hi, -⟩ := hd
      exact (List.getElem?_eq_some_iff.mp hi).1
    rw [take_eq_of_isPrefix (hx.leaderLog U c hc) hlen]
    exact hp

theorem Chosen.mono {T T' : ℤ} {L : List ε} (hL : h.Chosen tm T L) (hT : T ≤ T') :
    h.Chosen tm T' L := by
  rcases hL with rfl | ⟨U, i, hU, hrest⟩
  · exact Or.inl rfl
  · exact Or.inr ⟨U, i, hU.trans hT, hrest⟩

theorem Chosen.of_isPrefix {T : ℤ} {L M : List ε} (hM : h.Chosen tm T M) (hp : L <+: M) :
    h.Chosen tm T L := by
  rcases hM with rfl | ⟨U, i, hU, hd, hM⟩
  · exact Or.inl (List.prefix_nil.mp hp)
  · exact Or.inr ⟨U, i, hU, hd, hp.trans hM⟩

/-- A leader has everything chosen up to its term. -/
theorem Chosen.le_leaderLog (hm : h.Matched tm) (hk : h.Kept) (hcare : h.Careful tm) {T U : ℤ}
    {L : List ε} (hL : h.Chosen tm T L) (hTU : T ≤ U) {c : ν} (hc : h.leader U = some c) :
    L <+: h.leaderLog U := by
  rcases hL with rfl | ⟨W, i, hW, hd, hp⟩
  · exact List.nil_prefix
  · rcases eq_or_lt_of_le (hW.trans hTU) with rfl | hlt
    · exact hp.trans (List.take_prefix _ _)
    · exact (hp.trans (leader_completeness hm hk hcare hd U c hlt hc)).trans
        (hm.start_isPrefix U c hc)

/-- Chosen lists are prefixes of one another. -/
theorem Chosen.comparable (hm : h.Matched tm) (hk : h.Kept) (hcare : h.Careful tm) {T U : ℤ}
    {L M : List ε} (hL : h.Chosen tm T L) (hM : h.Chosen tm U M) : L <+: M ∨ M <+: L := by
  rcases hL with rfl | ⟨T', i, hT', hdi, hLp⟩
  · exact Or.inl List.nil_prefix
  rcases hM with rfl | ⟨U', j, hU', hdj, hMp⟩
  · exact Or.inr List.nil_prefix
  have hL' : h.Chosen tm T' L := Or.inr ⟨T', i, le_rfl, hdi, hLp⟩
  have hM' : h.Chosen tm U' M := Or.inr ⟨U', j, le_rfl, hdj, hMp⟩
  rcases le_total T' U' with hle | hle
  · obtain ⟨c, hc⟩ := hdj.leader hm
    exact List.prefix_or_prefix_of_prefix (hL'.le_leaderLog hm hk hcare hle hc)
      (hM'.le_leaderLog hm hk hcare le_rfl hc)
  · obtain ⟨c, hc⟩ := hdi.leader hm
    exact List.prefix_or_prefix_of_prefix (hL'.le_leaderLog hm hk hcare le_rfl hc)
      (hM'.le_leaderLog hm hk hcare hle hc)

end History

end Consensus
