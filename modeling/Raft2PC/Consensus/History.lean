import Raft2PC.Consensus.Ballots
import Mathlib.Data.List.Infix

/-! Logs replicated by elected leaders, with what must be remembered about them: the log
a node held when it voted, the log a leader started from, everything it appended since,
and how much of it each node took over. Every log then is a patchwork of leader logs
(`Rooted`), which gives log matching. -/

namespace Consensus

variable {ν ε : Type*}

structure History (ν ε : Type*) extends Ballots ν where
  log : ν → List ε
  /-- the log node `v` held when it voted in a term -/
  ballotLog : ν → ℤ → List ε
  /-- the log the leader of a term was elected with -/
  startLog : ℤ → List ε
  /-- all the leader of a term has had in its log while leading -/
  leaderLog : ℤ → List ε
  /-- how much of the leader's log of a term node `v` took over in that term -/
  acked : ν → ℤ → ℕ

/-- Overwrite `L` by `P` unless `P` is there already. -/
def install [DecidableEq ε] (P L : List ε) : List ε := if P <+: L then L else P

theorem install_isPrefix [DecidableEq ε] (P L : List ε) : P <+: install P L := by
  unfold install
  split_ifs with h
  · exact h
  · exact List.prefix_refl P

/-- What `L` shares with `M` survives the installation of a prefix of `M`. -/
theorem install_keeps [DecidableEq ε] {P L M : List ε} (m : ℕ) (hL : P <+: L) (hM : P <+: M) :
    P <+: install (M.take m) L := by
  unfold install
  split_ifs with h
  · exact hL
  · rcases List.prefix_or_prefix_of_prefix hM (List.take_prefix m M) with hP | hP
    · exact hP
    · exact absurd (hP.trans hL) h

theorem mem_install [DecidableEq ε] {P L : List ε} {e : ε} (h : e ∈ install P L) :
    e ∈ L ∨ e ∈ P := by
  unfold install at h
  split_ifs at h
  · exact Or.inl h
  · exact Or.inr h

theorem take_eq_of_isPrefix {L M : List ε} (h : L <+: M) {m : ℕ} (hm : m ≤ L.length) :
    M.take m = L.take m := by
  rw [List.prefix_iff_eq_take.mp h, List.take_take, Nat.min_eq_left hm]

theorem getElem?_of_isPrefix {L M : List ε} (h : L <+: M) {i : ℕ} {e : ε} (hi : L[i]? = some e) :
    M[i]? = some e := by
  obtain ⟨t, rfl⟩ := h
  rw [List.getElem?_append_left (List.getElem?_eq_some_iff.mp hi).1]
  exact hi

namespace History

def start : History ν ε where
  toBallots := Ballots.start
  log _ := []
  ballotLog _ _ := []
  startLog _ := []
  leaderLog _ := []
  acked _ _ := 0

section
variable [DecidableEq ν]

def advance (h : History ν ε) (v : ν) (T : ℤ) : History ν ε :=
  { h with toBallots := h.toBallots.advance v T }

def cast (h : History ν ε) (v : ν) (T : ℤ) (c : ν) : History ν ε :=
  { h with
    toBallots := h.toBallots.cast v T c
    ballotLog := Function.update h.ballotLog v (Function.update (h.ballotLog v) T (h.log v)) }

def elect (h : History ν ε) (c : ν) (T : ℤ) : History ν ε :=
  { h with
    toBallots := h.toBallots.elect c T
    startLog := Function.update h.startLog T (h.log c)
    leaderLog := Function.update h.leaderLog T (h.log c) }

/-- A leader appends to its own log. -/
def append (h : History ν ε) (c : ν) (e : ε) : History ν ε :=
  { h with
    log := Function.update h.log c (h.log c ++ [e])
    leaderLog := Function.update h.leaderLog (h.term c) (h.leaderLog (h.term c) ++ [e]) }

/-- Node `v` takes over the first `m` entries of the leader of term `T`. -/
def accept [DecidableEq ε] (h : History ν ε) (v : ν) (T : ℤ) (m : ℕ) : History ν ε :=
  { h with
    toBallots := h.toBallots.advance v T
    log := Function.update h.log v (install ((h.leaderLog T).take m) (h.log v))
    acked := Function.update h.acked v
      (Function.update (h.acked v) T (max (h.acked v T) m)) }

end

/-- Everything on record in `h` is on record in `h'`. -/
structure Extends (h h' : History ν ε) : Prop where
  ballots : h.toBallots.Extends h'.toBallots
  ballotLog : ∀ v T c, h.vote v T = some c → h'.ballotLog v T = h.ballotLog v T
  startLog : ∀ T c, h.leader T = some c → h'.startLog T = h.startLog T
  leaderLog : ∀ T c, h.leader T = some c → h.leaderLog T <+: h'.leaderLog T
  acked : ∀ v T, h.acked v T ≤ h'.acked v T

theorem Extends.refl (h : History ν ε) : Extends h h :=
  ⟨.refl _, fun _ _ _ _ => rfl, fun _ _ _ => rfl, fun _ _ _ => List.prefix_refl _,
    fun _ _ => le_rfl⟩

theorem Extends.trans {a b c : History ν ε} (h₁ : Extends a b) (h₂ : Extends b c) :
    Extends a c where
  ballots := h₁.ballots.trans h₂.ballots
  ballotLog v T d h := (h₂.ballotLog v T d (h₁.ballots.vote v T d h)).trans (h₁.ballotLog v T d h)
  startLog T d h := (h₂.startLog T d (h₁.ballots.leader T d h)).trans (h₁.startLog T d h)
  leaderLog T d h := (h₁.leaderLog T d h).trans (h₂.leaderLog T d (h₁.ballots.leader T d h))
  acked v T := (h₁.acked v T).trans (h₂.acked v T)

section
variable [DecidableEq ν] {h : History ν ε}

theorem extends_advance {v : ν} {T : ℤ} (hT : h.term v ≤ T) : Extends h (h.advance v T) :=
  { Extends.refl h with ballots := Ballots.extends_advance hT }

theorem extends_cast {v c : ν} {T : ℤ} (hT : h.term v ≤ T) (hfree : h.vote v T = none) :
    Extends h (h.cast v T c) :=
  { Extends.refl h with
    ballots := Ballots.extends_cast hT hfree
    ballotLog := by
      intro w U d hw
      simp only [cast, Function.update_apply]
      split_ifs with hwv
      · subst hwv
        have hU : U ≠ T := by rintro rfl; simp [hfree] at hw
        simp [hU]
      · rfl }

omit [DecidableEq ν] in
theorem extends_elect [Fintype ν] (hb : h.toBallots.Valid) {c : ν} {T : ℤ} {Q : Finset ν}
    (hQ : Quorum Q) (hvote : ∀ v ∈ Q, h.vote v T = some c) (hnone : h.leader T = none) :
    Extends h (h.elect c T) :=
  { Extends.refl h with
    ballots := hb.extends_elect hQ hvote
    startLog := by
      intro U d hU
      have hne : U ≠ T := by rintro rfl; simp [hnone] at hU
      simp [elect, hne]
    leaderLog := by
      intro U d hU
      have hne : U ≠ T := by rintro rfl; simp [hnone] at hU
      simp [elect, hne] }

theorem extends_append (c : ν) (e : ε) : Extends h (h.append c e) :=
  { Extends.refl h with
    ballots := Ballots.Extends.refl _
    leaderLog := by
      intro U d _
      simp only [append, Function.update_apply]
      split_ifs with hU
      · subst hU; exact List.prefix_append _ _
      · exact List.prefix_refl _ }

theorem extends_accept [DecidableEq ε] {v : ν} {T : ℤ} {m : ℕ} (hT : h.term v ≤ T) :
    Extends h (h.accept v T m) :=
  { Extends.refl h with
    ballots := Ballots.extends_advance hT
    acked := by
      intro w U
      simp only [accept, Function.update_apply]
      by_cases hw : w = v
      · subst hw
        by_cases hU : U = T
        · subst hU; simp
        · simp [hU]
      · simp [hw] }

end

variable (tm : ε → ℤ)

/-- Up to each of its entries, `L` is the log of the leader that created the entry. -/
def Rooted (h : History ν ε) (L : List ε) : Prop :=
  ∀ i e, L[i]? = some e →
    h.leader (tm e) ≠ none ∧ L.take (i + 1) <+: h.leaderLog (tm e) ∧
      (h.startLog (tm e)).length ≤ i

variable {tm}

theorem Rooted.extends {h h' : History ν ε} {L : List ε} (hL : h.Rooted tm L)
    (hx : Extends h h') : h'.Rooted tm L := by
  intro i e hi
  obtain ⟨hlead, htake, hstart⟩ := hL i e hi
  obtain ⟨c, hc⟩ := Option.ne_none_iff_exists'.mp hlead
  refine ⟨?_, htake.trans (hx.leaderLog _ c hc), ?_⟩
  · simp [hx.ballots.leader _ c hc]
  · rw [hx.startLog _ c hc]; exact hstart

theorem Rooted.of_isPrefix {h : History ν ε} {L M : List ε} (hM : h.Rooted tm M) (hp : L <+: M) :
    h.Rooted tm L := by
  intro i e hi
  obtain ⟨hlead, htake, hstart⟩ := hM i e (getElem?_of_isPrefix hp hi)
  rw [take_eq_of_isPrefix hp (List.getElem?_eq_some_iff.mp hi).1] at htake
  exact ⟨hlead, htake, hstart⟩

theorem Rooted.nil (h : History ν ε) : h.Rooted tm [] := fun i e hi => by simp at hi

theorem Rooted.install [DecidableEq ε] {h : History ν ε} {P L : List ε} (hP : h.Rooted tm P)
    (hL : h.Rooted tm L) : h.Rooted tm (install P L) := by
  unfold Consensus.install
  split_ifs
  · exact hL
  · exact hP

/-- Log matching: entries of one term at one position have one past. -/
theorem Rooted.matching {h : History ν ε} {L M : List ε} (hL : h.Rooted tm L)
    (hM : h.Rooted tm M) {i : ℕ} {a b : ε} (ha : L[i]? = some a) (hb : M[i]? = some b)
    (hab : tm a = tm b) : L.take (i + 1) = M.take (i + 1) := by
  have hLi := (List.getElem?_eq_some_iff.mp ha).1
  have hMi := (List.getElem?_eq_some_iff.mp hb).1
  have h₁ := (hL i a ha).2.1
  have h₂ := (hM i b hb).2.1
  rw [← hab] at h₂
  apply (List.prefix_of_prefix_length_le h₁ h₂ ?_).eq_of_length
  · simp only [List.length_take]; omega
  · simp only [List.length_take]; omega

variable (tm)

/-- The invariant behind log matching. -/
structure Matched [Fintype ν] (h : History ν ε) : Prop where
  ballots : h.toBallots.Valid
  log : ∀ v, h.Rooted tm (h.log v)
  ballotLog : ∀ v T, h.Rooted tm (h.ballotLog v T)
  leaderLog : ∀ T, h.Rooted tm (h.leaderLog T)
  own_vote : ∀ T c, h.leader T = some c → h.vote c T = some c
  own_start : ∀ T c, h.leader T = some c → h.startLog T = h.ballotLog c T
  start_isPrefix : ∀ T c, h.leader T = some c → h.startLog T <+: h.leaderLog T
  before : ∀ c T, h.vote c T = some c → ∀ e ∈ h.ballotLog c T, tm e < T
  after : ∀ T i e, (h.leaderLog T)[i]? = some e → (h.startLog T).length ≤ i → tm e = T
  log_le : ∀ v, ∀ e ∈ h.log v, tm e ≤ h.term v
  leading : ∀ T c, h.leader T = some c → h.term c = T → h.log c = h.leaderLog T

variable {tm} [Fintype ν] {h : History ν ε}

theorem start_matched : Matched tm (start : History ν ε) where
  ballots := Ballots.start_valid
  log _ := .nil _
  ballotLog _ _ := .nil _
  leaderLog _ := .nil _
  own_vote T c hc := by simp [start, Ballots.start] at hc
  own_start T c hc := by simp [start, Ballots.start] at hc
  start_isPrefix T c hc := by simp [start, Ballots.start] at hc
  before c T hc := by simp [start, Ballots.start] at hc
  after T i e hi := by simp [start] at hi
  log_le v e he := by simp [start] at he
  leading T c hc := by simp [start, Ballots.start] at hc

theorem Matched.start_lt (hm : Matched tm h) {T : ℤ} {c : ν} (hc : h.leader T = some c) :
    ∀ e ∈ h.startLog T, tm e < T := by
  rw [hm.own_start T c hc]
  exact hm.before c T (hm.own_vote T c hc)

theorem Matched.leaderLog_le (hm : Matched tm h) {T : ℤ} {c : ν} (hc : h.leader T = some c) :
    ∀ e ∈ h.leaderLog T, tm e ≤ T := by
  intro e he
  obtain ⟨i, hi⟩ := List.mem_iff_getElem?.mp he
  by_cases hlt : i < (h.startLog T).length
  · have hstart : (h.startLog T)[i]? = some e := by
      rw [← hi]
      have := getElem?_of_isPrefix (hm.start_isPrefix T c hc) (List.getElem?_eq_getElem hlt)
      rw [this, List.getElem?_eq_getElem hlt]
    exact (hm.start_lt hc e (List.mem_iff_getElem?.mpr ⟨i, hstart⟩)).le
  · exact (hm.after T i e hi (by omega)).le

/-- Terms never decrease along a rooted log. -/
theorem Matched.sorted (hm : Matched tm h) {L : List ε} (hL : h.Rooted tm L) {i j : ℕ} {a b : ε}
    (hij : i ≤ j) (ha : L[i]? = some a) (hb : L[j]? = some b) : tm a ≤ tm b := by
  obtain ⟨hlead, htake, -⟩ := hL j b hb
  obtain ⟨c, hc⟩ := Option.ne_none_iff_exists'.mp hlead
  apply hm.leaderLog_le hc
  apply htake.subset
  apply List.mem_iff_getElem?.mpr
  exact ⟨i, by rw [List.getElem?_take_of_lt (by omega)]; exact ha⟩

theorem Matched.leader_le (hm : Matched tm h) {T : ℤ} {c : ν} (hc : h.leader T = some c) :
    T ≤ h.term c :=
  hm.ballots.vote_le c T c (hm.own_vote T c hc)

variable [DecidableEq ν]

theorem Matched.advance (hm : Matched tm h) {v : ν} {T : ℤ} (hT : h.term v ≤ T) :
    Matched tm (h.advance v T) :=
  { hm with
    ballots := hm.ballots.advance hT
    log_le := fun w e he => (hm.log_le w e he).trans (Ballots.update_term_le hT w)
    leading := by
      intro U c hc hU
      apply hm.leading U c hc
      simp only [History.advance, Ballots.advance, Function.update_apply] at hU
      split_ifs at hU with hcv
      · subst hcv; subst hU
        exact le_antisymm hT (hm.leader_le hc)
      · exact hU }

theorem Matched.cast (hm : Matched tm h) {v c : ν} {T : ℤ} (hT : h.term v ≤ T)
    (hfree : h.vote v T = none) (hself : v = c → h.term v < T) : Matched tm (h.cast v T c) := by
  have hx := extends_cast (c := c) hT hfree
  refine
    { ballots := hm.ballots.cast hT hfree
      log := hm.log
      ballotLog := ?_
      leaderLog := hm.leaderLog
      own_vote := fun U d hd => hx.ballots.vote d U d (hm.own_vote U d hd)
      own_start := fun U d hd => (hm.own_start U d hd).trans
        (hx.ballotLog d U d (hm.own_vote U d hd)).symm
      start_isPrefix := hm.start_isPrefix
      before := ?_
      after := hm.after
      log_le := fun w e he => (hm.log_le w e he).trans (Ballots.update_term_le hT w)
      leading := ?_ }
  · intro w U
    have hroot : h.Rooted tm ((h.cast v T c).ballotLog w U) := by
      simp only [History.cast, Function.update_apply]
      by_cases hw : w = v
      · subst hw
        by_cases hU : U = T
        · simpa [hU] using hm.log w
        · simpa [hU] using hm.ballotLog w U
      · simpa [hw] using hm.ballotLog w U
    exact hroot
  · intro d U hd e he
    have hvote := Ballots.cast_vote h.toBallots v d c T U
    simp only [History.cast] at hd he
    rw [hvote] at hd
    split_ifs at hd with hwU
    · obtain ⟨rfl, rfl⟩ := hwU
      have hvc : d = c := (Option.some.inj hd).symm
      simp only [Function.update_self] at he
      exact (hm.log_le d e he).trans_lt (hself hvc)
    · apply hm.before d U hd e
      rw [← hx.ballotLog d U d hd]
      exact he
  · intro U d hd hU
    apply hm.leading U d hd
    simp only [History.cast, Ballots.cast, Function.update_apply] at hU
    split_ifs at hU with hdv
    · subst hdv; subst hU
      simp [hm.own_vote T d hd] at hfree
    · exact hU

omit [DecidableEq ν] in
theorem Matched.elect (hm : Matched tm h) {c : ν} {T : ℤ} {Q : Finset ν} (hQ : Quorum Q)
    (hvote : ∀ v ∈ Q, h.vote v T = some c) (hnone : h.leader T = none)
    (hself : h.vote c T = some c) (hlog : h.log c = h.ballotLog c T) :
    Matched tm (h.elect c T) := by
  have hx := extends_elect hm.ballots hQ hvote hnone
  have hlead : ∀ U d, (h.elect c T).leader U = some d →
      (U = T ∧ d = c) ∨ (U ≠ T ∧ h.leader U = some d) := by
    intro U d hd
    simp only [History.elect, Ballots.elect, Function.update_apply] at hd
    split_ifs at hd with hU
    · exact Or.inl ⟨hU, (Option.some.inj hd).symm⟩
    · exact Or.inr ⟨hU, hd⟩
  refine
    { ballots := hm.ballots.elect hQ hvote
      log := fun v => (hm.log v).extends hx
      ballotLog := fun v U => (hm.ballotLog v U).extends hx
      leaderLog := ?_
      own_vote := ?_
      own_start := ?_
      start_isPrefix := ?_
      before := hm.before
      after := ?_
      log_le := hm.log_le
      leading := ?_ }
  · intro U
    have hroot : h.Rooted tm ((h.elect c T).leaderLog U) := by
      simp only [History.elect, Function.update_apply]
      split_ifs
      · exact hm.log c
      · exact hm.leaderLog U
    exact hroot.extends hx
  · intro U d hd
    rcases hlead U d hd with ⟨rfl, rfl⟩ | ⟨_, hold⟩
    · exact hself
    · exact hm.own_vote U d hold
  · intro U d hd
    rcases hlead U d hd with ⟨rfl, rfl⟩ | ⟨hU, hold⟩
    · simpa [History.elect] using hlog
    · simpa [History.elect, hU] using hm.own_start U d hold
  · intro U d hd
    rcases hlead U d hd with ⟨rfl, rfl⟩ | ⟨hU, hold⟩
    · simp [History.elect]
    · simpa [History.elect, hU] using hm.start_isPrefix U d hold
  · intro U i e hi hle
    by_cases hU : U = T
    · subst hU
      simp only [History.elect, Function.update_self] at hi hle
      exact absurd (List.getElem?_eq_some_iff.mp hi).1 (by omega)
    · simp only [History.elect, Function.update_apply, if_neg hU] at hi hle
      exact hm.after U i e hi hle
  · intro U d hd hU
    rcases hlead U d hd with ⟨rfl, rfl⟩ | ⟨hUT, hold⟩
    · simp [History.elect]
    · simpa [History.elect, hUT] using hm.leading U d hold hU

theorem Matched.append (hm : Matched tm h) {c : ν} {e : ε} (hlead : h.leader (h.term c) = some c)
    (he : tm e = h.term c) : Matched tm (h.append c e) := by
  have hx : Extends h (h.append c e) := extends_append c e
  have hlog : h.log c = h.leaderLog (h.term c) := hm.leading _ c hlead rfl
  have hnew : (h.append c e).Rooted tm (h.log c ++ [e]) := by
    intro i a hi
    by_cases hlt : i < (h.log c).length
    · rw [List.getElem?_append_left hlt] at hi
      rw [List.take_append_of_le_length (by omega)]
      exact (hm.log c).extends hx i a hi
    · have hlen := (List.getElem?_eq_some_iff.mp hi).1
      simp only [List.length_append, List.length_singleton] at hlen
      have hieq : i = (h.log c).length := by omega
      subst hieq
      have ha : a = e := by simpa using hi.symm
      subst ha
      rw [he]
      refine ⟨by simp [History.append, hlead], ?_, ?_⟩
      · simp only [History.append, Function.update_self, ← hlog]
        exact List.take_prefix _ _
      · have := (hm.start_isPrefix _ c hlead).length_le
        rw [hlog]
        exact this
  refine
    { ballots := hm.ballots
      log := ?_
      ballotLog := fun v U => (hm.ballotLog v U).extends hx
      leaderLog := ?_
      own_vote := hm.own_vote
      own_start := hm.own_start
      start_isPrefix := fun U d hd => (hm.start_isPrefix U d hd).trans (hx.leaderLog U d hd)
      before := hm.before
      after := ?_
      log_le := ?_
      leading := ?_ }
  · intro v
    by_cases hv : v = c
    · subst hv
      simpa [History.append] using hnew
    · simpa [History.append, hv] using (hm.log v).extends hx
  · intro U
    by_cases hU : U = h.term c
    · subst hU
      simpa [History.append, hlog] using hnew
    · simpa [History.append, hU] using (hm.leaderLog U).extends hx
  · intro U i a hi hle
    by_cases hU : U = h.term c
    · subst hU
      simp only [History.append, Function.update_self] at hi hle
      by_cases hlt : i < (h.leaderLog (h.term c)).length
      · rw [List.getElem?_append_left hlt] at hi
        exact hm.after _ i a hi hle
      · have ha : a ∈ [e] := by
          rw [List.getElem?_append_right (by omega)] at hi
          exact List.mem_iff_getElem?.mpr ⟨_, hi⟩
        rw [List.mem_singleton.mp ha, he]
    · simp only [History.append, Function.update_apply, if_neg hU] at hi hle
      exact hm.after U i a hi hle
  · intro v a ha
    by_cases hv : v = c
    · subst hv
      simp only [History.append, Function.update_self, List.mem_append, List.mem_singleton] at ha
      rcases ha with ha | rfl
      · exact hm.log_le v a ha
      · exact he.le
    · simp only [History.append, Function.update_apply, if_neg hv] at ha
      exact hm.log_le v a ha
  · intro U d hd hU
    have hd' : h.leader U = some d := hd
    have hU' : h.term d = U := hU
    by_cases hdc : d = c
    · subst hdc; subst hU'
      simp [History.append, hlog]
    · have hUc : U ≠ h.term c := by
        rintro rfl
        rw [hlead] at hd'
        exact hdc (Option.some.inj hd').symm
      simpa [History.append, hdc, hUc] using hm.leading U d hd' hU'

theorem Matched.accept [DecidableEq ε] (hm : Matched tm h) {v c : ν} {T : ℤ} {m : ℕ}
    (hT : h.term v ≤ T) (hc : h.leader T = some c) (hv : v ≠ c) :
    Matched tm (h.accept v T m) := by
  have hpre : h.Rooted tm ((h.leaderLog T).take m) :=
    (hm.leaderLog T).of_isPrefix (List.take_prefix _ _)
  have hx : Extends h (h.accept v T m) := extends_accept hT
  refine
    { ballots := hm.ballots.advance hT
      log := ?_
      ballotLog := hm.ballotLog
      leaderLog := hm.leaderLog
      own_vote := hm.own_vote
      own_start := hm.own_start
      start_isPrefix := hm.start_isPrefix
      before := hm.before
      after := hm.after
      log_le := ?_
      leading := ?_ }
  · intro w
    by_cases hw : w = v
    · subst hw
      simpa [History.accept] using (hpre.install (hm.log w)).extends hx
    · simpa [History.accept, hw] using (hm.log w).extends hx
  · intro w e he
    by_cases hw : w = v
    · subst hw
      simp only [History.accept, Ballots.advance, Function.update_self] at he ⊢
      rcases mem_install he with he | he
      · exact (hm.log_le w e he).trans hT
      · exact hm.leaderLog_le hc e (List.mem_of_mem_take he)
    · simp only [History.accept, Ballots.advance, Function.update_apply, if_neg hw] at he ⊢
      exact hm.log_le w e he
  · intro U d hd hU
    have hd' : h.leader U = some d := hd
    simp only [History.accept, Ballots.advance, Function.update_apply] at hU ⊢
    split_ifs at hU with hdv
    · subst hdv; subst hU
      rw [hc] at hd'
      exact absurd (Option.some.inj hd').symm hv
    · rw [if_neg hdv]
      exact hm.leading U d hd' hU

end History

end Consensus
