import Raft2PC.Consensus.Progress
import Raft2PC.Proofs.CatchUp
import Raft2PC.Proofs.ConfirmedOnce
import Raft2PC.Proofs.LeaderAdvances
import Raft2PC.Proofs.Truncation

/-! Two servers that run are enough. Whatever has happened, one of them can be elected, bring its
log to the other and confirm a new request, without the third. -/

namespace Raft2PC

open AIOServer AppendEntriesExecutor Cluster

/-! ### Steps of two servers -/

/-- The timer of `p` fires, or a message on a connection of `p` to `q` is read at either end. -/
def between (p q : Idx) (u : Undefined) (s : Cluster) (e : Event) : Prop :=
  e.undef = u ∧
    match e.action with
    | .timeout r => r = p
    | .deliver k _ => ∃ c, s.net[k]? = some c ∧ c.src = p ∧ c.dst = q
    | _ => False

/-- Two servers run. -/
structure Pair (cid : ℕ) (p q : Idx) (s : Cluster) : Prop where
  apart : q ≠ p
  runs : (s.servers p).pretendFail = false
  follows : (s.servers q).pretendFail = false
  leading : ∃ h, Leading cid s.raft s.net h

variable {cid : ℕ} {p q r : Idx} {u : Undefined} {s s' : Cluster} {e : Event}

theorem between_timeout : between p q u s ⟨.timeout p, u⟩ := ⟨rfl, rfl⟩

theorem between_deliver {k : ℕ} {c : Connection} (fd : ℤ) (hk : s.net[k]? = some c)
    (hsrc : c.src = p) (hdst : c.dst = q) : between p q u s ⟨.deliver k fd, u⟩ :=
  ⟨rfl, c, hk, hsrc, hdst⟩

theorem Connection.reader_eq (c : Connection) : c.reader = c.src ∨ c.reader = c.dst := by
  unfold reader
  cases c.call with
  | voteReq | appendReq => exact Or.inr rfl
  | voteRsp | appendRsp => exact Or.inl rfl

theorem servers_between (h : between p q u s e) (hp : r ≠ p) (hq : r ≠ q) :
    (s.step e).servers r = s.servers r := by
  obtain ⟨action, undef⟩ := e
  obtain ⟨-, h⟩ := h
  cases action with
  | timeout r' =>
    obtain rfl : r' = p := h
    exact Function.update_of_ne hp _ _
  | deliver k fd =>
    obtain ⟨c, hk, rfl, rfl⟩ := h
    simp only [Cluster.step, hk]
    refine Function.update_of_ne ?_ _ _
    rcases c.reader_eq with hc | hc
    · rwa [hc]
    · rwa [hc]
  | request | lose => exact h.elim

theorem servers_path (h : Path (between p q u) s s') (hp : r ≠ p) (hq : r ≠ q) :
    s'.servers r = s.servers r := by
  induction h with
  | refl => rfl
  | step e _ he ih => rw [servers_between he hp hq, ih]

theorem stopped_between (h : between p q u s e) (r : Idx) :
    ((s.step e).servers r).pretendFail = (s.servers r).pretendFail := by
  obtain ⟨action, undef⟩ := e
  obtain ⟨-, h⟩ := h
  cases action with
  | timeout r' => exact stopped_timeout r _
  | deliver k fd => exact stopped_deliver r k fd _
  | request | lose => exact h.elim

theorem Pair.step (h : Pair cid p q s) (he : between p q u s e) : Pair cid p q (s.step e) where
  apart := h.apart
  runs := (stopped_between he p).trans h.runs
  follows := (stopped_between he q).trans h.follows
  leading := by
    obtain ⟨hist, hl⟩ := h.leading
    obtain ⟨hist', hl', -⟩ := hl.next e
    exact ⟨hist', hl'⟩

theorem Pair.path (h : Pair cid p q s) (hp : Path (between p q u) s s') : Pair cid p q s' := by
  induction hp with
  | refl => exact h
  | step e _ he ih => exact ih.step he

theorem Pair.serverId (h : Pair cid p q s) : (s.raft p).serverId = Raft2PC.serverId cid p := by
  obtain ⟨hist, hl⟩ := h.leading
  exact (hl.voting.voter p).id

theorem Pair.other (h : Pair cid p q s) : q ∈ others (s.raft p) := by
  simp only [others, List.mem_filter, List.mem_finRange, true_and, decide_eq_true_eq, h.serverId,
    serverId_mod]
  exact fun heq => h.apart (Fin.ext (by exact_mod_cast heq))

/-- A broadcast has put the message for `q` at its place. -/
theorem broadcast_at (rs : RaftState) {N N' : List Connection} (f : Idx → Connection)
    (hN : N' = N ++ (others rs).map f) (hq : q ∈ others rs) :
    N'[N.length + (others rs).idxOf q]? = some (f q) := by
  rw [hN, List.getElem?_append_right (Nat.le_add_right _ _), Nat.add_sub_cancel_left,
    List.getElem?_map, List.getElem?_idxOf hq]
  rfl

theorem exchange (u : Undefined) {k : ℕ} {c : Connection} (c' : Connection) (fd : ℤ)
    (hk : s.net[k]? = some c) (hc : c.reader = q) (hq : (s.servers q).pretendFail = false)
    (hacts : (dispatch u fd (s.raft q) c.msg).2.filterMap c.answered = [c'])
    (hdial : (dispatch u fd (s.raft q) c.msg).2.filterMap (Connection.dialed q) = []) :
    (s.step ⟨.deliver k fd, u⟩).raft = s.set q (dispatch u fd (s.raft q) c.msg).1 ∧
      (s.step ⟨.deliver k fd, u⟩).net[(s.step ⟨.deliver k fd, u⟩).net.length - 1]? = some c' := by
  subst hc
  obtain ⟨hraft, hnet⟩ := step_deliver fd u hk hq
  rw [hacts, hdial, List.append_nil] at hnet
  refine ⟨hraft, ?_⟩
  rw [← List.getLast?_eq_getElem?, hnet, List.getLast?_concat]

/-! ### Election -/

theorem Untouched.trans {a b c : RaftState} (h : Untouched a b) (h' : Untouched b c) :
    Untouched a c where
  clusterId := h'.clusterId.trans h.clusterId
  log := h'.log.trans h.log
  commitIndex := h'.commitIndex.trans h.commitIndex
  balances := h'.balances.trans h.balances
  locks := h'.locks.trans h.locks
  coming := by
    rcases h'.coming with hcoming | hcoming
    · rw [hcoming]
      exact h.coming
    · rw [h.log] at hcoming
      exact Or.inr hcoming

/-- Since `s`, server `p` has become a candidate of term `T` and has asked `q` for its vote. -/
structure Campaigns (p q : Idx) (s s' : Cluster) (T : ℤ) : Prop where
  kept : Untouched (s.raft p) (s'.raft p)
  voter : s'.raft q = s.raft q
  role : (s'.raft p).role = .candidate
  votes : (s'.raft p).voteGrantedNum = 1
  term : (s'.raft p).currentTerm = T
  asked : ∃ k : ℕ, s'.net[k]? = some ⟨p, q, .voteReq (voteReq (s'.raft p))⟩

theorem campaigns_of_vote (h : Pair cid p q s) (u : Undefined)
    (hrole : (s.raft p).role = .candidate ∨
      ((s.raft p).role = .follower ∧ (s.raft p).heardHeartBeat = false)) :
    Campaigns p q s (s.step ⟨.timeout p, u⟩) ((s.raft p).currentTerm + 1) := by
  obtain ⟨b, hraft, hnet⟩ := step_timeout_vote u h.runs hrole
  have hp : (s.step ⟨.timeout p, u⟩).raft p =
      { (broadcastVote (s.raft p)).1 with heardHeartBeat := b } := by rw [hraft, set_same]
  refine ⟨?_, by rw [hraft, set_other h.apart], ?_, ?_, ?_,
    s.net.length + (others (s.raft p)).idxOf q, ?_⟩
  · rw [hp]
    exact ⟨rfl, rfl, rfl, rfl, rfl, Or.inl rfl⟩
  · rw [hp]
    rfl
  · rw [hp]
    rfl
  · rw [hp]
    rfl
  · rw [hp]
    exact broadcast_at (broadcastVote (s.raft p)).1
      (fun idx => ⟨p, idx, .voteReq (voteReq (broadcastVote (s.raft p)).1)⟩) hnet h.other

theorem timeout_heard (hp : (s.servers p).pretendFail = false) (u : Undefined)
    (hrole : (s.raft p).role = .follower) (hheard : (s.raft p).heardHeartBeat = true) :
    (s.step ⟨.timeout p, u⟩).raft = s.set p { s.raft p with heardHeartBeat := false } := by
  rw [(step_timeout s p u).1]
  unfold raft at hrole hheard
  simp [timeout, hp, hrole, hheard, raft]

theorem Pair.campaigns_soon (h : Pair cid p q s) (hrole : (s.raft p).role ≠ .leader)
    (u : Undefined) : ∃ s', Path (between p q u) s s' ∧ Campaigns p q s s' ((s.raft p).currentTerm + 1) := by
  cases hr : (s.raft p).role with
  | leader => exact absurd hr hrole
  | candidate =>
    exact ⟨_, .step _ .refl between_timeout, campaigns_of_vote h u (Or.inl hr)⟩
  | follower =>
    cases hh : (s.raft p).heardHeartBeat with
    | false => exact ⟨_, .step _ .refl between_timeout, campaigns_of_vote h u (Or.inr ⟨hr, hh⟩)⟩
    | true =>
      have hwait := timeout_heard h.runs u hr hh
      have hp : (s.step ⟨.timeout p, u⟩).raft p = { s.raft p with heardHeartBeat := false } := by
        rw [hwait, set_same]
      have hready : ((s.step ⟨.timeout p, u⟩).raft p).role = .follower ∧
          ((s.step ⟨.timeout p, u⟩).raft p).heardHeartBeat = false := by
        rw [hp]
        exact ⟨hr, rfl⟩
      have hcamp := campaigns_of_vote (h.step between_timeout) u (Or.inr hready)
      have hkept := hcamp.kept
      have hterm := hcamp.term
      rw [hp] at hkept hterm
      refine ⟨_, .step _ (.step _ .refl between_timeout) between_timeout, ?_⟩
      exact ⟨⟨hkept.clusterId, hkept.log, hkept.commitIndex, hkept.balances, hkept.locks,
        hkept.coming⟩, by rw [hcamp.voter, hwait, set_other h.apart], hcamp.role,
        hcamp.votes, hterm, hcamp.asked⟩

/-- Timeouts raise the term of a candidate as far as it takes. -/
theorem Pair.campaigns (h : Pair cid p q s) (hrole : (s.raft p).role ≠ .leader) (u : Undefined)
    (n : ℕ) : ∃ s', Path (between p q u) s s' ∧
      Campaigns p q s s' ((s.raft p).currentTerm + 1 + n) := by
  induction n with
  | zero =>
    obtain ⟨s', hpath, hcamp⟩ := h.campaigns_soon hrole u
    exact ⟨s', hpath, by rwa [Nat.cast_zero, add_zero]⟩
  | succ n ih =>
    obtain ⟨s', hpath, hcamp⟩ := ih
    have hnext := campaigns_of_vote (h.path hpath) u (Or.inl hcamp.role)
    refine ⟨_, .step _ hpath between_timeout, hcamp.kept.trans hnext.kept,
      hnext.voter.trans hcamp.voter, hnext.role, hnext.votes, ?_, hnext.asked⟩
    rw [hnext.term, hcamp.term]
    push_cast
    omega

/-- Server `p` leads, and `q` is in no later term. -/
structure Presides (cid : ℕ) (p q : Idx) (s : Cluster) : Prop extends Pair cid p q s where
  role : (s.raft p).role = .leader
  term : (s.raft q).currentTerm ≤ (s.raft p).currentTerm

/-- The vote that a candidate of a later term has asked for makes it the leader. -/
theorem Campaigns.wins {T : ℤ} (hs : Campaigns p q s s' T) (h : Pair cid p q s') (u : Undefined)
    (hlater : (s.raft q).currentTerm < T) : ∃ s'', Path (between p q u) s' s'' ∧
      Presides cid p q s'' ∧ Untouched (s.raft p) (s''.raft p) := by
  obtain ⟨k, hk⟩ := hs.asked
  have hterm : (voteReq (s'.raft p)).term = T := hs.term
  generalize voteReq (s'.raft p) = req at hk hterm
  have hgrant : grants (s'.raft q) req = true :=
    grants_later (by rw [hs.voter]; exact hlater.trans_eq hterm.symm)
  have hvote := vote_granted 0 hgrant
  obtain ⟨hraft, hlast⟩ := exchange (q := q) u ⟨p, q, .voteRsp req ⟨T, true⟩⟩ 0 hk rfl
    h.follows
    (by simp [Connection.msg, dispatch, hvote, Connection.answered, hterm])
    (by simp [Connection.msg, dispatch, hvote, Connection.dialed])
  have hpath : Path (between p q u) s' (s'.step ⟨.deliver k 0, u⟩) :=
    .step _ .refl (between_deliver 0 hk rfl rfl)
  generalize s'.step ⟨.deliver k 0, u⟩ = s₁ at hraft hlast hpath
  have h₁ := h.path hpath
  have hp : s₁.raft p = s'.raft p := by rw [hraft, set_other h.apart.symm]
  have hq : (s₁.raft q).currentTerm = T := by
    rw [hraft, set_same]
    simp only [Connection.msg, dispatch, hvote, granted, hterm]
  have hcounts : counts (s₁.raft p) ⟨T, true⟩ := by
    rw [hp]
    exact ⟨hs.role, hs.term.symm, rfl⟩
  have helected := rsp_elected 0 hcounts (by rw [hp, hs.votes]; omega)
  obtain ⟨hraft', -⟩ := step_deliver 0 u hlast h₁.runs
  simp only [Connection.reader, Connection.msg, dispatch_leader u 0 helected rfl] at hraft'
  have hp' : (s₁.step ⟨.deliver (s₁.net.length - 1) 0, u⟩).raft p =
      (broadcastHeartBeat u (won (s₁.raft p))).1 := by rw [hraft', set_same]
  have hq' : (s₁.step ⟨.deliver (s₁.net.length - 1) 0, u⟩).raft q = s₁.raft q := by
    rw [hraft', set_other h.apart]
  have hread : between p q u s₁ ⟨.deliver (s₁.net.length - 1) 0, u⟩ :=
    between_deliver 0 hlast rfl rfl
  refine ⟨_, .step _ hpath hread, ⟨h₁.step hread, ?_, ?_⟩, ?_⟩
  · rw [hp']
    rfl
  · rw [hp', hq', hq]
    exact (hs.term.symm.trans (by rw [← hp]; rfl)).le
  · refine hs.kept.trans ?_
    rw [hp', hp]
    exact ⟨rfl, rfl, rfl, rfl, rfl, Or.inr (by simp [broadcastHeartBeat, won])⟩

/-! ### A round -/

/-- The leader `p` has sent its heart beats in `s`, server `q` has answered its own, and `rsp` is
what `p` reads next. -/
structure Answering (p q : Idx) (u : Undefined) (s s' : Cluster) (rsp : AppendEntriesRsp) : Prop where
  path : Path (between p q u) s s'
  lead : s'.raft p = (broadcastHeartBeat u (s.raft p)).1
  done : executeReq u 0 (s.raft q) (heartBeat u (broadcastHeartBeat u (s.raft p)).1 q) =
    (s'.raft q, [.writeMsg 0 (.appendEntriesRsp rsp)])
  last : s'.net[s'.net.length - 1]? =
    some ⟨p, q, .appendRsp (heartBeat u (broadcastHeartBeat u (s.raft p)).1 q) rsp⟩

theorem Pair.answering (h : Pair cid p q s) (hrole : (s.raft p).role = .leader) (u : Undefined) :
    ∃ s' rsp, Answering p q u s s' rsp := by
  obtain ⟨hraft, hnet⟩ := step_timeout_beat u h.runs hrole
  have h₁ := h.step (u := u) between_timeout
  have hpath : Path (between p q u) s (s.step ⟨.timeout p, u⟩) := .step _ .refl between_timeout
  generalize s.step ⟨.timeout p, u⟩ = s₁ at hraft hnet h₁ hpath
  have hp : s₁.raft p = (broadcastHeartBeat u (s.raft p)).1 := by rw [hraft, set_same]
  have hq : s₁.raft q = s.raft q := by rw [hraft, set_other h.apart]
  have hk := broadcast_at (broadcastHeartBeat u (s.raft p)).1
    (fun idx => ⟨p, idx, .appendReq (heartBeat u (broadcastHeartBeat u (s.raft p)).1 idx)⟩)
    hnet h.other
  obtain ⟨rsp, hrsp⟩ := answers_once u 0 (s₁.raft q)
    (heartBeat u (broadcastHeartBeat u (s.raft p)).1 q)
  obtain ⟨hraft', hlast⟩ := exchange (q := q) u
    ⟨p, q, .appendRsp (heartBeat u (broadcastHeartBeat u (s.raft p)).1 q) rsp⟩ 0 hk rfl h₁.follows
    (by simp [Connection.msg, dispatch, hrsp, Connection.answered])
    (by simp [Connection.msg, dispatch, hrsp, Connection.dialed])
  refine ⟨_, rsp, .step _ hpath (between_deliver 0 hk rfl rfl), ?_, ?_, hlast⟩
  · rw [hraft', set_other h.apart.symm, hp]
  · rw [hraft', set_same, ← hq, ← hrsp]
    rfl

variable {rsp : AppendEntriesRsp}

def answerRead (s : Cluster) (u : Undefined) : Event := ⟨.deliver (s.net.length - 1) 0, u⟩

theorem Answering.between (ha : Answering p q u s s' rsp) :
    Raft2PC.between p q u s' (answerRead s' u) :=
  between_deliver 0 ha.last rfl rfl

theorem Answering.read (ha : Answering p q u s s' rsp) (h : Pair cid p q s) :
    (s'.step (answerRead s' u)).raft p =
        (executeRsp u 0 (broadcastHeartBeat u (s.raft p)).1 rsp).1 ∧
      (s'.step (answerRead s' u)).raft q = s'.raft q ∧
      s'.emits (answerRead s' u) p =
        (executeRsp u 0 (broadcastHeartBeat u (s.raft p)).1 rsp).2 := by
  have h' := h.path ha.path
  obtain ⟨hraft, -⟩ := step_deliver 0 u ha.last h'.runs
  simp only [Connection.reader, Connection.msg, dispatch, ha.lead] at hraft
  refine ⟨?_, ?_, ?_⟩
  · rw [answerRead, hraft, set_same]
  · rw [answerRead, hraft, set_other h.apart]
  · simp only [answerRead, Cluster.emits, ha.last, Connection.reader, if_true]
    rw [process_dispatch u 0 rfl h'.runs, ← ha.lead]
    rfl

/-- A leader that is behind learns of the later term, and is a follower. -/
theorem Pair.deposes (h : Pair cid p q s) (hrole : (s.raft p).role = .leader)
    (hlater : (s.raft p).currentTerm < (s.raft q).currentTerm) (u : Undefined) :
    ∃ s', Path (between p q u) s s' ∧ Untouched (s.raft p) (s'.raft p) ∧
      (s'.raft p).role = .follower := by
  obtain ⟨s₁, rsp, ha⟩ := h.answering hrole u
  have hdone := ha.done
  rw [append_stale u 0 hlater] at hdone
  obtain ⟨-, hacts⟩ := Prod.mk.inj hdone
  obtain rfl : rsp = _ := by simpa using hacts.symm
  obtain ⟨hp, -, -⟩ := ha.read h
  rw [rsp_deposed u 0 (by exact hlater)] at hp
  refine ⟨_, .step _ ha.path ha.between, ?_, by rw [hp]; rfl⟩
  rw [hp]
  have hbeat := untouched_beat u (s.raft p)
  exact ⟨hbeat.clusterId, hbeat.log, hbeat.commitIndex, hbeat.balances, hbeat.locks, hbeat.coming⟩

/-- Either of two servers that run can be elected by the two, and its log and tables stay. -/
theorem Pair.elects (h : Pair cid p q s) (u : Undefined) : ∃ s', Path (between p q u) s s' ∧
    Presides cid p q s' ∧ Untouched (s.raft p) (s'.raft p) := by
  have hcampaign : ∀ s₁, Path (between p q u) s s₁ → (s₁.raft p).role ≠ .leader →
      Untouched (s.raft p) (s₁.raft p) → ∃ s', Path (between p q u) s s' ∧
        Presides cid p q s' ∧ Untouched (s.raft p) (s'.raft p) := by
    intro s₁ hpath hrole hkept
    have h₁ := h.path hpath
    obtain ⟨s₂, hpath', hcamp⟩ := h₁.campaigns hrole u
      ((s₁.raft q).currentTerm - (s₁.raft p).currentTerm).toNat
    obtain ⟨s₃, hpath'', hlead, hkept'⟩ := hcamp.wins (h₁.path hpath') u (by omega)
    exact ⟨s₃, (hpath.trans hpath').trans hpath'', hlead, hkept.trans hkept'⟩
  by_cases hrole : (s.raft p).role = .leader
  · rcases le_or_gt (s.raft q).currentTerm (s.raft p).currentTerm with hterm | hterm
    · exact ⟨s, .refl, ⟨h, hrole, hterm⟩, .refl _⟩
    · obtain ⟨s₁, hpath, hkept, hfollows⟩ := h.deposes hrole hterm u
      exact hcampaign s₁ hpath (by rw [hfollows]; exact Role.noConfusion) hkept
  · exact hcampaign s .refl hrole (.refl _)

/-! ### Confirmation -/

variable {fd : ℤ} {msg : WrapperMessage} {rs fs : RaftState} {x : LogEntry}

theorem answer_commitEntry {i : ℕ} (hx : rs.log[i]? = some x) (hfd : x.reqFd ≠ -1)
    (hconf : x.entry.confirmation = some msg) :
    msg ∈ answersOn x.reqFd (commitEntry u rs i).2 := by
  obtain ⟨hi, rfl⟩ := List.getElem?_eq_some_iff.mp hx
  change (if isCross rs.log[i].command then
    if isPrepare rs.log[i].command then
      some (.crossShardRsp { result := .yes, id := rs.log[i].id }) else none
    else some (.intraShardRsp { result := .success, id := rs.log[i].id })) = some msg at hconf
  unfold commitEntry
  rw [readLog_of_lt hi]
  dsimp only
  by_cases hcross : isCross rs.log[i].command = true
  · by_cases hprepare : isPrepare rs.log[i].command = true
    · rw [if_pos hcross, if_pos hprepare] at hconf
      obtain rfl := Option.some.inj hconf
      rw [if_pos hcross, if_pos hprepare, if_pos hfd, answersOn_write, if_pos rfl]
      exact List.mem_singleton_self _
    · rw [if_pos hcross, if_neg hprepare] at hconf
      cases hconf
  · rw [if_neg hcross] at hconf
    obtain rfl := Option.some.inj hconf
    rw [if_neg hcross, if_pos hfd, answersOn_write, if_pos rfl]
    exact List.mem_singleton_self _

theorem answer_commitEntries {idxs : List ℤ} {i : ℕ}
    (hin : ∀ j ∈ idxs, 0 ≤ j ∧ j < rs.log.length) (hi : (i : ℤ) ∈ idxs)
    (hx : rs.log[i]? = some x) (hfd : x.reqFd ≠ -1) (hconf : x.entry.confirmation = some msg) :
    msg ∈ answersOn x.reqFd (commitEntries u rs idxs).2 := by
  induction idxs generalizing rs with
  | nil => cases hi
  | cons idx rest ih =>
    obtain ⟨hlo, hhi⟩ := hin idx List.mem_cons_self
    obtain ⟨j, rfl⟩ := Int.eq_ofNat_of_zero_le hlo
    simp only [commitEntries, answersOn_append, List.mem_append]
    by_cases hij : i = j
    · subst hij
      exact Or.inl (answer_commitEntry hx hfd hconf)
    · have hrest : (i : ℤ) ∈ rest :=
        (List.mem_cons.mp hi).resolve_left fun heq => hij (by exact_mod_cast heq)
      have hj : j < rs.log.length := by omega
      have hkept := (commitEntry_redeems u hj).2 i hij
      refine Or.inr (ih (fun k hk => ?_) hrest (hkept.trans hx))
      rw [length_commitEntry]
      exact hin k (List.mem_cons_of_mem _ hk)

/-- Server `p` leads and has appended an entry whose commit is answered by `msg` on `fd`. -/
structure Serving (cid : ℕ) (p q : Idx) (fd : ℤ) (msg : WrapperMessage) (s : Cluster) : Prop
    extends Presides cid p q s where
  pending : ∃ L x, (s.raft p).log = L ++ [x] ∧ (s.raft p).commitIndex < L.length ∧
    x.term = (s.raft p).currentTerm ∧ x.reqFd = fd ∧ x.entry.confirmation = some msg

theorem executeRsp_counted (fd : ℤ) (hrole : rs.role = .leader) (hterm : rsp.term = rs.currentTerm)
    (hsucc : rsp.success = true)
    (hno : AppendEntriesExecutor.commits u
      { rs with logGrantedNum := rs.logGrantedNum + 1 } = false) :
    (executeRsp u fd rs rsp).1 = setMatched { rs with logGrantedNum := rs.logGrantedNum + 1 }
      rsp.serverId (rs.comingCommitIndex + 1) := by
  have hdone : onSuccess u rs rsp = (setMatched { rs with logGrantedNum := rs.logGrantedNum + 1 }
      rsp.serverId (rs.comingCommitIndex + 1), []) := by
    simp only [onSuccess, hno]
    rfl
  simp only [executeRsp]
  rw [if_pos (And.intro hrole hterm), if_pos hsucc, hdone, if_neg]
  rw [hterm]
  exact lt_irrefl _

theorem executeRsp_failed (fd : ℤ) (hrole : rs.role = .leader) (hterm : rsp.term = rs.currentTerm)
    (hfail : rsp.success = false) :
    (executeRsp u fd rs rsp).1 = (onFailure rs rsp).1 := by
  have hno : ¬rsp.success = true := by simp [hfail]
  have hle : ¬(onFailure rs rsp).1.currentTerm < rsp.term := by
    rw [hterm]
    exact lt_irrefl _
  simp only [executeRsp]
  rw [if_pos (And.intro hrole hterm), if_neg hno, if_neg hle]

/-- Only a request that starts behind the first entry can be refused. -/
theorem matched_pos {u u' : Undefined} (hmis : mismatch u' fs (heartBeat u rs q) = true) :
    0 < rs.matched q := by
  by_contra hle
  have hprev : (heartBeat u rs q).prevLogIndex = rs.matched q - 1 := rfl
  simp only [mismatch, hprev, Bool.or_eq_true, decide_eq_true_eq, Bool.and_eq_true] at hmis
  omega

/-- How far a leader is from its next commit: the votes that it has to count, and the entries by
which it may have to go back. -/
def distance (p q : Idx) (s : Cluster) : ℕ ×ₗ ℕ :=
  toLex ((2 - (s.raft p).logGrantedNum).toNat, ((s.raft p).matched q).toNat)

/-- What the next round needs of the leader after a response that has committed nothing. -/
theorem Serving.next (h : Serving cid p q fd msg s) (ha : Answering p q u s s' rsp)
    (hkept : Untouched (broadcastHeartBeat u (s.raft p)).1
      (executeRsp u 0 (broadcastHeartBeat u (s.raft p)).1 rsp).1)
    (hterm : rsp.term = (s.raft p).currentTerm)
    (hvoter : (s'.raft q).currentTerm = (s.raft p).currentTerm) :
    Serving cid p q fd msg (s'.step (answerRead s' u)) := by
  obtain ⟨hp, hq, -⟩ := ha.read h.toPair
  have hans : Answered u (broadcastHeartBeat u (s.raft p)).1 rsp
      (executeRsp u 0 (broadcastHeartBeat u (s.raft p)).1 rsp).1 :=
    answered_executeRsp u 0 hterm.le
  have hkept' := (untouched_beat u (s.raft p)).trans hkept
  rw [← hp] at hans hkept'
  obtain ⟨L, x, hlog, hcommit, hx, hfd, hconf⟩ := h.pending
  refine ⟨⟨h.path (.step _ ha.path ha.between), hans.role.trans h.role, ?_⟩, L, x,
    hkept'.log.trans hlog, hkept'.commitIndex.trans_lt hcommit, ?_, hfd, hconf⟩
  · rw [hq, hvoter, hans.currentTerm]
    exact le_rfl
  · rw [hx, hans.currentTerm]
    rfl

/-- A round confirms the entry, or brings the leader nearer to it. -/
theorem Serving.round (h : Serving cid p q fd msg s) (hfd : fd ≠ -1) (u : Undefined) :
    (∃ s', Path (between p q u) s s' ∧ between p q u s' (answerRead s' u) ∧
      msg ∈ answersOn fd (s'.emits (answerRead s' u) p)) ∨
    ∃ s', Path (between p q u) s s' ∧ Serving cid p q fd msg s' ∧
      distance p q s' < distance p q s := by
  obtain ⟨s₁, rsp, ha⟩ := h.answering h.role u
  obtain ⟨hp, -, hemits⟩ := ha.read h.toPair
  have hpath : Path (between p q u) s (s₁.step (answerRead s₁ u)) := .step _ ha.path ha.between
  obtain ⟨hist, hl⟩ := h.leading
  have hslots := (hl.counters p).slots h.role
  have hlow := (hl.counters p).low
  have hdone := ha.done
  have hbeat : (heartBeat u (broadcastHeartBeat u (s.raft p)).1 q).term =
      (s.raft p).currentTerm := rfl
  cases hmis : mismatch u (s.raft q) (heartBeat u (broadcastHeartBeat u (s.raft p)).1 q) with
  | false =>
    rw [append_accepted 0 h.term hmis] at hdone
    obtain ⟨hraftq, hacts⟩ := Prod.mk.inj hdone
    have hrsp : rsp = ⟨(heartBeat u (broadcastHeartBeat u (s.raft p)).1 q).term, true,
        (heartBeat u (broadcastHeartBeat u (s.raft p)).1 q).serverId⟩ := by
      simpa using hacts.symm
    have hvoter : (s₁.raft q).currentTerm = (s.raft p).currentTerm := by
      rw [← hraftq]
      rfl
    obtain ⟨L, x, hlog, hcommit, hx, hxfd, hconf⟩ := h.pending
    have hcoming : (broadcastHeartBeat u (s.raft p)).1.comingCommitIndex = L.length := by
      simp [broadcastHeartBeat, hlog]
    have hlast : (s.raft p).log[L.length]? = some x := by simp [hlog]
    have hlen : (s.raft p).log.length = L.length + 1 := by simp [hlog]
    have hread : readLog u (s.raft p).log L.length = x := by
      rw [readLog_of_lt (by omega)]
      exact (List.getElem?_eq_some_iff.mp hlast).2
    by_cases hmaj : 2 ≤ (s.raft p).logGrantedNum + 1
    · -- the majority is there: the commit loop comes to the entry
      left
      refine ⟨s₁, ha.path, ha.between, ?_⟩
      have hdec : decides u (broadcastHeartBeat u (s.raft p)).1 rsp = true := by
        simp only [decides, AppendEntriesExecutor.commits, hcoming, hrsp]
        simp [broadcastHeartBeat, heartBeat, h.role, hmaj, hread, hx]
      obtain ⟨-, shard, -, hacts'⟩ := commits_executeRsp 0 hdec
      rw [hemits, hacts', answersOn_append, hcoming, ← hxfd]
      refine List.mem_append_left _ (answer_commitEntries (i := L.length) (fun j hj => ?_)
        (mem_indices.mpr ⟨?_, le_rfl⟩) hlast (by rwa [hxfd]) hconf)
      · have hj' := mem_indices.mp hj
        dsimp only [broadcastHeartBeat] at hj' ⊢
        omega
      · dsimp only [broadcastHeartBeat]
        omega
    · -- one more vote is counted
      right
      have hno : AppendEntriesExecutor.commits u { (broadcastHeartBeat u (s.raft p)).1 with
          logGrantedNum := (broadcastHeartBeat u (s.raft p)).1.logGrantedNum + 1 } = false := by
        simp [AppendEntriesExecutor.commits, broadcastHeartBeat, hmaj]
      have hterm : rsp.term = (s.raft p).currentTerm := by rw [hrsp, hbeat]
      have hcounted : (executeRsp u 0 (broadcastHeartBeat u (s.raft p)).1 rsp).1 =
          setMatched { (broadcastHeartBeat u (s.raft p)).1 with
            logGrantedNum := (broadcastHeartBeat u (s.raft p)).1.logGrantedNum + 1 }
            rsp.serverId ((broadcastHeartBeat u (s.raft p)).1.comingCommitIndex + 1) :=
        executeRsp_counted 0 h.role hterm (by rw [hrsp]) hno
      refine ⟨_, hpath, h.next ha ?_ hterm hvoter, ?_⟩
      · rw [hcounted]
        exact ⟨rfl, rfl, rfl, rfl, rfl, Or.inl rfl⟩
      · have hnum : ((s₁.step (answerRead s₁ u)).raft p).logGrantedNum =
            (s.raft p).logGrantedNum + 1 := by
          rw [hp, hcounted]
          rfl
        rw [distance, distance, Prod.Lex.toLex_lt_toLex, hnum]
        exact Or.inl (by dsimp only; omega)
  | true =>
    -- the leader goes back by one entry
    right
    rw [append_mismatched 0 h.term hmis] at hdone
    obtain ⟨hraftq, hacts⟩ := Prod.mk.inj hdone
    have hrsp : rsp = ⟨(heartBeat u (broadcastHeartBeat u (s.raft p)).1 q).term, false,
        (heartBeat u (broadcastHeartBeat u (s.raft p)).1 q).serverId⟩ := by
      simpa using hacts.symm
    have hvoter : (s₁.raft q).currentTerm = (s.raft p).currentTerm := by
      rw [← hraftq]
      rfl
    have hpos : 0 < (s.raft p).matched q := matched_pos hmis
    have hterm : rsp.term = (s.raft p).currentTerm := by rw [hrsp, hbeat]
    have hfailed : (executeRsp u 0 (broadcastHeartBeat u (s.raft p)).1 rsp).1 =
        (onFailure (broadcastHeartBeat u (s.raft p)).1 rsp).1 :=
      executeRsp_failed 0 h.role hterm (by rw [hrsp])
    refine ⟨_, hpath, h.next ha ?_ hterm hvoter, ?_⟩
    · rw [hfailed]
      exact ⟨rfl, rfl, rfl, rfl, rfl, Or.inl rfl⟩
    · have hnum : ((s₁.step (answerRead s₁ u)).raft p).logGrantedNum =
          (s.raft p).logGrantedNum := by
        rw [hp, hfailed]
        rfl
      have hmatched : ((s₁.step (answerRead s₁ u)).raft p).matched q =
          (s.raft p).matched q - 1 := by
        rw [hp, hrsp]
        exact matched_answer h.role hslots
      rw [distance, distance, Prod.Lex.toLex_lt_toLex, hnum, hmatched]
      exact Or.inr ⟨rfl, by dsimp only; omega⟩

/-! ### A request -/

def ClientMsg.confirmation : ClientMsg → Option WrapperMessage
  | .intraShard req => some (.intraShardRsp { result := .success, id := req.id })
  | .crossShard req =>
    if req.phase = .prepare then some (.crossShardRsp { result := .yes, id := req.id }) else none
  | _ => none

theorem intraConflict_fst (rs : RaftState) (req : IntraShardReq) :
    (IntraShardExecutor.conflict rs req).1 = (rs.locked req.senderId ||
      rs.locked req.receiverId || decide (rs.balance req.senderId < req.amount)) := by
  unfold IntraShardExecutor.conflict
  cases hs : rs.locked req.senderId <;> cases hr : rs.locked req.receiverId <;> simp [hs, hr]

theorem crossConflict_fst (rs : RaftState) (req : CrossShardReq) :
    (CrossShardExecutor.conflict rs req).1 =
      (decide (req.senderClusterId = rs.clusterId) && (rs.locked req.senderId ||
        decide (rs.balance req.senderId < req.amount)) ||
      decide (req.receiverClusterId = rs.clusterId) && rs.locked req.receiverId) := by
  have hid : (CrossShardExecutor.senderConflict rs req).2.clusterId = rs.clusterId := by
    unfold CrossShardExecutor.senderConflict
    dsimp only
    split_ifs <;> rfl
  have hsender : (CrossShardExecutor.senderConflict rs req).1 =
      (decide (req.senderClusterId = rs.clusterId) && (rs.locked req.senderId ||
        decide (rs.balance req.senderId < req.amount))) := by
    unfold CrossShardExecutor.senderConflict
    by_cases hs : req.senderClusterId = rs.clusterId
    · cases hl : rs.locked req.senderId <;> simp [hs, hl]
    · simp [hs]
  have hreceiver : (CrossShardExecutor.receiverConflict
      (CrossShardExecutor.senderConflict rs req).2 req).1 =
        (decide (req.receiverClusterId = rs.clusterId) && rs.locked req.receiverId) := by
    unfold CrossShardExecutor.receiverConflict
    rw [hid]
    split_ifs with hr
    · simp [hr, locked_senderConflict]
    · simp [hr]
  rw [← hsender, ← hreceiver]
  unfold CrossShardExecutor.conflict
  dsimp only
  cases (CrossShardExecutor.senderConflict rs req).1 <;> simp

/-- The tests of a handler read nothing that an election changes. -/
theorem created_untouched {a b : RaftState} {m : ClientMsg} (h : Untouched a b)
    (hm : (created fd a m).isSome) (hmsg : m.confirmation = some msg) :
    ∃ x, created fd b m = some x ∧ x.term = b.currentTerm ∧ x.reqFd = fd ∧
      x.entry.confirmation = some msg := by
  have hlocked : ∀ k, b.locked k = a.locked k := fun k => by
    simp only [RaftState.locked, h.locks]
  have hbalance : ∀ k, b.balance k = a.balance k := fun k => by
    simp only [RaftState.balance, h.balances]
  cases m with
  | intraShard req =>
    obtain rfl := Option.some.inj hmsg
    simp only [created, intraConflict_fst, IntraShardExecutor.seen, hlocked, hbalance,
      h.clusterId, h.log] at hm ⊢
    split_ifs at hm ⊢
    · exact ⟨_, rfl, rfl, rfl, by simp [Entry.confirmation, LogEntry.entry, isCross_pays]⟩
    · cases hm
  | crossShard req =>
    simp only [ClientMsg.confirmation] at hmsg
    split_ifs at hmsg with hphase
    obtain rfl := Option.some.inj hmsg
    simp only [created, hphase, crossConflict_fst, CrossShardExecutor.prepareSeen, hlocked,
      hbalance, h.clusterId, h.log] at hm ⊢
    split_ifs at hm ⊢
    · cases hm
    · exact ⟨_, rfl, rfl, rfl, rfl⟩
    · cases hm
  | _ => cases hmsg

theorem stopped_request (r : Idx) {m : ClientMsg} (hmsg : m.confirmation = some msg) :
    ((s.step ⟨.request p fd m, u⟩).servers r).pretendFail = (s.servers r).pretendFail := by
  have hself : (process u fd (s.servers p) m.msg).1.pretendFail = (s.servers p).pretendFail := by
    cases m with
    | intraShard req | crossShard req =>
      simp only [ClientMsg.msg, process]
      split_ifs <;> rfl
    | _ => cases hmsg
  simp only [Cluster.step, Cluster.after, Function.update_apply]
  split_ifs with hr
  · rw [hself, hr]
  · rfl

/-- The leader appends the entry of a request that passed the tests before the election. -/
theorem Presides.serves {s₀ : Cluster} {m : ClientMsg} (h : Presides cid p q s)
    (hmsg : m.confirmation = some msg) (hkept : Untouched (s₀.raft p) (s.raft p))
    (hm : (created fd (s₀.raft p) m).isSome)
    (hci : (s₀.raft p).commitIndex < (s₀.raft p).log.length) (u : Undefined) :
    Serving cid p q fd msg (s.step ⟨.request p fd m, u⟩) := by
  obtain ⟨x, hx, hterm, hxfd, hconf⟩ := created_untouched hkept hm hmsg
  have hraft := (step_request s p fd m u).1
  rw [h.runs, if_neg Bool.false_ne_true] at hraft
  have hsame := same_serve u fd (s.raft p) m
  have hp : (s.step ⟨.request p fd m, u⟩).raft p = serve u fd (s.raft p) m := by
    rw [hraft, set_same]
  have hq : (s.step ⟨.request p fd m, u⟩).raft q = s.raft q := by rw [hraft, set_other h.apart]
  have hpair : Pair cid p q (s.step ⟨.request p fd m, u⟩) := by
    obtain ⟨hist, hl⟩ := h.leading
    obtain ⟨hist', hl', -⟩ := hl.next ⟨.request p fd m, u⟩
    exact ⟨h.apart, (stopped_request p hmsg).trans h.runs,
      (stopped_request q hmsg).trans h.follows, hist', hl'⟩
  refine ⟨⟨hpair, ?_, ?_⟩, (s.raft p).log, x, ?_, ?_, ?_, hxfd, hconf⟩
  · rw [hp, hsame.role, h.role]
  · rw [hp, hq, hsame.currentTerm]
    exact h.term
  · rw [hp, serve_log, hx]
    rfl
  · rw [hp, hsame.commitIndex, hkept.commitIndex, hkept.log]
    exact hci
  · rw [hp, hsame.currentTerm, hterm]

/-- A cluster with two running servers is available: whatever has happened, and without the third
server, either of them can be elected, take a request that passes the tests of its handler, and
confirm it. -/
theorem available (cid : ℕ) (shard : Table ℤ) (es : List Event) (p q : Idx) (hpq : q ≠ p)
    (hp : (((init cid shard).run es).servers p).pretendFail = false)
    (hq : (((init cid shard).run es).servers q).pretendFail = false)
    (hci : (((init cid shard).run es).raft p).commitIndex <
      (((init cid shard).run es).raft p).log.length)
    (fd : ℤ) (hfd : fd ≠ -1) (m : ClientMsg) (msg : WrapperMessage)
    (hmsg : m.confirmation = some msg)
    (hm : (created fd (((init cid shard).run es).raft p) m).isSome) (u : Undefined) :
    ∃ s₁ s₂, Path (between p q u) ((init cid shard).run es) s₁ ∧ (s₁.raft p).role = .leader ∧
      Path (between p q u) (s₁.step ⟨.request p fd m, u⟩) s₂ ∧
      (∃ e, between p q u s₂ e ∧ msg ∈ answersOn fd (s₂.emits e p)) ∧
      ∀ r, r ≠ p → r ≠ q → s₂.servers r = ((init cid shard).run es).servers r := by
  have hpair : Pair cid p q ((init cid shard).run es) := by
    obtain ⟨hist, hl⟩ := (leading_init cid shard).run es
    exact ⟨hpq, hp, hq, hist, hl⟩
  generalize (init cid shard).run es = s at *
  obtain ⟨s₁, hpath, hlead, hkept⟩ := hpair.elects u
  have hserving := hlead.serves hmsg hkept hm hci u
  obtain ⟨s₂, hpath', e, he, hin⟩ := Consensus.exists_goal (R := Path (between p q u))
    (fun h h' => h.trans h') (distance p q)
    (G := fun t => ∃ e, between p q u t e ∧ msg ∈ answersOn fd (t.emits e p))
    (fun t ht => by
      rcases ht.round hfd u with ⟨t', hpt, hb, hin⟩ | hnext
      · exact Or.inl ⟨t', hpt, _, hb, hin⟩
      · exact Or.inr hnext) hserving
  refine ⟨s₁, s₂, hpath, hlead.role, hpath', ⟨e, he, hin⟩, fun r hr hr' => ?_⟩
  rw [servers_path hpath' hr hr', ← servers_path hpath hr hr']
  exact Function.update_of_ne hr _ _

/-- Server 2 has been the leader and is gone; server 0 is elected and confirms a payment. -/
theorem available_successor :
    ∃ s₁ s₂, Path (between 0 1 .zero)
        ((init 0 purse).run (calmly [.timeout 2, .deliver 0 9, .deliver 1 9])) s₁ ∧
      (s₁.raft 0).role = .leader ∧
      Path (between 0 1 .zero) (s₁.step ⟨.request 0 7 (pay 1 100 200 5), .zero⟩) s₂ ∧
      (∃ e, between 0 1 .zero s₂ e ∧
        .intraShardRsp ⟨.success, 1⟩ ∈ answersOn 7 (s₂.emits e 0)) ∧
      ∀ r, r ≠ 0 → r ≠ 1 → s₂.servers r =
        ((init 0 purse).run (calmly [.timeout 2, .deliver 0 9, .deliver 1 9])).servers r :=
  available 0 purse (calmly [.timeout 2, .deliver 0 9, .deliver 1 9]) 0 1 (by decide) (by decide)
    (by decide) (by decide) 7 (by decide) (pay 1 100 200 5) _ rfl (by decide) .zero

end Raft2PC
