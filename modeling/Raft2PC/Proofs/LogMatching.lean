import Raft2PC.Proofs.Election
import Raft2PC.Sanity.Merge
import Raft2PC.Sanity.Reading

/-! Log matching. As long as only leaders create entries, every log is a patchwork of
leader logs, and an AppendEntries request carries a slice of one. -/

namespace Raft2PC

open AIOServer Consensus

def Indexed (L : List Entry) : Prop := ∀ (i : ℕ) (e : Entry), L[i]? = some e → e.index = (i : ℤ)

theorem Indexed.of_isPrefix {L M : List Entry} (hM : Indexed M) (hp : L <+: M) : Indexed L :=
  fun i e hi => hM i e (getElem?_of_isPrefix hp hi)

theorem Indexed.install {P L : List Entry} (hP : Indexed P) (hL : Indexed L) :
    Indexed (install P L) := by
  unfold Consensus.install
  split_ifs
  · exact hL
  · exact hP

theorem Indexed.concat {L : List Entry} {e : Entry} (hL : Indexed L)
    (he : e.index = (L.length : ℤ)) : Indexed (L ++ [e]) := by
  intro i a hi
  by_cases hlt : i < L.length
  · exact hL i a (by rwa [List.getElem?_append_left hlt] at hi)
  · have hlen := (List.getElem?_eq_some_iff.mp hi).1
    simp only [List.length_append, List.length_singleton] at hlen
    have hieq : i = L.length := by omega
    subst hieq
    have ha : e = a := by simpa using hi
    rw [← ha, he]

/-- The history part of the invariant. -/
structure Sound (h : Hist) : Prop where
  matched : h.Matched Entry.term
  kept : h.Kept
  copied : h.Copied Entry.term
  log : ∀ p, Indexed (h.log p)
  ballotLog : ∀ p T, Indexed (h.ballotLog p T)
  leaderLog : ∀ T, Indexed (h.leaderLog T)

namespace Sound

variable {h : Hist}

theorem start : Sound History.start where
  matched := History.start_matched
  kept := History.start_kept
  copied := History.start_copied
  log p i e hi := by simp [History.start] at hi
  ballotLog p T i e hi := by simp [History.start] at hi
  leaderLog T i e hi := by simp [History.start] at hi

theorem advance (hs : Sound h) {v : Idx} {T : ℤ} (hT : h.term v ≤ T) : Sound (h.advance v T) :=
  ⟨hs.matched.advance hT, hs.kept.advance hT, hs.copied.advance hs.matched hT, hs.log,
    hs.ballotLog, hs.leaderLog⟩

theorem cast (hs : Sound h) {v c : Idx} {T : ℤ} (hT : h.term v ≤ T) (hfree : h.vote v T = none)
    (hself : v = c → h.term v < T) : Sound (h.cast v T c) where
  matched := hs.matched.cast hT hfree hself
  kept := hs.kept.cast hT hfree
  copied := hs.copied.cast hs.matched hT
  log := hs.log
  ballotLog p U := by
    simp only [History.cast, Function.update_apply]
    by_cases hp : p = v
    · subst hp
      by_cases hU : U = T
      · simpa [hU] using hs.log p
      · simpa [hU] using hs.ballotLog p U
    · simpa [hp] using hs.ballotLog p U
  leaderLog := hs.leaderLog

theorem elect (hs : Sound h) {c : Idx} {T : ℤ} {Q : Finset Idx} (hQ : Quorum Q)
    (hvote : ∀ v ∈ Q, h.vote v T = some c) (hnone : h.leader T = none)
    (hself : h.vote c T = some c) (hlog : h.log c = h.ballotLog c T) (hterm : h.term c = T) :
    Sound (h.elect c T) where
  matched := hs.matched.elect hQ hvote hnone hself hlog
  kept := hs.kept.elect hs.matched hQ hvote hnone hterm
  copied := hs.copied.elect hs.matched hnone hterm
  log := hs.log
  ballotLog := hs.ballotLog
  leaderLog U := by
    simp only [History.elect, Function.update_apply]
    split_ifs
    · exact hs.log c
    · exact hs.leaderLog U

theorem append (hs : Sound h) {c : Idx} {e : Entry} (hlead : h.leader (h.term c) = some c)
    (he : e.term = h.term c) (hidx : e.index = ((h.log c).length : ℤ)) :
    Sound (h.append c e) where
  matched := hs.matched.append hlead he
  kept := hs.kept.append hs.matched hlead
  copied := hs.copied.append hlead he
  log p := by
    simp only [History.append, Function.update_apply]
    split_ifs
    · exact (hs.log c).concat hidx
    · exact hs.log p
  ballotLog := hs.ballotLog
  leaderLog T := by
    simp only [History.append, Function.update_apply]
    split_ifs
    · rw [hs.matched.leading _ c hlead rfl] at hidx
      exact (hs.leaderLog _).concat hidx
    · exact hs.leaderLog T

theorem accept (hs : Sound h) {v c : Idx} {T : ℤ} {m : ℕ} (hT : h.term v ≤ T)
    (hc : h.leader T = some c) (hv : v ≠ c) (hlen : m ≤ (h.leaderLog T).length) :
    Sound (h.accept v T m) where
  matched := hs.matched.accept hT hc hv
  kept := hs.kept.accept hs.matched hT hc hv hlen
  copied := hs.copied.accept hs.matched hT hc hv
  log p := by
    simp only [History.accept, Function.update_apply]
    split_ifs
    · exact ((hs.leaderLog T).of_isPrefix (List.take_prefix _ _)).install (hs.log v)
    · exact hs.log p
  ballotLog := hs.ballotLog
  leaderLog := hs.leaderLog

end Sound

/-! ### The invariant -/

def lastIndex (L : List Entry) : ℤ := (L.getLast?.map Entry.index).getD (-1)

def lastTerm (L : List Entry) : ℤ := (L.getLast?.map Entry.term).getD (-1)

theorem lastlogindex_eq (rs : RaftState) : rs.lastlogindex = lastIndex (entries rs) := by
  simp only [RaftState.lastlogindex, lastIndex, entries, List.getLast?_map, Option.map_map]
  rfl

theorem lastlogterm_eq (rs : RaftState) : rs.lastlogterm = lastTerm (entries rs) := by
  simp only [RaftState.lastlogterm, lastTerm, entries, List.getLast?_map, Option.map_map]
  rfl

/-- `req` describes the log its candidate stands with. -/
def Stands (h : Hist) (c : Connection) (req : RequestVoteReq) : Prop :=
  req.lastLogIndex = lastIndex (h.ballotLog c.src req.term) ∧
    req.lastLogTerm = lastTerm (h.ballotLog c.src req.term)

/-- `req` was sent by the leader of its term to another server. -/
structure Led (h : Hist) (c : Connection) (req : AppendEntriesReq) : Prop where
  leader : h.leader req.term = some c.src
  ne : c.src ≠ c.dst
  sent : Sent h req

def LogOk (h : Hist) (c : Connection) : Prop :=
  match c.call with
  | .voteReq req | .voteRsp req _ => Stands h c req
  | .appendReq req => Led h c req
  | .appendRsp req rsp => Led h c req ∧ (rsp.success = true →
      rsp.term = req.term ∧ (covered req).toNat ≤ h.acked c.dst req.term)

structure LoggerOk (h : Hist) (p : Idx) (rs : RaftState) : Prop where
  log : h.log p = entries rs
  stands : rs.role = .candidate → h.ballotLog p rs.currentTerm = entries rs
  matched : rs.role = .leader → ∀ i, rs.matched i ≤ rs.log.length
  coming : rs.role = .leader → rs.comingCommitIndex + 1 ≤ rs.log.length

structure Logging (cid : ℕ) (R : Idx → RaftState) (N : List Connection) (h : Hist) : Prop where
  voting : Voting cid R N h
  sound : Sound h
  logger : ∀ p, LoggerOk h p (R p)
  conn : ∀ c ∈ N, LogOk h c

variable {cid : ℕ} {R : Idx → RaftState} {N : List Connection} {h h' : Hist} {s : Cluster}
  {e : Event}

theorem Logging.leading (hl : Logging cid R N h) {p : Idx} (hrole : (R p).role = .leader) :
    h.leaderLog (R p).currentTerm = entries (R p) := by
  rw [← (hl.logger p).log]
  exact (hl.sound.matched.leading _ p ((hl.voting.voter p).leads hrole)
    (hl.voting.voter p).term).symm

/-- A leader that creates an entry creates it in its term. -/
theorem Logging.creates (hl : Logging cid s.raft N h) {p : Idx} {fd : ℤ} {m : ClientMsg}
    {x : LogEntry} (hp : (s.servers p).pretendFail = false) (he : e.action = .request p fd m)
    (hok : leaderAppends s e = true) (hx : created fd (s.raft p) m = some x) :
    (s.raft p).role = .leader ∧ h.leader (h.term p) = some p ∧ x.entry.term = h.term p ∧
      x.entry.index = ((h.log p).length : ℤ) := by
  have hrole : (s.raft p).role = .leader := by
    simpa [leaderAppends, he, hp, hx] using hok
  obtain ⟨hindex, hterm⟩ := created_fresh hx
  have hv := hl.voting.voter p
  refine ⟨hrole, ?_, ?_, ?_⟩
  · rw [hv.term]; exact hv.leads hrole
  · rw [hv.term]; exact hterm hrole
  · rw [(hl.logger p).log, entries_length]; exact hindex

theorem Logging.led (hl : Logging cid R N h) {k : ℕ} {src dst : Idx} {req : AppendEntriesReq}
    (hk : N[k]? = some ⟨src, dst, .appendReq req⟩) : Led h ⟨src, dst, .appendReq req⟩ req :=
  hl.conn _ (List.mem_of_getElem? hk)

theorem Logging.sound_step (hl : Logging cid s.raft s.net h) (hok : leaderAppends s e = true)
    (hs : Recorded s h e R N h') : Sound h' := by
  have hterm : ∀ p, h.term p = (s.raft p).currentTerm := fun p => (hl.voting.voter p).term
  have hv := hl.voting
  cases hs with
  | idle | drop | beat | ungranted | counted | reminded | stale | answered => exact hl.sound
  | campaign p b hrole =>
    refine hl.sound.cast (by rw [hterm]; omega) ?_ (fun _ => by rw [hterm]; omega)
    exact hv.ballots.free_above (by rw [hterm]; omega)
  | request p fd m he hp =>
    cases hx : created fd (s.raft p) m with
    | none => exact hl.sound
    | some x =>
      obtain ⟨-, hlead, hxt, hxi⟩ := hl.creates hp he hok hx
      exact hl.sound.append hlead hxt hxi
  | granted k fd src dst req he hp hk hyes =>
    have hask : Asked cid h ⟨src, dst, .voteReq req⟩ req := hv.vote _ (List.mem_of_getElem? hk)
    refine hl.sound.cast ?_ ((hv.voter dst).free hv.ballots hyes) fun h => absurd h.symm hask.ne
    rw [hterm]
    rcases grants_iff hyes with hlt | ⟨heq, -⟩ <;> omega
  | elected k src dst req rsp hk hc hmaj =>
    obtain ⟨⟨Q, hQ, hvote⟩, hself, hnone⟩ := hv.winner hk hc hmaj
    refine hl.sound.elect hQ hvote hnone hself ?_ (hterm src)
    rw [(hl.logger src).log, (hl.logger src).stands hc.1]
  | outvoted k src dst req rsp hk hlt => exact hl.sound.advance (by rw [hterm]; omega)
  | mismatched k src dst req hk hle hmis => exact hl.sound.advance (by rw [hterm]; omega)
  | accepted k fd src dst req he hp hk hle hmis =>
    have hled := hl.led hk
    exact hl.sound.accept (by rw [hterm]; omega) hled.leader hled.ne.symm hled.sent.covered_le
  | deposed k src dst req rsp hk hlt => exact hl.sound.advance (by rw [hterm]; omega)

theorem Logging.idle (hl : Logging cid R N h) (hx : h.Extends h') {q : Idx}
    (hlog : h'.log q = h.log q) : LoggerOk h' q (R q) where
  log := hlog.trans (hl.logger q).log
  stands hrole := by
    have hvote := (hl.voting.voter q).stood (by rw [hrole]; simp)
    rw [hx.ballotLog q _ q hvote]
    exact (hl.logger q).stands hrole
  matched := (hl.logger q).matched
  coming := (hl.logger q).coming

/-- Nothing to be known about a follower but its log. -/
theorem logger_follower {p : Idx} {rs : RaftState} (hlog : h.log p = entries rs)
    (hrole : rs.role = .follower) : LoggerOk h p rs where
  log := hlog
  stands hr := by simp [hrole] at hr
  matched hr := by simp [hrole] at hr
  coming hr := by simp [hrole] at hr

theorem logger_beat {p : Idx} {rs : RaftState} (u : Undefined) (hlog : h.log p = entries rs)
    (hrole : rs.role = .leader) (hmatched : ∀ i, rs.matched i ≤ rs.log.length) :
    LoggerOk h p (broadcastHeartBeat u rs).1 where
  log := hlog
  stands hr := by simp [broadcastHeartBeat, hrole] at hr
  matched _ := hmatched
  coming _ := by simp [broadcastHeartBeat]

theorem matched_won (rs : RaftState) (i : ℕ) : (won rs).matched i ≤ rs.log.length := by
  unfold RaftState.matched won
  rw [List.getD_eq_getElem?_getD, List.getElem?_replicate]
  split_ifs <;> simp

/-- A handler only lengthens the log that the counters count. -/
theorem LoggerOk.counters_serve {p : Idx} {rs : RaftState} (hold : LoggerOk h p rs) (u : Undefined)
    (fd : ℤ) (m : ClientMsg) :
    ((serve u fd rs m).role = .leader →
      ∀ i, (serve u fd rs m).matched i ≤ (serve u fd rs m).log.length) ∧
    ((serve u fd rs m).role = .leader →
      (serve u fd rs m).comingCommitIndex + 1 ≤ (serve u fd rs m).log.length) := by
  have hsame := same_serve u fd rs m
  have hgrow : (rs.log.length : ℤ) ≤ (serve u fd rs m).log.length := by
    rw [serve_log, List.length_append]
    omega
  constructor
  · intro hr i
    rw [hsame.role] at hr
    have hm := hold.matched hr i
    unfold RaftState.matched at hm ⊢
    rw [hsame.matchedLogSize]
    exact hm.trans hgrow
  · intro hr
    rw [hsame.role] at hr
    rw [hsame.comingCommitIndex]
    exact (hold.coming hr).trans hgrow

theorem LoggerOk.answered {p : Idx} {rs : RaftState} {rsp : AppendEntriesRsp}
    (hold : LoggerOk h p rs) (u : Undefined) (fd : ℤ) (hle : rsp.term ≤ rs.currentTerm) :
    LoggerOk h p (AppendEntriesExecutor.executeRsp u fd rs rsp).1 := by
  have hans := answered_executeRsp u fd hle
  have hlen := congrArg List.length hans.entries
  simp only [List.length_map] at hlen
  refine ⟨?_, fun hr => ?_, fun hr i => ?_, fun hr => ?_⟩
  · rw [hold.log]
    exact hans.entries.symm
  · rw [hans.currentTerm, hold.stands (by rw [← hans.role]; exact hr)]
    exact hans.entries.symm
  · rw [hans.role] at hr
    have hm := hans.matched i
    have hslot := hold.matched hr i
    have hcoming := hold.coming hr
    rw [hlen]
    omega
  · rw [hans.role] at hr
    rw [hans.comingCommitIndex, hlen]
    exact hold.coming hr

theorem Logging.logger_step (hl : Logging cid s.raft s.net h) (hok : leaderAppends s e = true)
    (hs : Recorded s h e R N h') : ∀ q, LoggerOk h' q (R q) := by
  have hx := hl.voting.extends hs
  cases hs with
  | drop | ungranted | stale => exact hl.logger
  | idle p b =>
    exact Cluster.forall_set ⟨(hl.logger p).log, (hl.logger p).stands, (hl.logger p).matched,
      (hl.logger p).coming⟩ fun q _ => hl.logger q
  | campaign p b hrole =>
    refine Cluster.forall_set ?_ fun q _ => hl.idle hx rfl
    refine ⟨(hl.logger p).log, fun _ => ?_, fun hr => ?_, fun hr => ?_⟩
    · simp only [History.cast, broadcastVote, Function.update_self]
      exact (hl.logger p).log
    · simp [broadcastVote] at hr
    · simp [broadcastVote] at hr
  | beat p hrole =>
    exact Cluster.forall_set
      (logger_beat e.undef (hl.logger p).log hrole ((hl.logger p).matched hrole))
      fun q _ => hl.logger q
  | request p fd m he hp =>
    have hsame := same_serve e.undef fd (s.raft p) m
    have hlog := serve_log e.undef fd (s.raft p) m
    obtain ⟨hmatched, hcoming⟩ := (hl.logger p).counters_serve e.undef fd m
    cases hcr : created fd (s.raft p) m with
    | none =>
      have hent : entries (serve e.undef fd (s.raft p) m) = entries (s.raft p) := by
        simp [entries, hlog, hcr]
      refine Cluster.forall_set ⟨?_, fun hr => ?_, hmatched, hcoming⟩ fun q _ => hl.logger q
      · rw [hent]; exact (hl.logger p).log
      · rw [hent, hsame.currentTerm]
        exact (hl.logger p).stands (by rw [← hsame.role]; exact hr)
    | some x =>
      obtain ⟨hrole, -⟩ := hl.creates hp he hok hcr
      rw [hcr] at hx
      refine Cluster.forall_set ⟨?_, fun hr => ?_, hmatched, hcoming⟩
        fun q hq => hl.idle hx ?_
      · rw [hcr] at hlog
        simp [History.append, entries, hlog, (hl.logger p).log]
      · rw [hsame.role, hrole] at hr
        simp at hr
      · simp [History.append, hq]
  | granted k fd src dst req he hp hk hyes =>
    exact Cluster.forall_set (logger_follower (hl.logger dst).log rfl) fun q _ => hl.idle hx rfl
  | counted k src dst req rsp hk hc hfew =>
    exact Cluster.forall_set ⟨(hl.logger src).log, (hl.logger src).stands,
      (hl.logger src).matched, (hl.logger src).coming⟩ fun q _ => hl.logger q
  | elected k src dst req rsp hk hc hmaj =>
    exact Cluster.forall_set
      (logger_beat e.undef (hl.logger src).log rfl (matched_won (s.raft src)))
      fun q _ => hl.idle hx rfl
  | outvoted k src dst req rsp hk hlt =>
    exact Cluster.forall_set (logger_follower (hl.logger src).log rfl) fun q _ => hl.idle hx rfl
  | reminded k src dst req rsp hk hrole =>
    exact Cluster.forall_set
      (logger_beat e.undef (hl.logger src).log hrole ((hl.logger src).matched hrole))
      fun q _ => hl.logger q
  | mismatched k src dst req hk hle hmis =>
    exact Cluster.forall_set (logger_follower (hl.logger dst).log rfl) fun q _ => hl.idle hx rfl
  | accepted k fd src dst req he hp hk hle hmis =>
    have hled := hl.led hk
    refine Cluster.forall_set (logger_follower ?_ rfl) fun q hq => hl.idle hx ?_
    · have hroot := hl.sound.matched.log dst
      rw [(hl.logger dst).log] at hroot
      rw [hled.sent.merged hroot (hl.sound.matched.leaderLog _) hmis]
      simp [History.accept, (hl.logger dst).log]
    · simp [History.accept, hq]
  | answered k fd src dst req rsp he hp hk hle =>
    exact Cluster.forall_set ((hl.logger src).answered e.undef fd hle) fun q _ => hl.logger q
  | deposed k src dst req rsp hk hlt =>
    exact Cluster.forall_set (logger_follower (hl.logger src).log rfl) fun q _ => hl.idle hx rfl

theorem Logging.old (hl : Logging cid R N h) (hx : h.Extends h') {c : Connection} (hc : c ∈ N) :
    LogOk h' c := by
  obtain ⟨src, dst, call⟩ := c
  have hok := hl.conn _ hc
  have hvote := hl.voting.vote _ hc
  have hled : ∀ req, Led h ⟨src, dst, call⟩ req → Led h' ⟨src, dst, call⟩ req := fun req hled =>
    ⟨hx.ballots.leader _ _ hled.leader, hled.ne, hled.sent.extends hled.leader hx⟩
  have hstands : ∀ req, Asked cid h ⟨src, dst, call⟩ req → Stands h ⟨src, dst, call⟩ req →
      Stands h' ⟨src, dst, call⟩ req := by
    intro req hask hst
    have hlog := hx.ballotLog _ _ _ hask.vote
    exact ⟨by rw [hlog]; exact hst.1, by rw [hlog]; exact hst.2⟩
  cases call with
  | voteReq req => exact hstands req hvote hok
  | voteRsp req rsp => exact hstands req hvote.1 hok
  | appendReq req => exact hled req hok
  | appendRsp req rsp =>
    exact ⟨hled req hok.1, fun hs => ⟨(hok.2 hs).1, (hok.2 hs).2.trans (hx.acked _ _)⟩⟩

theorem Logging.old_erase (hl : Logging cid R N h) (hx : h.Extends h') {k : ℕ} {c : Connection}
    (hc : c ∈ N.eraseIdx k) : LogOk h' c :=
  hl.old hx ((List.eraseIdx_sublist N k).subset hc)

theorem conn_beats {p : Idx} (rs : RaftState) (u : Undefined) (hid : rs.serverId = serverId cid p)
    (hlead : h.leader rs.currentTerm = some p) (hlog : h.leaderLog rs.currentTerm = entries rs)
    (hmatched : ∀ i, rs.matched i ≤ rs.log.length) :
    ∀ c ∈ beats u (broadcastHeartBeat u rs).1 p, LogOk h c := by
  intro c hc
  obtain ⟨q, hq, rfl⟩ := List.mem_map.mp hc
  have hne : q ≠ p := (mem_others hid q).mp hq
  exact ⟨hlead, hne.symm, sent_heartBeat u q hlog (hmatched q)⟩

theorem Logging.conn_step (hl : Logging cid s.raft s.net h) (hs : Recorded s h e R N h') :
    ∀ c ∈ N, LogOk h' c := by
  have hx := hl.voting.extends hs
  have hv := hl.voting
  cases hs with
  | idle p b => exact hl.conn
  | drop k => exact fun c hc => hl.old_erase hx hc
  | campaign p b hrole =>
    intro c hc
    rcases List.mem_append.mp hc with hc | hc
    · exact hl.old hx hc
    · obtain ⟨q, -, rfl⟩ := List.mem_map.mp hc
      have hlog : (h.cast p ((s.raft p).currentTerm + 1) p).ballotLog p
          ((s.raft p).currentTerm + 1) = entries (s.raft p) := by
        simp [History.cast, (hl.logger p).log]
      exact ⟨(lastlogindex_eq (s.raft p)).trans (congrArg lastIndex hlog.symm),
        (lastlogterm_eq (s.raft p)).trans (congrArg lastTerm hlog.symm)⟩
  | beat p hrole =>
    intro c hc
    rcases List.mem_append.mp hc with hc | hc
    · exact hl.conn c hc
    · exact conn_beats _ e.undef (hv.voter p).id ((hv.voter p).leads hrole) (hl.leading hrole)
        ((hl.logger p).matched hrole) c hc
  | request p fd m he hp => exact fun c hc => hl.old hx hc
  | ungranted k src dst req hk hno =>
    intro c hc
    rcases List.mem_append.mp hc with hc | hc
    · exact hl.old_erase hx hc
    · rw [List.mem_singleton.mp hc]
      have hst : Stands h ⟨src, dst, .voteReq req⟩ req := hl.conn _ (List.mem_of_getElem? hk)
      exact ⟨hst.1, hst.2⟩
  | granted k fd src dst req he hp hk hyes =>
    intro c hc
    rcases List.mem_append.mp hc with hc | hc
    · exact hl.old_erase hx hc
    · rw [List.mem_singleton.mp hc]
      have hst : Stands _ ⟨src, dst, .voteReq req⟩ req := hl.old hx (List.mem_of_getElem? hk)
      exact ⟨hst.1, hst.2⟩
  | counted k src dst req rsp hk hc hfew => exact fun c hc => hl.old_erase hx hc
  | elected k src dst req rsp hk hc hmaj =>
    intro c hmem
    rcases List.mem_append.mp hmem with hmem | hmem
    · exact hl.old_erase hx hmem
    · refine conn_beats (won (s.raft src)) e.undef (hv.voter src).id ?_ ?_
        (matched_won (s.raft src)) c hmem
      · simp [History.elect, Ballots.elect, won]
      · simp only [History.elect, won, Function.update_self]
        exact (hl.logger src).log
  | outvoted k src dst req rsp hk hlt => exact fun c hc => hl.old_erase hx hc
  | reminded k src dst req rsp hk hrole =>
    intro c hc
    rcases List.mem_append.mp hc with hc | hc
    · exact hl.old_erase hx hc
    · exact conn_beats _ e.undef (hv.voter src).id ((hv.voter src).leads hrole) (hl.leading hrole)
        ((hl.logger src).matched hrole) c hc
  | stale k src dst req hk hlt =>
    intro c hc
    rcases List.mem_append.mp hc with hc | hc
    · exact hl.old_erase hx hc
    · rw [List.mem_singleton.mp hc]
      exact ⟨⟨(hl.led hk).leader, (hl.led hk).ne, (hl.led hk).sent⟩, fun hs => by simp at hs⟩
  | mismatched k src dst req hk hle hmis =>
    intro c hc
    rcases List.mem_append.mp hc with hc | hc
    · exact hl.old_erase hx hc
    · rw [List.mem_singleton.mp hc]
      have hled : Led _ _ req := hl.old hx (List.mem_of_getElem? hk)
      exact ⟨⟨hled.leader, hled.ne, hled.sent⟩, fun hs => by simp at hs⟩
  | accepted k fd src dst req he hp hk hle hmis =>
    intro c hc
    rcases List.mem_append.mp hc with hc | hc
    · exact hl.old_erase hx hc
    · rw [List.mem_singleton.mp hc]
      have hled : Led _ _ req := hl.old hx (List.mem_of_getElem? hk)
      refine ⟨⟨hled.leader, hled.ne, hled.sent⟩, fun _ => ⟨rfl, ?_⟩⟩
      simp [History.accept]
  | answered k fd src dst req rsp he hp hk hle => exact fun c hc => hl.old_erase hx hc
  | deposed k src dst req rsp hk hlt => exact fun c hc => hl.old_erase hx hc

theorem Logging.step (hl : Logging cid s.raft s.net h) (hok : leaderAppends s e = true)
    (hs : Recorded s h e R N h') : Logging cid R N h' :=
  ⟨hl.voting.step hs, hl.sound_step hok hs, hl.logger_step hok hs, hl.conn_step hs⟩

theorem logging_init (cid : ℕ) (shard : Table ℤ) :
    Logging cid (Cluster.init cid shard).raft (Cluster.init cid shard).net History.start where
  voting := voting_init cid shard
  sound := .start
  logger _ := logger_follower rfl rfl
  conn c hc := by simp [Cluster.init] at hc

/-! ### Runs -/

variable {ok : Cluster → Event → Prop} {s' : Cluster}

theorem Tracked.logging (ht : Tracked ok s h) (hok : ∀ s e, ok s e → leaderAppends s e = true) :
    ∃ cid, Logging cid s.raft s.net h := by
  induction ht with
  | init cid shard => exact ⟨cid, logging_init cid shard⟩
  | step e _ hstep hrec ih =>
    obtain ⟨cid, hl⟩ := ih
    exact ⟨cid, hl.step (hok _ _ hstep) hrec⟩

def LogEntry.Same (x y : LogEntry) : Prop :=
  x.term = y.term ∧ x.command = y.command ∧ x.id = y.id

instance (x y : LogEntry) : Decidable (x.Same y) :=
  inferInstanceAs (Decidable (x.term = y.term ∧ x.command = y.command ∧ x.id = y.id))

/-- Up to position `i` the logs of `a` and `b` are there and the same. -/
def SameUpTo (a b : RaftState) (i : ℕ) : Prop :=
  ∀ j ≤ i, ∃ x y, a.log[j]? = some x ∧ b.log[j]? = some y ∧ x.Same y

/-- An index and a term identify an entry and all before it. -/
def LogsMatch (s : Cluster) : Prop :=
  ∀ p q i a b, (s.raft p).log[i]? = some a → (s.raft q).log[i]? = some b → a.term = b.term →
    SameUpTo (s.raft p) (s.raft q) i

theorem LogEntry.same_of_entry {x y : LogEntry} (hxy : x.entry = y.entry) : x.Same y :=
  ⟨congrArg Entry.term hxy, congrArg Entry.command hxy, congrArg Entry.id hxy⟩

theorem sameUpTo_of_take {a b : RaftState} {i : ℕ} (ha : i < a.log.length)
    (htake : (entries a).take (i + 1) = (entries b).take (i + 1)) : SameUpTo a b i := by
  intro j hj
  have hget : (entries a)[j]? = (entries b)[j]? := by
    rw [← List.getElem?_take_of_lt (show j < i + 1 by omega), htake,
      List.getElem?_take_of_lt (by omega)]
  rw [entries_getElem?, entries_getElem?, List.getElem?_eq_getElem (by omega)] at hget
  obtain ⟨y, hy, hxy⟩ := Option.map_eq_some_iff.mp hget.symm
  exact ⟨a.log[j], y, List.getElem?_eq_getElem (by omega), hy, LogEntry.same_of_entry hxy.symm⟩

/-- Log matching holds in every run in which only leaders create entries and no message is read
in part. -/
theorem log_matching (hs : Cluster.Reach (wellLed · ·) s) : LogsMatch s := by
  obtain ⟨h, ht⟩ := hs.tracked
  obtain ⟨cid, hl⟩ := ht.logging fun _ _ hok => wellLed.leaderAppends hok
  intro p q i a b ha hb hterm
  have hm := hl.sound.matched
  have hp := hm.log p
  have hq := hm.log q
  rw [(hl.logger p).log] at hp
  rw [(hl.logger q).log] at hq
  exact sameUpTo_of_take (List.getElem?_eq_some_iff.mp ha).1
    (hp.matching hq (by rw [entries_getElem?, ha]; rfl) (by rw [entries_getElem?, hb]; rfl) hterm)

def pay (id senderId receiverId amount : ℤ) : ClientMsg :=
  .intraShard
    { clusterId := 0, senderId := senderId, receiverId := receiverId, amount := amount, id := id }

def cross (phase : CrossShardPhaseType) (id senderId receiverId amount : ℤ) : ClientMsg :=
  .crossShard
    { phase := phase
      senderClusterId := 0
      receiverClusterId := 1
      senderId := senderId
      receiverId := receiverId
      amount := amount
      id := id }

/-- The leader takes a transfer and its heart beat brings it to server 0. -/
def replicateFirst : List Event :=
  electFirst ++ calmly [.request 1 7 (pay 1 100 200 5), .timeout 1, .deliver 3 9]

theorem log_matching_first :
    ((((Cluster.init 0 purse).run replicateFirst).raft 0).log.length = 1) ∧
      LogsMatch ((Cluster.init 0 purse).run replicateFirst) :=
  ⟨by decide, log_matching (Cluster.Follows.reach (by decide))⟩

/-- The decisions of two transactions reach two followers, each only one of them. -/
def decideApart : List Event :=
  calmly [.request 0 7 (cross .commit 1 100 1100 5), .request 1 7 (cross .commit 2 100 1100 5)]

theorem logs_diverge : Cluster.Reach Cluster.anyStep ((Cluster.init 0 ∅).run decideApart) ∧
    ¬LogsMatch ((Cluster.init 0 ∅).run decideApart) := by
  refine ⟨Cluster.Follows.reach (by decide), fun hmatch => ?_⟩
  obtain ⟨x, y, hx, hy, hxy⟩ := hmatch 0 1 0 _ _ rfl rfl (by decide) 0 le_rfl
  cases hx
  cases hy
  exact absurd hxy (by decide)

/-- The leader takes 45 transfers before its timer fires. -/
def longBeat : Cluster := (Cluster.init 0 ∅).run (electFirst ++ calmly (
  (List.range 45).map (fun i : ℕ => .request 1 7 (pay (i + 1) (100 + 2 * i) (101 + 2 * i) 0)) ++
    [.timeout 1]))

/-- The bytes that one read brings of its heart beat end inside entry 39. -/
theorem cut_beat_splits : Cluster.Reach (wellLed · ·) longBeat ∧
    leaderAppends longBeat ⟨.deliver 3 9, .zero⟩ = true ∧
    ¬LogsMatch (longBeat.stepRead ⟨.deliver 3 9, .zero⟩) := by
  have hlast : leaderAppends longBeat ⟨.deliver 3 9, .zero⟩ = true ∧
      ((longBeat.stepRead ⟨.deliver 3 9, .zero⟩).raft 0).log[39]? =
        some { term := 1, index := 39, command := [], id := 0, reqFd := -1 } ∧
      ((longBeat.stepRead ⟨.deliver 3 9, .zero⟩).raft 1).log[39]? =
        some { term := 1, index := 39, command := fmtPays 178 179 0, id := 40, reqFd := 7 } := by
    decide +kernel
  obtain ⟨hleader, hcut, hwhole⟩ := hlast
  refine ⟨Cluster.Follows.reach (by decide +kernel), hleader, fun hmatch => ?_⟩
  obtain ⟨x, y, hx, hy, hxy⟩ := hmatch 0 1 39 _ _ hcut hwhole rfl 39 le_rfl
  rw [hcut] at hx
  rw [hwhole] at hy
  obtain rfl := Option.some.inj hx
  obtain rfl := Option.some.inj hy
  exact absurd hxy.2.2 (by decide)

end Raft2PC
