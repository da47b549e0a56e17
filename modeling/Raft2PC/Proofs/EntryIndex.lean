import Raft2PC.Spec.Access
import Raft2PC.Sanity.Ledger
import Raft2PC.Proofs.LogMatching
import Raft2PC.Proofs.LogMerge

/-! Entry index equals position. A request is numbered by the size of the log it goes to, a
heart beat carries the end of a log under the indices it has there, and a follower puts it
where those indices say; the counters of a leader only have to be inside its log when it
reads there. -/

namespace Raft2PC

open AIOServer AppendEntriesExecutor

/-- No access of the step is outside the vector. -/
def inRange (s : Cluster) (e : Event) : Prop := ∀ a ∈ s.accesses e, a.InVector

instance (s : Cluster) (e : Event) : Decidable (inRange s e) :=
  inferInstanceAs (Decidable (∀ a ∈ s.accesses e, a.InVector))

def Placed (log : List LogEntry) : Prop := ∀ (i : ℕ) x, log[i]? = some x → x.index = i

/-- The entries are numbered from `prevLogIndex + 1`. -/
structure Consecutive (req : AppendEntriesReq) : Prop where
  anchored : -1 ≤ req.prevLogIndex
  index : ∀ (j : ℕ) e, req.entries[j]? = some e → e.index = req.prevLogIndex + 1 + j

structure Numbered (R : Idx → RaftState) (N : List Connection) : Prop where
  log : ∀ p, Placed (R p).log
  conn : ∀ c ∈ N, ∀ req, c.call = .appendReq req → Consecutive req

variable {s : Cluster} {e : Event} {h h' : Hist} {R : Idx → RaftState} {N : List Connection}

/-! ### Logs -/

theorem Placed.congr {a b : List LogEntry} (hb : Placed b)
    (hab : a.map LogEntry.entry = b.map LogEntry.entry) : Placed a := by
  intro i x hx
  have hget := congrArg (·[i]?) hab
  simp only [List.getElem?_map, hx, Option.map_some] at hget
  obtain ⟨y, hy, hxy⟩ := Option.map_eq_some_iff.mp hget.symm
  rw [← hb i y hy]
  exact (congrArg Entry.index hxy).symm

theorem Placed.concat {log : List LogEntry} (h : Placed log) {x : LogEntry}
    (hx : x.index = log.length) : Placed (log ++ [x]) := by
  intro i y hy
  by_cases hi : i < log.length
  · rw [List.getElem?_append_left hi] at hy
    exact h i y hy
  · rw [List.getElem?_append_right (by omega)] at hy
    obtain ⟨hlt, rfl⟩ := List.getElem?_eq_some_iff.mp hy
    rw [List.length_singleton] at hlt
    simp only [List.getElem_singleton, hx]
    omega

theorem Placed.serve {rs : RaftState} (h : Placed rs.log) (u : Undefined) (fd : ℤ)
    (m : ClientMsg) : Placed (serve u fd rs m).log := by
  rw [serve_log]
  cases hx : created fd rs m with
  | none =>
    rw [Option.toList_none, List.append_nil]
    exact h
  | some x => exact h.concat (created_fresh hx).1

theorem Placed.accepted {u : Undefined} {rs : RaftState} {req : AppendEntriesReq}
    (h : Placed rs.log) (hreq : Consecutive req) (hmis : mismatch u rs req = false) :
    Placed (accepted u rs req).log := by
  intro i x hx
  have hsplice := spliced_accepted hreq.anchored hmis
  rcases hsplice.origin (logIdxBase_le hmis) hx with hold | ⟨j, e, rfl, he, rfl⟩
  · exact h i x hold
  · have hidx := hreq.index j e he
    have hprev := hreq.anchored
    simp only [ofEntry, hidx, logIdxBase]
    omega

theorem Placed.lastlogindex {rs : RaftState} (h : Placed rs.log) :
    rs.lastlogindex = rs.log.length - 1 := by
  unfold RaftState.lastlogindex
  cases hlast : rs.log.getLast? with
  | none =>
    rw [List.getLast?_eq_none_iff.mp hlast]
    rfl
  | some x =>
    have hlen : rs.log ≠ [] := by
      intro hnil
      rw [hnil] at hlast
      cases hlast
    have hpos := List.length_pos_iff.mpr hlen
    rw [List.getLast?_eq_getElem?] at hlast
    rw [Option.map_some, Option.getD_some, h _ x hlast]
    omega

/-! ### Heart beats -/

/-- The entries from a counter in the log on are numbered from there. -/
theorem Placed.heartBeat {rs : RaftState} (h : Placed rs.log) (u : Undefined) {idx : Idx}
    (hmatched : 0 ≤ rs.matched idx) : Consecutive (heartBeat u rs idx) := by
  refine ⟨?_, fun j e he => ?_⟩
  · simp only [AIOServer.heartBeat, RaftState.prevlogindex]
    omega
  · simp only [AIOServer.heartBeat, unmatchedEntries, if_neg (not_lt.mpr hmatched)] at he
    rw [List.getElem?_map, List.getElem?_drop] at he
    obtain ⟨x, hx, rfl⟩ := Option.map_eq_some_iff.mp he
    simp only [LogEntry.entry, h _ x hx, AIOServer.heartBeat, RaftState.prevlogindex]
    omega

/-- A counter below 0 makes the heart beat read outside the log. -/
theorem matched_of_inVector {rs : RaftState} {idx : Idx} (hidx : idx ∈ others rs)
    (hin : ∀ a ∈ beatAccess rs, a.InVector) : 0 ≤ rs.matched idx := by
  by_contra hneg
  have hmem : (⟨rs.log.length, rs.matched idx - 1⟩ : Access) ∈ beatAccess rs := by
    refine List.mem_map.mpr ⟨_, List.mem_flatMap.mpr ⟨idx, hidx, ?_⟩, rfl⟩
    rw [RaftState.prevAccess, if_neg (by omega)]
    exact List.mem_append_left _ List.mem_cons_self
  have hlow := (hin _ hmem).1
  simp only at hlow
  omega

/-- `req` is a heart beat for whose sake a log was read at `acc`. -/
def ReadFor (u : Undefined) (log : List LogEntry) (acc : List Access) (req : AppendEntriesReq) :
    Prop :=
  ∃ rs idx, rs.log = log ∧ idx ∈ others rs ∧ req = heartBeat u rs idx ∧ ∀ a ∈ beatAccess rs, a ∈ acc

theorem beats_readFor {u : Undefined} {rs : RaftState} {p : Idx} {acc : List Access}
    {c : Connection} {req : AppendEntriesReq} (hc : c ∈ beats u rs p)
    (hreq : c.call = .appendReq req) (hacc : ∀ a ∈ beatAccess rs, a ∈ acc) :
    ReadFor u rs.log acc req := by
  obtain ⟨idx, hidx, rfl⟩ := List.mem_map.mp hc
  exact ⟨rs, idx, rfl, hidx, (Call.appendReq.inj hreq).symm, hacc⟩

theorem answered_call {c c' : Connection} {acts : List AIOAction} {req : AppendEntriesReq}
    (hc : c' ∈ acts.filterMap c.answered) : c'.call ≠ .appendReq req := by
  obtain ⟨a, -, ha⟩ := List.mem_filterMap.mp hc
  unfold Connection.answered at ha
  split at ha
  · cases ha
    exact Call.noConfusion
  · cases ha
    exact Call.noConfusion
  · cases ha

theorem log_voteRsp (fd : ℤ) (rs : RaftState) (rsp : RequestVoteRsp) :
    (RequestVoteExecutor.executeRsp fd rs rsp).1.log = rs.log ∧
      (RequestVoteExecutor.executeRsp fd rs rsp).2 = [.close fd] := by
  unfold RequestVoteExecutor.executeRsp
  dsimp only
  split_ifs <;> exact ⟨rfl, rfl⟩

/-- Of the messages between servers only a vote makes its reader dial. -/
theorem dialed_dispatch {u : Undefined} {fd : ℤ} {rs : RaftState} {c c' : Connection}
    {req : AppendEntriesReq}
    (hc : c ∈ (dispatch u fd rs c'.msg).2.filterMap (Connection.dialed c'.reader))
    (hreq : c.call = .appendReq req) :
    ReadFor u rs.log (dispatchAccess u fd rs c'.msg) req := by
  obtain ⟨src, dst, call⟩ := c'
  cases call with
  | voteReq req' =>
    have hquiet : (RequestVoteExecutor.executeReq fd rs req').2.filterMap
        (Connection.dialed dst) = [] := by
      unfold RequestVoteExecutor.executeReq
      dsimp only
      split_ifs <;> rfl
    rw [Connection.msg, Connection.reader, dispatch, hquiet] at hc
    cases hc
  | appendReq req' =>
    have hquiet : (executeReq u fd rs req').2.filterMap (Connection.dialed dst) = [] := by
      unfold executeReq
      dsimp only
      split_ifs <;> rfl
    rw [Connection.msg, Connection.reader, dispatch, hquiet] at hc
    cases hc
  | appendRsp req' rsp =>
    rw [Connection.msg, Connection.reader, dispatch, (quiet_appendEntriesRsp u fd rs rsp).dialed]
      at hc
    cases hc
  | voteRsp req' rsp =>
    obtain ⟨hlog, hacts⟩ := log_voteRsp fd rs rsp
    simp only [Connection.msg, Connection.reader, dispatch] at hc
    split_ifs at hc with hrole
    · rw [hacts, List.filterMap_append, (quiet_close fd).dialed, List.nil_append,
        dialed_broadcastHeartBeat] at hc
      rw [← hlog]
      refine beats_readFor hc hreq fun a ha => ?_
      simp only [Connection.msg, dispatchAccess]
      rw [if_pos hrole]
      exact ha
    · rw [hacts, (quiet_close fd).dialed] at hc
      cases hc

theorem dialed_timeout {u : Undefined} {p : Idx} {c : Connection} {req : AppendEntriesReq}
    (hc : c ∈ (timeout u (s.servers p)).2.filterMap (Connection.dialed p))
    (hreq : c.call = .appendReq req) :
    ReadFor u (s.raft p).log (timeoutAccess (s.servers p)) req := by
  have hvote : ∀ rs, c ∉ (broadcastVote rs).2.filterMap (Connection.dialed p) := by
    intro rs hc
    rw [dialed_broadcastVote] at hc
    obtain ⟨q, -, rfl⟩ := List.mem_map.mp hc
    cases hreq
  unfold timeout at hc
  split_ifs at hc with hp
  · cases hc
  · dsimp only at hc
    split at hc
    · split_ifs at hc
      · cases hc
      · exact absurd hc (hvote _)
    · exact absurd hc (hvote _)
    · rename_i hrole
      rw [dialed_broadcastHeartBeat] at hc
      refine beats_readFor hc hreq fun a ha => ?_
      unfold timeoutAccess
      rw [if_pos ⟨Bool.not_eq_true _ ▸ hp, hrole⟩]
      exact ha

/-- A connection with a heart beat: an old one, or one for which its sender read the log in
this step. -/
theorem opened_request {c : Connection} {req : AppendEntriesReq} (hc : c ∈ (s.step e).net)
    (hreq : c.call = .appendReq req) :
    c ∈ s.net ∨ ∃ p, ReadFor e.undef (s.raft p).log (s.accesses e) req := by
  obtain ⟨action, u⟩ := e
  cases action with
  | lose k => exact Or.inl (List.mem_of_mem_eraseIdx hc)
  | request p fd m =>
    rw [(Cluster.step_request s p fd m u).2] at hc
    exact Or.inl hc
  | timeout p =>
    rw [(Cluster.step_timeout s p u).2] at hc
    rcases List.mem_append.mp hc with hc | hc
    · exact Or.inl hc
    · exact Or.inr ⟨p, dialed_timeout hc hreq⟩
  | deliver k fd =>
    cases hk : s.net[k]? with
    | none =>
      rw [Cluster.step_deliver_none fd u hk] at hc
      exact Or.inl hc
    | some c' =>
      cases hp : (s.servers c'.reader).pretendFail with
      | true =>
        rw [(Cluster.step_deliver_stopped fd u hk hp).2] at hc
        exact Or.inl (List.mem_of_mem_eraseIdx hc)
      | false =>
        rw [(Cluster.step_deliver fd u hk hp).2] at hc
        rcases List.mem_append.mp hc with hc | hc
        · rcases List.mem_append.mp hc with hc | hc
          · exact Or.inl (List.mem_of_mem_eraseIdx hc)
          · exact absurd hreq (answered_call hc)
        · refine Or.inr ⟨c'.reader, ?_⟩
          simp only [Cluster.accesses, hk, hp, Bool.false_eq_true, if_false]
          exact dialed_dispatch hc hreq

/-! ### Runs -/

theorem Numbered.conn_step (hn : Numbered s.raft s.net) (hin : inRange s e) :
    ∀ c ∈ (s.step e).net, ∀ req, c.call = .appendReq req → Consecutive req := by
  intro c hc req hreq
  rcases opened_request hc hreq with hold | ⟨p, rs, idx, hlog, hidx, rfl, hread⟩
  · exact hn.conn c hold req hreq
  · have hplaced : Placed rs.log := hlog ▸ hn.log p
    exact hplaced.heartBeat e.undef (matched_of_inVector hidx fun a ha => hin a (hread a ha))

theorem Numbered.log_step (hn : Numbered s.raft s.net) (hs : Recorded s h e R N h') :
    ∀ p, Placed (R p).log := by
  have hmoved : ∀ p rs, Placed rs.log → ∀ q, Placed (s.set p rs q).log := fun p rs hp =>
    Cluster.forall_set (P := fun _ rs => Placed rs.log) hp fun q _ => hn.log q
  cases hs with
  | drop | ungranted | stale => exact hn.log
  | idle p | campaign p | beat p => exact hmoved p _ (hn.log p)
  | request p fd m => exact hmoved p _ ((hn.log p).serve e.undef fd m)
  | granted k fd src dst | mismatched k src dst => exact hmoved dst _ (hn.log dst)
  | counted k src | elected k src | outvoted k src | reminded k src | deposed k src =>
    exact hmoved src _ (hn.log src)
  | accepted k fd src dst req he hp hk hle hmis =>
    have hreq := hn.conn _ (List.mem_of_getElem? hk) req rfl
    exact hmoved dst _ ((hn.log dst).accepted hreq hmis)
  | answered k fd src dst req rsp he hp hk hle =>
    exact hmoved src _ ((hn.log src).congr (answered_executeRsp e.undef fd hle).entries)

theorem numbered_reach (hs : Cluster.Reach inRange s) : Numbered s.raft s.net := by
  induction hs with
  | init cid shard =>
    refine ⟨fun p i x hx => ?_, fun c hc => ?_⟩
    · cases hx
    · cases hc
  | step e _ hin ih =>
    obtain ⟨h', hrec⟩ := recorded_step _ Consensus.History.start e
    exact ⟨ih.log_step hrec, ih.conn_step hin⟩

/-- As long as no access has left the vector, every log entry has the index of its position,
and every heart beat in flight numbers its entries from `prevLogIndex + 1`. -/
theorem entry_index (hs : Cluster.Reach inRange s) :
    (∀ p, (∀ (i : ℕ) x, (s.raft p).log[i]? = some x → x.index = i) ∧
      (s.raft p).lastlogindex = (s.raft p).log.length - 1) ∧
    ∀ c ∈ s.net, ∀ req, c.call = .appendReq req →
      ∀ (j : ℕ) e, req.entries[j]? = some e → e.index = req.prevLogIndex + 1 + j := by
  have hn := numbered_reach hs
  exact ⟨fun p => ⟨hn.log p, (hn.log p).lastlogindex⟩, fun c hc req hreq =>
    (hn.conn c hc req hreq).index⟩

def twoInFlight : List Event := electFirst ++ calmly [.request 1 7 (pay 1 100 200 5),
  .request 1 8 (cross .abort 2 300 1500 0), .timeout 1]

theorem entry_index_two :
    ((((Cluster.init 0 purse).run twoInFlight).raft 1).log.map LogEntry.index = [0, 1]) ∧
    ∀ p, (((Cluster.init 0 purse).run twoInFlight).raft p).lastlogindex =
      (((Cluster.init 0 purse).run twoInFlight).raft p).log.length - 1 :=
  ⟨by decide, fun p => ((entry_index (Cluster.Follows.reach (by decide))).1 p).2⟩

end Raft2PC
