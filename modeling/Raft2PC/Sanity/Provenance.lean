import Raft2PC.Proofs.LogCommands
import Raft2PC.Sanity.Ledger
import Raft2PC.Sanity.Spoken

/-! Where entries come from: each has the id and tells the transfer of a message that a server
of its cluster has read. -/

namespace Raft2PC

open AIOServer AppendEntriesExecutor

/-- The entries in the logs and in the heart beats on the way have property `P`. -/
structure Entered (P : Entry → Prop) (R : Idx → RaftState) (N : List Connection) : Prop where
  logs : ∀ p, ∀ x ∈ (R p).log, P x.entry
  net : ∀ src dst req, ⟨src, dst, .appendReq req⟩ ∈ N → ∀ x ∈ req.entries, P x

variable {P Q : Entry → Prop} {s : Cluster} {e : Event} {h h' : Hist} {R : Idx → RaftState}
  {N : List Connection}

theorem Entered.mono (h₀ : Entered P R N) (hPQ : ∀ x, P x → Q x) : Entered Q R N :=
  ⟨fun p x hx => hPQ _ (h₀.logs p x hx), fun src dst req hc x hx => hPQ _ (h₀.net src dst req hc x hx)⟩

theorem entered_init (P : Entry → Prop) (cid : ℕ) (shard : Table ℤ) :
    Entered P (Cluster.init cid shard).raft (Cluster.init cid shard).net where
  logs _ _ hx := absurd hx List.not_mem_nil
  net _ _ _ hc := absurd hc List.not_mem_nil

theorem entered_mergeEntries {u : Undefined} {log : List LogEntry} {pos : ℤ} {es : List Entry}
    (hlog : ∀ x ∈ log, P x.entry) (hes : ∀ x ∈ es, P x) :
    ∀ x ∈ mergeEntries u log pos es, P x.entry := by
  induction es generalizing pos with
  | nil => exact hlog
  | cons e es ih =>
    simp only [mergeEntries]
    split_ifs
    · intro x hx
      rcases List.mem_append.mp hx with hx | hx
      · exact hlog x (List.mem_of_mem_take hx)
      · obtain ⟨y, hy, rfl⟩ := List.mem_map.mp hx
        exact hes y hy
    · exact ih fun x hx => hes x (List.mem_cons_of_mem _ hx)

theorem entered_congr {a b : List LogEntry} (hab : b.map LogEntry.entry = a.map LogEntry.entry)
    (ha : ∀ x ∈ a, P x.entry) : ∀ x ∈ b, P x.entry := by
  intro x hx
  have hmem : x.entry ∈ b.map LogEntry.entry := List.mem_map_of_mem hx
  rw [hab] at hmem
  obtain ⟨y, hy, hxy⟩ := List.mem_map.mp hmem
  exact hxy ▸ ha y hy

theorem Entered.logs_step (h₀ : Entered P s.raft s.net) (hs : Recorded s h e R N h')
    (hnew : ∀ p fd m x, e.action = .request p fd m → created fd (s.raft p) m = some x →
      P x.entry) : ∀ p, ∀ x ∈ (R p).log, P x.entry := by
  have hset : ∀ p rs, (∀ x ∈ rs.log, P x.entry) → ∀ q, ∀ x ∈ (s.set p rs q).log, P x.entry :=
    fun p rs hp => Cluster.forall_set (P := fun _ rs => ∀ x ∈ rs.log, P x.entry) hp
      fun q _ => h₀.logs q
  cases hs with
  | drop | ungranted | stale => exact h₀.logs
  | idle p | campaign p | beat p | counted k p | elected k p | outvoted k p | reminded k p
  | deposed k p => exact hset p _ (h₀.logs p)
  | granted k fd src dst | mismatched k src dst => exact hset dst _ (h₀.logs dst)
  | request p fd m he hp =>
    refine hset p _ fun x hx => ?_
    rw [serve_log] at hx
    rcases List.mem_append.mp hx with hx | hx
    · exact h₀.logs p x hx
    · exact hnew p fd m x he (Option.mem_toList.mp hx)
  | accepted k fd src dst req he hp hk =>
    exact hset dst _ (entered_mergeEntries (h₀.logs dst)
      (h₀.net src dst req (List.mem_of_getElem? hk)))
  | answered k fd src dst req rsp he hp hk hle =>
    exact hset src _ (entered_congr (answered_executeRsp e.undef fd hle).entries (h₀.logs src))

theorem entered_beats {u : Undefined} {rs : RaftState} {p src dst : Idx} {req : AppendEntriesReq}
    (hlog : ∀ x ∈ rs.log, P x.entry) (hc : ⟨src, dst, .appendReq req⟩ ∈ beats u rs p) :
    ∀ x ∈ req.entries, P x := by
  obtain ⟨q, -, hq⟩ := List.mem_map.mp hc
  obtain rfl : heartBeat u rs q = req := by
    injection hq with _ _ hcall
    exact Call.appendReq.inj hcall
  intro x hx
  simp only [heartBeat, unmatchedEntries] at hx
  split_ifs at hx
  · cases hx
  · obtain ⟨y, hy, rfl⟩ := List.mem_map.mp hx
    exact hlog y (List.mem_of_mem_drop hy)

theorem Entered.step (h₀ : Entered P s.raft s.net)
    (hnew : ∀ p fd m x, e.action = .request p fd m → created fd (s.raft p) m = some x →
      P x.entry) : Entered P (s.step e).raft (s.step e).net := by
  obtain ⟨h', hs⟩ := recorded_step s Consensus.History.start e
  have hlogs := h₀.logs_step hs hnew
  refine ⟨hlogs, fun src dst req hc => ?_⟩
  cases hs.opened _ hc with
  | old hold => exact h₀.net src dst req hold
  | beat p hrole hbeat => exact entered_beats (hlogs p) hbeat

/-! ### Entries and messages -/

namespace Transaction

def id : Transaction → ℤ
  | .intra req => req.id
  | .cross req => req.id

/-- The transaction is one of cluster `cid`. -/
def Concerns (cid : ℤ) : Transaction → Prop
  | .intra req => req.clusterId = cid
  | .cross req => req.senderClusterId = cid ∨ req.receiverClusterId = cid

/-- The entry of the transaction in the logs of cluster `cid`. -/
structure Logs (cid : ℤ) (t : Transaction) (x : Entry) : Prop where
  id : x.id = t.id
  command : x.command = t.command.text
  concerns : t.Concerns cid

end Transaction

theorem logs_created {fd : ℤ} {rs : RaftState} {m : ClientMsg} {x : LogEntry}
    (hx : created fd rs m = some x) :
    ∃ t : Transaction, m = t.request ∧ t.Logs rs.clusterId x.entry := by
  cases m with
  | intraShard req =>
    simp only [created] at hx
    split_ifs at hx with h
    obtain rfl := Option.some.inj hx
    exact ⟨.intra req, rfl, rfl, rfl, h.1⟩
  | crossShard req =>
    by_cases hcid : req.senderClusterId = rs.clusterId ∨ req.receiverClusterId = rs.clusterId
    · have hlogs : ∀ x : LogEntry, x.id = req.id →
          x.command = Command.text ⟨some req.phase, req.senderId, req.receiverId, req.amount⟩ →
            (Transaction.cross req).Logs rs.clusterId x.entry :=
        fun x hid hcmd => ⟨hid, hcmd, hcid⟩
      refine ⟨.cross req, rfl, hlogs x ?_ ?_⟩
      all_goals
        simp only [created, if_pos hcid] at hx
        cases hphase : req.phase with
        | prepare | commit | abort =>
          simp only [hphase] at hx
          split_ifs at hx
          obtain rfl := Option.some.inj hx
          rfl
    · simp [created, hcid] at hx
  | _ => cases hx

end Raft2PC
