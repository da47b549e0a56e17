import Raft2PC.Sanity.Merge

/-! Commands come from requests: what holds of every command a request creates holds of
every command in the logs and in the heart beats on the way. -/

namespace Raft2PC

open AIOServer AppendEntriesExecutor

def Says (P : Text → Prop) (log : List LogEntry) : Prop := ∀ x ∈ log, P x.command

structure Spoken (P : Text → Prop) (R : Idx → RaftState) (N : List Connection) : Prop where
  logs : ∀ p, Says P (R p).log
  net : ∀ src dst req, ⟨src, dst, .appendReq req⟩ ∈ N → ∀ x ∈ req.entries, P x.command

variable {P : Text → Prop} {s : Cluster} {e : Event} {h h' : Hist} {R : Idx → RaftState}
  {N : List Connection}

theorem says_mergeEntries {u : Undefined} {log : List LogEntry} {pos : ℤ} {es : List Entry}
    (hlog : Says P log) (hes : ∀ x ∈ es, P x.command) : Says P (mergeEntries u log pos es) := by
  induction es generalizing pos with
  | nil => exact hlog
  | cons e es ih =>
    simp only [mergeEntries]
    split_ifs
    · intro x hx
      rcases List.mem_append.mp hx with hx | hx
      · exact hlog x (List.mem_of_mem_take hx)
      · obtain ⟨y, hy, rfl⟩ := List.mem_map.mp hx
        exact hes y hy
    · exact ih fun x hx => hes x (List.mem_cons_of_mem _ hx)

theorem says_congr {a b : List LogEntry} (hab : b.map LogEntry.entry = a.map LogEntry.entry)
    (ha : Says P a) : Says P b := by
  intro x hx
  have hmem : x.entry ∈ b.map LogEntry.entry := List.mem_map_of_mem hx
  rw [hab] at hmem
  obtain ⟨y, hy, hxy⟩ := List.mem_map.mp hmem
  have hcmd : y.command = x.command := congrArg Entry.command hxy
  exact hcmd ▸ ha y hy

theorem Spoken.logs_step (h₀ : Spoken P s.raft s.net) (hs : Recorded s h e R N h')
    (hnew : ∀ p fd m x, e.action = .request p fd m → (s.servers p).pretendFail = false →
      created fd (s.raft p) m = some x → P x.command) : ∀ p, Says P (R p).log := by
  have hset : ∀ p rs, Says P rs.log → ∀ q, Says P (s.set p rs q).log := fun p rs hp =>
    Cluster.forall_set (P := fun _ rs => Says P rs.log) hp fun q _ => h₀.logs q
  cases hs with
  | drop | ungranted | stale => exact h₀.logs
  | idle p | campaign p | beat p | counted k p | elected k p | outvoted k p | reminded k p
  | deposed k p => exact hset p _ (h₀.logs p)
  | granted k fd src dst | mismatched k src dst => exact hset dst _ (h₀.logs dst)
  | request p fd m he hp =>
    refine hset p _ fun x hx => ?_
    rw [serve_log] at hx
    rcases List.mem_append.mp hx with hx | hx
    · exact h₀.logs p x hx
    · exact hnew p fd m x he hp (Option.mem_toList.mp hx)
  | accepted k fd src dst req he hp hk =>
    exact hset dst _ (says_mergeEntries (h₀.logs dst)
      (h₀.net src dst req (List.mem_of_getElem? hk)))
  | answered k fd src dst req rsp he hp hk hle =>
    exact hset src _ (says_congr (answered_executeRsp e.undef fd hle).entries (h₀.logs src))

theorem says_beats {u : Undefined} {rs : RaftState} {p src dst : Idx} {req : AppendEntriesReq}
    (hlog : Says P rs.log) (hc : ⟨src, dst, .appendReq req⟩ ∈ beats u rs p) :
    ∀ x ∈ req.entries, P x.command := by
  obtain ⟨q, -, hq⟩ := List.mem_map.mp hc
  obtain rfl : heartBeat u rs q = req := by
    injection hq with _ _ hcall
    exact Call.appendReq.inj hcall
  intro x hx
  simp only [heartBeat, unmatchedEntries] at hx
  split_ifs at hx
  · cases hx
  · obtain ⟨y, hy, rfl⟩ := List.mem_map.mp hx
    exact hlog y (List.mem_of_mem_drop hy)

theorem Spoken.step (h₀ : Spoken P s.raft s.net) (hs : Recorded s h e R N h')
    (hnew : ∀ p fd m x, e.action = .request p fd m → (s.servers p).pretendFail = false →
      created fd (s.raft p) m = some x → P x.command) : Spoken P R N := by
  have hlogs := h₀.logs_step hs hnew
  refine ⟨hlogs, fun src dst req hc => ?_⟩
  cases hs.opened _ hc with
  | old hold => exact h₀.net src dst req hold
  | beat p hrole hbeat => exact says_beats (hlogs p) hbeat

theorem spoken_init (P : Text → Prop) (cid : ℕ) (shard : Table ℤ) :
    Spoken P (Cluster.init cid shard).raft (Cluster.init cid shard).net where
  logs _ _ hx := absurd hx List.not_mem_nil
  net _ _ _ hc := absurd hc List.not_mem_nil

end Raft2PC
