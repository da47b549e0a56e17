import Raft2PC.Consensus.Vouchers
import Raft2PC.Proofs.OneAnswer

/-! SUCCESS and YES. Only the commit loop writes them, one for each entry that waits on a
connection, and the entry waits no longer. -/

namespace Raft2PC

open AIOServer AppendEntriesExecutor Consensus.History

/-- How the commit of an entry answers its request. -/
def Entry.confirmation (x : Entry) : Option WrapperMessage :=
  if isCross x.command then
    if isPrepare x.command then some (.crossShardRsp { result := .yes, id := x.id }) else none
  else some (.intraShardRsp { result := .success, id := x.id })

/-- The messages SUCCESS and YES that are written. -/
def confirmations (acts : List AIOAction) : List WrapperMessage :=
  acts.filterMap fun
    | .writeMsg _ msg => if isPositive msg then some msg else none
    | _ => none

/-- SUCCESS and YES from any server of the cluster. -/
def Cluster.confirms (s : Cluster) (e : Event) : List WrapperMessage :=
  (List.finRange SERVER_NUM_PER_CLUSTER).flatMap fun p => confirmations (s.emits e p)

/-- SUCCESS and YES in a run. -/
def confirmed : Cluster → List Event → List WrapperMessage
  | _, [] => []
  | s, e :: es => s.confirms e ++ confirmed (s.step e) es

/-- The entries that wait on a connection. -/
def vouchers (L : List LogEntry) : Set (Voucher Entry) :=
  {t | ∃ x, L[t.1]? = some x ∧ x.entry = t.2 ∧ x.reqFd ≠ -1}

/-- The entry at position `i`, if its commit answers its request. -/
def redeemed (L : List LogEntry) (i : ℤ) : Option (Voucher Entry) :=
  L[i.toNat]?.bind fun x =>
    if x.reqFd ≠ -1 ∧ x.entry.confirmation ≠ none then some (i.toNat, x.entry) else none

/-- What is written redeems the positions `idxs` of `L`; the others may lapse. -/
structure Redeems (L L' : List LogEntry) (acts : List AIOAction) (idxs : List ℤ) : Prop where
  confirmed : confirmations acts =
    (idxs.filterMap (redeemed L)).filterMap fun t => t.2.confirmation
  kept : ∀ t ∈ vouchers L', t ∈ vouchers L ∧ t ∉ idxs.filterMap (redeemed L)
  stays : idxs ≠ [] → L'.map LogEntry.entry = L.map LogEntry.entry

variable {L L' : List LogEntry} {acts : List AIOAction} {rs : RaftState} {u : Undefined}

@[simp] theorem confirmations_nil : confirmations [] = [] := rfl

theorem confirmations_append (acts acts' : List AIOAction) :
    confirmations (acts ++ acts') = confirmations acts ++ confirmations acts' :=
  List.filterMap_append

theorem confirmations_of_refused (h : ∀ fd, ∀ msg ∈ answersOn fd acts, isPositive msg = false) :
    confirmations acts = [] := by
  apply List.filterMap_eq_nil_iff.mpr
  intro a ha
  cases a with
  | writeMsg fd msg =>
    have hmem : msg ∈ answersOn fd acts := List.mem_filterMap.mpr ⟨_, ha, by simp⟩
    simp [h fd msg hmem]
  | _ => rfl

theorem confirmations_silent (h : ∀ fd, answersOn fd acts = []) : confirmations acts = [] :=
  confirmations_of_refused fun fd msg hmsg => by simp [h fd] at hmsg

theorem Refuses.confirmations {fd : ℤ} (h : Refuses fd acts) : confirmations acts = [] := by
  obtain ⟨msg, hneg, hacts⟩ := h
  refine confirmations_of_refused fun fd' msg' hmsg => ?_
  rw [hacts] at hmsg
  split_ifs at hmsg
  · rw [List.mem_singleton.mp hmsg]
    exact hneg
  · cases hmsg

theorem redeemed_eq_some {i : ℤ} {t : Voucher Entry} (h : redeemed L i = some t) :
    t ∈ vouchers L ∧ t.1 = i.toNat := by
  obtain ⟨x, hx, hif⟩ := Option.bind_eq_some_iff.mp h
  split_ifs at hif with hfd
  obtain rfl := Option.some.inj hif
  exact ⟨⟨x, hx, rfl, hfd.1⟩, rfl⟩

theorem vouchers_concat {x : LogEntry} {t : Voucher Entry} (ht : t ∈ vouchers (L ++ [x])) :
    t ∈ vouchers L ∨ t = (L.length, x.entry) := by
  obtain ⟨y, hy, hentry, hfd⟩ := ht
  rcases lt_or_ge t.1 L.length with hi | hi
  · rw [List.getElem?_append_left hi] at hy
    exact Or.inl ⟨y, hy, hentry, hfd⟩
  · rw [List.getElem?_append_right hi, List.getElem?_singleton] at hy
    split_ifs at hy
    obtain rfl := Option.some.inj hy
    exact Or.inr (Prod.ext (by dsimp only; omega) hentry.symm)

theorem redeems_quiet (hL : Pends L L') (hno : confirmations acts = []) :
    Redeems L L' acts [] where
  confirmed := hno
  kept := by
    rintro t ⟨x, hx, hentry, hfd⟩
    exact ⟨⟨x, hL t.1 x hx hfd, hentry, hfd⟩, List.not_mem_nil⟩
  stays h := absurd rfl h

/-! ### The commit loop -/

theorem commitEntry_redeems (u : Undefined) {i : ℕ} (hi : i < rs.log.length) :
    Redeems rs.log (commitEntry u rs i).1.log (commitEntry u rs i).2 [(i : ℤ)] ∧
      ∀ j : ℕ, j ≠ i → (commitEntry u rs i).1.log[j]? = rs.log[j]? := by
  have hsays := (same_commitEntry u rs i).2
  have hread := readLog_of_lt (u := u) hi
  have hget := List.getElem?_eq_getElem hi
  have hcleared : ∀ j : ℕ, j ≠ i →
      (rs.log.modify i fun e => { e with reqFd := -1 })[j]? = rs.log[j]? := by
    intro j hj
    simp [Ne.symm hj]
  -- an entry that is answered is cleared
  have hanswer : ∀ msg, rs.log[i].reqFd ≠ -1 → rs.log[i].entry.confirmation = some msg →
      isPositive msg = true →
      (rs.log.modify i fun e => { e with reqFd := -1 }).map LogEntry.entry =
        rs.log.map LogEntry.entry →
      Redeems rs.log (rs.log.modify i fun e => { e with reqFd := -1 })
        [.writeMsg rs.log[i].reqFd msg] [(i : ℤ)] := by
    intro msg hfd hconf hpos hmap
    have hred : redeemed rs.log i = some (i, rs.log[i].entry) := by
      simp [redeemed, hget, hfd, hconf]
    refine ⟨by simp [confirmations, hpos, hred, hconf], ?_, fun _ => hmap⟩
    rintro t ⟨x, hx, hentry, hx'⟩
    by_cases hti : t.1 = i
    · rw [hti, List.getElem?_modify, hget, Option.map_eq_map, Option.map_some, if_pos rfl] at hx
      obtain rfl := Option.some.inj hx
      exact absurd rfl hx'
    · rw [hcleared _ hti] at hx
      refine ⟨⟨x, hx, hentry, hx'⟩, ?_⟩
      rw [List.filterMap_cons_some hred, List.filterMap_nil, List.mem_singleton]
      rintro rfl
      exact hti rfl
  -- any other stays as it is
  have hstays : rs.log[i].reqFd = -1 ∨ rs.log[i].entry.confirmation = none →
      Redeems rs.log rs.log [] [(i : ℤ)] := by
    intro hno
    have hred : redeemed rs.log i = none := by
      simp only [redeemed, Int.toNat_natCast, hget, Option.bind_some]
      rw [if_neg]
      exact fun h => hno.elim h.1 h.2
    refine ⟨by simp [hred], fun t ht => ⟨ht, ?_⟩, fun _ => rfl⟩
    rw [List.filterMap_cons_none hred]
    exact List.not_mem_nil
  have hsame : ∀ j : ℕ, j ≠ i → rs.log[j]? = rs.log[j]? := fun _ _ => rfl
  unfold commitEntry at hsays ⊢
  rw [hread] at hsays ⊢
  dsimp only at hsays ⊢
  split_ifs at hsays ⊢ with hcross hprep hfd hfd
  · exact ⟨hanswer _ hfd (by simp [Entry.confirmation, LogEntry.entry, hcross, hprep]) rfl hsays,
      hcleared⟩
  · exact ⟨hstays (Or.inl (not_not.mp hfd)), hsame⟩
  · exact ⟨hstays (Or.inr (by simp [Entry.confirmation, LogEntry.entry, hcross, hprep])), hsame⟩
  · exact ⟨hanswer _ hfd (by simp [Entry.confirmation, LogEntry.entry, hcross]) rfl hsays,
      hcleared⟩
  · exact ⟨hstays (Or.inl (not_not.mp hfd)), hsame⟩

theorem redeemed_congr {i : ℤ} (h : L'[i.toNat]? = L[i.toNat]?) : redeemed L' i = redeemed L i := by
  rw [redeemed, h]
  rfl

theorem commitEntries_redeems (u : Undefined) {idxs : List ℤ}
    (hin : ∀ i ∈ idxs, 0 ≤ i ∧ i < rs.log.length) (hnodup : idxs.Nodup) :
    Redeems rs.log (commitEntries u rs idxs).1.log (commitEntries u rs idxs).2 idxs := by
  induction idxs generalizing rs with
  | nil => exact redeems_quiet (.refl _) rfl
  | cons idx rest ih =>
    obtain ⟨hlo, hhi⟩ := hin idx List.mem_cons_self
    obtain ⟨i, rfl⟩ := Int.eq_ofNat_of_zero_le hlo
    obtain ⟨hnew, hnodup⟩ := List.nodup_cons.mp hnodup
    have hi : i < rs.log.length := by omega
    obtain ⟨hfirst, hothers⟩ := commitEntry_redeems u hi
    have hrest := @ih (commitEntry u rs i).1 (fun j hj => by
      rw [length_commitEntry]
      exact hin j (List.mem_cons_of_mem _ hj)) hnodup
    have hred : rest.filterMap (redeemed (commitEntry u rs i).1.log) =
        rest.filterMap (redeemed rs.log) := by
      apply List.filterMap_congr
      intro j hj
      apply redeemed_congr
      apply hothers
      rintro rfl
      apply hnew
      rwa [Int.toNat_of_nonneg (hin j (List.mem_cons_of_mem _ hj)).1]
    have hsplit : (↑i :: rest).filterMap (redeemed rs.log) =
        [(i : ℤ)].filterMap (redeemed rs.log) ++ rest.filterMap (redeemed rs.log) :=
      List.filterMap_append (l := [(i : ℤ)])
    refine ⟨?_, fun t ht => ?_, fun _ => (same_commitEntries u rs (↑i :: rest)).2⟩
    · rw [commitEntries, confirmations_append, hfirst.confirmed, hrest.confirmed, hred, hsplit,
        List.filterMap_append]
    · obtain ⟨hmid, hno⟩ := hrest.kept t ht
      obtain ⟨hold, hno'⟩ := hfirst.kept t hmid
      refine ⟨hold, ?_⟩
      rw [hred] at hno
      rw [hsplit, List.mem_append, not_or]
      exact ⟨hno', hno⟩

theorem executeRsp_redeems {rsp : AppendEntriesRsp} (fd : ℤ) (hdec : decides u rs rsp = true)
    (hin : ∀ i ∈ indices (rs.commitIndex + 1) rs.comingCommitIndex, 0 ≤ i ∧ i < rs.log.length) :
    Redeems rs.log (executeRsp u fd rs rsp).1.log (executeRsp u fd rs rsp).2
      (indices (rs.commitIndex + 1) rs.comingCommitIndex) := by
  obtain ⟨hlog, shard, hsilent, hacts⟩ := commits_executeRsp fd hdec
  have hloop := @commitEntries_redeems { rs with logGrantedNum := rs.logGrantedNum + 1 } u _ hin
    (nodup_indices _ _)
  rw [hlog, hacts]
  refine ⟨?_, hloop.kept, hloop.stays⟩
  rw [confirmations_append, confirmations_silent hsilent, List.append_nil]
  exact hloop.confirmed

/-! ### Steps -/

variable {s : Cluster} {e : Event} {p : Idx}

/-- A request whose entry waits on its connection is not answered at once. -/
theorem confirmations_request (u : Undefined) (fd : ℤ) (sv : AIOServer) (m : ClientMsg) :
    confirmations (process u fd sv m.msg).2 = [] := by
  rcases answers_client u fd sv m with hno | ⟨hyes, -⟩
  · exact confirmations_silent hno
  · exact hyes.confirmations

open Cluster in
theorem deliver_redeems {k : ℕ} {fd : ℤ} {c : Connection} (hcount : Counters (s.raft c.reader))
    (hk : s.net[k]? = some c) (hp : (s.servers c.reader).pretendFail = false) :
    Redeems (s.raft c.reader).log (dispatch u fd (s.raft c.reader) c.msg).1.log
      (dispatch u fd (s.raft c.reader) c.msg).2 (looped s ⟨.deliver k fd, u⟩ c.reader) := by
  obtain ⟨src, dst, call⟩ := c
  have hother : (∀ req rsp, call ≠ .appendRsp req rsp) →
      looped s ⟨.deliver k fd, u⟩ (Connection.reader ⟨src, dst, call⟩) = [] := by
    intro hcall
    cases call with
    | appendRsp req rsp => exact absurd rfl (hcall req rsp)
    | _ => simp [looped, hk]
  cases call with
  | voteReq req =>
    rw [hother (by simp)]
    refine redeems_quiet ?_ (refuses_voteReq fd _ req).confirmations
    simp only [Connection.reader, Connection.msg, dispatch]
    rw [(untouched_voteReq fd _ req).log]
    exact .refl _
  | voteRsp req rsp =>
    rw [hother (by simp)]
    refine redeems_quiet ?_ (confirmations_silent (silent_voteRsp u fd _ rsp))
    simp only [Connection.reader, Connection.msg]
    rw [(untouched_voteRsp u fd _ rsp).log]
    exact .refl _
  | appendReq req =>
    rw [hother (by simp)]
    refine redeems_quiet ?_ (refuses_appendReq u fd _ req).confirmations
    simp only [Connection.reader, Connection.msg, dispatch]
    by_cases hlt : req.term < (s.raft dst).currentTerm
    · rw [append_stale u fd hlt]
      exact .refl _
    · cases hmis : mismatch u (s.raft dst) req with
      | true =>
        rw [append_mismatched fd (not_lt.mp hlt) hmis]
        exact .refl _
      | false =>
        rw [append_accepted fd (not_lt.mp hlt) hmis]
        exact fun i x hx hne => pending_mergeEntries u _ _ _ hx hne
  | appendRsp req rsp =>
    simp only [Connection.reader, Connection.msg, dispatch] at hp hcount ⊢
    cases hdec : decides u (s.raft src) rsp with
    | true =>
      have hloop : looped s ⟨.deliver k fd, u⟩ src =
          indices ((s.raft src).commitIndex + 1) (s.raft src).comingCommitIndex := by
        simp [looped, hk, hp, hdec]
      rw [hloop]
      refine executeRsp_redeems fd hdec fun i hi => ?_
      have hlow := hcount.low
      have hin := hcount.inLog (decides_spec hdec).1
      obtain ⟨hlo, hhi⟩ := mem_indices.mp hi
      exact ⟨by omega, by omega⟩
    | false =>
      have hloop : looped s ⟨.deliver k fd, u⟩ src = [] := by simp [looped, hk, hdec]
      rw [hloop]
      refine redeems_quiet ?_ (confirmations_silent (silent_executeRsp fd hdec))
      rw [(untouched_rsp hdec).log]
      exact .refl _

open Cluster in
/-- Vouchers are redeemed and lapse, unless a request is admitted. -/
theorem redeems_step (hcount : Counters (s.raft p))
    (hquiet : ∀ fd m, e.action = .request p fd m → (s.servers p).pretendFail = false →
      created fd (s.raft p) m = none) :
    Redeems (s.raft p).log ((s.step e).raft p).log (s.emits e p) (looped s e p) := by
  obtain ⟨action, u⟩ := e
  cases action with
  | lose k => exact redeems_quiet (.refl _) rfl
  | timeout q =>
    rw [(step_timeout s q u).1]
    by_cases hq : q = p
    · subst hq
      refine redeems_quiet ?_ ?_
      · rw [Cluster.set, Function.update_self, (untouched_timeout u _).log]
        exact .refl _
      · simp only [Cluster.emits, if_true]
        exact confirmations_silent (silent_timeout u _)
    · refine redeems_quiet ?_ ?_
      · rw [Cluster.set, Function.update_of_ne (Ne.symm hq)]
        exact .refl _
      · simp [Cluster.emits, hq]
  | request q fd m =>
    rw [(step_request s q fd m u).1]
    by_cases hq : q = p
    · subst hq
      refine redeems_quiet ?_ ?_
      · rw [Cluster.set, Function.update_self]
        cases hp : (s.servers q).pretendFail with
        | true => exact .refl _
        | false =>
          rw [if_neg Bool.false_ne_true, serve_log, hquiet fd m rfl hp, Option.toList_none,
            List.append_nil]
          exact .refl _
      · simp only [Cluster.emits, if_true]
        exact confirmations_request u fd _ m
    · refine redeems_quiet ?_ ?_
      · rw [Cluster.set, Function.update_of_ne (Ne.symm hq)]
        exact .refl _
      · simp [Cluster.emits, hq]
  | deliver k fd =>
    cases hk : s.net[k]? with
    | none =>
      rw [step_deliver_none fd u hk]
      have hloop : looped s ⟨.deliver k fd, u⟩ p = [] := by simp [looped, hk]
      rw [hloop]
      exact redeems_quiet (.refl _) (by simp [Cluster.emits, hk])
    | some c =>
      by_cases hc : c.reader = p
      · subst hc
        cases hp : (s.servers c.reader).pretendFail with
        | true =>
          have hproc := process_pretending u fd (administers_connection c) hp
          have hloop : looped s ⟨.deliver k fd, u⟩ c.reader = [] := by
            simp only [looped, hk]
            split
            · simp [hp]
            · rfl
          rw [(step_deliver_stopped fd u hk hp).1, hloop]
          exact redeems_quiet (.refl _) (by simp [Cluster.emits, hk, hproc])
        | false =>
          have hacts : s.emits ⟨.deliver k fd, u⟩ c.reader =
              (dispatch u fd (s.raft c.reader) c.msg).2 := by
            simp only [Cluster.emits, hk, if_true]
            rw [process_dispatch u fd (administers_connection c) hp]
            rfl
          rw [(step_deliver fd u hk hp).1, Cluster.set, Function.update_self, hacts]
          exact deliver_redeems hcount hk hp
      · have hloop : looped s ⟨.deliver k fd, u⟩ p = [] := by
          simp only [looped, hk]
          split
          · rename_i src dst req rsp heq
            obtain rfl := Option.some.inj heq
            exact if_neg fun h => hc h.1
          · rfl
        rw [hloop]
        refine redeems_quiet ?_ (by simp [Cluster.emits, hk, hc])
        cases hp : (s.servers c.reader).pretendFail with
        | true =>
          rw [(step_deliver_stopped fd u hk hp).1]
          exact .refl _
        | false =>
          rw [(step_deliver fd u hk hp).1, Cluster.set, Function.update_of_ne (Ne.symm hc)]
          exact .refl _

/-- A step in which a request is admitted writes no SUCCESS and no YES. -/
theorem confirms_request {q : Idx} {fd : ℤ} {m : ClientMsg} (he : e.action = .request q fd m) :
    s.confirms e = [] := by
  apply List.flatMap_eq_nil_iff.mpr
  intro p _
  simp only [Cluster.emits, he]
  split_ifs
  · exact confirmations_request _ _ _ _
  · rfl

open Cluster in
theorem raft_served {q : Idx} {fd : ℤ} {m : ClientMsg} (he : e.action = .request q fd m)
    (hp : (s.servers q).pretendFail = false) :
    (s.step e).raft = s.set q (serve e.undef fd (s.raft q) m) := by
  obtain ⟨action, u⟩ := e
  obtain rfl : action = .request q fd m := he
  rw [(step_request s q fd m u).1, hp, if_neg Bool.false_ne_true]

theorem logs_admitted {q : Idx} {fd : ℤ} {m : ClientMsg} {x : LogEntry}
    (he : e.action = .request q fd m) (hp : (s.servers q).pretendFail = false)
    (hx : created fd (s.raft q) m = some x) (p : Idx) : ((s.step e).raft p).log =
      if p = q then (s.raft q).log ++ [x] else (s.raft p).log := by
  rw [raft_served he hp]
  by_cases hpq : p = q
  · subst hpq
    rw [Cluster.set, Function.update_self, serve_log, hx, if_pos rfl, Option.toList_some]
  · rw [Cluster.set, Function.update_of_ne hpq, if_neg hpq]

end Raft2PC
