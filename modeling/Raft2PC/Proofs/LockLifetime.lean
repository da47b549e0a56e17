import Raft2PC.Proofs.LockDiscipline
import Raft2PC.Proofs.StateMachineSafety
import Raft2PC.Sanity.Effect
import Raft2PC.Sanity.Spoken

/-! How long a lock lasts. Locks are cleared by the commit loop of a leader and nowhere
else, so they outlive their transaction where its entry leaves the uncommitted part of the
log by another way, and only there. -/

namespace Raft2PC

open AIOServer AppendEntriesExecutor

/-- Position `i` holds a transfer not committed yet that names a locked item. -/
def locksAt (rs : RaftState) (i : ℕ) : Bool :=
  match rs.log[i]? with
  | some x => rs.commitIndex < i && isTransfer x.command &&
      (rs.locked (terms x.command).senderId || rs.locked (terms x.command).receiverId)
  | none => false

/-- The request neither erases position `i` nor commits it. -/
def leaves (u : Undefined) (rs : RaftState) (req : AppendEntriesReq) (i : ℕ) : Bool :=
  req.commitIndex < i &&
    (mergeEntries u rs.log (req.prevLogIndex + 1) req.entries)[i]?.map LogEntry.command =
      rs.log[i]?.map LogEntry.command

/-- An accepted request leaves the uncommitted transfers on locked items where they are, and
a transfer is admitted above the commit index. -/
def locksFollow (s : Cluster) (e : Event) : Bool :=
  match e.action with
  | .request p fd m =>
    (s.servers p).pretendFail || (created fd (s.raft p) m).all fun x =>
      !isTransfer x.command || (s.raft p).commitIndex < (s.raft p).log.length
  | .deliver k _ =>
    match s.net[k]? with
    | some ⟨_, dst, .appendReq req⟩ =>
      (s.servers dst).pretendFail || !accepts e.undef (s.raft dst) req ||
        (List.range (s.raft dst).log.length).all fun i =>
          !locksAt (s.raft dst) i || leaves e.undef (s.raft dst) req i
    | _ => true
  | _ => true

/-- Every locked item is named by a transfer above position `ci`. -/
def Held (ci : ℤ) (rs : RaftState) : Prop :=
  ∀ k, rs.locked k = true → ∃ i, names rs.log ci i k

theorem readsBack_created {fd : ℤ} {rs : RaftState} {m : ClientMsg} {x : LogEntry}
    (hx : created fd rs m = some x) : ReadsBack x.command := by
  cases admission_of_created hx with
  | intra req =>
    intro _ u
    rw [terms_pays, formatOf_pays, sscanf_pays]
  | prepare req => exact (@legible_prepare (fun _ => true) req).reads
  | commit req => exact fun htr => absurd htr Bool.false_ne_true
  | abort req => exact fun htr => absurd htr Bool.false_ne_true

theorem names_of_locks {fd : ℤ} {rs : RaftState} {m : ClientMsg} {x : LogEntry} {k : ℤ}
    (hx : created fd rs m = some x) (hk : locks rs k m = true) :
    isTransfer x.command = true ∧
      (k = (terms x.command).senderId ∨ k = (terms x.command).receiverId) := by
  cases admission_of_created hx with
  | intra req =>
    simp only [locks, Bool.or_eq_true, decide_eq_true_eq] at hk
    refine ⟨isTransfer_pays _ _ _, ?_⟩
    rw [terms_pays]
    exact hk
  | prepare req hphase =>
    simp only [locks, Bool.and_eq_true, Bool.or_eq_true, decide_eq_true_eq] at hk
    refine ⟨isTransfer_prepare req, ?_⟩
    rw [terms_prepare]
    exact hk.2.imp And.right And.right
  | commit req hphase | abort req hphase => simp [locks, hphase] at hk

theorem names_congr {a b : List LogEntry} (hab : a.map LogEntry.entry = b.map LogEntry.entry)
    {ci k : ℤ} {i : ℕ} (h : names a ci i k) : names b ci i k := by
  obtain ⟨x, hx, hi, htr, hends⟩ := h
  have hget := congrArg (·[i]?) hab
  simp only [List.getElem?_map, hx, Option.map_some] at hget
  obtain ⟨y, hy, hxy⟩ := Option.map_eq_some_iff.mp hget.symm
  have hcmd : y.command = x.command := congrArg Entry.command hxy
  exact ⟨y, hy, hi, hcmd ▸ htr, hcmd ▸ hends⟩

theorem names_append {log : List LogEntry} {ci k : ℤ} {i : ℕ} (x : LogEntry)
    (h : names log ci i k) : names (log ++ [x]) ci i k := by
  obtain ⟨y, hy, hrest⟩ := h
  exact ⟨y, Consensus.getElem?_of_isPrefix (List.prefix_append _ _) hy, hrest⟩

/-! ### One step -/

/-- The commit loop, one position: what it commits it unlocks. -/
theorem Held.commit {ci : ℤ} {rs : RaftState} (h : Held ci rs) (hspoken : Says ReadsBack rs.log)
    (u : Undefined) {i : ℕ} (hi : (i : ℤ) = ci + 1) (hlen : i < rs.log.length) :
    Held (ci + 1) (commitEntry u rs i).1 := by
  have hlog := (same_commitEntry u rs i).2
  have hread : readLog u rs.log i = rs.log[i] := readLog_of_lt hlen
  intro k hk
  -- the position that names `k` is not the one committed now
  have hlater : ∀ j, names rs.log ci j k → j ≠ i → ∃ j, names (commitEntry u rs i).1.log (ci + 1) j k := by
    rintro j ⟨x, hx, hj, htr, hends⟩ hne
    exact ⟨j, names_congr hlog.symm ⟨x, hx, by omega, htr, hends⟩⟩
  have hitem : ∀ j, names rs.log ci j k → j = i → isTransfer rs.log[i].command = true ∧
      (k = (terms rs.log[i].command).senderId ∨ k = (terms rs.log[i].command).receiverId) := by
    rintro j ⟨x, hx, -, hends⟩ rfl
    rw [List.getElem?_eq_getElem hlen] at hx
    obtain rfl := Option.some.inj hx
    exact hends
  cases htr : isTransfer rs.log[i].command with
  | false =>
    rw [locked_commitEntry_other (by rw [hread]; exact htr)] at hk
    obtain ⟨j, hj⟩ := h k hk
    exact hlater j hj fun hji => Bool.false_ne_true (htr.symm.trans (hitem j hj hji).1)
  | true =>
    have hreads := hspoken rs.log[i] (List.getElem_mem hlen) htr u.locals
    rw [locked_commitEntry (by rw [hread]; exact hreads) (by rw [hread]; exact htr), hread] at hk
    split_ifs at hk with hr hs
    obtain ⟨j, hj⟩ := h k hk
    refine hlater j hj fun hji => ?_
    rcases (hitem j hj hji).2 with hk' | hk'
    · exact hs hk'
    · exact hr hk'

/-- A leader's commit, whichever way the commit index moves. -/
theorem Held.decided {rs : RaftState} (h : Held rs.commitIndex rs) (hspoken : Says ReadsBack rs.log)
    {u : Undefined} (fd : ℤ) {rsp : AppendEntriesRsp} (hdec : decides u rs rsp = true)
    (hlow : -1 ≤ rs.commitIndex) (hlen : rs.comingCommitIndex < rs.log.length) :
    Held rs.comingCommitIndex (executeRsp u fd rs rsp).1 := by
  obtain ⟨hlog, hlock, -⟩ := executeRsp_decided fd hdec
  have hafter : Held rs.comingCommitIndex (commitEntries u
      { rs with logGrantedNum := rs.logGrantedNum + 1 }
      (indices (rs.commitIndex + 1) rs.comingCommitIndex)).1 := by
    rcases le_total rs.commitIndex rs.comingCommitIndex with hle | hle
    · let P (ci : ℤ) (rs : RaftState) := Held ci rs ∧ Says ReadsBack rs.log
      have hbefore : P rs.commitIndex { rs with logGrantedNum := rs.logGrantedNum + 1 } :=
        ⟨h, hspoken⟩
      have hloop := commitEntries_induction (P := P) (u := u)
        (fun ci rs i hrs hi hlen => ⟨hrs.1.commit hrs.2 u hi hlen,
          says_congr (same_commitEntry u rs i).2 hrs.2⟩) hbefore hlow hle hlen
      exact hloop.1
    · rw [indices_eq_nil (by omega)]
      intro k hk
      obtain ⟨i, x, hx, hi, hends⟩ := h k hk
      exact ⟨i, x, hx, by omega, hends⟩
  intro k hk
  rw [RaftState.locked, hlock] at hk
  obtain ⟨i, hi⟩ := hafter k hk
  rw [hlog]
  exact ⟨i, hi⟩

theorem Held.serve {rs : RaftState} (h : Held rs.commitIndex rs) (u : Undefined) {fd : ℤ}
    {m : ClientMsg} (habove : ∀ x, created fd rs m = some x → isTransfer x.command = true →
      rs.commitIndex < rs.log.length) : Held rs.commitIndex (Raft2PC.serve u fd rs m) := by
  intro k hk
  rw [locked_serve, Bool.or_eq_true] at hk
  have hlog := serve_log u fd rs m
  cases hx : created fd rs m with
  | none =>
    rw [hx, Option.toList_none, List.append_nil] at hlog
    rw [hlog]
    simp only [hx, Option.isSome_none, Bool.false_and, Bool.false_eq_true, or_false] at hk
    exact h k hk
  | some x =>
    rw [hx, Option.toList_some] at hlog
    rw [hlog]
    rw [hx, Option.isSome_some, Bool.true_and] at hk
    rcases hk with hk | hk
    · obtain ⟨i, hi⟩ := h k hk
      exact ⟨i, names_append x hi⟩
    · obtain ⟨htr, hends⟩ := names_of_locks hx hk
      exact ⟨rs.log.length, x, by simp, habove x hx htr, htr, hends⟩

/-- An accepted request leaves every transfer in place that holds a lock. -/
theorem Held.accepted {rs : RaftState} (h : Held rs.commitIndex rs) {u : Undefined}
    {req : AppendEntriesReq}
    (hleaves : ∀ i < rs.log.length, locksAt rs i = true → leaves u rs req i = true) :
    Held req.commitIndex (Raft2PC.accepted u rs req) := by
  intro k hk
  have hk' : rs.locked k = true := hk
  obtain ⟨i, x, hx, hi, htr, hends⟩ := h k hk'
  have hlocks : locksAt rs i = true := by
    simp only [locksAt, hx, Bool.and_eq_true, Bool.or_eq_true, decide_eq_true_eq]
    refine ⟨⟨hi, htr⟩, ?_⟩
    rcases hends with rfl | rfl
    · exact Or.inl hk'
    · exact Or.inr hk'
  have hkeeps := hleaves i (List.getElem?_eq_some_iff.mp hx).1 hlocks
  simp only [leaves, Bool.and_eq_true, decide_eq_true_eq, hx, Option.map_some] at hkeeps
  obtain ⟨hci, hget⟩ := hkeeps
  obtain ⟨y, hy, hcmd⟩ := Option.map_eq_some_iff.mp hget
  exact ⟨i, y, hy, hci, hcmd ▸ htr, hcmd ▸ hends⟩

structure Locking (cid : ℕ) (R : Idx → RaftState) (N : List Connection) (h : Hist) : Prop where
  leading : Leading cid R N h
  spoken : Spoken ReadsBack R N
  held : ∀ p, Held (R p).commitIndex (R p)

variable {cid : ℕ} {s : Cluster} {e : Event} {h h' : Hist} {R : Idx → RaftState}
  {N : List Connection}

theorem Locking.step (hl : Locking cid s.raft s.net h) (hs : Recorded s h e R N h')
    (hok : locksFollow s e = true) : Locking cid R N h' := by
  refine ⟨hl.leading.step hs, hl.spoken.step hs fun p fd m x _ _ hx => readsBack_created hx, ?_⟩
  have hset : ∀ p rs, Held rs.commitIndex rs →
      ∀ q, Held (s.set p rs q).commitIndex (s.set p rs q) := fun p rs hp =>
    Cluster.forall_set (P := fun _ rs => Held rs.commitIndex rs) hp fun q _ => hl.held q
  cases hs with
  | drop | ungranted | stale => exact hl.held
  | idle p | campaign p | beat p | counted k p | elected k p | outvoted k p | reminded k p
  | deposed k p => exact hset p _ (hl.held p)
  | granted k fd src dst | mismatched k src dst => exact hset dst _ (hl.held dst)
  | request p fd m he hp =>
    refine hset p _ ?_
    rw [(same_serve e.undef fd (s.raft p) m).commitIndex]
    refine (hl.held p).serve e.undef fun x hx htr => ?_
    simpa [locksFollow, he, hp, hx, htr] using hok
  | accepted k fd src dst req he hp hk hle hmis =>
    refine hset dst _ ((hl.held dst).accepted fun i hi hlocks => ?_)
    have hacc : accepts e.undef (s.raft dst) req = true := by simp [accepts, hle, hmis]
    simp only [locksFollow, he, hk, hp, hacc, Bool.not_true, Bool.false_or, List.all_eq_true,
      List.mem_range] at hok
    simpa [hlocks] using hok i hi
  | answered k fd src dst req rsp he hp hk hle =>
    refine hset src _ ?_
    have hcount := hl.leading.counters src
    rw [(answered_executeRsp e.undef fd hle).commitIndex]
    cases hdec : decides e.undef (s.raft src) rsp with
    | true =>
      obtain ⟨hrole, -⟩ := decides_spec hdec
      exact (hl.held src).decided (hl.spoken.logs src) fd hdec hcount.low (hcount.inLog hrole)
    | false =>
      have hsame := @untouched_rsp _ fd _ _ hdec
      intro i hi
      rw [RaftState.locked, hsame.locks] at hi
      rw [hsame.log]
      exact hl.held src i hi

theorem locking_init (cid : ℕ) (shard : Table ℤ) :
    Locking cid (Cluster.init cid shard).raft (Cluster.init cid shard).net
      Consensus.History.start where
  leading := leading_init cid shard
  spoken := spoken_init _ cid shard
  held p k hk := by
    have hnone : ((Cluster.init cid shard).raft p).locked k = false := by
      rw [RaftState.locked, Table.get]
      rfl
    rw [hnone] at hk
    cases hk

theorem Tracked.locking {ok : Cluster → Event → Prop} (ht : Tracked ok s h)
    (hok : ∀ s e, ok s e → locksFollow s e = true) : ∃ cid, Locking cid s.raft s.net h := by
  induction ht with
  | init cid shard => exact ⟨cid, locking_init cid shard⟩
  | step e _ he hrec ih =>
    obtain ⟨cid, hl⟩ := ih
    exact ⟨cid, hl.step hrec (hok _ _ he)⟩

/-- In every state reached by such steps, each locked item is named by a transfer of the
server's log that is not committed yet. -/
theorem lock_lifetime (hs : Cluster.Reach (fun s e => locksFollow s e = true) s) (p : Idx) (k : ℤ)
    (hk : (s.raft p).locked k = true) :
    ∃ i, names (s.raft p).log (s.raft p).commitIndex i k := by
  obtain ⟨h, ht⟩ := hs.tracked
  obtain ⟨cid, hl⟩ := ht.locking fun _ _ hok => hok
  exact hl.held p k hk

/-- A transfer is admitted and waits to be committed. -/
def holdFirst : List Event := electFirst ++ calmly [.request 1 7 (pay 1 100 200 5)]

theorem lock_lifetime_first :
    ∃ i, names (((Cluster.init 0 purse).run holdFirst).raft 1).log
      (((Cluster.init 0 purse).run holdFirst).raft 1).commitIndex i 100 :=
  lock_lifetime (Cluster.Follows.reach (by decide)) 1 100 (by decide)

/-- Server 1 locks item 100 and replicates the transfer to server 2, which leads in term 2,
commits the transfer and lets server 1 commit it as a follower. -/
def lockLeftBehind : List Event := holdFirst ++ calmly [.timeout 1, .deliver 4 9, .timeout 2,
  .timeout 2, .deliver 6 9, .deliver 6 9, .request 2 7 (pay 2 300 400 0), .timeout 2,
  .deliver 7 9, .deliver 8 9, .deliver 8 9, .deliver 8 9, .timeout 2, .deliver 9 9]

/-- No other test fails on the way. -/
theorem lock_left_behind :
    let s := (Cluster.init 0 purse).run lockLeftBehind
    Cluster.Reach (fun s e => disciplined s e = true ∧ commitsForward s e = true) s ∧
      (s.raft 1).locked 100 = true ∧
        ¬∃ i, names (s.raft 1).log (s.raft 1).commitIndex i 100 := by
  intro s
  have hcommit : (s.raft 1).commitIndex = 1 := by decide +kernel
  have hlen : (s.raft 1).log.length = 2 := by decide +kernel
  refine ⟨Cluster.Follows.reach (by decide +kernel), by decide +kernel, ?_⟩
  rintro ⟨i, x, hx, hi, -⟩
  have hlt := (List.getElem?_eq_some_iff.mp hx).1
  omega

end Raft2PC
