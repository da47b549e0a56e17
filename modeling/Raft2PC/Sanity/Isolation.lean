import Raft2PC.Sanity.Locks

/-! The open transfers of a leader's log, and how its commits and its requests keep them
from sharing an item. -/

namespace Raft2PC

open AIOServer AppendEntriesExecutor

/-- A command that names a transfer: an intra-shard one or a PREPARE. -/
def isTransfer (command : Text) : Bool := !isCross command || isPrepare command

/-- The format a transfer is read with. -/
def formatOf (command : Text) : Text := if isCross command then prepareFormat else paysFormat

/-- The transfer a command names. -/
def terms (command : Text) : Transfer := sscanf default (formatOf command) command

/-- The log has a [COMMIT] or an [ABORT] entry of `id`. -/
def decidedIn (log : List LogEntry) (id : ℤ) : Bool :=
  log.any fun e => e.id = id && (isCommit e.command || isAbort e.command)

/-- The command at position `i`, if it is an open transfer: one above the commit index
`ci`, or a PREPARE without a decision. -/
def openAt (log : List LogEntry) (ci : ℤ) (i : ℕ) : Option Text :=
  match log[i]? with
  | some e =>
    if isTransfer e.command && (ci < i || (isPrepare e.command && !decidedIn log e.id)) then
      some e.command
    else none
  | none => none

/-- Position `i` holds a transfer not committed yet, and the transfer names item `k`. -/
def names (log : List LogEntry) (ci : ℤ) (i : ℕ) (k : ℤ) : Prop :=
  ∃ x, log[i]? = some x ∧ ci < i ∧ isTransfer x.command = true ∧
    (k = (terms x.command).senderId ∨ k = (terms x.command).receiverId)

section Shard

variable (home : ℤ → ℤ) (cid : ℤ)

/-- Item `k` lies in the cluster and the command takes from it or gives to it. -/
def touches (command : Text) (k : ℤ) : Bool :=
  home k = cid && (k = (terms command).senderId || k = (terms command).receiverId)

/-- The commands have an item of the cluster in common. -/
def shares (c d : Text) : Bool :=
  touches home cid c (terms d).senderId && touches home cid d (terms d).senderId ||
    touches home cid c (terms d).receiverId && touches home cid d (terms d).receiverId

variable {home cid} in
theorem touches_sender {c : Text} (h : home (terms c).senderId = cid) :
    touches home cid c (terms c).senderId = true := by
  simp [touches, h]

variable {home cid} in
theorem touches_receiver {c : Text} (h : home (terms c).receiverId = cid) :
    touches home cid c (terms c).receiverId = true := by
  simp [touches, h]

variable {home cid} in
theorem touch_home {c : Text} {k : ℤ} (h : touches home cid c k = true) : home k = cid := by
  simp only [touches, Bool.and_eq_true, decide_eq_true_eq] at h
  exact h.1

variable {home cid} in
theorem shares_of_touches {c d : Text} {k : ℤ} (hc : touches home cid c k = true)
    (hd : touches home cid d k = true) : shares home cid c d = true := by
  have hd' := hd
  simp only [touches, Bool.and_eq_true, Bool.or_eq_true, decide_eq_true_eq] at hd'
  rcases hd'.2 with rfl | rfl
  · simp [shares, hc, hd]
  · simp [shares, hc, hd]

/-- A transfer that reads back as itself, with both ends in the shard if it is
intra-shard. -/
structure Written (command : Text) : Prop where
  amount : 0 ≤ (terms command).amount
  reads : ∀ u, sscanf u (formatOf command) command = terms command
  local' : isCross command = false →
    home (terms command).senderId = cid ∧ home (terms command).receiverId = cid

end Shard

/-- The open transfers of the log, committed up to `ci`, do not get in each other's way.
Positions from `n₀` on were appended by this leader, which holds their locks until it
commits them. -/
structure Isolated (home : ℤ → ℤ) (n₀ : ℕ) (ci : ℤ) (rs : RaftState) : Prop where
  written : ∀ i c, openAt rs.log ci i = some c → Written home rs.clusterId c
  exclusive : ∀ i j c d k, openAt rs.log ci i = some c → openAt rs.log ci j = some d →
    touches home rs.clusterId c k → touches home rs.clusterId d k → i = j
  fenced : ∀ i c k, n₀ ≤ i → ci < i → openAt rs.log ci i = some c →
    touches home rs.clusterId c k → rs.locked k = true
  covered : ∀ i c, openAt rs.log ci i = some c → home (terms c).senderId = rs.clusterId →
    (terms c).amount ≤ rs.balance (terms c).senderId
  solvent : ∀ k, 0 ≤ rs.balance k

/-! ### Texts -/

theorem formatOf_pays (a b c : ℤ) : formatOf (fmtPays a b c) = paysFormat := by
  rw [formatOf, isCross_pays, if_neg Bool.false_ne_true]

theorem formatOf_prepare (s : Text) : formatOf ("[PREPARE] ".toList ++ s) = prepareFormat := rfl

theorem terms_pays (a b c : ℤ) : terms (fmtPays a b c) = ⟨a, b, c⟩ := by
  rw [terms, formatOf_pays, sscanf_pays]

theorem terms_prepare (req : CrossShardReq) :
    terms (CrossShardExecutor.prepareCommand req) =
      ⟨req.senderId, req.receiverId, req.amount⟩ := by
  unfold terms CrossShardExecutor.prepareCommand
  rw [formatOf_prepare, sscanf_prepare]

theorem isTransfer_pays (a b c : ℤ) : isTransfer (fmtPays a b c) = true := by
  rw [isTransfer, isCross_pays]; rfl

theorem isTransfer_prepare (req : CrossShardReq) :
    isTransfer (CrossShardExecutor.prepareCommand req) = true := rfl

theorem isTransfer_commit (req : CrossShardReq) :
    isTransfer (CrossShardExecutor.commitCommand req) = false := rfl

theorem isTransfer_abort (req : CrossShardReq) :
    isTransfer (CrossShardExecutor.abortCommand req) = false := rfl

theorem isCross_prepareCommand (req : CrossShardReq) :
    isCross (CrossShardExecutor.prepareCommand req) = true := rfl

theorem isCross_abortCommand (req : CrossShardReq) :
    isCross (CrossShardExecutor.abortCommand req) = true := rfl

theorem isCross_of_isPrepare {c : Text} (h : isPrepare c = true) : isCross c = true :=
  isCross_of_take (of_decide_eq_true h)

theorem written_pays {home : ℤ → ℤ} {cid a b c : ℤ} (ha : home a = cid) (hb : home b = cid)
    (hc : 0 ≤ c) : Written home cid (fmtPays a b c) where
  amount := by rw [terms_pays]; exact hc
  reads u := by rw [terms_pays, formatOf_pays, sscanf_pays]
  local' _ := by rw [terms_pays]; exact ⟨ha, hb⟩

theorem written_prepare {home : ℤ → ℤ} {cid : ℤ} {req : CrossShardReq} (hamount : 0 ≤ req.amount) :
    Written home cid (CrossShardExecutor.prepareCommand req) where
  amount := by rw [terms_prepare]; exact hamount
  reads u := by
    rw [terms_prepare]
    unfold CrossShardExecutor.prepareCommand
    rw [formatOf_prepare, sscanf_prepare]
  local' h := by
    unfold CrossShardExecutor.prepareCommand at h
    rw [isCross_prepare] at h
    cases h

/-! ### Open positions -/

theorem openAt_eq_some {log : List LogEntry} {ci : ℤ} {i : ℕ} {c : Text} :
    openAt log ci i = some c ↔ ∃ e, log[i]? = some e ∧ e.command = c ∧ isTransfer c = true ∧
      (ci < i ∨ isPrepare c = true ∧ decidedIn log e.id = false) := by
  unfold openAt
  cases log[i]? with
  | none => simp
  | some e =>
    simp only [Option.some.injEq, exists_eq_left', Bool.and_eq_true, Bool.or_eq_true,
      decide_eq_true_eq, Bool.not_eq_true']
    constructor
    · intro h
      split_ifs at h with hopen
      cases h
      exact ⟨rfl, hopen⟩
    · rintro ⟨rfl, hopen⟩
      rw [if_pos hopen]

theorem decidedIn_append {log : List LogEntry} {x : LogEntry} {id : ℤ}
    (h : decidedIn (log ++ [x]) id = false) :
    decidedIn log id = false ∧
      (x.id = id → isCommit x.command = false ∧ isAbort x.command = false) := by
  simp only [decidedIn, List.any_append, List.any_cons, List.any_nil, Bool.or_false,
    Bool.or_eq_false_iff, Bool.and_eq_false_iff, decide_eq_false_iff_not] at h
  exact ⟨h.1, fun hid => h.2.resolve_left (not_not_intro hid)⟩

/-- An open position of a longer log was open before or is the new one. -/
theorem openAt_append {log : List LogEntry} {x : LogEntry} {ci : ℤ} {i : ℕ} {c : Text}
    (h : openAt (log ++ [x]) ci i = some c) :
    openAt log ci i = some c ∨ i = log.length ∧ c = x.command ∧ isTransfer x.command = true := by
  obtain ⟨e, he, rfl, htr, hopen⟩ := openAt_eq_some.mp h
  rcases lt_or_ge i log.length with hi | hi
  · left
    rw [List.getElem?_append_left hi] at he
    refine openAt_eq_some.mpr ⟨e, he, rfl, htr, hopen.imp_right ?_⟩
    exact fun hp => ⟨hp.1, (decidedIn_append hp.2).1⟩
  · right
    have hlen : i < (log ++ [x]).length := (List.getElem?_eq_some_iff.mp he).1
    have hi' : i = log.length := by simp at hlen; omega
    subst hi'
    rw [List.getElem?_append_right le_rfl, Nat.sub_self] at he
    obtain rfl := Option.some.inj he
    exact ⟨rfl, rfl, htr⟩

/-- Committing one more position opens nothing, and closes it unless it is a PREPARE. -/
theorem openAt_succ {log : List LogEntry} {ci : ℤ} {i : ℕ} {c : Text}
    (h : openAt log (ci + 1) i = some c) :
    openAt log ci i = some c ∧ (ci + 1 < i ∨ isPrepare c = true) := by
  obtain ⟨e, he, rfl, htr, hopen⟩ := openAt_eq_some.mp h
  rcases hopen with hlt | hp
  · exact ⟨openAt_eq_some.mpr ⟨e, he, rfl, htr, Or.inl (by omega)⟩, Or.inl hlt⟩
  · exact ⟨openAt_eq_some.mpr ⟨e, he, rfl, htr, Or.inr hp⟩, Or.inr hp.1⟩

theorem openAt_congr {a b : List LogEntry}
    (hab : a.map LogEntry.entry = b.map LogEntry.entry) (ci : ℤ) (i : ℕ) :
    openAt a ci i = openAt b ci i := by
  have hdec : ∀ id, decidedIn a id = decidedIn b id := by
    intro id
    have hany : ∀ l : List LogEntry, decidedIn l id = (l.map LogEntry.entry).any fun e =>
        e.id = id && (isCommit e.command || isAbort e.command) := by
      intro l
      rw [List.any_map]
      rfl
    rw [hany, hany, hab]
  have hget : a[i]?.map LogEntry.entry = b[i]?.map LogEntry.entry := by
    rw [← List.getElem?_map, hab, List.getElem?_map]
  unfold openAt
  cases ha : a[i]? with
  | none =>
    rw [ha] at hget
    rw [Option.map_eq_none_iff.mp hget.symm]
  | some x =>
    rw [ha] at hget
    obtain ⟨y, hy, hxy⟩ := Option.map_eq_some_iff.mp hget.symm
    have hcmd : y.command = x.command := congrArg Entry.command hxy
    have hid : y.id = x.id := congrArg Entry.id hxy
    simp only [hy, hdec, hcmd, hid]

/-! ### The leader commits -/

section Commit

variable {u : Undefined} {rs : RaftState} {idx : ℤ}

/-- Committing a transfer unlocks both its items. -/
theorem locked_commitEntry (hreads : sscanf u.locals (formatOf (readLog u rs.log idx).command)
      (readLog u rs.log idx).command = terms (readLog u rs.log idx).command)
    (htr : isTransfer (readLog u rs.log idx).command = true) (k : ℤ) :
    (commitEntry u rs idx).1.locked k =
      if k = (terms (readLog u rs.log idx).command).receiverId then false
      else if k = (terms (readLog u rs.log idx).command).senderId then false
      else rs.locked k := by
  have hclear : ∀ rs : RaftState, (clearFd rs idx).locked k = rs.locked k := fun _ => rfl
  unfold commitEntry
  dsimp only
  cases hcross : isCross (readLog u rs.log idx).command with
  | true =>
    have hprep : isPrepare (readLog u rs.log idx).command = true := by
      simpa [isTransfer, hcross] using htr
    rw [formatOf, hcross, if_pos rfl] at hreads
    simp only [hprep, if_true, hreads]
    split_ifs <;> simp_all
  | false =>
    rw [formatOf, hcross, if_neg Bool.false_ne_true] at hreads
    simp only [Bool.false_eq_true, if_false, hreads]
    split_ifs <;> simp_all

theorem locked_commitEntry_other (htr : isTransfer (readLog u rs.log idx).command = false)
    (k : ℤ) : (commitEntry u rs idx).1.locked k = rs.locked k := by
  simp only [isTransfer, Bool.or_eq_false_iff, Bool.not_eq_false'] at htr
  simp [commitEntry, htr]

/-- Committing an intra-shard transfer pays it. -/
theorem balance_commitEntry_intra
    (hreads : sscanf u.locals (formatOf (readLog u rs.log idx).command)
      (readLog u rs.log idx).command = terms (readLog u rs.log idx).command)
    (hcross : isCross (readLog u rs.log idx).command = false) (k : ℤ) :
    (commitEntry u rs idx).1.balance k =
      rs.balance k + (terms (readLog u rs.log idx).command).delta k := by
  rw [formatOf, hcross, if_neg Bool.false_ne_true] at hreads
  rw [balance_commitEntry, isIntra, hcross, transferAt, hreads]
  rfl

theorem balance_commitEntry_cross (hcross : isCross (readLog u rs.log idx).command = true)
    (k : ℤ) : (commitEntry u rs idx).1.balance k = rs.balance k := by
  rw [balance_commitEntry, isIntra, hcross]
  exact add_zero _

end Commit

/-- The commit loop, one position. -/
theorem Isolated.commit {home : ℤ → ℤ} {n₀ : ℕ} {ci : ℤ} {rs : RaftState}
    (h : Isolated home n₀ ci rs) (u : Undefined) {i : ℕ} (hi : (i : ℤ) = ci + 1)
    (hlen : i < rs.log.length) : Isolated home n₀ (ci + 1) (commitEntry u rs i).1 := by
  obtain ⟨hsame, hlog⟩ := same_commitEntry u rs i
  have hcid := hsame.clusterId
  obtain ⟨c, hc⟩ : ∃ c, (readLog u rs.log i).command = c := ⟨_, rfl⟩
  have hget : rs.log[i].command = c := by rw [← hc, readLog_of_lt hlen]
  -- what is open afterwards was open before, and at `i` it is a PREPARE
  have hback : ∀ j d, openAt (commitEntry u rs i).1.log (ci + 1) j = some d →
      openAt rs.log ci j = some d ∧ (j = i → isPrepare d = true) := by
    intro j d hd
    rw [openAt_congr hlog] at hd
    obtain ⟨hd, hor⟩ := openAt_succ hd
    exact ⟨hd, fun hji => hor.resolve_left (by omega)⟩
  have hopen : isTransfer c = true → openAt rs.log ci i = some c := fun htr =>
    openAt_eq_some.mpr ⟨rs.log[i], List.getElem?_eq_getElem hlen, hget, htr, Or.inl (by omega)⟩
  have hreads : isTransfer c = true → sscanf u.locals (formatOf (readLog u rs.log i).command)
      (readLog u rs.log i).command = terms (readLog u rs.log i).command :=
    fun htr => by rw [hc]; exact (h.written i c (hopen htr)).reads u.locals
  -- another open transfer shares no item of the shard with the committed one
  have happart : ∀ j d k, openAt rs.log ci j = some d → j ≠ i → isTransfer c = true →
      touches home rs.clusterId d k = true → touches home rs.clusterId c k = true → False :=
    fun j d k hd hne htr htd htc => hne (h.exclusive j i d c k hd (hopen htr) htd htc)
  constructor
  · intro j d hd
    rw [hcid]
    exact h.written j d (hback j d hd).1
  · intro j j' d d' k hd hd'
    rw [hcid]
    exact h.exclusive j j' d d' k (hback j d hd).1 (hback j' d' hd').1
  · intro j d k hn hj hd htouch
    rw [hcid] at htouch
    have hne : j ≠ i := by omega
    have hlocked := h.fenced j d k hn (by omega) (hback j d hd).1 htouch
    cases htr : isTransfer c with
    | false => rwa [locked_commitEntry_other (by rw [hc]; exact htr)]
    | true =>
      rw [locked_commitEntry (hreads htr) (by rw [hc]; exact htr), hc]
      have hk := touch_home htouch
      rw [if_neg, if_neg, hlocked]
      · rintro rfl
        exact happart j d _ (hback j d hd).1 hne htr htouch (touches_sender hk)
      · rintro rfl
        exact happart j d _ (hback j d hd).1 hne htr htouch (touches_receiver hk)
  · intro j d hd hhome
    rw [hcid] at hhome
    have hcov := h.covered j d (hback j d hd).1 hhome
    cases hcross : isCross c with
    | true => rwa [balance_commitEntry_cross (by rw [hc]; exact hcross)]
    | false =>
      have htr : isTransfer c = true := by simp [isTransfer, hcross]
      have hw := h.written i c (hopen htr)
      have hne : j ≠ i := by
        rintro rfl
        obtain rfl : c = d := Option.some.inj ((hopen htr).symm.trans (hback j d hd).1)
        rw [isCross_of_isPrepare ((hback j _ hd).2 rfl)] at hcross
        cases hcross
      have hdisjoint := happart j d _ (hback j d hd).1 hne htr (touches_sender hhome)
      rw [balance_commitEntry_intra (hreads htr) (by rw [hc]; exact hcross), hc]
      have hsender : (terms d).senderId ≠ (terms c).senderId := by
        intro heq
        rw [heq] at hdisjoint
        exact hdisjoint (touches_sender (hw.local' hcross).1)
      have hreceiver : (terms d).senderId ≠ (terms c).receiverId := by
        intro heq
        rw [heq] at hdisjoint
        exact hdisjoint (touches_receiver (hw.local' hcross).2)
      rw [Transfer.delta, if_neg hsender, if_neg hreceiver]
      omega
  · intro k
    cases hcross : isCross c with
    | true =>
      rw [balance_commitEntry_cross (by rw [hc]; exact hcross)]
      exact h.solvent k
    | false =>
      have htr : isTransfer c = true := by simp [isTransfer, hcross]
      have hw := h.written i c (hopen htr)
      have hcov := h.covered i c (hopen htr) (hw.local' hcross).1
      have hamount := hw.amount
      have hk := h.solvent k
      rw [balance_commitEntry_intra (hreads htr) (by rw [hc]; exact hcross), hc,
        Transfer.delta]
      split_ifs with hs
      · subst hs; omega
      · subst hs; omega
      · omega
      · omega

theorem indices_eq_nil {lo hi : ℤ} (h : hi < lo) : indices lo hi = [] := by
  rw [indices, show (hi + 1 - lo).toNat = 0 by omega]
  rfl

theorem indices_cons {lo hi : ℤ} (h : lo ≤ hi) : indices lo hi = lo :: indices (lo + 1) hi := by
  have hlen : (hi + 1 - lo).toNat = (hi + 1 - (lo + 1)).toNat + 1 := by omega
  rw [indices, hlen, List.range_succ_eq_map, List.map_cons, List.map_map, indices]
  congr 1
  · simp
  · apply List.map_congr_left
    intro k _
    simp only [Function.comp_apply]
    push_cast
    omega

/-- The whole loop, one position after the other. -/
theorem commitEntries_induction {P : ℤ → RaftState → Prop} {u : Undefined} {ci hi : ℤ}
    {rs : RaftState}
    (hstep : ∀ (ci : ℤ) (rs : RaftState) (i : ℕ), P ci rs → (i : ℤ) = ci + 1 →
      i < rs.log.length → P (ci + 1) (commitEntry u rs i).1)
    (h : P ci rs) (hci : -1 ≤ ci) (hle : ci ≤ hi) (hlen : hi < rs.log.length) :
    P hi (commitEntries u rs (indices (ci + 1) hi)).1 := by
  obtain ⟨n, hn⟩ := Int.eq_ofNat_of_zero_le (show 0 ≤ hi - ci by omega)
  induction n generalizing ci rs with
  | zero =>
    obtain rfl : hi = ci := by omega
    simpa [indices, commitEntries] using h
  | succ n ih =>
    push_cast at hn
    obtain ⟨i, hi'⟩ := Int.eq_ofNat_of_zero_le (show 0 ≤ ci + 1 by omega)
    have hsize : (commitEntry u rs i).1.log.length = rs.log.length := by
      simpa using congrArg List.length (same_commitEntry u rs i).2
    have hrest := ih (hstep ci rs i h hi'.symm (by omega)) (by omega) (by omega) (by omega)
      (by omega)
    rw [indices_cons (by omega), commitEntries, hi']
    rw [hi'] at hrest
    exact hrest

/-- The two servers store the same. -/
structure SameTables (a b : RaftState) : Prop where
  clusterId : b.clusterId = a.clusterId
  log : b.log.map LogEntry.entry = a.log.map LogEntry.entry
  locked : ∀ k, b.locked k = a.locked k
  balance : ∀ k, b.balance k = a.balance k

theorem Isolated.congr {home : ℤ → ℤ} {n₀ : ℕ} {ci : ℤ} {a b : RaftState}
    (h : Isolated home n₀ ci a) (hab : SameTables a b) : Isolated home n₀ ci b := by
  obtain ⟨hcid, hlog, hlock, hbal⟩ := hab
  have hopen := openAt_congr hlog ci
  constructor
  · intro i c hc
    rw [hcid]
    exact h.written i c (hopen i ▸ hc)
  · intro i j c d k hc hd
    rw [hcid]
    exact h.exclusive i j c d k (hopen i ▸ hc) (hopen j ▸ hd)
  · intro i c k hn hi hc htouch
    rw [hcid] at htouch
    rw [hlock]
    exact h.fenced i c k hn hi (hopen i ▸ hc) htouch
  · intro i c hc hhome
    rw [hcid] at hhome
    rw [hbal]
    exact h.covered i c (hopen i ▸ hc) hhome
  · intro k
    rw [hbal]
    exact h.solvent k

/-- `P ci rs` is about what a leader stores when it has committed up to `ci`; it is kept by
the requests it serves and by each position it commits. -/
structure Upheld (ok : ℤ → RaftState → ClientMsg → Prop) (P : ℤ → RaftState → Prop) : Prop where
  congr : ∀ {ci a b}, P ci a → SameTables a b → P ci b
  commit : ∀ {ci rs} (u : Undefined) {i : ℕ}, P ci rs → (i : ℤ) = ci + 1 → i < rs.log.length →
    P (ci + 1) (commitEntry u rs i).1
  serve : ∀ {rs} (u : Undefined) {fd m}, P rs.commitIndex rs →
    rs.commitIndex < rs.log.length → ok fd rs m → P rs.commitIndex (serve u fd rs m)

/-- The commit indices lie in the log, and the leader upholds `P`. -/
structure Upholds (P : ℤ → RaftState → Prop) (rs : RaftState) : Prop where
  low : -1 ≤ rs.commitIndex
  coming : rs.commitIndex ≤ rs.comingCommitIndex
  inLog : rs.comingCommitIndex < rs.log.length
  holds : P rs.commitIndex rs

theorem Untouched.sameTables {a b : RaftState} (h : Untouched a b) : SameTables a b where
  clusterId := h.clusterId
  log := by rw [h.log]
  locked k := by rw [RaftState.locked, h.locks, RaftState.locked]
  balance k := by rw [RaftState.balance, h.balances, RaftState.balance]

/-- A step of a leadership. -/
theorem Upholds.step {ok : ℤ → RaftState → ClientMsg → Prop} {P : ℤ → RaftState → Prop}
    (hP : Upheld ok P) {p : Idx} {s : Cluster} {e : Event} (h : Upholds P (s.raft p))
    (hlead : ((s.step e).raft p).role = .leader)
    (hok : ∀ fd m, e.action = .request p fd m → (s.servers p).pretendFail = false →
      ok fd (s.raft p) m) : Upholds P ((s.step e).raft p) := by
  have htouch := touch_step s e p
  generalize (s.step e).raft p = rs at htouch hlead
  cases htouch with
  | untouched hsame hmove hserve =>
    have hlen := h.inLog
    have hle := h.coming
    refine ⟨?_, ?_, ?_, ?_⟩
    · rw [hsame.commitIndex]
      exact h.low
    · rw [hsame.commitIndex]
      rcases hsame.coming with hcom | hcom <;> omega
    · rw [hsame.log]
      rcases hsame.coming with hcom | hcom <;> omega
    · rw [hsame.commitIndex]
      exact hP.congr h.holds hsame.sameTables
  | served fd m he hserve hmove =>
    have hsame := same_serve e.undef fd (s.raft p) m
    have hlen : (s.raft p).log.length ≤ (serve e.undef fd (s.raft p) m).log.length := by
      rw [serve_log, List.length_append]
      exact Nat.le_add_right _ _
    have hrun : (s.servers p).pretendFail = false := by
      by_contra hstop
      simp [serves, he, hstop] at hserve
    have hin := h.inLog
    have hle := h.coming
    refine ⟨?_, ?_, ?_, ?_⟩
    · rw [hsame.commitIndex]
      exact h.low
    · rw [hsame.commitIndex, hsame.comingCommitIndex]
      exact h.coming
    · rw [hsame.comingCommitIndex]
      omega
    · rw [hsame.commitIndex]
      exact hP.serve e.undef h.holds (by omega) (hok fd m he hrun)
  | accepted req hacc hserve hmove => cases hlead
  | decided fd rsp hdec hserve hmove =>
    have hans := answered_executeRsp e.undef fd (decides_le hdec).le
    have hci : (executeRsp e.undef fd (s.raft p) rsp).1.commitIndex =
        (s.raft p).comingCommitIndex := by rw [hans.commitIndex, if_pos hdec]
    have hlen : (executeRsp e.undef fd (s.raft p) rsp).1.log.length = (s.raft p).log.length := by
      simpa using congrArg List.length hans.entries
    refine ⟨?_, ?_, ?_, ?_⟩
    · rw [hci]
      exact h.low.trans h.coming
    · rw [hci, hans.comingCommitIndex]
    · rw [hans.comingCommitIndex, hlen]
      exact h.inLog
    · have hbefore : P (s.raft p).commitIndex
          { s.raft p with logGrantedNum := (s.raft p).logGrantedNum + 1 } :=
        hP.congr h.holds ⟨rfl, rfl, fun _ => rfl, fun _ => rfl⟩
      have hloop := commitEntries_induction (P := P) (u := e.undef)
        (fun _ _ _ h hi hlen => hP.commit e.undef h hi hlen) hbefore h.low h.coming h.inLog
      obtain ⟨hlog, hlock, hbal⟩ := executeRsp_decided fd hdec
      rw [hci]
      refine hP.congr hloop ⟨?_, by rw [hlog], fun k => ?_, fun k => ?_⟩
      · rw [hans.clusterId, (same_commitEntries e.undef _ _).1.clusterId]
      · rw [RaftState.locked, hlock, RaftState.locked]
      · rw [RaftState.balance, hbal, RaftState.balance]

/-! ### The leader serves -/

/-- PREPARE of the transaction is committed on the server and no ABORT of it was read. -/
def answeredYes (rs : RaftState) (req : CrossShardReq) : Bool :=
  !CrossShardExecutor.abortSeen rs req &&
    (rs.log.take (rs.commitIndex + 1).toNat).any fun e =>
      e.id = req.id && e.command = CrossShardExecutor.prepareCommand req

/-- What the callers promise: the cluster ids are those of the items, no amount is
negative, and COMMIT follows the answer YES. -/
def routed (home : ℤ → ℤ) (rs : RaftState) : ClientMsg → Bool
  | .intraShard req =>
    home req.senderId = req.clusterId && home req.receiverId = req.clusterId && 0 ≤ req.amount
  | .crossShard req =>
    home req.senderId = req.senderClusterId && home req.receiverId = req.receiverClusterId &&
      0 ≤ req.amount &&
      (req.phase ≠ .commit || CrossShardExecutor.commitSeen rs req || answeredYes rs req)
  | _ => true

/-- The open transfers without a lock: a PREPARE that was answered, and what a leader
found uncommitted in its log when it was elected. -/
def exposedAt (n₀ : ℕ) (log : List LogEntry) (ci : ℤ) (i : ℕ) : Option Text :=
  if (i : ℤ) ≤ ci ∨ i < n₀ then openAt log ci i else none

/-- A request that passes its tests touches no item of an exposed transfer. -/
def spares (home : ℤ → ℤ) (n₀ : ℕ) (fd : ℤ) (rs : RaftState) (m : ClientMsg) : Bool :=
  (created fd rs m).all fun x =>
    !isTransfer x.command || (List.range rs.log.length).all fun i =>
      (exposedAt n₀ rs.log rs.commitIndex i).all fun c => !shares home rs.clusterId c x.command

section Serve

variable {home : ℤ → ℤ} {n₀ : ℕ} {ci : ℤ}

/-- The locks do the rest: an admitted transfer shares no item with any open one. -/
theorem Isolated.apart {fd : ℤ} {rs : RaftState} {m : ClientMsg} {x : LogEntry}
    (h : Isolated home n₀ rs.commitIndex rs) (hx : created fd rs m = some x)
    (hrouted : routed home rs m = true) (hspares : spares home n₀ fd rs m = true)
    {i : ℕ} {c : Text} {k : ℤ} (hc : openAt rs.log rs.commitIndex i = some c)
    (htc : touches home rs.clusterId c k = true) (htr : isTransfer x.command = true) :
    touches home rs.clusterId x.command k = false := by
  rw [← Bool.not_eq_true]
  intro htx
  have hi : i < rs.log.length := by
    obtain ⟨e, he, -⟩ := openAt_eq_some.mp hc
    exact (List.getElem?_eq_some_iff.mp he).1
  by_cases hexp : (i : ℤ) ≤ rs.commitIndex ∨ i < n₀
  · simp only [spares, hx, Option.all_some, htr, Bool.not_true, Bool.false_or, List.all_eq_true,
      List.mem_range] at hspares
    have hfar := hspares i hi
    rw [exposedAt, if_pos hexp, hc, Option.all_some, shares_of_touches htc htx] at hfar
    cases hfar
  · rw [not_or, not_le, not_lt] at hexp
    have hlocked := h.fenced i c k hexp.2 hexp.1 hc htc
    have hhome := touch_home htx
    simp only [touches, Bool.and_eq_true, Bool.or_eq_true, decide_eq_true_eq] at htx
    cases admission_of_created hx with
    | intra req hcid hs hr hcov =>
      rw [terms_pays] at htx
      rcases htx.2 with rfl | rfl
      · exact Bool.false_ne_true (hs.symm.trans hlocked)
      · exact Bool.false_ne_true (hr.symm.trans hlocked)
    | prepare req hphase hs hr hnew =>
      rw [terms_prepare] at htx
      simp only [routed, Bool.and_eq_true, decide_eq_true_eq] at hrouted
      rcases htx.2 with rfl | rfl
      · have hsender := (hs (hrouted.1.1.1.symm.trans hhome)).1
        exact Bool.false_ne_true (hsender.symm.trans hlocked)
      · have hreceiver := hr (hrouted.1.1.2.symm.trans hhome)
        exact Bool.false_ne_true (hreceiver.symm.trans hlocked)
    | commit req hphase hcid hnew => rw [isTransfer_commit] at htr; cases htr
    | abort req hphase => rw [isTransfer_abort] at htr; cases htr

/-- Appending an entry that moves no money yet. -/
theorem Isolated.append {a b : RaftState} {x : LogEntry} (h : Isolated home n₀ ci a)
    (hcid : b.clusterId = a.clusterId) (hlog : b.log = a.log ++ [x])
    (hbal : ∀ k, b.balance k = a.balance k) (hmono : ∀ k, a.locked k = true → b.locked k = true)
    (hw : isTransfer x.command = true → Written home a.clusterId x.command)
    (hlock : isTransfer x.command = true →
      ∀ k, touches home a.clusterId x.command k = true → b.locked k = true)
    (hcov : isTransfer x.command = true → home (terms x.command).senderId = a.clusterId →
      (terms x.command).amount ≤ a.balance (terms x.command).senderId)
    (hapart : ∀ i c k, openAt a.log ci i = some c → touches home a.clusterId c k = true →
      isTransfer x.command = true → touches home a.clusterId x.command k = false) :
    Isolated home n₀ ci b := by
  constructor
  · intro i c hc
    rw [hlog] at hc
    rw [hcid]
    rcases openAt_append hc with hc | ⟨rfl, rfl, htr⟩
    · exact h.written i c hc
    · exact hw htr
  · intro i j c d k hc hd htc htd
    rw [hlog] at hc hd
    rw [hcid] at htc htd
    rcases openAt_append hc with hc | ⟨rfl, rfl, htr⟩
    · rcases openAt_append hd with hd | ⟨rfl, rfl, htr⟩
      · exact h.exclusive i j c d k hc hd htc htd
      · exact absurd htd (by rw [hapart i c k hc htc htr]; exact Bool.false_ne_true)
    · rcases openAt_append hd with hd | ⟨rfl, rfl, -⟩
      · exact absurd htc (by rw [hapart j d k hd htd htr]; exact Bool.false_ne_true)
      · rfl
  · intro i c k hn hi hc htc
    rw [hlog] at hc
    rw [hcid] at htc
    rcases openAt_append hc with hc | ⟨rfl, rfl, htr⟩
    · exact hmono k (h.fenced i c k hn hi hc htc)
    · exact hlock htr k htc
  · intro i c hc hhome
    rw [hlog] at hc
    rw [hcid] at hhome
    rw [hbal]
    rcases openAt_append hc with hc | ⟨rfl, rfl, htr⟩
    · exact h.covered i c hc hhome
    · exact hcov htr hhome
  · intro k
    rw [hbal]
    exact h.solvent k

/-- An answered PREPARE without a decision is open. -/
theorem open_of_answered {rs : RaftState} {req : CrossShardReq}
    (hyes : answeredYes rs req = true) (hnew : CrossShardExecutor.commitSeen rs req = false) :
    ∃ i : ℕ, (i : ℤ) ≤ rs.commitIndex ∧ (∃ e, rs.log[i]? = some e ∧ e.id = req.id) ∧
      openAt rs.log rs.commitIndex i = some (CrossShardExecutor.prepareCommand req) := by
  simp only [answeredYes, Bool.and_eq_true, Bool.not_eq_true', List.any_eq_true,
    decide_eq_true_eq] at hyes
  obtain ⟨habort, e, he, hid, hcmd⟩ := hyes
  obtain ⟨i, hi, hget⟩ := List.getElem_of_mem he
  rw [List.length_take, lt_min_iff] at hi
  rw [List.getElem_take] at hget
  have hsome : rs.log[i]? = some e := by rw [List.getElem?_eq_getElem hi.2, hget]
  have hundecided : decidedIn rs.log e.id = false := by
    simp only [CrossShardExecutor.abortSeen, CrossShardExecutor.commitSeen, List.any_eq_false,
      Bool.and_eq_true, decide_eq_true_eq, not_and, Bool.not_eq_true] at habort hnew
    simp only [decidedIn, List.any_eq_false, Bool.and_eq_true, Bool.or_eq_true, decide_eq_true_eq,
      not_and, not_or, Bool.not_eq_true]
    intro e' he' hid'
    rw [hid] at hid'
    exact ⟨hnew e' he' hid', habort e' he' hid'⟩
  refine ⟨i, by omega, ⟨e, hsome, hid⟩, ?_⟩
  exact openAt_eq_some.mpr ⟨e, hsome, hcmd, isTransfer_prepare req, Or.inr ⟨rfl, hundecided⟩⟩

/-- COMMIT spends what its PREPARE was promised, and nobody else's. -/
theorem Isolated.settle {a b : RaftState} {x : LogEntry} {req : CrossShardReq}
    (h : Isolated home n₀ a.commitIndex a) (hcid : b.clusterId = a.clusterId)
    (hlog : b.log = a.log ++ [x]) (hcmd : x.command = CrossShardExecutor.commitCommand req)
    (hid : x.id = req.id) (hlock : ∀ k, a.locked k = true → b.locked k = true)
    (hbal : ∀ k, b.balance k = a.balance k + req.delta a.clusterId k)
    (hsender : home req.senderId = req.senderClusterId) (hamount : 0 ≤ req.amount)
    (hyes : answeredYes a req = true) (hnew : CrossShardExecutor.commitSeen a req = false) :
    Isolated home n₀ a.commitIndex b := by
  obtain ⟨i, hi, ⟨e, he, hide⟩, hopen⟩ := open_of_answered hyes hnew
  have hstill : ∀ j d, openAt b.log a.commitIndex j = some d →
      openAt a.log a.commitIndex j = some d ∧ j ≠ i := by
    intro j d hd
    rw [hlog] at hd
    have hclosed := hd
    rcases openAt_append hd with hd | ⟨-, -, htr⟩
    · refine ⟨hd, ?_⟩
      rintro rfl
      obtain ⟨e', he', -, -, hor⟩ := openAt_eq_some.mp hclosed
      rw [List.getElem?_append_left (List.getElem?_eq_some_iff.mp he).1, he] at he'
      obtain rfl := Option.some.inj he'
      have hcommit := ((decidedIn_append (hor.resolve_left (by omega)).2).2
        (hid.trans hide.symm)).1
      rw [hcmd] at hcommit
      exact Bool.false_ne_true (hcommit.symm.trans (isCommit_commit _))
    · rw [hcmd, isTransfer_commit] at htr
      cases htr
  have hcov := h.covered i _ hopen
  rw [terms_prepare] at hcov
  constructor
  · intro j d hd
    rw [hcid]
    exact h.written j d (hstill j d hd).1
  · intro j j' d d' k hd hd'
    rw [hcid]
    exact h.exclusive j j' d d' k (hstill j d hd).1 (hstill j' d' hd').1
  · intro j d k hn hj hd htouch
    rw [hcid] at htouch
    exact hlock k (h.fenced j d k hn hj (hstill j d hd).1 htouch)
  · intro j d hd hhome
    rw [hcid] at hhome
    obtain ⟨hd, hne⟩ := hstill j d hd
    have hcovd := h.covered j d hd hhome
    have hother : ¬(req.senderClusterId = a.clusterId ∧ (terms d).senderId = req.senderId) := by
      rintro ⟨-, heq⟩
      refine hne (h.exclusive j i d _ (terms d).senderId hd hopen (touches_sender hhome) ?_)
      rw [heq] at hhome
      simp [touches, terms_prepare, hhome, heq]
    rw [hbal, CrossShardReq.delta, if_neg hother]
    split_ifs <;> omega
  · intro k
    have hk := h.solvent k
    rw [hbal, CrossShardReq.delta]
    by_cases hs : req.senderClusterId = a.clusterId ∧ k = req.senderId
    · obtain ⟨hscid, rfl⟩ := hs
      have hcov' := hcov (hsender.trans hscid)
      rw [if_pos ⟨hscid, rfl⟩]
      dsimp only at hcov'
      split_ifs <;> omega
    · rw [if_neg hs]
      split_ifs <;> omega

theorem Isolated.serve {rs : RaftState} (h : Isolated home n₀ rs.commitIndex rs) (u : Undefined)
    (fd : ℤ) {m : ClientMsg} (hrouted : routed home rs m = true)
    (hspares : spares home n₀ fd rs m = true) :
    Isolated home n₀ rs.commitIndex (serve u fd rs m) := by
  have hcid := (same_serve u fd rs m).clusterId
  have hlog := serve_log u fd rs m
  have hbal := balance_serve u fd rs m
  have hmono : ∀ k, rs.locked k = true → (Raft2PC.serve u fd rs m).locked k = true := by
    intro k hk
    rw [locked_serve, hk, Bool.true_or]
  cases hx : created fd rs m with
  | none =>
    rw [hx, Option.toList_none, List.append_nil] at hlog
    refine h.congr ⟨hcid, by rw [hlog], fun k => ?_, fun k => ?_⟩
    · rw [locked_serve, hx, Option.isSome_none, Bool.false_and, Bool.or_false]
    · rw [hbal, moves_eq_none hx, Option.map_none, Option.getD_none, add_zero]
  | some x =>
    rw [hx, Option.toList_some] at hlog
    have hlocks : ∀ k, locks rs k m = true → (Raft2PC.serve u fd rs m).locked k = true := by
      intro k hk
      rw [locked_serve, hx, hk, Option.isSome_some, Bool.and_self, Bool.or_true]
    have hapart := fun i c k => h.apart (i := i) (c := c) (k := k) hx hrouted hspares
    cases admission_of_created hx with
    | intra req hreq hs hr hcov =>
      simp only [routed, Bool.and_eq_true, decide_eq_true_eq] at hrouted
      obtain ⟨⟨hsender, hreceiver⟩, hamount⟩ := hrouted
      rw [hreq] at hsender hreceiver
      refine h.append hcid hlog (fun k => ?_) hmono (fun _ => ?_) (fun _ k hk => ?_) (fun _ _ => ?_)
        hapart
      · rw [hbal]
        exact add_zero _
      · exact written_pays hsender hreceiver hamount
      · simp only [touches, terms_pays, Bool.and_eq_true] at hk
        exact hlocks k hk.2
      · rw [terms_pays]
        exact hcov
    | prepare req hphase hs hr hnew =>
      simp only [routed, Bool.and_eq_true, decide_eq_true_eq] at hrouted
      obtain ⟨⟨⟨hsender, hreceiver⟩, hamount⟩, -⟩ := hrouted
      refine h.append hcid hlog (fun k => ?_) hmono (fun _ => ?_) (fun _ k hk => ?_)
        (fun _ hhome => ?_) hapart
      · rw [hbal]
        simp [moves, hphase]
      · exact written_prepare hamount
      · simp only [touches, terms_prepare, Bool.and_eq_true, Bool.or_eq_true,
          decide_eq_true_eq] at hk
        apply hlocks
        simp only [locks, hphase, decide_true, Bool.true_and, Bool.or_eq_true, Bool.and_eq_true,
          decide_eq_true_eq]
        obtain ⟨hhome, rfl | rfl⟩ := hk
        · exact Or.inl ⟨hsender.symm.trans hhome, rfl⟩
        · exact Or.inr ⟨hreceiver.symm.trans hhome, rfl⟩
      · rw [terms_prepare] at hhome ⊢
        exact (hs (hsender.symm.trans hhome)).2
    | commit req hphase hreq hnew =>
      simp only [routed, hphase, Bool.and_eq_true, Bool.or_eq_true, decide_eq_true_eq, ne_eq,
        not_true_eq_false, decide_false, Bool.false_eq_true, false_or, hnew] at hrouted
      obtain ⟨⟨⟨hsender, hreceiver⟩, hamount⟩, hyes⟩ := hrouted
      refine h.settle hcid hlog rfl rfl hmono (fun k => ?_) hsender hamount hyes hnew
      rw [hbal, moves, if_pos ⟨hreq, hphase, hnew⟩]
      rfl
    | abort req hphase =>
      have hno : isTransfer (CrossShardExecutor.abortCommand req) ≠ true := Bool.false_ne_true
      refine h.append hcid hlog (fun k => ?_) hmono (fun htr => absurd htr hno)
        (fun htr => absurd htr hno) (fun htr => absurd htr hno) hapart
      rw [hbal]
      simp [moves, hphase]

end Serve

end Raft2PC
