import Raft2PC.Escrow.Account
import Raft2PC.Proofs.Conservation
import Raft2PC.Proofs.LockLifetime
import Raft2PC.Proofs.SingleApplication

/-! No overdraft across leader changes. The balances of a server are what its committed log
is worth, and every log is solvent: a transfer is admitted on what its sender will have when
all before it is paid. The locks make sure of that for the transfers of the leader's own
term, and for no others. -/

namespace Raft2PC

open AIOServer AppendEntriesExecutor Consensus Escrow

/-- No transfer but an intra-shard one, and no negative amount. -/
def pays : ClientMsg → Bool
  | .intraShard req => 0 ≤ req.amount
  | .crossShard _ => false
  | _ => true

def paysOnly (e : Event) : Bool :=
  match e.action with
  | .request _ _ m => pays m
  | _ => true

/-- An entry of an earlier term that is not committed yet names item `k`. -/
def overdue (rs : RaftState) (k : ℤ) : Bool :=
  (rs.log.drop (rs.commitIndex + 1).toNat).any fun x =>
    x.term ≠ rs.currentTerm &&
      (k = (terms x.command).senderId || k = (terms x.command).receiverId)

/-- A transfer is admitted only on items that no such entry names. -/
def settledFirst (s : Cluster) (e : Event) : Bool :=
  match e.action with
  | .request p fd m =>
    (s.servers p).pretendFail || (created fd (s.raft p) m).all fun x =>
      !overdue (s.raft p) (terms x.command).senderId &&
        !overdue (s.raft p) (terms x.command).receiverId
  | _ => true

def thrifty (s : Cluster) (e : Event) : Bool :=
  paysOnly e && disciplined s e && commitsForward s e && settledFirst s e

/-- A command of an intra-shard transfer, readable and not negative. -/
structure Payment (c : Text) : Prop where
  intra : isCross c = false
  reads : ∀ u, sscanf u paysFormat c = terms c
  amount : 0 ≤ (terms c).amount

/-- What an entry does to the items when it is applied. -/
def posting (x : Entry) : ℤ → ℤ := (terms x.command).delta

def postings (L : List Entry) : List (ℤ → ℤ) := L.map posting

theorem Payment.isTransfer {c : Text} (h : Payment c) : isTransfer c = true :=
  isTransfer_of_not_isCross h.intra

theorem delta_eq_zero {t : Transfer} {k : ℤ} (h : ¬(k = t.senderId ∨ k = t.receiverId)) :
    t.delta k = 0 := by
  rw [not_or] at h
  rw [Transfer.delta, if_neg h.1, if_neg h.2, add_zero]

theorem worth_postings {b : ℤ → ℤ} {L : List Entry} (hL : ∀ x ∈ L, Payment x.command) (k : ℤ) :
    worth b (postings L) k = b k + netEffect L k := by
  have hpost : ∀ x ∈ L, posting x k = effect x k := by
    intro x hx
    rw [effect, (hL x hx).intra]
    rfl
  rw [worth, postings, List.map_map, netEffect, ← List.map_congr_left hpost]
  rfl

/-- The commands from `ci` to `hi` pay what the entries between are worth. -/
theorem worth_paid {b : ℤ → ℤ} {u : Undefined} {rs : RaftState} {ci hi : ℤ} (k : ℤ)
    (hspoken : Says Payment rs.log) (hlow : -1 ≤ ci) (hle : ci ≤ hi)
    (hlen : hi + 1 ≤ rs.log.length) :
    worth b (postings ((entries rs).take (hi + 1).toNat)) k =
      worth b (postings ((entries rs).take (ci + 1).toNat)) k +
        paid u rs.log k (indices (ci + 1) hi) := by
  have hpay : ∀ n, ∀ x ∈ (entries rs).take n, Payment x.command := by
    intro n x hx
    obtain ⟨y, hy, rfl⟩ := List.mem_map.mp (List.mem_of_mem_take hx)
    exact hspoken y hy
  have hread : ∀ i : ℕ, ∀ x, (i : ℤ) ≤ hi → rs.log[i]? = some x → ReadsBack x.command := by
    intro i x _ hx _ u
    have hx' := hspoken x (List.mem_of_getElem? hx)
    rw [formatOf, hx'.intra]
    exact hx'.reads u
  rw [worth_postings (hpay _), worth_postings (hpay _), netEffect_paid k hread hlow hle hlen,
    add_assoc]

/-! ### The locks of one term -/

def OfTerm (T : ℤ) (log : List LogEntry) (i : ℕ) : Prop := ∃ x, log[i]? = some x ∧ x.term = T

/-- The uncommitted entries of term `T` hold the locks of their items, and share none with
another uncommitted entry. -/
structure Fenced (T ci : ℤ) (rs : RaftState) : Prop where
  locked : ∀ i k, OfTerm T rs.log i → names rs.log ci i k → rs.locked k = true
  apart : ∀ i j k, OfTerm T rs.log i → names rs.log ci i k → names rs.log ci j k → i = j

theorem OfTerm.congr {T : ℤ} {a b : List LogEntry} {i : ℕ}
    (hab : a.map LogEntry.entry = b.map LogEntry.entry) (h : OfTerm T a i) : OfTerm T b i := by
  obtain ⟨x, hx, hterm⟩ := h
  have hget := congrArg (·[i]?) hab
  simp only [List.getElem?_map, hx, Option.map_some] at hget
  obtain ⟨y, hy, hxy⟩ := Option.map_eq_some_iff.mp hget.symm
  exact ⟨y, hy, (congrArg Entry.term hxy).trans hterm⟩

theorem Fenced.congr {T ci : ℤ} {a b : RaftState} (h : Fenced T ci a)
    (hlog : b.log.map LogEntry.entry = a.log.map LogEntry.entry)
    (hlock : ∀ k, b.locked k = a.locked k) : Fenced T ci b where
  locked i k hi hk := by
    rw [hlock]
    exact h.locked i k (hi.congr hlog) (names_congr hlog hk)
  apart i j k hi hk hj :=
    h.apart i j k (hi.congr hlog) (names_congr hlog hk) (names_congr hlog hj)

theorem names_later {log : List LogEntry} {ci ci' k : ℤ} {i : ℕ} (hci : ci ≤ ci')
    (h : names log ci' i k) : names log ci i k := by
  obtain ⟨x, hx, hi, hrest⟩ := h
  exact ⟨x, hx, by omega, hrest⟩

/-- The commit loop, one position: it unlocks items that no later entry of the term names. -/
theorem Fenced.commit {T ci : ℤ} {rs : RaftState} (h : Fenced T ci rs)
    (hspoken : Says Payment rs.log) (u : Undefined) {i : ℕ} (hi : (i : ℤ) = ci + 1)
    (hlen : i < rs.log.length) : Fenced T (ci + 1) (commitEntry u rs i).1 := by
  have hlog := (same_commitEntry u rs i).2
  have hread : readLog u rs.log i = rs.log[i] := readLog_of_lt hlen
  have hpay : Payment rs.log[i].command := hspoken _ (List.getElem_mem hlen)
  have hback : ∀ j k, names (commitEntry u rs i).1.log (ci + 1) j k → names rs.log ci j k :=
    fun j k hk => names_later (by omega) (names_congr hlog hk)
  refine ⟨fun j k hj hk => ?_, fun j j' k hj hk hk' =>
    h.apart j j' k (hj.congr hlog) (hback j k hk) (hback j' k hk')⟩
  have hother : ¬(k = (terms rs.log[i].command).senderId ∨
      k = (terms rs.log[i].command).receiverId) := by
    intro hends
    have hnow : names rs.log ci i k :=
      ⟨_, List.getElem?_eq_getElem hlen, by omega, hpay.isTransfer, hends⟩
    have hsame := h.apart j i k (hj.congr hlog) (hback j k hk) hnow
    obtain ⟨x, hx, hlater, -⟩ := hk
    omega
  rw [not_or] at hother
  have hreads : sscanf u.locals (formatOf rs.log[i].command) rs.log[i].command =
      terms rs.log[i].command := by
    rw [formatOf, hpay.intra]
    exact hpay.reads _
  rw [locked_commitEntry (by rw [hread]; exact hreads) (by rw [hread]; exact hpay.isTransfer),
    hread, if_neg hother.2, if_neg hother.1]
  exact h.locked j k (hj.congr hlog) (hback j k hk)

theorem Fenced.decided {T : ℤ} {rs : RaftState} (h : Fenced T rs.commitIndex rs)
    (hspoken : Says Payment rs.log) {u : Undefined} (fd : ℤ) {rsp : AppendEntriesRsp}
    (hdec : decides u rs rsp = true) (hlow : -1 ≤ rs.commitIndex)
    (hle : rs.commitIndex ≤ rs.comingCommitIndex) (hlen : rs.comingCommitIndex < rs.log.length) :
    Fenced T rs.comingCommitIndex (executeRsp u fd rs rsp).1 := by
  obtain ⟨hlog, hlock, -⟩ := executeRsp_decided fd hdec
  let P (ci : ℤ) (rs : RaftState) := Fenced T ci rs ∧ Says Payment rs.log
  have hbefore : P rs.commitIndex { rs with logGrantedNum := rs.logGrantedNum + 1 } :=
    ⟨h.congr rfl fun _ => rfl, hspoken⟩
  have hloop := commitEntries_induction (P := P) (u := u)
    (fun ci rs i hrs hi hlen => ⟨hrs.1.commit hrs.2 u hi hlen,
      says_congr (same_commitEntry u rs i).2 hrs.2⟩) hbefore hlow hle hlen
  refine hloop.1.congr (by rw [hlog]) fun k => ?_
  rw [RaftState.locked, hlock, RaftState.locked]

/-- An item without a lock, and without an entry of an earlier term, is named by no
uncommitted entry at all. -/
theorem Fenced.free {rs : RaftState} (h : Fenced rs.currentTerm rs.commitIndex rs) {k : ℤ}
    (hlow : -1 ≤ rs.commitIndex) (hlock : rs.locked k = false) (hover : overdue rs k = false) :
    ∀ i, ¬names rs.log rs.commitIndex i k := by
  intro i hk
  obtain ⟨x, hx, hi, htr, hends⟩ := hk
  by_cases hterm : x.term = rs.currentTerm
  · have hlocked := h.locked i k ⟨x, hx, hterm⟩ ⟨x, hx, hi, htr, hends⟩
    exact Bool.false_ne_true (hlock.symm.trans hlocked)
  · have hmem : x ∈ rs.log.drop (rs.commitIndex + 1).toNat := by
      refine List.mem_iff_getElem?.mpr ⟨i - (rs.commitIndex + 1).toNat, ?_⟩
      rw [List.getElem?_drop, Nat.add_sub_cancel' (by omega)]
      exact hx
    have hnot := List.any_eq_false.mp hover x hmem
    simp only [hterm, hends, decide_not, decide_false, Bool.not_false, Bool.true_and,
      Bool.or_eq_true, decide_eq_true_eq, not_true_eq_false] at hnot

theorem names_concat {log : List LogEntry} {x : LogEntry} {ci k : ℤ} {i : ℕ}
    (h : names (log ++ [x]) ci i k) :
    names log ci i k ∨
      i = log.length ∧ (k = (terms x.command).senderId ∨ k = (terms x.command).receiverId) := by
  obtain ⟨y, hy, hi, htr, hends⟩ := h
  by_cases hlt : i < log.length
  · rw [List.getElem?_append_left hlt] at hy
    exact Or.inl ⟨y, hy, hi, htr, hends⟩
  · have hlen := (List.getElem?_eq_some_iff.mp hy).1
    rw [List.length_append, List.length_singleton] at hlen
    obtain rfl : i = log.length := by omega
    obtain rfl : x = y := by simpa using hy
    exact Or.inr ⟨rfl, hends⟩

theorem Fenced.push {T ci : ℤ} {a b : RaftState} {x : LogEntry} (h : Fenced T ci a)
    (hlog : b.log = a.log ++ [x])
    (hfree : ∀ k, k = (terms x.command).senderId ∨ k = (terms x.command).receiverId →
      ∀ i, ¬names a.log ci i k)
    (hlock : ∀ k, a.locked k = true ∨ k = (terms x.command).senderId ∨
      k = (terms x.command).receiverId → b.locked k = true) : Fenced T ci b := by
  have hold : ∀ i k, OfTerm T b.log i → names a.log ci i k → OfTerm T a.log i := by
    rintro i k ⟨y, hy, hterm⟩ ⟨z, hz, -⟩
    rw [hlog, List.getElem?_append_left (List.getElem?_eq_some_iff.mp hz).1] at hy
    exact ⟨y, hy, hterm⟩
  refine ⟨fun i k hi hk => ?_, fun i j k hi hk hj => ?_⟩
  · rw [hlog] at hk
    rcases names_concat hk with hk | ⟨-, hends⟩
    · exact hlock k (Or.inl (h.locked i k (hold i k hi hk) hk))
    · exact hlock k (Or.inr hends)
  · rw [hlog] at hk hj
    rcases names_concat hk with hk | ⟨rfl, hends⟩ <;> rcases names_concat hj with hj | ⟨rfl, hends'⟩
    · exact h.apart i j k (hold i k hi hk) hk hj
    · exact absurd hk (hfree k hends' i)
    · exact absurd hj (hfree k hends j)
    · rfl

/-! ### The money of a log -/

/-- What is committed covers what is not, at an item that nothing uncommitted names. -/
theorem worth_free {b : ℤ → ℤ} {rs : RaftState} {k : ℤ} (hspoken : Says Payment rs.log)
    (hlow : -1 ≤ rs.commitIndex) (hfree : ∀ i, ¬names rs.log rs.commitIndex i k) :
    worth b (postings (entries rs)) k = worth b (postings (committedLog rs)) k := by
  have hsplit : postings (entries rs) = postings (committedLog rs) ++
      postings ((entries rs).drop (rs.commitIndex + 1).toNat) := by
    rw [postings, postings, postings, ← List.map_append, committedLog, List.take_append_drop]
  rw [hsplit]
  refine worth_append_idle fun d hd => ?_
  obtain ⟨e, he, rfl⟩ := List.mem_map.mp hd
  obtain ⟨j, hj⟩ := List.mem_iff_getElem?.mp he
  rw [List.getElem?_drop, entries_getElem?] at hj
  obtain ⟨x, hx, rfl⟩ := Option.map_eq_some_iff.mp hj
  have hpay : Payment x.command := hspoken x (List.mem_of_getElem? hx)
  exact delta_eq_zero fun hends => hfree _ ⟨x, hx, by omega, hpay.isTransfer, hends⟩

theorem covered_delta {t : Transfer} {w k : ℤ} (hamount : 0 ≤ t.amount) (hw : 0 ≤ w)
    (hcov : k = t.senderId → t.amount ≤ w) : 0 ≤ w + t.delta k := by
  unfold Transfer.delta
  split_ifs with hs hr
  · have := hcov hs
    omega
  · have := hcov hs
    omega
  · omega
  · omega

structure Covered (rs : RaftState) (m : ClientMsg) (x : LogEntry) : Prop where
  payment : Payment x.command
  sender : rs.locked (terms x.command).senderId = false
  receiver : rs.locked (terms x.command).receiverId = false
  amount : (terms x.command).amount ≤ rs.balance (terms x.command).senderId
  locks : ∀ k, locks rs k m = true ↔
    k = (terms x.command).senderId ∨ k = (terms x.command).receiverId

theorem covered_created {fd : ℤ} {rs : RaftState} {m : ClientMsg} {x : LogEntry}
    (hx : created fd rs m = some x) (hpays : pays m = true) : Covered rs m x := by
  cases admission_of_created hx with
  | intra req hcid hs hr hcov =>
    have hterms := terms_pays req.senderId req.receiverId req.amount
    refine ⟨⟨isCross_pays _ _ _, fun u => ?_, ?_⟩, ?_, ?_, ?_, fun k => ?_⟩
    · rw [hterms, sscanf_pays]
    · rw [hterms]
      exact of_decide_eq_true hpays
    · rw [hterms]
      exact hs
    · rw [hterms]
      exact hr
    · rw [hterms]
      exact hcov
    · rw [hterms]
      simp [Raft2PC.locks]
  | prepare | commit | abort => exact absurd hpays Bool.false_ne_true

/-! ### The invariant -/

/-- The balances are what the committed logs are worth, no log overdraws, and a leader
holds the locks of its term. -/
structure Funded (cid : ℕ) (b : ℤ → ℤ) (R : Idx → RaftState) (N : List Connection) (h : Hist) :
    Prop where
  committing : Committing cid R N h
  spoken : Spoken Payment R N
  balance : ∀ p k, (R p).balance k = worth b (postings (committedLog (R p))) k
  solvent : ∀ p, Solvent b (postings (entries (R p)))
  led : ∀ T, Solvent b (postings (h.leaderLog T))
  fenced : ∀ p, (R p).role = .leader → Fenced (R p).currentTerm (R p).commitIndex (R p)

variable {cid : ℕ} {b : ℤ → ℤ} {s : Cluster} {e : Event} {h h' : Hist} {R : Idx → RaftState}
  {N : List Connection}

theorem thrifty_spec (hok : thrifty s e = true) :
    paysOnly e = true ∧ disciplined s e = true ∧ commitsForward s e = true ∧
      settledFirst s e = true := by
  simp only [thrifty, Bool.and_eq_true] at hok
  exact ⟨hok.1.1.1, hok.1.1.2, hok.1.2, hok.2⟩

/-- While no commit index falls, the committed log of a server only grows. -/
theorem Committing.grows (hc : Committing cid s.raft s.net h) (hc' : Committing cid R N h')
    (hx : h.Extends h') {p : Idx} (hle : (s.raft p).commitIndex ≤ (R p).commitIndex) :
    committedLog (s.raft p) <+: committedLog (R p) := by
  have hlen : ∀ rs : RaftState, rs.commitIndex + 1 ≤ rs.log.length →
      (committedLog rs).length = (rs.commitIndex + 1).toNat := by
    intro rs hhigh
    rw [committedLog, List.length_take, entries_length]
    omega
  have hold := hlen _ (hc.server p).high
  have hnew := hlen _ (hc'.server p).high
  have hm := hc.logging.sound.matched
  rcases ((hc.server p).chosen.extends hm hx).comparable hc'.logging.sound.matched
    hc'.logging.sound.kept hc'.careful (hc'.server p).chosen with hpre | hpre
  · exact hpre
  · rw [hpre.eq_of_length_le (by omega)]

/-- The entry an admitted payment appends overdraws nothing. -/
theorem Funded.append (hf : Funded cid b s.raft s.net h) (hok : thrifty s e = true) {p : Idx}
    {fd : ℤ} {m : ClientMsg} {x : LogEntry} (he : e.action = .request p fd m)
    (hp : (s.servers p).pretendFail = false) (hx : created fd (s.raft p) m = some x) :
    Solvent b (postings (entries (s.raft p) ++ [x.entry])) ∧
      Fenced (s.raft p).currentTerm (s.raft p).commitIndex (serve e.undef fd (s.raft p) m) := by
  obtain ⟨hpays, hdis, -, hsettled⟩ := thrifty_spec hok
  obtain ⟨hrole, -⟩ := hf.committing.logging.creates hp he (disciplined_spec hdis).1 hx
  have hpays' : pays m = true := by simpa [paysOnly, he] using hpays
  have hcov := covered_created hx hpays'
  have hlow := (hf.committing.server p).low
  have hfence := hf.fenced p hrole
  have hover : overdue (s.raft p) (terms x.command).senderId = false ∧
      overdue (s.raft p) (terms x.command).receiverId = false := by
    simpa [settledFirst, he, hp, hx] using hsettled
  have hfree : ∀ k, k = (terms x.command).senderId ∨ k = (terms x.command).receiverId →
      ∀ i, ¬names (s.raft p).log (s.raft p).commitIndex i k := by
    rintro k (rfl | rfl)
    · exact hfence.free hlow hcov.sender hover.1
    · exact hfence.free hlow hcov.receiver hover.2
  constructor
  · rw [postings, List.map_append]
    refine (hf.solvent p).concat fun k => covered_delta hcov.payment.amount ?_ ?_
    · exact hf.solvent p _ (List.prefix_refl _) k
    · rintro rfl
      have hbal := worth_free (b := b) (hf.spoken.logs p) hlow (hfree _ (Or.inl rfl))
      rw [← hf.balance p] at hbal
      exact hcov.amount.trans_eq hbal.symm
  · refine hfence.push ?_ hfree fun k hk => ?_
    · rw [serve_log, hx, Option.toList_some]
    · rw [locked_serve, hx, Option.isSome_some, Bool.true_and, Bool.or_eq_true]
      exact hk.imp_right (hcov.locks k).mpr

theorem Funded.logs_step (hf : Funded cid b s.raft s.net h) (hok : thrifty s e = true)
    (hs : Recorded s h e R N h') :
    (∀ p, Solvent b (postings (entries (R p)))) ∧ ∀ T, Solvent b (postings (h'.leaderLog T)) := by
  have hset : ∀ p rs, Solvent b (postings (entries rs)) →
      ∀ q, Solvent b (postings (entries (s.set p rs q))) := fun p rs hp =>
    Cluster.forall_set (P := fun _ rs => Solvent b (postings (entries rs))) hp
      fun q _ => hf.solvent q
  have hl := hf.committing.logging
  cases hs with
  | drop | ungranted | stale => exact ⟨hf.solvent, hf.led⟩
  | idle p | campaign p | beat p | counted k p | outvoted k p | reminded k p | deposed k p =>
    exact ⟨hset p _ (hf.solvent p), hf.led⟩
  | granted k fd src dst | mismatched k src dst => exact ⟨hset dst _ (hf.solvent dst), hf.led⟩
  | elected k src dst =>
    refine ⟨hset src _ (hf.solvent src), fun T => ?_⟩
    simp only [History.elect, Function.update_apply]
    split_ifs
    · rw [(hl.logger src).log]
      exact hf.solvent src
    · exact hf.led T
  | request p fd m he hp =>
    have hlog := serve_log e.undef fd (s.raft p) m
    cases hx : created fd (s.raft p) m with
    | none =>
      refine ⟨hset p _ ?_, hf.led⟩
      rw [entries, hlog, hx, Option.toList_none, List.append_nil]
      exact hf.solvent p
    | some x =>
      have hnew := (hf.append hok he hp hx).1
      refine ⟨hset p _ ?_, fun T => ?_⟩
      · rw [entries, hlog, hx, Option.toList_some, List.map_append]
        exact hnew
      · simp only [Option.map_some, Option.getD_some, History.append, Function.update_apply]
        split_ifs
        · obtain ⟨hrole, -⟩ :=
            hl.creates hp he (disciplined_spec (thrifty_spec hok).2.1).1 hx
          rw [(hl.voting.voter p).term, hl.leading hrole]
          exact hnew
        · exact hf.led T
  | accepted k fd src dst req he hp hk hle hmis =>
    refine ⟨hset dst _ ?_, hf.led⟩
    have hled := hl.led hk
    have hroot := hl.sound.matched.log dst
    rw [(hl.logger dst).log] at hroot
    rw [hled.sent.merged hroot (hl.sound.matched.leaderLog _) hmis, install]
    split_ifs
    · exact hf.solvent dst
    · exact (hf.led _).of_isPrefix ((List.take_prefix _ _).map posting)
  | answered k fd src dst req rsp he hp hk hle =>
    refine ⟨hset src _ ?_, hf.led⟩
    rw [entries, (answered_executeRsp e.undef fd hle).entries]
    exact hf.solvent src

theorem Funded.fenced_step (hf : Funded cid b s.raft s.net h) (hok : thrifty s e = true)
    (hs : Recorded s h e R N h') (hforward : ∀ p, (s.raft p).commitIndex ≤ (R p).commitIndex) :
    ∀ p, (R p).role = .leader → Fenced (R p).currentTerm (R p).commitIndex (R p) := by
  have hset : ∀ p rs, (rs.role = .leader → Fenced rs.currentTerm rs.commitIndex rs) →
      ∀ q, (s.set p rs q).role = .leader →
        Fenced (s.set p rs q).currentTerm (s.set p rs q).commitIndex (s.set p rs q) := fun p rs hp =>
    Cluster.forall_set (P := fun _ rs => rs.role = .leader →
      Fenced rs.currentTerm rs.commitIndex rs) hp fun q _ => hf.fenced q
  have hl := hf.committing.logging
  cases hs with
  | drop | ungranted | stale => exact hf.fenced
  | idle p | beat p | counted k p | reminded k p =>
    exact hset p _ fun hrole => (hf.fenced p hrole).congr rfl fun _ => rfl
  | campaign p | outvoted k p | deposed k p =>
    exact hset p _ fun hrole => absurd hrole (by simp [broadcastVote, stepDown])
  | granted k fd src dst | mismatched k src dst | accepted k fd src dst =>
    exact hset dst _ fun hrole => absurd hrole (by simp [granted, follow, accepted])
  | elected k src dst req rsp hk hc hmaj =>
    -- what a candidate stands with is of earlier terms
    have hnone : ∀ i, ¬OfTerm (s.raft src).currentTerm (s.raft src).log i := by
      rintro i ⟨x, hx, hterm⟩
      have hvote := (hl.voting.voter src).stood (by rw [hc.1]; exact Role.noConfusion)
      have hmem : x.entry ∈ h.ballotLog src (s.raft src).currentTerm := by
        rw [(hl.logger src).stands hc.1]
        exact List.mem_map_of_mem (List.mem_of_getElem? hx)
      have hlt : x.term < (s.raft src).currentTerm :=
        hl.sound.matched.before src _ hvote x.entry hmem
      omega
    exact hset src _ fun _ =>
      ⟨fun i k hi _ => absurd hi (hnone i), fun i j k hi _ _ => absurd hi (hnone i)⟩
  | request p fd m he hp =>
    have hsame := same_serve e.undef fd (s.raft p) m
    refine hset p _ fun hrole => ?_
    rw [hsame.currentTerm, hsame.commitIndex]
    cases hx : created fd (s.raft p) m with
    | none =>
      refine (hf.fenced p (hsame.role.symm.trans hrole)).congr ?_ fun k => ?_
      · rw [serve_log, hx, Option.toList_none, List.append_nil]
      · rw [locked_serve, hx, Option.isSome_none, Bool.false_and, Bool.or_false]
    | some x => exact (hf.append hok he hp hx).2
  | answered k fd src dst req rsp he hp hk hle =>
    have hans := answered_executeRsp e.undef fd hle
    have hrise := hforward src
    rw [Cluster.set, Function.update_self, hans.commitIndex] at hrise
    refine hset src _ fun hrole => ?_
    rw [hans.currentTerm, hans.commitIndex]
    have hfence := hf.fenced src (hans.role.symm.trans hrole)
    cases hdec : decides e.undef (s.raft src) rsp with
    | true =>
      rw [hdec, if_pos rfl] at hrise
      have hcoming := (hl.logger src).coming (decides_spec hdec).1
      exact hfence.decided (hf.spoken.logs src) fd hdec (hf.committing.server src).low hrise
        (by omega)
    | false =>
      have hsame := @untouched_rsp _ fd _ _ hdec
      exact hfence.congr (by rw [hsame.log]) fun k => by
        rw [RaftState.locked, hsame.locks, RaftState.locked]

theorem carried_paysOnly (hpays : paysOnly e = true) (p : Idx) : carried s e p = none := by
  unfold carried serves
  cases he : e.action with
  | request q fd m =>
    rw [paysOnly, he] at hpays
    cases m with
    | crossShard req => exact absurd hpays Bool.false_ne_true
    | _ => dsimp only; split_ifs <;> rfl
  | _ => rfl

theorem balance_paid (hpays : paysOnly e = true) (p : Idx) (k : ℤ) :
    ((s.step e).raft p).balance k = (s.raft p).balance k +
      paid e.undef ((s.step e).raft p).log k
        (indices ((s.raft p).commitIndex + 1) ((s.step e).raft p).commitIndex) := by
  have hcarried : carried s e p = none := carried_paysOnly hpays p
  have happlied : ((applied s e p).map fun idx =>
      (transferAt e.undef ((s.step e).raft p).log idx).delta k).sum =
        paid e.undef ((s.step e).raft p).log k
          (indices ((s.raft p).commitIndex + 1) ((s.step e).raft p).commitIndex) := by
    rw [commitIndex_step, applied]
    cases commitMove s e p with
    | none =>
      rw [Option.getD_none, indices_eq_nil (by omega)]
      rfl
    | some n => rfl
  rw [balance_step, hcarried, happlied, Option.map_none, Option.getD_none, add_zero]

theorem Funded.step (hf : Funded cid b s.raft s.net h) (hok : thrifty s e = true)
    (hs : Recorded s h e (s.step e).raft (s.step e).net h') :
    Funded cid b (s.step e).raft (s.step e).net h' := by
  obtain ⟨hpays, hdis, hmoves, -⟩ := thrifty_spec hok
  have hforward := (commitsForward_iff s e).mp hmoves
  have hc := hf.committing.step hdis hs
  have hspoken : Spoken Payment (s.step e).raft (s.step e).net := by
    refine hf.spoken.step hs fun p fd m x he _ hx => ?_
    exact (covered_created hx (by simpa [paysOnly, he] using hpays)).payment
  have hlogs := hf.logs_step hok hs
  refine ⟨hc, hspoken, fun p k => ?_, hlogs.1, hlogs.2, hf.fenced_step hok hs hforward⟩
  have hlow := (hf.committing.server p).low
  have hpre := hf.committing.grows hc (hf.committing.logging.voting.extends hs) (hforward p)
  have hsame : (entries ((s.step e).raft p)).take ((s.raft p).commitIndex + 1).toNat =
      committedLog (s.raft p) := by
    have hhigh := (hf.committing.server p).high
    rw [take_eq_of_isPrefix (hpre.trans (List.take_prefix _ _)), committedLog, List.take_take,
      min_self]
    rw [committedLog, List.length_take, entries_length]
    omega
  have hpaid := worth_paid (b := b) (u := e.undef) k (hspoken.logs p) hlow (hforward p)
    (hc.server p).high
  rw [hsame] at hpaid
  rw [balance_paid hpays, hf.balance p k]
  exact hpaid.symm

theorem funded_init (cid : ℕ) (shard : Table ℤ) (hfunds : ∀ k, 0 ≤ shard.get k) :
    Funded cid shard.get (Cluster.init cid shard).raft (Cluster.init cid shard).net
      History.start where
  committing := committing_init cid shard
  spoken := spoken_init _ cid shard
  balance _ k := (worth_nil _ k).symm
  solvent _ := .nil hfunds
  led _ := .nil hfunds
  fenced _ hrole := absurd hrole Role.noConfusion

/-- Where no item owes anything, none has more than all together. -/
theorem get_le_total {tb : Table ℤ} (hfunds : ∀ k, 0 ≤ tb.get k) (k : ℤ) :
    tb.get k ≤ total tb := by
  have hincl : tb.keys ⊆ insert k tb.keys := Finset.subset_insert k tb.keys
  rw [total_eq hincl]
  exact Finset.single_le_sum (fun i _ => hfunds i) (Finset.mem_insert_self k tb.keys)

theorem total_paid {shard : Table ℤ}
    (hrun : Cluster.Path (thrifty · ·) (Cluster.init cid shard) s) (p : Idx) :
    total (s.raft p).localBalanceTb = total shard := by
  induction hrun with
  | refl => rfl
  | step e _ hok ih =>
    rw [total_step, carried_paysOnly (thrifty_spec hok).1]
    exact (add_zero _).trans ih

/-- Nobody owes anything, on any server, however often the leader changes; and nobody has more
than the shard, so that no `int` overflows. -/
theorem no_overdraft (cid : ℕ) (shard : Table ℤ) (hfunds : ∀ k, 0 ≤ shard.get k)
    (htotal : total shard < 2 ^ 31)
    (hrun : Cluster.Path (thrifty · ·) (Cluster.init cid shard) s) (p : Idx) (k : ℤ) :
    0 ≤ (s.raft p).balance k ∧ (s.raft p).balance k < 2 ^ 31 := by
  have hfunded : ∃ h, Funded cid shard.get s.raft s.net h := by
    induction hrun with
    | refl => exact ⟨_, funded_init cid shard hfunds⟩
    | step e _ hok ih =>
      obtain ⟨h, hf⟩ := ih
      obtain ⟨h', hrec⟩ := recorded_step _ h e
      exact ⟨h', hf.step hok hrec⟩
  obtain ⟨h, hf⟩ := hfunded
  have hnonneg : ∀ k, 0 ≤ (s.raft p).balance k := by
    intro k
    rw [hf.balance p k]
    exact hf.solvent p _ ((List.take_prefix _ _).map posting) k
  refine ⟨hnonneg k, ?_⟩
  calc (s.raft p).balance k ≤ total (s.raft p).localBalanceTb := get_le_total hnonneg k
    _ = total shard := total_paid hrun p
    _ < 2 ^ 31 := htotal

theorem funds_purse (k : ℤ) : 0 ≤ purse.get k := by
  rw [purse, Table.get_insert]
  split_ifs
  · decide
  · rw [Table.get, Finmap.lookup_empty]
    exact le_rfl

/-- Server 1 admits a payment of 5 and replicates it to server 2, which wins the next term. -/
def inherit : List Event := holdFirst ++ calmly [.timeout 1, .deliver 4 9, .timeout 2, .timeout 2,
  .deliver 6 9, .deliver 6 9]

/-- Server 2 admits a payment of `amount` from the same item and commits both. -/
def payTwice (amount : ℤ) : List Event := calmly [.request 2 7 (pay 2 100 300 amount), .timeout 2,
  .deliver 7 9, .deliver 8 9, .deliver 8 9, .deliver 8 9]

/-- The new leader pays from other items only. -/
def payApart : List Event := calmly [.request 2 7 (pay 2 300 400 0), .timeout 2, .deliver 7 9,
  .deliver 8 9, .deliver 8 9, .deliver 8 9, .request 2 7 (pay 3 100 300 5)]

def inherited : Cluster := (Cluster.init 0 purse).run inherit

theorem no_overdraft_inherited :
    ((inherited.run payApart).raft 2).balance 100 = 5 ∧
      0 ≤ ((inherited.run payApart).raft 2).balance 100 := by
  have hfirst : Cluster.Path (thrifty · ·) (Cluster.init 0 purse) inherited :=
    Cluster.Follows.path (by decide +kernel)
  exact ⟨by decide +kernel, (no_overdraft 0 purse funds_purse (by decide)
    (hfirst.trans (Cluster.Follows.path (by decide +kernel))) 2 100).1⟩

/-- All but the last test, and in between a leader that has its predecessor's entry. -/
theorem overdrawn :
    let ok := fun s e => paysOnly e && disciplined s e && commitsForward s e
    (∀ k, 0 ≤ purse.get k) ∧ total purse < 2 ^ 31 ∧
      Cluster.Path (ok · ·) (Cluster.init 0 purse) inherited ∧
      (inherited.raft 2).role = .leader ∧ (inherited.raft 2).log.length = 1 ∧
      entries (inherited.raft 2) = entries (inherited.raft 1) ∧
      Cluster.Path (ok · ·) inherited (inherited.run (payTwice 10)) ∧
      ((inherited.run (payTwice 10)).raft 2).balance 100 = -5 :=
  ⟨funds_purse, by decide, Cluster.Follows.path (by decide +kernel), by decide +kernel,
    by decide +kernel, by decide +kernel, Cluster.Follows.path (by decide +kernel), by decide +kernel⟩

end Raft2PC
