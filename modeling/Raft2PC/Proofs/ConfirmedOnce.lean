import Raft2PC.Proofs.DuplicateIds
import Raft2PC.Proofs.OneJournal
import Raft2PC.Sanity.Confirmations

/-! SUCCESS and YES are given once. Whatever leaders come and go, and however often a request is
forwarded, the servers of a cluster together confirm it at most once, and what they confirm is
in their journal. -/

namespace Raft2PC

open AIOServer Consensus Consensus.History

variable {cid : ℕ} {s : Cluster} {h h' : Hist} {e : Event} {es : List Event} {p : Idx}
  {R : Idx → RaftState} {N : List Connection} {cashed : List (Voucher Entry)}

/-! ### No log names a request twice -/

theorem Unrepeated.of_isPrefix {L M : List Entry} (hL : L <+: M) (hM : Unrepeated M) :
    Unrepeated L where
  once kind id := hL.sublist.countP_le.trans (hM.once kind id)
  order := hM.order.sublist hL.sublist

theorem unrepeated_nil : Unrepeated [] := ⟨fun _ _ => Nat.zero_le 1, List.Pairwise.nil⟩

theorem everywhere_start : (History.start : Hist).Everywhere Unrepeated :=
  ⟨fun _ => unrepeated_nil, fun _ => unrepeated_nil⟩

/-- Only leaders append, and each looks for the id in its whole log. -/
theorem Logging.unrepeated_step (hl : Logging cid s.raft s.net h) (hok : leaderAppends s e = true)
    (hP : h.Everywhere Unrepeated) (hs : Recorded s h e R N h') : h'.Everywhere Unrepeated := by
  cases hs with
  | request q fd m he hp =>
    cases hx : created fd (s.raft q) m with
    | none => exact hP
    | some x =>
      obtain ⟨-, hlead, -, -⟩ := hl.creates hp he hok hx
      obtain ⟨hnew, habort⟩ := created_new hx
      have hlog : h.log q = entries (s.raft q) := (hl.logger q).log
      refine hP.append (hl.sound.matched.leading _ q hlead rfl) ?_
      have hlast := (hP.log q).concat (e := x.entry)
      rw [hlog] at hlast ⊢
      exact hlast hnew habort
  | elected k src dst req rsp hk hcount hmaj => exact hP.elect src _
  | accepted k fd src dst req he hp hk hle hmis =>
    exact hP.accept (fun _ _ => Unrepeated.of_isPrefix) _ _ _
  | _ => exact ⟨hP.log, hP.leaderLog⟩

theorem index_unique {α : Type} {f : α → Bool} {L : List α} (hone : L.countP f ≤ 1) {i j : ℕ}
    {a b : α} (ha : L[i]? = some a) (hb : L[j]? = some b) (hfa : f a = true) (hfb : f b = true) :
    i = j := by
  induction L generalizing i j with
  | nil => cases ha
  | cons x L ih =>
    rw [List.countP_cons] at hone
    have hlater : ∀ {k : ℕ} {c : α}, L[k]? = some c → f c = true → 0 < L.countP f := fun hc hfc =>
      List.countP_pos_iff.mpr ⟨_, List.mem_of_getElem? hc, hfc⟩
    cases i with
    | zero =>
      obtain rfl := Option.some.inj ha
      cases j with
      | zero => rfl
      | succ j =>
        have hpos := hlater hb hfb
        rw [if_pos hfa] at hone
        omega
    | succ i =>
      cases j with
      | zero =>
        obtain rfl := Option.some.inj hb
        have hpos := hlater ha hfa
        rw [if_pos hfb] at hone
        omega
      | succ j => rw [ih (by omega) ha hb]

theorem confirmation_eq {a b : Entry} {msg : WrapperMessage} (ha : a.confirmation = some msg)
    (hb : b.confirmation = some msg) : ∃ kind : CommandKind, a.id = b.id ∧
      kind.ofKind a.command = true ∧ kind.ofKind b.command = true := by
  unfold Entry.confirmation at ha hb
  split_ifs at ha hb with hcross hprepare hcross' hprepare' hcross'
  · refine ⟨.prepare, ?_, hprepare, hprepare'⟩
    injection ha.trans hb.symm with hmsg
    injection hmsg with hrsp
    exact congrArg CrossShardRsp.id hrsp
  · injection ha.trans hb.symm with hmsg
    cases hmsg
  · injection ha.trans hb.symm with hmsg
    cases hmsg
  · refine ⟨.intra, ?_, by simp [CommandKind.ofKind, hcross], by simp [CommandKind.ofKind, hcross']⟩
    injection ha.trans hb.symm with hmsg
    injection hmsg with hrsp
    exact congrArg IntraShardRsp.id hrsp

theorem Unrepeated.confirmed_index {L : List Entry} (hL : Unrepeated L) {i j : ℕ} {a b : Entry}
    {msg : WrapperMessage} (ha : L[i]? = some a) (hb : L[j]? = some b)
    (hconf : a.confirmation = some msg) (hconf' : b.confirmation = some msg) : i = j := by
  obtain ⟨kind, hid, hkind, hkind'⟩ := confirmation_eq hconf hconf'
  exact index_unique (hL.once kind a.id) ha hb (by simp [hkind]) (by simp [hid, hkind'])

/-! ### The invariant -/

/-- The history of a run, with the vouchers redeemed so far. -/
structure Confirming (cid : ℕ) (R : Idx → RaftState) (N : List Connection) (h : Hist)
    (cashed : List (Voucher Entry)) : Prop where
  committing : Committing cid R N h
  unrepeated : h.Everywhere Unrepeated
  vouched : Vouched Entry.term h (fun p => vouchers (R p).log) cashed

theorem confirming_init (cid : ℕ) (shard : Table ℤ) :
    Confirming cid (Cluster.init cid shard).raft (Cluster.init cid shard).net History.start [] where
  committing := committing_init cid shard
  unrepeated := everywhere_start
  vouched := by
    refine Vouched.start.fewer (committing_init cid shard).logging.sound.matched (.refl _) ?_
    rintro p t ⟨x, hx, -⟩
    cases hx

/-- The entry of a request that is admitted waits for its confirmation. -/
theorem Confirming.admits (hc : Confirming cid s.raft s.net h cashed) (hok : disciplined s e = true)
    (hc' : Committing cid (s.step e).raft (s.step e).net h') (hx : h.Extends h') {q : Idx} {fd : ℤ}
    {m : ClientMsg} {x : LogEntry} (he : e.action = .request q fd m)
    (hp : (s.servers q).pretendFail = false) (hcreated : created fd (s.raft q) m = some x) :
    Vouched Entry.term h' (fun p => vouchers ((s.step e).raft p).log) cashed := by
  have hl := hc.committing.logging
  have hlogs := logs_admitted he hp hcreated
  obtain ⟨hrole, hlead, hterm, -⟩ := hl.creates hp he (disciplined_spec hok).1 hcreated
  have hlog : h.leaderLog x.entry.term = entries (s.raft q) := by
    rw [hterm, (hl.voting.voter q).term]
    exact hl.leading hrole
  rw [← hterm] at hlead
  have hstands : (h'.leaderLog x.entry.term)[(entries (s.raft q)).length]? = some x.entry := by
    have hraft := congrFun (raft_served he hp) q
    have hsame := same_serve e.undef fd (s.raft q) m
    have hlater := hc'.logging.leading (p := q) (by rw [hraft, Cluster.set, Function.update_self,
      hsame.role, hrole])
    rw [hraft, Cluster.set, Function.update_self, hsame.currentTerm, ← (hl.voting.voter q).term,
      ← hterm] at hlater
    rw [hlater, entries, serve_log, hcreated, Option.toList_some, List.map_append]
    exact List.getElem?_concat_length
  refine hc.vouched.issue hl.sound.matched hx (hx.ballots.leader _ q hlead) ?_ fun p t ht => ?_
  · rw [hlog]
    exact hstands
  · rw [hlogs] at ht
    split_ifs at ht with hpq
    · subst hpq
      rcases vouchers_concat ht with ht | rfl
      · exact Or.inl ht
      · refine Or.inr ⟨rfl, ?_⟩
        rw [hlog, entries_length]
    · exact Or.inl ht

def redeemedIn (s : Cluster) (e : Event) : List (Voucher Entry) :=
  (List.finRange SERVER_NUM_PER_CLUSTER).flatMap fun p =>
    (looped s e p).filterMap (redeemed (s.raft p).log)

theorem mem_redeemedIn {t : Voucher Entry} :
    t ∈ redeemedIn s e ↔ ∃ p, ∃ i ∈ looped s e p, redeemed (s.raft p).log i = some t := by
  simp [redeemedIn, List.mem_flatMap]

theorem Confirming.nodup_redeemedIn (hc : Confirming cid s.raft s.net h cashed) :
    (redeemedIn s e).Nodup := by
  rw [redeemedIn, List.nodup_flatMap]
  refine ⟨fun p _ => ?_, ?_⟩
  · rw [List.Nodup, List.pairwise_filterMap]
    refine (nodup_looped s e p).imp_of_mem fun {i j} hi hj hne t ht t' ht' => ?_
    rintro rfl
    have hlow := (hc.committing.server p).low
    have hi' := (mem_looped hi).1
    have hj' := (mem_looped hj).1
    have := (redeemed_eq_some ht).2.symm.trans (redeemed_eq_some ht').2
    omega
  · refine (List.nodup_finRange _).imp fun {p q} hpq t ht ht' => hpq ?_
    obtain ⟨i, -, ht⟩ := List.mem_filterMap.mp ht
    obtain ⟨j, -, ht'⟩ := List.mem_filterMap.mp ht'
    exact hc.vouched.holder (redeemed_eq_some ht).1 (redeemed_eq_some ht').1

/-- The commit loops of a step redeem vouchers for entries that are committed then. -/
theorem Confirming.redeems (hc : Confirming cid s.raft s.net h cashed)
    (hc' : Committing cid (s.step e).raft (s.step e).net h') (hx : h.Extends h')
    (hred : ∀ p, Redeems (s.raft p).log ((s.step e).raft p).log (s.emits e p) (looped s e p)) :
    Vouched Entry.term h' (fun p => vouchers ((s.step e).raft p).log) (cashed ++ redeemedIn s e) ∧
      s.confirms e = (redeemedIn s e).filterMap (fun t => t.2.confirmation) ∧
        ∀ t ∈ redeemedIn s e, ∃ p, (committedLog ((s.step e).raft p))[t.1]? = some t.2 := by
  have hm := hc.committing.logging.sound.matched
  have hcommitted : ∀ t ∈ redeemedIn s e, ∃ p,
      (committedLog ((s.step e).raft p))[t.1]? = some t.2 := by
    intro t ht
    obtain ⟨p, i, hi, ht⟩ := mem_redeemedIn.mp ht
    obtain ⟨⟨x, hx, hentry, -⟩, hpos⟩ := redeemed_eq_some ht
    obtain ⟨hlo, -, hhi⟩ := mem_looped hi
    have hlow := (hc.committing.server p).low
    obtain ⟨y, hy, hget⟩ := (hc'.server p).get (i := t.1) (by omega)
    refine ⟨p, ?_⟩
    have hsays := congrArg (·[t.1]?) ((hred p).stays (List.ne_nil_of_mem hi))
    simp only [List.getElem?_map, hy, hx, Option.map_some] at hsays
    rw [hget, hsays, hentry]
  refine ⟨?_, ?_, hcommitted⟩
  · refine (hc.vouched.fewer hm hx fun _ => subset_rfl).cash hc.nodup_redeemedIn ?_ ?_ ?_
    · intro t ht
      obtain ⟨p, i, -, ht⟩ := mem_redeemedIn.mp ht
      exact ⟨p, (redeemed_eq_some ht).1⟩
    · intro t ht
      obtain ⟨p, hget⟩ := hcommitted t ht
      exact ⟨_, _, (hc'.server p).chosen, hget⟩
    · intro p t ht
      obtain ⟨hold, hno⟩ := (hred p).kept t ht
      refine ⟨hold, fun hmem => hno ?_⟩
      obtain ⟨q, i, hi, hq⟩ := mem_redeemedIn.mp hmem
      obtain rfl := hc.vouched.holder hold (redeemed_eq_some hq).1
      exact List.mem_filterMap.mpr ⟨i, hi, hq⟩
  · rw [Cluster.confirms, redeemedIn, List.filterMap_flatMap]
    exact List.flatMap_congr fun p _ => (hred p).confirmed

theorem Confirming.step (hc : Confirming cid s.raft s.net h cashed)
    (hcount : ∀ p, Counters (s.raft p)) (hok : disciplined s e = true) :
    ∃ h' new, Confirming cid (s.step e).raft (s.step e).net h' (cashed ++ new) ∧
      s.confirms e = new.filterMap (fun t => t.2.confirmation) ∧
        ∀ t ∈ new, ∃ p, (committedLog ((s.step e).raft p))[t.1]? = some t.2 := by
  obtain ⟨h', hc', hx, hrec⟩ := hc.committing.next hok
  have hplain := hc.committing.logging.unrepeated_step (disciplined_spec hok).1 hc.unrepeated hrec
  by_cases hadm : ∃ q fd m x, e.action = .request q fd m ∧ (s.servers q).pretendFail = false ∧
      created fd (s.raft q) m = some x
  · obtain ⟨q, fd, m, x, he, hp, hcreated⟩ := hadm
    refine ⟨h', [], ⟨hc', hplain, ?_⟩, confirms_request he, by simp⟩
    rw [List.append_nil]
    exact hc.admits hok hc' hx he hp hcreated
  · have hred : ∀ p, Redeems (s.raft p).log ((s.step e).raft p).log (s.emits e p)
        (looped s e p) := fun p => redeems_step (hcount p) fun fd m he hp => by
      by_contra hne
      obtain ⟨x, hcreated⟩ := Option.ne_none_iff_exists'.mp hne
      exact hadm ⟨p, fd, m, x, he, hp, hcreated⟩
    obtain ⟨hV, hconf, hcommitted⟩ := hc.redeems hc' hx hred
    exact ⟨h', _, ⟨hc', hplain, hV⟩, hconf, hcommitted⟩

/-! ### Runs -/

/-- SUCCESS and YES in a run: each is written once, for an entry of the journal. -/
structure ConfirmedOnce (s : Cluster) (es : List Event) : Prop where
  nodup : (confirmed s es).Nodup
  journaled : ∀ msg ∈ confirmed s es, ∃ x ∈ (s.asJournal es).entries, x.confirmation = some msg

theorem Confirming.run {g : Hist} (hc : Confirming cid s.raft s.net h cashed)
    (hl : Leading cid s.raft s.net g) (hok : Cluster.Follows (disciplined · ·) s es) :
    ∃ h' new, Confirming cid (s.run es).raft (s.run es).net h' (cashed ++ new) ∧
      confirmed s es = new.filterMap (fun t => t.2.confirmation) ∧
        ∀ t ∈ new, ∃ past p, past <+: es ∧
          (committedLog ((s.run past).raft p))[t.1]? = some t.2 := by
  induction es generalizing s h g cashed with
  | nil => exact ⟨h, [], by rw [List.append_nil]; exact hc, rfl, by simp⟩
  | cons e es ih =>
    obtain ⟨g', hl', -⟩ := hl.next e
    obtain ⟨h', new, hc', hconf, hnew⟩ := hc.step hl.counters hok.1
    obtain ⟨h'', more, hc'', hconf', hmore⟩ := ih hc' hl' hok.2
    refine ⟨h'', new ++ more, by rw [← List.append_assoc]; exact hc'', ?_, fun t ht => ?_⟩
    · rw [confirmed, hconf, hconf', List.filterMap_append]
    · rcases List.mem_append.mp ht with ht | ht
      · obtain ⟨p, hget⟩ := hnew t ht
        exact ⟨[e], p, ⟨es, rfl⟩, hget⟩
      · obtain ⟨past, p, hpast, hget⟩ := hmore t ht
        exact ⟨e :: past, p, List.cons_prefix_cons.mpr ⟨rfl, hpast⟩, hget⟩

section
variable {shard : Table ℤ}

theorem nodup_confirmed (hok : Cluster.Follows (disciplined · ·) (Cluster.init cid shard) es) :
    (confirmed (Cluster.init cid shard) es).Nodup := by
  obtain ⟨h, new, hc, hconf, -⟩ := (confirming_init cid shard).run (leading_init cid shard) hok
  rw [List.nil_append] at hc
  have hm := hc.committing.logging.sound
  rw [hconf]
  refine hc.vouched.once hm.matched hm.kept hc.committing.careful Entry.confirmation ?_
  intro T L hL i j a b msg ha hb hmsg hmsg'
  have hplain := hL.inherits hc.unrepeated (fun _ _ => Unrepeated.of_isPrefix) unrepeated_nil
  exact hplain.confirmed_index ha hb hmsg hmsg'

theorem confirmed_journaled (hok : Cluster.Follows (disciplined · ·) (Cluster.init cid shard) es)
    {msg : WrapperMessage} (hmsg : msg ∈ confirmed (Cluster.init cid shard) es) :
    ∃ x ∈ ((Cluster.init cid shard).asJournal es).entries, x.confirmation = some msg := by
  obtain ⟨h, new, -, hconf, hnew⟩ := (confirming_init cid shard).run (leading_init cid shard) hok
  rw [hconf] at hmsg
  obtain ⟨t, ht, hmsg⟩ := List.mem_filterMap.mp hmsg
  obtain ⟨past, p, ⟨more, rfl⟩, hget⟩ := hnew t ht
  have hgrows := (asJournal_step hok (List.prefix_refl (past ++ more))).grows
  rw [← asJournal_view hok (List.prefix_append past more) p] at hget
  have hin := getElem?_of_isPrefix ((Journal.view_isPrefix _ p).trans hgrows) hget
  exact ⟨t.2, List.mem_of_getElem? hin, hmsg⟩

end

/-- However often requests are forwarded, and whatever leaders come and go: SUCCESS and YES of
the same id are written once, by all servers of the cluster together, and answer an entry of
the journal. -/
theorem confirmed_once (cid : ℕ) (shard : Table ℤ) (es : List Event)
    (hok : Cluster.Follows (disciplined · ·) (Cluster.init cid shard) es) :
    ConfirmedOnce (Cluster.init cid shard) es :=
  ⟨nodup_confirmed hok, fun _ hmsg => confirmed_journaled hok hmsg⟩

/-- The successor of leader 1 is asked for the transfer again, and for a new PREPARE. -/
def askSuccessor : List Event := commitFirst ++ succeed ++ calmly
  [.request 0 8 (pay 1 100 200 5), .request 0 9 (cross .prepare 2 100 1500 3), .timeout 0,
    .deliver 4 9, .deliver 7 9, .deliver 5 9, .deliver 6 9]

theorem confirmed_once_successor :
    confirmed (Cluster.init 0 purse) askSuccessor =
        [.intraShardRsp { result := .success, id := 1 }, .crossShardRsp { result := .yes, id := 2 }] ∧
      ConfirmedOnce (Cluster.init 0 purse) askSuccessor :=
  ⟨by decide, confirmed_once 0 purse askSuccessor (by decide)⟩

end Raft2PC
