import Raft2PC.Proofs.Composition
import Raft2PC.Proofs.ConfirmedOnce
import Raft2PC.Proofs.OneTransaction

/-! Transfers across shards are atomic as far as COMMIT goes: it is broadcast at most once, and a
server has it in its log only when the journals of both clusters have the PREPARE. The votes
are counted once each, since no line is read twice and no cluster confirms an entry twice. -/

namespace Raft2PC

open Routing Deployment

/-! ### Answers that the service counts -/

def NoYes (t : Traffic) : Prop := ∀ req c, t ≠ .answer req c .yes

theorem noYes_forwards (t : Traffic) (ht : t.forwards = true) : NoYes t := by
  rintro req c rfl
  cases ht

theorem noYes_answered (a : Routing) (now : ℤ) (req : CrossShardReq) (c : ℕ) (k : Caller)
    {o : Outcome} (ho : o ≠ .answer .yes) : Adds NoYes a (a.answered now req c k o) := by
  have habort : ∀ b : Routing, Adds NoYes b (b.record (.abort req)) := fun b =>
    .record b fun _ _ h => by cases h
  have hreturn : ∀ b : Routing, Adds NoYes b (b.return_ now k) := fun b =>
    .returned noYes_forwards b now k
  cases o with
  | timeout =>
    simp only [Routing.answered]
    split_ifs
    · exact habort a
    · exact .of_eq rfl
  | returns | raises => exact .of_eq rfl
  | answer r =>
    have hans : r ≠ .yes → Adds NoYes a (a.record (.answer req c r)) := fun hr =>
      .record a fun _ _ h => hr (Traffic.answer.inj h).2.2
    cases r with
    | yes => exact absurd rfl ho
    | ack => exact (hans (by simp)).trans (hreturn _)
    | no =>
      simp only [Routing.answered]
      split_ifs
      · exact (hans (by simp)).trans (habort _)
      · exact (hans (by simp)).trans (hreturn _)

/-- The service takes one YES at a time, from the coroutine that waits for it. -/
theorem noYes_step (s : Routing) (e : RoutingEvent) : Adds NoYes s (s.step e) ∨
    ∃ n req c k, e.action = .resume n (.answer .yes) ∧ s.tasks[n]? = some (.prepare req c k) ∧
      Adds NoYes (s.record (.answer req c .yes)) (s.step e) := by
  obtain ⟨action, now⟩ := e
  cases action with
  | handle m => exact Or.inl (.handle noYes_forwards s now m)
  | job o =>
    exact Or.inl (.stepJob (fun _ _ _ h => by cases h) (fun _ _ _ h => by cases h) s now o)
  | resume n o =>
    simp only [Routing.step]
    cases ht : s.tasks[n]? with
    | none => exact Or.inl (.of_eq rfl)
    | some t =>
      have hwake : Adds NoYes s (s.wake n) := .of_eq rfl
      have hreturn : ∀ (b : Routing) (k : Caller), Adds NoYes b (b.return_ now k) := fun b k =>
        .returned noYes_forwards b now k
      cases t with
      | prepare req c k =>
        by_cases ho : o = .answer .yes
        · subst ho
          refine Or.inr ⟨n, req, c, k, rfl, ht, ?_⟩
          simp only [Routing.resume, Routing.answered]
          split_ifs
          · exact .trans (.of_eq rfl)
              (.record (((s.wake n).record _).setNumReply _ _) fun _ _ h => by cases h)
          · exact .trans (.of_eq rfl) (hreturn (((s.wake n).record _).setNumReply _ _) k)
        · exact Or.inl (hwake.trans (noYes_answered _ now req c k ho))
      | commit req k =>
        exact Or.inl (hwake.trans (.record _ fun _ _ h => by cases h))
      | abort req timedOut k =>
        exact Or.inl (hwake.trans (.record _ fun _ _ h => by cases h))
      | committed req k =>
        refine Or.inl (hwake.trans ?_)
        simp only [Routing.resume]
        split_ifs
        · exact .of_eq rfl
        · exact hreturn _ k
      | aborted req timedOut k =>
        refine Or.inl (hwake.trans ?_)
        simp only [Routing.resume]
        split_ifs
        · exact .of_eq rfl
        · exact .of_eq rfl
        · exact .trans (.of_eq rfl) (hreturn ((s.wake n).setNumReply _ _) k)
      | intra req k =>
        refine Or.inl (hwake.trans ?_)
        simp only [Routing.resume]
        split_ifs
        · exact .of_eq rfl
        · exact .record _ fun _ _ h => by cases h
      | replied req k =>
        refine Or.inl (hwake.trans ?_)
        simp only [Routing.resume]
        split_ifs
        · exact .of_eq rfl
        · exact hreturn _ k

theorem countYes_adds {a b : Routing} (h : Adds NoYes a b) (id : ℤ) (c : ℕ) :
    b.traffic.countP (Traffic.isYesFrom id c) = a.traffic.countP (Traffic.isYesFrom id c) := by
  obtain ⟨extra, hextra, hno⟩ := h
  have hzero : extra.countP (Traffic.isYesFrom id c) = 0 := by
    rw [List.countP_eq_zero]
    intro t ht hyes
    unfold Traffic.isYesFrom at hyes
    split at hyes
    · exact hno _ ht _ _ rfl
    · cases hyes
  rw [hextra, List.countP_append, hzero, Nat.add_zero]

/-! ### A confirmation is on one line -/

theorem inj_of_nodup_filterMap {α β : Type} {f : α → Option β} {L : List α}
    (h : (L.filterMap f).Nodup) {a b : α} {y : β} (ha : a ∈ L) (hb : b ∈ L) (hfa : f a = some y)
    (hfb : f b = some y) : a = b := by
  induction L with
  | nil => cases ha
  | cons x L ih =>
    have hmem : ∀ {c}, c ∈ L → f c = some y → y ∈ L.filterMap f := fun hc hfc =>
      List.mem_filterMap.mpr ⟨_, hc, hfc⟩
    have hrest : (L.filterMap f).Nodup :=
      h.sublist (List.Sublist.filterMap f (List.sublist_cons_self x L))
    rcases List.mem_cons.mp ha with rfl | ha'
    · rcases List.mem_cons.mp hb with rfl | hb'
      · rfl
      · rw [List.filterMap_cons_some hfa] at h
        exact absurd (hmem hb' hfb) (List.nodup_cons.mp h).1
    · rcases List.mem_cons.mp hb with rfl | hb'
      · rw [List.filterMap_cons_some hfb] at h
        exact absurd (hmem ha' hfa) (List.nodup_cons.mp h).1
      · exact ih hrest ha' hb'

theorem inj_of_nodup_flatMap {α β : Type} {f : α → List β} {L : List α} (h : (L.flatMap f).Nodup)
    {a b : α} {y : β} (ha : a ∈ L) (hb : b ∈ L) (hya : y ∈ f a) (hyb : y ∈ f b) : a = b := by
  induction L with
  | nil => cases ha
  | cons x L ih =>
    rw [List.flatMap_cons] at h
    obtain ⟨-, hrest, hapart⟩ := List.nodup_append.mp h
    have hmem : ∀ {c}, c ∈ L → y ∈ f c → y ∈ L.flatMap f := fun hc hy =>
      List.mem_flatMap.mpr ⟨_, hc, hy⟩
    rcases List.mem_cons.mp ha with rfl | ha'
    · rcases List.mem_cons.mp hb with rfl | hb'
      · rfl
      · exact absurd rfl (hapart y hya y (hmem hb' hyb))
    · rcases List.mem_cons.mp hb with rfl | hb'
      · exact absurd rfl (hapart y hyb y (hmem ha' hya))
      · exact ih hrest ha' hb'

section
variable {s : Cluster} {e : Event} {es : List Event} {msg : WrapperMessage} {p p' : Idx}
  {fd fd' : ℤ}

theorem mem_confirmations {acts : List AIOAction} (hpos : isPositive msg = true)
    (h : msg ∈ answersOn fd acts) : msg ∈ confirmations acts :=
  List.mem_filterMap.mpr ⟨_, mem_answersOn h, by simp [hpos]⟩

theorem mem_confirms (hpos : isPositive msg = true) (h : msg ∈ answersOn fd (s.emits e p)) :
    msg ∈ s.confirms e :=
  List.mem_flatMap.mpr ⟨p, List.mem_finRange p, mem_confirmations hpos h⟩

theorem mem_confirmed (hpos : isPositive msg = true) (h : msg ∈ written p fd s es) :
    msg ∈ confirmed s es := by
  induction es generalizing s with
  | nil => cases h
  | cons e es ih =>
    rcases List.mem_append.mp h with h | h
    · exact List.mem_append_left _ (mem_confirms hpos h)
    · exact List.mem_append_right _ (ih h)

theorem confirms_line (hnodup : (s.confirms e).Nodup) (hpos : isPositive msg = true)
    (h : msg ∈ answersOn fd (s.emits e p)) (h' : msg ∈ answersOn fd' (s.emits e p')) :
    fd = fd' := by
  obtain rfl := inj_of_nodup_flatMap hnodup (List.mem_finRange p) (List.mem_finRange p')
    (mem_confirmations hpos h) (mem_confirmations hpos h')
  have hone := (List.nodup_flatMap.mp hnodup).1 p (List.mem_finRange p)
  have hwrite := inj_of_nodup_filterMap hone (mem_answersOn h) (mem_answersOn h') (y := msg)
    (by simp [hpos]) (by simp [hpos])
  exact (AIOAction.writeMsg.inj hwrite).1

theorem confirmed_line (hnodup : (confirmed s es).Nodup) (hpos : isPositive msg = true)
    (h : msg ∈ written p fd s es) (h' : msg ∈ written p' fd' s es) : fd = fd' := by
  induction es generalizing s with
  | nil => cases h
  | cons e es ih =>
    obtain ⟨hfirst, hrest, hapart⟩ := List.nodup_append.mp hnodup
    rcases List.mem_append.mp h with h | h
    · rcases List.mem_append.mp h' with h' | h'
      · exact confirms_line hfirst hpos h h'
      · exact absurd rfl (hapart _ (mem_confirms hpos h) _ (mem_confirmed hpos h'))
    · rcases List.mem_append.mp h' with h' | h'
      · exact absurd rfl (hapart _ (mem_confirms hpos h') _ (mem_confirmed hpos h))
      · exact ih hrest h h'

end

/-! ### Votes in the whole database -/

namespace Deployment

variable {s : Deployment} {e : DeploymentEvent} {es : List DeploymentEvent} {n : ℕ}
  {shards : ℕ → Table ℤ} {R : ℕ → List Event}

/-- The step passes, in its cluster, the tests under which Raft is safe. -/
def keepsDiscipline (s : Deployment) (e : DeploymentEvent) : Bool :=
  (s.stirs e).all fun x => disciplined (s.clusters x.1) x.2

theorem follows_stirred {ok : Cluster → Event → Prop} {ok' : Deployment → DeploymentEvent → Prop}
    (himp : ∀ s e c x, ok' s e → s.stirsIn e c = some x → ok (s.clusters c) x)
    (h : Follows ok' s es) (c : ℕ) : Cluster.Follows ok (s.clusters c) (stirred c s es) := by
  induction es generalizing s with
  | nil => trivial
  | cons e es ih =>
    have hrest := ih h.2
    rw [clusters_step] at hrest
    rw [stirred]
    cases hs : s.stirsIn e c with
    | none =>
      rw [hs] at hrest
      exact hrest
    | some x =>
      rw [hs] at hrest
      exact ⟨himp s e c x h.1 hs, hrest⟩

theorem keepsDiscipline_spec {c : ℕ} {x : Event} (h : keepsDiscipline s e = true)
    (hx : s.stirsIn e c = some x) : disciplined (s.clusters c) x = true := by
  obtain ⟨⟨c', x'⟩, hstirs, hif⟩ := Option.bind_eq_some_iff.mp hx
  dsimp only at hif
  split_ifs at hif with hc
  obtain rfl := Option.some.inj hif
  subst hc
  simpa [keepsDiscipline, hstirs] using h

theorem Follows.left {ok : Deployment → DeploymentEvent → Prop} {past more : List DeploymentEvent}
    (h : Follows ok s (past ++ more)) : Follows ok s past := by
  induction past generalizing s with
  | nil => trivial
  | cons e past ih => exact ⟨h.1, ih h.2⟩

/-- Two lines to a cluster do not carry the same confirmation. -/
theorem Wired.one_line (h : Wired shards s R) {c : ℕ}
    (hnodup : (confirmed (Cluster.init c (shards c)) (R c)).Nodup) {msg : WrapperMessage}
    (hpos : isPositive msg = true) {k k' : ℕ} {l l' : Line} (hl : s.lines[k]? = some l)
    (hl' : s.lines[k']? = some l') (hc : l.cluster = c) (hc' : l'.cluster = c)
    (hmsg : msg ∈ l.written) (hmsg' : msg ∈ l'.written) : k = k' := by
  subst hc
  rw [h.lines k l hl] at hmsg
  rw [h.lines k' l' hl', hc'] at hmsg'
  exact lineSocket_inj (confirmed_line hnodup hpos hmsg hmsg')

def Line.Counted (id : ℤ) (c : ℕ) (l : Line) : Prop :=
  l.taken = true ∧ l.cluster = c ∧ l.written = [.crossShardRsp ⟨.yes, id⟩]

/-- Each YES that is counted stands on a line, and no cluster has said it twice. -/
structure Credited (s : Deployment) : Prop where
  line : ∀ id c, 0 < s.routing.traffic.countP (Traffic.isYesFrom id c) →
    ∃ (k : ℕ) (l : Line), s.lines[k]? = some l ∧ Line.Counted id c l
  once : AnswersOnce s.routing

theorem Regular.keeps {k : ℕ} {l : Line} {msg : WrapperMessage} (h : Regular (Line.next s e k l))
    (hl : l.written = [msg]) : (Line.next s e k l).written = [msg] := by
  have hone := h.once
  simp only [Line.next, hl, List.length_append, List.length_singleton] at hone
  have hnil : s.writes e k l = [] := List.eq_nil_of_length_eq_zero (by omega)
  simp [Line.next, hl, hnil]

theorem Credited.kept (h : Credited s) {R' : ℕ → List Event} (hw' : Wired shards (s.step e) R')
    {id : ℤ} {c : ℕ} (hpos : 0 < s.routing.traffic.countP (Traffic.isYesFrom id c)) :
    ∃ (k : ℕ) (l : Line), (s.step e).lines[k]? = some l ∧ Line.Counted id c l := by
  obtain ⟨k, l, hl, htaken, hc, hwritten⟩ := h.line id c hpos
  have hnext := line_kept (e := e) hl
  exact ⟨k, _, hnext, by simp [Line.next, htaken], hc, (hw'.regular hnext).keeps hwritten⟩

theorem Credited.step (h : Credited s) {R' : ℕ → List Event} (hw : Wired shards s R)
    (hw' : Wired shards (s.step e) R')
    (hnodup : ∀ c, (confirmed (Cluster.init c (shards c)) (R c)).Nodup) : Credited (s.step e) := by
  have hsame : (∀ id c, (s.step e).routing.traffic.countP (Traffic.isYesFrom id c) =
      s.routing.traffic.countP (Traffic.isYesFrom id c)) → Credited (s.step e) := by
    intro hcount
    refine ⟨fun id c hpos => h.kept hw' (hcount id c ▸ hpos), fun id c => ?_⟩
    rw [hcount]
    exact h.once id c
  have hrouting := routing_step s e
  cases hev : s.routes e with
  | none =>
    rw [hev] at hrouting
    exact hsame fun id c => by rw [hrouting]; rfl
  | some ev =>
    rw [hev] at hrouting
    have hstep : (s.step e).routing = s.routing.step ev := hrouting
    rcases noYes_step s.routing ev with hno | ⟨n, req, c, j, hact, ht, hno⟩
    · exact hsame fun id c => by rw [hstep, countYes_adds hno]
    · -- the YES stands on a line from which no response was read before
      obtain ⟨action, now⟩ := ev
      obtain rfl : action = .resume n (.answer .yes) := hact
      obtain ⟨req', c', j', k, l, ht', hl, hcl, -, hwritten, htaken, htakes⟩ := hw.delivers hev
      obtain ⟨rfl, rfl, rfl⟩ : req = req' ∧ c = c' ∧ j = j' := by simpa [ht] using ht'
      have hcount : ∀ id d, (s.step e).routing.traffic.countP (Traffic.isYesFrom id d) =
          s.routing.traffic.countP (Traffic.isYesFrom id d) +
            if req.id = id ∧ c = d then 1 else 0 := by
        intro id d
        rw [hstep, countYes_adds hno]
        simp [Routing.record, Traffic.isYesFrom, List.countP_append, List.countP_singleton]
      have hzero : s.routing.traffic.countP (Traffic.isYesFrom req.id c) = 0 := by
        by_contra hne
        obtain ⟨k₀, l₀, hl₀, htaken₀, hc₀, hwritten₀⟩ := h.line req.id c (Nat.pos_of_ne_zero hne)
        have hsaid : WrapperMessage.crossShardRsp ⟨.yes, req.id⟩ ∈ l.written := by simp [hwritten]
        have hsaid₀ : WrapperMessage.crossShardRsp ⟨.yes, req.id⟩ ∈ l₀.written := by
          simp [hwritten₀]
        have hk := hw.one_line (hnodup c) rfl hl₀ hl hc₀ hcl hsaid₀ hsaid
        subst hk
        rw [hl₀] at hl
        obtain rfl := Option.some.inj hl
        rw [htaken₀] at htaken
        cases htaken
      refine ⟨fun id d hpos => ?_, fun id d => ?_⟩
      · by_cases hd : req.id = id ∧ c = d
        · obtain ⟨rfl, rfl⟩ := hd
          have hnext := line_kept (e := e) hl
          exact ⟨k, _, hnext, by simp [Line.next, htakes], hcl, (hw'.regular hnext).keeps hwritten⟩
        · rw [hcount, if_neg hd] at hpos
          exact h.kept hw' hpos
      · rw [hcount]
        split_ifs with hd
        · obtain ⟨rfl, rfl⟩ := hd
          rw [hzero]
        · exact h.once id d

theorem Credited.run {n : ℕ} {shards : ℕ → Table ℤ} {es : List DeploymentEvent}
    (hok : Follows (keepsDiscipline · ·) (init n shards) es) :
    Credited ((init n shards).run es) := by
  induction es using List.reverseRecOn with
  | nil => exact ⟨fun _ _ hpos => absurd hpos (lt_irrefl 0), fun _ _ => Nat.zero_le 1⟩
  | append_singleton es e ih =>
    have hprefix := hok.left
    have hw := Wired.run n shards es
    have hw' := Wired.run n shards (es ++ [e])
    rw [run_concat] at hw' ⊢
    exact (ih hprefix).step hw hw' fun c =>
      nodup_confirmed (follows_stirred (fun _ _ _ _ => keepsDiscipline_spec) hprefix c)

/-! ### COMMIT and PREPARE -/

section
variable {n : ℕ} {shards : ℕ → Table ℤ} {es : List DeploymentEvent}

/-- The journal of cluster `c` has the PREPARE of the transaction. -/
def Promised (n : ℕ) (shards : ℕ → Table ℤ) (es : List DeploymentEvent) (c : ℕ)
    (req : CrossShardReq) : Prop :=
  ∃ y ∈ ((Cluster.init c (shards c)).asJournal (stirred c (init n shards) es)).entries,
    y.id = req.id ∧ y.command = CrossShardExecutor.prepareCommand req

/-- COMMIT in a run: it is broadcast once for each id, and logged only where both journals have
the PREPARE. -/
structure Atomic (n : ℕ) (shards : ℕ → Table ℤ) (es : List DeploymentEvent) : Prop where
  once : ∀ id, ((init n shards).run es).routing.traffic.countP (Traffic.isCommit id) ≤ 1
  promised : ∀ c p, ∀ x ∈ ((((init n shards).run es).clusters c).raft p).log,
    isCommit x.command = true → ∃ req a b,
      .commit req ∈ ((init n shards).run es).routing.traffic ∧ req.id = x.id ∧
        pyIndex n req.senderClusterId = some a ∧ pyIndex n req.receiverClusterId = some b ∧
          Promised n shards es a req ∧ Promised n shards es b req

theorem broadcast_of_logged {c : ℕ} {p : Idx} {x : LogEntry}
    (hx : x ∈ ((((init n shards).run es).clusters c).raft p).log)
    (hcommit : isCommit x.command = true) :
    ∃ req, .commit req ∈ ((init n shards).run es).routing.traffic ∧ req.id = x.id := by
  obtain ⟨t, -, hlogs, y, hy, ht⟩ := logged hx
  have hbranch : t.command.branch = some .commit := by
    rw [← hasTag_text, ← hlogs.command]
    exact hcommit
  cases y with
  | commit req =>
    obtain rfl := List.mem_singleton.mp ht
    exact ⟨req, hy, hlogs.id.symm⟩
  | prepare req a server =>
    obtain rfl := List.mem_singleton.mp ht
    have hreq := numbered_of_traffic hy (.cross req) (List.mem_singleton_self _)
    have hphase := phase_of_typed ((traced_init n shards).typed hreq)
    rw [Transaction.command, hphase] at hbranch
    cases hbranch
  | abort req | intra req server =>
    obtain rfl := List.mem_singleton.mp ht
    cases hbranch
  | answer | reply | intraReply => cases ht

theorem logged_of_journal {c : ℕ} {y : Entry}
    (hok : Follows (keepsDiscipline · ·) (init n shards) es)
    (hy : y ∈ ((Cluster.init c (shards c)).asJournal (stirred c (init n shards) es)).entries) :
    ∃ p, ∃ x ∈ ((((init n shards).run es).clusters c).raft p).log, x.entry = y := by
  have hdis : Cluster.Follows (disciplined · ·) (Cluster.init c (shards c))
      (stirred c (init n shards) es) :=
    follows_stirred (fun _ _ _ _ => keepsDiscipline_spec) hok c
  obtain hnil | ⟨past, p, ⟨more, hpast⟩, hmem⟩ := mem_journal hy
  · cases hnil
  · have hkept := (committing_init c (shards c)).keeps (hpast ▸ hdis) p
    rw [hpast] at hkept
    obtain ⟨x, hx, hxy⟩ := List.mem_map.mp (hkept.subset hmem)
    rw [clusters_run]
    exact ⟨p, x, hx, hxy⟩

/-- A YES that is counted stands for a PREPARE in the journal of the cluster that says it. -/
theorem promised_of_yes {c : ℕ} {req : CrossShardReq}
    (hok : Follows (keepsDiscipline · ·) (init n shards) es)
    (hyes : .answer req c .yes ∈ ((init n shards).run es).routing.traffic) :
    Promised n shards es c req := by
  have hdis : Cluster.Follows (disciplined · ·) (Cluster.init c (shards c))
      (stirred c (init n shards) es) :=
    follows_stirred (fun _ _ _ _ => keepsDiscipline_spec) hok c
  have hpos : 0 < ((init n shards).run es).routing.traffic.countP (Traffic.isYesFrom req.id c) :=
    List.countP_pos_iff.mpr ⟨_, hyes, by simp [Traffic.isYesFrom]⟩
  obtain ⟨k, l, hl, -, rfl, hwritten⟩ := (Credited.run hok).line req.id c hpos
  -- what is written on the line confirms an entry of the journal
  have hconfirmed : .crossShardRsp ⟨.yes, req.id⟩ ∈
      confirmed (Cluster.init l.cluster (shards l.cluster)) (stirred l.cluster (init n shards) es) := by
    have hin : WrapperMessage.crossShardRsp ⟨.yes, req.id⟩ ∈ l.written := by simp [hwritten]
    rw [(Wired.run n shards es).lines k l hl] at hin
    exact mem_confirmed rfl hin
  obtain ⟨y, hy, hconf⟩ := confirmed_journaled hdis hconfirmed
  obtain ⟨hid, hprepare⟩ : y.id = req.id ∧ isPrepare y.command = true := by
    unfold Entry.confirmation at hconf
    split_ifs at hconf with hcross hprepare
    · exact ⟨by simpa using hconf, hprepare⟩
    · simp at hconf
  -- and it tells the transfer that the service has numbered
  obtain ⟨p, x, hx, rfl⟩ := logged_of_journal hok hy
  obtain ⟨t, ht, hlogs, -⟩ := logged hx
  have hreq := numbered_of_traffic hyes (.cross req) (List.mem_singleton_self _)
  have hphase := phase_of_typed ((traced_init n shards).typed hreq)
  have hsame : t.order = .cross req := by
    refine orders_unique ht hreq ?_
    rw [Transaction.id_order, ← hlogs.id, hid]
    rfl
  refine ⟨_, hy, hid, ?_⟩
  have hbranch : t.command.branch = some .prepare := by
    rw [← hasTag_text, ← hlogs.command]
    exact hprepare
  rw [hlogs.command]
  cases t with
  | intra req' => cases hbranch
  | cross req' =>
    obtain rfl := Request.cross.inj hsame
    have hprep : req'.phase = .prepare := Option.some.inj hbranch
    rw [Command.text, Transaction.command, hprep]
    rfl

theorem voted_run (honce : AnswersOnce ((init n shards).run es).routing) :
    Voted n ((init n shards).run es).routing := by
  have hrouting := routing_run (init n shards) es
  obtain ⟨f, hf⟩ := exists_filed_init n
  rw [hrouting] at honce ⊢
  exact (Voted.init n).run _ hf honce

/-- In every run of the whole database that is safe for Raft: COMMIT of a transaction is
broadcast once at most, and when any server has it in its log, the journals of both clusters
have the PREPARE of the same transfer. -/
theorem atomic (n : ℕ) (shards : ℕ → Table ℤ) (es : List DeploymentEvent)
    (hok : Follows (keepsDiscipline · ·) (init n shards) es) : Atomic n shards es := by
  have hvoted := voted_run (Credited.run hok).once
  refine ⟨hvoted.once, fun c p x hx hcommit => ?_⟩
  obtain ⟨req, hreq, hid⟩ := broadcast_of_logged hx hcommit
  obtain ⟨before, after, hsplit⟩ := List.append_of_mem hreq
  obtain ⟨a, b, ha, hb, hyes, hyes'⟩ := hvoted.both before after req hsplit
  have hin : ∀ y ∈ before, y ∈ ((init n shards).run es).routing.traffic := by
    intro y hy
    rw [hsplit]
    exact List.mem_append_left _ hy
  exact ⟨req, a, b, hreq, hid, ha, hb, promised_of_yes hok (hin _ hyes),
    promised_of_yes hok (hin _ hyes')⟩

end

def plainly (actions : List DeploymentAction) : List DeploymentEvent :=
  actions.map fun a => ⟨a, 0, .zero⟩

/-- User 100 has 10 in cluster 0, user 1500 has 7 in cluster 1. -/
def twoPurses (c : ℕ) : Table ℤ := if c = 0 then purse else Finmap.insert 1500 7 ∅

def leads (c : ℕ) : List DeploymentAction :=
  [.timeout c 1, .deliver c 0, .deliver c 1, .deliver c 1, .deliver c 2]

def commits (c k : ℕ) : List DeploymentAction :=
  [.read k, .timeout c 1, .deliver c 2, .deliver c 3]

/-- User 100 pays user 1500, and both leaders have read COMMIT. -/
def paidAcross : List DeploymentEvent := plainly (leads 0 ++ leads 1 ++
  [.arrive 1, .arrive 2, .command (.transfer 100 1500 5), .arrive 2] ++ commits 0 0 ++
  [.answer 0 0] ++ commits 1 1 ++ [.answer 0 1, .read 4, .read 5])

theorem atomic_paid :
    (∃ x ∈ ((((init 2 twoPurses).run paidAcross).clusters 1).raft 1).log,
      isCommit x.command = true) ∧ Atomic 2 twoPurses paidAcross :=
  ⟨by decide, atomic 2 twoPurses paidAcross (by decide)⟩

end Deployment

end Raft2PC
