import Raft2PC.Escrow.Transit
import Raft2PC.Proofs.Atomicity
import Raft2PC.Proofs.Conservation
import Raft2PC.Sanity.Heard

/-! Money over the whole database. Each server carries out a COMMIT once at most, so what the
clusters have lost is what COMMITs have taken from one of them and not yet brought to the
other. -/

namespace Raft2PC

open Routing

/-! ### COMMIT on its way -/

def Traffic.commitSent : Traffic → Option CrossShardReq
  | .commit req => some { req with phase := .commit }
  | _ => none

def ClientMsg.commitId : ClientMsg → Option ℤ
  | .crossShard req => if req.phase = .commit then some req.id else none
  | _ => none

/-- The server to which a line brings COMMIT, and its id. -/
def Line.brings (l : Line) : Option (ℕ × Idx × ℤ) :=
  l.msg.commitId.map fun id => (l.cluster, l.server, id)

/-- The servers to which a message of the service brings COMMIT. -/
def Traffic.brings (n : ℕ) (t : Traffic) : List (ℕ × Idx × ℤ) := (t.lines n).filterMap Line.brings

theorem brings_eq_some {l : Line} {c : ℕ} {p : Idx} {id : ℤ} :
    l.brings = some (c, p, id) ↔ l.cluster = c ∧ l.server = p ∧
      ∃ req, l.msg = .crossShard req ∧ req.phase = .commit ∧ req.id = id := by
  unfold Line.brings ClientMsg.commitId
  cases l.msg with
  | crossShard req =>
    by_cases hphase : req.phase = .commit
    · simp [hphase]
    · simp [hphase]
  | _ => simp

theorem commit_of_brings {n : ℕ} {t : Traffic} {key : ℕ × Idx × ℤ}
    (hprepare : ∀ req c i, t = .prepare req c i → req.phase ≠ .commit)
    (h : key ∈ t.brings n) : t.isCommit key.2.2 = true := by
  obtain ⟨l, hl, hkey⟩ := List.mem_filterMap.mp h
  obtain ⟨-, -, req, hmsg, hphase, hid⟩ := brings_eq_some.mp hkey
  obtain ⟨tr, htr, hmsg'⟩ := Deployment.transaction_of_traffic hl
  obtain rfl : tr = .cross req := Transaction.request_injective (hmsg'.symm.trans hmsg)
  cases t with
  | prepare req' c i =>
    obtain ⟨rfl⟩ := List.mem_singleton.mp htr
    exact absurd hphase (hprepare req c i rfl)
  | commit req' =>
    obtain ⟨rfl⟩ := List.mem_singleton.mp htr
    simpa [Traffic.isCommit] using hid
  | abort req' =>
    obtain ⟨rfl⟩ := List.mem_singleton.mp htr
    cases hphase
  | intra req' i => cases List.mem_singleton.mp htr
  | answer | reply | intraReply => cases htr

theorem brings_commit {n : ℕ} {req : CrossShardReq} {a b : ℕ}
    (ha : pyIndex n req.senderClusterId = some a) (hb : pyIndex n req.receiverClusterId = some b) :
    (Traffic.commit req).brings n = (List.finRange SERVER_NUM_PER_CLUSTER).flatMap fun p =>
      [(a, p, req.id), (b, p, req.id)] := by
  simp [Traffic.brings, Traffic.lines, broadcastLines, Broadcast.start, ha, hb,
    List.filterMap_map, List.filterMap_flatMap, Line.brings, Line.open_, Send.start,
    ClientMsg.commitId]

theorem nodup_brings {n : ℕ} {req : CrossShardReq}
    (hapart : req.senderClusterId ≠ req.receiverClusterId) (hs : 0 ≤ req.senderClusterId)
    (hr : 0 ≤ req.receiverClusterId) : ((Traffic.commit req).brings n).Nodup := by
  cases ha : pyIndex n req.senderClusterId with
  | none => simp [Traffic.brings, Traffic.lines, broadcastLines, Broadcast.start, ha]
  | some a =>
    cases hb : pyIndex n req.receiverClusterId with
    | none => simp [Traffic.brings, Traffic.lines, broadcastLines, Broadcast.start, ha, hb]
    | some b =>
      have hab : a ≠ b := by
        rintro rfl
        exact hapart ((pyIndex_of_nonneg ha hs).trans (pyIndex_of_nonneg hb hr).symm)
      rw [brings_commit ha hb]
      refine List.nodup_flatMap.mpr ⟨fun p _ => by simp [hab], ?_⟩
      refine (List.nodup_finRange _).imp fun hpq => ?_
      simp [Function.onFun, Ne.symm hpq]

/-- No server is brought the same COMMIT twice, if COMMIT is broadcast once. -/
theorem nodup_flatMap_brings {n : ℕ} {L : List Traffic}
    (honce : ∀ id, L.countP (Traffic.isCommit id) ≤ 1)
    (hprepare : ∀ req c i, .prepare req c i ∈ L → req.phase ≠ .commit)
    (hnodup : ∀ req, .commit req ∈ L → ((Traffic.commit req).brings n).Nodup) :
    (L.flatMap (Traffic.brings n)).Nodup := by
  induction L with
  | nil => exact List.nodup_nil
  | cons t L ih =>
    have hcommit : ∀ t' ∈ t :: L, ∀ key ∈ t'.brings n, t'.isCommit key.2.2 = true := by
      intro t' ht' key hkey
      refine commit_of_brings (fun req c i heq => hprepare req c i ?_) hkey
      rwa [← heq]
    have hcount : ∀ id, (t :: L).countP (Traffic.isCommit id) =
        L.countP (Traffic.isCommit id) + if t.isCommit id then 1 else 0 := fun id =>
      List.countP_cons
    rw [List.flatMap_cons]
    refine List.nodup_append.mpr ⟨?_, ih (fun id => ?_) (fun req c i hmem => ?_)
      fun req hmem => ?_, ?_⟩
    · cases hkeys : t.brings n with
      | nil => exact List.nodup_nil
      | cons key keys =>
        have hcom := hcommit t List.mem_cons_self key (hkeys ▸ List.mem_cons_self)
        rw [← hkeys]
        cases t with
        | commit req => exact hnodup req List.mem_cons_self
        | _ => cases hcom
    · have hid := honce id
      rw [hcount] at hid
      omega
    · exact hprepare req c i (List.mem_cons_of_mem _ hmem)
    · exact hnodup req (List.mem_cons_of_mem _ hmem)
    · -- the same id would be broadcast twice
      rintro key hkey key' hkey' rfl
      obtain ⟨t', ht', hkey'⟩ := List.mem_flatMap.mp hkey'
      have hhead := hcommit t List.mem_cons_self key hkey
      have hpos : 0 < L.countP (Traffic.isCommit key.2.2) :=
        List.countP_pos_iff.mpr ⟨t', ht', hcommit t' (List.mem_cons_of_mem _ ht') key hkey'⟩
      have hid := honce key.2.2
      rw [hcount, if_pos hhead] at hid
      omega

/-! ### Lines that bring COMMIT -/

namespace Deployment

variable {s : Deployment} {e : DeploymentEvent} {es : List DeploymentEvent} {n : ℕ}
  {shards : ℕ → Table ℤ} {R : ℕ → List Event}

theorem sent_spec (s : Deployment) (e : DeploymentEvent) :
    (s.step e).routing.traffic = s.routing.traffic ++ s.sent e := by
  rw [routing_step, sent]
  cases s.routes e with
  | none => exact (List.append_nil _).symm
  | some r => exact (List.prefix_iff_eq_append.mp (traffic_longer s.routing r)).symm

theorem brings_commandOpens (s : Deployment) (e : DeploymentEvent) :
    (s.commandOpens e).filterMap Line.brings = [] := by
  refine List.filterMap_eq_nil_iff.mpr fun l hl => ?_
  cases hkey : l.brings with
  | none => rfl
  | some key =>
    obtain ⟨-, -, req, hmsg, -⟩ := brings_eq_some.mp hkey
    exact absurd hmsg (transaction_of_command (t := .cross req) hl)

theorem brings_step (s : Deployment) (e : DeploymentEvent) :
    (s.step e).lines.filterMap Line.brings =
      s.lines.filterMap Line.brings ++ (s.sent e).flatMap (Traffic.brings s.numCluster) := by
  have hnext : (s.lines.mapIdx (Line.next s e)).filterMap Line.brings =
      s.lines.filterMap Line.brings := by
    have hmap : (s.lines.mapIdx (Line.next s e)).map Line.brings = s.lines.map Line.brings := by
      apply List.ext_getElem?
      intro k
      rw [List.getElem?_map, List.getElem?_mapIdx, List.getElem?_map]
      cases s.lines[k]? with
      | none => rfl
      | some l => rfl
    simpa only [List.filterMap_map, Function.id_comp] using congrArg (List.filterMap id) hmap
  rw [lines_step, List.filterMap_append, hnext, opens, List.filterMap_append, brings_commandOpens,
    List.nil_append, List.filterMap_flatMap]
  rfl

theorem numCluster_run (n : ℕ) (shards : ℕ → Table ℤ) (es : List DeploymentEvent) :
    ((init n shards).run es).numCluster = n := by
  induction es using List.reverseRecOn with
  | nil => exact List.length_replicate
  | append_singleton es e ih =>
    rw [run_concat, numCluster, routing_step]
    cases ((init n shards).run es).routes e with
    | none => exact ih
    | some r => exact (breadth_step _ r).trans ih

theorem brings_run (n : ℕ) (shards : ℕ → Table ℤ) (es : List DeploymentEvent) :
    ((init n shards).run es).lines.filterMap Line.brings =
      ((init n shards).run es).routing.traffic.flatMap (Traffic.brings n) := by
  induction es using List.reverseRecOn with
  | nil => rfl
  | append_singleton es e ih =>
    rw [run_concat, brings_step, sent_spec, numCluster_run, List.flatMap_append, ih]

/-! ### Each COMMIT is carried out once -/

theorem commitsApplied_append (p : Idx) (s : Cluster) (es es' : List Event) :
    commitsApplied p s (es ++ es') =
      commitsApplied p s es ++ commitsApplied p (s.run es) es' := by
  induction es generalizing s with
  | nil => rfl
  | cons e es ih =>
    rw [List.cons_append, commitsApplied, commitsApplied, ih, List.append_assoc]
    rfl

theorem carried_spec {s : Cluster} {x : Event} {p : Idx} {req : CrossShardReq}
    (h : carried s x p = some req) :
    (∃ fd, x.action = .request p fd (.crossShard req)) ∧ req.phase = .commit := by
  obtain ⟨m, hserves, hmoves⟩ := Option.bind_eq_some_iff.mp h
  have hm : m = .crossShard req ∧ req.phase = .commit := by
    cases m with
    | crossShard req' =>
      simp only [moves] at hmoves
      split_ifs at hmoves with hcommit
      obtain rfl := Option.some.inj hmoves
      exact ⟨rfl, hcommit.2.1⟩
    | _ => cases hmoves
  obtain ⟨rfl, hphase⟩ := hm
  unfold serves at hserves
  split at hserves
  · rename_i q fd m' hx
    split_ifs at hserves with hq
    obtain rfl := Option.some.inj hserves
    obtain ⟨rfl, -⟩ := hq
    exact ⟨⟨fd, hx⟩, hphase⟩
  · cases hserves

def Line.Brought (c : ℕ) (p : Idx) (req : CrossShardReq) (l : Line) : Prop :=
  l.read = true ∧ l.cluster = c ∧ l.server = p ∧ l.msg = .crossShard req ∧ req.phase = .commit

/-- The COMMITs that the servers have carried out in the runs `R` of the clusters. -/
structure Posted (shards : ℕ → Table ℤ) (s : Deployment) (R : ℕ → List Event) : Prop where
  line : ∀ c p, ∀ req ∈ commitsApplied p (Cluster.init c (shards c)) (R c),
    ∃ (k : ℕ) (l : Line), s.lines[k]? = some l ∧ Line.Brought c p req l
  once : ∀ c p, ((commitsApplied p (Cluster.init c (shards c)) (R c)).map CrossShardReq.id).Nodup

theorem Line.Brought.next {c : ℕ} {p : Idx} {req : CrossShardReq} {k : ℕ} {l : Line}
    (h : Line.Brought c p req l) : Line.Brought c p req (Line.next s e k l) := by
  obtain ⟨hread, hc, hp, hmsg, hphase⟩ := h
  exact ⟨by simp [Line.next, hread], hc, hp, hmsg, hphase⟩

theorem Line.Brought.brings {c : ℕ} {p : Idx} {req : CrossShardReq} {l : Line}
    (h : Line.Brought c p req l) : l.brings = some (c, p, req.id) := by
  obtain ⟨-, hc, hp, hmsg, hphase⟩ := h
  exact brings_eq_some.mpr ⟨hc, hp, req, hmsg, hphase, rfl⟩

theorem brought_of_carried {c : ℕ} {p : Idx} {x : Event} {req : CrossShardReq}
    (hx : s.stirsIn e c = some x) (hreq : carried (s.clusters c) x p = some req) :
    ∃ (k : ℕ) (l : Line), s.lines[k]? = some l ∧ l.read = false ∧
      l.brings = some (c, p, req.id) ∧ Line.Brought c p req (Line.next s e k l) := by
  obtain ⟨⟨fd, hact⟩, hphase⟩ := carried_spec hreq
  obtain ⟨k, l, hk, hl, hread, hc, hp, hmsg⟩ := request_of_stirs hx hact
  refine ⟨k, l, hl, hread, brings_eq_some.mpr ⟨hc, hp, req, hmsg, hphase, rfl⟩, ?_⟩
  exact ⟨by simp [Line.next, hk], hc, hp, hmsg, hphase⟩

theorem Posted.step (h : Posted shards s R) (hw : Wired shards s R)
    (hnodup : (s.lines.filterMap Line.brings).Nodup) (e : DeploymentEvent) :
    Posted shards (s.step e) fun c => R c ++ (s.stirsIn e c).toList := by
  have hkept : ∀ c p req, (∃ (k : ℕ) (l : Line), s.lines[k]? = some l ∧ Line.Brought c p req l) →
      ∃ (k : ℕ) (l : Line), (s.step e).lines[k]? = some l ∧ Line.Brought c p req l := by
    rintro c p req ⟨k, l, hl, hbrought⟩
    exact ⟨k, _, line_kept hl, hbrought.next⟩
  have happlied : ∀ c p, commitsApplied p (Cluster.init c (shards c))
      (R c ++ (s.stirsIn e c).toList) = commitsApplied p (Cluster.init c (shards c)) (R c) ++
        ((s.stirsIn e c).bind fun x => carried (s.clusters c) x p).toList := by
    intro c p
    rw [commitsApplied_append, ← hw.clusters]
    cases s.stirsIn e c with
    | none => rfl
    | some x => simp [commitsApplied]
  have hnew : ∀ c p req, ((s.stirsIn e c).bind fun x => carried (s.clusters c) x p) = some req →
      ∃ (k : ℕ) (l : Line), s.lines[k]? = some l ∧ l.read = false ∧
        l.brings = some (c, p, req.id) ∧ Line.Brought c p req (Line.next s e k l) := by
    intro c p req hreq
    obtain ⟨x, hx, hcarried⟩ := Option.bind_eq_some_iff.mp hreq
    exact brought_of_carried hx hcarried
  refine ⟨fun c p req hreq => ?_, fun c p => ?_⟩
  · rw [happlied] at hreq
    rcases List.mem_append.mp hreq with hold | hreq
    · exact hkept c p req (h.line c p req hold)
    · obtain ⟨k, l, hl, -, -, hbrought⟩ := hnew c p req (Option.mem_toList.mp hreq)
      exact ⟨k, _, line_kept hl, hbrought⟩
  · rw [happlied]
    cases hreq : (s.stirsIn e c).bind fun x => carried (s.clusters c) x p with
    | none =>
      rw [Option.toList_none, List.append_nil]
      exact h.once c p
    | some req =>
      rw [Option.toList_some, List.map_append, List.map_singleton]
      refine List.nodup_append.mpr ⟨h.once c p, List.nodup_singleton _, ?_⟩
      rintro id hid id' hid' rfl
      obtain ⟨old, hold, hsame⟩ := List.mem_map.mp hid
      have hreqid : id = req.id := List.mem_singleton.mp hid'
      -- an older one would have been read on the same line
      obtain ⟨k, l, hl, hread, hbrings, -⟩ := hnew c p req hreq
      obtain ⟨k₀, l₀, hl₀, hbrought⟩ := h.line c p old hold
      have hbrings₀ := hbrought.brings
      rw [hsame, hreqid] at hbrings₀
      obtain rfl := inj_of_nodup_filterMap hnodup (List.mem_of_getElem? hl)
        (List.mem_of_getElem? hl₀) hbrings hbrings₀
      rw [hbrought.1] at hread
      cases hread

/-! ### Broadcasts -/

/-- A transfer that goes to two clusters, as a client can type it. -/
theorem apart_of_typed {req : CrossShardReq} (h : Typed (.cross req)) :
    req.senderClusterId ≠ req.receiverClusterId ∧ 0 ≤ req.senderClusterId ∧
      0 ≤ req.receiverClusterId := by
  obtain ⟨a, b, amount, m, hm, hreq⟩ := h
  unfold Client.createSingleTransfer at hm
  split_ifs at hm with hids hneg hbig
  obtain rfl := Option.some.inj hm
  unfold TransactionHandler.transfer at hreq
  dsimp only at hreq
  split_ifs at hreq with hsame
  · cases Option.some.inj hreq
  · rw [← Request.cross.inj (Option.some.inj hreq)]
    refine ⟨hsame, ?_, ?_⟩ <;>
      · simp only [LocalConfig.getClusterIdForUser, LocalConfig.usersPerCluster]
        omega

theorem typed_of_traffic {t : Traffic} (ht : t ∈ ((init n shards).run es).routing.traffic)
    {r : Request} (hr : r ∈ t.requests) : Typed r :=
  (traced_init n shards).typed (numbered_of_traffic ht r hr)

theorem nodup_lines (honce : AnswersOnce ((init n shards).run es).routing) :
    (((init n shards).run es).lines.filterMap Line.brings).Nodup := by
  rw [brings_run]
  refine nodup_flatMap_brings (voted_run honce).once (fun req c i ht hphase => ?_)
    fun req ht => ?_
  · rw [phase_of_typed (typed_of_traffic ht (List.mem_singleton_self _))] at hphase
    cases hphase
  · obtain ⟨hapart, hs, hr⟩ := apart_of_typed (typed_of_traffic ht (List.mem_singleton_self _))
    exact nodup_brings hapart hs hr

theorem Posted.run (honce : AnswersOnce ((init n shards).run es).routing) :
    Posted shards ((init n shards).run es) fun c => stirred c (init n shards) es := by
  induction es using List.reverseRecOn with
  | nil => exact ⟨fun _ _ _ hreq => absurd hreq List.not_mem_nil, fun _ _ => List.nodup_nil⟩
  | append_singleton es e ih =>
    rw [run_concat, routing_step] at honce
    have hbefore : AnswersOnce ((init n shards).run es).routing := AnswersOnce.of_run _ honce
    rw [run_concat]
    simpa only [stirred_concat] using
      (ih hbefore).step (Wired.run n shards es) (nodup_lines hbefore) e

/-! ### What is missing is on its way -/

/-- A COMMIT is posted in the two clusters of its transfer. -/
def remittance (req : CrossShardReq) : Escrow.Remittance ℕ ℤ where
  source := req.senderClusterId.toNat
  target := req.receiverClusterId.toNat
  amount := req.amount

section
variable (n : ℕ) (shards : ℕ → Table ℤ) (es : List DeploymentEvent)

def broadcasts : Finset CrossShardReq :=
  (((init n shards).run es).routing.traffic.filterMap Traffic.commitSent).toFinset

def carriedOut (c : ℕ) (p : Idx) : List CrossShardReq :=
  commitsApplied p (Cluster.init c (shards c)) (stirred c (init n shards) es)

def funds (c : ℕ) (p : Idx) : ℤ :=
  total ((((init n shards).run es).clusters c).raft p).localBalanceTb

/-- The COMMITs that a server of each cluster has carried out. -/
def posted (chosen : ℕ → Idx) (c : ℕ) : Finset CrossShardReq :=
  (carriedOut n shards es c (chosen c)).toFinset

/-- Money in a run, on a server of each cluster. -/
structure Conserved : Prop where
  once : ∀ c p, ((carriedOut n shards es c p).map CrossShardReq.id).Nodup
  broadcast : ∀ c p, ∀ req ∈ carriedOut n shards es c p, req ∈ broadcasts n shards es
  balance : ∀ chosen : ℕ → Idx,
    ∑ c ∈ Finset.range n, funds n shards es c (chosen c) +
        ∑ req ∈ broadcasts n shards es,
          Escrow.inTransit (posted n shards es chosen) remittance req =
      ∑ c ∈ Finset.range n, total (shards c)
  settled : ∀ chosen : ℕ → Idx,
    (∀ req ∈ broadcasts n shards es,
      req ∈ posted n shards es chosen (remittance req).source ↔
        req ∈ posted n shards es chosen (remittance req).target) →
    ∑ c ∈ Finset.range n, funds n shards es c (chosen c) = ∑ c ∈ Finset.range n, total (shards c)

end

variable {c : ℕ} {p : Idx} {req : CrossShardReq}

theorem broadcast_of_carriedOut (honce : AnswersOnce ((init n shards).run es).routing)
    (hreq : req ∈ carriedOut n shards es c p) : req ∈ broadcasts n shards es := by
  obtain ⟨k, l, hl, -, -, -, hmsg, hphase⟩ := (Posted.run honce).line c p req hreq
  obtain ⟨t, ht, htr⟩ := ((traced_init n shards).run es).lines l (List.mem_of_getElem? hl)
    (.cross req) hmsg
  refine List.mem_toFinset.mpr (List.mem_filterMap.mpr ⟨t, ht, ?_⟩)
  cases t with
  | prepare req' c' i =>
    obtain ⟨rfl⟩ := List.mem_singleton.mp htr
    rw [phase_of_typed (typed_of_traffic ht (List.mem_singleton_self _))] at hphase
    cases hphase
  | commit req' =>
    obtain ⟨rfl⟩ := List.mem_singleton.mp htr
    rfl
  | abort req' =>
    obtain ⟨rfl⟩ := List.mem_singleton.mp htr
    cases hphase
  | intra req' i => cases List.mem_singleton.mp htr
  | answer | reply | intraReply => cases htr

/-- A COMMIT is for two clusters that exist. -/
theorem ends_of_broadcast (honce : AnswersOnce ((init n shards).run es).routing)
    (hreq : req ∈ broadcasts n shards es) :
    ((remittance req).source : ℤ) = req.senderClusterId ∧ (remittance req).source < n ∧
      ((remittance req).target : ℤ) = req.receiverClusterId ∧ (remittance req).target < n := by
  obtain ⟨t, ht, hsent⟩ := List.mem_filterMap.mp (List.mem_toFinset.mp hreq)
  cases t with
  | commit req' =>
    obtain rfl := Option.some.inj hsent
    obtain ⟨-, hs, hr⟩ := apart_of_typed (typed_of_traffic ht (List.mem_singleton_self _))
    obtain ⟨before, after, hsplit⟩ := List.append_of_mem ht
    obtain ⟨a, b, ha, hb, -⟩ := (voted_run honce).both before after req' hsplit
    have hlt := pyIndex_lt ha
    have hlt' := pyIndex_lt hb
    have hia := pyIndex_of_nonneg ha hs
    have hib := pyIndex_of_nonneg hb hr
    dsimp only [remittance]
    omega
  | _ => cases hsent

theorem funds_eq (honce : AnswersOnce ((init n shards).run es).routing) (chosen : ℕ → Idx)
    (c : ℕ) : funds n shards es c (chosen c) =
      total (shards c) + ∑ req ∈ posted n shards es chosen c, (remittance req).gain c := by
  have hnodup : (carriedOut n shards es c (chosen c)).Nodup :=
    ((Posted.run honce).once c (chosen c)).of_map
  have hgain : ∀ req ∈ carriedOut n shards es c (chosen c),
      req.gain c = (remittance req).gain c := by
    intro req hreq
    obtain ⟨hs, -, hr, -⟩ := ends_of_broadcast honce (broadcast_of_carriedOut honce hreq)
    simp only [CrossShardReq.gain, Escrow.Remittance.gain, ← hs, ← hr, Nat.cast_inj]
    rfl
  rw [funds, clusters_run, posted, List.sum_toFinset _ hnodup]
  exact (total_run _ _ _).trans (congrArg (total (shards c) + ·)
    (congrArg List.sum (List.map_congr_left hgain)))

/-- In every run of the whole database that is safe for Raft: each server carries out each COMMIT
once at most, and only what was broadcast. Whichever server stands for each cluster, the money
of the clusters and the money in transit together are what there was at the start, and the
clusters have it all when each COMMIT is carried out at both ends or at neither. The tests let
no follower carry one out. -/
theorem conserved (n : ℕ) (shards : ℕ → Table ℤ) (es : List DeploymentEvent)
    (hok : Follows (keepsDiscipline · ·) (init n shards) es) : Conserved n shards es := by
  have honce := (Credited.run hok).once
  have hends : ∀ req ∈ broadcasts n shards es,
      (remittance req).source ∈ Finset.range n ∧ (remittance req).target ∈ Finset.range n := by
    intro req hreq
    obtain ⟨-, hs, -, hr⟩ := ends_of_broadcast honce hreq
    exact ⟨Finset.mem_range.mpr hs, Finset.mem_range.mpr hr⟩
  have hposted : ∀ chosen : ℕ → Idx, ∀ c ∈ Finset.range n,
      posted n shards es chosen c ⊆ broadcasts n shards es := fun chosen c _ req hreq =>
    broadcast_of_carriedOut honce (List.mem_toFinset.mp hreq)
  have hbalance : ∀ chosen : ℕ → Idx, ∑ c ∈ Finset.range n, funds n shards es c (chosen c) =
      ∑ c ∈ Finset.range n, total (shards c) -
        ∑ req ∈ broadcasts n shards es,
          Escrow.inTransit (posted n shards es chosen) remittance req := by
    intro chosen
    rw [Finset.sum_congr rfl fun c _ => funds_eq honce chosen c, Finset.sum_add_distrib,
      Escrow.sum_posted (hposted chosen) hends, sub_eq_add_neg]
  refine ⟨(Posted.run honce).once, fun c p req => broadcast_of_carriedOut honce,
    fun chosen => ?_, fun chosen hboth => ?_⟩
  · rw [hbalance, sub_add_cancel]
  · rw [hbalance, Finset.sum_eq_zero fun req hreq => Escrow.inTransit_eq_zero (hboth req hreq),
      sub_zero]

/-- Only the sender's cluster has read COMMIT: the 5 are missing from the 17. -/
theorem conserved_underway :
    (∑ c ∈ Finset.range 2, funds 2 twoPurses paidAcross.dropLast c 1 = 12 ∧
      ∑ c ∈ Finset.range 2, total (twoPurses c) = 17) ∧
        Conserved 2 twoPurses paidAcross.dropLast :=
  ⟨by decide, conserved 2 twoPurses paidAcross.dropLast (by decide)⟩

end Deployment

end Raft2PC
