import Raft2PC.Sanity.Conversations
import Raft2PC.Sanity.Deployment

/-! The whole database behaves as its parts do on their own. What the models of the parts take
for granted holds in it: no connection is read twice, and the response to a request carries
its id. -/

namespace Raft2PC

namespace Deployment

variable {s : Deployment} {e : DeploymentEvent} {c k : ℕ} {p : Idx} {l : Line}
  {shards : ℕ → Table ℤ} {R : ℕ → List Event}

/-- A message that server `p` of cluster `c` has read came on a line of its own, or from a
peer. -/
def Sourced (s : Deployment) (c : ℕ) (p : Idx) (x : ℤ × WrapperMessage) : Prop :=
  (∃ k l, s.lines[k]? = some l ∧ l.read = true ∧ l.cluster = c ∧ l.server = p ∧
    x = (lineSocket k, l.msg.msg)) ∨
  ∃ j < s.relayed, x.1 = peerSocket j

/-- The connections, after the runs `R` of the clusters. -/
structure Wired (shards : ℕ → Table ℤ) (s : Deployment) (R : ℕ → List Event) : Prop where
  clusters : ∀ c, s.clusters c = (Cluster.init c (shards c)).run (R c)
  sourced : ∀ c p, ∀ x ∈ readOn p (Cluster.init c (shards c)) (R c), s.Sourced c p x
  nodup : ∀ c p, (sockets p (Cluster.init c (shards c)) (R c)).Nodup
  lines : ∀ (k : ℕ) (l : Line), s.lines[k]? = some l →
    l.written = written l.server (lineSocket k) (Cluster.init l.cluster (shards l.cluster))
      (R l.cluster)

theorem lineSocket_inj {k k' : ℕ} (h : lineSocket k = lineSocket k') : k = k' := by
  unfold lineSocket at h
  omega

theorem lineSocket_ne_peerSocket (k j : ℕ) : lineSocket k ≠ peerSocket j := by
  unfold lineSocket peerSocket
  omega

theorem Sourced.next {x : ℤ × WrapperMessage} (h : s.Sourced c p x)
    (hrelayed : s.relayed ≤ (s.step e).relayed) : (s.step e).Sourced c p x := by
  rcases h with ⟨k, l, hl, hread, hc, hp, hx⟩ | ⟨j, hj, hx⟩
  · exact Or.inl ⟨k, _, line_kept hl, by simp [Line.next, hread], hc, hp, hx⟩
  · exact Or.inr ⟨j, by omega, hx⟩

theorem relayed_step (s : Deployment) (e : DeploymentEvent) : (s.step e).relayed =
    s.relayed + match e.action with | .deliver .. => 1 | _ => 0 := by
  have htake : (s.take e).relayed = s.relayed + match e.action with | .deliver .. => 1 | _ => 0 := by
    unfold take
    cases e.action with
    | answer n k =>
      dsimp only
      split_ifs <;> rfl
    | _ => rfl
  rw [← htake]
  cases h : s.routes e with
  | some r => rw [step_routed h, route]
  | none =>
    cases h' : s.stirs e with
    | some x => rw [step_stirred h', stir]
    | none => rw [step_neither h h']

theorem reads_step {x : Event} (hx : s.stirsIn e c = some x) {y : ℤ × WrapperMessage}
    (hy : y ∈ (s.clusters c).readsOn x p) :
    (s.step e).Sourced c p y ∧ ∀ z, s.Sourced c p z → z.1 ≠ y.1 := by
  obtain ⟨⟨c', x'⟩, hstirs, hif⟩ := Option.bind_eq_some_iff.mp hx
  dsimp only at hif
  split_ifs at hif with hc
  obtain rfl := Option.some.inj hif
  subst hc
  obtain ⟨action, now, undef⟩ := e
  unfold stirs at hstirs
  unfold Cluster.readsOn Cluster.brings at hy
  cases action with
  | read k =>
    dsimp only at hstirs
    cases hl : s.lines[k]? with
    | none => simp [hl] at hstirs
    | some l =>
      simp only [hl] at hstirs
      split_ifs at hstirs with hread
      obtain ⟨rfl, rfl⟩ := Prod.mk.inj (Option.some.inj hstirs)
      dsimp only at hy
      split_ifs at hy with hp
      · subst hp
        obtain rfl : y = (lineSocket k, l.msg.msg) := by simpa [ServerInput.own] using hy
        refine ⟨Or.inl ⟨k, _, line_kept hl, by simp [Line.next], rfl, rfl, rfl⟩, fun z hz hne => ?_⟩
        rcases hz with ⟨k', l', hl', hread', -, -, rfl⟩ | ⟨j, -, hj⟩
        · obtain rfl := lineSocket_inj hne
          rw [hl] at hl'
          obtain rfl := Option.some.inj hl'
          exact hread hread'
        · exact lineSocket_ne_peerSocket k j (hne.symm.trans hj)
      · cases hy
  | deliver c k =>
    obtain ⟨rfl, rfl⟩ := Prod.mk.inj (Option.some.inj hstirs)
    have hfd : y.1 = peerSocket s.relayed := by
      dsimp only at hy
      cases hk : (s.clusters c).net[k]? with
      | none => simp [hk] at hy
      | some conn =>
        rw [hk] at hy
        dsimp only at hy
        split_ifs at hy
        · obtain rfl : y = (peerSocket s.relayed, conn.msg) := by simpa [ServerInput.own] using hy
          rfl
        · cases hy
    refine ⟨Or.inr ⟨s.relayed, ?_, hfd⟩, fun z hz hne => ?_⟩
    · rw [relayed_step]
      exact Nat.lt_succ_self _
    · rcases hz with ⟨k', l', -, -, -, -, rfl⟩ | ⟨j, hj, hz⟩
      · exact lineSocket_ne_peerSocket k' _ (hne.trans hfd)
      · rw [hz, hfd] at hne
        unfold peerSocket at hne
        omega
  | timeout c q =>
    obtain ⟨rfl, rfl⟩ := Prod.mk.inj (Option.some.inj hstirs)
    dsimp only at hy
    split_ifs at hy <;> cases hy
  | lose c k =>
    obtain ⟨rfl, rfl⟩ := Prod.mk.inj (Option.some.inj hstirs)
    cases hy
  | _ => cases hstirs

theorem freshSockets {es : List Event}
    (hsourced : ∀ x ∈ readOn p (Cluster.init c (shards c)) es, s.Sourced c p x)
    (hnodup : (sockets p (Cluster.init c (shards c)) es).Nodup) :
    FreshSockets p (Cluster.init c (shards c)) es := by
  refine ⟨hnodup, fun fd hfd => ?_⟩
  rw [← readOn_fst] at hfd
  obtain ⟨x, hx, rfl⟩ := List.mem_map.mp hfd
  rcases hsourced x hx with ⟨k, l, -, -, -, -, rfl⟩ | ⟨j, -, hj⟩
  · dsimp only [lineSocket]
    omega
  · rw [hj, peerSocket]
    omega

theorem Wired.step (h : Wired shards s R) (e : DeploymentEvent) :
    Wired shards (s.step e) fun c => R c ++ (s.stirsIn e c).toList := by
  have hrun : ∀ c, (s.step e).clusters c =
      (Cluster.init c (shards c)).run (R c ++ (s.stirsIn e c).toList) := by
    intro c
    rw [clusters_step, h.clusters, Cluster.run_append]
  have hrelayed : s.relayed ≤ (s.step e).relayed := by
    rw [relayed_step]
    exact Nat.le_add_right _ _
  have hold : ∀ c p, ∀ x ∈ readOn p (Cluster.init c (shards c)) (R c),
      (s.step e).Sourced c p x := fun c p x hx => (h.sourced c p x hx).next hrelayed
  have hsourced : ∀ c p, ∀ x ∈ readOn p (Cluster.init c (shards c))
      (R c ++ (s.stirsIn e c).toList), (s.step e).Sourced c p x := by
    intro c p x hx
    rw [readOn_append, ← h.clusters] at hx
    rcases List.mem_append.mp hx with hx | hx
    · exact hold c p x hx
    · cases hs : s.stirsIn e c with
      | none => simp [hs, readOn] at hx
      | some ev =>
        rw [hs, Option.toList_some, readOn, readOn, List.append_nil] at hx
        exact (reads_step hs hx).1
  have hnodup : ∀ c p, (sockets p (Cluster.init c (shards c))
      (R c ++ (s.stirsIn e c).toList)).Nodup := by
    intro c p
    cases hs : s.stirsIn e c with
    | none =>
      rw [Option.toList_none, List.append_nil]
      exact h.nodup c p
    | some ev =>
      rw [Option.toList_some, sockets_snoc, ← h.clusters, ← readsOn_fst]
      refine List.nodup_append.mpr ⟨h.nodup c p, ?_, fun a ha b hb => ?_⟩
      · rw [readsOn_fst]
        cases (s.clusters c).reads ev p <;> simp
      · rw [← readOn_fst] at ha
        obtain ⟨x, hx, rfl⟩ := List.mem_map.mp ha
        obtain ⟨y, hy, rfl⟩ := List.mem_map.mp hb
        exact (reads_step hs hy).2 x (h.sourced c p x hx)
  refine ⟨hrun, hsourced, hnodup, fun k l hl => ?_⟩
  rcases line_step hl with ⟨l₀, hl₀, rfl⟩ | ⟨hk, hopen⟩
  · change l₀.written ++ s.writes e k l₀ = _
    rw [written_append, ← h.clusters, h.lines k l₀ hl₀, writes]
    congr 1
    change _ = written l₀.server (lineSocket k) (s.clusters l₀.cluster)
      (s.stirsIn e l₀.cluster).toList
    cases s.stirsIn e l₀.cluster with
    | none => rfl
    | some ev => simp [written]
  · -- nothing has been read from a line that has just been opened
    obtain ⟨c, p, m, rfl⟩ := unused_of_opens hopen
    have hfresh := freshSockets (hsourced c p) (hnodup c p)
    refine ((Pending.run hfresh).unread _ fun hmem => ?_).symm
    rw [← readOn_fst] at hmem
    obtain ⟨x, hx, hfd⟩ := List.mem_map.mp hmem
    rcases hsourced c p x hx with ⟨k', l', hl', hread, -, -, rfl⟩ | ⟨j, -, hj⟩
    · obtain rfl := lineSocket_inj hfd
      rw [hl] at hl'
      obtain rfl := Option.some.inj hl'
      cases hread
    · exact lineSocket_ne_peerSocket k j (hfd.symm.trans hj)

theorem wired_init (n : ℕ) (shards : ℕ → Table ℤ) : Wired shards (init n shards) fun _ => [] where
  clusters _ := rfl
  sourced _ _ _ hx := absurd hx List.not_mem_nil
  nodup _ _ := List.nodup_nil
  lines _ _ hl := by cases hl

theorem Wired.run (n : ℕ) (shards : ℕ → Table ℤ) (es : List DeploymentEvent) :
    Wired shards ((init n shards).run es) fun c => stirred c (init n shards) es := by
  induction es using List.reverseRecOn with
  | nil => exact wired_init n shards
  | append_singleton es e ih =>
    have h := ih.step e
    rw [← run_concat] at h
    simpa only [stirred_concat] using h

/-! ### What the parts take for granted -/

/-- A line carries one response at most, to the message on it. -/
structure Regular (l : Line) : Prop where
  once : l.written.length ≤ 1
  unread : l.read = false → l.written = []
  answers : ∀ rsp ∈ l.written, Answers l.msg.msg rsp

theorem Wired.regular (h : Wired shards s R) {k : ℕ} {l : Line} (hl : s.lines[k]? = some l) :
    Regular l := by
  have hpending := Pending.run (freshSockets (h.sourced l.cluster l.server) (h.nodup _ _))
  have hmsg : ∀ msg, (lineSocket k, msg) ∈ readOn l.server
      (Cluster.init l.cluster (shards l.cluster)) (R l.cluster) →
        l.read = true ∧ msg = l.msg.msg := by
    intro msg hmsg
    rcases h.sourced _ _ _ hmsg with ⟨k', l', hl', hread, -, -, hx⟩ | ⟨j, -, hj⟩
    · obtain ⟨hk, rfl⟩ := Prod.mk.inj hx
      obtain rfl := lineSocket_inj hk
      rw [hl] at hl'
      obtain rfl := Option.some.inj hl'
      exact ⟨hread, rfl⟩
    · exact absurd hj (lineSocket_ne_peerSocket k j)
  have hans : ∀ rsp ∈ l.written, l.read = true ∧ Answers l.msg.msg rsp := by
    intro rsp hrsp
    rw [h.lines k l hl] at hrsp
    obtain ⟨msg, hmem, hans⟩ := (Conversing.run _ _ _ _).replies _ rsp hrsp
    obtain ⟨hread, rfl⟩ := hmsg msg hmem
    exact ⟨hread, hans⟩
  refine ⟨?_, fun hread => ?_, fun rsp hrsp => (hans rsp hrsp).2⟩
  · rw [h.lines k l hl]
    exact hpending.once _
  · refine List.eq_nil_iff_forall_not_mem.mpr fun rsp hrsp => ?_
    rw [(hans rsp hrsp).1] at hread
    cases hread

/-- The answer `r` that the `n`-th coroutine goes on with stands on a line with its request, and
has not been read before. -/
def Delivers (s : Deployment) (e : DeploymentEvent) (n : ℕ) (r : CrossShardResultType) : Prop :=
  ∃ (req : CrossShardReq) (c : ℕ) (j : Caller) (k : ℕ) (l : Line),
    s.routing.tasks[n]? = some (.prepare req c j) ∧ s.lines[k]? = some l ∧ l.cluster = c ∧
      l.msg = .crossShard req ∧ l.written = [.crossShardRsp ⟨r, req.id⟩] ∧ l.taken = false ∧
        s.takes e k = true

theorem Wired.delivers (h : Wired shards s R) {n : ℕ} {r : CrossShardResultType} {now : ℤ}
    (hr : s.routes e = some ⟨.resume n (.answer r), now⟩) : s.Delivers e n r := by
  have hroutes := hr
  unfold routes at hr
  cases he : e.action with
  | answer n' k =>
    simp only [he] at hr
    cases ht : s.routing.tasks[n']? with
    | none => simp [ht] at hr
    | some t =>
      cases hl : s.lines[k]? with
      | none => simp [ht, hl] at hr
      | some l =>
        simp only [ht, hl, Option.map_eq_some_iff] at hr
        obtain ⟨o, hrsp, hev⟩ := hr
        obtain ⟨⟨rfl, rfl⟩, -⟩ : (n' = n ∧ o = .answer r) ∧ e.now = now := by simpa using hev
        unfold response at hrsp
        split_ifs at hrsp with htaken
        have hregular := h.regular hl
        split at hrsp
        · rename_i req c j rsp hwritten
          split_ifs at hrsp with hmatch
          obtain ⟨rfl, hmsg⟩ := hmatch
          obtain ⟨rest, hcons⟩ := List.head?_eq_some_iff.mp hwritten
          have hone := hregular.once
          have hnil : rest = [] := by simpa [hcons] using hone
          subst hnil
          have hans := hregular.answers (.crossShardRsp rsp) (by simp [hcons])
          rw [hmsg, ClientMsg.msg] at hans
          cases hans with
          | crossShard req result hack =>
            obtain rfl : result = r := by simpa using hrsp
            exact ⟨req, l.cluster, j, k, l, ht, hl, rfl, hmsg, hcons, by simpa using htaken,
              by simp [takes, he, hroutes]⟩
        · split_ifs at hrsp
          simp at hrsp
        · cases hrsp
  | resume n' o =>
    simp only [he] at hr
    split at hr
    · cases hr
    · rename_i hne
      obtain ⟨⟨-, rfl⟩, -⟩ : (n' = n ∧ o = .answer r) ∧ e.now = now := by simpa using hr
      exact absurd rfl (hne r)
  | arrive k =>
    simp only [he, Option.map_eq_some_iff] at hr
    obtain ⟨m, -, hev⟩ := hr
    cases hev
  | job o =>
    simp only [he] at hr
    cases hr
  | _ =>
    simp only [he] at hr
    cases hr

/-- The whole database and its parts, along a run. -/
structure Composed (n : ℕ) (shards : ℕ → Table ℤ) (es : List DeploymentEvent) : Prop where
  routing : ((init n shards).run es).routing =
    (Routing.init n).run (routed (init n shards) es)
  clusters : ∀ c, ((init n shards).run es).clusters c =
    (Cluster.init c (shards c)).run (stirred c (init n shards) es)
  fresh : ∀ c p, FreshSockets p (Cluster.init c (shards c)) (stirred c (init n shards) es)
  regular : ∀ l ∈ ((init n shards).run es).lines, Regular l
  delivers : ∀ past e rest, es = past ++ e :: rest → ∀ n' r now,
    ((init n shards).run past).routes e = some ⟨.resume n' (.answer r), now⟩ →
      ((init n shards).run past).Delivers e n' r

/-- In every run of the whole database the service and the clusters make runs of their own, no
connection is read twice, every line carries one response at most, to the message on it, and
the answer that a coroutine goes on with has the id of its request and is read once. -/
theorem composed (n : ℕ) (shards : ℕ → Table ℤ) (es : List DeploymentEvent) :
    Composed n shards es where
  routing := routing_run _ es
  clusters := fun c => clusters_run _ es c
  fresh := fun c p =>
    freshSockets ((Wired.run n shards es).sourced c p) ((Wired.run n shards es).nodup c p)
  regular := by
    intro l hl
    obtain ⟨k, hk⟩ := List.getElem?_of_mem hl
    exact (Wired.run n shards es).regular hk
  delivers := by
    rintro past e rest - n' r now hr
    exact (Wired.run n shards past).delivers hr

end Deployment

end Raft2PC
