import Raft2PC.Spec.Database
import Raft2PC.Sanity.Heard
import Raft2PC.Sanity.Runs
import Raft2PC.Sanity.Traffic
import Raft2PC.Dispatch.Gather

/-! The word of success. The service sends it when the gather of a COMMIT is over, also when
an exception has ended it; it is true as long as no send fails before a server of each
cluster has answered. -/

namespace Raft2PC

/-- The server runs, takes part in the transfer and is told COMMIT. -/
def AIOServer.commits (sv : AIOServer) (req : CrossShardReq) : Bool :=
  !sv.pretendFail && req.phase = .commit &&
    (req.senderClusterId = sv.raftState.clusterId || req.receiverClusterId = sv.raftState.clusterId)

def Broadcast.answeredBy (b : Broadcast) (c : ℕ) : Bool :=
  b.sends.any fun x => x.cluster = c && x.answered

def Send.pending (x : Send) : Bool := x.status = .connecting || x.status = .reading

namespace Database

def commits (s : Database) (e : DatabaseEvent) (c : ℕ) (id : ℤ) : Bool :=
  match e.action with
  | .serve j i _ =>
    match s.broadcasts[j]? with
    | none => false
    | some b =>
      match b.sends[i]? with
      | none => false
      | some x =>
        x.unread && x.cluster = c && b.req.id = id &&
          ((s.clusters c).servers x.server).commits b.message
  | _ => false

/-- In the run a server of cluster `c` processes COMMIT of `id`. -/
def processed (c : ℕ) (id : ℤ) : Database → List DatabaseEvent → Bool
  | _, [] => false
  | s, e :: es => s.commits e c id || processed c id (s.step e) es

/-- A send fails only after a server of each cluster has answered, and one whose connection
is closed is not the last hope of its cluster. -/
def heeds (s : Database) (e : DatabaseEvent) : Bool :=
  match e.action with
  | .send j i m =>
    match s.broadcasts[j]? with
    | none => true
    | some b =>
      match b.sends[i]? with
      | none => true
      | some x =>
        match m with
        | .fail => !x.pending || b.sends.all fun y => b.answeredBy y.cluster
        | .close =>
          x.status ≠ .reading || b.answeredBy x.cluster ||
            (b.sends.eraseIdx i).any fun y => y.cluster = x.cluster && y.pending
        | .connect | .answer => true
  | _ => true

def Heedful : Database → List DatabaseEvent → Prop
  | _, [] => True
  | s, e :: es => s.heeds e = true ∧ Heedful (s.step e) es

instance decidableHeedful : ∀ s es, Decidable (Heedful s es)
  | _, [] => inferInstanceAs (Decidable True)
  | s, e :: es =>
    have := decidableHeedful (s.step e) es
    inferInstanceAs (Decidable (s.heeds e = true ∧ Heedful (s.step e) es))

/-- COMMIT of `id` was broadcast, and has been processed in the sender's and in the receiver's
cluster. -/
def Success (n : ℕ) (P : ℕ → ℤ → Prop) (traffic : List Traffic) (id : ℤ) : Prop :=
  ∃ req sender receiver, .commit req ∈ traffic ∧ req.id = id ∧
    Routing.pyIndex n req.senderClusterId = some sender ∧
    Routing.pyIndex n req.receiverClusterId = some receiver ∧ P sender id ∧ P receiver id

/-- Whoever was told "Transaction SUCCEED" can rely on it. -/
def Truthful (n : ℕ) (s : Database) (es : List DatabaseEvent) : Prop :=
  ∀ id, .reply id .succeed ∈ (s.run es).routing.traffic →
    Success n (fun c id => processed c id s es = true) (s.run es).routing.traffic id

end Database

/-! ### Servers -/

/-- A server answers COMMIT only by processing it. -/
theorem commits_of_answers {u : Undefined} {fd : ℤ} {sv : AIOServer} {req : CrossShardReq}
    (hreq : req.phase = .commit)
    (h : answersOn fd (AIOServer.process u fd sv (.crossShardReq req)).2 ≠ []) :
    sv.commits req = true := by
  cases hfail : sv.pretendFail with
  | true =>
    simp only [AIOServer.process, hfail, if_true] at h
    exact absurd rfl h
  | false =>
    by_cases hpart : req.senderClusterId = sv.raftState.clusterId ∨
        req.receiverClusterId = sv.raftState.clusterId
    · simp [AIOServer.commits, hfail, hreq, hpart]
    · simp only [AIOServer.process, hfail, AIOServer.dispatch, if_neg hpart] at h
      exact absurd rfl h

/-! ### Sends as calls -/

def SendStatus.abstract : SendStatus → Gather.Status
  | .connecting | .reading => .pending
  | .returned => .returned
  | .raised => .raised

def Send.call (x : Send) : Gather.Call ℕ where
  group := x.cluster
  status := x.status.abstract
  acked := x.answered

def Broadcast.calls (b : Broadcast) : List (Gather.Call ℕ) := b.sends.map Send.call

variable {b : Broadcast} {i : ℕ} {x y : Send} {n : ℕ}

theorem pending_iff : x.pending = true ↔ x.call.status = .pending := by
  cases h : x.status <;> simp [Send.pending, Send.call, SendStatus.abstract, h]

theorem acked_of_answeredBy {c : ℕ} (h : b.answeredBy c = true) : Gather.Acked b.calls c := by
  obtain ⟨x, hx, hanswered⟩ := List.any_eq_true.mp h
  simp only [Bool.and_eq_true, decide_eq_true_eq] at hanswered
  exact ⟨x.call, List.mem_map_of_mem hx, hanswered.1, hanswered.2⟩

theorem over_calls (h : b.over = true) : Gather.Over b.calls := by
  rcases Bool.or_eq_true_iff.mp h with h | h
  · obtain ⟨x, hx, hraised⟩ := List.any_eq_true.mp h
    have hstatus : x.status = .raised := of_decide_eq_true hraised
    exact Or.inl ⟨x.call, List.mem_map_of_mem hx, by rw [Send.call, hstatus]; rfl⟩
  · refine Or.inr fun z hz => ?_
    obtain ⟨x, hx, rfl⟩ := List.mem_map.mp hz
    have hstatus : x.status = .returned := of_decide_eq_true (List.all_eq_true.mp h x hx)
    rw [Send.call, hstatus]
    rfl

theorem call_setSend (i : ℕ) (y : Send) : (b.setSend i y).calls = b.calls.set i y.call :=
  List.map_set

theorem calls_getElem? (hi : b.sends[i]? = some x) : b.calls[i]? = some x.call := by
  rw [Broadcast.calls, List.getElem?_map, hi]
  rfl

theorem covered_setSend (h : Gather.Covered b.calls) (hi : b.sends[i]? = some x)
    (hx : Gather.Change b.calls i x.call y.call) : Gather.Covered (b.setSend i y).calls := by
  rw [call_setSend]
  exact h.change (calls_getElem? hi) hx

theorem change_same (hsame : y.call = x.call) : Gather.Change b.calls i x.call y.call := by
  rw [hsame]
  exact .ack x.call.acked id

theorem start_spec {req : CrossShardReq} (h : Broadcast.start n req = some b) :
    b.req = req ∧ (∀ x ∈ b.sends, x.status = .connecting ∧ x.answered = false) ∧
      ∃ sender receiver, Routing.pyIndex n req.senderClusterId = some sender ∧
        Routing.pyIndex n req.receiverClusterId = some receiver ∧
        (∃ x ∈ b.sends, x.cluster = sender) ∧ ∃ x ∈ b.sends, x.cluster = receiver := by
  unfold Broadcast.start at h
  split at h
  · rename_i sender receiver hsender hreceiver
    cases h
    have hmem : ∀ c, c = sender ∨ c = receiver → Send.start c 0 ∈
        (List.finRange SERVER_NUM_PER_CLUSTER).flatMap fun p =>
          [Send.start sender p, Send.start receiver p] := by
      intro c hc
      refine List.mem_flatMap.mpr ⟨0, List.mem_finRange 0, ?_⟩
      rcases hc with rfl | rfl
      · exact List.mem_cons_self
      · exact List.mem_cons_of_mem _ List.mem_cons_self
    refine ⟨rfl, fun x hx => ?_, sender, receiver, hsender, hreceiver,
      ⟨_, hmem sender (Or.inl rfl), rfl⟩, ⟨_, hmem receiver (Or.inr rfl), rfl⟩⟩
    obtain ⟨p, -, hp⟩ := List.mem_flatMap.mp hx
    simp only [List.mem_cons, List.not_mem_nil, or_false] at hp
    rcases hp with rfl | rfl <;> exact ⟨rfl, rfl⟩
  · cases h

/-! ### Steps -/

namespace Database

/-- A broadcast of which `P` holds: what its servers answered they have processed, and no
cluster has been given up. -/
structure Kept (n : ℕ) (P : ℕ → ℤ → Prop) (traffic : List Traffic) (b : Broadcast) : Prop where
  sent : .commit b.req ∈ traffic
  sides : ∃ sender receiver, Routing.pyIndex n b.req.senderClusterId = some sender ∧
    Routing.pyIndex n b.req.receiverClusterId = some receiver ∧
    (∃ x ∈ b.sends, x.cluster = sender) ∧ ∃ x ∈ b.sends, x.cluster = receiver
  covered : Gather.Covered b.calls
  answered : ∀ x ∈ b.sends, x.answered = true → P x.cluster b.req.id

/-- What holds of a state if `P` is what has been processed before. -/
structure Sound (n : ℕ) (P : ℕ → ℤ → Prop) (s : Database) : Prop where
  width : s.routing.service.leaderPerCluster.length = n
  kept : ∀ b ∈ s.broadcasts, Kept n P s.routing.traffic b
  recorded : ∀ id, .reply id .succeed ∈ s.routing.traffic → Success n P s.routing.traffic id

variable {n : ℕ} {P Q : ℕ → ℤ → Prop} {s : Database} {e : DatabaseEvent} {b b' : Broadcast}
  {traffic traffic' : List Traffic} {id : ℤ}

theorem Success.mono (h : Success n P traffic id) (hPQ : ∀ c id, P c id → Q c id)
    (hsub : ∀ t ∈ traffic, t ∈ traffic') : Success n Q traffic' id := by
  obtain ⟨req, sender, receiver, hreq, hid, hs, hr, hps, hpr⟩ := h
  exact ⟨req, sender, receiver, hsub _ hreq, hid, hs, hr, hPQ _ _ hps, hPQ _ _ hpr⟩

theorem Kept.mono (h : Kept n P traffic b) (hPQ : ∀ c id, P c id → Q c id)
    (hsub : ∀ t ∈ traffic, t ∈ traffic') : Kept n Q traffic' b :=
  ⟨hsub _ h.sent, h.sides, h.covered, fun x hx hanswered => hPQ _ _ (h.answered x hx hanswered)⟩

theorem Sound.mono (h : Sound n P s) (hPQ : ∀ c id, P c id → Q c id) : Sound n Q s :=
  ⟨h.width, fun b hb => (h.kept b hb).mono hPQ fun _ => id,
    fun i hi => (h.recorded i hi).mono hPQ fun _ => id⟩

/-- When its gather is over, a broadcast has been processed in both clusters. -/
theorem Kept.success (h : Kept n P traffic b) (hover : b.over = true) :
    Success n P traffic b.req.id := by
  have hacked := h.covered.acked (over_calls hover)
  have hprocessed : ∀ c, (∃ x ∈ b.sends, x.cluster = c) → P c b.req.id := by
    rintro c ⟨x, hx, rfl⟩
    obtain ⟨y, hy, hgroup, hans⟩ := hacked x.call (List.mem_map_of_mem hx)
    obtain ⟨z, hz, rfl⟩ := List.mem_map.mp hy
    have hcluster : z.cluster = x.cluster := hgroup
    rw [← hcluster]
    exact h.answered z hz hans
  obtain ⟨sender, receiver, hs, hr, hsends, hreceives⟩ := h.sides
  exact ⟨b.req, sender, receiver, h.sent, rfl, hs, hr, hprocessed _ hsends, hprocessed _ hreceives⟩

theorem kept_start {req : CrossShardReq} (hb : Broadcast.start n req = some b)
    (hreq : .commit req ∈ traffic) : Kept n P traffic b := by
  obtain ⟨hb, hfresh, hsides⟩ := start_spec hb
  rw [← hb] at hreq hsides
  refine ⟨hreq, hsides, Gather.covered_start fun z hz => ?_, fun x hx hanswered => ?_⟩
  · obtain ⟨x, hx, rfl⟩ := List.mem_map.mp hz
    rw [Send.call, (hfresh x hx).1]
    rfl
  · rw [(hfresh x hx).2] at hanswered
    cases hanswered

theorem Sound.route (h : Sound n P s) {e : RoutingEvent}
    (hsucceed : ∀ id, .reply id .succeed ∈ (s.routing.step e).traffic →
      .reply id .succeed ∈ s.routing.traffic ∨ Success n P s.routing.traffic id) :
    Sound n P (s.route e) := by
  have hgrows : Routing.Adds (fun _ => True) s.routing (s.routing.step e) :=
    Routing.adds_step ⟨fun _ _ => trivial, fun _ _ _ => trivial, fun _ => trivial, fun _ => trivial,
      fun _ => trivial⟩ s.routing e (fun _ _ _ _ _ _ _ => trivial) fun _ _ _ _ _ _ => trivial
  obtain ⟨extra, hextra, -⟩ := hgrows
  have hsub : ∀ t ∈ s.routing.traffic, t ∈ (s.routing.step e).traffic := by
    intro t ht
    rw [hextra]
    exact List.mem_append_left _ ht
  refine ⟨(Routing.breadth_step s.routing e).trans h.width, fun b hb => ?_, fun i hi => ?_⟩
  · rcases List.mem_append.mp hb with hb | hb
    · exact (h.kept b hb).mono (fun _ _ => id) hsub
    · obtain ⟨t, ht, hstart⟩ := List.mem_filterMap.mp hb
      rw [h.width] at hstart
      cases t with
      | commit req => exact kept_start hstart (List.mem_of_mem_drop ht)
      | prepare | answer | abort | reply | intra | intraReply => cases hstart
  · rcases hsucceed i hi with hold | hnew
    · exact (h.recorded i hold).mono (fun _ _ => id) hsub
    · exact hnew.mono (fun _ _ => id) hsub

theorem Sound.setBroadcast (h : Sound n P s) {j : ℕ} (hb : Kept n P s.routing.traffic b) :
    Sound n P (s.setBroadcast j b) := by
  refine ⟨h.width, fun b' hb' => ?_, h.recorded⟩
  rcases List.mem_or_eq_of_mem_set hb' with hb' | rfl
  · exact h.kept b' hb'
  · exact hb

theorem Kept.setSend (h : Kept n P traffic b) {i : ℕ} {x y : Send} (hi : b.sends[i]? = some x)
    (hcluster : y.cluster = x.cluster) (hchange : Gather.Change b.calls i x.call y.call)
    (hanswered : y.answered = true → P y.cluster b.req.id) :
    Kept n P traffic (b.setSend i y) := by
  have hside : ∀ c, (∃ z ∈ b.sends, z.cluster = c) → ∃ z ∈ b.sends.set i y, z.cluster = c := by
    rintro c ⟨z, hz, rfl⟩
    obtain ⟨k, hk⟩ := List.getElem?_of_mem hz
    by_cases hki : k = i
    · subst hki
      obtain rfl : x = z := Option.some.inj (hi.symm.trans hk)
      exact ⟨y, List.mem_set (List.getElem?_eq_some_iff.mp hk).1 y, hcluster⟩
    · refine ⟨z, List.mem_of_getElem? (i := k) ?_, rfl⟩
      rw [List.getElem?_set_ne (Ne.symm hki)]
      exact hk
  obtain ⟨sender, receiver, hs, hr, hsends, hreceives⟩ := h.sides
  refine ⟨h.sent, ⟨sender, receiver, hs, hr, hside _ hsends, hside _ hreceives⟩,
    covered_setSend h.covered hi hchange, fun z hz hz' => ?_⟩
  rcases List.mem_or_eq_of_mem_set hz with hz | rfl
  · exact h.answered z hz hz'
  · exact hanswered hz'

/-- A move on a send changes its call as `heeds` allows. -/
theorem change_move {i : ℕ} {x : Send} (hi : b.sends[i]? = some x) (m : SendMove)
    (hfail : m = .fail → x.pending = true → ∀ y ∈ b.sends, b.answeredBy y.cluster = true)
    (hclose : m = .close → x.status = .reading → b.answeredBy x.cluster = true ∨
      ∃ y ∈ b.sends.eraseIdx i, y.cluster = x.cluster ∧ y.pending = true) :
    Gather.Change b.calls i x.call (x.move m).call := by
  have hreturned : ∀ y : Send, y.call = { x.call with status := .returned } →
      (Gather.Acked b.calls x.cluster ∨ ∃ k z, k ≠ i ∧ b.calls[k]? = some z ∧ z.group = x.cluster ∧
        z.status = .pending) → Gather.Change b.calls i x.call y.call := by
    intro y hy h
    rw [hy]
    exact .returns h
  cases m with
  | connect =>
    simp only [Send.move]
    split_ifs with hstatus
    · apply change_same
      simp only [Send.call, hstatus]
      rfl
    · exact change_same rfl
  | answer =>
    simp only [Send.move]
    split_ifs with hstatus
    · refine hreturned _ rfl (Or.inl ⟨x.call, List.mem_map_of_mem (List.mem_of_getElem? hi), rfl, ?_⟩)
      exact hstatus.2
    · exact change_same rfl
  | close =>
    simp only [Send.move]
    split_ifs with hstatus
    · refine hreturned _ rfl ((hclose rfl hstatus).imp acked_of_answeredBy ?_)
      rintro ⟨y, hy, hcluster, hpending⟩
      obtain ⟨k, hk, hky⟩ := List.mem_eraseIdx_iff_getElem?.mp hy
      exact ⟨k, y.call, hk, calls_getElem? hky, hcluster, pending_iff.mp hpending⟩
    · exact change_same rfl
  | fail =>
    simp only [Send.move]
    split_ifs with hstatus
    · have hpending : x.pending = true := by
        rcases hstatus with h | h <;> simp [Send.pending, h]
      have hall : ∀ z ∈ b.calls, Gather.Acked b.calls z.group := by
        intro z hz
        obtain ⟨y, hy, rfl⟩ := List.mem_map.mp hz
        exact acked_of_answeredBy (hfail rfl hpending y hy)
      exact .raises hall
    · exact change_same rfl

theorem move_cluster (x : Send) (m : SendMove) :
    (x.move m).cluster = x.cluster ∧ (x.move m).answered = x.answered := by
  cases m <;> simp only [Send.move] <;> split_ifs <;> exact ⟨rfl, rfl⟩

theorem Sound.send (h : Sound n P s) {j i : ℕ} {m : SendMove} {x : Send}
    (hj : s.broadcasts[j]? = some b) (hi : b.sends[i]? = some x) (haction : e.action = .send j i m)
    (hok : s.heeds e = true) : Sound n P (s.setBroadcast j (b.setSend i (x.move m))) := by
  have hkept : Kept n P s.routing.traffic b := h.kept b (List.mem_of_getElem? hj)
  obtain ⟨hcluster, hanswered⟩ := move_cluster x m
  simp only [heeds, haction, hj, hi] at hok
  apply h.setBroadcast
  apply hkept.setSend hi hcluster
  · apply change_move hi
    · rintro rfl hpending y hy
      simp only [hpending, Bool.not_true, Bool.false_or, List.all_eq_true] at hok
      exact hok y hy
    · rintro rfl hstatus
      simp only [hstatus, ne_eq, not_true_eq_false, decide_false, Bool.false_or, Bool.or_eq_true,
        List.any_eq_true, Bool.and_eq_true, decide_eq_true_eq] at hok
      exact hok
  · intro hans
    rw [hcluster]
    exact hkept.answered x (List.mem_of_getElem? hi) (hanswered ▸ hans)

theorem Sound.serve (h : Sound n P s) {j i : ℕ} {fd : ℤ} {x : Send}
    (hj : s.broadcasts[j]? = some b) (hi : b.sends[i]? = some x)
    (haction : e.action = .serve j i fd) :
    Sound n (fun c id => P c id ∨ s.commits e c id = true) (s.step e) := by
  have hstay : Sound n (fun c id => P c id ∨ s.commits e c id = true) s :=
    h.mono fun _ _ => Or.inl
  simp only [step, haction, hj, hi]
  cases hunread : x.unread with
  | false => exact hstay
  | true =>
    rw [if_pos rfl]
    have hkept := hstay.kept b (List.mem_of_getElem? hj)
    obtain ⟨acts, hacts⟩ : ∃ acts, acts =
        (s.clusters x.cluster).emits (readEvent e x.server fd b.message) x.server := ⟨_, rfl⟩
    have hprocess : acts = (AIOServer.process e.undef fd ((s.clusters x.cluster).servers x.server)
        (.crossShardReq b.message)).2 := hacts.trans (if_pos rfl)
    rw [← hacts]
    apply Sound.setBroadcast (s := s.stepCluster x.cluster (readEvent e x.server fd b.message))
      ⟨hstay.width, hstay.kept, hstay.recorded⟩
    apply hkept.setSend hi
    · rfl
    · exact .ack (x := x.call) (x.answered || answersOn fd acts ≠ []) fun hx => by
        rw [show x.answered = true from hx, Bool.true_or]
    · intro hanswered
      rcases Bool.or_eq_true_iff.mp hanswered with hold | hnew
      · exact hkept.answered x (List.mem_of_getElem? hi) hold
      · have hanswers : answersOn fd acts ≠ [] := of_decide_eq_true hnew
        rw [hprocess] at hanswers
        have hphase : b.message.phase = .commit := rfl
        have hcommits := commits_of_answers hphase hanswers
        refine Or.inr ?_
        simp [commits, haction, hj, hi, hunread, hcommits]

/-- No word of success comes from a step that leaves the coroutines of COMMIT waiting. -/
theorem succeed_old {a : RoutingAction} (ha : s.awaitsCommit a = false) (now : ℤ)
    (h : .reply id .succeed ∈ (s.routing.step ⟨a, now⟩).traffic) :
    .reply id .succeed ∈ s.routing.traffic := by
  have husual : Routing.Usual fun t => t ≠ .reply id .succeed := by
    refine ⟨fun t ht h => ?_, fun _ _ _ => nofun, fun _ => nofun, fun _ => nofun, fun _ => nofun⟩
    rw [h] at ht
    cases ht
  obtain ⟨extra, hextra, hno⟩ := Routing.adds_step husual s.routing ⟨a, now⟩
    (fun _ _ _ _ _ _ _ => nofun) fun m o req k hm ht => by
      obtain rfl : a = .resume m o := hm
      simp [awaitsCommit, ht, Task.isCommit] at ha
  rw [hextra] at h
  rcases List.mem_append.mp h with h | h
  · exact h
  · exact absurd rfl (hno _ h)

theorem Sound.step (h : Sound n P s) (hok : s.heeds e = true) :
    Sound n (fun c id => P c id ∨ s.commits e c id = true) (s.step e) := by
  have hstay : Sound n (fun c id => P c id ∨ s.commits e c id = true) s :=
    h.mono fun _ _ => Or.inl
  cases haction : e.action with
  | routing a =>
    simp only [Database.step, haction]
    cases ha : s.awaitsCommit a with
    | true => exact hstay
    | false => exact hstay.route fun id hid => Or.inl (succeed_old ha e.now hid)
  | gathered m j =>
    simp only [Database.step, haction]
    split
    · rename_i req k b hm hj
      split_ifs with hover
      · obtain ⟨rfl, hover, -⟩ := hover
        have hkept := hstay.kept b (List.mem_of_getElem? hj)
        have htraffic : (s.routing.step ⟨.resume m .returns, e.now⟩).traffic =
            s.routing.traffic ++ [.reply b.req.id .succeed] := by
          simp only [Routing.step, hm]
          rfl
        have hroute := hstay.route (e := ⟨.resume m .returns, e.now⟩) fun id hid => by
          rw [htraffic] at hid
          rcases List.mem_append.mp hid with hid | hid
          · exact Or.inl hid
          · obtain ⟨rfl, -⟩ := Traffic.reply.inj (List.mem_singleton.mp hid)
            exact Or.inr (hkept.success hover)
        have hafter := hroute.kept b (List.mem_append_left _ (List.mem_of_getElem? hj))
        exact hroute.setBroadcast ⟨hafter.sent, hafter.sides, hafter.covered, hafter.answered⟩
      · exact hstay
    · exact hstay
  | send j i m =>
    simp only [Database.step, haction]
    cases hj : s.broadcasts[j]? with
    | none => exact hstay
    | some b =>
      cases hi : b.sends[i]? with
      | none =>
        simp only [hi]
        exact hstay
      | some x =>
        simp only [hi]
        exact hstay.send hj hi haction hok
  | serve j i fd =>
    cases hj : s.broadcasts[j]? with
    | none =>
      simp only [Database.step, haction, hj]
      exact hstay
    | some b =>
      cases hi : b.sends[i]? with
      | none =>
        simp only [Database.step, haction, hj, hi]
        exact hstay
      | some x => exact h.serve hj hi haction
  | cluster c a =>
    simp only [Database.step, haction]
    split_ifs
    · exact hstay
    · exact ⟨hstay.width, hstay.kept, hstay.recorded⟩

theorem sound_init (n : ℕ) (shards : ℕ → Table ℤ) :
    Sound n (fun _ _ => False) (Database.init n shards) :=
  ⟨List.length_replicate, fun _ hb => absurd hb List.not_mem_nil,
    fun _ hid => absurd hid List.not_mem_nil⟩

theorem Sound.run (h : Sound n P s) {es : List DatabaseEvent} (hok : Heedful s es) :
    Sound n (fun c id => P c id ∨ processed c id s es = true) (s.run es) := by
  induction es generalizing s P with
  | nil => exact h.mono fun _ _ => Or.inl
  | cons e es ih =>
    obtain ⟨he, hrest⟩ := hok
    apply (ih (h.step he) hrest).mono
    intro c id hc
    rw [processed, Bool.or_eq_true]
    exact or_assoc.mp hc

end Database

open Database

/-- In every run whose sends fail late enough, a reported success is a recorded one: COMMIT
has been processed in both clusters. -/
theorem success_recorded (n : ℕ) (shards : ℕ → Table ℤ) (es : List DatabaseEvent)
    (hok : Heedful (Database.init n shards) es) : Truthful n (Database.init n shards) es := by
  have hsound := (sound_init n shards).run hok
  intro id hid
  apply (hsound.recorded id hid).mono _ fun _ ht => ht
  intro c i hc
  exact hc.resolve_left not_false

def twoClusters : Database := Database.init 2 fun _ => ∅

def atOnce (actions : List DatabaseAction) : List DatabaseEvent :=
  actions.map fun a => ⟨a, 0, .zero⟩

/-- Both clusters vote YES, and COMMIT is broadcast. -/
def untilCommit : List DatabaseAction :=
  [.routing (.handle (.appendEntriesReq 0)), .routing (.handle (.appendEntriesReq 3)),
    .routing (.handle (.crossShardReq acrossShards)), .routing (.resume 0 (.answer .yes)),
    .routing (.resume 0 (.answer .yes))]

/-- All servers are stopped, and the first send times out. -/
def serversStopped : List DatabaseEvent :=
  atOnce (untilCommit ++ [.cluster 0 (.request 0 7 (.stop ⟨0, 0⟩)),
    .cluster 0 (.request 1 7 (.stop ⟨0, 1⟩)), .cluster 0 (.request 2 7 (.stop ⟨0, 2⟩)),
    .cluster 1 (.request 0 7 (.stop ⟨1, 3⟩)), .cluster 1 (.request 1 7 (.stop ⟨1, 4⟩)),
    .cluster 1 (.request 2 7 (.stop ⟨1, 5⟩)), .send 0 0 .connect, .serve 0 0 8, .send 0 0 .fail,
    .gathered 0 0])

theorem success_unrecorded :
    .reply 1 .succeed ∈ (twoClusters.run serversStopped).routing.traffic ∧
      ¬Truthful 2 twoClusters serversStopped := by
  have hsucceed : .reply 1 .succeed ∈ (twoClusters.run serversStopped).routing.traffic := by
    decide +kernel
  refine ⟨hsucceed, fun h => ?_⟩
  obtain ⟨req, sender, receiver, -, -, hsender, -, hprocessed, -⟩ := h 1 hsucceed
  have hlt : sender < 2 := Routing.pyIndex_lt hsender
  have hnever : ∀ c < 2, processed c 1 twoClusters serversStopped = false := by decide +kernel
  rw [hnever sender hlt] at hprocessed
  cases hprocessed

/-- A server of each cluster answers; then another does not. -/
def oneOfEach : List DatabaseEvent :=
  atOnce (untilCommit ++ [.send 0 0 .connect, .serve 0 0 8, .send 0 0 .answer, .send 0 1 .connect,
    .serve 0 1 8, .send 0 2 .fail, .gathered 0 0])

theorem success_recorded_both :
    .reply 1 .succeed ∈ (twoClusters.run oneOfEach).routing.traffic ∧
      Truthful 2 twoClusters oneOfEach :=
  ⟨by decide +kernel, success_recorded 2 (fun _ => ∅) oneOfEach (by decide +kernel)⟩

end Raft2PC
