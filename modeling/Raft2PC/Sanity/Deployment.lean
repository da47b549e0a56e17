import Raft2PC.Proofs.OneAnswer
import Raft2PC.Spec.Deployment

/-! A run of the whole database is a run of the routing service and, for each cluster, a run of
the cluster. What a step does to the connections between them. -/

namespace Raft2PC

theorem modify_eq_mapIdx {α : Type} (L : List α) (k : ℕ) (f : α → α) :
    L.modify k f = L.mapIdx fun i x => if i = k then f x else x := by
  apply List.ext_getElem?
  intro i
  rw [List.getElem?_modify, List.getElem?_mapIdx]
  cases L[i]? with
  | none => rfl
  | some x => simp only [Option.map_some, Option.map_eq_map, eq_comm]

namespace Deployment

variable {s : Deployment} {e : DeploymentEvent} {es : List DeploymentEvent} {c : ℕ}

/-! ### The parts of a step -/

/-- What a step is for cluster `c`. -/
def stirsIn (s : Deployment) (e : DeploymentEvent) (c : ℕ) : Option Event :=
  (s.stirs e).bind fun x => if x.1 = c then some x.2 else none

/-- The step reads the response on line `k`. -/
def takes (s : Deployment) (e : DeploymentEvent) (k : ℕ) : Bool :=
  match e.action with
  | .answer _ k' => k = k' && (s.routes e).isSome
  | _ => false

/-- What the server of line `k` writes to it in a step. -/
def writes (s : Deployment) (e : DeploymentEvent) (k : ℕ) (l : Line) : List WrapperMessage :=
  (s.stirsIn e l.cluster).elim [] fun x =>
    answersOn (lineSocket k) ((s.clusters l.cluster).emits x l.server)

/-- Line `k` after a step. -/
def Line.next (s : Deployment) (e : DeploymentEvent) (k : ℕ) (l : Line) : Line :=
  { l with
    read := l.read || e.action = .read k
    written := l.written ++ s.writes e k l
    taken := l.taken || s.takes e k }

/-- The lines that a command opens. -/
def commandOpens (s : Deployment) (e : DeploymentEvent) : List Line :=
  match e.action with
  | .command c => (Client.sends s.numCluster c).flatMap (Outgoing.lines s.numCluster)
  | _ => []

/-- What the service sends in a step. -/
def sent (s : Deployment) (e : DeploymentEvent) : List Traffic :=
  (s.routes e).elim [] fun r => (s.routing.step r).traffic.drop s.routing.traffic.length

/-- The lines that a step opens. -/
def opens (s : Deployment) (e : DeploymentEvent) : List Line :=
  s.commandOpens e ++ (s.sent e).flatMap (Traffic.lines s.numCluster)

@[simp] theorem routing_take (s : Deployment) (e : DeploymentEvent) :
    (s.take e).routing = s.routing := by
  unfold take
  split
  case h_3 => split_ifs <;> rfl
  all_goals rfl

@[simp] theorem clusters_take (s : Deployment) (e : DeploymentEvent) :
    (s.take e).clusters = s.clusters := by
  unfold take
  split
  case h_3 => split_ifs <;> rfl
  all_goals rfl

/-- No step is one of the service and of a cluster. -/
theorem routes_of_stirs (h : s.stirs e ≠ none) : s.routes e = none := by
  unfold stirs at h
  unfold routes
  split at h <;> simp_all

theorem step_routed {r : RoutingEvent} (h : s.routes e = some r) :
    s.step e = (s.take e).route r := by
  simp only [step, h]

theorem step_stirred {x : Event} (h : s.stirs e = some (c, x)) :
    s.step e = (s.take e).stir c x := by
  have hno := routes_of_stirs (s := s) (e := e) (by simp [h])
  simp only [step, h, hno]

theorem step_neither (h : s.routes e = none) (h' : s.stirs e = none) : s.step e = s.take e := by
  simp only [step, h, h']

theorem routing_step (s : Deployment) (e : DeploymentEvent) :
    (s.step e).routing = s.routing.run (s.routes e).toList := by
  cases h : s.routes e with
  | some r =>
    rw [step_routed h, route, routing_take]
    rfl
  | none =>
    cases h' : s.stirs e with
    | some x =>
      rw [step_stirred h', stir, routing_take]
      rfl
    | none =>
      rw [step_neither h h', routing_take]
      rfl

theorem clusters_step (s : Deployment) (e : DeploymentEvent) (c : ℕ) :
    (s.step e).clusters c = (s.clusters c).run (s.stirsIn e c).toList := by
  cases h : s.stirs e with
  | some x =>
    rw [step_stirred h, stir, stirsIn, h, Option.bind_some]
    by_cases hc : x.1 = c
    · subst hc
      rw [if_pos rfl, clusters_take]
      exact Function.update_self _ _ _
    · rw [if_neg hc, clusters_take]
      exact Function.update_of_ne (Ne.symm hc) _ _
  | none =>
    have hsame : (s.step e).clusters = s.clusters := by
      cases h' : s.routes e with
      | some r => rw [step_routed h', route, clusters_take]
      | none => rw [step_neither h' h, clusters_take]
    rw [hsame, stirsIn, h]
    rfl

/-! ### Runs -/

/-- What a run is for the service. -/
def routed : Deployment → List DeploymentEvent → List RoutingEvent
  | _, [] => []
  | s, e :: es => (s.routes e).toList ++ routed (s.step e) es

/-- What a run is for cluster `c`. -/
def stirred (c : ℕ) : Deployment → List DeploymentEvent → List Event
  | _, [] => []
  | s, e :: es => (s.stirsIn e c).toList ++ stirred c (s.step e) es

theorem routing_run (s : Deployment) (es : List DeploymentEvent) :
    (s.run es).routing = s.routing.run (routed s es) := by
  induction es generalizing s with
  | nil => rfl
  | cons e es ih =>
    have hrest : (s.run (e :: es)).routing = (s.step e).routing.run (routed (s.step e) es) :=
      ih (s.step e)
    rw [hrest, routing_step, routed, Routing.run, Routing.run, Routing.run, ← List.foldl_append]

theorem clusters_run (s : Deployment) (es : List DeploymentEvent) (c : ℕ) :
    (s.run es).clusters c = (s.clusters c).run (stirred c s es) := by
  induction es generalizing s with
  | nil => rfl
  | cons e es ih =>
    have hrest : (s.run (e :: es)).clusters c =
        ((s.step e).clusters c).run (stirred c (s.step e) es) := ih (s.step e)
    rw [hrest, clusters_step, stirred, Cluster.run_append]

theorem run_append (s : Deployment) (past es : List DeploymentEvent) :
    s.run (past ++ es) = (s.run past).run es := List.foldl_append

theorem run_concat (s : Deployment) (es : List DeploymentEvent) (e : DeploymentEvent) :
    s.run (es ++ [e]) = (s.run es).step e := by
  rw [run_append]
  rfl

theorem stirred_append (c : ℕ) (s : Deployment) (past es : List DeploymentEvent) :
    stirred c s (past ++ es) = stirred c s past ++ stirred c (s.run past) es := by
  induction past generalizing s with
  | nil => rfl
  | cons e past ih =>
    rw [List.cons_append, stirred, stirred, ih, List.append_assoc]
    rfl

theorem stirred_concat (c : ℕ) (s : Deployment) (es : List DeploymentEvent) (e : DeploymentEvent) :
    stirred c s (es ++ [e]) = stirred c s es ++ ((s.run es).stirsIn e c).toList := by
  rw [stirred_append, stirred, stirred, List.append_nil]

/-! ### Lines -/

/-- Line `k` after what a step takes from it. -/
def Line.touch (s : Deployment) (e : DeploymentEvent) (k : ℕ) (l : Line) : Line :=
  { l with
    read := l.read || e.action = .read k
    taken := l.taken || s.takes e k }

theorem mapIdx_same {f : ℕ → Line → Line} (hf : ∀ k l, f k l = l) (L : List Line) :
    L.mapIdx f = L := by
  apply List.ext_getElem?
  intro k
  rw [List.getElem?_mapIdx]
  cases L[k]? with
  | none => rfl
  | some l => rw [Option.map_some, hf]

theorem lines_take (s : Deployment) (e : DeploymentEvent) :
    (s.take e).lines = s.lines.mapIdx (Line.touch s e) ++ s.commandOpens e := by
  have hmodify : ∀ (k : ℕ) (f : Line → Line),
      (∀ i l, (if i = k then f l else l) = Line.touch s e i l) →
        s.lines.modify k f = s.lines.mapIdx (Line.touch s e) := by
    intro k f hf
    rw [modify_eq_mapIdx]
    exact congrArg (s.lines.mapIdx ·) (funext₂ hf)
  unfold take commandOpens
  cases he : e.action with
  | answer n k =>
    dsimp only
    rw [List.append_nil]
    split_ifs with h
    · exact (mapIdx_same (fun i l => by simp [Line.touch, takes, he, h]) _).symm
    · refine hmodify k _ fun i l => ?_
      have hsome : (s.routes e).isSome = true := Option.isSome_iff_ne_none.mpr h
      split_ifs with hi
      · simp [Line.touch, takes, he, hi, hsome]
      · simp [Line.touch, takes, he, hi]
  | read k =>
    dsimp only
    rw [List.append_nil]
    refine hmodify k _ fun i l => ?_
    split_ifs with hi
    · simp [Line.touch, takes, he, hi]
    · simp [Line.touch, takes, he, Ne.symm hi]
  | command c => rw [mapIdx_same fun i l => by simp [Line.touch, takes, he]]
  | _ =>
    rw [mapIdx_same fun i l => by simp [Line.touch, takes, he]]
    simp

theorem writes_of_stirs_none (h : s.stirs e = none) (k : ℕ) (l : Line) : s.writes e k l = [] := by
  rw [writes, stirsIn, h]
  rfl

theorem next_of_stirs_none (h : s.stirs e = none) : Line.next s e = Line.touch s e := by
  funext k l
  rw [Line.next, writes_of_stirs_none h, List.append_nil, Line.touch]

theorem commandOpens_of_routes {r : RoutingEvent} (h : s.routes e = some r) :
    s.commandOpens e = [] := by
  unfold commandOpens
  cases he : e.action with
  | command c => simp [routes, he] at h
  | _ => rfl

theorem commandOpens_of_stirs {x : ℕ × Event} (h : s.stirs e = some x) :
    s.commandOpens e = [] := by
  unfold commandOpens
  cases he : e.action with
  | command c => simp [stirs, he] at h
  | _ => rfl

/-- The lines after a step. -/
theorem lines_step (s : Deployment) (e : DeploymentEvent) :
    (s.step e).lines = s.lines.mapIdx (Line.next s e) ++ s.opens e := by
  cases h : s.routes e with
  | some r =>
    have hno : s.stirs e = none := by
      by_contra hne
      rw [routes_of_stirs hne] at h
      cases h
    have hnum : (s.take e).numCluster = s.numCluster := by rw [numCluster, routing_take, numCluster]
    rw [step_routed h, route, routing_take, hnum, next_of_stirs_none hno, opens, sent, h,
      Option.elim_some]
    dsimp only
    rw [lines_take, commandOpens_of_routes h, List.append_nil, List.nil_append]
  | none =>
    rw [opens, sent, h, Option.elim_none, List.flatMap_nil, List.append_nil]
    cases h' : s.stirs e with
    | none => rw [step_neither h h', lines_take, next_of_stirs_none h']
    | some x =>
      rw [step_stirred h', stir, clusters_take]
      dsimp only
      rw [lines_take, commandOpens_of_stirs h', List.append_nil, List.append_nil]
      apply List.ext_getElem?
      intro k
      rw [List.getElem?_mapIdx, List.getElem?_mapIdx, List.getElem?_mapIdx]
      cases s.lines[k]? with
      | none => rfl
      | some l =>
        simp only [Option.map_some, Option.some.injEq, Line.next, Line.after, Line.touch, writes,
          stirsIn, h', Option.bind_some]
        by_cases hc : l.cluster = x.1
        · simp [hc]
        · rw [if_neg hc, if_neg (Ne.symm hc), Option.elim_none, List.append_nil]

/-- A line after a step is an old one or one that the step has opened. -/
theorem line_step {k : ℕ} {l : Line} (h : (s.step e).lines[k]? = some l) :
    (∃ l₀, s.lines[k]? = some l₀ ∧ l = Line.next s e k l₀) ∨
      s.lines.length ≤ k ∧ l ∈ s.opens e := by
  rw [lines_step] at h
  rcases lt_or_ge k s.lines.length with hk | hk
  · rw [List.getElem?_append_left (by simpa using hk), List.getElem?_mapIdx] at h
    obtain ⟨l₀, hl₀, rfl⟩ := Option.map_eq_some_iff.mp h
    exact Or.inl ⟨l₀, hl₀, rfl⟩
  · rw [List.getElem?_append_right (by simpa using hk)] at h
    exact Or.inr ⟨hk, List.mem_of_getElem? h⟩

theorem line_kept {k : ℕ} {l : Line} (h : s.lines[k]? = some l) :
    (s.step e).lines[k]? = some (Line.next s e k l) := by
  have hk := (List.getElem?_eq_some_iff.mp h).1
  rw [lines_step, List.getElem?_append_left (by simpa using hk), List.getElem?_mapIdx, h]
  rfl

/-- A line that is opened has carried nothing. -/
theorem unused_of_opens {l : Line} (h : l ∈ s.opens e) : ∃ c p m, l = .open_ c p m := by
  have hbroadcast : ∀ n phase req, ∀ l ∈ broadcastLines n phase req,
      ∃ c p m, l = Line.open_ c p m := by
    intro n phase req l hl
    unfold broadcastLines at hl
    cases hb : Broadcast.start n req with
    | none => simp [hb] at hl
    | some b =>
      simp only [hb, Option.elim_some, List.mem_map] at hl
      obtain ⟨x, -, rfl⟩ := hl
      exact ⟨_, _, _, rfl⟩
  rcases List.mem_append.mp h with h | h
  · unfold commandOpens at h
    cases he : e.action with
    | command c =>
      simp only [he, List.mem_flatMap] at h
      obtain ⟨o, -, hl⟩ := h
      unfold Outgoing.lines at hl
      cases hc : Routing.pyIndex s.numCluster o.cluster with
      | none => simp [hc] at hl
      | some c =>
        rw [hc] at hl
        exact ⟨_, _, _, List.mem_singleton.mp hl⟩
    | _ => simp [he] at h
  · obtain ⟨t, -, hl⟩ := List.mem_flatMap.mp h
    cases t with
    | prepare req c server => exact ⟨_, _, _, List.mem_singleton.mp hl⟩
    | intra req server =>
      simp only [Traffic.lines] at hl
      cases hc : Routing.pyIndex s.numCluster req.clusterId with
      | none => simp [hc] at hl
      | some c =>
        rw [hc] at hl
        exact ⟨_, _, _, List.mem_singleton.mp hl⟩
    | commit req => exact hbroadcast _ _ _ l hl
    | abort req => exact hbroadcast _ _ _ l hl
    | answer | reply | intraReply => cases hl

end Deployment

end Raft2PC
