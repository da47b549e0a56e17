import Raft2PC.Spec.RoutingService
import Raft2PC.Sanity.Tables

/-! What a step of the routing service does for one transaction: its counter, its traffic
and the coroutines that are about to reply to its client or to mark it as aborted. -/

namespace Raft2PC

namespace Traffic

def isYes (id : ℤ) : Traffic → Bool
  | .answer req _ .yes => req.id = id
  | _ => false

def isCommit (id : ℤ) : Traffic → Bool
  | .commit req => req.id = id
  | _ => false

def isAbort (id : ℤ) : Traffic → Bool
  | .abort req => req.id = id
  | _ => false

def isReply (id : ℤ) : Traffic → Bool
  | .reply i _ => i = id
  | _ => false

end Traffic

/-- The coroutine will tell the client of `id` how the transaction ended. -/
def Task.writes (id : ℤ) : Task → Bool
  | .commit req _ | .abort req _ _ => req.id = id
  | _ => false

/-- The coroutine will set the counter of `id` to -1. -/
def Task.marks (id : ℤ) : Task → Bool
  | .abort req _ _ | .aborted req _ _ => req.id = id
  | _ => false

def Job.writes (id : ℤ) : Job → Bool
  | .abort _ _ _ req => req.id = id
  | _ => false

def Job.marks (id : ℤ) : Job → Bool
  | .abort _ _ _ req | .aborted _ _ _ req => req.id = id
  | _ => false

/-- The part of the state that concerns one transaction. -/
@[ext] structure View where
  num : ℤ
  yes : ℕ
  commits : ℕ
  aborts : ℕ
  replies : ℕ
  writers : ℕ
  markers : ℕ

/-- What can happen to a transaction: a YES, something that speaks for ABORT (NO, a timeout,
the expiry of its request in a queue), or the mark -1 that ends a broadcast of ABORT. -/
inductive Input where
  | yes
  | no
  | marked
deriving DecidableEq, Repr

/-- What a step makes of the view of a transaction, given the input it brings. -/
inductive Effect : View → Option Input → View → Prop
  | quiet (v : View) : Effect v none v
  | counted (v : View) (h : v.num + 1 ≠ 2) :
      Effect v (some .yes) { v with num := v.num + 1, yes := v.yes + 1 }
  | committed (v : View) (h : v.num + 1 = 2) :
      Effect v (some .yes)
        { v with
          num := v.num + 1
          yes := v.yes + 1
          commits := v.commits + 1
          writers := v.writers + 1 }
  | refused (v : View) (h : v.num = -1) : Effect v (some .no) v
  | aborted (v : View) (h : v.num ≠ -1) :
      Effect v (some .no)
        { v with
          aborts := v.aborts + 1
          writers := v.writers + 1
          markers := v.markers + 1 }
  | replied (v : View) :
      Effect { v with writers := v.writers + 1 } none { v with replies := v.replies + 1 }
  | marked (v : View) :
      Effect { v with markers := v.markers + 1 } (some .marked) { v with num := -1 }
  | dropped (v : View) : Effect { v with markers := v.markers + 1 } none v

namespace Routing

def view (s : Routing) (id : ℤ) : View where
  num := s.numReply id
  yes := s.traffic.countP (Traffic.isYes id)
  commits := s.traffic.countP (Traffic.isCommit id)
  aborts := s.traffic.countP (Traffic.isAbort id)
  replies := s.traffic.countP (Traffic.isReply id)
  writers := s.tasks.countP (Task.writes id) + (s.job.writes id).toNat
  markers := s.tasks.countP (Task.marks id) + (s.job.marks id).toNat

variable (s : Routing) (id : ℤ)

/-! ### Views of the primitives -/

@[simp] theorem view_setLeader (c : ℕ) (serverId : ℤ) :
    (s.setLeader c serverId).view id = s.view id := rfl

@[simp] theorem view_setQueue (c : ℕ) (q : List Queued) : (s.setQueue c q).view id = s.view id :=
  rfl

@[simp] theorem view_enqueue (c : ℕ) (r : Request) (now : ℤ) :
    (s.enqueue c r now).view id = s.view id := rfl

@[simp] theorem view_newId : s.newId.view id = s.view id := rfl

theorem numReply_setNumReply (i n : ℤ) :
    (s.setNumReply i n).numReply id = if id = i then n else s.numReply id :=
  Table.get_insert _ _ _ _

theorem view_setNumReply (i n : ℤ) : (s.setNumReply i n).view id =
    { s.view id with num := if id = i then n else (s.view id).num } := by
  unfold view
  rw [numReply_setNumReply]
  rfl

theorem view_record (t : Traffic) : (s.record t).view id =
    { s.view id with
      yes := (s.view id).yes + (t.isYes id).toNat
      commits := (s.view id).commits + (t.isCommit id).toNat
      aborts := (s.view id).aborts + (t.isAbort id).toNat
      replies := (s.view id).replies + (t.isReply id).toNat } := by
  have hcount : ∀ p : Traffic → Bool, (s.record t).traffic.countP p =
      s.traffic.countP p + (p t).toNat := by
    intro p
    rw [record, List.countP_append, List.countP_singleton]
    cases p t <;> rfl
  unfold view
  rw [hcount, hcount, hcount, hcount]
  rfl

theorem view_await (t : Task) : (s.await t).view id =
    { s.view id with
      writers := (s.view id).writers + (t.writes id).toNat
      markers := (s.view id).markers + (t.marks id).toNat } := by
  have hcount : ∀ (p : Task → Bool) (j : ℕ), (s.await t).tasks.countP p + j =
      s.tasks.countP p + j + (p t).toNat := by
    intro p j
    rw [await, List.countP_append, List.countP_singleton]
    cases p t with
    | true => simp only [if_true, Bool.toNat_true]; omega
    | false => rfl
  unfold view
  rw [show (s.await t).job = s.job from rfl, hcount, hcount]
  rfl

@[simp] theorem view_redirectCross (req : CrossShardReq) (c : ℕ) (k : Caller) :
    (s.redirectCross req c k).view id = s.view id := by
  rw [redirectCross, view_await, view_record]
  rfl

@[simp] theorem view_redirectIntra (req : IntraShardReq) (c : ℕ) (k : Caller) :
    (s.redirectIntra req c k).view id = s.view id := by
  rw [redirectIntra, view_await, view_record]
  rfl

@[simp] theorem view_return (now : ℤ) (k : Caller) : (s.return_ now k).view id = s.view id := by
  cases k with
  | done => rfl
  | receiver req c hasLeader =>
    cases hasLeader with
    | true => exact view_redirectCross s id req c _
    | false => rfl
  | pending c rest =>
    match rest with
    | [] => rfl
    | ⟨.intra req, t⟩ :: rest => exact view_redirectIntra s id req c _
    | ⟨.cross req, t⟩ :: rest => exact view_redirectCross s id req c _

/-- A task that runs again no longer counts. -/
theorem view_wake {n : ℕ} {t : Task} (ht : s.tasks[n]? = some t) : s.view id =
    { (s.wake n).view id with
      writers := ((s.wake n).view id).writers + (t.writes id).toNat
      markers := ((s.wake n).view id).markers + (t.marks id).toNat } := by
  obtain ⟨hn, rfl⟩ := List.getElem?_eq_some_iff.mp ht
  have hcount : ∀ (p : Task → Bool) (j : ℕ), s.tasks.countP p + j =
      (s.tasks.eraseIdx n).countP p + j + (p s.tasks[n]).toNat := by
    intro p j
    rw [← (List.getElem_cons_eraseIdx_perm hn).countP_eq p, List.countP_cons]
    cases p s.tasks[n] with
    | true => simp only [if_true, Bool.toNat_true]; omega
    | false => rfl
  unfold view
  rw [hcount (Task.writes id), hcount (Task.marks id)]
  rfl

/-! ### Views after a step -/

/-- The input of a step, with the transaction it is for. -/
def input (e : RoutingEvent) : Option (ℤ × Input) :=
  match e.action with
  | .handle _ => none
  | .resume n o =>
    match s.tasks[n]?, o with
    | some (.prepare req _ _), .answer .yes => some (req.id, .yes)
    | some (.prepare req _ _), .answer .no => some (req.id, .no)
    | some (.prepare req _ _), .timeout => some (req.id, .no)
    | some (.aborted req _ _), o => if o = .raises then none else some (req.id, .marked)
    | _, _ => none
  | .job o =>
    match s.job with
    | .scan _ (⟨.cross req, time⟩ :: _) _ =>
      if e.now - time < 3000 then none else some (req.id, .no)
    | .aborted _ _ _ req => if o = .raises then none else some (req.id, .marked)
    | _ => none

/-- The part of an input that is for transaction `id`. -/
def forId (x : Option (ℤ × Input)) : Option Input :=
  match x with
  | some (i, a) => if i = id then some a else none
  | none => none

theorem view_handle (now : ℤ) (m : Incoming)
    (hfresh : ∀ i, s.service.transactionId < i → s.numReply i = 0) :
    (s.handle now m).view id = s.view id := by
  cases m with
  | appendEntriesReq leaderId =>
    simp only [handle]
    split
    · rfl
    · split_ifs <;> simp
  | requestVoteReq candidateId =>
    simp only [handle]
    split <;> rfl
  | intraShardReq req =>
    simp only [handle]
    split
    · rfl
    · split_ifs <;> simp
  | crossShardReq req =>
    have hzero : (s.newId.setNumReply s.newId.service.transactionId 0).view id = s.view id := by
      have hnew := hfresh (s.service.transactionId + 1) (by omega)
      rw [view_setNumReply, view_newId]
      split_ifs with hid
      · subst hid
        have hnum : (s.view s.newId.service.transactionId).num = 0 := hnew
        rw [← hnum]
      · rfl
    simp only [handle]
    split
    · split_ifs <;> simp [hzero]
    · exact hzero

theorem view_countYes (req : CrossShardReq) (c : ℕ) :
    ((s.record (.answer req c .yes)).setNumReply req.id (s.numReply req.id + 1)).view id =
      if req.id = id then
        { s.view id with num := (s.view id).num + 1, yes := (s.view id).yes + 1 }
      else s.view id := by
  rw [view_setNumReply, view_record]
  by_cases hid : req.id = id
  · subst hid
    simp [Traffic.isYes, Traffic.isCommit, Traffic.isAbort, Traffic.isReply]
    rfl
  · simp [Traffic.isYes, Traffic.isCommit, Traffic.isAbort, Traffic.isReply, hid, Ne.symm hid]

theorem view_broadcastCommit (req : CrossShardReq) (k : Caller) :
    ((s.record (.commit req)).await (.commit req k)).view id =
      if req.id = id then
        { s.view id with
          commits := (s.view id).commits + 1
          writers := (s.view id).writers + 1 }
      else s.view id := by
  rw [view_await, view_record]
  by_cases hid : req.id = id <;>
    simp [Traffic.isYes, Traffic.isCommit, Traffic.isAbort, Traffic.isReply, Task.writes,
      Task.marks, hid]

theorem view_broadcastAbort (req : CrossShardReq) (timedOut : Bool) (k : Caller) :
    ((s.record (.abort req)).await (.abort req timedOut k)).view id =
      if req.id = id then
        { s.view id with
          aborts := (s.view id).aborts + 1
          writers := (s.view id).writers + 1
          markers := (s.view id).markers + 1 }
      else s.view id := by
  rw [view_await, view_record]
  by_cases hid : req.id = id <;>
    simp [Traffic.isYes, Traffic.isCommit, Traffic.isAbort, Traffic.isReply, Task.writes,
      Task.marks, hid]

theorem view_mark (i : ℤ) : (s.setNumReply i (-1)).view id =
    if i = id then { s.view id with num := -1 } else s.view id := by
  rw [view_setNumReply]
  by_cases hid : i = id
  · simp [hid]
  · simp [hid, Ne.symm hid]

theorem view_otherAnswer (req : CrossShardReq) (c : ℕ) {r : CrossShardResultType} (hr : r ≠ .yes) :
    (s.record (.answer req c r)).view id = s.view id := by
  rw [view_record]
  cases r with
  | yes => exact absurd rfl hr
  | no | ack => rfl

/-- NO and a timeout: ABORT unless the transaction is marked. -/
theorem effect_no (req : CrossShardReq) {a b : Routing}
    (ha : s.numReply req.id ≠ -1 → ∃ timedOut k,
      a.view id = ((s.record (.abort req)).await (.abort req timedOut k)).view id)
    (hb : b.view id = (s.setNumReply req.id (-1)).view id) :
    Effect (s.view id) (forId id (some (req.id, .no)))
      ((if s.numReply req.id ≠ -1 then a else b).view id) := by
  split_ifs with hnum
  · obtain ⟨timedOut, k, ha⟩ := ha hnum
    rw [ha, view_broadcastAbort, forId]
    split_ifs with hid
    · subst hid
      exact .aborted _ hnum
    · exact .quiet _
  · rw [not_not] at hnum
    rw [hb, view_mark, forId]
    split_ifs with hid
    · subst hid
      have hsame : ({ s.view req.id with num := -1 } : View) = s.view req.id := by
        rw [← hnum]
        rfl
      rw [hsame]
      exact .refused _ hnum
    · exact .quiet _

theorem effect_answered (now : ℤ) (req : CrossShardReq) (c : ℕ) (k : Caller) (o : Outcome) :
    Effect (s.view id)
      (forId id (match o with
        | .answer .yes => some (req.id, .yes)
        | .answer .no => some (req.id, .no)
        | .timeout => some (req.id, .no)
        | _ => none))
      ((s.answered now req c k o).view id) := by
  cases o with
  | timeout => exact effect_no s id req (fun _ => ⟨true, k, rfl⟩) rfl
  | returns | raises => exact .quiet _
  | answer r =>
    cases r with
    | ack =>
      have hack := view_otherAnswer s id req c (r := .ack) (by decide)
      rw [answered, view_return, hack]
      exact .quiet _
    | no =>
      have hno := view_otherAnswer s id req c (r := .no) (by decide)
      have heff := effect_no (s.record (.answer req c .no)) id req
        (a := ((s.record (.answer req c .no)).record (.abort req)).await (.abort req false k))
        (b := ((s.record (.answer req c .no)).setNumReply req.id (-1)).return_ now k)
        (fun _ => ⟨false, k, rfl⟩) (view_return _ _ _ _)
      rw [hno] at heff
      exact heff
    | yes =>
      have hcount := view_countYes s id req c
      have hnum : ((s.record (.answer req c .yes)).setNumReply req.id
          (s.numReply req.id + 1)).numReply req.id = s.numReply req.id + 1 := by
        rw [numReply_setNumReply, if_pos rfl]
      simp only [answered, forId]
      rw [hnum]
      by_cases hid : req.id = id
      · subst hid
        rw [if_pos rfl] at hcount
        rw [if_pos rfl]
        split_ifs with htwo
        · rw [view_broadcastCommit, if_pos rfl, hcount]
          exact .committed _ htwo
        · rw [view_return, hcount]
          exact .counted _ htwo
      · rw [if_neg hid] at hcount
        rw [if_neg hid]
        split_ifs
        · rw [view_broadcastCommit, if_neg hid, hcount]
          exact .quiet _
        · rw [view_return, hcount]
          exact .quiet _

theorem view_reply (i : ℤ) (r : FinalReply) : (s.record (.reply i r)).view id =
    if i = id then { s.view id with replies := (s.view id).replies + 1 } else s.view id := by
  rw [view_record]
  by_cases hid : i = id <;>
    simp [Traffic.isYes, Traffic.isCommit, Traffic.isAbort, Traffic.isReply, hid]

/-- A coroutine that goes on, after `s.wake n`. -/
theorem effect_resume (now : ℤ) (o : Outcome) {n : ℕ} {t : Task} (ht : s.tasks[n]? = some t) :
    Effect (s.view id) (forId id (s.input ⟨.resume n o, now⟩))
      (((s.wake n).resume now o t).view id) := by
  have hwake := view_wake s id ht
  simp only [input, ht]
  cases t with
  | prepare req c k =>
    have heff := effect_answered (s.wake n) id now req c k o
    rw [show (s.wake n).view id = s.view id from hwake.symm] at heff
    cases o with
    | answer r => cases r <;> exact heff
    | _ => exact heff
  | commit req k =>
    have hafter : ((s.wake n).resume now o (.commit req k)).view id =
        ((s.wake n).record (.reply req.id .succeed)).view id := view_await _ _ _
    rw [hafter, hwake, view_reply]
    by_cases hid : req.id = id
    · simp only [Task.writes, Task.marks, hid, decide_true, Bool.toNat_true, if_true]
      exact .replied _
    · simp only [Task.writes, Task.marks, hid, decide_false, if_false]
      exact .quiet _
  | abort req timedOut k =>
    have hafter : ((s.wake n).resume now o (.abort req timedOut k)).view id =
        { ((s.wake n).record (.reply req.id .aborted)).view id with
          markers := ((s.wake n).view id).markers + (decide (req.id = id)).toNat } := view_await _ _ _
    rw [hafter, hwake, view_reply]
    by_cases hid : req.id = id
    · simp only [Task.writes, Task.marks, hid, decide_true, Bool.toNat_true, if_true]
      exact .replied { (s.wake n).view id with markers := ((s.wake n).view id).markers + 1 }
    · simp only [Task.writes, Task.marks, hid, decide_false, if_false]
      exact .quiet _
  | committed req k =>
    rw [show s.view id = (s.wake n).view id from hwake]
    unfold resume
    dsimp only
    split_ifs
    · exact .quiet _
    · rw [view_return]
      exact .quiet _
  | aborted req timedOut k =>
    rw [hwake]
    by_cases ho : o = .raises
    · simp only [resume, if_pos ho, Task.writes, Task.marks, forId]
      by_cases hid : req.id = id
      · simp only [hid, decide_true, Bool.toNat_true]
        exact .dropped _
      · simp only [hid, decide_false]
        exact .quiet _
    · have hafter : ((s.wake n).resume now o (.aborted req timedOut k)).view id =
          ((s.wake n).setNumReply req.id (-1)).view id := by
        simp only [resume, if_neg ho]
        split_ifs
        · rfl
        · exact view_return _ _ _ _
      rw [hafter, view_mark]
      simp only [if_neg ho, Task.writes, Task.marks, forId]
      by_cases hid : req.id = id
      · simp only [hid, decide_true, Bool.toNat_true, if_true]
        exact .marked _
      · simp only [hid, decide_false, if_false]
        exact .quiet _
  | intra req k =>
    rw [show s.view id = (s.wake n).view id from hwake]
    unfold resume
    dsimp only
    split_ifs
    · exact .quiet _
    · rw [view_await, view_record]
      exact .quiet _
  | replied req k =>
    rw [show s.view id = (s.wake n).view id from hwake]
    unfold resume
    dsimp only
    split_ifs
    · exact .quiet _
    · rw [view_return]
      exact .quiet _

/-- The share of the job in a view. -/
theorem view_setJob (j : Job) : (s.setJob j).view id =
    { (s.setJob .idle).view id with
      writers := ((s.setJob .idle).view id).writers + (j.writes id).toNat
      markers := ((s.setJob .idle).view id).markers + (j.marks id).toNat } := rfl

theorem view_job : s.view id =
    { (s.setJob .idle).view id with
      writers := ((s.setJob .idle).view id).writers + (s.job.writes id).toNat
      markers := ((s.setJob .idle).view id).markers + (s.job.marks id).toNat } := rfl

theorem effect_job (now : ℤ) (o : Outcome) :
    Effect (s.view id) (forId id (s.input ⟨.job o, now⟩)) ((s.stepJob now o).view id) := by
  have hview := view_job s id
  unfold stepJob input
  dsimp only
  cases hjob : s.job with
  | idle =>
    rw [hjob] at hview
    rw [hview]
    exact .quiet _
  | cluster i =>
    rw [hjob] at hview
    rw [hview]
    dsimp only
    split_ifs <;> exact .quiet _
  | dead => exact .quiet _
  | scan i rest kept =>
    rw [hjob] at hview
    cases rest with
    | nil =>
      rw [hview]
      exact .quiet _
    | cons q rest =>
      obtain ⟨request, time⟩ := q
      cases request with
      | intra req =>
        rw [hview]
        dsimp only
        split_ifs <;> exact .quiet _
      | cross req =>
        by_cases htime : now - time < 3000
        · rw [hview]
          simp only [if_pos htime]
          exact .quiet _
        · simp only [if_neg htime]
          refine effect_no s id req (fun _ => ⟨true, .done, ?_⟩) ?_
          · rw [view_await, view_record, hview, view_setJob]
            exact congrArg (fun v : View => { v with
              writers := v.writers + (decide (req.id = id)).toNat
              markers := v.markers + (decide (req.id = id)).toNat })
              (view_record (s.setJob .idle) id (.abort req))
          · have hkeep := view_job (s.setNumReply req.id (-1)) id
            rw [show (s.setNumReply req.id (-1)).job = s.job from rfl, hjob] at hkeep
            rw [hkeep]
            rfl
  | abort i rest kept req =>
    have hafter : ((s.record (.reply req.id .aborted)).setJob (.aborted i rest kept req)).view id =
        { ((s.setJob .idle).record (.reply req.id .aborted)).view id with
          markers := ((s.setJob .idle).view id).markers + (decide (req.id = id)).toNat } := rfl
    rw [hjob] at hview
    rw [hview, hafter, view_reply]
    by_cases hid : req.id = id
    · simp only [Job.writes, Job.marks, hid, decide_true, Bool.toNat_true, if_true]
      exact .replied
        { (s.setJob .idle).view id with markers := ((s.setJob .idle).view id).markers + 1 }
    · simp only [Job.writes, Job.marks, hid, decide_false, if_false]
      exact .quiet _
  | aborted i rest kept req =>
    rw [hjob] at hview
    rw [hview]
    dsimp only
    by_cases ho : o = .raises
    · rw [if_pos ho, if_pos ho]
      simp only [Job.writes, Job.marks, forId]
      by_cases hid : req.id = id
      · simp only [hid, decide_true, Bool.toNat_true]
        exact .dropped _
      · simp only [hid, decide_false]
        exact .quiet _
    · have hafter : ((s.setNumReply req.id (-1)).setJob (.scan i rest kept)).view id =
          ((s.setJob .idle).setNumReply req.id (-1)).view id := rfl
      rw [if_neg ho, if_neg ho, hafter, view_mark]
      simp only [Job.writes, Job.marks, forId]
      by_cases hid : req.id = id
      · simp only [hid, decide_true, Bool.toNat_true, if_true]
        exact .marked _
      · simp only [hid, decide_false, if_false]
        exact .quiet _

/-- Every step has one of the effects on every transaction. -/
theorem effect_step (e : RoutingEvent)
    (hfresh : ∀ i, s.service.transactionId < i → s.numReply i = 0) :
    Effect (s.view id) (forId id (s.input e)) ((s.step e).view id) := by
  obtain ⟨action, now⟩ := e
  cases action with
  | handle m =>
    rw [show (s.step ⟨.handle m, now⟩).view id = s.view id from view_handle s id now m hfresh]
    exact .quiet _
  | resume n o =>
    simp only [step]
    cases ht : s.tasks[n]? with
    | none =>
      simp only [input, ht]
      exact .quiet _
    | some t => exact effect_resume s id now o ht
  | job o => exact effect_job s id now o

end Routing

end Raft2PC
