import Raft2PC.Sanity.Requests

/-! Decision uniqueness of the coordinator. What one transaction can go through is a small
automaton over its inputs; the whole service, with its coroutines, queues and job, follows
it for every transaction, and decides twice exactly where the automaton has no move. -/

namespace Raft2PC

/-! ### One transaction -/

/-- Where a transaction stands, with its YES answers: of the vote, of the broadcast of
ABORT that has begun, or since that broadcast ended. -/
inductive Phase where
  | voting (yes : ℕ)
  | committed
  | aborting (yes : ℕ)
  | aborted (yes : ℕ)
deriving DecidableEq, Repr

/-- The inputs that bring no second decision. -/
def Phase.next : Phase → Input → Option Phase
  | .voting n, .yes => some (if n = 1 then .committed else .voting (n + 1))
  | .voting n, .no => some (.aborting n)
  | .committed, .yes => some .committed
  | .aborting n, .yes => if n = 1 then none else some (.aborting (n + 1))
  | .aborting _, .marked => some (.aborted 0)
  | .aborted n, .yes => if n = 2 then none else some (.aborted (n + 1))
  | .aborted n, .no => if n = 0 then some (.aborted 0) else none
  | _, _ => none

def advance (ph : Option Phase) : Option Input → Option Phase
  | none => ph
  | some a => ph.bind (·.next a)

def inputs (id : ℤ) : Routing → List RoutingEvent → List Input
  | _, [] => []
  | s, e :: es => (Routing.forId id (s.input e)).toList ++ inputs id (s.step e) es

/-- No input asks for a second decision. -/
def Orderly (as : List Input) : Prop :=
  (as.foldl (fun ph a => advance ph (some a)) (some (.voting 0))).isSome = true

instance (as : List Input) : Decidable (Orderly as) := inferInstanceAs (Decidable (_ = _))

/-- The counter and the broadcasts of a transaction in each phase; without one, it has
been decided twice. -/
def Tracks (v : View) : Option Phase → Prop
  | some (.voting n) => v.num = n ∧ n ≤ 1 ∧ v.commits = 0 ∧ v.aborts = 0
  | some .committed => 2 ≤ v.num ∧ v.commits = 1 ∧ v.aborts = 0
  | some (.aborting n) => v.num = n ∧ n ≤ 1 ∧ v.commits = 0 ∧ v.aborts = 1
  | some (.aborted n) =>
    v.num + 1 = n ∧ n ≤ 2 ∧ v.commits = 0 ∧ v.aborts = 1 ∧ v.markers = 0
  | none => 2 ≤ v.commits + v.aborts

/-- Every broadcast is answered to the client once, and every mark stands for an ABORT. -/
structure Balanced (v : View) : Prop where
  replies : v.replies + v.writers = v.commits + v.aborts
  markers : v.markers ≤ v.aborts

theorem Balanced.effect {v w : View} {i : Option Input} (h : Balanced v) (he : Effect v i w) :
    Balanced w := by
  obtain ⟨hr, hm⟩ := h
  cases he with
  | quiet | counted | refused => exact ⟨hr, hm⟩
  | committed | aborted => constructor <;> dsimp only <;> omega
  | replied v => constructor <;> dsimp only at * <;> omega
  | marked v => constructor <;> dsimp only at * <;> omega
  | dropped => constructor <;> dsimp only at * <;> omega

theorem Tracks.effect {v w : View} {i : Option Input} {ph : Option Phase} (hb : Balanced v)
    (h : Tracks v ph) (he : Effect v i w) : Tracks w (advance ph i) := by
  have hmark := hb.markers
  rcases ph with _ | ph
  · -- a transaction decided twice stays so
    have hno : ∀ i, advance none i = none := fun i => by cases i <;> rfl
    rw [hno]
    cases he <;> simp only [Tracks] at * <;> omega
  · cases he with
    | quiet => exact h
    | replied v => cases ph <;> exact h
    | dropped => cases ph <;> simp only [Tracks, advance] at * <;> omega
    | counted hnum | committed hnum | refused hnum | aborted hnum =>
      cases ph <;> simp only [advance, Option.bind_some, Phase.next] <;> (try split_ifs) <;>
        simp only [Tracks] at * <;> omega
    | marked v =>
      cases ph <;> simp only [advance, Option.bind_some, Phase.next] <;>
        simp only [Tracks] at * <;> omega

/-! ### All of them -/

open Routing

theorem tracks_run {n : ℕ} {f : ℤ → CrossShardReq} {s : Routing} (id : ℤ) (es : List RoutingEvent)
    {ph : Option Phase} (hf : Filed n f s) (hb : Balanced (s.view id))
    (h : Tracks (s.view id) ph) :
    Balanced ((s.run es).view id) ∧
      Tracks ((s.run es).view id)
        ((inputs id s es).foldl (fun ph a => advance ph (some a)) ph) := by
  induction es generalizing s f ph with
  | nil => exact ⟨hb, h⟩
  | cons e es ih =>
    have heff := effect_step s id e hf.fresh
    obtain ⟨g, hg⟩ := hf.step e
    have hnext := ih hg (hb.effect heff) (h.effect hb heff)
    have hfold : ∀ i : Option Input,
        i.toList.foldl (fun ph a => advance ph (some a)) ph = advance ph i := by
      rintro (_ | a) <;> rfl
    rw [inputs, List.foldl_append, hfold]
    exact hnext

theorem view_init (n : ℕ) (id : ℤ) : (Routing.init n).view id = ⟨0, 0, 0, 0, 0, 0, 0⟩ := by
  have hnum : (Routing.init n).numReply id = 0 := by
    simp [Routing.numReply, Routing.init, Table.get]
  unfold view
  rw [hnum]
  rfl

/-- COMMIT and ABORT of `id` are not both broadcast, and its client gets at most one final
reply. -/
def DecidedOnce (s : Routing) (id : ℤ) : Prop :=
  ¬((∃ t ∈ s.traffic, t.isCommit id = true) ∧ ∃ t ∈ s.traffic, t.isAbort id = true) ∧
    s.traffic.countP (Traffic.isReply id) ≤ 1

/-- No coroutine, nor the job, is about to reply to the client of `id`. -/
def Settled (s : Routing) (id : ℤ) : Prop :=
  (∀ t ∈ s.tasks, t.writes id = false) ∧ s.job.writes id = false

theorem Tracks.le_one {v : View} {ph : Phase} (h : Tracks v (some ph)) :
    v.commits + v.aborts ≤ 1 := by
  cases ph <;> simp only [Tracks] at h <;> omega

theorem Settled.writers {s : Routing} {id : ℤ} (h : Settled s id) : (s.view id).writers = 0 := by
  have htasks : s.tasks.countP (Task.writes id) = 0 :=
    List.countP_eq_zero.mpr fun t ht => by rw [h.1 t ht]; exact Bool.false_ne_true
  have hjob : (s.job.writes id).toNat = 0 := by rw [h.2]; rfl
  exact (congrArg₂ (· + ·) htasks hjob)

/-- In every run: as long as no input asks for a second decision, there is none; and if
all replies have been written in the end, only then. -/
theorem decided_once (n : ℕ) (es : List RoutingEvent) (id : ℤ) :
    (Orderly (inputs id (Routing.init n) es) → DecidedOnce ((Routing.init n).run es) id) ∧
      (Settled ((Routing.init n).run es) id → DecidedOnce ((Routing.init n).run es) id →
        Orderly (inputs id (Routing.init n) es)) := by
  have hb : Balanced ((Routing.init n).view id) := by
    rw [view_init]
    exact ⟨rfl, le_rfl⟩
  have h : Tracks ((Routing.init n).view id) (some (.voting 0)) := by
    rw [view_init]
    exact ⟨rfl, Nat.zero_le _, rfl, rfl⟩
  obtain ⟨f, hf⟩ := exists_filed_init n
  obtain ⟨⟨hreplies, -⟩, htracks⟩ := tracks_run id es hf hb h
  unfold Orderly
  generalize (inputs id (Routing.init n) es).foldl _ _ = ph at htracks
  constructor
  · intro hsome
    obtain ⟨ph, rfl⟩ := Option.isSome_iff_exists.mp hsome
    have hone := htracks.le_one
    refine ⟨?_, ?_⟩
    · rintro ⟨hcommit, habort⟩
      have hc : 0 < (((Routing.init n).run es).view id).commits := List.countP_pos_iff.mpr hcommit
      have ha : 0 < (((Routing.init n).run es).view id).aborts := List.countP_pos_iff.mpr habort
      omega
    · change (((Routing.init n).run es).view id).replies ≤ 1
      omega
  · rintro hsettled ⟨-, hle⟩
    have hle' : (((Routing.init n).run es).view id).replies ≤ 1 := hle
    have hwriters := hsettled.writers
    cases ph with
    | some ph => rfl
    | none =>
      have htwo : 2 ≤ (((Routing.init n).run es).view id).commits +
          (((Routing.init n).run es).view id).aborts := htracks
      omega

/-- What a client asks for: 5 from item 100 of cluster 0 to item 1500 of cluster 1. -/
def clientTransfer : Incoming :=
  .crossShardReq
    { phase := .prepare
      senderClusterId := 0
      receiverClusterId := 1
      senderId := 100
      receiverId := 1500
      amount := 5
      id := 0 }

/-- The sender's cluster says NO, and the receiver's cluster is still asked and says YES. -/
def refusedBySender : List RoutingEvent :=
  [⟨.handle (.appendEntriesReq 1), 0⟩, ⟨.handle (.appendEntriesReq 4), 0⟩,
    ⟨.handle clientTransfer, 0⟩, ⟨.resume 0 (.answer .no), 10⟩, ⟨.resume 0 .returns, 20⟩,
    ⟨.resume 0 .returns, 30⟩, ⟨.resume 0 (.answer .yes), 40⟩]

theorem decided_once_refused :
    inputs 1 (Routing.init 2) refusedBySender = [.no, .marked, .yes] ∧
      DecidedOnce ((Routing.init 2).run refusedBySender) 1 :=
  ⟨by decide, (decided_once 2 refusedBySender 1).1 (by decide)⟩

/-- The receiver's cluster has no leader; the request expires in its queue while a new
leader takes it out, says YES and so completes the vote. -/
def expiresWhenDrained : List RoutingEvent :=
  [⟨.handle (.appendEntriesReq 1), 0⟩, ⟨.handle clientTransfer, 0⟩,
    ⟨.resume 0 (.answer .yes), 100⟩, ⟨.job .returns, 3200⟩, ⟨.job .returns, 3200⟩,
    ⟨.job .returns, 3200⟩, ⟨.job .returns, 3200⟩, ⟨.handle (.appendEntriesReq 4), 3200⟩,
    ⟨.resume 0 (.answer .yes), 3300⟩, ⟨.job .returns, 3300⟩, ⟨.resume 0 .returns, 3300⟩]

theorem decided_twice :
    inputs 1 (Routing.init 2) expiresWhenDrained = [.yes, .no, .yes] ∧
    ((Routing.init 2).run expiresWhenDrained).traffic.countP (Traffic.isCommit 1) = 1 ∧
    ((Routing.init 2).run expiresWhenDrained).traffic.countP (Traffic.isAbort 1) = 1 ∧
    ((Routing.init 2).run expiresWhenDrained).traffic.filter (Traffic.isReply 1) =
      [.reply 1 .aborted, .reply 1 .succeed] ∧
    ¬DecidedOnce ((Routing.init 2).run expiresWhenDrained) 1 :=
  ⟨by decide, by decide, by decide, by decide, fun h => absurd h.2 (by decide)⟩

end Raft2PC
