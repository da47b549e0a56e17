import Raft2PC.Sanity.Locks
import Raft2PC.Sanity.Reaction

/-! Transaction ids keep duplicates out. While a server leads, its log only grows by what the
handlers append, and each of them looks for its id in the whole log first. -/

namespace Raft2PC

open AIOServer AppendEntriesExecutor

inductive CommandKind where
  | intra
  | prepare
  | commit
  | abort
deriving DecidableEq, Repr

def CommandKind.ofKind : CommandKind → Text → Bool
  | .intra, c => !isCross c
  | .prepare, c => isPrepare c
  | .commit, c => isCommit c
  | .abort, c => isAbort c

def logged (kind : CommandKind) (id : ℤ) (L : List Entry) : ℕ :=
  L.countP fun e => e.id = id && kind.ofKind e.command

def StaysLeader (sv : AIOServer) (x : Stimulus) : Prop :=
  sv.raftState.role = .leader ∧ (sv.next x).raftState.role = .leader

instance : ∀ sv x, Decidable (StaysLeader sv x) := fun _ _ => inferInstanceAs (Decidable (_ ∧ _))

def isRequest (phase : CrossShardPhaseType) (id : ℤ) (x : Stimulus) : Bool :=
  match x.input with
  | .message _ (.crossShardReq req) => req.phase = phase && req.id = id
  | _ => false

/-- The server takes up a COMMIT of `id` in which its cluster has a part. -/
def HandlesCommit (sv : AIOServer) (x : Stimulus) (id : ℤ) : Prop :=
  ∃ req, asked sv x = some (.crossShard req) ∧ req.phase = .commit ∧ req.id = id ∧
    (req.senderClusterId = sv.raftState.clusterId ∨
      req.receiverClusterId = sv.raftState.clusterId)

/-- Nothing comes twice, and no PREPARE after an ABORT. -/
structure Unrepeated (L : List Entry) : Prop where
  once : ∀ kind id, logged kind id L ≤ 1
  order : L.Pairwise fun a b => a.id = b.id → isAbort a.command → ¬isPrepare b.command

variable {sv : AIOServer} {x : Stimulus} {xs : List Stimulus} {L : List Entry} {id : ℤ}
  {kind : CommandKind}

theorem logged_append (kind : CommandKind) (id : ℤ) (L M : List Entry) :
    logged kind id (L ++ M) = logged kind id L + logged kind id M :=
  List.countP_append

theorem logged_eq_zero :
    logged kind id L = 0 ↔ ∀ e ∈ L, e.id = id → kind.ofKind e.command = false := by
  rw [logged, List.countP_eq_zero]
  refine forall₂_congr fun e _ => ?_
  cases kind.ofKind e.command <;> simp

theorem logged_of_any {rs : RaftState} {f : LogEntry → Bool} (h : rs.log.any f = false)
    (hf : ∀ e : LogEntry, e.id = id → kind.ofKind e.command = true → f e = true) :
    logged kind id (entries rs) = 0 := by
  rw [logged_eq_zero]
  intro e he hid
  obtain ⟨y, hy, rfl⟩ := List.mem_map.mp he
  rw [List.any_eq_false] at h
  cases hk : kind.ofKind y.entry.command with
  | false => rfl
  | true => exact absurd (hf y hid hk) (h y hy)

/-! ### What a handler appends is new -/

section Seen

variable {rs : RaftState}

theorem seen_eq_false {req : IntraShardReq} (h : IntraShardExecutor.seen rs req = false)
    (kind : CommandKind) : logged kind req.id (entries rs) = 0 :=
  logged_of_any h fun e hid _ => by simpa using hid

variable {req : CrossShardReq}

theorem prepareSeen_eq_false (h : CrossShardExecutor.prepareSeen rs req = false) :
    logged .prepare req.id (entries rs) = 0 ∧ logged .abort req.id (entries rs) = 0 := by
  constructor
  · refine logged_of_any h fun e hid hprepare => ?_
    rw [CommandKind.ofKind] at hprepare
    simp [hid, hprepare]
  · refine logged_of_any h fun e hid habort => ?_
    rw [CommandKind.ofKind] at habort
    simp [hid, habort]

theorem commitSeen_iff (rs : RaftState) (req : CrossShardReq) :
    CrossShardExecutor.commitSeen rs req = true ↔ 1 ≤ logged .commit req.id (entries rs) := by
  rw [Nat.one_le_iff_ne_zero, ← Nat.pos_iff_ne_zero, logged, List.countP_pos_iff, entries,
    CrossShardExecutor.commitSeen, List.any_eq_true]
  simp [CommandKind.ofKind, LogEntry.entry]

theorem commitSeen_eq_false (h : CrossShardExecutor.commitSeen rs req = false) :
    logged .commit req.id (entries rs) = 0 := by
  rw [← Bool.not_eq_true, commitSeen_iff] at h
  omega

theorem abortSeen_eq_false (h : CrossShardExecutor.abortSeen rs req = false) :
    logged .abort req.id (entries rs) = 0 := by
  refine logged_of_any h fun e hid habort => ?_
  rw [CommandKind.ofKind] at habort
  simp [hid, habort]

end Seen

/-- The handler has found no entry that its own would repeat, nor an ABORT of what it
prepares. -/
theorem created_new {fd : ℤ} {rs : RaftState} {m : ClientMsg} {y : LogEntry}
    (hy : created fd rs m = some y) :
    (∀ kind : CommandKind, kind.ofKind y.command = true → logged kind y.id (entries rs) = 0) ∧
      (isPrepare y.command = true → logged .abort y.id (entries rs) = 0) := by
  cases m with
  | printBalance _ | printDatastore _ | stop _ | resume _ => cases hy
  | intraShard req =>
    simp only [created] at hy
    split_ifs at hy with hnew
    cases hy
    have hnone := seen_eq_false (Bool.eq_false_of_not_eq_true hnew.2.2)
    exact ⟨fun kind _ => hnone kind, fun _ => hnone .abort⟩
  | crossShard req =>
    simp only [created] at hy
    by_cases hpart : req.senderClusterId = rs.clusterId ∨ req.receiverClusterId = rs.clusterId
    swap
    · rw [if_neg hpart] at hy
      cases hy
    rw [if_pos hpart] at hy
    cases hphase : req.phase with
    | prepare =>
      simp only [hphase] at hy
      split_ifs at hy with hnew
      cases hy
      obtain ⟨hprepare, habort⟩ := prepareSeen_eq_false
        (Bool.eq_false_of_not_eq_true (not_or.mp hnew).2)
      refine ⟨fun kind h => ?_, fun _ => habort⟩
      cases kind with
      | prepare => exact hprepare
      | intra | commit | abort => cases h
    | commit =>
      simp only [hphase] at hy
      split_ifs at hy with hnew
      cases hy
      refine ⟨fun kind h => ?_, fun h => by cases h⟩
      cases kind with
      | commit => exact commitSeen_eq_false (Bool.eq_false_of_not_eq_true hnew)
      | intra | prepare | abort => cases h
    | abort =>
      simp only [hphase] at hy
      split_ifs at hy with hnew
      cases hy
      refine ⟨fun kind h => ?_, fun h => by cases h⟩
      cases kind with
      | abort => exact abortSeen_eq_false (Bool.eq_false_of_not_eq_true hnew)
      | intra | prepare | commit => cases h

theorem Unrepeated.concat {e : Entry} (h : Unrepeated L)
    (hnew : ∀ kind : CommandKind, kind.ofKind e.command = true → logged kind e.id L = 0)
    (habort : isPrepare e.command = true → logged .abort e.id L = 0) : Unrepeated (L ++ [e]) where
  once kind id := by
    have hold := h.once kind id
    rw [logged_append]
    by_cases he : e.id = id ∧ kind.ofKind e.command = true
    · obtain ⟨rfl, hkind⟩ := he
      have hlast : logged kind e.id [e] ≤ 1 := List.countP_le_length
      have := hnew kind hkind
      omega
    · have hlast : logged kind id [e] = 0 := by
        rw [logged_eq_zero]
        intro y hy hid
        rw [List.mem_singleton.mp hy] at hid ⊢
        cases hkind : kind.ofKind e.command with
        | false => rfl
        | true => exact absurd ⟨hid, hkind⟩ he
      omega
  order := by
    rw [List.pairwise_append]
    refine ⟨h.order, List.pairwise_singleton _ _, fun a ha b hb hid haborted hprepare => ?_⟩
    rw [List.mem_singleton.mp hb] at hid hprepare
    have hno := logged_eq_zero.mp (habort hprepare) a ha hid
    rw [CommandKind.ofKind, haborted] at hno
    cases hno

/-! ### The log of a leader -/

theorem entries_next (h : StaysLeader sv x) :
    entries (sv.next x).raftState = entries sv.raftState ∨
      ∃ fd m y, x.input = .message fd m.msg ∧ asked sv x = some m ∧
        created fd sv.raftState m = some y ∧
        entries (sv.next x).raftState = entries sv.raftState ++ [y.entry] := by
  have hreact := reaction_next sv x
  have hrole := h.2
  generalize (sv.next x).raftState = rs at hreact hrole
  cases hreact with
  | untouched hsame hask => exact Or.inl (by rw [entries, hsame.log, entries])
  | served fd m hx hask =>
    cases hnew : created fd sv.raftState m with
    | none => exact Or.inl (by rw [entries, serve_log, hnew, Option.toList_none, List.append_nil,
        entries])
    | some y =>
      refine Or.inr ⟨fd, m, y, hx, hask, hnew, ?_⟩
      rw [entries, serve_log, hnew, List.map_append]
      rfl
  | accepted fd req hx hacc hask => cases hrole
  | decided fd rsp hx hdec hask =>
    exact Or.inl (answered_executeRsp x.undef fd (decides_le hdec).le).entries

theorem Unrepeated.next (h : Unrepeated (entries sv.raftState)) (hlead : StaysLeader sv x) :
    Unrepeated (entries (sv.next x).raftState) := by
  rcases entries_next hlead with hsame | ⟨fd, m, y, hx, hask, hy, hpush⟩
  · rw [hsame]
    exact h
  · obtain ⟨hnew, habort⟩ := created_new hy
    rw [hpush]
    exact h.concat hnew habort

theorem Unrepeated.runs (h : Unrepeated (entries sv.raftState))
    (hlead : Follows StaysLeader sv xs) : Unrepeated (entries (sv.runs xs).raftState) := by
  induction xs generalizing sv with
  | nil => exact h
  | cons x xs ih => exact ih (h.next hlead.1) hlead.2

theorem logged_next (hlead : StaysLeader sv x) :
    logged kind id (entries sv.raftState) ≤ logged kind id (entries (sv.next x).raftState) := by
  rcases entries_next hlead with hsame | ⟨fd, m, y, hx, hask, hy, hpush⟩
  · rw [hsame]
  · rw [hpush, logged_append]
    exact Nat.le_add_right _ _

theorem logged_runs (hlead : Follows StaysLeader sv xs) :
    logged kind id (entries sv.raftState) ≤ logged kind id (entries (sv.runs xs).raftState) := by
  induction xs generalizing sv with
  | nil => exact le_rfl
  | cons x xs ih => exact (logged_next hlead.1).trans (ih hlead.2)

/-! ### PREPARE after ABORT -/

/-- After an ABORT of `id` a PREPARE of `id` appends and locks nothing. -/
theorem prepare_refused (hx : isRequest .prepare id x = true)
    (habort : 1 ≤ logged .abort id (entries sv.raftState)) :
    entries (sv.next x).raftState = entries sv.raftState ∧
      ∀ k, (sv.next x).raftState.locked k = sv.raftState.locked k := by
  have hreact := reaction_next sv x
  generalize (sv.next x).raftState = rs at hreact
  cases hreact with
  | untouched hsame hask =>
    exact ⟨by rw [entries, hsame.log, entries], fun k => by rw [RaftState.locked, hsame.locks,
      RaftState.locked]⟩
  | accepted fd req hin hacc hask => simp [isRequest, hin] at hx
  | decided fd rsp hin hdec hask => simp [isRequest, hin] at hx
  | served fd m hin hask =>
    have hnone : created fd sv.raftState m = none := by
      cases hnew : created fd sv.raftState m with
      | none => rfl
      | some y =>
        have hfree := (created_new hnew).2
        cases admission_of_created hnew with
        | intra req => simp [isRequest, hin, ClientMsg.msg] at hx
        | prepare req hphase =>
          simp only [isRequest, hin, ClientMsg.msg, Bool.and_eq_true, decide_eq_true_eq] at hx
          have hzero : logged .abort req.id (entries sv.raftState) = 0 := hfree rfl
          rw [hx.2] at hzero
          omega
        | commit req hphase | abort req hphase =>
          simp [isRequest, hin, ClientMsg.msg, hphase] at hx
    constructor
    · rw [entries, serve_log, hnone, Option.toList_none, List.append_nil, entries]
    · intro k
      rw [locked_serve, hnone, Option.isSome_none, Bool.false_and, Bool.or_false]

/-! ### COMMIT -/

theorem commit_repeated (h : HandlesCommit sv x id)
    (hseen : 1 ≤ logged .commit id (entries sv.raftState)) :
    ∃ fd msg, x.input = .message fd msg ∧
      sv.react x = (sv, [.writeMsg fd (.crossShardRsp { result := .ack, id := id })]) := by
  obtain ⟨req, hask, hphase, rfl, hpart⟩ := h
  obtain ⟨input, u⟩ := x
  cases input with
  | timeout => cases hask
  | message fd msg =>
    refine ⟨fd, msg, rfl, ?_⟩
    simp only [asked] at hask
    split_ifs at hask with hrun
    rw [Bool.and_eq_true, Bool.not_eq_true'] at hrun
    obtain rfl : msg = .crossShardReq req := by
      cases msg <;> simp [WrapperMessage.request] at hask
      rw [hask]
    obtain ⟨pretendFail, keepRunning, rs⟩ := sv
    obtain ⟨rfl, rfl⟩ := hrun
    simp [react, process, dispatch, hpart, CrossShardExecutor.executeReq, hphase,
      CrossShardExecutor.commit, (commitSeen_iff rs req).mpr hseen, CrossShardExecutor.reply]

theorem commit_logged (h : HandlesCommit sv x id) :
    1 ≤ logged .commit id (entries (sv.next x).raftState) := by
  obtain ⟨req, hask, hphase, rfl, hpart⟩ := h
  have hreact := reaction_next sv x
  generalize (sv.next x).raftState = rs at hreact
  cases hreact with
  | untouched _ hask' | accepted _ _ _ _ hask' | decided _ _ _ _ hask' =>
    rw [hask] at hask'
    cases hask'
  | served fd m hin hask' =>
    obtain rfl : m = .crossShard req := Option.some.inj (hask'.symm.trans hask)
    rw [entries, serve_log, List.map_append, ← entries, logged_append]
    cases hseen : CrossShardExecutor.commitSeen sv.raftState req with
    | true =>
      rw [commitSeen_iff] at hseen
      omega
    | false =>
      have hnew : logged .commit req.id ((created fd sv.raftState (.crossShard req)).toList.map
          LogEntry.entry) = 1 := by
        simp only [created, if_pos hpart, hphase, hseen]
        exact List.countP_cons_of_pos (by simp [CommandKind.ofKind, LogEntry.entry]; rfl)
      omega

theorem moves_eq_some {rs : RaftState} {m : ClientMsg} {req : CrossShardReq}
    (h : moves rs m = some req) : m = .crossShard req ∧
      (req.senderClusterId = rs.clusterId ∨ req.receiverClusterId = rs.clusterId) ∧
      req.phase = .commit ∧ CrossShardExecutor.commitSeen rs req = false := by
  cases m with
  | crossShard req' =>
    simp only [moves] at h
    split_ifs at h with hmoves
    cases h
    exact ⟨rfl, hmoves⟩
  | intraShard _ | printBalance _ | printDatastore _ | stop _ | resume _ => cases h

/-- Money moves for an id only with its first [COMMIT] entry. -/
theorem settled_next (hlead : StaysLeader sv x) (id : ℤ) :
    (settled sv x).toList.countP (fun req => req.id = id) +
        logged .commit id (entries sv.raftState) ≤
      logged .commit id (entries (sv.next x).raftState) := by
  have hmono : logged .commit id (entries sv.raftState) ≤
      logged .commit id (entries (sv.next x).raftState) := logged_next hlead
  cases hs : settled sv x with
  | none => simpa using hmono
  | some req =>
    obtain ⟨m, hask, hm⟩ := Option.bind_eq_some_iff.mp hs
    obtain ⟨rfl, hpart, hphase, hnew⟩ := moves_eq_some hm
    by_cases hid : req.id = id
    · subst hid
      have hlogged := commit_logged ⟨req, hask, hphase, rfl, hpart⟩
      have hnone := commitSeen_eq_false hnew
      have hone : (some req).toList.countP (fun r : CrossShardReq => r.id = req.id) = 1 := by simp
      omega
    · have hzero : (some req).toList.countP (fun r : CrossShardReq => r.id = id) = 0 := by
        simp [hid]
      omega

theorem settled_runs (hlead : Follows StaysLeader sv xs) (id : ℤ) :
    (settledIn sv xs).countP (fun req => req.id = id) +
        logged .commit id (entries sv.raftState) ≤
      logged .commit id (entries (sv.runs xs).raftState) := by
  induction xs generalizing sv with
  | nil => simp [settledIn, runs]
  | cons x xs ih =>
    obtain ⟨hhere, hrest⟩ := hlead
    have hnow := settled_next hhere id
    have hlater := ih hrest
    have hruns : sv.runs (x :: xs) = (sv.next x).runs xs := rfl
    rw [settledIn, List.countP_append, hruns]
    omega

theorem follows_append {ok : AIOServer → Stimulus → Prop} {ys : List Stimulus}
    (h : Follows ok sv (xs ++ ys)) : Follows ok (sv.runs xs) ys := by
  induction xs generalizing sv with
  | nil => exact h
  | cons x xs ih => exact ih h.2

/-- What a leadership from an empty log, and any input after it, makes of transaction `id`. -/
structure Suppresses (id : ℤ) (sv : AIOServer) (xs : List Stimulus) : Prop where
  once : ∀ kind, logged kind id (entries (sv.runs xs).raftState) ≤ 1
  order : (entries (sv.runs xs).raftState).Pairwise fun a b =>
    a.id = b.id → isAbort a.command → ¬isPrepare b.command
  aborted : 1 ≤ logged .abort id (entries (sv.runs xs).raftState) →
    ∀ x, isRequest .prepare id x = true →
      entries ((sv.runs xs).next x).raftState = entries (sv.runs xs).raftState ∧
      ∀ k, ((sv.runs xs).next x).raftState.locked k = (sv.runs xs).raftState.locked k
  settles : (settledIn sv xs).countP (fun req => req.id = id) ≤ 1
  repeated : ∀ pre y post, xs = pre ++ y :: post → HandlesCommit (sv.runs pre) y id →
    ∀ x, HandlesCommit (sv.runs xs) x id →
      ∃ fd msg, x.input = .message fd msg ∧ (sv.runs xs).react x =
        (sv.runs xs, [.writeMsg fd (.crossShardRsp { result := .ack, id := id })])

theorem duplicates_suppressed (hlog : sv.raftState.log = []) (hlead : Follows StaysLeader sv xs)
    (id : ℤ) : Suppresses id sv xs := by
  have hempty : entries sv.raftState = [] := by rw [entries, hlog, List.map_nil]
  have hstart : Unrepeated (entries sv.raftState) := by
    rw [hempty]
    exact ⟨fun _ _ => Nat.zero_le _, List.Pairwise.nil⟩
  have hend := hstart.runs hlead
  constructor
  · exact fun kind => hend.once kind id
  · exact hend.order
  · exact fun habort x hx => prepare_refused hx habort
  · have hsettled := settled_runs hlead id
    have hone := hend.once .commit id
    omega
  · rintro pre y post rfl hfirst x hagain
    have hlater := (follows_append hlead).2
    have hruns : sv.runs (pre ++ y :: post) = ((sv.runs pre).next y).runs post := by
      rw [runs, List.foldl_append]
      rfl
    have hseen := (commit_logged hfirst).trans (logged_runs hlater)
    rw [hruns] at hagain ⊢
    exact commit_repeated hagain hseen

def elected : AIOServer := (AIOServer.new 0 1 purse).runs (stimuli [.timeout,
  .message 9 (.requestVoteRsp { term := 1, voteGranted := true })])

/-- The phases of `acrossShards` in the wrong order: the PREPARE comes last, COMMIT twice. -/
def disordered : List Stimulus := stimuli [
  .message 7 (.crossShardReq { acrossShards with phase := .abort }), .timeout,
  .message 7 (.crossShardReq { acrossShards with phase := .commit }),
  .message 8 (.crossShardReq { acrossShards with phase := .commit }),
  .message 7 (.crossShardReq acrossShards)]

theorem duplicates_suppressed_disordered : Suppresses 0 elected disordered ∧
    (entries (elected.runs disordered).raftState).length = 2 ∧
    (elected.runs disordered).raftState.balance 100 = 5 :=
  ⟨duplicates_suppressed rfl (by decide) 0, by decide, by decide⟩

end Raft2PC
