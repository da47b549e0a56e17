import Raft2PC.Sanity.Frame
import Raft2PC.Sanity.Commands
import Raft2PC.Sanity.Runs

/-! The log keeps a transfer as text only. The text says which branch of the handlers wrote
it and what was asked for, and both commit loops read from it just that. -/

namespace Raft2PC

open AIOServer AppendEntriesExecutor

/-- A transfer and the branch that logs it: a phase of `CrossShardExecutor`, or none for
`IntraShardExecutor`. -/
structure Command where
  branch : Option CrossShardPhaseType
  transfer : Transfer
deriving DecidableEq

def tag : Option CrossShardPhaseType → Text
  | none => []
  | some .prepare => "[PREPARE] ".toList
  | some .commit => "[COMMIT] ".toList
  | some .abort => "[ABORT] ".toList

def Command.text (c : Command) : Text :=
  tag c.branch ++ fmtPays c.transfer.senderId c.transfer.receiverId c.transfer.amount

def hasTag : CrossShardPhaseType → Text → Bool
  | .prepare => isPrepare
  | .commit => isCommit
  | .abort => isAbort

/-- A request that asks for an entry in the log. -/
inductive Transaction where
  | intra (req : IntraShardReq)
  | cross (req : CrossShardReq)
deriving DecidableEq

namespace Transaction

def request : Transaction → ClientMsg
  | .intra req => .intraShard req
  | .cross req => .crossShard req

def command : Transaction → Command
  | .intra req => ⟨none, req.senderId, req.receiverId, req.amount⟩
  | .cross req => ⟨some req.phase, req.senderId, req.receiverId, req.amount⟩

end Transaction

/-- Some server appends the entry when it processes the request. -/
def Appends (t : Transaction) (e : LogEntry) : Prop :=
  ∃ u fd rs, (dispatch u fd rs t.request.msg).1.log = rs.log ++ [e]

/-- What the program can tell of a command from its text. -/
structure Faithful (c : Command) (text : Text) : Prop where
  pays : c.branch = none → ∀ locals, sscanf locals paysFormat text = c.transfer
  prepare : c.branch = some .prepare → ∀ locals, sscanf locals prepareFormat text = c.transfer
  bracket : isCross text = true ↔ c.branch ≠ none
  tagged : ∀ phase, hasTag phase text = true ↔ c.branch = some phase

/-! ### Texts -/

theorem isCross_of_hasTag {phase : CrossShardPhaseType} {t : Text} (h : hasTag phase t = true) :
    isCross t = true := by
  cases phase with
  | prepare | commit | abort => exact isCross_of_take (of_decide_eq_true h)

theorem isCross_text (c : Command) : isCross c.text = c.branch.isSome := by
  obtain ⟨branch, t⟩ := c
  cases branch with
  | none => exact isCross_pays _ _ _
  | some phase => cases phase <;> rfl

theorem hasTag_text (c : Command) (phase : CrossShardPhaseType) :
    hasTag phase c.text = true ↔ c.branch = some phase := by
  obtain ⟨branch, t⟩ := c
  cases branch with
  | none =>
    refine iff_of_false (fun h => ?_) (Option.some_ne_none phase).symm
    have hcross : isCross (fmtPays t.senderId t.receiverId t.amount) = true :=
      isCross_of_hasTag h
    rw [isCross_pays] at hcross
    exact Bool.false_ne_true hcross
  | some phase' =>
    have htag : hasTag phase (Command.text ⟨some phase', t⟩) = decide (phase' = phase) := by
      cases phase' <;> cases phase <;> rfl
    rw [htag, decide_eq_true_iff, Option.some_inj]

theorem fmtPays_injective {t t' : Transfer}
    (h : fmtPays t.senderId t.receiverId t.amount = fmtPays t'.senderId t'.receiverId t'.amount) :
    t = t' := by
  have hread := sscanf_pays default t.senderId t.receiverId t.amount
  rw [h, sscanf_pays] at hread
  exact hread.symm

theorem Command.text_injective : Function.Injective Command.text := by
  intro c c' h
  have hbranch : c.branch = c'.branch := by
    cases hc : c'.branch with
    | some phase => rwa [← hasTag_text, h, hasTag_text]
    | none =>
      have hcross := isCross_text c
      rw [h, isCross_text, hc] at hcross
      exact Option.isNone_iff_eq_none.mp (by simpa using hcross.symm)
  obtain ⟨branch, t⟩ := c
  obtain ⟨branch', t'⟩ := c'
  obtain rfl : branch = branch' := hbranch
  have htransfer : t = t' := fmtPays_injective (List.append_cancel_left h)
  rw [htransfer]

theorem Command.faithful (c : Command) : Faithful c c.text where
  pays hc locals := by
    rw [Command.text, hc]
    exact sscanf_pays locals _ _ _
  prepare hc locals := by
    rw [Command.text, hc]
    exact sscanf_prepare locals _ _ _
  bracket := by
    rw [isCross_text, Option.isSome_iff_ne_none]
  tagged := hasTag_text c

/-! ### Handlers -/

/-- A handler writes the command that was asked for. -/
theorem created_text {t : Transaction} {fd : ℤ} {rs : RaftState} {e : LogEntry}
    (h : created fd rs t.request = some e) : e.command = t.command.text := by
  cases t with
  | intra req =>
    simp only [Transaction.request, created] at h
    split_ifs at h
    cases h
    rfl
  | cross req =>
    have htext : (Transaction.cross req).command.text = tag (some req.phase) ++
        fmtPays req.senderId req.receiverId req.amount := rfl
    rw [htext]
    by_cases hcid : req.senderClusterId = rs.clusterId ∨ req.receiverClusterId = rs.clusterId
    · simp only [Transaction.request, created, if_pos hcid] at h
      cases hphase : req.phase with
      | prepare | commit | abort =>
        simp only [hphase] at h
        split_ifs at h
        cases h
        rfl
    · simp only [Transaction.request, created, if_neg hcid] at h
      cases h

theorem Appends.text {t : Transaction} {e : LogEntry} (h : Appends t e) :
    e.command = t.command.text := by
  obtain ⟨u, fd, rs, hlog⟩ := h
  have hserve : (dispatch u fd rs t.request.msg).1 = serve u fd rs t.request := by
    cases t <;> rfl
  rw [hserve, serve_log] at hlog
  have hnew := List.append_cancel_left hlog
  apply created_text
  rwa [Option.toList_eq_singleton_iff] at hnew

/-- Commands decode to what was encoded, and say no more and no less. -/
theorem commands_decode {t t' : Transaction} {e e' : LogEntry} (h : Appends t e)
    (h' : Appends t' e') :
    Faithful t.command e.command ∧ (e.command = e'.command ↔ t.command = t'.command) := by
  rw [h.text, h'.text]
  exact ⟨t.command.faithful, Command.text_injective.eq_iff⟩

/-- The entry of a transfer within the shard, and of PREPARE for one between shards. -/
def paysEntry : LogEntry := ⟨0, 0, "100 pays 200 $5".toList, 0, 7⟩
def prepareEntry : LogEntry := ⟨0, 0, "[PREPARE] 100 pays 1100 $5".toList, 0, 7⟩

theorem commands_decode_both :
    Faithful ⟨none, 100, 200, 5⟩ paysEntry.command ∧ (paysEntry.command = prepareEntry.command ↔
      (⟨none, 100, 200, 5⟩ : Command) = ⟨some .prepare, 100, 1100, 5⟩) := by
  have hpays : Appends (.intra withinShard) paysEntry :=
    ⟨.zero, 7, (AIOServer.new 0 0 purse).raftState, by decide⟩
  have hprepare : Appends (.cross acrossShards) prepareEntry :=
    ⟨.zero, 7, (AIOServer.new 0 0 purse).raftState, by decide⟩
  exact commands_decode hpays hprepare

example : sscanf default paysFormat (fmtPays (-2147483648) 2147483647 (-1)) =
    ⟨-2147483648, 2147483647, -1⟩ := by decide

end Raft2PC
