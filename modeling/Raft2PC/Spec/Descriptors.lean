import Raft2PC.Handles.Registry
import Raft2PC.Spec.EventLoop

/-! The descriptors of a server's process. `socket` and `accept` give out any number that is
free, so that a number stands for one connection after the other. -/

namespace Raft2PC

open EventLoop Handles

def IORequest.fd : IORequest → Option ℤ
  | .timeout | .accept => none
  | .connect fd _ _ | .read fd | .write fd _ _ => some fd

/-- The call of `socket` or `close` that an action of a handler makes at once; `socket` returns
-1 when it fails. `update_data_shard` closes whatever it opens. -/
def AIOAction.op (socket : Peer → ℤ) : AIOAction → Option (Op ℤ)
  | .connect peer _ _ => if socket peer = -1 then none else some (.grant (socket peer))
  | .close fd => some (.close fd)
  | .writeMsg .. | .updateDataShard | .fatalError => none

/-- The calls that `run` makes itself: `accept` has succeeded, or a write with no response. -/
def EventLoop.loopOps (r : IORequest) (res : ℤ) : List (Op ℤ) :=
  if skips r res then []
  else
    match r with
    | .accept => [.grant res]
    | .write fd _ .noResponse => [.close fd]
    | .timeout | .connect .. | .read _ | .write _ _ .waitResponse => []

/-- A server's process: what its descriptors stand for, and -1 for nothing. -/
structure Process where
  loop : EventLoop
  files : Registry ℤ
  bad : files.file (-1) = none

/-- Which connection the bytes or the message belong to. -/
abbrev Carried (α : Type*) := ℕ × α

namespace AIOAction

def reply (_ : Peer → ℤ) (t : Registry ℤ) : AIOAction → Option (Carried WrapperMessage)
  | .writeMsg fd msg => (t.file fd).map fun n => (n, msg)
  | _ => none

def dial (socket : Peer → ℤ) (t : Registry ℤ) : AIOAction → Option (Carried WrapperMessage)
  | .connect peer msg _ => if socket peer = -1 then none else some (t.opened, msg)
  | _ => none

/-- What `f` reads off the actions, each where the ones before it have left the descriptors. -/
def along {β : Type*} (f : (Peer → ℤ) → Registry ℤ → AIOAction → Option β) (socket : Peer → ℤ) :
    Registry ℤ → List AIOAction → List β
  | _, [] => []
  | t, a :: acts =>
    (f socket t a).toList ++ along f socket (t.after (a.op socket).toList) acts

end AIOAction

namespace Process

def start (server : AIOServer) (files : Registry ℤ) (bad : files.file (-1) = none) : Process where
  loop := .start server
  files := files
  bad := bad

variable (proto : Protobuf)

def completes (s : Process) (c : Completion) : Option IORequest :=
  if s.loop.server.keepRunning then s.loop.pending[c.k]? else none

def acts (s : Process) (c : Completion) : List AIOAction :=
  ((taken proto s.loop c).map fun x => (s.loop.server.react x).2).getD []

def ops (s : Process) (c : Completion) : List (Op ℤ) :=
  (s.acts proto c).filterMap (AIOAction.op c.socket) ++
    ((s.completes c).map fun r => loopOps r c.res).getD []

/-- -1 is given out to nobody. -/
theorem ops_bad (s : Process) (c : Completion) : -1 ∉ handedOut (s.ops proto c) := by
  intro h
  obtain ⟨op, hop, hgrant⟩ := List.mem_filterMap.mp (Multiset.mem_coe.mp h)
  have hbad : op = .grant (-1) := by
    cases op with
    | grant fd => rw [Option.some.inj hgrant]
    | close fd => cases hgrant
  subst hbad
  rcases List.mem_append.mp hop with hop | hop
  · obtain ⟨a, -, ha⟩ := List.mem_filterMap.mp hop
    cases a with
    | connect peer msg type =>
      simp only [AIOAction.op] at ha
      split_ifs at ha with hfail
      exact hfail (Op.grant.inj (Option.some.inj ha))
    | _ => cases ha
  · cases hr : s.completes c with
    | none => simp [hr] at hop
    | some r =>
      simp only [hr, Option.map_some, Option.getD_some, loopOps] at hop
      split_ifs at hop with hskip
      · cases hop
      · cases r with
        | accept =>
          obtain hres : -1 = c.res := by simpa using hop
          simp [skips, ← hres, ETIME] at hskip
        | write fd buf type => cases type <;> simp at hop
        | _ => cases hop

def step (s : Process) (c : Completion) : Process where
  loop := s.loop.step proto c
  files := s.files.after (s.ops proto c)
  bad := Registry.file_after_none s.bad (s.ops_bad proto c)

/-- The message that is read. -/
def arrival (s : Process) (c : Completion) : List (Carried WrapperMessage) :=
  match taken proto s.loop c with
  | some ⟨.message fd msg, _⟩ => ((s.files.file fd).map fun n => (n, msg)).toList
  | _ => []

def replies (s : Process) (c : Completion) : List (Carried WrapperMessage) :=
  AIOAction.along AIOAction.reply c.socket s.files (s.acts proto c)

def dials (s : Process) (c : Completion) : List (Carried WrapperMessage) :=
  AIOAction.along AIOAction.dial c.socket s.files (s.acts proto c)

/-- The buffer that has been written. -/
def delivery (s : Process) (c : Completion) : List (Carried (List UInt8)) :=
  match s.completes c with
  | some (.write fd buf type) =>
    if skips (.write fd buf type) c.res then [] else ((s.files.file fd).map fun n => (n, buf)).toList
  | _ => []

/-- What the kernel does and does not: it gives out free numbers, and what is asked of a number
that stands for nothing fails. -/
structure Kernel (s : Process) (c : Completion) : Prop where
  grants : s.files.Grants (s.ops proto c)
  badf : ∀ r ∈ s.completes c, ∀ fd ∈ r.fd, s.files.file fd = none → c.res < 0

instance (s : Process) (c : Completion) : Decidable (s.Kernel proto c) :=
  decidable_of_iff (s.files.Grants (s.ops proto c) ∧
      ∀ r ∈ s.completes c, ∀ fd ∈ r.fd, s.files.file fd = none → c.res < 0)
    ⟨fun h => ⟨h.1, h.2⟩, fun h => ⟨h.grants, h.badf⟩⟩

def run (s : Process) (cs : List Completion) : Process := cs.foldl (step proto) s

/-- What `f` reads off the rounds of a run. -/
def along {β : Type*} (f : Process → Completion → List β) : Process → List Completion → List β
  | _, [] => []
  | s, c :: cs => f s c ++ along f (s.step proto c) cs

/-- The kernel does its part, and no vector is indexed outside its bounds. -/
def Orderly : Process → List Completion → Prop
  | _, [] => True
  | s, c :: cs => (s.Kernel proto c ∧
      ∀ x ∈ taken proto s.loop c, staysInVectors s.loop.server x = true) ∧
      Orderly (s.step proto c) cs

instance decidableOrderly : ∀ (s : Process) (cs : List Completion), Decidable (s.Orderly proto cs)
  | _, [] => inferInstanceAs (Decidable True)
  | s, c :: cs =>
    have := decidableOrderly (s.step proto c) cs
    inferInstanceAs (Decidable (((s.Kernel proto c) ∧
      ∀ x ∈ taken proto s.loop c, staysInVectors s.loop.server x = true) ∧
        Orderly proto (s.step proto c) cs))

end Process

end Raft2PC
