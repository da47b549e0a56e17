import Raft2PC.Spec.AIOServer

/-! One server on its own: what reaches it, one thing after the other. -/

namespace Raft2PC

inductive ServerInput where
  /-- the timer fires -/
  | timeout
  /-- a message is read on socket `fd` -/
  | message (fd : ℤ) (msg : WrapperMessage)
deriving DecidableEq, Repr

structure Stimulus where
  input : ServerInput
  undef : Undefined

namespace AIOServer

/-- One round of `run`; a server that was told to exit makes no further one. -/
def react (sv : AIOServer) (x : Stimulus) : AIOServer × List AIOAction :=
  if !sv.keepRunning then (sv, [])
  else
    match x.input with
    | .timeout => sv.timeout x.undef
    | .message fd msg => process x.undef fd sv msg

def next (sv : AIOServer) (x : Stimulus) : AIOServer := (sv.react x).1

def runs (sv : AIOServer) (xs : List Stimulus) : AIOServer := xs.foldl next sv

def Follows (ok : AIOServer → Stimulus → Prop) : AIOServer → List Stimulus → Prop
  | _, [] => True
  | sv, x :: xs => ok sv x ∧ Follows ok (sv.next x) xs

instance decidableFollows (ok : AIOServer → Stimulus → Prop) [∀ sv x, Decidable (ok sv x)] :
    ∀ sv xs, Decidable (Follows ok sv xs)
  | _, [] => inferInstanceAs (Decidable True)
  | sv, x :: xs =>
    have := decidableFollows ok (sv.next x) xs
    inferInstanceAs (Decidable (ok sv x ∧ Follows ok (sv.next x) xs))

end AIOServer

end Raft2PC
