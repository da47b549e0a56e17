import Raft2PC.Spec.Discipline

/-! Which connection a server reads in a step, and what it writes to which connection. -/

namespace Raft2PC

def answersOn (fd : ℤ) (acts : List AIOAction) : List WrapperMessage :=
  acts.filterMap fun
    | .writeMsg fd' msg => if fd' = fd then some msg else none
    | _ => none

namespace Cluster

def emits (s : Cluster) (e : Event) (p : Idx) : List AIOAction :=
  match e.action with
  | .timeout q => if q = p then ((s.servers p).timeout e.undef).2 else []
  | .request q fd m => if q = p then (AIOServer.process e.undef fd (s.servers p) m.msg).2 else []
  | .deliver k fd =>
    match s.net[k]? with
    | some c =>
      if c.reader = p then (AIOServer.process e.undef fd (s.servers p) c.msg).2 else []
    | none => []
  | .lose _ => []

/-- The connection server `p` reads from in a step. -/
def reads (s : Cluster) (e : Event) (p : Idx) : Option ℤ :=
  match e.action with
  | .request q fd _ => if q = p then some fd else none
  | .deliver k fd =>
    match s.net[k]? with
    | some c => if c.reader = p then some fd else none
    | none => none
  | _ => none

end Cluster

def sockets (p : Idx) : Cluster → List Event → List ℤ
  | _, [] => []
  | s, e :: es => (s.reads e p).toList ++ sockets p (s.step e) es

def written (p : Idx) (fd : ℤ) : Cluster → List Event → List WrapperMessage
  | _, [] => []
  | s, e :: es => answersOn fd (s.emits e p) ++ written p fd (s.step e) es

/-- No connection is read from twice, and none has the number that stands for none. -/
structure FreshSockets (p : Idx) (s : Cluster) (es : List Event) : Prop where
  nodup : (sockets p s es).Nodup
  nonneg : ∀ fd ∈ sockets p s es, 0 ≤ fd

instance (p : Idx) (s : Cluster) (es : List Event) : Decidable (FreshSockets p s es) :=
  decidable_of_iff ((sockets p s es).Nodup ∧ ∀ fd ∈ sockets p s es, 0 ≤ fd)
    ⟨fun h => ⟨h.1, h.2⟩, fun h => ⟨h.nodup, h.nonneg⟩⟩

def isPositive : WrapperMessage → Bool
  | .intraShardRsp rsp => rsp.result = .success
  | .crossShardRsp rsp => rsp.result = .yes
  | _ => false

/-- The positions the commit loop of `executeRsp` runs over in a step of server `p`. -/
def looped (s : Cluster) (e : Event) (p : Idx) : List ℤ :=
  match e.action with
  | .deliver k _ =>
    match s.net[k]? with
    | some ⟨src, _, .appendRsp _ rsp⟩ =>
      if src = p ∧ !(s.servers p).pretendFail ∧ decides e.undef (s.raft p) rsp then
        indices ((s.raft p).commitIndex + 1) (s.raft p).comingCommitIndex
      else []
    | _ => []
  | _ => []

end Raft2PC
