import Raft2PC.Spec.Discipline
import Raft2PC.Spec.EventLoop
import Raft2PC.Spec.Wire

/-! A server reads once, at most 1024 bytes, and takes what it parses of them for the message.
The tests here leave the messages between servers that one read brings whole. -/

namespace Raft2PC

/-- What one read leaves of a message that has been sent. -/
def WrapperMessage.asRead (m : WrapperMessage) : WrapperMessage :=
  EventLoop.parsed wire (wire.serialize m) (wire.serialize m).length

/-- A message between servers is read whole. -/
def readsWhole (s : Cluster) (e : Event) : Bool :=
  match e.action with
  | .deliver k _ => (s.net[k]?).all fun c => (wire.serialize c.msg).length ≤ bufferSize
  | _ => true

/-- Entries are created by a leader only and read whole. -/
def wellLed (s : Cluster) (e : Event) : Bool := leaderAppends s e && readsWhole s e

namespace Cluster

/-- `step` with the bytes between two servers: the reader takes what one read leaves. -/
def stepRead (s : Cluster) (e : Event) : Cluster :=
  match e.action with
  | .deliver k fd =>
    match s.net[k]? with
    | none => s
    | some c =>
      s.after c.reader (AIOServer.process e.undef fd (s.servers c.reader) c.msg.asRead)
        (s.net.eraseIdx k) c.answered
  | _ => s.step e

def runRead (s : Cluster) (es : List Event) : Cluster := es.foldl stepRead s

end Cluster

end Raft2PC
