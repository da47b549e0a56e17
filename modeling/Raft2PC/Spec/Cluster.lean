import Raft2PC.Spec.AIOServer
import Mathlib.Data.Fintype.Basic
import Mathlib.Logic.Function.Basic

/-! One cluster of three servers and the connections between them. A connection
carries one request and at most one response; messages are delivered whole, in any
order, or lost. What one read of 1024 bytes makes of longer ones is in `Spec.Reading`. -/

namespace Raft2PC

/-- What a connection carries. The response travels with the request it answers. -/
inductive Call where
  | voteReq (req : RequestVoteReq)
  | voteRsp (req : RequestVoteReq) (rsp : RequestVoteRsp)
  | appendReq (req : AppendEntriesReq)
  | appendRsp (req : AppendEntriesReq) (rsp : AppendEntriesRsp)
deriving DecidableEq, Repr

structure Connection where
  src : Idx
  dst : Idx
  call : Call
deriving DecidableEq, Repr

namespace Connection

def reader (c : Connection) : Idx :=
  match c.call with
  | .voteReq _ | .appendReq _ => c.dst
  | .voteRsp .. | .appendRsp .. => c.src

def msg (c : Connection) : WrapperMessage :=
  match c.call with
  | .voteReq req => .requestVoteReq req
  | .voteRsp _ rsp => .requestVoteRsp rsp
  | .appendReq req => .appendEntriesReq req
  | .appendRsp _ rsp => .appendEntriesRsp rsp

/-- The connection once the reader of the request has written `a` to it. -/
def answered (c : Connection) (a : AIOAction) : Option Connection :=
  match c.call, a with
  | .voteReq req, .writeMsg _ (.requestVoteRsp rsp) => some { c with call := .voteRsp req rsp }
  | .appendReq req, .writeMsg _ (.appendEntriesRsp rsp) => some { c with call := .appendRsp req rsp }
  | _, _ => none

/-- The connection server `p` opens by `a`, if it dials a server of the cluster. -/
def dialed (p : Idx) (a : AIOAction) : Option Connection :=
  match a with
  | .connect (.server idx) (.requestVoteReq req) _ => some ⟨p, idx, .voteReq req⟩
  | .connect (.server idx) (.appendEntriesReq req) _ => some ⟨p, idx, .appendReq req⟩
  | _ => none

end Connection

structure Cluster where
  servers : Idx → AIOServer
  net : List Connection

/-- Messages from outside: the routing service's requests, the client's prints and the
administrator's Stop and Resume. -/
inductive ClientMsg where
  | intraShard (req : IntraShardReq)
  | crossShard (req : CrossShardReq)
  | printBalance (req : PrintBalanceReq)
  | printDatastore (req : PrintDatastoreReq)
  | stop (m : Stop)
  | resume (m : Resume)
deriving DecidableEq, Repr

def ClientMsg.msg : ClientMsg → WrapperMessage
  | .intraShard req => .intraShardReq req
  | .crossShard req => .crossShardReq req
  | .printBalance req => .printBalanceReq req
  | .printDatastore req => .printDatastoreReq req
  | .stop m => .stop m
  | .resume m => .resume m

inductive Action where
  /-- the timer of server `p` fires -/
  | timeout (p : Idx)
  /-- a client's message reaches server `p` on socket `fd` -/
  | request (p : Idx) (fd : ℤ) (m : ClientMsg)
  /-- the message on the `k`-th connection is read, on socket `fd` of its reader -/
  | deliver (k : ℕ) (fd : ℤ)
  /-- the `k`-th connection breaks -/
  | lose (k : ℕ)
deriving DecidableEq, Repr

/-- An action together with the contents of whatever the language leaves undefined in it. -/
structure Event where
  action : Action
  undef : Undefined

namespace Cluster

def init (clusterId : ℕ) (shard : Table ℤ) : Cluster where
  servers p := AIOServer.new clusterId (clusterId * SERVER_NUM_PER_CLUSTER + p) shard
  net := []

/-- Server `p` has reacted with `r`; `reply` says how its writes reach a peer. -/
def after (s : Cluster) (p : Idx) (r : AIOServer × List AIOAction)
    (net : List Connection) (reply : AIOAction → Option Connection) : Cluster where
  servers := Function.update s.servers p r.1
  net := net ++ r.2.filterMap reply ++ r.2.filterMap (Connection.dialed p)

def step (s : Cluster) (e : Event) : Cluster :=
  match e.action with
  | .timeout p => s.after p ((s.servers p).timeout e.undef) s.net fun _ => none
  | .request p fd m =>
    s.after p (AIOServer.process e.undef fd (s.servers p) m.msg) s.net fun _ => none
  | .deliver k fd =>
    match s.net[k]? with
    | none => s
    | some c =>
      s.after c.reader (AIOServer.process e.undef fd (s.servers c.reader) c.msg)
        (s.net.eraseIdx k) c.answered
  | .lose k => { s with net := s.net.eraseIdx k }

/-- The states reached by runs from a fresh cluster all of whose steps satisfy `ok`. -/
inductive Reach (ok : Cluster → Event → Prop) : Cluster → Prop
  | init (clusterId : ℕ) (shard : Table ℤ) : Reach ok (init clusterId shard)
  | step {s : Cluster} (e : Event) : Reach ok s → ok s e → Reach ok (s.step e)

inductive Path (ok : Cluster → Event → Prop) (s : Cluster) : Cluster → Prop
  | refl : Path ok s s
  | step {s' : Cluster} (e : Event) : Path ok s s' → ok s' e → Path ok s (s'.step e)

def anyStep : Cluster → Event → Prop := fun _ _ => True

def raft (s : Cluster) (p : Idx) : RaftState := (s.servers p).raftState

end Cluster

end Raft2PC
