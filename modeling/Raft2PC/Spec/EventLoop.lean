import Raft2PC.Spec.Access
import Raft2PC.Spec.Protobuf
import Raft2PC.Spec.Server

/-! `AIOServer::run` and `asyncIO.cpp`: the loop over the completions of the I/O requests
that the server has pending, and the ways in which its process can end. -/

namespace Raft2PC

/-- A pending request: `AIOData` by its event type. -/
inductive IORequest where
  | timeout
  | accept
  | connect (fd : ℤ) (buf : List UInt8) (messageType : AIOMessageType)
  | read (fd : ℤ)
  | write (fd : ℤ) (buf : List UInt8) (messageType : AIOMessageType)
deriving DecidableEq, Repr

def ETIME : ℤ := 62

def bufferSize : ℕ := 1024

/-- The `k`-th pending request completes with `cqe->res`. -/
structure Completion where
  k : ℕ
  res : ℤ
  /-- what the peer has sent so far, for a read -/
  bytes : List UInt8
  /-- the result of `socket` for each peer that is dialed -/
  socket : Peer → ℤ
  undef : Undefined

structure EventLoop where
  server : AIOServer
  pending : List IORequest

/-- The request that an action of a handler submits. -/
def AIOAction.submit (proto : Protobuf) (socket : Peer → ℤ) : AIOAction → Option IORequest
  | .writeMsg fd msg => some (.write fd (proto.serialize msg) .noResponse)
  | .connect peer msg type => some (.connect (socket peer) (proto.serialize msg) type)
  | .close _ | .updateDataShard | .fatalError => none

namespace EventLoop

def start (server : AIOServer) : EventLoop where
  server := server
  pending := [.accept, .timeout]

/-- `parse_buf_to_msg` on the `res` bytes that a read brought. -/
def parsed (proto : Protobuf) (bytes : List UInt8) (res : ℕ) : WrapperMessage :=
  proto.parse (bytes.take (min res bufferSize))

/-- The completions that `run` skips: an error, or `-ETIME` of anything but the timer. -/
def skips (r : IORequest) (res : ℤ) : Bool :=
  (res ≠ -ETIME && res < 0) || (res = -ETIME && r ≠ .timeout)

/-- What reaches the server by a completion: the timer, or the message parsed from the bytes
that were read. -/
def input (proto : Protobuf) (r : IORequest) (c : Completion) : Option ServerInput :=
  if skips r c.res then none
  else
    match r with
    | .timeout => some .timeout
    | .read fd => some (.message fd (parsed proto c.bytes c.res.toNat))
    | _ => none

/-- The requests that the loop itself submits: another timer, accept, write or read. -/
def follow (r : IORequest) (res : ℤ) : List IORequest :=
  if skips r res then []
  else
    match r with
    | .timeout => [.timeout]
    | .accept => [.accept, .read res]
    | .connect fd buf type => [.write fd buf type]
    | .write fd _ .waitResponse => [.read fd]
    | .read _ | .write _ _ .noResponse => []

/-- One round of `run`. -/
def step (proto : Protobuf) (s : EventLoop) (c : Completion) : EventLoop :=
  if !s.server.keepRunning then s
  else
    match s.pending[c.k]? with
    | none => s
    | some r =>
      let done := match input proto r c with
        | some x => s.server.react ⟨x, c.undef⟩
        | none => (s.server, [])
      { server := done.1
        pending := s.pending.eraseIdx c.k ++ done.2.filterMap (AIOAction.submit proto c.socket) ++
          follow r c.res }

end EventLoop

/-! ### How a process ends -/

/-- `matched_log_size_[rsp.serverid() % SERVER_NUM_PER_CLUSTER]`, where `%` keeps the sign. -/
def matchedInVector (rs : RaftState) : WrapperMessage → Bool
  | .appendEntriesRsp rsp =>
    rs.role ≠ .leader || rsp.term ≠ rs.currentTerm ||
      (0 ≤ rsp.serverId.tmod SERVER_NUM_PER_CLUSTER &&
        rsp.serverId.tmod SERVER_NUM_PER_CLUSTER < rs.matchedLogSize.length)
  | _ => true

def staysInVectors (sv : AIOServer) (x : Stimulus) : Bool :=
  match x.input with
  | .timeout => sv.timeoutAccess.all fun a => a.InVector
  | .message fd msg => sv.pretendFail || matchedInVector sv.raftState msg &&
      (AIOServer.dispatchAccess x.undef fd sv.raftState msg).all fun a => a.InVector

namespace AIOServer

/-- `fatal_error` ends the process. -/
def dies (sv : AIOServer) (x : Stimulus) : Bool := (sv.react x).2.contains .fatalError

/-- An input may end a running server: `run` returns, the process dies, or a vector is
indexed outside its bounds and anything may happen. -/
def mayEnd (sv : AIOServer) (x : Stimulus) : Bool :=
  !(sv.next x).keepRunning || sv.dies x || !staysInVectors sv x

end AIOServer

namespace EventLoop

def taken (proto : Protobuf) (s : EventLoop) (c : Completion) : Option Stimulus :=
  if s.server.keepRunning then
    ((s.pending[c.k]?).bind (input proto · c)).map fun x => ⟨x, c.undef⟩
  else none

/-- The runs over some completions may end while server `sv` takes up `x`. After an access
outside a vector the process may also go on. -/
inductive Ends (proto : Protobuf) (sv : AIOServer) (x : Stimulus) :
    EventLoop → List Completion → Prop
  | here {s : EventLoop} {c : Completion} {cs : List Completion} (hsv : s.server = sv)
      (hx : taken proto s c = some x) (hend : sv.mayEnd x = true) : Ends proto sv x s (c :: cs)
  | later {s : EventLoop} {c : Completion} {cs : List Completion}
      (hon : ∀ y ∈ taken proto s c, s.server.dies y = false)
      (hend : Ends proto sv x (s.step proto c) cs) : Ends proto sv x s (c :: cs)

end EventLoop

end Raft2PC
