import Raft2PC.Spec.RoutingService
import Raft2PC.Spec.Sockets

/-! The routing service with its clusters. COMMIT is broadcast over one connection to each
server of both clusters, and the coroutine goes on when `asyncio.gather` is over. -/

namespace Raft2PC

inductive SendStatus where
  | connecting
  /-- the message is written, the response awaited -/
  | reading
  /-- it has returned the response, or nothing if the server closed the connection -/
  | returned
  /-- it has raised: no connection, a broken one, or no response in three seconds -/
  | raised
deriving DecidableEq, Repr

/-- A send with the server's side of its connection. -/
structure Send where
  cluster : ℕ
  server : Idx
  status : SendStatus
  /-- the message is at the server and not read yet -/
  unread : Bool
  /-- the server has written its response -/
  answered : Bool
deriving DecidableEq, Repr

def Send.start (c : ℕ) (p : Idx) : Send where
  cluster := c
  server := p
  status := .connecting
  unread := false
  answered := false

/-- A broadcast of COMMIT. -/
structure Broadcast where
  req : CrossShardReq
  sends : List Send
  /-- its coroutine has gone on -/
  resumed : Bool
deriving DecidableEq, Repr

/-- `asyncio.gather` is over: a send has raised, or all have returned. -/
def Broadcast.over (b : Broadcast) : Bool :=
  b.sends.any (·.status = .raised) || b.sends.all (·.status = .returned)

/-- `broadcast_commit_message` up to its await, with `n` clusters. -/
def Broadcast.start (n : ℕ) (req : CrossShardReq) : Option Broadcast :=
  match Routing.pyIndex n req.senderClusterId, Routing.pyIndex n req.receiverClusterId with
  | some sender, some receiver =>
    some
      { req := req
        sends := (List.finRange SERVER_NUM_PER_CLUSTER).flatMap fun p =>
          [Send.start sender p, Send.start receiver p]
        resumed := false }
  | _, _ => none

def Broadcast.message (b : Broadcast) : CrossShardReq := { b.req with phase := .commit }

/-- The broadcast that a message of the service begins. -/
def Traffic.broadcast (n : ℕ) : Traffic → Option Broadcast
  | .commit req => Broadcast.start n req
  | _ => none

structure Database where
  routing : Routing
  broadcasts : List Broadcast
  clusters : ℕ → Cluster

inductive SendMove where
  /-- the connection is open and the message written -/
  | connect
  /-- the response is read -/
  | answer
  /-- the connection is closed without a response -/
  | close
  /-- an exception is raised -/
  | fail
deriving DecidableEq, Repr

inductive DatabaseAction where
  /-- a step of the service; the coroutine of a COMMIT does not go on by it -/
  | routing (a : RoutingAction)
  /-- the `n`-th suspended coroutine goes on, as the gather of the `j`-th broadcast is over -/
  | gathered (n j : ℕ)
  /-- something happens to the `i`-th send of the `j`-th broadcast -/
  | send (j i : ℕ) (m : SendMove)
  /-- the server of that send reads the message on socket `fd` -/
  | serve (j i : ℕ) (fd : ℤ)
  /-- anything else in cluster `c` -/
  | cluster (c : ℕ) (a : Action)
deriving DecidableEq, Repr

structure DatabaseEvent where
  action : DatabaseAction
  now : ℤ
  undef : Undefined

def Task.isCommit : Task → Bool
  | .commit .. => true
  | _ => false

def Send.move (x : Send) : SendMove → Send
  | .connect => if x.status = .connecting then { x with status := .reading, unread := true } else x
  | .answer => if x.status = .reading ∧ x.answered then { x with status := .returned } else x
  | .close => if x.status = .reading then { x with status := .returned } else x
  | .fail =>
    if x.status = .connecting ∨ x.status = .reading then { x with status := .raised } else x

def Broadcast.setSend (b : Broadcast) (i : ℕ) (x : Send) : Broadcast :=
  { b with sends := b.sends.set i x }

namespace Database

def init (n : ℕ) (shards : ℕ → Table ℤ) : Database where
  routing := Routing.init n
  broadcasts := []
  clusters c := Cluster.init c (shards c)

/-- The service makes a step, and the broadcasts of COMMIT in it begin. -/
def route (s : Database) (e : RoutingEvent) : Database where
  routing := s.routing.step e
  broadcasts := s.broadcasts ++
    ((s.routing.step e).traffic.drop s.routing.traffic.length).filterMap
      (Traffic.broadcast s.routing.service.leaderPerCluster.length)
  clusters := s.clusters

def setBroadcast (s : Database) (j : ℕ) (b : Broadcast) : Database :=
  { s with broadcasts := s.broadcasts.set j b }

def readEvent (e : DatabaseEvent) (p : Idx) (fd : ℤ) (req : CrossShardReq) : Event :=
  ⟨.request p fd (.crossShard req), e.undef⟩

def stepCluster (s : Database) (c : ℕ) (e : Event) : Database :=
  { s with clusters := Function.update s.clusters c ((s.clusters c).step e) }

def awaitsCommit (s : Database) (a : RoutingAction) : Bool :=
  match a with
  | .resume n _ => s.routing.tasks[n]?.any Task.isCommit
  | _ => false

/-- COMMIT comes from a broadcast only. -/
def isCommitRequest (a : Action) : Bool :=
  match a with
  | .request _ _ (.crossShard req) => req.phase = .commit
  | _ => false

def step (s : Database) (e : DatabaseEvent) : Database :=
  match e.action with
  | .routing a => if s.awaitsCommit a then s else s.route ⟨a, e.now⟩
  | .gathered n j =>
    match s.routing.tasks[n]?, s.broadcasts[j]? with
    | some (.commit req _), some b =>
      if b.req = req ∧ b.over ∧ !b.resumed then
        (s.route ⟨.resume n .returns, e.now⟩).setBroadcast j { b with resumed := true }
      else s
    | _, _ => s
  | .send j i m =>
    match s.broadcasts[j]? with
    | none => s
    | some b =>
      match b.sends[i]? with
      | none => s
      | some x => s.setBroadcast j (b.setSend i (x.move m))
  | .serve j i fd =>
    match s.broadcasts[j]? with
    | none => s
    | some b =>
      match b.sends[i]? with
      | none => s
      | some x =>
        if x.unread then
          let read := readEvent e x.server fd b.message
          let acts := (s.clusters x.cluster).emits read x.server
          (s.stepCluster x.cluster read).setBroadcast j
            (b.setSend i { x with unread := false, answered := x.answered || answersOn fd acts ≠ [] })
        else s
  | .cluster c a => if isCommitRequest a then s else s.stepCluster c ⟨a, e.undef⟩

def run (s : Database) (es : List DatabaseEvent) : Database := es.foldl step s

end Database

end Raft2PC
