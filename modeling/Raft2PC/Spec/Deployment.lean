import Raft2PC.Spec.Client
import Raft2PC.Spec.Database

/-! The whole database: the client, the routing service, the clusters and the connections
between them. A connection carries one message and at most one response, and is known by its
place in the order in which connections are opened; whatever is under way may be delivered in
any order, or never. -/

namespace Raft2PC

/-- A connection from outside its cluster to a server. -/
structure Line where
  cluster : ℕ
  server : Idx
  msg : ClientMsg
  /-- the server has read the message -/
  read : Bool
  /-- what the server has written, in order -/
  written : List WrapperMessage
  /-- the service has read the response -/
  taken : Bool
deriving DecidableEq, Repr

def Line.open_ (cluster : ℕ) (server : Idx) (msg : ClientMsg) : Line where
  cluster := cluster
  server := server
  msg := msg
  read := false
  written := []
  taken := false

def broadcastLines (n : ℕ) (phase : CrossShardPhaseType) (req : CrossShardReq) : List Line :=
  (Broadcast.start n req).elim [] fun b =>
    b.sends.map fun x => .open_ x.cluster x.server (.crossShard { req with phase })

def Traffic.lines (n : ℕ) : Traffic → List Line
  | .prepare req c server => [.open_ c (LocalConfig.server server) (.crossShard req)]
  | .intra req server =>
    (Routing.pyIndex n req.clusterId).elim [] fun c =>
      [.open_ c (LocalConfig.server server) (.intraShard req)]
  | .commit req => broadcastLines n .commit req
  | .abort req => broadcastLines n .abort req
  | _ => []

def Outgoing.lines (n : ℕ) (o : Outgoing) : List Line :=
  (Routing.pyIndex n o.cluster).elim [] fun c => [.open_ c o.server o.msg]

/-- What a server has for the routing service. -/
def AIOAction.post : AIOAction → Option Incoming
  | .connect .routingService (.appendEntriesReq req) _ => some (.appendEntriesReq req.leaderId)
  | .connect .routingService (.requestVoteReq req) _ => some (.requestVoteReq req.candidateId)
  | _ => none

structure Deployment where
  routing : Routing
  clusters : ℕ → Cluster
  lines : List Line
  /-- how many messages between servers have been read -/
  relayed : ℕ
  /-- messages on their way to the routing service -/
  posts : List Incoming

inductive DeploymentAction where
  /-- the client carries out a command -/
  | command (c : ClientCommand)
  /-- the service reads the `k`-th message on its way -/
  | arrive (k : ℕ)
  /-- the `n`-th suspended coroutine reads the response on line `k`, which it waits for -/
  | answer (n k : ℕ)
  /-- its await ends in another way -/
  | resume (n : ℕ) (o : Outcome)
  /-- the thread of the job makes a step -/
  | job (o : Outcome)
  /-- the server of line `k` reads its message -/
  | read (k : ℕ)
  /-- the timer of server `p` of cluster `c` fires -/
  | timeout (c : ℕ) (p : Idx)
  /-- the message on the `k`-th connection between servers of cluster `c` is read -/
  | deliver (c k : ℕ)
  /-- that connection breaks -/
  | lose (c k : ℕ)
deriving DecidableEq, Repr

structure DeploymentEvent where
  action : DeploymentAction
  now : ℤ
  undef : Undefined

namespace Deployment

def init (n : ℕ) (shards : ℕ → Table ℤ) : Deployment where
  routing := Routing.init n
  clusters c := Cluster.init c (shards c)
  lines := []
  relayed := 0
  posts := []

def numCluster (s : Deployment) : ℕ := s.routing.service.leaderPerCluster.length

/-- The socket of line `k`. No two connections have the same. -/
def lineSocket (k : ℕ) : ℤ := 2 * k

/-- The socket of the `j`-th message between servers that is read. -/
def peerSocket (j : ℕ) : ℤ := 2 * j + 1

/-- What the coroutine gets from the response on a line, if it waits for it. Coroutines that
wait for the same request are not told apart. -/
def response (t : Task) (l : Line) : Option Outcome :=
  if l.taken then none
  else
    match t, l.written.head? with
    | .prepare req c _, some (.crossShardRsp rsp) =>
      if l.cluster = c ∧ l.msg = .crossShard req then some (.answer rsp.result) else none
    | .intra req _, some (.intraShardRsp _) =>
      if l.msg = .intraShard req then some .returns else none
    | _, _ => none

/-- What a step is for the routing service. -/
def routes (s : Deployment) (e : DeploymentEvent) : Option RoutingEvent :=
  match e.action with
  | .arrive k => s.posts[k]?.map fun m => ⟨.handle m, e.now⟩
  | .answer n k =>
    match s.routing.tasks[n]?, s.lines[k]? with
    | some t, some l => (response t l).map fun o => ⟨.resume n o, e.now⟩
    | _, _ => none
  | .resume n o =>
    match o with
    | .answer _ => none
    | _ => some ⟨.resume n o, e.now⟩
  | .job o => some ⟨.job o, e.now⟩
  | _ => none

/-- What it is for a cluster. -/
def stirs (s : Deployment) (e : DeploymentEvent) : Option (ℕ × Event) :=
  match e.action with
  | .read k =>
    match s.lines[k]? with
    | some l => if l.read then none else some (l.cluster, ⟨.request l.server (lineSocket k) l.msg, e.undef⟩)
    | none => none
  | .timeout c p => some (c, ⟨.timeout p, e.undef⟩)
  | .deliver c k => some (c, ⟨.deliver k (peerSocket s.relayed), e.undef⟩)
  | .lose c k => some (c, ⟨.lose k, e.undef⟩)
  | _ => none

/-- The service makes a step and opens connections for what it sends. -/
def route (s : Deployment) (e : RoutingEvent) : Deployment :=
  { s with
    routing := s.routing.step e
    lines := s.lines ++ ((s.routing.step e).traffic.drop s.routing.traffic.length).flatMap
      (Traffic.lines s.numCluster) }

def Line.after (s : Cluster) (c : ℕ) (e : Event) (k : ℕ) (l : Line) : Line :=
  if l.cluster = c then
    { l with written := l.written ++ answersOn (lineSocket k) (s.emits e l.server) }
  else l

/-- Cluster `c` makes a step; what its servers write goes on its way. -/
def stir (s : Deployment) (c : ℕ) (e : Event) : Deployment :=
  { s with
    clusters := Function.update s.clusters c ((s.clusters c).step e)
    lines := s.lines.mapIdx (Line.after (s.clusters c) c e)
    posts := s.posts ++ (List.finRange SERVER_NUM_PER_CLUSTER).flatMap fun p =>
      ((s.clusters c).emits e p).filterMap AIOAction.post }

/-- The message or the response that the step takes from its connection. -/
def take (s : Deployment) (e : DeploymentEvent) : Deployment :=
  match e.action with
  | .command c =>
    { s with
      posts := s.posts ++ (Client.posts c).toList
      lines := s.lines ++ (Client.sends s.numCluster c).flatMap (Outgoing.lines s.numCluster) }
  | .arrive k => { s with posts := s.posts.eraseIdx k }
  | .answer _ k =>
    if s.routes e = none then s
    else { s with lines := s.lines.modify k fun l => { l with taken := true } }
  | .read k => { s with lines := s.lines.modify k fun l => { l with read := true } }
  | .deliver .. => { s with relayed := s.relayed + 1 }
  | _ => s

def step (s : Deployment) (e : DeploymentEvent) : Deployment :=
  match s.routes e, s.stirs e with
  | some r, _ => (s.take e).route r
  | none, some (c, x) => (s.take e).stir c x
  | none, none => s.take e

def run (s : Deployment) (es : List DeploymentEvent) : Deployment := es.foldl step s

def Follows (ok : Deployment → DeploymentEvent → Prop) : Deployment → List DeploymentEvent → Prop
  | _, [] => True
  | s, e :: es => ok s e ∧ Follows ok (s.step e) es

instance decidableFollows (ok : Deployment → DeploymentEvent → Prop)
    [∀ s e, Decidable (ok s e)] : ∀ s es, Decidable (Follows ok s es)
  | _, [] => inferInstanceAs (Decidable True)
  | s, e :: es =>
    have := decidableFollows ok (s.step e) es
    inferInstanceAs (Decidable (ok s e ∧ Follows ok (s.step e) es))

end Deployment

end Raft2PC
