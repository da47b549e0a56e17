import Raft2PC.Spec.Executor

/-! `routingservice.py`. Coroutines run alone from one await to the next; a coroutine at
an await is a task, with what it does when it is resumed. The queue timeout job has a
thread of its own. -/

namespace Raft2PC

inductive Request where
  | intra (req : IntraShardReq)
  | cross (req : CrossShardReq)
deriving DecidableEq, Repr

/-- A request in a queue, with `time.time()` of its arrival in milliseconds. -/
structure Queued where
  request : Request
  time : ℤ
deriving DecidableEq, Repr

/-- `RoutingService`. The client's connection of a transaction goes by the id. -/
structure RoutingService where
  leaderPerCluster : List ℤ
  transactionId : ℤ
  numReplyFor2PC : Table ℤ
  transactionRequest : List (List Queued)

/-- What a coroutine does after `redirect_…_request_to_server` has returned. -/
inductive Caller where
  /-- `handle_request` is at its end -/
  | done
  /-- `handle_request` turns to the receiver's cluster -/
  | receiver (req : CrossShardReq) (cluster : ℕ) (hasLeader : Bool)
  /-- the loop over the pending requests of a cluster goes on -/
  | pending (cluster : ℕ) (rest : List Queued)
deriving DecidableEq, Repr

/-- A coroutine at an await. -/
inductive Task where
  /-- PREPARE was sent to the leader of a cluster -/
  | prepare (req : CrossShardReq) (cluster : ℕ) (k : Caller)
  /-- COMMIT was broadcast, the acknowledgements are gathered -/
  | commit (req : CrossShardReq) (k : Caller)
  /-- the client was told "Transaction SUCCEED" -/
  | committed (req : CrossShardReq) (k : Caller)
  /-- ABORT was broadcast because of NO or, if so marked, of a timeout -/
  | abort (req : CrossShardReq) (timedOut : Bool) (k : Caller)
  /-- the client was told "Transaction ABORTED" -/
  | aborted (req : CrossShardReq) (timedOut : Bool) (k : Caller)
  /-- an intra-shard request was sent to the leader of its cluster -/
  | intra (req : IntraShardReq) (k : Caller)
  /-- the leader's response was passed on to the client -/
  | replied (req : IntraShardReq) (k : Caller)
deriving DecidableEq, Repr

/-- `process_message_queue` between two steps of its thread. -/
inductive Job where
  | idle
  /-- the loop has come to this cluster -/
  | cluster (i : ℕ)
  /-- the loop over a copy of its queue, with `new_pending_requests` -/
  | scan (i : ℕ) (rest kept : List Queued)
  /-- it has broadcast ABORT -/
  | abort (i : ℕ) (rest kept : List Queued) (req : CrossShardReq)
  /-- it has told the client "Transaction ABORTED" -/
  | aborted (i : ℕ) (rest kept : List Queued) (req : CrossShardReq)
  /-- an exception has ended the thread -/
  | dead
deriving DecidableEq, Repr

inductive FinalReply where
  | succeed
  | aborted
deriving DecidableEq, Repr

/-- The messages of the service: PREPARE and intra-shard requests to the server of a
cluster, answers to PREPARE, the two broadcasts and the replies to clients. -/
inductive Traffic where
  | prepare (req : CrossShardReq) (cluster : ℕ) (server : ℤ)
  | answer (req : CrossShardReq) (cluster : ℕ) (result : CrossShardResultType)
  | commit (req : CrossShardReq)
  | abort (req : CrossShardReq)
  | reply (id : ℤ) (r : FinalReply)
  | intra (req : IntraShardReq) (server : ℤ)
  | intraReply (id : ℤ)
deriving DecidableEq, Repr

/-- The service with its suspended coroutines, its job and its traffic so far. -/
structure Routing where
  service : RoutingService
  tasks : List Task
  job : Job
  traffic : List Traffic

/-- How an await ends. The response of a server carries the id of the request. -/
inductive Outcome where
  | answer (result : CrossShardResultType)
  | timeout
  /-- it returns, from a read without such a response -/
  | returns
  /-- it raises another exception -/
  | raises
deriving DecidableEq, Repr

inductive Incoming where
  | appendEntriesReq (leaderId : ℤ)
  | requestVoteReq (candidateId : ℤ)
  | intraShardReq (req : IntraShardReq)
  | crossShardReq (req : CrossShardReq)
deriving DecidableEq, Repr

inductive RoutingAction where
  /-- a connection is accepted and its message read -/
  | handle (m : Incoming)
  /-- the `n`-th suspended coroutine goes on -/
  | resume (n : ℕ) (o : Outcome)
  /-- the thread of the job makes a step -/
  | job (o : Outcome)
deriving DecidableEq, Repr

structure RoutingEvent where
  action : RoutingAction
  now : ℤ
deriving DecidableEq, Repr

namespace Routing

/-- Python's index into a list of length `n`. -/
def pyIndex (n : ℕ) (i : ℤ) : Option ℕ :=
  if 0 ≤ i ∧ i < n then some i.toNat
  else if -n ≤ i ∧ i < 0 then some (n + i).toNat
  else none

def init (numCluster : ℕ) : Routing where
  service :=
    { leaderPerCluster := List.replicate numCluster (-1)
      transactionId := 0
      numReplyFor2PC := ∅
      transactionRequest := List.replicate numCluster [] }
  tasks := []
  job := .idle
  traffic := []

def clusterIndex (s : Routing) (i : ℤ) : Option ℕ := pyIndex s.service.leaderPerCluster.length i

def leader (s : Routing) (c : ℕ) : ℤ := s.service.leaderPerCluster.getD c (-1)

def setLeader (s : Routing) (c : ℕ) (serverId : ℤ) : Routing :=
  { s with service := { s.service with
      leaderPerCluster := s.service.leaderPerCluster.set c serverId } }

def queue (s : Routing) (c : ℕ) : List Queued := s.service.transactionRequest.getD c []

def setQueue (s : Routing) (c : ℕ) (q : List Queued) : Routing :=
  { s with service := { s.service with
      transactionRequest := s.service.transactionRequest.set c q } }

def numReply (s : Routing) (id : ℤ) : ℤ := s.service.numReplyFor2PC.get id

def setNumReply (s : Routing) (id n : ℤ) : Routing :=
  { s with service := { s.service with numReplyFor2PC := s.service.numReplyFor2PC.insert id n } }

def newId (s : Routing) : Routing :=
  { s with service := { s.service with transactionId := s.service.transactionId + 1 } }

def record (s : Routing) (t : Traffic) : Routing := { s with traffic := s.traffic ++ [t] }

def await (s : Routing) (t : Task) : Routing := { s with tasks := s.tasks ++ [t] }

def wake (s : Routing) (n : ℕ) : Routing := { s with tasks := s.tasks.eraseIdx n }

def enqueue (s : Routing) (c : ℕ) (r : Request) (now : ℤ) : Routing :=
  s.setQueue c (s.queue c ++ [⟨r, now⟩])

/-- `LocalConfig.server_id_to_index` of the leader, -1 included. -/
def leaderIndex (s : Routing) (c : ℕ) : ℤ := s.leader c % SERVER_NUM_PER_CLUSTER

/-- `redirect_cross_shard_request_to_server` up to its await. -/
def redirectCross (s : Routing) (req : CrossShardReq) (c : ℕ) (k : Caller) : Routing :=
  (s.record (.prepare req c (s.leaderIndex c))).await (.prepare req c k)

/-- `redirect_intra_shard_request_to_server` up to its await. -/
def redirectIntra (s : Routing) (req : IntraShardReq) (c : ℕ) (k : Caller) : Routing :=
  (s.record (.intra req (s.leaderIndex c))).await (.intra req k)

/-- The caller goes on, to its next await or to its end. -/
def return_ (s : Routing) (now : ℤ) : Caller → Routing
  | .done => s
  | .receiver req c hasLeader =>
    if hasLeader then s.redirectCross req c .done else s.enqueue c (.cross req) now
  | .pending c [] => s.setQueue c []
  | .pending c (⟨.intra req, _⟩ :: rest) => s.redirectIntra req c (.pending c rest)
  | .pending c (⟨.cross req, _⟩ :: rest) => s.redirectCross req c (.pending c rest)

/-- `handle_request`. -/
def handle (s : Routing) (now : ℤ) : Incoming → Routing
  | .appendEntriesReq leaderId =>
    match s.clusterIndex (leaderId / SERVER_NUM_PER_CLUSTER) with
    | none => s
    | some c =>
      let pending := s.queue c
      if s.leader c = -1 ∧ pending ≠ [] then (s.setLeader c leaderId).return_ now (.pending c pending)
      else s.setLeader c leaderId
  | .requestVoteReq candidateId =>
    match s.clusterIndex (candidateId / SERVER_NUM_PER_CLUSTER) with
    | none => s
    | some c => s.setLeader c (-1)
  | .intraShardReq req =>
    let s := s.newId
    let req := { req with id := s.service.transactionId }
    match s.clusterIndex req.clusterId with
    | none => s
    | some c =>
      if s.leader c = -1 then s.enqueue c (.intra req) now else s.redirectIntra req c .done
  | .crossShardReq req =>
    let s := s.newId
    let req := { req with phase := .prepare, id := s.service.transactionId }
    let s := s.setNumReply req.id 0
    match s.clusterIndex req.senderClusterId, s.clusterIndex req.receiverClusterId with
    | some sender, some receiver =>
      let senderHasLeader := s.leader sender ≠ -1
      let toReceiver := Caller.receiver req receiver (s.leader receiver ≠ -1)
      if senderHasLeader then s.redirectCross req sender toReceiver
      else (s.enqueue sender (.cross req) now).return_ now toReceiver
    | _, _ => s

/-- The rest of `redirect_cross_shard_request_to_server`. -/
def answered (s : Routing) (now : ℤ) (req : CrossShardReq) (c : ℕ) (k : Caller) :
    Outcome → Routing
  | .timeout =>
    -- the response stays None, so the coroutine ends by an exception in any case
    if s.numReply req.id ≠ -1 then (s.record (.abort req)).await (.abort req true k)
    else s.setNumReply req.id (-1)
  | .answer .yes =>
    let s := (s.record (.answer req c .yes)).setNumReply req.id (s.numReply req.id + 1)
    if s.numReply req.id = 2 then (s.record (.commit req)).await (.commit req k)
    else s.return_ now k
  | .answer .no =>
    let s := s.record (.answer req c .no)
    if s.numReply req.id ≠ -1 then (s.record (.abort req)).await (.abort req false k)
    else (s.setNumReply req.id (-1)).return_ now k
  | .answer .ack => (s.record (.answer req c .ack)).return_ now k
  | .returns | .raises => s

/-- A coroutine goes on from its await. Exceptions of a broadcast are caught. -/
def resume (s : Routing) (now : ℤ) (o : Outcome) : Task → Routing
  | .prepare req c k => s.answered now req c k o
  | .commit req k => (s.record (.reply req.id .succeed)).await (.committed req k)
  | .committed _ k => if o = .raises then s else s.return_ now k
  | .abort req timedOut k => (s.record (.reply req.id .aborted)).await (.aborted req timedOut k)
  | .aborted req timedOut k =>
    if o = .raises then s
    else
      let s := s.setNumReply req.id (-1)
      if timedOut then s else s.return_ now k
  | .intra req k =>
    if o = .raises ∨ o = .timeout then s
    else (s.record (.intraReply req.id)).await (.replied req k)
  | .replied _ k => if o = .raises then s else s.return_ now k

def setJob (s : Routing) (j : Job) : Routing := { s with job := j }

/-- A step of `process_message_queue`. -/
def stepJob (s : Routing) (now : ℤ) (o : Outcome) : Routing :=
  match s.job with
  | .idle => s.setJob (.cluster 0)
  | .cluster i =>
    if i < s.service.transactionRequest.length then
      if s.queue i = [] then s.setJob (.cluster (i + 1)) else s.setJob (.scan i (s.queue i) [])
    else s.setJob .idle
  | .scan i [] kept => (s.setQueue i kept).setJob (.cluster (i + 1))
  | .scan i (q :: rest) kept =>
    if now - q.time < 3000 then s.setJob (.scan i rest (kept ++ [q]))
    else
      match q.request with
      | .intra _ => s.setJob (.scan i rest kept)
      | .cross req =>
        if s.numReply req.id ≠ -1 then (s.record (.abort req)).setJob (.abort i rest kept req)
        else (s.setNumReply req.id (-1)).setJob (.scan i rest kept)
  | .abort i rest kept req =>
    (s.record (.reply req.id .aborted)).setJob (.aborted i rest kept req)
  | .aborted i rest kept req =>
    if o = .raises then s.setJob .dead
    else (s.setNumReply req.id (-1)).setJob (.scan i rest kept)
  | .dead => s

def step (s : Routing) (e : RoutingEvent) : Routing :=
  match e.action with
  | .handle m => s.handle e.now m
  | .resume n o =>
    match s.tasks[n]? with
    | none => s
    | some t => (s.wake n).resume e.now o t
  | .job o => s.stepJob e.now o

def run (s : Routing) (es : List RoutingEvent) : Routing := es.foldl step s

end Routing

end Raft2PC
