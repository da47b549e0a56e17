import Raft2PC.Spec.Message
import Mathlib.Data.Finmap

/-! `raftState.hpp`: the state of one server. Vectors are lists and an
`unordered_map` is a finite map whose indexing inserts the missing key. -/

namespace Raft2PC

/-- `std::unordered_map<int, α>`. -/
abbrev Table (α : Type) := Finmap (fun _ : ℤ => α)

namespace Table

variable {α : Type} [Inhabited α]

/-- The value `tb[k]` evaluates to. -/
def get (tb : Table α) (k : ℤ) : α := (tb.lookup k).getD default

/-- The table after evaluating `tb[k]`. -/
def touch (tb : Table α) (k : ℤ) : Table α :=
  if k ∈ tb then tb else tb.insert k default

/-- `tb[k] += d` in exact integers, without the wrap-around of `int`. -/
def add (tb : Table ℤ) (k d : ℤ) : Table ℤ := tb.insert k (tb.get k + d)

end Table

structure LogEntry where
  term : ℤ
  index : ℤ
  command : Text
  id : ℤ
  reqFd : ℤ
deriving DecidableEq, Repr

/-- What an entry says to other servers. -/
def LogEntry.entry (e : LogEntry) : Entry :=
  { term := e.term, index := e.index, command := e.command, id := e.id }

inductive Role where
  | follower
  | candidate
  | leader
deriving DecidableEq, Repr

structure RaftState where
  clusterId : ℤ
  serverId : ℤ
  heardHeartBeat : Bool
  currentTerm : ℤ
  votedFor : ℤ
  role : Role
  voteGrantedNum : ℤ
  log : List LogEntry
  logGrantedNum : ℤ
  comingCommitIndex : ℤ
  commitIndex : ℤ
  matchedLogSize : List ℤ
  localBalanceTb : Table ℤ
  localLock : Table Bool

namespace RaftState

def new (clusterId serverId : ℤ) : RaftState where
  clusterId := clusterId
  serverId := serverId
  heardHeartBeat := false
  currentTerm := 0
  votedFor := -1
  role := .follower
  voteGrantedNum := 0
  log := []
  logGrantedNum := 0
  comingCommitIndex := -1
  commitIndex := -1
  matchedLogSize := []
  localBalanceTb := ∅
  localLock := ∅

end RaftState

/-- What the language leaves open: the contents of a log slot outside the vector and
of a local that `sscanf` did not fill. -/
structure Undefined where
  slot : ℤ → LogEntry
  locals : Transfer

/-- `log_[i]`. -/
def readLog (u : Undefined) (log : List LogEntry) (i : ℤ) : LogEntry :=
  if 0 ≤ i then log[i.toNat]?.getD (u.slot i) else u.slot i

namespace RaftState

def lastlogindex (rs : RaftState) : ℤ := (rs.log.getLast?.map LogEntry.index).getD (-1)

def lastlogterm (rs : RaftState) : ℤ := (rs.log.getLast?.map LogEntry.term).getD (-1)

def matched (rs : RaftState) (idx : ℕ) : ℤ := rs.matchedLogSize.getD idx 0

def prevlogindex (rs : RaftState) (idx : ℕ) : ℤ := rs.matched idx - 1

def prevlogterm (u : Undefined) (rs : RaftState) (idx : ℕ) : ℤ :=
  if rs.matched idx = 0 then -1 else (readLog u rs.log (rs.matched idx - 1)).term

def locked (rs : RaftState) (k : ℤ) : Bool := rs.localLock.get k

def balance (rs : RaftState) (k : ℤ) : ℤ := rs.localBalanceTb.get k

def touchLock (rs : RaftState) (k : ℤ) : RaftState :=
  { rs with localLock := rs.localLock.touch k }

def touchBalance (rs : RaftState) (k : ℤ) : RaftState :=
  { rs with localBalanceTb := rs.localBalanceTb.touch k }

def setLock (rs : RaftState) (k : ℤ) (b : Bool) : RaftState :=
  { rs with localLock := rs.localLock.insert k b }

def addBalance (rs : RaftState) (k d : ℤ) : RaftState :=
  { rs with localBalanceTb := rs.localBalanceTb.add k d }

def pushLog (rs : RaftState) (e : LogEntry) : RaftState :=
  { rs with log := rs.log ++ [e] }

end RaftState

end Raft2PC
