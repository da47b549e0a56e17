import Raft2PC.Spec.Message
import Raft2PC.Wire.Truncation

/-! Messages on the wire. The protobuf library is a parameter; what it is documented to do
is said of the parts that the bytes of a message consist of. -/

namespace Raft2PC

/-- A field of a message: an `int32`, `bool` or enum, or one element of `entries`. -/
inductive Field where
  | int (number : ℕ) (value : ℤ)
  | entry (number : ℕ) (e : Entry)
deriving DecidableEq, Repr

/-- What the bytes of a message consist of: the heads of the messages in it, and values. -/
inductive Part where
  | message (number : ℕ)
  | int (number : ℕ) (value : ℤ)
  | entry
  | entryInt (number : ℕ) (value : ℤ)
  | command (text : Text)
deriving DecidableEq, Repr

/-! ### Enums -/

def IntraShardResultType.code : IntraShardResultType → ℤ
  | .success => 0
  | .fail => 1

def IntraShardResultType.ofCode (v : ℤ) : IntraShardResultType := if v = 0 then .success else .fail

def CrossShardPhaseType.code : CrossShardPhaseType → ℤ
  | .prepare => 0
  | .commit => 1
  | .abort => 2

def CrossShardPhaseType.ofCode (v : ℤ) : CrossShardPhaseType :=
  if v = 0 then .prepare else if v = 1 then .commit else .abort

def CrossShardResultType.code : CrossShardResultType → ℤ
  | .yes => 0
  | .no => 1
  | .ack => 2

def CrossShardResultType.ofCode (v : ℤ) : CrossShardResultType :=
  if v = 0 then .yes else if v = 1 then .no else .ack

def boolCode (b : Bool) : ℤ := if b then 1 else 0

namespace WrapperMessage

/-- The number of the member of the `oneof` that is set. -/
def number : WrapperMessage → ℕ
  | .stop _ => 1
  | .resume _ => 2
  | .intraShardReq _ => 3
  | .intraShardRsp _ => 4
  | .crossShardReq _ => 5
  | .crossShardRsp _ => 6
  | .appendEntriesReq _ => 7
  | .appendEntriesRsp _ => 8
  | .requestVoteReq _ => 9
  | .requestVoteRsp _ => 10
  | .printBalanceReq _ => 11
  | .printBalanceRsp _ => 12
  | .printDatastoreReq _ => 13
  | .printDatastoreRsp _ => 14
  | .exit _ => 15
  | .notSet => 0

def fields : WrapperMessage → List Field
  | .stop m => [.int 1 m.clusterId, .int 2 m.serverId]
  | .resume m => [.int 1 m.clusterId, .int 2 m.serverId]
  | .intraShardReq m =>
    [.int 1 m.clusterId, .int 2 m.senderId, .int 3 m.receiverId, .int 4 m.amount, .int 5 m.id]
  | .intraShardRsp m => [.int 1 m.result.code, .int 2 m.id]
  | .crossShardReq m =>
    [.int 1 m.phase.code, .int 2 m.senderClusterId, .int 3 m.receiverClusterId,
      .int 4 m.senderId, .int 5 m.receiverId, .int 6 m.amount, .int 7 m.id]
  | .crossShardRsp m => [.int 1 m.result.code, .int 2 m.id]
  | .appendEntriesReq m =>
    [.int 1 m.term, .int 2 m.leaderId, .int 3 m.prevLogIndex, .int 4 m.prevLogTerm] ++
      m.entries.map (.entry 5) ++ [.int 6 m.commitIndex, .int 7 m.serverId]
  | .appendEntriesRsp m => [.int 1 m.term, .int 2 (boolCode m.success), .int 3 m.serverId]
  | .requestVoteReq m =>
    [.int 1 m.candidateId, .int 2 m.term, .int 3 m.lastLogIndex, .int 4 m.lastLogTerm]
  | .requestVoteRsp m => [.int 1 m.term, .int 2 (boolCode m.voteGranted)]
  | .printBalanceReq m => [.int 1 m.clusterId, .int 2 m.serverId, .int 3 m.dataItemID]
  | .printBalanceRsp m =>
    [.int 1 m.clusterId, .int 2 m.serverId, .int 3 m.dataItemID, .int 4 m.balance]
  | .printDatastoreReq m => [.int 1 m.clusterId, .int 2 m.serverId]
  | .printDatastoreRsp m =>
    [.int 1 m.clusterId, .int 2 m.serverId] ++ m.entries.map (.entry 3)
  | .exit m => [.int 1 m.clusterId, .int 2 m.serverId]
  | .notSet => []

end WrapperMessage

/-- A field with the default value takes no bytes. -/
def Field.parts : Field → List Part
  | .int number value => if value = 0 then [] else [.int number value]
  | .entry _ e =>
    .entry :: ((if e.term = 0 then [] else [.entryInt 1 e.term]) ++
      (if e.index = 0 then [] else [.entryInt 2 e.index]) ++
      (if e.command = [] then [] else [.command e.command]) ++
      (if e.id = 0 then [] else [.entryInt 4 e.id]))

def WrapperMessage.parts (m : WrapperMessage) : List Part :=
  if m = .notSet then [] else .message m.number :: m.fields.flatMap Field.parts

/-! ### Reading the parts -/

/-- The message in which only the member of the `oneof` is known. -/
def blank : ℕ → WrapperMessage
  | 1 => .stop ⟨0, 0⟩
  | 2 => .resume ⟨0, 0⟩
  | 3 => .intraShardReq ⟨0, 0, 0, 0, 0⟩
  | 4 => .intraShardRsp ⟨.success, 0⟩
  | 5 => .crossShardReq ⟨.prepare, 0, 0, 0, 0, 0, 0⟩
  | 6 => .crossShardRsp ⟨.yes, 0⟩
  | 7 => .appendEntriesReq ⟨0, 0, 0, 0, [], 0, 0⟩
  | 8 => .appendEntriesRsp ⟨0, false, 0⟩
  | 9 => .requestVoteReq ⟨0, 0, 0, 0⟩
  | 10 => .requestVoteRsp ⟨0, false⟩
  | 11 => .printBalanceReq ⟨0, 0, 0⟩
  | 12 => .printBalanceRsp ⟨0, 0, 0, 0⟩
  | 13 => .printDatastoreReq ⟨0, 0⟩
  | 14 => .printDatastoreRsp ⟨0, 0, []⟩
  | 15 => .exit ⟨0, 0⟩
  | _ => .notSet

/-- The fields of `m`, those with this number replaced by the value `v`. -/
def WrapperMessage.setInt (m : WrapperMessage) (number : ℕ) (v : ℤ) : WrapperMessage :=
  match m, number with
  | .stop m, 1 => .stop { m with clusterId := v }
  | .stop m, 2 => .stop { m with serverId := v }
  | .resume m, 1 => .resume { m with clusterId := v }
  | .resume m, 2 => .resume { m with serverId := v }
  | .intraShardReq m, 1 => .intraShardReq { m with clusterId := v }
  | .intraShardReq m, 2 => .intraShardReq { m with senderId := v }
  | .intraShardReq m, 3 => .intraShardReq { m with receiverId := v }
  | .intraShardReq m, 4 => .intraShardReq { m with amount := v }
  | .intraShardReq m, 5 => .intraShardReq { m with id := v }
  | .intraShardRsp m, 1 => .intraShardRsp { m with result := .ofCode v }
  | .intraShardRsp m, 2 => .intraShardRsp { m with id := v }
  | .crossShardReq m, 1 => .crossShardReq { m with phase := .ofCode v }
  | .crossShardReq m, 2 => .crossShardReq { m with senderClusterId := v }
  | .crossShardReq m, 3 => .crossShardReq { m with receiverClusterId := v }
  | .crossShardReq m, 4 => .crossShardReq { m with senderId := v }
  | .crossShardReq m, 5 => .crossShardReq { m with receiverId := v }
  | .crossShardReq m, 6 => .crossShardReq { m with amount := v }
  | .crossShardReq m, 7 => .crossShardReq { m with id := v }
  | .crossShardRsp m, 1 => .crossShardRsp { m with result := .ofCode v }
  | .crossShardRsp m, 2 => .crossShardRsp { m with id := v }
  | .appendEntriesReq m, 1 => .appendEntriesReq { m with term := v }
  | .appendEntriesReq m, 2 => .appendEntriesReq { m with leaderId := v }
  | .appendEntriesReq m, 3 => .appendEntriesReq { m with prevLogIndex := v }
  | .appendEntriesReq m, 4 => .appendEntriesReq { m with prevLogTerm := v }
  | .appendEntriesReq m, 6 => .appendEntriesReq { m with commitIndex := v }
  | .appendEntriesReq m, 7 => .appendEntriesReq { m with serverId := v }
  | .appendEntriesRsp m, 1 => .appendEntriesRsp { m with term := v }
  | .appendEntriesRsp m, 2 => .appendEntriesRsp { m with success := v ≠ 0 }
  | .appendEntriesRsp m, 3 => .appendEntriesRsp { m with serverId := v }
  | .requestVoteReq m, 1 => .requestVoteReq { m with candidateId := v }
  | .requestVoteReq m, 2 => .requestVoteReq { m with term := v }
  | .requestVoteReq m, 3 => .requestVoteReq { m with lastLogIndex := v }
  | .requestVoteReq m, 4 => .requestVoteReq { m with lastLogTerm := v }
  | .requestVoteRsp m, 1 => .requestVoteRsp { m with term := v }
  | .requestVoteRsp m, 2 => .requestVoteRsp { m with voteGranted := v ≠ 0 }
  | .printBalanceReq m, 1 => .printBalanceReq { m with clusterId := v }
  | .printBalanceReq m, 2 => .printBalanceReq { m with serverId := v }
  | .printBalanceReq m, 3 => .printBalanceReq { m with dataItemID := v }
  | .printBalanceRsp m, 1 => .printBalanceRsp { m with clusterId := v }
  | .printBalanceRsp m, 2 => .printBalanceRsp { m with serverId := v }
  | .printBalanceRsp m, 3 => .printBalanceRsp { m with dataItemID := v }
  | .printBalanceRsp m, 4 => .printBalanceRsp { m with balance := v }
  | .printDatastoreReq m, 1 => .printDatastoreReq { m with clusterId := v }
  | .printDatastoreReq m, 2 => .printDatastoreReq { m with serverId := v }
  | .printDatastoreRsp m, 1 => .printDatastoreRsp { m with clusterId := v }
  | .printDatastoreRsp m, 2 => .printDatastoreRsp { m with serverId := v }
  | .exit m, 1 => .exit { m with clusterId := v }
  | .exit m, 2 => .exit { m with serverId := v }
  | m, _ => m

def WrapperMessage.mapEntries (f : List Entry → List Entry) : WrapperMessage → WrapperMessage
  | .appendEntriesReq m => .appendEntriesReq { m with entries := f m.entries }
  | .printDatastoreRsp m => .printDatastoreRsp { m with entries := f m.entries }
  | m => m

def Entry.setInt (e : Entry) : ℕ → ℤ → Entry
  | 1, v => { e with term := v }
  | 2, v => { e with index := v }
  | 4, v => { e with id := v }
  | _, _ => e

def updateLast (f : Entry → Entry) : List Entry → List Entry
  | [] => []
  | [e] => [f e]
  | e :: e' :: es => e :: updateLast f (e' :: es)

def WrapperMessage.read (m : WrapperMessage) : Part → WrapperMessage
  | .message number => blank number
  | .int number value => m.setInt number value
  | .entry => m.mapEntries (· ++ [⟨0, 0, [], 0⟩])
  | .entryInt number value => m.mapEntries (updateLast fun e => e.setInt number value)
  | .command text => m.mapEntries (updateLast fun e => { e with command := text })

/-- The message that some parts make up, the other fields at their defaults. -/
def build (ps : List Part) : WrapperMessage := ps.foldl WrapperMessage.read .notSet

/-! ### The library -/

/-- `SerializeToString` and `ParseFromArray`, which leaves a message whether it succeeds or
not. -/
structure Protobuf where
  serialize : WrapperMessage → List UInt8
  parse : List UInt8 → WrapperMessage

/-- The library handles `m` as documented: its parts are written one after the other, in as
many bytes as `widths` says, and a buffer that ends early yields the parts that are whole. -/
structure Protobuf.Handles (p : Protobuf) (m : WrapperMessage) (widths : List ℕ) : Prop where
  each : widths.length = m.parts.length
  positive : ∀ w ∈ widths, 0 < w
  size : (p.serialize m).length = widths.sum
  truncated : ∀ n ≤ (p.serialize m).length,
    p.parse ((p.serialize m).take n) = build (m.parts.take (Wire.fitting n widths))

end Raft2PC
