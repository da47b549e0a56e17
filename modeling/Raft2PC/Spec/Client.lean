import Raft2PC.Spec.Cluster
import Raft2PC.Spec.RoutingService

/-! `client.py`, `handler.py` and `config.py`: what the client checks, and whom it sends what. -/

namespace Raft2PC

namespace LocalConfig

def usersPerCluster : ℤ := 1000

def getClusterIdForUser (userId : ℤ) : ℤ := (userId - 1) / usersPerCluster

def getClusterIdForServer (serverId : ℤ) : ℤ := serverId / SERVER_NUM_PER_CLUSTER

def serverIdToIndex (serverId : ℤ) : ℤ :=
  serverId - getClusterIdForServer serverId * SERVER_NUM_PER_CLUSTER

/-- `server_ip_port_list[…][index]`, whose index counts the servers of a cluster. -/
def server (index : ℤ) : Idx := Fin.ofNat SERVER_NUM_PER_CLUSTER index.toNat

end LocalConfig

structure Outgoing where
  cluster : ℤ
  server : Idx
  msg : ClientMsg
deriving DecidableEq, Repr

namespace TransactionHandler

open LocalConfig

/-- The request of `transfer`. Its id is the serializer's argument, the service numbers it. -/
def transfer (senderId recipientId amount : ℤ) : Incoming :=
  let senderClusterId := getClusterIdForUser senderId
  let recipientClusterId := getClusterIdForUser recipientId
  if senderClusterId = recipientClusterId then
    .intraShardReq
      { clusterId := senderClusterId
        senderId := senderId
        receiverId := recipientId
        amount := amount
        id := 1 }
  else
    .crossShardReq
      { phase := .prepare
        senderClusterId := senderClusterId
        receiverClusterId := recipientClusterId
        senderId := senderId
        receiverId := recipientId
        amount := amount
        id := 0 }

def getBalance (userId : ℤ) : List Outgoing :=
  (List.finRange SERVER_NUM_PER_CLUSTER).map fun i =>
    let clusterId := getClusterIdForUser userId
    ⟨clusterId, i, .printBalance
      { clusterId := clusterId
        serverId := SERVER_NUM_PER_CLUSTER * clusterId + i
        dataItemID := userId }⟩

def getDataStore (numCluster : ℕ) : List Outgoing :=
  (List.range numCluster).flatMap fun i =>
    (List.finRange SERVER_NUM_PER_CLUSTER).map fun j =>
      ⟨i, j, .printDatastore { clusterId := i, serverId := i * SERVER_NUM_PER_CLUSTER + j }⟩

def stop (serverId : ℤ) : Outgoing :=
  let clusterId := getClusterIdForServer serverId
  ⟨clusterId, server (serverIdToIndex serverId), .stop { clusterId, serverId }⟩

def resume (serverId : ℤ) : Outgoing :=
  let clusterId := getClusterIdForServer serverId
  ⟨clusterId, server (serverIdToIndex serverId), .resume { clusterId, serverId }⟩

end TransactionHandler

inductive ClientCommand where
  | transfer (senderId recipientId amount : ℤ)
  | balance (userId : ℤ)
  | dataStore
  | stop (serverId : ℤ)
  | resume (serverId : ℤ)
deriving DecidableEq, Repr

namespace Client

/-- An amount of 2^31 or more does not fit in an `int32`: the serializer raises. -/
def createSingleTransfer (senderId recipientId amount : ℤ) : Option Incoming :=
  if ¬(1 ≤ senderId ∧ senderId < 3001) ∨ ¬(1 ≤ recipientId ∧ recipientId < 3001) then none
  else if amount < 0 then none
  else if 2 ^ 31 ≤ amount then none
  else some (TransactionHandler.transfer senderId recipientId amount)

def printBalance (userId : ℤ) : List Outgoing :=
  if ¬(1 ≤ userId ∧ userId < 3001) then [] else TransactionHandler.getBalance userId

def stopServer (serverId : ℤ) : List Outgoing :=
  if ¬(0 ≤ serverId ∧ serverId < 9) then [] else [TransactionHandler.stop serverId]

def resumeServer (serverId : ℤ) : List Outgoing :=
  if ¬(0 ≤ serverId ∧ serverId < 9) then [] else [TransactionHandler.resume serverId]

def posts : ClientCommand → Option Incoming
  | .transfer senderId recipientId amount => createSingleTransfer senderId recipientId amount
  | _ => none

def sends (numCluster : ℕ) : ClientCommand → List Outgoing
  | .transfer .. => []
  | .balance userId => printBalance userId
  | .dataStore => TransactionHandler.getDataStore numCluster
  | .stop serverId => stopServer serverId
  | .resume serverId => resumeServer serverId

end Client

end Raft2PC
