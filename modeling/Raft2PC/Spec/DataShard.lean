import Raft2PC.Spec.AIOServer

/-! `util.cpp`: the files that keep the balances of a shard. The JSON library is a
parameter; all that the two functions use of it is what a line holds under a key. -/

namespace Raft2PC

/-- `int x = nlohmann::json::parse(line)[key]`, if that throws no exception. -/
abbrev Json := Text → String → Option ℤ

/-- The files in `DATA_SHARD_BASE`, by name. -/
abbrev DataFiles := Text → Option Text

/-- The loop that splits the buffer; `line` is what lies from `start` to `i`. -/
def splitFrom (line : Text) : Text → List Text
  | [] => if line = [] then [] else [line]
  | c :: rest => if c = '\n' then line :: splitFrom [] rest else splitFrom (line ++ [c]) rest

def splitLines (buffer : Text) : List Text := splitFrom [] buffer

/-- The file that `load_data_shard` reads. -/
def loadPath (clusterId : ℤ) : Text :=
  "dataShard".toList ++ fmtInt clusterId ++ ".jsonl".toList

/-- The file that `update_data_shard` reads and writes. -/
def updatePath (clusterId : ℤ) : Text :=
  "dataShard".toList ++ fmtInt clusterId ++ ".nlohmann::jsonl".toList

/-- The id and the units of a line; a line that lacks one of them is skipped. -/
def dataItem (json : Json) (line : Text) : Option (ℤ × ℤ) :=
  match json line "id", json line "units" with
  | some id, some balance => some (id, balance)
  | _, _ => none

def loadLine (json : Json) (rs : RaftState) (line : Text) : RaftState :=
  match dataItem json line with
  | some (id, balance) => { rs with localBalanceTb := rs.localBalanceTb.insert id balance }
  | none => rs

def loadDataShard (json : Json) (files : DataFiles) (rs : RaftState) : RaftState :=
  match files (loadPath rs.clusterId) with
  | none => rs
  | some buffer => (splitLines buffer).foldl (loadLine json) rs

/-- `j["balance"] = local_balance_tb_[j["id"]]`; `j` is a local of the loop. -/
def updateLine (json : Json) (rs : RaftState) (line : Text) : RaftState :=
  match json line "id" with
  | some id => rs.touchBalance id
  | none => rs

def updateDataShard (json : Json) (files : DataFiles) (rs : RaftState) : DataFiles × RaftState :=
  match files (updatePath rs.clusterId) with
  | none => (files, rs)
  | some buffer =>
    let lines := splitLines buffer
    (Function.update files (updatePath rs.clusterId)
        (some (lines.flatMap fun line => line ++ ['\n'])),
      lines.foldl (updateLine json) rs)

/-- What the constructor of `AIOServer` does before it listens. -/
def AIOServer.load (json : Json) (files : DataFiles) (clusterId serverId : ℤ) : AIOServer :=
  AIOServer.new clusterId serverId
    (loadDataShard json files (RaftState.new clusterId serverId)).localBalanceTb

end Raft2PC
