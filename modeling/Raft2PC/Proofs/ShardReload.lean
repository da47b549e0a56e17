import Raft2PC.Spec.DataShard
import Raft2PC.Sanity.Runs
import Raft2PC.Sanity.Tables

/-! What a restart finds. `update_data_shard` writes another file than `load_data_shard`
reads, so the balances that come back are the ones that were there before. -/

namespace Raft2PC

/-- The units on the last line of item `k`. -/
def unitsOf (json : Json) (lines : List Text) (k : ℤ) : Option ℤ :=
  lines.reverse.findSome? fun line =>
    (dataItem json line).bind fun item => if item.1 = k then some item.2 else none

/-- The balances after a restart are those before it, and the shard's file still has the
lines that do not parse. -/
structure Reloads (json : Json) (files : DataFiles) (serverId : ℤ) (rs : RaftState) : Prop where
  balances : (AIOServer.load json (updateDataShard json files rs).1 rs.clusterId
    serverId).raftState.localBalanceTb = (updateDataShard json files rs).2.localBalanceTb
  kept : ((updateDataShard json files rs).1 (loadPath rs.clusterId)).map
      (fun buffer => (splitLines buffer).filter fun line => (dataItem json line).isNone) =
    (files (loadPath rs.clusterId)).map
      fun buffer => (splitLines buffer).filter fun line => (dataItem json line).isNone

/-- No balance has changed since the shard's file was written, and the other file, if there
is one, names no other account. -/
structure FileCurrent (json : Json) (files : DataFiles) (buffer : Text) (rs : RaftState) :
    Prop where
  written : ∀ k ∈ rs.localBalanceTb,
    unitsOf json (splitLines buffer) k = rs.localBalanceTb.lookup k
  known : ∀ other, files (updatePath rs.clusterId) = some other → ∀ line ∈ splitLines other,
    ∀ id, json line "id" = some id → id ∈ rs.localBalanceTb

variable {json : Json} {files : DataFiles} {rs : RaftState} {buffer : Text}

theorem loadPath_ne (clusterId : ℤ) : loadPath clusterId ≠ updatePath clusterId := by
  intro h
  have hsuffix := List.append_cancel_left h
  revert hsuffix
  decide

/-- A fresh load finds the last line of each item. -/
theorem lookup_loadLines (hrs : rs.localBalanceTb = ∅) (lines : List Text) (k : ℤ) :
    (lines.foldl (loadLine json) rs).localBalanceTb.lookup k = unitsOf json lines k := by
  induction lines using List.reverseRecOn with
  | nil => rw [List.foldl_nil, hrs]; rfl
  | append_singleton lines line ih =>
    rw [List.foldl_append, List.foldl_cons, List.foldl_nil, loadLine, unitsOf,
      List.reverse_append, List.reverse_singleton, List.singleton_append, List.findSome?_cons,
      ← unitsOf]
    cases hitem : dataItem json line with
    | none => exact ih
    | some item =>
      by_cases hk : item.1 = k
      · subst hk
        simp [Finmap.lookup_insert]
      · simp only [Option.bind_some, if_neg hk]
        rw [Finmap.lookup_insert_of_ne _ (Ne.symm hk)]
        exact ih

/-! ### The file that is updated -/

theorem updateLines_mem (lines : List Text) (rs : RaftState) (k : ℤ) :
    k ∈ (lines.foldl (updateLine json) rs).localBalanceTb ↔
      k ∈ rs.localBalanceTb ∨ ∃ line ∈ lines, json line "id" = some k := by
  induction lines generalizing rs with
  | nil => simp
  | cons line lines ih =>
    rw [List.foldl_cons, ih, updateLine]
    cases hid : json line "id" with
    | none => simp [hid]
    | some id =>
      simp only [RaftState.balances_touchBalance, Table.mem_touch, List.exists_mem_cons_iff, hid,
        Option.some.injEq, or_assoc, eq_comm]

theorem updateLines_lookup {lines : List Text} {rs : RaftState} {k : ℤ}
    (hk : k ∈ rs.localBalanceTb) :
    (lines.foldl (updateLine json) rs).localBalanceTb.lookup k = rs.localBalanceTb.lookup k := by
  induction lines generalizing rs with
  | nil => rfl
  | cons line lines ih =>
    rw [List.foldl_cons, updateLine]
    cases hid : json line "id" with
    | none => exact ih hk
    | some id =>
      rw [ih (Table.mem_touch.mpr (Or.inl hk))]
      exact Table.lookup_touch hk id

theorem updateDataShard_loadPath (json : Json) (files : DataFiles) (rs : RaftState) :
    (updateDataShard json files rs).1 (loadPath rs.clusterId) = files (loadPath rs.clusterId) := by
  unfold updateDataShard
  cases files (updatePath rs.clusterId) with
  | none => rfl
  | some other => exact Function.update_of_ne (loadPath_ne rs.clusterId) _ _

theorem updateDataShard_lookup {k : ℤ} (hk : k ∈ rs.localBalanceTb) :
    (updateDataShard json files rs).2.localBalanceTb.lookup k = rs.localBalanceTb.lookup k := by
  unfold updateDataShard
  cases files (updatePath rs.clusterId) with
  | none => rfl
  | some other => exact updateLines_lookup hk

theorem updateDataShard_mem {k : ℤ} :
    k ∈ (updateDataShard json files rs).2.localBalanceTb ↔ k ∈ rs.localBalanceTb ∨
      ∃ other, files (updatePath rs.clusterId) = some other ∧
        ∃ line ∈ splitLines other, json line "id" = some k := by
  unfold updateDataShard
  cases files (updatePath rs.clusterId) with
  | none => simp
  | some other => simpa using updateLines_mem (splitLines other) rs k

/-- What a restart reads after the update is what the shard's file said before it. -/
theorem lookup_load (serverId : ℤ) (hfile : files (loadPath rs.clusterId) = some buffer) (k : ℤ) :
    (AIOServer.load json (updateDataShard json files rs).1 rs.clusterId
      serverId).raftState.localBalanceTb.lookup k = unitsOf json (splitLines buffer) k := by
  have hread : (updateDataShard json files rs).1
      (loadPath (RaftState.new rs.clusterId serverId).clusterId) = some buffer :=
    (updateDataShard_loadPath json files rs).trans hfile
  change (loadDataShard json _ (RaftState.new rs.clusterId serverId)).localBalanceTb.lookup k = _
  rw [loadDataShard, hread]
  exact lookup_loadLines rfl _ k

/-- The balances survive a restart exactly when nothing was there to be written. -/
theorem reloads_iff (serverId : ℤ) (hfile : files (loadPath rs.clusterId) = some buffer)
    (hlists : ∀ k, k ∈ rs.localBalanceTb ↔ (unitsOf json (splitLines buffer) k).isSome) :
    Reloads json files serverId rs ↔ FileCurrent json files buffer rs := by
  have hload : ∀ k, (AIOServer.load json (updateDataShard json files rs).1 rs.clusterId
      serverId).raftState.localBalanceTb.lookup k = unitsOf json (splitLines buffer) k :=
    lookup_load serverId hfile
  constructor
  · intro h
    have hsame : ∀ k, (updateDataShard json files rs).2.localBalanceTb.lookup k =
        unitsOf json (splitLines buffer) k := fun k => by rw [← h.balances, hload]
    refine ⟨fun k hk => ?_, fun other hother line hline id hid => ?_⟩
    · rw [← hsame, updateDataShard_lookup hk]
    · have hmem : id ∈ (updateDataShard json files rs).2.localBalanceTb :=
        updateDataShard_mem.mpr (Or.inr ⟨other, hother, line, hline, hid⟩)
      rw [hlists, ← hsame, ← Finmap.mem_iff.trans Option.isSome_iff_exists.symm]
      exact hmem
  · intro h
    refine ⟨Finmap.ext_lookup fun k => ?_, by rw [updateDataShard_loadPath]⟩
    rw [hload]
    by_cases hk : k ∈ rs.localBalanceTb
    · rw [updateDataShard_lookup hk, h.written k hk]
    · have hnone : k ∉ (updateDataShard json files rs).2.localBalanceTb := by
        rw [updateDataShard_mem]
        rintro (hmem | ⟨other, hother, line, hline, hid⟩)
        · exact hk hmem
        · exact hk (h.known other hother line hline k hid)
      rw [Finmap.lookup_eq_none.mpr hnone]
      rw [hlists, Option.not_isSome_iff_eq_none] at hk
      exact hk

/-! ### A shard of one item -/

/-- Reads the lines of the shape that the shards are shipped with. -/
def shippedJson : Json := fun line key =>
  match scan (directives "\x7b\"id\": %d, \"units\": %d\x7d".toList) line with
  | [id, units] => if key = "id" then some id else if key = "units" then some units else none
  | _ => none

/-- Item 100 has 10 units; the last line is no JSON and has no newline. -/
def purseFile : Text := "\x7b\"id\": 100, \"units\": 10\x7d\n# end".toList

def purseFiles : DataFiles := fun name => if name = loadPath 0 then some purseFile else none

def holding (tb : Table ℤ) : RaftState := (AIOServer.new 0 1 tb).raftState

theorem unitsOf_purseFile (k : ℤ) :
    unitsOf shippedJson (splitLines purseFile) k = if k = 100 then some 10 else none := by
  have hlines : splitLines purseFile =
      ["\x7b\"id\": 100, \"units\": 10\x7d".toList, "# end".toList] := by decide
  have hitem : dataItem shippedJson "\x7b\"id\": 100, \"units\": 10\x7d".toList =
      some (100, 10) := by decide
  have hend : dataItem shippedJson "# end".toList = none := by decide
  rw [unitsOf, hlines]
  simp only [List.reverse_cons, List.reverse_nil, List.nil_append, List.singleton_append,
    List.findSome?_cons, List.findSome?_nil, hitem, hend, Option.bind_none, Option.bind_some]
  by_cases hk : k = 100
  · simp [hk]
  · simp [hk, Ne.symm hk]

theorem listed_insert (units k : ℤ) : k ∈ (holding (Finmap.insert 100 units ∅)).localBalanceTb ↔
    (unitsOf shippedJson (splitLines purseFile) k).isSome := by
  change k ∈ Finmap.insert 100 units ∅ ↔ _
  rw [unitsOf_purseFile, Finmap.mem_insert]
  by_cases hk : k = 100
  · simp [hk]
  · simp [hk, Finmap.notMem_empty]

theorem reloads_purse : Reloads shippedJson purseFiles 1 (holding purse) := by
  have hfile : purseFiles (loadPath (holding purse).clusterId) = some purseFile := if_pos rfl
  refine (reloads_iff 1 hfile (listed_insert 10)).mpr ⟨fun k hk => ?_, fun other hother => ?_⟩
  · obtain rfl : k = 100 := by
      rcases Finmap.mem_insert.mp hk with hk | hk
      · exact hk
      · exact absurd hk Finmap.notMem_empty
    rw [unitsOf_purseFile]
    rfl
  · cases hother

/-- Half of it is spent and written back, and returns with the restart. -/
theorem spent_returns :
    (∀ k, k ∈ (holding (Finmap.insert 100 5 ∅)).localBalanceTb ↔
      (unitsOf shippedJson (splitLines purseFile) k).isSome) ∧
    ¬Reloads shippedJson purseFiles 1 (holding (Finmap.insert 100 5 ∅)) := by
  refine ⟨listed_insert 5, fun h => ?_⟩
  have hbalance := congrArg (Finmap.lookup 100) h.balances
  revert hbalance
  decide

end Raft2PC
