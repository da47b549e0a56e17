import Raft2PC.Spec.Protobuf
import Mathlib.Data.List.Induction

/-! The parts of a message build it again, and fewer of them build another message of the
same kind. -/

namespace Raft2PC

theorem updateLast_concat (f : Entry → Entry) (es : List Entry) (e : Entry) :
    updateLast f (es ++ [e]) = es ++ [f e] := by
  induction es with
  | nil => rfl
  | cons a es ih =>
    cases es with
    | nil => rfl
    | cons b es => simpa [updateLast] using ih

/-- Reading a field sets it, also if it takes no bytes. -/
theorem read_int {m : WrapperMessage} {number : ℕ} (v : ℤ) (h : m.setInt number 0 = m) :
    (Field.int number v).parts.foldl WrapperMessage.read m = m.setInt number v := by
  rw [Field.parts]
  split_ifs with hv
  · rw [hv, h]
    rfl
  · rfl

theorem mapEntries_mapEntries (m : WrapperMessage) (f g : List Entry → List Entry) :
    (m.mapEntries f).mapEntries g = m.mapEntries fun es => g (f es) := by
  cases m <;> rfl

theorem read_entryInt {e : Entry} {number : ℕ} (m : WrapperMessage) (v : ℤ)
    (h : e.setInt number 0 = e) :
    (if v = 0 then [] else [Part.entryInt number v]).foldl WrapperMessage.read
      (m.mapEntries (· ++ [e])) = m.mapEntries (· ++ [e.setInt number v]) := by
  split_ifs with hv
  · rw [hv, h]
    rfl
  · simp [WrapperMessage.read, mapEntries_mapEntries, updateLast_concat]

theorem read_command {e : Entry} (m : WrapperMessage) (t : Text) (h : e.command = []) :
    (if t = [] then [] else [Part.command t]).foldl WrapperMessage.read
      (m.mapEntries (· ++ [e])) = m.mapEntries (· ++ [{ e with command := t }]) := by
  split_ifs with ht
  · rw [ht, ← h]
    rfl
  · simp [WrapperMessage.read, mapEntries_mapEntries, updateLast_concat]

theorem read_entry (m : WrapperMessage) (number : ℕ) (e : Entry) :
    (Field.entry number e).parts.foldl WrapperMessage.read m = m.mapEntries (· ++ [e]) := by
  rw [Field.parts, List.foldl_cons, List.foldl_append, List.foldl_append, List.foldl_append]
  change List.foldl _ (List.foldl _ (List.foldl _ (List.foldl _ (m.mapEntries (· ++ [_])) _) _) _)
    _ = _
  rw [read_entryInt m e.term rfl, read_entryInt m e.index rfl, read_command m e.command rfl,
    read_entryInt m e.id rfl]
  rfl

/-- The message with a field set. -/
def WrapperMessage.set (m : WrapperMessage) : Field → WrapperMessage
  | .int number v => m.setInt number v
  | .entry _ e => m.mapEntries (· ++ [e])

/-- Each number of the list still has its default when its turn comes. -/
def Unset : WrapperMessage → List Field → Prop
  | _, [] => True
  | m, .int number v :: fs => m.setInt number 0 = m ∧ Unset (m.setInt number v) fs
  | m, .entry number e :: fs => Unset (m.set (.entry number e)) fs

theorem read_fields {m : WrapperMessage} {fs : List Field} (h : Unset m fs) :
    (fs.flatMap Field.parts).foldl WrapperMessage.read m = fs.foldl WrapperMessage.set m := by
  induction fs generalizing m with
  | nil => rfl
  | cons f fs ih =>
    rw [List.flatMap_cons, List.foldl_append, List.foldl_cons]
    cases f with
    | int number v => rw [read_int v h.1, ih h.2, WrapperMessage.set]
    | entry number e => rw [read_entry, ← ih h, WrapperMessage.set]

theorem set_entries (m : WrapperMessage) (number : ℕ) (es : List Entry) :
    (es.map (Field.entry number)).foldl WrapperMessage.set m = m.mapEntries (· ++ es) := by
  induction es generalizing m with
  | nil => cases m <;> simp [WrapperMessage.mapEntries]
  | cons e es ih =>
    rw [List.map_cons, List.foldl_cons, ih, WrapperMessage.set, mapEntries_mapEntries]
    simp

theorem unset_entries {m : WrapperMessage} {es : List Entry} {fs : List Field} (number : ℕ)
    (h : Unset (m.mapEntries (· ++ es)) fs) : Unset m (es.map (Field.entry number) ++ fs) := by
  induction es generalizing m with
  | nil => cases m <;> simpa [WrapperMessage.mapEntries] using h
  | cons e es ih =>
    change Unset (m.mapEntries (· ++ [e])) (es.map (Field.entry number) ++ fs)
    refine ih ?_
    simpa [mapEntries_mapEntries] using h

theorem unset_fields (m : WrapperMessage) : Unset (blank m.number) m.fields := by
  cases m with
  | notSet => trivial
  | stop _ | resume _ | exit _ | intraShardRsp _ | crossShardRsp _ | requestVoteRsp _
  | printDatastoreReq _ => exact ⟨rfl, rfl, trivial⟩
  | appendEntriesRsp _ | printBalanceReq _ => exact ⟨rfl, rfl, rfl, trivial⟩
  | requestVoteReq _ | printBalanceRsp _ => exact ⟨rfl, rfl, rfl, rfl, trivial⟩
  | intraShardReq _ => exact ⟨rfl, rfl, rfl, rfl, rfl, trivial⟩
  | crossShardReq _ => exact ⟨rfl, rfl, rfl, rfl, rfl, rfl, rfl, trivial⟩
  | appendEntriesReq m =>
    have hrest : Unset (.appendEntriesReq { m with commitIndex := 0, serverId := 0 })
        [.int 6 m.commitIndex, .int 7 m.serverId] := ⟨rfl, rfl, trivial⟩
    exact ⟨rfl, rfl, rfl, rfl, unset_entries 5 hrest⟩
  | printDatastoreRsp m =>
    have hentries : Unset (.printDatastoreRsp { m with entries := [] })
        (m.entries.map (Field.entry 3) ++ []) := unset_entries 3 trivial
    rw [List.append_nil] at hentries
    exact ⟨rfl, rfl, hentries⟩

theorem set_fields (m : WrapperMessage) :
    m.fields.foldl WrapperMessage.set (blank m.number) = m := by
  cases m with
  | notSet => rfl
  | intraShardRsp m =>
    obtain ⟨result, id⟩ := m
    cases result <;> rfl
  | crossShardReq m =>
    obtain ⟨phase⟩ := m
    cases phase <;> rfl
  | crossShardRsp m =>
    obtain ⟨result, id⟩ := m
    cases result <;> rfl
  | appendEntriesRsp m =>
    obtain ⟨term, success, id⟩ := m
    cases success <;> rfl
  | requestVoteRsp m =>
    obtain ⟨term, granted⟩ := m
    cases granted <;> rfl
  | appendEntriesReq m =>
    rw [WrapperMessage.fields, List.foldl_append, List.foldl_append, set_entries]
    rfl
  | printDatastoreRsp m =>
    rw [WrapperMessage.fields, List.foldl_append, set_entries]
    rfl
  | _ => rfl

/-- All the parts of a message build it again. -/
theorem build_parts (m : WrapperMessage) : build m.parts = m := by
  by_cases hm : m = .notSet
  · rw [hm]
    rfl
  · rw [WrapperMessage.parts, if_neg hm, build, List.foldl_cons, WrapperMessage.read,
      read_fields (unset_fields m), set_fields]

example : build (WrapperMessage.exit ⟨0, 4⟩).parts = .exit ⟨0, 4⟩ := by decide

/-! ### Fewer parts -/

theorem int_parts_le (number : ℕ) (v : ℤ) : (Field.int number v).parts.length ≤ 1 := by
  rw [Field.parts]
  split_ifs <;> simp

theorem parts_setInt_le (m : WrapperMessage) (number : ℕ) (v : ℤ) :
    (m.setInt number v).parts.length ≤ m.parts.length + 1 := by
  have hint := int_parts_le number v
  have hbool := int_parts_le number (boolCode (decide (v ≠ 0)))
  have hintra := int_parts_le number (IntraShardResultType.ofCode v).code
  have hphase := int_parts_le number (CrossShardPhaseType.ofCode v).code
  have hcross := int_parts_le number (CrossShardResultType.ofCode v).code
  unfold WrapperMessage.setInt
  split
  all_goals
    simp only [WrapperMessage.parts, reduceCtorEq, if_false, WrapperMessage.fields,
      List.flatMap_cons, List.flatMap_append, List.flatMap_nil, List.length_cons,
      List.length_append]
    omega

theorem blank_parts_le (number : ℕ) : (blank number).parts.length ≤ 1 := by
  unfold blank
  split <;> decide

/-- The parts of some entries. -/
def entryParts (es : List Entry) : List Part := (es.map (Field.entry 0)).flatMap Field.parts

theorem flatMap_entry_parts (number : ℕ) (es : List Entry) :
    (es.map (Field.entry number)).flatMap Field.parts = entryParts es := by
  simp [entryParts, List.flatMap_map, Field.parts]

theorem parts_mapEntries_le {f : List Entry → List Entry} (m : WrapperMessage)
    (hf : ∀ es, (entryParts (f es)).length ≤ (entryParts es).length + 1) :
    (m.mapEntries f).parts.length ≤ m.parts.length + 1 := by
  cases m with
  | appendEntriesReq m | printDatastoreRsp m =>
    have hentries := hf m.entries
    simp only [WrapperMessage.mapEntries, WrapperMessage.parts, reduceCtorEq, if_false,
      WrapperMessage.fields, List.flatMap_cons, List.flatMap_append, List.flatMap_nil,
      List.length_cons, List.length_append, flatMap_entry_parts]
    omega
  | _ => exact Nat.le_succ _

theorem optional_le {α : Type} (P : Prop) [Decidable P] (a : α) :
    (if P then [] else [a]).length ≤ 1 := by
  split_ifs <;> simp

/-- Setting something in the last entry adds one part at most. -/
theorem entryParts_updateLast_le {f : Entry → Entry} (es : List Entry)
    (hf : ∀ e, (Field.entry 0 (f e)).parts.length ≤ (Field.entry 0 e).parts.length + 1) :
    (entryParts (updateLast f es)).length ≤ (entryParts es).length + 1 := by
  induction es using List.reverseRecOn with
  | nil => exact Nat.le_succ _
  | append_singleton es e ih =>
    have he := hf e
    rw [updateLast_concat]
    simp only [entryParts, List.map_append, List.map_cons, List.map_nil, List.flatMap_append,
      List.flatMap_cons, List.flatMap_nil, List.length_append, List.length_nil]
    omega

theorem setInt_entry_parts_le (e : Entry) (number : ℕ) (v : ℤ) :
    (Field.entry 0 (e.setInt number v)).parts.length ≤ (Field.entry 0 e).parts.length + 1 := by
  have hv := fun k => optional_le (v = 0) (Part.entryInt k v)
  have hone := hv 1
  have htwo := hv 2
  have hfour := hv 4
  unfold Entry.setInt
  split
  all_goals
    simp only [Field.parts, List.length_cons, List.length_append]
    omega

theorem command_entry_parts_le (e : Entry) (t : Text) :
    (Field.entry 0 { e with command := t }).parts.length ≤
      (Field.entry 0 e).parts.length + 1 := by
  have ht := optional_le (t = []) (Part.command t)
  simp only [Field.parts, List.length_cons, List.length_append]
  omega

/-- A message has no more parts than it was built from. -/
theorem parts_read_le (m : WrapperMessage) (x : Part) :
    (m.read x).parts.length ≤ m.parts.length + 1 := by
  cases x with
  | message number => exact Nat.le_add_left_of_le (blank_parts_le number)
  | int number v => exact parts_setInt_le m number v
  | entry =>
    rw [WrapperMessage.read]
    apply parts_mapEntries_le
    intro es
    simp [entryParts, Field.parts]
  | entryInt number v =>
    rw [WrapperMessage.read]
    apply parts_mapEntries_le
    exact fun es => entryParts_updateLast_le es fun e => setInt_entry_parts_le e number v
  | command t =>
    rw [WrapperMessage.read]
    apply parts_mapEntries_le
    exact fun es => entryParts_updateLast_le es fun e => command_entry_parts_le e t

theorem parts_foldl_le (ps : List Part) (m : WrapperMessage) :
    (ps.foldl WrapperMessage.read m).parts.length ≤ m.parts.length + ps.length := by
  induction ps generalizing m with
  | nil => exact Nat.le_refl _
  | cons x ps ih =>
    have hstep := parts_read_le m x
    have hrest := ih (m.read x)
    rw [List.foldl_cons, List.length_cons]
    omega

/-- Some of the parts, but not all, build another message. -/
theorem build_take_ne {m : WrapperMessage} {k : ℕ} (h : k < m.parts.length) :
    build (m.parts.take k) ≠ m := by
  intro heq
  have hle := parts_foldl_le (m.parts.take k) .notSet
  rw [← build, heq, List.length_take] at hle
  have hnone : WrapperMessage.notSet.parts.length = 0 := rfl
  omega

/-! ### The same kind -/

theorem number_setInt (m : WrapperMessage) (number : ℕ) (v : ℤ) :
    (m.setInt number v).number = m.number := by
  unfold WrapperMessage.setInt
  split <;> rfl

theorem number_mapEntries (m : WrapperMessage) (f : List Entry → List Entry) :
    (m.mapEntries f).number = m.number := by
  cases m <;> rfl

theorem number_blank (m : WrapperMessage) : (blank m.number).number = m.number := by
  cases m <;> rfl

/-- The parts after the head set fields only. -/
theorem number_foldl {ps : List Part} (h : ∀ n, .message n ∉ ps) (m : WrapperMessage) :
    (ps.foldl WrapperMessage.read m).number = m.number := by
  induction ps generalizing m with
  | nil => rfl
  | cons x ps ih =>
    have hrest : ∀ n, .message n ∉ ps := fun n hn => h n (List.mem_cons_of_mem x hn)
    rw [List.foldl_cons, ih hrest]
    cases x with
    | message n => exact absurd (List.mem_cons_self ..) (h n)
    | int number v => exact number_setInt m number v
    | entry | entryInt _ _ | command _ =>
      rw [WrapperMessage.read]
      exact number_mapEntries m _

theorem head_notMem_fields (m : WrapperMessage) (n : ℕ) :
    .message n ∉ m.fields.flatMap Field.parts := by
  rw [List.mem_flatMap]
  rintro ⟨f, -, hn⟩
  cases f with
  | int number v =>
    rw [Field.parts] at hn
    split_ifs at hn <;> simp at hn
  | entry number e =>
    rw [Field.parts] at hn
    split_ifs at hn <;> simp at hn

theorem number_build_take {m : WrapperMessage} {k : ℕ} (hm : m ≠ .notSet) (hk : 0 < k) :
    (build (m.parts.take k)).number = m.number := by
  obtain ⟨k, rfl⟩ := Nat.exists_eq_add_of_lt hk
  rw [WrapperMessage.parts, if_neg hm, Nat.zero_add, List.take_succ_cons, build, List.foldl_cons,
    number_foldl, WrapperMessage.read, number_blank]
  exact fun n hn => head_notMem_fields m n (List.mem_of_mem_take hn)

end Raft2PC
