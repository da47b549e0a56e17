import Raft2PC.Spec.AIOServer

/-! Balances and locks after each access to a table. Indexing a missing key inserts it,
but reads as before. -/

namespace Raft2PC

namespace Table

variable {α : Type} [Inhabited α]

theorem get_insert (tb : Table α) (k k' : ℤ) (a : α) :
    get (Finmap.insert k a tb) k' = if k' = k then a else tb.get k' := by
  unfold get
  split_ifs with h
  · subst h; rw [Finmap.lookup_insert]; rfl
  · rw [Finmap.lookup_insert_of_ne _ h]

theorem get_touch (tb : Table α) (k k' : ℤ) : (tb.touch k).get k' = tb.get k' := by
  unfold touch
  split_ifs with h
  · rfl
  · rw [get_insert]
    split_ifs with hk
    · subst hk
      simp [get, Finmap.lookup_eq_none.mpr h]
    · rfl

theorem get_add (tb : Table ℤ) (k d k' : ℤ) :
    (tb.add k d).get k' = tb.get k' + if k' = k then d else 0 := by
  unfold add
  rw [get_insert]
  split_ifs with hk
  · rw [hk]
  · rw [add_zero]

theorem mem_touch {tb : Table α} {k k' : ℤ} : k' ∈ tb.touch k ↔ k' ∈ tb ∨ k' = k := by
  unfold touch
  split_ifs with h
  · exact ⟨Or.inl, fun hk => hk.elim id fun heq => heq ▸ h⟩
  · rw [Finmap.mem_insert, or_comm]

theorem lookup_touch {tb : Table α} {k' : ℤ} (hk : k' ∈ tb) (k : ℤ) :
    (tb.touch k).lookup k' = tb.lookup k' := by
  unfold touch
  split_ifs with h
  · rfl
  · exact Finmap.lookup_insert_of_ne _ fun heq => h (heq ▸ hk)

theorem touch_of_mem {tb : Table α} {k : ℤ} (hk : k ∈ tb) : tb.touch k = tb := if_pos hk

end Table

namespace RaftState

@[simp] theorem balances_touchLock (rs : RaftState) (k : ℤ) :
    (rs.touchLock k).localBalanceTb = rs.localBalanceTb := rfl

@[simp] theorem balances_touchBalance (rs : RaftState) (k : ℤ) :
    (rs.touchBalance k).localBalanceTb = rs.localBalanceTb.touch k := rfl

@[simp] theorem balance_touchLock (rs : RaftState) (k k' : ℤ) :
    (rs.touchLock k).balance k' = rs.balance k' := rfl

@[simp] theorem balance_touchBalance (rs : RaftState) (k k' : ℤ) :
    (rs.touchBalance k).balance k' = rs.balance k' := Table.get_touch _ _ _

@[simp] theorem balance_setLock (rs : RaftState) (k k' : ℤ) (b : Bool) :
    (rs.setLock k b).balance k' = rs.balance k' := rfl

@[simp] theorem balance_addBalance (rs : RaftState) (k d k' : ℤ) :
    (rs.addBalance k d).balance k' = rs.balance k' + if k' = k then d else 0 :=
  Table.get_add _ _ _ _

@[simp] theorem balance_pushLog (rs : RaftState) (e : LogEntry) (k : ℤ) :
    (rs.pushLog e).balance k = rs.balance k := rfl

@[simp] theorem locked_touchLock (rs : RaftState) (k k' : ℤ) :
    (rs.touchLock k).locked k' = rs.locked k' := Table.get_touch _ _ _

@[simp] theorem locked_touchBalance (rs : RaftState) (k k' : ℤ) :
    (rs.touchBalance k).locked k' = rs.locked k' := rfl

@[simp] theorem locked_setLock (rs : RaftState) (k k' : ℤ) (b : Bool) :
    (rs.setLock k b).locked k' = if k' = k then b else rs.locked k' :=
  Table.get_insert _ _ _ _

@[simp] theorem locked_addBalance (rs : RaftState) (k d k' : ℤ) :
    (rs.addBalance k d).locked k' = rs.locked k' := rfl

@[simp] theorem clusterId_pushLog (rs : RaftState) (e : LogEntry) :
    (rs.pushLog e).clusterId = rs.clusterId := rfl

@[simp] theorem locked_pushLog (rs : RaftState) (e : LogEntry) (k : ℤ) :
    (rs.pushLog e).locked k = rs.locked k := rfl

end RaftState

end Raft2PC
