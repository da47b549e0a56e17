import Raft2PC.Spec.Wire
import Raft2PC.Sanity.Parts

/-! The wire format does what is documented of the library: a message is written part by part,
and the beginning of its bytes yields the parts that are whole. -/

namespace Raft2PC

open Wire

/-- The value is an `int32`. -/
def IsInt32 (v : ℤ) : Prop := -2 ^ 31 ≤ v ∧ v < 2 ^ 31

instance (v : ℤ) : Decidable (IsInt32 v) := inferInstanceAs (Decidable (_ ∧ _))

def Field.Fits : Field → Prop
  | .int _ v => IsInt32 v
  | .entry _ e => IsInt32 e.term ∧ IsInt32 e.index ∧ IsInt32 e.id ∧ ∀ c ∈ e.command, c.toNat < 128

instance : DecidablePred Field.Fits
  | .int _ v => inferInstanceAs (Decidable (IsInt32 v))
  | .entry _ e => inferInstanceAs (Decidable (IsInt32 e.term ∧ IsInt32 e.index ∧ IsInt32 e.id ∧
      ∀ c ∈ e.command, c.toNat < 128))

/-- Every number of the message is an `int32` and every string is ASCII. -/
def WrapperMessage.Fits (m : WrapperMessage) : Prop := ∀ f ∈ m.fields, f.Fits

instance : DecidablePred WrapperMessage.Fits :=
  fun m => inferInstanceAs (Decidable (∀ f ∈ m.fields, f.Fits))

theorem bmod_emod_of_dvd (v : ℤ) {n k : ℕ} (h : k ∣ n) : (v % n).bmod k = v.bmod k := by
  rw [← Int.emod_bmod, Int.emod_emod_of_dvd v (Int.natCast_dvd_natCast.mpr h), Int.emod_bmod]

theorem int32_int64 {v : ℤ} (h : IsInt32 v) : int32 (int64 v) = v := by
  have hnonneg : 0 ≤ v % (2 ^ 64 : ℕ) := Int.emod_nonneg v (by decide)
  have hdvd : 2 ^ 32 ∣ 2 ^ 64 := Nat.pow_dvd_pow 2 (by decide)
  unfold int32 int64
  rw [Int.toNat_of_nonneg hnonneg, bmod_emod_of_dvd v hdvd]
  exact Int.bmod_eq_of_le h.1 h.2

theorem bytesText_textBytes {t : Text} (h : ∀ c ∈ t, c.toNat < 128) :
    bytesText (textBytes t) = t := by
  induction t with
  | nil => rfl
  | cons c t ih =>
    have hc : c.toNat < 256 := Nat.lt_trans (h c (List.mem_cons_self ..)) (by decide)
    have ht := ih fun c' hc' => h c' (List.mem_cons_of_mem c hc')
    rw [textBytes, bytesText] at ht ⊢
    rw [List.map_cons, List.map_cons, ht, toNat_byte hc, Char.ofNat_toNat]

/-! ### Each part is read whole or not at all -/

theorem reads_message (number value : ℕ) :
    Reads nextPart .outside (.message number) (head number 2 value) (.inside 0) where
  positive := head_pos number 2 value
  exact rest k := by
    rw [nextPart, readHead_take (by decide)]
    split_ifs <;> rfl

theorem reads_int {v : ℤ} (h : IsInt32 v) (number : ℕ) :
    Reads nextPart (.inside 0) (.int number v) (head number 0 (int64 v)) (.inside 0) where
  positive := head_pos number 0 _
  exact rest k := by
    rw [nextPart, readHead_take (by decide)]
    split_ifs
    · simp [int32_int64 h]
    · rfl

theorem reads_entry (number length : ℕ) :
    Reads nextPart (.inside 0) .entry (head number 2 length) (.inside length) where
  positive := head_pos number 2 length
  exact rest k := by
    rw [nextPart, readHead_take (by decide)]
    split_ifs <;> rfl

/-- Inside an entry: what has been read is taken from the bytes left of it. -/
theorem nextPart_inside {left : ℕ} (h : 0 < left) (bytes : List UInt8) :
    nextPart (.inside left) bytes = (readHead bytes).bind fun ((number, type, value), rest) =>
      let left := left - (bytes.length - rest.length)
      if type = 0 then some (.entryInt number (int32 value), .inside left, rest)
      else if value ≤ rest.length then
        some (.command (bytesText (rest.take value)), .inside (left - value), rest.drop value)
      else none := by
  cases left with
  | zero => exact absurd h (Nat.not_lt_zero 0)
  | succ left => rfl

theorem length_take_sub {bytes rest : List UInt8} {k : ℕ} (h : bytes.length ≤ k) :
    ((bytes ++ rest).take k).length - (rest.take (k - bytes.length)).length = bytes.length := by
  rw [List.length_take, List.length_take, List.length_append]
  omega

theorem reads_entryInt {v : ℤ} (h : IsInt32 v) (number left : ℕ) :
    Reads nextPart (.inside ((head number 0 (int64 v)).length + left)) (.entryInt number v)
      (head number 0 (int64 v)) (.inside left) where
  positive := head_pos number 0 _
  exact rest k := by
    rw [nextPart_inside (Nat.add_pos_left (head_pos number 0 _) left), readHead_take (by decide)]
    by_cases hk : (head number 0 (int64 v)).length ≤ k
    · simp only [if_pos hk, Option.bind_some, length_take_sub hk, if_true, Nat.add_sub_cancel_left,
        int32_int64 h]
    · simp only [if_neg hk, Option.bind_none]

theorem reads_command {t : Text} (h : ∀ c ∈ t, c.toNat < 128) (number left : ℕ) :
    Reads nextPart (.inside ((head number 2 t.length ++ textBytes t).length + left)) (.command t)
      (head number 2 t.length ++ textBytes t) (.inside left) where
  positive := by
    rw [List.length_append]
    exact Nat.add_pos_left (head_pos number 2 _) _
  exact rest k := by
    have htext : (textBytes t).length = t.length := List.length_map _
    have hpos := head_pos number 2 t.length
    rw [nextPart_inside (by rw [List.length_append]; omega), List.append_assoc,
      readHead_take (by decide), List.length_append, htext]
    by_cases hhead : (head number 2 t.length).length ≤ k
    · have htwo : (2 : ℕ) ≠ 0 := by decide
      have hcome : ((textBytes t ++ rest).take (k - (head number 2 t.length).length)).length =
          min (k - (head number 2 t.length).length) (t.length + rest.length) := by
        rw [List.length_take, List.length_append, htext]
      rw [if_pos hhead, Option.bind_some]
      dsimp only
      rw [length_take_sub hhead, if_neg htwo, hcome]
      by_cases hk : (head number 2 t.length).length + t.length ≤ k
      · have hwhole : ((textBytes t ++ rest).take (k - (head number 2 t.length).length)).take
            t.length = textBytes t := by
          rw [List.take_take, Nat.min_eq_left (by omega), ← htext, List.take_left]
        have hrest : ((textBytes t ++ rest).take (k - (head number 2 t.length).length)).drop
            t.length = rest.take (k - ((head number 2 t.length).length + t.length)) := by
          rw [List.drop_take, ← htext, List.drop_left, Nat.sub_sub]
        have hleft : (head number 2 t.length).length + t.length + left -
            (head number 2 t.length).length - t.length = left := by omega
        rw [if_pos (by omega), if_pos hk, hwhole, hrest, bytesText_textBytes h, hleft]
      · rw [if_neg (by omega), if_neg hk]
    · have hk : ¬ (head number 2 t.length).length + t.length ≤ k := by omega
      simp only [if_neg hhead, if_neg hk, Option.bind_none]

/-! ### A message part by part -/

theorem chain_int {v : ℤ} (h : IsInt32 v) (number : ℕ) :
    Chain nextPart (.inside 0) (intItem .int number v) (.inside 0) := by
  rw [intItem]
  split_ifs
  · exact .nil _
  · exact .cons (reads_int h number) (.nil _)

theorem chain_entryInt {v : ℤ} (h : IsInt32 v) (number left : ℕ) :
    Chain nextPart (.inside ((toBytes (intItem .entryInt number v)).length + left))
      (intItem .entryInt number v) (.inside left) := by
  rw [intItem]
  split_ifs
  · rw [toBytes, List.flatMap_nil, List.length_nil, Nat.zero_add]
    exact .nil _
  · rw [toBytes, List.flatMap_cons, List.flatMap_nil, List.append_nil]
    exact .cons (reads_entryInt h number left) (.nil _)

theorem chain_command {t : Text} (h : ∀ c ∈ t, c.toNat < 128) (number left : ℕ) :
    Chain nextPart (.inside ((toBytes (commandItem number t)).length + left))
      (commandItem number t) (.inside left) := by
  rw [commandItem]
  split_ifs
  · rw [toBytes, List.flatMap_nil, List.length_nil, Nat.zero_add]
    exact .nil _
  · rw [toBytes, List.flatMap_cons, List.flatMap_nil, List.append_nil]
    exact .cons (reads_command h number left) (.nil _)

theorem chain_field {f : Field} (h : f.Fits) : Chain nextPart (.inside 0) f.items (.inside 0) := by
  cases f with
  | int number v => exact chain_int h number
  | entry number e =>
    obtain ⟨hterm, hindex, hid, hcommand⟩ := h
    refine .cons (reads_entry number _) ?_
    have hsum : (toBytes e.items).length = (toBytes (intItem .entryInt 1 e.term)).length +
        ((toBytes (intItem .entryInt 2 e.index)).length +
          ((toBytes (commandItem 3 e.command)).length +
            ((toBytes (intItem .entryInt 4 e.id)).length + 0))) := by
      simp [Entry.items, toBytes]
    rw [hsum, Entry.items]
    exact (((chain_entryInt hterm 1 _).append (chain_entryInt hindex 2 _)).append
      (chain_command hcommand 3 _)).append (chain_entryInt hid 4 0)

theorem chain_fields {fs : List Field} (h : ∀ f ∈ fs, f.Fits) :
    Chain nextPart (.inside 0) (fs.flatMap Field.items) (.inside 0) := by
  induction fs with
  | nil => exact .nil _
  | cons f fs ih =>
    rw [List.flatMap_cons]
    exact (chain_field (h f (List.mem_cons_self ..))).append
      (ih fun f' hf' => h f' (List.mem_cons_of_mem f hf'))

theorem chain_message {m : WrapperMessage} (h : m.Fits) :
    ∃ place, Chain nextPart .outside m.items place := by
  rw [WrapperMessage.items]
  split_ifs
  · exact ⟨_, .nil _⟩
  · exact ⟨_, .cons (reads_message m.number _) (chain_fields h)⟩

theorem parts_field (f : Field) : f.items.map Prod.fst = f.parts := by
  cases f with
  | int number v =>
    rw [Field.items, intItem, Field.parts]
    split_ifs <;> rfl
  | entry number e =>
    rw [Field.items, Entry.items, Field.parts, List.map_cons, List.map_append, List.map_append,
      List.map_append]
    simp only [intItem, commandItem, apply_ite (List.map Prod.fst), List.map_nil, List.map_cons]

theorem parts_items (m : WrapperMessage) : m.items.map Prod.fst = m.parts := by
  rw [WrapperMessage.items, WrapperMessage.parts]
  split_ifs
  · rfl
  · rw [List.map_cons, List.map_flatMap]
    simp only [parts_field]

theorem nextPart_nil (place : Place) : nextPart place [] = none := by
  cases place with
  | outside => rfl
  | inside left => cases left <;> rfl

/-- The wire format handles every message of `int32` numbers and ASCII strings. -/
theorem wire_handles {m : WrapperMessage} (h : m.Fits) : wire.Handles m (widths m.items) := by
  obtain ⟨place, hchain⟩ := chain_message h
  refine ⟨?_, hchain.positive, toBytes_length m.items, fun n _ => ?_⟩
  · rw [widths, List.length_map, ← parts_items, List.length_map]
  · rw [← parts_items]
    exact congrArg build (hchain.readAll_take nextPart_nil (Nat.le_refl _))

/-- What was serialized is parsed as it was. -/
theorem wire_roundtrip {m : WrapperMessage} (h : m.Fits) : wire.parse (wire.serialize m) = m := by
  have hhandles := wire_handles h
  have hfits : fitting (wire.serialize m).length (widths m.items) = m.parts.length :=
    (fitting_eq_length.mpr (Nat.le_of_eq hhandles.size.symm)).trans hhandles.each
  have hall := hhandles.truncated _ (Nat.le_refl (wire.serialize m).length)
  rwa [List.take_length, hfits, List.take_length, build_parts] at hall

end Raft2PC
