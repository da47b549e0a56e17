import Mathlib.Algebra.GroupWithZero.Nat
import Mathlib.Data.List.Basic
import Mathlib.Tactic.Common

/-! Numbers in base 128 and the heads of fields, and how they are read from a buffer that
may end inside them. -/

namespace Wire

/-! ### Base 128 -/

/-- The groups of seven bits of `n`, lowest first, at most `fuel` of them. -/
def groups : ℕ → ℕ → List UInt8
  | 0, _ => []
  | fuel + 1, n =>
    if n < 128 then [n.toUInt8] else (n % 128 + 128).toUInt8 :: groups fuel (n / 128)

def varint (n : ℕ) : List UInt8 := groups (n + 1) n

/-- The number that begins a buffer, and the bytes after it. -/
def readVarint : List UInt8 → Option (ℕ × List UInt8)
  | [] => none
  | b :: bs =>
    if b.toNat < 128 then some (b.toNat, bs)
    else (readVarint bs).map fun (n, rest) => (b.toNat - 128 + 128 * n, rest)

theorem groups_ne_nil {fuel n : ℕ} (h : n < fuel) : groups fuel n ≠ [] := by
  cases fuel with
  | zero => exact absurd h (Nat.not_lt_zero n)
  | succ fuel =>
    rw [groups]
    split_ifs <;> simp

theorem varint_pos (n : ℕ) : 0 < (varint n).length :=
  List.length_pos_of_ne_nil (groups_ne_nil n.lt_succ_self)

theorem toNat_byte {n : ℕ} (h : n < 256) : n.toUInt8.toNat = n :=
  (UInt8.toNat_ofNat' (n := n)).trans (Nat.mod_eq_of_lt h)

/-- Reading is exact on a whole number and fails inside one. -/
theorem readVarint_groups {fuel n : ℕ} (h : n < fuel) (rest : List UInt8) (k : ℕ) :
    readVarint ((groups fuel n ++ rest).take k) =
      if (groups fuel n).length ≤ k then some (n, rest.take (k - (groups fuel n).length))
      else none := by
  induction fuel generalizing n k with
  | zero => exact absurd h (Nat.not_lt_zero n)
  | succ fuel ih =>
    cases k with
    | zero =>
      have hpos := List.length_pos_of_ne_nil (groups_ne_nil h)
      simp [readVarint, Nat.not_le.mpr hpos]
    | succ k =>
      rw [groups]
      by_cases hsmall : n < 128
      · simp [readVarint, hsmall, toNat_byte (show n < 256 by omega)]
      · have hbyte := toNat_byte (show n % 128 + 128 < 256 by omega)
        have hsum : n % 128 + 128 * (n / 128) = n := Nat.mod_add_div n 128
        rw [if_neg hsmall, List.cons_append, List.take_succ_cons, readVarint, hbyte,
          if_neg (by omega), ih (by omega) k, List.length_cons]
        by_cases hk : (groups fuel (n / 128)).length ≤ k
        · rw [if_pos hk, if_pos (Nat.add_le_add_right hk 1)]
          simp [hsum]
        · rw [if_neg hk, if_neg (by omega)]
          rfl

theorem readVarint_take (n : ℕ) (rest : List UInt8) (k : ℕ) :
    readVarint ((varint n ++ rest).take k) =
      if (varint n).length ≤ k then some (n, rest.take (k - (varint n).length)) else none :=
  readVarint_groups n.lt_succ_self rest k

/-! ### Heads -/

/-- A tag, of a field number and a wire type, and the number that follows it. -/
def head (number type value : ℕ) : List UInt8 := varint (8 * number + type) ++ varint value

/-- The field number, wire type and value of the head that begins a buffer. -/
def readHead (bytes : List UInt8) : Option ((ℕ × ℕ × ℕ) × List UInt8) :=
  (readVarint bytes).bind fun (tag, rest) =>
    (readVarint rest).map fun (value, rest) => ((tag / 8, tag % 8, value), rest)

theorem head_pos (number type value : ℕ) : 0 < (head number type value).length := by
  rw [head, List.length_append]
  exact Nat.add_pos_left (varint_pos _) _

theorem readHead_take {type : ℕ} (h : type < 8) (number value : ℕ) (rest : List UInt8) (k : ℕ) :
    readHead ((head number type value ++ rest).take k) =
      if (head number type value).length ≤ k then
        some ((number, type, value), rest.take (k - (head number type value).length))
      else none := by
  have htag : (8 * number + type) / 8 = number := by omega
  have htype : (8 * number + type) % 8 = type := by omega
  rw [readHead, head, List.append_assoc, readVarint_take, List.length_append]
  by_cases hfirst : (varint (8 * number + type)).length ≤ k
  · simp only [if_pos hfirst, Option.bind_some, readVarint_take]
    by_cases hboth : (varint value).length ≤ k - (varint (8 * number + type)).length
    · rw [if_pos hboth, if_pos (by omega)]
      simp [htag, htype, Nat.sub_sub]
    · rw [if_neg hboth, if_neg (by omega)]
      rfl
  · rw [if_neg hfirst, if_neg (by omega)]
    rfl

end Wire
