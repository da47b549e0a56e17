import Mathlib.Algebra.GroupWithZero.Nat
import Mathlib.Data.List.Basic
import Mathlib.Tactic.Common

/-! Items that are written one after the other, and what a buffer that ends early still holds
of them: those that are whole, and nothing of the next one. -/

namespace Wire

/-- How many of the widths fit one after the other into `n`. -/
def fitting (n : ℕ) : List ℕ → ℕ
  | [] => 0
  | w :: ws => if w ≤ n then fitting (n - w) ws + 1 else 0

variable {n : ℕ} {ws : List ℕ}

theorem fitting_le (n : ℕ) (ws : List ℕ) : fitting n ws ≤ ws.length := by
  induction ws generalizing n with
  | nil => exact Nat.le_refl 0
  | cons w ws ih =>
    rw [fitting]
    split_ifs
    · exact Nat.add_le_add_right (ih (n - w)) 1
    · exact Nat.zero_le _

theorem fitting_eq_length : fitting n ws = ws.length ↔ ws.sum ≤ n := by
  induction ws generalizing n with
  | nil => simp [fitting]
  | cons w ws ih =>
    rw [fitting, List.length_cons, List.sum_cons]
    by_cases hw : w ≤ n
    · rw [if_pos hw, Nat.add_right_cancel_iff, ih]
      omega
    · rw [if_neg hw]
      exact iff_of_false (Nat.succ_ne_zero _).symm (by omega)

theorem fitting_lt (h : n < ws.sum) : fitting n ws < ws.length :=
  Nat.lt_of_le_of_ne (fitting_le n ws) fun heq => Nat.not_le.mpr h (fitting_eq_length.mp heq)

/-- Something fits exactly if the first item does. -/
theorem fitting_pos {w : ℕ} : 0 < fitting n (w :: ws) ↔ w ≤ n := by
  rw [fitting]
  split_ifs with hw <;> simp [hw]

/-! ### Reading until the buffer ends -/

section Items

variable {σ α : Type*}

/-- All that `next` reads from a buffer until it fails. -/
def readAll (next : σ → List UInt8 → Option (α × σ × List UInt8)) :
    ℕ → σ → List UInt8 → List α
  | 0, _, _ => []
  | fuel + 1, s, bytes =>
    match next s bytes with
    | some (a, s', rest) => a :: readAll next fuel s' rest
    | none => []

def toBytes (items : List (α × List UInt8)) : List UInt8 := items.flatMap Prod.snd

def widths (items : List (α × List UInt8)) : List ℕ := items.map fun x => x.2.length

theorem toBytes_length (items : List (α × List UInt8)) :
    (toBytes items).length = (widths items).sum := List.length_flatMap

variable (next : σ → List UInt8 → Option (α × σ × List UInt8))

/-- In state `s` the bytes are read as `a`, whole or not at all. -/
structure Reads (s : σ) (a : α) (bytes : List UInt8) (s' : σ) : Prop where
  positive : 0 < bytes.length
  exact : ∀ rest k, next s ((bytes ++ rest).take k) =
    if bytes.length ≤ k then some (a, s', rest.take (k - bytes.length)) else none

/-- The items are read one after the other, from state `s` to state `s'`. -/
inductive Chain : σ → List (α × List UInt8) → σ → Prop
  | nil (s : σ) : Chain s [] s
  | cons {s s' s'' : σ} {a : α} {bytes : List UInt8} {items : List (α × List UInt8)}
      (h : Reads next s a bytes s') (hrest : Chain s' items s'') :
      Chain s ((a, bytes) :: items) s''

namespace Chain

variable {next} {s s' s'' : σ} {items items' : List (α × List UInt8)}

theorem append (h : Chain next s items s') (h' : Chain next s' items' s'') :
    Chain next s (items ++ items') s'' := by
  induction h with
  | nil s => exact h'
  | cons hread _ ih => exact .cons hread (ih h')

theorem positive (h : Chain next s items s') : ∀ w ∈ widths items, 0 < w := by
  induction h with
  | nil s => simp [widths]
  | cons hread _ ih =>
    intro w hw
    rcases List.mem_cons.mp hw with rfl | hw
    · exact hread.positive
    · exact ih w hw

/-- A buffer that ends early yields the items that are whole. -/
theorem readAll_take (hend : ∀ s, next s [] = none) (h : Chain next s items s') {fuel k : ℕ}
    (hfuel : ((toBytes items).take k).length ≤ fuel) :
    readAll next fuel s ((toBytes items).take k) =
      (items.map Prod.fst).take (fitting k (widths items)) := by
  induction h generalizing fuel k with
  | nil s =>
    cases fuel with
    | zero => simp [readAll]
    | succ fuel => simp [readAll, toBytes, hend]
  | @cons s s' s'' a bytes items hread _ ih =>
    have hpos := hread.positive
    have hbytes : toBytes ((a, bytes) :: items) = bytes ++ toBytes items := rfl
    rw [hbytes] at hfuel ⊢
    rw [widths, List.map_cons, fitting]
    cases fuel with
    | zero =>
      rw [List.length_take, List.length_append] at hfuel
      have hk : ¬ bytes.length ≤ k := by omega
      rw [if_neg hk]
      rfl
    | succ fuel =>
      rw [readAll, hread.exact]
      by_cases hk : bytes.length ≤ k
      · simp only [if_pos hk, List.map_cons, List.take_succ_cons]
        rw [← widths, ih]
        rw [List.length_take, List.length_append] at hfuel
        rw [List.length_take]
        omega
      · simp only [if_neg hk, List.take_zero]

end Chain

end Items

end Wire
