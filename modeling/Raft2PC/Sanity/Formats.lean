import Raft2PC.Spec.Text
import Mathlib.Data.List.TakeDrop

/-! `sscanf` reads back what `fmt::format` prints. A pattern says where the numbers stand;
nothing that follows a number may be taken for one of its digits, and nothing that follows
white space for more of it. -/

namespace Raft2PC

/-- A text that does not go on with a digit. -/
def NoDigit (s : Text) : Prop := ∀ c ∈ s.head?, c.isDigit = false

theorem span_digits {ds rest : Text} (hds : ∀ c ∈ ds, c.isDigit = true) (hrest : NoDigit rest) :
    (ds ++ rest).span Char.isDigit = (ds, rest) := by
  rw [List.span_eq_takeWhile_dropWhile, List.takeWhile_append_of_pos hds,
    List.dropWhile_append_of_pos hds]
  cases rest with
  | nil => simp
  | cons c rest => simp [hrest c rfl]

theorem scanNat_toDigits (n : ℕ) {rest : Text} (hrest : NoDigit rest) :
    scanNat (Nat.toDigits 10 n ++ rest) = some (n, rest) := by
  have hdigits : ∀ c ∈ Nat.toDigits 10 n, c.isDigit = true :=
    fun c hc => Nat.isDigit_of_mem_toDigits (by omega) (by omega) hc
  have hvalue : natOfDigits (Nat.toDigits 10 n) = n := by
    rw [natOfDigits, ← Nat.ofDigitChars_eq_foldl, Nat.ofDigitChars_ten_toDigits]
  unfold scanNat
  rw [span_digits hdigits hrest]
  cases hds : Nat.toDigits 10 n with
  | nil => exact absurd hds Nat.toDigits_ne_nil
  | cons d ds =>
    rw [hds] at hvalue
    simp only [hvalue]

/-- A number starts with a digit, so it is no white space, sign or bracket. -/
theorem toDigits_head (n : ℕ) : ∃ d ds, Nat.toDigits 10 n = d :: ds ∧ d.isDigit = true := by
  cases hds : Nat.toDigits 10 n with
  | nil => exact absurd hds Nat.toDigits_ne_nil
  | cons d ds =>
    refine ⟨d, ds, rfl, ?_⟩
    exact Nat.isDigit_of_mem_toDigits (n := n) (by omega) (by omega) (hds ▸ List.mem_cons_self)

theorem isSpace_of_isDigit {d : Char} (h : d.isDigit = true) : isSpace d = false := by
  have hbounds : 48 ≤ d.toNat := by
    simp only [Char.isDigit, Bool.and_eq_true, decide_eq_true_eq, ge_iff_le] at h
    exact h.1
  have hne : ∀ c : Char, c.toNat < 48 → d ≠ c := by
    rintro c hc rfl
    omega
  simp only [isSpace, Bool.or_eq_false_iff, decide_eq_false_iff_not]
  refine ⟨⟨⟨⟨⟨hne _ (by decide), hne _ (by decide)⟩, hne _ (by decide)⟩, hne _ (by decide)⟩, ?_⟩, ?_⟩ <;>
    omega

/-- A number needs no white space skipped before it. -/
theorem skipSpace_fmtInt (n : ℤ) (rest : Text) : skipSpace (fmtInt n ++ rest) = fmtInt n ++ rest := by
  unfold skipSpace
  cases n with
  | ofNat n =>
    obtain ⟨d, ds, hds, hd⟩ := toDigits_head n
    simp only [fmtInt, hds, List.cons_append]
    rw [List.dropWhile_cons_of_neg (by simp [isSpace_of_isDigit hd])]
  | negSucc n => exact List.dropWhile_cons_of_neg (by decide)

theorem scanInt_fmtInt (n : ℤ) {rest : Text} (hrest : NoDigit rest) :
    scanInt (fmtInt n ++ rest) = some (n, rest) := by
  unfold scanInt
  rw [skipSpace_fmtInt]
  cases n with
  | ofNat n =>
    obtain ⟨d, ds, hds, hd⟩ := toDigits_head n
    have hscan := scanNat_toDigits n hrest
    have hminus : d ≠ '-' := by rintro rfl; revert hd; decide
    have hplus : d ≠ '+' := by rintro rfl; revert hd; decide
    simp only [fmtInt, hds, List.cons_append] at hscan ⊢
    split
    · rename_i heq; exact absurd (List.cons.inj heq).1 hminus
    · rename_i heq; exact absurd (List.cons.inj heq).1 hplus
    · rw [hscan]; rfl
  | negSucc n =>
    have hscan := scanNat_toDigits (n + 1) hrest
    simp only [fmtInt, List.cons_append, hscan, Option.map_some]
    rfl

/-! ### Patterns -/

theorem scan_int (n : ℤ) {rest : Text} (ds : List Directive) (hrest : NoDigit rest) :
    scan (.int :: ds) (fmtInt n ++ rest) = n :: scan ds rest := by
  rw [scan, scanInt_fmtInt n hrest]

/-- What a pattern prints when its numbers are filled in. -/
def render : List Directive → List ℤ → Text
  | [], _ => []
  | .int :: ds, n :: args => fmtInt n ++ render ds args
  | .int :: _, [] => []
  | .space :: ds, args => ' ' :: render ds args
  | .lit c :: ds, args => c :: render ds args

/-- What comes next is not taken for a digit. -/
def endsNumber : List Directive → Bool
  | .int :: _ => false
  | .lit c :: _ => !c.isDigit
  | _ => true

/-- What comes next is not taken for white space. -/
def endsSpace : List Directive → Bool
  | .space :: _ => false
  | .lit c :: _ => !isSpace c
  | _ => true

/-- Numbers and white space end where the pattern says so. -/
def separated : List Directive → Bool
  | [] => true
  | .int :: ds => endsNumber ds && separated ds
  | .space :: ds => endsSpace ds && separated ds
  | .lit _ :: ds => separated ds

theorem noDigit_render {ds : List Directive} (h : endsNumber ds = true) (args : List ℤ) :
    NoDigit (render ds args) := by
  intro c hc
  cases ds with
  | nil => cases hc
  | cons d ds =>
    cases d with
    | int => cases h
    | space =>
      cases hc
      decide
    | lit c' =>
      cases hc
      simpa [endsNumber] using h

theorem skipSpace_render {ds : List Directive} (h : endsSpace ds = true) (args : List ℤ) :
    skipSpace (render ds args) = render ds args := by
  cases ds with
  | nil => rfl
  | cons d ds =>
    cases d with
    | int =>
      cases args with
      | nil => rfl
      | cons n args => exact skipSpace_fmtInt n _
    | space => cases h
    | lit c => exact List.dropWhile_cons_of_neg (by simpa [endsSpace] using h)

/-- Printing by a separated pattern and scanning by it gives the numbers back. -/
theorem scan_render {ds : List Directive} {args : List ℤ} (hsep : separated ds = true)
    (hlen : args.length = ds.count .int) : scan ds (render ds args) = args := by
  induction ds generalizing args with
  | nil => exact (List.eq_nil_of_length_eq_zero hlen).symm
  | cons d ds ih =>
    cases d with
    | int =>
      obtain ⟨hends, hrest⟩ := Bool.and_eq_true_iff.mp hsep
      rw [List.count_cons_self] at hlen
      cases args with
      | nil => cases hlen
      | cons n args =>
        rw [render, scan_int n ds (noDigit_render hends args), ih hrest (Nat.succ.inj hlen)]
    | space =>
      obtain ⟨hends, hrest⟩ := Bool.and_eq_true_iff.mp hsep
      have hskip : skipSpace (' ' :: render ds args) = skipSpace (render ds args) := rfl
      rw [List.count_cons_of_ne (by decide)] at hlen
      rw [render, scan, hskip, skipSpace_render hends, ih hrest hlen]
    | lit c =>
      rw [List.count_cons_of_ne (by simp)] at hlen
      rw [render, scan, if_pos rfl, ih hsep hlen]

end Raft2PC
