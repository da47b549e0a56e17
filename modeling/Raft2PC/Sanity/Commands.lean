import Raft2PC.Spec.Executor
import Raft2PC.Sanity.Formats

/-! Log commands read back: `sscanf` returns the three numbers `fmt::format` wrote, and
the first characters tell the kinds of command apart. -/

namespace Raft2PC

/-! ### What the two formats read -/

theorem render_pays (a b c : ℤ) : render (directives paysFormat) [a, b, c] = fmtPays a b c := by
  have hformat : directives paysFormat = .int :: .space :: .lit 'p' :: .lit 'a' :: .lit 'y' ::
      .lit 's' :: .space :: .int :: .space :: .lit '$' :: [.int] := by decide
  simp [hformat, render, fmtPays]

theorem render_prepare (a b c : ℤ) :
    render (directives prepareFormat) [a, b, c] = "[PREPARE] ".toList ++ fmtPays a b c := by
  have hformat : directives prepareFormat =
      ("[PREPARE]".toList.map Directive.lit ++ [.space]) ++ directives paysFormat := by decide
  rw [hformat, ← render_pays]
  rfl

theorem scan_pays (a b c : ℤ) : scan (directives paysFormat) (fmtPays a b c) = [a, b, c] := by
  rw [← render_pays]
  exact scan_render (by decide) rfl

theorem scan_prepare (a b c : ℤ) :
    scan (directives prepareFormat) ("[PREPARE] ".toList ++ fmtPays a b c) = [a, b, c] := by
  rw [← render_prepare]
  exact scan_render (by decide) rfl

theorem sscanf_pays (u : Transfer) (a b c : ℤ) :
    sscanf u paysFormat (fmtPays a b c) = ⟨a, b, c⟩ := by
  simp only [sscanf, scan_pays]

theorem sscanf_prepare (u : Transfer) (a b c : ℤ) :
    sscanf u prepareFormat ("[PREPARE] ".toList ++ fmtPays a b c) = ⟨a, b, c⟩ := by
  simp only [sscanf, scan_prepare]

/-! ### Kinds of command -/

theorem isCross_pays (a b c : ℤ) : isCross (fmtPays a b c) = false := by
  have hhead : ∀ rest, isCross (fmtInt a ++ rest) = false := by
    intro rest
    cases a with
    | ofNat n =>
      obtain ⟨d, ds, hds, hd⟩ := toDigits_head n
      have hne : d ≠ '[' := by rintro rfl; revert hd; decide
      simp [isCross, fmtInt, hds, hne]
    | negSucc n => rfl
  simp only [fmtPays, List.append_assoc, hhead]

theorem isCross_of_take {n : ℕ} {t rest : Text} (h : t.take n = '[' :: rest) :
    isCross t = true := by
  cases t with
  | nil => simp at h
  | cons c t =>
    cases n with
    | zero => simp at h
    | succ n =>
      rw [List.take_succ_cons] at h
      rw [(List.cons.inj h).1]
      rfl

theorem isCross_prepare (s : Text) : isCross ("[PREPARE] ".toList ++ s) = true := rfl

theorem isCommit_commit (s : Text) : isCommit ("[COMMIT] ".toList ++ s) = true := rfl

end Raft2PC
