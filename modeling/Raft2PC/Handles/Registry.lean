import Mathlib.Data.Multiset.UnionInter
import Mathlib.Logic.Function.Basic
import Mathlib.Tactic.Common

/-! Handles. A registry says what each handle stands for, by the number of its opening, and a
handle that is closed may be given out again. Who closes only what is theirs alone never
closes what is in use. -/

namespace Handles

variable {η : Type*}

structure Registry (η : Type*) where
  file : η → Option ℕ
  opened : ℕ
  below : ∀ h n, file h = some n → n < opened
  apart : ∀ g h n, file g = some n → file h = some n → g = h

inductive Op (η : Type*) where
  | grant (h : η)
  | close (h : η)

def Op.granted : Op η → Option η
  | .grant h => some h
  | .close _ => none

def Op.closed : Op η → Option η
  | .grant _ => none
  | .close h => some h

/-- The handles that `ops` give out. -/
def handedOut (ops : List (Op η)) : Multiset η := ↑(ops.filterMap Op.granted)

/-- The handles that `ops` close. -/
def closed (ops : List (Op η)) : Multiset η := ↑(ops.filterMap Op.closed)

@[simp] theorem handedOut_nil : handedOut ([] : List (Op η)) = 0 := rfl

@[simp] theorem closed_nil : closed ([] : List (Op η)) = 0 := rfl

@[simp] theorem handedOut_grant (h : η) (ops : List (Op η)) :
    handedOut (.grant h :: ops) = h ::ₘ handedOut ops := rfl

@[simp] theorem handedOut_close (h : η) (ops : List (Op η)) :
    handedOut (.close h :: ops) = handedOut ops := rfl

@[simp] theorem closed_grant (h : η) (ops : List (Op η)) :
    closed (.grant h :: ops) = closed ops := rfl

@[simp] theorem closed_close (h : η) (ops : List (Op η)) :
    closed (.close h :: ops) = h ::ₘ closed ops := rfl

theorem handedOut_append (ops ops' : List (Op η)) :
    handedOut (ops ++ ops') = handedOut ops + handedOut ops' := by
  simp [handedOut, List.filterMap_append]

theorem closed_append (ops ops' : List (Op η)) : closed (ops ++ ops') = closed ops + closed ops' := by
  simp [closed, List.filterMap_append]

namespace Registry

/-- Nothing is open. -/
def empty : Registry η where
  file _ := none
  opened := 0
  below _ _ h := absurd h.symm (Option.some_ne_none _)
  apart _ _ _ h := absurd h.symm (Option.some_ne_none _)

/-- The handles in `held` are open, and each is held once. -/
structure Holds (t : Registry η) (held : Multiset η) : Prop where
  nodup : held.Nodup
  isOpen : ∀ h ∈ held, t.file h ≠ none

variable {t : Registry η} {held held' : Multiset η} {g h : η} {n : ℕ} {op : Op η} {ops : List (Op η)}

theorem Holds.mono (hH : t.Holds held) (hle : held' ≤ held) : t.Holds held' :=
  ⟨Multiset.nodup_of_le hle hH.nodup, fun h hh => hH.isOpen h (Multiset.mem_of_le hle hh)⟩

theorem Holds.disjoint (hH : t.Holds (closed ops + held)) (hh : h ∈ held) : h ∉ closed ops :=
  fun hc => Multiset.disjoint_left.mp (Multiset.nodup_add.mp hH.nodup).2.2 hc hh

variable [DecidableEq η]

def grant (t : Registry η) (g : η) : Registry η where
  file := Function.update t.file g (some t.opened)
  opened := t.opened + 1
  below h n hn := by
    rw [Function.update_apply] at hn
    split_ifs at hn
    · obtain rfl := Option.some.inj hn
      exact Nat.lt_succ_self _
    · exact (t.below h n hn).trans (Nat.lt_succ_self _)
  apart h k n hh hk := by
    rw [Function.update_apply] at hh hk
    split_ifs at hh hk with hhg hkg hkg
    · exact hhg.trans hkg.symm
    · obtain rfl := Option.some.inj hh
      exact absurd (t.below k _ hk) (lt_irrefl _)
    · obtain rfl := Option.some.inj hk
      exact absurd (t.below h _ hh) (lt_irrefl _)
    · exact t.apart h k n hh hk

def close (t : Registry η) (g : η) : Registry η where
  file := Function.update t.file g none
  opened := t.opened
  below h n hn := by
    rw [Function.update_apply] at hn
    split_ifs at hn
    exact t.below h n hn
  apart h k n hh hk := by
    rw [Function.update_apply] at hh hk
    split_ifs at hh hk
    exact t.apart h k n hh hk

def apply (t : Registry η) : Op η → Registry η
  | .grant h => t.grant h
  | .close h => t.close h

def after (t : Registry η) (ops : List (Op η)) : Registry η := ops.foldl apply t

/-- Only free handles are given out. -/
def Grants (t : Registry η) : List (Op η) → Prop
  | [] => True
  | op :: ops => (∀ h ∈ op.granted, t.file h = none) ∧ (t.apply op).Grants ops

instance decidableGrants : ∀ (t : Registry η) (ops : List (Op η)), Decidable (t.Grants ops)
  | _, [] => inferInstanceAs (Decidable True)
  | t, op :: ops =>
    have := decidableGrants (t.apply op) ops
    inferInstanceAs (Decidable ((∀ h ∈ op.granted, t.file h = none) ∧ (t.apply op).Grants ops))

/-- Only open handles are closed. -/
def Closes (t : Registry η) : List (Op η) → Prop
  | [] => True
  | op :: ops => (∀ h ∈ op.closed, t.file h ≠ none) ∧ (t.apply op).Closes ops

@[simp] theorem file_grant (t : Registry η) (g h : η) :
    (t.grant g).file h = if h = g then some t.opened else t.file h :=
  Function.update_apply _ _ _ _

@[simp] theorem file_close (t : Registry η) (g h : η) :
    (t.close g).file h = if h = g then none else t.file h :=
  Function.update_apply _ _ _ _

theorem after_append (t : Registry η) (ops ops' : List (Op η)) :
    t.after (ops ++ ops') = (t.after ops).after ops' := List.foldl_append

theorem grants_append {ops ops' : List (Op η)} :
    t.Grants (ops ++ ops') ↔ t.Grants ops ∧ (t.after ops).Grants ops' := by
  induction ops generalizing t with
  | nil => simp [Grants, after]
  | cons op ops ih =>
    have hcons : t.after (op :: ops) = (t.apply op).after ops := rfl
    rw [List.cons_append, Grants, Grants, ih, hcons, and_assoc]

theorem opened_after (t : Registry η) (ops : List (Op η)) : t.opened ≤ (t.after ops).opened := by
  induction ops generalizing t with
  | nil => exact le_rfl
  | cons op ops ih =>
    have hop : t.opened ≤ (t.apply op).opened := by
      cases op with
      | grant h => exact Nat.le_succ _
      | close h => exact le_rfl
    exact hop.trans (ih _)

/-- A handle that nobody is given stays as it is, or is closed. -/
theorem file_after_none (hnone : t.file h = none) (hnot : h ∉ handedOut ops) :
    (t.after ops).file h = none := by
  induction ops generalizing t with
  | nil => exact hnone
  | cons op ops ih =>
    cases op with
    | grant g =>
      rw [handedOut_grant, Multiset.mem_cons, not_or] at hnot
      refine ih ?_ hnot.2
      rw [apply, file_grant, if_neg hnot.1]
      exact hnone
    | close g =>
      refine ih ?_ hnot
      rw [apply, file_close]
      split_ifs
      · rfl
      · exact hnone

/-- What a handle stands for in the end it stood for before, or it is new. -/
theorem file_after_some (hfinal : (t.after ops).file h = some n) :
    t.file h = some n ∨ t.opened ≤ n := by
  induction ops generalizing t with
  | nil => exact Or.inl hfinal
  | cons op ops ih =>
    rcases ih hfinal with hfile | hnew
    · cases op with
      | grant g =>
        rw [apply, file_grant] at hfile
        split_ifs at hfile
        · exact Or.inr (Option.some.inj hfile).le
        · exact Or.inl hfile
      | close g =>
        rw [apply, file_close] at hfile
        split_ifs at hfile
        exact Or.inl hfile
    · exact Or.inr ((t.opened_after [op]).trans hnew)

/-- What is given out stands for something new. -/
theorem file_handedOut (hout : h ∈ handedOut ops) (hfinal : (t.after ops).file h = some n) :
    t.opened ≤ n := by
  induction ops generalizing t with
  | nil => exact absurd hout (Multiset.notMem_zero h)
  | cons op ops ih =>
    have hrest : ((t.apply op).after ops).file h = some n := hfinal
    have hle : t.opened ≤ (t.apply op).opened := t.opened_after [op]
    cases op with
    | grant g =>
      rw [handedOut_grant, Multiset.mem_cons] at hout
      rcases hout with rfl | hout
      · rcases file_after_some hrest with hfile | hnew
        · rw [apply, file_grant, if_pos rfl] at hfile
          exact (Option.some.inj hfile).le
        · exact hle.trans hnew
      · exact hle.trans (ih hout hrest)
    | close g => exact hle.trans (ih hout hrest)

/-! ### Holders -/

theorem Holds.grant (hH : t.Holds held) (hfree : t.file g = none) :
    (t.grant g).Holds (g ::ₘ held) := by
  have hnew : g ∉ held := fun hg => hH.isOpen g hg hfree
  refine ⟨Multiset.nodup_cons.mpr ⟨hnew, hH.nodup⟩, fun h hh => ?_⟩
  rw [file_grant]
  split_ifs with hhg
  · exact Option.some_ne_none _
  · exact hH.isOpen h ((Multiset.mem_cons.mp hh).resolve_left hhg)

theorem Holds.close (hH : t.Holds (g ::ₘ held)) : (t.close g).Holds held := by
  obtain ⟨hg, hnodup⟩ := Multiset.nodup_cons.mp hH.nodup
  refine ⟨hnodup, fun h hh => ?_⟩
  rw [file_close, if_neg]
  · exact hH.isOpen h (Multiset.mem_cons_of_mem hh)
  · rintro rfl
    exact hg hh

/-- A handle that is open and that `ops` do not close goes on to stand for the same. -/
theorem file_after (hgrants : t.Grants ops) (hopen : t.file h = some n) (hkept : h ∉ closed ops) :
    (t.after ops).file h = some n := by
  induction ops generalizing t with
  | nil => exact hopen
  | cons op ops ih =>
    obtain ⟨hfree, hrest⟩ := hgrants
    cases op with
    | grant g =>
      refine ih hrest ?_ hkept
      rw [apply, file_grant, if_neg]
      · exact hopen
      · rintro rfl
        rw [hfree h rfl] at hopen
        cases hopen
    | close g =>
      rw [closed_close, Multiset.mem_cons, not_or] at hkept
      refine ih hrest ?_ hkept.2
      rw [apply, file_close, if_neg hkept.1]
      exact hopen

/-- What is open and is not closed is given to nobody. -/
theorem notMem_handedOut (hgrants : t.Grants ops) (hopen : t.file h ≠ none)
    (hkept : h ∉ closed ops) : h ∉ handedOut ops := by
  induction ops generalizing t with
  | nil => exact Multiset.notMem_zero h
  | cons op ops ih =>
    obtain ⟨hfree, hrest⟩ := hgrants
    cases op with
    | grant g =>
      have hne : h ≠ g := by
        rintro rfl
        exact hopen (hfree h rfl)
      rw [handedOut_grant, Multiset.mem_cons, not_or]
      refine ⟨hne, ih hrest ?_ hkept⟩
      rw [apply, file_grant, if_neg hne]
      exact hopen
    | close g =>
      rw [closed_close, Multiset.mem_cons, not_or] at hkept
      refine ih hrest ?_ hkept.2
      rw [apply, file_close, if_neg hkept.1]
      exact hopen

/-- Who closes only what it holds, and is given only what is free, is left with the rest and
with what it was given, and has closed nothing that was not open. -/
theorem Holds.after (hH : t.Holds (closed ops + held)) (hgrants : t.Grants ops) :
    (t.after ops).Holds (handedOut ops + held) ∧ t.Closes ops := by
  induction ops generalizing t held with
  | nil => exact ⟨hH, trivial⟩
  | cons op ops ih =>
    obtain ⟨hfree, hrest⟩ := hgrants
    cases op with
    | grant g =>
      have hmore : (t.grant g).Holds (closed ops + (g ::ₘ held)) := by
        rw [Multiset.add_cons]
        exact hH.grant (hfree g rfl)
      obtain ⟨hend, hcloses⟩ := ih hmore hrest
      refine ⟨?_, ⟨fun h hh => absurd hh (by simp [Op.closed]), hcloses⟩⟩
      rw [handedOut_grant, Multiset.cons_add, ← Multiset.add_cons]
      exact hend
    | close g =>
      rw [closed_close, Multiset.cons_add] at hH
      obtain ⟨hend, hcloses⟩ := ih hH.close hrest
      refine ⟨hend, ⟨fun h hh => ?_, hcloses⟩⟩
      obtain rfl := Option.some.inj (Option.mem_def.mp hh)
      exact hH.isOpen g (Multiset.mem_cons_self g _)

/-- What is held goes on to stand for the same. -/
theorem Holds.kept (hH : t.Holds (closed ops + held)) (hgrants : t.Grants ops) (hh : h ∈ held) :
    (t.after ops).file h = t.file h := by
  obtain ⟨n, hn⟩ := Option.ne_none_iff_exists'.mp
    (hH.isOpen h (Multiset.mem_add.mpr (Or.inr hh)))
  rw [hn]
  exact file_after hgrants hn (hH.disjoint hh)

end Registry

end Handles
