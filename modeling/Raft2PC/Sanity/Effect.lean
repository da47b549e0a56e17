import Raft2PC.Sanity.Waiting

/-! What a committed log does to the balances: every intra-shard entry once, wherever the
commit loops began and ended. -/

namespace Raft2PC

/-- The commands that the handlers write. -/
inductive HandlerMade : Text → Prop
  | intra (req : IntraShardReq) :
      HandlerMade (fmtPays req.senderId req.receiverId req.amount)
  | prepare (req : CrossShardReq) : HandlerMade (CrossShardExecutor.prepareCommand req)
  | commit (req : CrossShardReq) : HandlerMade (CrossShardExecutor.commitCommand req)
  | abort (req : CrossShardReq) : HandlerMade (CrossShardExecutor.abortCommand req)

/-- A transfer reads back as itself. -/
def ReadsBack (c : Text) : Prop := isTransfer c = true → ∀ u, sscanf u (formatOf c) c = terms c

theorem HandlerMade.readsBack {c : Text} (h : HandlerMade c) : ReadsBack c := by
  cases h with
  | intra req =>
    intro _ u
    rw [terms_pays, formatOf_pays, sscanf_pays]
  | prepare req =>
    intro _ u
    rw [terms_prepare]
    exact sscanf_prepare u _ _ _
  | commit req | abort req => exact fun htr => absurd htr Bool.false_ne_true

/-- What an entry does to the items when it is applied. -/
def effect (x : Entry) (k : ℤ) : ℤ := if isCross x.command then 0 else (terms x.command).delta k

theorem effect_eq {u : Undefined} {log : List LogEntry} {i : ℕ} (k : ℤ) (hi : i < log.length)
    (hread : ReadsBack log[i].command) :
    effect log[i].entry k = if isIntra u log i then (transferAt u log i).delta k else 0 := by
  have hcmd : log[i].entry.command = log[i].command := rfl
  rw [effect, isIntra, transferAt, readLog_of_lt hi, hcmd]
  cases hcross : isCross log[i].command with
  | true => rfl
  | false =>
    have hpays := hread (isTransfer_of_not_isCross hcross) u.locals
    rw [formatOf, hcross] at hpays
    exact congrArg (Transfer.delta · k) hpays.symm

/-- What the entries of a log do to item `k`. -/
def netEffect (L : List Entry) (k : ℤ) : ℤ := (L.map fun x => effect x k).sum

theorem netEffect_concat (L : List Entry) (x : Entry) (k : ℤ) :
    netEffect (L ++ [x]) k = netEffect L k + effect x k := by
  rw [netEffect, List.map_append, List.sum_append, List.map_singleton, List.sum_singleton,
    netEffect]

/-- The commands from `ci` to `hi` pay what the entries between do. -/
theorem netEffect_paid {u : Undefined} {rs : RaftState} {ci hi : ℤ} (k : ℤ)
    (hread : ∀ i : ℕ, ∀ x, (i : ℤ) ≤ hi → rs.log[i]? = some x → ReadsBack x.command)
    (hlow : -1 ≤ ci) (hle : ci ≤ hi) (hlen : hi + 1 ≤ rs.log.length) :
    netEffect ((entries rs).take (hi + 1).toNat) k =
      netEffect ((entries rs).take (ci + 1).toNat) k +
        paid u rs.log k (indices (ci + 1) hi) := by
  obtain ⟨n, hn⟩ := Int.eq_ofNat_of_zero_le (show 0 ≤ hi - ci by omega)
  induction n generalizing ci with
  | zero =>
    obtain rfl : hi = ci := by omega
    rw [indices_eq_nil (by omega), paid_nil, add_zero]
  | succ n ih =>
    push_cast at hn
    have hrest := @ih (ci + 1) (by omega) (by omega) (by omega)
    obtain ⟨i, hi'⟩ := Int.eq_ofNat_of_zero_le (show 0 ≤ ci + 1 by omega)
    have hlt : i < rs.log.length := by omega
    have hhere := effect_eq (u := u) k hlt
      (hread i rs.log[i] (by omega) (List.getElem?_eq_getElem hlt))
    have hnext : (entries rs).take (ci + 1 + 1).toNat =
        (entries rs).take (ci + 1).toNat ++ [rs.log[i].entry] := by
      rw [show (ci + 1 + 1).toNat = i + 1 by omega, show (ci + 1).toNat = i by omega,
        List.take_add_one, entries_getElem?, List.getElem?_eq_getElem hlt]
      rfl
    have hcons : indices (ci + 1) hi = (ci + 1) :: indices (ci + 1 + 1) hi :=
      indices_cons (by omega)
    rw [hrest, hnext, netEffect_concat, hcons, paid_cons, add_assoc, hi', hhere]

end Raft2PC
