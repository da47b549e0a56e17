import Raft2PC.Spec.Reading
import Raft2PC.Sanity.Runs
import Raft2PC.Sanity.WireFormat

/-! Reading bytes and delivering messages are the same as long as messages are short. -/

namespace Raft2PC

open EventLoop

variable {s : Cluster} {e : Event}

theorem wellLed.leaderAppends (hok : wellLed s e = true) : leaderAppends s e = true :=
  (Bool.and_eq_true_iff.mp hok).1

/-- A message of at most 1024 bytes is read as it was sent. -/
theorem asRead_eq {m : WrapperMessage} (hfits : m.Fits)
    (hshort : (wire.serialize m).length ≤ bufferSize) : m.asRead = m := by
  rw [WrapperMessage.asRead, parsed, Nat.min_eq_left hshort, List.take_length, wire_roundtrip hfits]

/-- The message that is read consists of `int32` numbers and ASCII strings. -/
def readsFit (s : Cluster) (e : Event) : Prop :=
  match e.action with
  | .deliver k _ => ∀ c ∈ s.net[k]?, c.msg.Fits
  | _ => True

theorem stepRead_eq (hfits : readsFit s e) (hwhole : readsWhole s e = true) :
    s.stepRead e = s.step e := by
  obtain ⟨action, u⟩ := e
  cases action with
  | timeout p | request p fd m | lose k => rfl
  | deliver k fd =>
    simp only [readsFit] at hfits
    simp only [readsWhole] at hwhole
    simp only [Cluster.stepRead, Cluster.step]
    cases hk : s.net[k]? with
    | none => rfl
    | some c =>
      have hshort : (wire.serialize c.msg).length ≤ bufferSize := by simpa [hk] using hwhole
      simp only [asRead_eq (hfits c hk) hshort]

/-- Runs on bytes are runs on messages while every message is read whole. -/
theorem runRead_eq {es : List Event}
    (hok : Cluster.Follows (fun s e => readsFit s e ∧ readsWhole s e = true) s es) :
    s.runRead es = s.run es := by
  induction es generalizing s with
  | nil => rfl
  | cons e es ih =>
    obtain ⟨⟨hfits, hwhole⟩, hrest⟩ := hok
    have hstep := stepRead_eq hfits hwhole
    calc s.runRead (e :: es) = (s.stepRead e).runRead es := rfl
      _ = (s.step e).run es := by rw [hstep, ih hrest]
      _ = s.run (e :: es) := rfl

/-- What holds in all states that runs on messages reach holds in those that runs on bytes do. -/
theorem reach_runRead {ok : Cluster → Event → Prop} {cid : ℕ} {shard : Table ℤ} {es : List Event}
    (hwhole : ∀ s e, ok s e → readsWhole s e = true)
    (hok : Cluster.Follows (fun s e => readsFit s e ∧ ok s e) (Cluster.init cid shard) es) :
    Cluster.Reach ok ((Cluster.init cid shard).runRead es) := by
  rw [runRead_eq (hok.mono fun s e h => ⟨h.1, hwhole s e h.2⟩)]
  exact Cluster.Follows.reach (hok.mono fun _ _ h => h.2)

end Raft2PC
