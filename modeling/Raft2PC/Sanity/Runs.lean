import Raft2PC.Spec.Cluster

/-! Runs given by their list of events, for concrete executions. -/

namespace Raft2PC

/-- Uninitialised memory that happens to be zero. -/
def Undefined.zero : Undefined where
  slot _ := { term := 0, index := 0, command := [], id := 0, reqFd := 0 }
  locals := { senderId := 0, receiverId := 0, amount := 0 }

/-- A shard in which item 100 has 10 units. -/
def purse : Table ℤ := Finmap.insert 100 10 ∅

/-- A transfer within the first cluster; the service numbers it. -/
def withinShard : IntraShardReq where
  clusterId := 0
  senderId := 100
  receiverId := 200
  amount := 5
  id := 0

/-- A transfer from the first cluster to the second. -/
def acrossShards : CrossShardReq where
  phase := .prepare
  senderClusterId := 0
  receiverClusterId := 1
  senderId := 100
  receiverId := 1100
  amount := 5
  id := 0

def calmly (actions : List Action) : List Event := actions.map fun a => ⟨a, .zero⟩

namespace Cluster

def run (s : Cluster) (es : List Event) : Cluster := es.foldl step s

/-- Every event of the list is allowed when it happens. -/
def Follows (ok : Cluster → Event → Prop) : Cluster → List Event → Prop
  | _, [] => True
  | s, e :: es => ok s e ∧ Follows ok (s.step e) es

instance decidableFollows (ok : Cluster → Event → Prop) [∀ s e, Decidable (ok s e)] :
    ∀ s es, Decidable (Follows ok s es)
  | _, [] => inferInstanceAs (Decidable True)
  | s, e :: es =>
    have := decidableFollows ok (s.step e) es
    inferInstanceAs (Decidable (ok s e ∧ Follows ok (s.step e) es))

variable {ok : Cluster → Event → Prop}

theorem Path.trans {s₁ s₂ s₃ : Cluster} (h₁ : Path ok s₁ s₂) (h₂ : Path ok s₂ s₃) :
    Path ok s₁ s₃ := by
  induction h₂ with
  | refl => exact h₁
  | step e _ hok ih => exact .step e ih hok

theorem Reach.path {s s' : Cluster} (hs : Reach ok s) (hp : Path ok s s') : Reach ok s' := by
  induction hp with
  | refl => exact hs
  | step e _ hok ih => exact .step e ih hok

theorem Follows.path {s : Cluster} {es : List Event} (h : Follows ok s es) :
    Path ok s (s.run es) := by
  induction es generalizing s with
  | nil => exact .refl
  | cons e es ih =>
    obtain ⟨hok, hrest⟩ := h
    exact Path.trans (.step e .refl hok) (ih hrest)

theorem Follows.reach {cid : ℕ} {shard : Table ℤ} {es : List Event}
    (h : Follows ok (init cid shard) es) : Reach ok ((init cid shard).run es) :=
  (Reach.init cid shard).path h.path

theorem Follows.mono {ok' : Cluster → Event → Prop} {s : Cluster} {es : List Event}
    (himp : ∀ s e, ok s e → ok' s e) (h : Follows ok s es) : Follows ok' s es := by
  induction es generalizing s with
  | nil => trivial
  | cons e es ih => exact ⟨himp s e h.1, ih h.2⟩

instance : ∀ s e, Decidable (anyStep s e) := fun _ _ => inferInstanceAs (Decidable True)

end Cluster

end Raft2PC
