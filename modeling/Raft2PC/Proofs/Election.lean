import Raft2PC.Sanity.Frame
import Raft2PC.Sanity.Runs

/-! Election safety: `vote_granted_num_` counts distinct voters although a response does
not name one, since every connection of a campaign has its own voter and is answered at
most once. -/

namespace Raft2PC

open AIOServer Consensus

def serverId (cid : ℕ) (p : Idx) : ℤ := cid * SERVER_NUM_PER_CLUSTER + p

theorem serverId_nonneg (cid : ℕ) (p : Idx) : 0 ≤ serverId cid p := by
  unfold serverId; simp only [SERVER_NUM_PER_CLUSTER]; omega

theorem serverId_mod (cid : ℕ) (p : Idx) :
    serverId cid p % SERVER_NUM_PER_CLUSTER = ((p : ℕ) : ℤ) := by
  have hp : (p : ℕ) < SERVER_NUM_PER_CLUSTER := p.isLt
  unfold serverId
  simp only [SERVER_NUM_PER_CLUSTER] at hp ⊢
  omega

/-- The candidate, the voter and the term a vote connection is about. -/
def voteKey (c : Connection) : Option (Idx × Idx × ℤ) :=
  match c.call with
  | .voteReq req | .voteRsp req _ => some (c.src, c.dst, req.term)
  | _ => none

/-- The candidate of `req` voted for itself before it asked. -/
structure Asked (cid : ℕ) (h : Hist) (c : Connection) (req : RequestVoteReq) : Prop where
  ne : c.src ≠ c.dst
  candidate : req.candidateId = serverId cid c.src
  vote : h.vote c.src req.term = some c.src

/-- What a vote connection tells about the ballots. -/
def VoteOk (cid : ℕ) (h : Hist) (c : Connection) : Prop :=
  match c.call with
  | .voteReq req => Asked cid h c req
  | .voteRsp req rsp => Asked cid h c req ∧
      (rsp.voteGranted = true → rsp.term = req.term ∧ h.vote c.dst req.term = some c.src)
  | _ => True

/-- What the state of server `p` tells about the ballots. -/
structure VoterOk (cid : ℕ) (h : Hist) (N : List Connection) (p : Idx) (rs : RaftState) :
    Prop where
  id : rs.serverId = serverId cid p
  term : h.term p = rs.currentTerm
  nonneg : 0 ≤ rs.currentTerm
  voted : ∀ c, h.vote p rs.currentTerm = some c → rs.votedFor = serverId cid c
  stood : rs.role ≠ .follower → h.vote p rs.currentTerm = some p
  open_ : rs.role = .candidate → h.leader rs.currentTerm ≠ some p
  leads : rs.role = .leader → h.leader rs.currentTerm = some p
  /-- the counted voters are distinct, and their responses are gone -/
  count : rs.role = .candidate → ∃ C : Finset Idx, p ∈ C ∧ (C.card : ℤ) = rs.voteGrantedNum ∧
    ∀ v ∈ C, h.vote v rs.currentTerm = some p ∧
      (v ≠ p → (p, v, rs.currentTerm) ∉ N.filterMap voteKey)

structure Voting (cid : ℕ) (R : Idx → RaftState) (N : List Connection) (h : Hist) : Prop where
  ballots : h.toBallots.Valid
  backed : ∀ v T c, h.vote v T = some c → h.vote c T = some c
  positive : ∀ v T c, h.vote v T = some c → 0 < T
  voter : ∀ p, VoterOk cid h N p (R p)
  vote : ∀ c ∈ N, VoteOk cid h c
  once : (N.filterMap voteKey).Nodup

theorem Voting.own_vote {cid : ℕ} {R : Idx → RaftState} {N : List Connection} {h : Hist}
    (hv : Voting cid R N h) (T : ℤ) (c : Idx) (hc : h.leader T = some c) :
    h.vote c T = some c := by
  obtain ⟨Q, hQ, hvote⟩ := hv.ballots.elected T c hc
  obtain ⟨v, hvQ, -⟩ := hQ.meet hQ
  exact hv.backed v T c (hvote v hvQ)

/-! ### Framing -/

theorem VoteOk.extends {cid : ℕ} {h h' : Hist} {c : Connection} (hc : VoteOk cid h c)
    (hx : ∀ v T d, h.vote v T = some d → h'.vote v T = some d) : VoteOk cid h' c := by
  obtain ⟨src, dst, call⟩ := c
  cases call with
  | voteReq req => exact ⟨hc.ne, hc.candidate, hx _ _ _ hc.vote⟩
  | voteRsp req rsp =>
    obtain ⟨hask, hyes⟩ := hc
    exact ⟨⟨hask.ne, hask.candidate, hx _ _ _ hask.vote⟩,
      fun hg => ⟨(hyes hg).1, hx _ _ _ (hyes hg).2⟩⟩
  | appendReq req => trivial
  | appendRsp req rsp => trivial

/-- Server `p` is not touched by what others add to the ballots. -/
theorem VoterOk.frame {cid : ℕ} {h h' : Hist} {N N' : List Connection} {p : Idx} {rs : RaftState}
    (hp : VoterOk cid h N p rs) (hterm : h'.term p = h.term p) (hown : h'.vote p = h.vote p)
    (hx : ∀ v T c, h.vote v T = some c → h'.vote v T = some c)
    (hlead : ∀ T, h'.leader T = some p ↔ h.leader T = some p)
    (hkeys : ∀ v T, (p, v, T) ∈ N'.filterMap voteKey → (p, v, T) ∈ N.filterMap voteKey) :
    VoterOk cid h' N' p rs where
  id := hp.id
  term := hterm.trans hp.term
  nonneg := hp.nonneg
  voted c hc := hp.voted c (by rwa [hown] at hc)
  stood hr := by rw [hown]; exact hp.stood hr
  open_ hr hl := hp.open_ hr ((hlead _).mp hl)
  leads hr := (hlead _).mpr (hp.leads hr)
  count hr := by
    obtain ⟨C, hmem, hcard, hC⟩ := hp.count hr
    exact ⟨C, hmem, hcard, fun v hv => ⟨hx _ _ _ (hC v hv).1,
      fun hne hin => (hC v hv).2 hne (hkeys _ _ hin)⟩⟩

theorem VoterOk.congr {cid : ℕ} {h : Hist} {N : List Connection} {p : Idx} {a b : RaftState}
    (hp : VoterOk cid h N p a) (hid : b.serverId = a.serverId)
    (hterm : b.currentTerm = a.currentTerm) (hvoted : b.votedFor = a.votedFor)
    (hrole : b.role = a.role) (hnum : b.voteGrantedNum = a.voteGrantedNum) :
    VoterOk cid h N p b where
  id := hid.trans hp.id
  term := hp.term.trans hterm.symm
  nonneg := by rw [hterm]; exact hp.nonneg
  voted := by rw [hterm, hvoted]; exact hp.voted
  stood := by rw [hterm, hrole]; exact hp.stood
  open_ := by rw [hterm, hrole]; exact hp.open_
  leads := by rw [hterm, hrole]; exact hp.leads
  count := by rw [hterm, hrole, hnum]; exact hp.count

theorem VoterOk.fewer {cid : ℕ} {h : Hist} {N N' : List Connection} {p : Idx} {rs : RaftState}
    (hp : VoterOk cid h N p rs)
    (hkeys : ∀ k ∈ N'.filterMap voteKey, k ∈ N.filterMap voteKey) : VoterOk cid h N' p rs :=
  hp.frame rfl rfl (fun _ _ _ hv => hv) (fun _ => Iff.rfl) fun _ _ hin => hkeys _ hin

variable {cid : ℕ} {R : Idx → RaftState} {N : List Connection} {h : Hist}

/-- Connections disappear and append messages come: the votes under way get fewer. -/
theorem Voting.fewer (hv : Voting cid R N h) {M X : List Connection} (hM : M.Sublist N)
    (hX : ∀ c ∈ X, voteKey c = none) : Voting cid R (M ++ X) h := by
  have hnone : X.filterMap voteKey = [] := List.filterMap_eq_nil_iff.mpr hX
  have hkeys : (M ++ X).filterMap voteKey = M.filterMap voteKey := by
    rw [List.filterMap_append, hnone, List.append_nil]
  refine { hv with voter := fun p => (hv.voter p).fewer ?_, vote := ?_, once := ?_ }
  · rw [hkeys]
    exact (hM.filterMap voteKey).subset
  · intro c hc
    rcases List.mem_append.mp hc with hc | hc
    · exact hv.vote c (hM.subset hc)
    · obtain ⟨src, dst, call⟩ := c
      have := hX _ hc
      cases call with
      | voteReq req => simp [voteKey] at this
      | voteRsp req rsp => simp [voteKey] at this
      | appendReq req => trivial
      | appendRsp req rsp => trivial
  · rw [hkeys]
    exact hv.once.sublist (hM.filterMap voteKey)

theorem Voting.answer (hv : Voting cid R N h) {k : ℕ} {c c' : Connection} (hk : N[k]? = some c)
    (hkey : voteKey c' = voteKey c) (hok : VoteOk cid h c') :
    Voting cid R (N.eraseIdx k ++ [c']) h := by
  have hperm : ((N.eraseIdx k ++ [c']).filterMap voteKey).Perm (N.filterMap voteKey) := by
    obtain ⟨hlt, rfl⟩ := List.getElem?_eq_some_iff.mp hk
    have h₁ : ((N.eraseIdx k ++ [c']).filterMap voteKey).Perm
        ((N[k] :: N.eraseIdx k).filterMap voteKey) := by
      rw [List.filterMap_append, List.filterMap_cons, List.filterMap_cons, ← hkey]
      cases voteKey c' with
      | none => simp
      | some key => exact List.perm_append_singleton _ _
    exact h₁.trans ((List.getElem_cons_eraseIdx_perm hlt).filterMap voteKey)
  refine { hv with voter := fun p => (hv.voter p).fewer ?_, vote := ?_, once := ?_ }
  · exact fun key hin => hperm.mem_iff.mp hin
  · intro d hd
    rcases List.mem_append.mp hd with hd | hd
    · exact hv.vote d ((List.eraseIdx_sublist N k).subset hd)
    · rw [List.mem_singleton.mp hd]; exact hok
  · exact hperm.nodup_iff.mpr hv.once

theorem Voting.congr {s : Cluster} (hv : Voting cid s.raft N h) {p : Idx} {rs : RaftState}
    (hid : rs.serverId = (s.raft p).serverId)
    (hterm : rs.currentTerm = (s.raft p).currentTerm)
    (hvoted : rs.votedFor = (s.raft p).votedFor) (hrole : rs.role = (s.raft p).role)
    (hnum : rs.voteGrantedNum = (s.raft p).voteGrantedNum) : Voting cid (s.set p rs) N h := by
  refine { hv with voter := fun q => ?_ }
  by_cases hq : q = p
  · subst hq
    simpa [Cluster.set] using (hv.voter q).congr hid hterm hvoted hrole hnum
  · simpa [Cluster.set, hq] using hv.voter q

/-- A server moves to a term not behind its own, as a follower that has not voted in it
unless it was there already. -/
theorem Voting.observe {s : Cluster} (hv : Voting cid s.raft N h) (p : Idx) (rs : RaftState)
    (hid : rs.serverId = (s.raft p).serverId)
    (hterm : (s.raft p).currentTerm ≤ rs.currentTerm)
    (hvoted : rs.votedFor = (s.raft p).votedFor) (hrole : rs.role = .follower) {h' : Hist}
    (hh : h'.toBallots = h.toBallots.advance p rs.currentTerm) :
    Voting cid (s.set p rs) N h' := by
  have hp := hv.voter p
  have hT : h.term p ≤ rs.currentTerm := by rw [hp.term]; exact hterm
  have hvote : h'.vote = h.vote := by rw [hh]; rfl
  have hlead : h'.leader = h.leader := by rw [hh]; rfl
  have hh' : h'.term = Function.update h.term p rs.currentTerm := by rw [hh]; rfl
  refine
    { ballots := by rw [hh]; exact hv.ballots.advance hT
      backed := by rw [hvote]; exact hv.backed
      positive := by rw [hvote]; exact hv.positive
      voter := fun q => ?_
      vote := fun c hc => (hv.vote c hc).extends (by rw [hvote]; exact fun _ _ _ hd => hd)
      once := hv.once }
  by_cases hq : q = p
  · subst hq
    have hself : s.set q rs q = rs := by simp [Cluster.set]
    rw [hself]
    refine
      { id := hid.trans hp.id
        term := by rw [hh']; simp
        nonneg := hp.nonneg.trans hterm
        voted := ?_
        stood := by simp [hrole]
        open_ := by simp [hrole]
        leads := by simp [hrole]
        count := by simp [hrole] }
    intro c hc
    rw [hvote] at hc
    have hle := hv.ballots.vote_le _ _ _ hc
    rw [hp.term] at hle
    rw [hvoted]
    apply hp.voted
    rwa [le_antisymm hterm hle]
  · have hother : s.set p rs q = s.raft q := by simp [Cluster.set, hq]
    rw [hother]
    exact (hv.voter q).frame (by rw [hh']; simp [hq]) (by rw [hvote])
      (by rw [hvote]; exact fun _ _ _ hd => hd) (by rw [hlead]; exact fun _ => Iff.rfl)
      fun _ _ hin => hin

/-! ### Elections -/

theorem mem_others {rs : RaftState} {p : Idx} (hid : rs.serverId = serverId cid p) (q : Idx) :
    q ∈ others rs ↔ q ≠ p := by
  simp only [others, List.mem_filter, List.mem_finRange, true_and, decide_eq_true_eq, hid,
    serverId_mod]
  rw [Ne, Ne, Fin.ext_iff]
  omega

theorem others_nodup (rs : RaftState) : (others rs).Nodup := (List.nodup_finRange _).filter _

theorem Voting.own_key {R : Idx → RaftState} {src dst : Idx} {T : ℤ} (hv : Voting cid R N h)
    (hk : (src, dst, T) ∈ N.filterMap voteKey) : h.vote src T = some src := by
  obtain ⟨⟨src', dst', call⟩, hc, hck⟩ := List.mem_filterMap.mp hk
  have hok := hv.vote _ hc
  cases call with
  | voteReq req =>
    cases hck
    exact hok.vote
  | voteRsp req rsp =>
    cases hck
    exact hok.1.vote
  | appendReq req => cases hck
  | appendRsp req rsp => cases hck

theorem campaign_key {rs : RaftState} {p : Idx} {k : Idx × Idx × ℤ}
    (hk : k ∈ (campaign rs p).filterMap voteKey) : ∃ q, k = (p, q, rs.currentTerm) := by
  obtain ⟨c, hc, hck⟩ := List.mem_filterMap.mp hk
  obtain ⟨q, -, rfl⟩ := List.mem_map.mp hc
  exact ⟨q, (Option.some.inj hck).symm⟩

theorem campaign_nodup (rs : RaftState) (p : Idx) :
    ((campaign rs p).filterMap voteKey).Nodup := by
  simp only [campaign, List.filterMap_map]
  refine List.Nodup.filterMap ?_ (others_nodup rs)
  intro q q' k hk hk'
  simp only [Function.comp, voteKey, Option.mem_def, Option.some.injEq] at hk hk'
  exact congrArg (fun k => k.2.1) (hk.trans hk'.symm)

/-- A candidate has its own vote and no other. -/
theorem VoterOk.campaigned {rs : RaftState} {h' : Hist} {p : Idx} {N' : List Connection} (b : Bool)
    (hp : VoterOk cid h N p rs) (hterm : h'.term p = rs.currentTerm + 1)
    (hown : h'.vote p (rs.currentTerm + 1) = some p)
    (hlead : h'.leader (rs.currentTerm + 1) ≠ some p) :
    VoterOk cid h' N' p { (broadcastVote rs).1 with heardHeartBeat := b } where
  id := hp.id
  term := hterm
  nonneg := by
    have hnonneg := hp.nonneg
    simp only [broadcastVote]
    omega
  voted c hc := by
    obtain rfl : p = c := Option.some.inj (hown.symm.trans hc)
    exact hp.id
  stood _ := hown
  open_ _ := hlead
  leads hr := by cases hr
  count _ := by
    refine ⟨{p}, Finset.mem_singleton_self p, by simp [broadcastVote], fun v hmem => ?_⟩
    rw [Finset.mem_singleton.mp hmem]
    exact ⟨hown, fun hne => absurd rfl hne⟩

theorem Voting.campaign {s : Cluster} (hv : Voting cid s.raft N h) (p : Idx) (b : Bool) :
    Voting cid (s.set p { (broadcastVote (s.raft p)).1 with heardHeartBeat := b })
      (N ++ Raft2PC.campaign (broadcastVote (s.raft p)).1 p)
      (h.cast p ((s.raft p).currentTerm + 1) p) := by
  have hp := hv.voter p
  set T := (s.raft p).currentTerm + 1 with hTdef
  have hT : h.term p ≤ T := by rw [hp.term]; omega
  have hfree : h.vote p T = none := hv.ballots.free_above (by rw [hp.term]; omega)
  have hvote : ∀ v U, (h.cast p T p).vote v U = if v = p ∧ U = T then some p else h.vote v U :=
    fun v U => Ballots.cast_vote h.toBallots p v p T U
  have hown : (h.cast p T p).vote p T = some p := by rw [hvote]; simp
  have hx : ∀ v U c, h.vote v U = some c → (h.cast p T p).vote v U = some c :=
    (Ballots.extends_cast hT hfree).vote
  refine
    { ballots := hv.ballots.cast hT hfree
      backed := ?_
      positive := ?_
      voter := fun q => ?_
      vote := ?_
      once := ?_ }
  · intro v U c hc
    rw [hvote] at hc
    split_ifs at hc with hU
    · rw [← Option.some.inj hc, hU.2, hown]
    · exact hx _ _ _ (hv.backed v U c hc)
  · intro v U c hc
    rw [hvote] at hc
    split_ifs at hc with hU
    · have := hp.nonneg
      omega
    · exact hv.positive v U c hc
  · by_cases hq : q = p
    · subst hq
      have hself : s.set q { (broadcastVote (s.raft q)).1 with heardHeartBeat := b } q =
        { (broadcastVote (s.raft q)).1 with heardHeartBeat := b } := by simp [Cluster.set]
      rw [hself]
      refine hp.campaigned b (by simp [History.cast, Ballots.cast, T]) hown fun hl => ?_
      have hled := hv.own_vote T q hl
      simp [hfree] at hled
    · have hother : s.set p { (broadcastVote (s.raft p)).1 with heardHeartBeat := b } q =
        s.raft q := by simp [Cluster.set, hq]
      rw [hother]
      refine (hv.voter q).frame ?_ ?_ hx (fun _ => Iff.rfl) fun v U hin => ?_
      · simp [History.cast, Ballots.cast, hq]
      · funext U; rw [hvote]; simp [hq]
      · rw [List.filterMap_append, List.mem_append] at hin
        rcases hin with hin | hin
        · exact hin
        · obtain ⟨w, hw⟩ := campaign_key hin
          exact absurd (congrArg Prod.fst hw) hq
  · intro c hc
    rcases List.mem_append.mp hc with hc | hc
    · exact (hv.vote c hc).extends hx
    · obtain ⟨q, hq, rfl⟩ := List.mem_map.mp hc
      exact ⟨((mem_others hp.id q).mp hq).symm, hp.id, hown⟩
  · rw [List.filterMap_append]
    refine List.nodup_append.mpr ⟨hv.once, campaign_nodup _ p, ?_⟩
    rintro k hk k' hk' rfl
    obtain ⟨q, rfl⟩ := campaign_key hk'
    have hasked := hv.own_key hk
    rw [show (broadcastVote (s.raft p)).1.currentTerm = T from rfl, hfree] at hasked
    cases hasked

theorem VoterOk.free {p : Idx} {rs : RaftState} {req : RequestVoteReq} (hp : VoterOk cid h N p rs)
    (hb : h.toBallots.Valid) (hg : grants rs req = true) : h.vote p req.term = none := by
  cases hcase : h.vote p req.term with
  | none => rfl
  | some c =>
    have hle := hb.vote_le p req.term c hcase
    rw [hp.term] at hle
    rcases grants_iff hg with hlt | ⟨heq, hno, -⟩
    · omega
    · rw [heq] at hcase
      have := hp.voted c hcase
      have := serverId_nonneg cid c
      omega

theorem Voting.granted {s : Cluster} (hv : Voting cid s.raft N h) {k : ℕ} {src dst : Idx}
    {req : RequestVoteReq} (hk : N[k]? = some ⟨src, dst, .voteReq req⟩)
    (hyes : grants (s.raft dst) req = true) :
    Voting cid (s.set dst (granted (s.raft dst) req)) (N.eraseIdx k ++
      [⟨src, dst, .voteRsp req { term := req.term, voteGranted := true }⟩])
      (h.cast dst req.term src) := by
  have hp := hv.voter dst
  have hask : Asked cid h ⟨src, dst, .voteReq req⟩ req := hv.vote _ (List.mem_of_getElem? hk)
  have hfree := hp.free hv.ballots hyes
  have hge : (s.raft dst).currentTerm ≤ req.term := by
    rcases grants_iff hyes with hlt | ⟨heq, -⟩ <;> omega
  have hT : h.term dst ≤ req.term := by rw [hp.term]; exact hge
  have hvote : ∀ v U, (h.cast dst req.term src).vote v U =
      if v = dst ∧ U = req.term then some src else h.vote v U :=
    fun v U => Ballots.cast_vote h.toBallots dst v src req.term U
  have hx : ∀ v U c, h.vote v U = some c → (h.cast dst req.term src).vote v U = some c :=
    (Ballots.extends_cast hT hfree).vote
  have hown : (h.cast dst req.term src).vote dst req.term = some src := by rw [hvote]; simp
  have hmid : Voting cid (s.set dst (Raft2PC.granted (s.raft dst) req)) N
      (h.cast dst req.term src) := by
    refine
      { ballots := hv.ballots.cast hT hfree
        backed := ?_
        positive := ?_
        voter := fun q => ?_
        vote := fun c hc => (hv.vote c hc).extends hx
        once := hv.once }
    · intro v U c hc
      rw [hvote] at hc
      split_ifs at hc with hU
      · rw [← Option.some.inj hc, hU.2]; exact hx _ _ _ hask.vote
      · exact hx _ _ _ (hv.backed v U c hc)
    · intro v U c hc
      rw [hvote] at hc
      split_ifs at hc with hU
      · rw [hU.2]; exact hv.positive _ _ _ hask.vote
      · exact hv.positive v U c hc
    · by_cases hq : q = dst
      · subst hq
        have hself : s.set q (Raft2PC.granted (s.raft q) req) q =
          Raft2PC.granted (s.raft q) req := by simp [Cluster.set]
        rw [hself]
        exact
          { id := hp.id
            term := by simp [History.cast, Ballots.cast, Raft2PC.granted]
            nonneg := hp.nonneg.trans hge
            voted := by
              intro c hc
              have hcs : src = c := Option.some.inj (hown.symm.trans hc)
              subst hcs
              exact hask.candidate
            stood := fun hr => absurd rfl hr
            open_ := fun hr => by simp [Raft2PC.granted] at hr
            leads := fun hr => by simp [Raft2PC.granted] at hr
            count := fun hr => by simp [Raft2PC.granted] at hr }
      · have hother : s.set dst (Raft2PC.granted (s.raft dst) req) q = s.raft q := by
          simp [Cluster.set, hq]
        rw [hother]
        refine (hv.voter q).frame ?_ ?_ hx (fun _ => Iff.rfl) fun _ _ hin => hin
        · simp [History.cast, Ballots.cast, hq]
        · funext U; rw [hvote]; simp [hq]
  exact hmid.answer hk rfl ⟨⟨hask.ne, hask.candidate, hx _ _ _ hask.vote⟩, fun _ => ⟨rfl, hown⟩⟩

/-- A vote that counts comes from a voter not counted yet. -/
theorem Voting.recount {s : Cluster} (hv : Voting cid s.raft N h) {k : ℕ} {src dst : Idx}
    {req : RequestVoteReq} {rsp : RequestVoteRsp}
    (hk : N[k]? = some ⟨src, dst, .voteRsp req rsp⟩) (hc : counts (s.raft src) rsp) :
    ∃ C : Finset Idx, src ∈ C ∧ (C.card : ℤ) = (s.raft src).voteGrantedNum + 1 ∧
      ∀ v ∈ C, h.vote v (s.raft src).currentTerm = some src ∧
        (v ≠ src → (src, v, (s.raft src).currentTerm) ∉ (N.eraseIdx k).filterMap voteKey) := by
  obtain ⟨hrole, hterm, hyes⟩ := hc
  obtain ⟨hask, hgr⟩ : Asked cid h _ req ∧ _ := hv.vote _ (List.mem_of_getElem? hk)
  obtain ⟨hreq, hvote⟩ := hgr hyes
  rw [← hreq, hterm] at hvote
  obtain ⟨C, hmem, hcard, hC⟩ := (hv.voter src).count hrole
  have hkey : voteKey ⟨src, dst, .voteRsp req rsp⟩ =
      some (src, dst, (s.raft src).currentTerm) := by simp [voteKey, ← hreq, hterm]
  have hin : (src, dst, (s.raft src).currentTerm) ∈ N.filterMap voteKey :=
    List.mem_filterMap.mpr ⟨_, List.mem_of_getElem? hk, hkey⟩
  have hdst : dst ∉ C := fun hd => (hC dst hd).2 hask.ne.symm hin
  have hgone : (src, dst, (s.raft src).currentTerm) ∉ (N.eraseIdx k).filterMap voteKey := by
    obtain ⟨hlt, hget⟩ := List.getElem?_eq_some_iff.mp hk
    have hperm := (List.getElem_cons_eraseIdx_perm hlt).filterMap voteKey
    rw [hget, List.filterMap_cons_some hkey] at hperm
    exact (List.nodup_cons.mp (hperm.nodup_iff.mpr hv.once)).1
  have hsub := ((List.eraseIdx_sublist N k).filterMap voteKey).subset
  refine ⟨insert dst C, Finset.mem_insert_of_mem hmem, ?_, fun v hmemv => ?_⟩
  · rw [Finset.card_insert_of_notMem hdst]
    push_cast
    rw [hcard]
  · rcases Finset.mem_insert.mp hmemv with rfl | hmemv
    · exact ⟨hvote, fun _ => hgone⟩
    · exact ⟨(hC v hmemv).1, fun hne hin' => (hC v hmemv).2 hne (hsub hin')⟩

theorem Voting.counted {s : Cluster} (hv : Voting cid s.raft N h) {k : ℕ} {src dst : Idx}
    {req : RequestVoteReq} {rsp : RequestVoteRsp}
    (hk : N[k]? = some ⟨src, dst, .voteRsp req rsp⟩) (hc : counts (s.raft src) rsp) :
    Voting cid (s.set src { s.raft src with
      voteGrantedNum := (s.raft src).voteGrantedNum + 1 }) (N.eraseIdx k) h := by
  have hless := hv.fewer (List.eraseIdx_sublist N k) (X := []) (by simp)
  rw [List.append_nil] at hless
  refine { hless with voter := fun q => ?_ }
  by_cases hq : q = src
  · subst hq
    rw [show s.set q { s.raft q with voteGrantedNum := (s.raft q).voteGrantedNum + 1 } q =
      { s.raft q with voteGrantedNum := (s.raft q).voteGrantedNum + 1 } by simp [Cluster.set]]
    have hp := hless.voter q
    exact
      { id := hp.id
        term := hp.term
        nonneg := hp.nonneg
        voted := hp.voted
        stood := hp.stood
        open_ := hp.open_
        leads := hp.leads
        count := fun _ => hv.recount hk hc }
  · simpa [Cluster.set, hq] using hless.voter q

theorem quorum_iff (Q : Finset Idx) : Quorum Q ↔ 2 ≤ Q.card := by
  unfold Quorum
  rw [Fintype.card_fin, SERVER_NUM_PER_CLUSTER]
  omega

/-- The winner has a quorum of votes, its own among them, and is the first leader of its
term. -/
theorem Voting.winner {s : Cluster} (hv : Voting cid s.raft N h) {k : ℕ} {src dst : Idx}
    {req : RequestVoteReq} {rsp : RequestVoteRsp}
    (hk : N[k]? = some ⟨src, dst, .voteRsp req rsp⟩) (hc : counts (s.raft src) rsp)
    (hmaj : 2 ≤ (s.raft src).voteGrantedNum + 1) :
    (∃ Q, Quorum Q ∧ ∀ v ∈ Q, h.vote v (s.raft src).currentTerm = some src) ∧
      h.vote src (s.raft src).currentTerm = some src ∧
      h.leader (s.raft src).currentTerm = none := by
  obtain ⟨C, hmem, hcard, hC⟩ := hv.recount hk hc
  have hQ : Quorum C := by rw [quorum_iff]; omega
  refine ⟨⟨C, hQ, fun v hvC => (hC v hvC).1⟩, (hC src hmem).1, ?_⟩
  cases hl : h.leader (s.raft src).currentTerm with
  | none => rfl
  | some d =>
    have hd := hv.ballots.leader_unique hQ (fun v hvC => (hC v hvC).1) hl
    subst hd
    exact absurd hl ((hv.voter src).open_ hc.1)

theorem Voting.elected {s : Cluster} (hv : Voting cid s.raft N h) {k : ℕ} {src dst : Idx}
    {req : RequestVoteReq} {rsp : RequestVoteRsp} (u : Undefined)
    (hk : N[k]? = some ⟨src, dst, .voteRsp req rsp⟩) (hc : counts (s.raft src) rsp)
    (hmaj : 2 ≤ (s.raft src).voteGrantedNum + 1) :
    Voting cid (s.set src (broadcastHeartBeat u (won (s.raft src))).1)
      (N.eraseIdx k ++ beats u (broadcastHeartBeat u (won (s.raft src))).1 src)
      (h.elect src (s.raft src).currentTerm) := by
  obtain ⟨⟨Q, hQ, hvote⟩, hself, hnone⟩ := hv.winner hk hc hmaj
  have hp := hv.voter src
  have hlead : ∀ U, (h.elect src (s.raft src).currentTerm).leader U =
      if U = (s.raft src).currentTerm then some src else h.leader U := by
    intro U; simp [History.elect, Ballots.elect, Function.update_apply]
  have hmid : Voting cid (s.set src (broadcastHeartBeat u (won (s.raft src))).1) N
      (h.elect src (s.raft src).currentTerm) := by
    refine
      { ballots := hv.ballots.elect hQ hvote
        backed := hv.backed
        positive := hv.positive
        voter := fun q => ?_
        vote := fun c hcin => (hv.vote c hcin).extends fun _ _ _ hd => hd
        once := hv.once }
    · by_cases hq : q = src
      · subst hq
        rw [show s.set q (broadcastHeartBeat u (won (s.raft q))).1 q =
          (broadcastHeartBeat u (won (s.raft q))).1 by simp [Cluster.set]]
        exact
          { id := hp.id
            term := hp.term
            nonneg := hp.nonneg
            voted := hp.voted
            stood := fun _ => hself
            open_ := fun hr => by simp [broadcastHeartBeat, won] at hr
            leads := fun _ => by rw [hlead]; simp [broadcastHeartBeat, won]
            count := fun hr => by simp [broadcastHeartBeat, won] at hr }
      · rw [show s.set src (broadcastHeartBeat u (won (s.raft src))).1 q = s.raft q by
          simp [Cluster.set, hq]]
        refine (hv.voter q).frame rfl rfl (fun _ _ _ hd => hd) (fun U => ?_) fun _ _ hin => hin
        rw [hlead]
        split_ifs with hU
        · subst hU
          simp [hnone, Ne.symm hq]
        · exact Iff.rfl
  refine hmid.fewer (List.eraseIdx_sublist N k) fun c hcin => ?_
  obtain ⟨q, -, rfl⟩ := List.mem_map.mp hcin
  rfl

/-! ### Runs -/

theorem Voting.less (hv : Voting cid R N h) (k : ℕ) : Voting cid R (N.eraseIdx k) h := by
  have := hv.fewer (List.eraseIdx_sublist N k) (X := []) (by simp)
  rwa [List.append_nil] at this

theorem voteKey_beats (u : Undefined) (rs : RaftState) (p : Idx) :
    ∀ c ∈ beats u rs p, voteKey c = none := by
  intro c hc
  obtain ⟨q, -, rfl⟩ := List.mem_map.mp hc
  rfl

theorem voteKey_appendRsp (src dst : Idx) (req : AppendEntriesReq) (rsp : AppendEntriesRsp) :
    ∀ c ∈ [(⟨src, dst, .appendRsp req rsp⟩ : Connection)], voteKey c = none := by
  intro c hc
  rw [List.mem_singleton.mp hc]
  rfl

theorem Voting.step {s : Cluster} {e : Event} {h' : Hist} (hv : Voting cid s.raft s.net h)
    (hs : Recorded s h e R N h') : Voting cid R N h' := by
  cases hs with
  | idle p b => exact hv.congr rfl rfl rfl rfl rfl
  | drop k => exact hv.less k
  | campaign p b hrole => exact hv.campaign p b
  | beat p hrole =>
    exact (hv.fewer (.refl _) (voteKey_beats _ _ p)).congr rfl rfl rfl rfl rfl
  | request p fd m he hp =>
    have hsame := same_serve e.undef fd (s.raft p) m
    have hmid := hv.congr hsame.serverId hsame.currentTerm hsame.votedFor hsame.role
      hsame.voteGrantedNum
    have hh : ∀ o : Option LogEntry, Voting cid (s.set p (serve e.undef fd (s.raft p) m)) s.net
        ((o.map fun x => h.append p x.entry).getD h) := by
      intro o
      cases o with
      | none => exact hmid
      | some x => exact ⟨hmid.ballots, hmid.backed, hmid.positive, fun q => (hmid.voter q).frame
          rfl rfl (fun _ _ _ hd => hd) (fun _ => Iff.rfl) fun _ _ hin => hin,
          fun c hc => (hmid.vote c hc).extends fun _ _ _ hd => hd, hmid.once⟩
    exact hh _
  | ungranted k src dst req hk hno =>
    have hask : Asked cid h ⟨src, dst, .voteReq req⟩ req := hv.vote _ (List.mem_of_getElem? hk)
    exact hv.answer hk rfl ⟨⟨hask.ne, hask.candidate, hask.vote⟩, fun hyes => by simp at hyes⟩
  | granted k fd src dst req he hp hk hyes => exact hv.granted hk hyes
  | counted k src dst req rsp hk hc hfew => exact hv.counted hk hc
  | elected k src dst req rsp hk hc hmaj => exact hv.elected e.undef hk hc hmaj
  | outvoted k src dst req rsp hk hlt =>
    exact (hv.less k).observe src (stepDown (s.raft src) rsp.term) rfl hlt.le rfl rfl rfl
  | reminded k src dst req rsp hk hrole =>
    exact (hv.fewer (List.eraseIdx_sublist _ k) (voteKey_beats _ _ src)).congr rfl rfl rfl rfl rfl
  | stale k src dst req hk hlt =>
    exact hv.fewer (List.eraseIdx_sublist _ k) (voteKey_appendRsp _ _ _ _)
  | mismatched k src dst req hk hle hmis =>
    have hless := hv.fewer (List.eraseIdx_sublist _ k) (voteKey_appendRsp src dst req
      { term := req.term, success := false, serverId := req.serverId })
    exact hless.observe dst (follow (s.raft dst) req.term) rfl hle rfl rfl rfl
  | accepted k fd src dst req he hp hk hle hmis =>
    have hless := hv.fewer (List.eraseIdx_sublist _ k) (voteKey_appendRsp src dst req
      { term := req.term, success := true, serverId := req.serverId })
    exact hless.observe dst (Raft2PC.accepted e.undef (s.raft dst) req) rfl hle rfl rfl rfl
  | answered k fd src dst req rsp he hp hk hle =>
    have hans := answered_executeRsp e.undef fd hle
    exact (hv.less k).congr hans.serverId hans.currentTerm hans.votedFor hans.role
      hans.voteGrantedNum
  | deposed k src dst req rsp hk hlt =>
    exact (hv.less k).observe src (stepDown (s.raft src) rsp.term) rfl hlt.le rfl rfl rfl

theorem Voting.extends {s : Cluster} {e : Event} {h' : Hist} (hv : Voting cid s.raft s.net h)
    (hs : Recorded s h e R N h') : h.Extends h' := by
  have hterm : ∀ p, h.term p = (s.raft p).currentTerm := fun p => (hv.voter p).term
  cases hs with
  | idle | drop | beat | ungranted | counted | reminded | stale | answered =>
    exact .refl h
  | campaign p b hrole =>
    have hfree : h.vote p ((s.raft p).currentTerm + 1) = none :=
      hv.ballots.free_above (by rw [hterm]; omega)
    exact History.extends_cast (by rw [hterm]; omega) hfree
  | request p fd m he hp =>
    cases created fd (s.raft p) m with
    | none => exact .refl h
    | some x => exact History.extends_append p x.entry
  | granted k fd src dst req he hp hk hyes =>
    refine History.extends_cast ?_ ((hv.voter dst).free hv.ballots hyes)
    rw [hterm]
    rcases grants_iff hyes with hlt | ⟨heq, -⟩ <;> omega
  | elected k src dst req rsp hk hc hmaj =>
    obtain ⟨⟨Q, hQ, hvote⟩, -, hnone⟩ := hv.winner hk hc hmaj
    exact History.extends_elect hv.ballots hQ hvote hnone
  | outvoted k src dst req rsp hk hlt => exact History.extends_advance (by rw [hterm]; omega)
  | mismatched k src dst req hk hle hmis => exact History.extends_advance (by rw [hterm]; omega)
  | accepted k fd src dst req he hp hk hle hmis =>
    exact History.extends_accept (by rw [hterm]; omega)
  | deposed k src dst req rsp hk hlt => exact History.extends_advance (by rw [hterm]; omega)

theorem voting_init (cid : ℕ) (shard : Table ℤ) :
    Voting cid (Cluster.init cid shard).raft (Cluster.init cid shard).net History.start where
  ballots := Ballots.start_valid
  backed v T c hc := by simp [History.start, Ballots.start] at hc
  positive v T c hc := by simp [History.start, Ballots.start] at hc
  voter p :=
    { id := rfl
      term := rfl
      nonneg := le_rfl
      voted := fun c hc => by simp [History.start, Ballots.start] at hc
      stood := fun hr => absurd rfl hr
      open_ := fun hr => by simp [Cluster.raft, Cluster.init, AIOServer.new, RaftState.new] at hr
      leads := fun hr => by simp [Cluster.raft, Cluster.init, AIOServer.new, RaftState.new] at hr
      count := fun hr => by
        simp [Cluster.raft, Cluster.init, AIOServer.new, RaftState.new] at hr }
  vote c hc := by simp [Cluster.init] at hc
  once := List.nodup_nil

variable {ok : Cluster → Event → Prop} {s s' : Cluster}

theorem Tracked.voting (ht : Tracked ok s h) : ∃ cid, Voting cid s.raft s.net h := by
  induction ht with
  | init cid shard => exact ⟨cid, voting_init cid shard⟩
  | step e _ _ hrec ih =>
    obtain ⟨cid, hv⟩ := ih
    exact ⟨cid, hv.step hrec⟩

theorem Cluster.Path.tracked (hp : Path ok s s') (ht : Tracked ok s h) :
    ∃ h', Tracked ok s' h' ∧ h.Extends h' := by
  induction hp with
  | refl => exact ⟨h, ht, .refl h⟩
  | step e _ hok ih =>
    obtain ⟨h₁, ht₁, hx⟩ := ih
    obtain ⟨h₂, hrec⟩ := recorded_step _ h₁ e
    obtain ⟨cid, hv⟩ := ht₁.voting
    exact ⟨h₂, .step e ht₁ hok hrec, hx.trans (hv.extends hrec)⟩

/-- Election safety: whatever happens in between, no two servers lead in one term. -/
theorem election_safety {p q : Idx} {T : ℤ} (hs : Cluster.Reach Cluster.anyStep s)
    (hpath : Cluster.Path Cluster.anyStep s s')
    (hp : (s.raft p).role = .leader ∧ (s.raft p).currentTerm = T)
    (hq : (s'.raft q).role = .leader ∧ (s'.raft q).currentTerm = T) : p = q := by
  obtain ⟨h, ht⟩ := hs.tracked
  obtain ⟨h', ht', hx⟩ := hpath.tracked ht
  obtain ⟨cid, hv⟩ := ht.voting
  obtain ⟨cid', hv'⟩ := ht'.voting
  have hlp := (hv.voter p).leads hp.1
  have hlq := (hv'.voter q).leads hq.1
  rw [hp.2] at hlp
  rw [hq.2] at hlq
  exact Option.some.inj ((hx.ballots.leader T p hlp).symm.trans hlq)

/-- Server 1 asks for votes, server 0 votes for it and the answer arrives. -/
def electFirst : List Event := calmly [.timeout 1, .deliver 0 9, .deliver 1 9]

theorem election_safety_first :
    (((Cluster.init 0 ∅).run electFirst).raft 1).role = .leader ∧ (1 : Idx) = 1 :=
  ⟨by decide, election_safety (s := (Cluster.init 0 ∅).run electFirst) (T := 1)
    (Cluster.Follows.reach (by decide))
    (show Cluster.Follows Cluster.anyStep _ (calmly [.timeout 1]) by decide).path
    (by decide) (by decide)⟩

end Raft2PC
