import LruCache.RaftServer

/-!
# What the handlers of `raft_server` leave alone

The ballot of a server is its term, its vote, the votes it has counted and the terms it has been
elected in. Most of `raft_server` does not touch it: timers, priorities, pre-votes, resignations and
replication (`Quiet`). Three functions do, `update_term`, `initiate_vote` with `handle_vote_resp`,
and `handle_vote_req`; what they do is the matter of `RaftTurns`.
-/

namespace LruCache

/-- The quorum for elections is a majority of `n` servers. -/
def RaftParams.Majority (p : RaftParams) (n : Nat) : Prop :=
  p.customElectionQuorumSize ≤ 0 ∨ (n : Int) < 2 * p.customElectionQuorumSize.toInt

instance (p : RaftParams) (n : Nat) : Decidable (p.Majority n) :=
  inferInstanceAs (Decidable (_ ∨ _))

namespace RaftServer

/-- The state that the manager has saved is the state of the server. -/
def Saved (s : RaftServer) : Prop := s.mgr.savedState.getD .new = s.state

/-- The server is one of the voting servers `ids`, with parameters that nothing adjusts. -/
structure Standing (ids : List Int32) (params : RaftParams) (s : RaftServer) : Prop where
  mapId : s.config.servers.map (·.id) = ids
  voting : ∀ c ∈ s.config.servers, c.learner = false
  imLearner : s.imLearner = false
  paramsEq : s.params = params
  fixed : params.autoAdjustQuorumForSmallCluster = false
  member : s.id ∈ ids

variable {ids : List Int32} {params : RaftParams} {s s' s'' : RaftServer}

namespace Standing

theorem of_same (h : Standing ids params s) (hid : s'.id = s.id) (hconfig : s'.config = s.config)
    (hparams : s'.params = s.params) (hlearner : s'.imLearner = s.imLearner) :
    Standing ids params s' :=
  ⟨hconfig ▸ h.mapId, hconfig ▸ h.voting, hlearner.trans h.imLearner, hparams.trans h.paramsEq,
    h.fixed, hid ▸ h.member⟩

theorem regularPeers (h : Standing ids params s) : s.regularPeers = s.peers := by
  refine List.filter_eq_self.mpr fun c hc => ?_
  rw [h.voting c (List.mem_of_mem_filter hc)]
  rfl

theorem map_peers (h : Standing ids params s) :
    s.peers.map (·.id) = ids.filter fun i => i ≠ s.id := by
  rw [← h.mapId, List.filter_map]
  rfl

theorem getNumVotingMembers (h : Standing ids params s) (hnodup : ids.Nodup) :
    s.getNumVotingMembers = ids.length := by
  have hpeers : s.peers.length = (ids.erase s.id).length := by
    rw [hnodup.erase_eq_filter, ← List.length_map (fun c : SrvConfig => c.id), h.map_peers]
    congr 2
    funext i
    rw [Bool.eq_iff_iff]
    simp
  have hpos : 0 < ids.length := List.length_pos_of_mem h.member
  rw [RaftServer.getNumVotingMembers, h.regularPeers, hpeers, List.length_erase_of_mem h.member,
    h.imLearner, if_neg Bool.false_ne_true]
  omega

/-- More votes than `get_quorum_for_election` are a majority. -/
theorem lt_two_mul_quorum (h : Standing ids params s) (hnodup : ids.Nodup)
    (hmajority : params.Majority ids.length) : ids.length < 2 * (s.getQuorumForElection + 1) := by
  rw [getQuorumForElection, h.getNumVotingMembers hnodup, h.paramsEq]
  split
  · omega
  · next hcustom =>
    rcases hmajority with hle | hlt
    · exact absurd (.inl hle) hcustom
    · omega

end Standing

/-- The fields that elections depend on, apart from the role. -/
def ballotFields (s : RaftServer) : Int32 × SrvState × InMemStateMgr × Nat × List UInt64 ×
    ClusterConfig × RaftParams × Bool :=
  (s.id, s.state, s.mgr, s.votesGranted, s.elected, s.config, s.params, s.imLearner)

/-- From `s` to `s'` the ballot stays as it is, the server does not become a leader, and what is
saved stays up to date. -/
structure Quiet (s s' : RaftServer) : Prop where
  id : s'.id = s.id
  term : s'.state.term = s.state.term
  votedFor : s'.state.votedFor = s.state.votedFor
  votesGranted : s'.votesGranted = s.votesGranted
  elected : s'.elected = s.elected
  leads : s'.role = .leader → s.role = .leader
  standing : ∀ {ids params}, Standing ids params s → Standing ids params s'
  saved : s.Saved → s'.Saved

namespace Quiet

theorem refl (s : RaftServer) : Quiet s s :=
  ⟨rfl, rfl, rfl, rfl, rfl, fun h => h, fun h => h, fun h => h⟩

theorem trans (h : Quiet s s') (h' : Quiet s' s'') : Quiet s s'' where
  id := h'.id.trans h.id
  term := h'.term.trans h.term
  votedFor := h'.votedFor.trans h.votedFor
  votesGranted := h'.votesGranted.trans h.votesGranted
  elected := h'.elected.trans h.elected
  leads := fun hl => h.leads (h'.leads hl)
  standing := fun hs => h'.standing (h.standing hs)
  saved := fun hs => h'.saved (h.saved hs)

/-- A change to what is not part of the ballot. -/
theorem of_same (h : s'.ballotFields = s.ballotFields)
    (hrole : s'.role = .leader → s.role = .leader) : Quiet s s' := by
  simp only [ballotFields, Prod.mk.injEq] at h
  obtain ⟨hid, hstate, hmgr, hvotes, helected, hconfig, hparams, hlearner⟩ := h
  refine ⟨hid, ?_, ?_, hvotes, helected, hrole, fun hs => hs.of_same hid hconfig hparams hlearner,
    fun hs => ?_⟩
  · rw [hstate]
  · rw [hstate]
  · rw [Saved, hmgr, hstate]
    exact hs

/-- Either branch of a conditional. -/
theorem ite {p : Prop} [Decidable p] {t e : RaftServer} (ht : p → Quiet s t) (he : ¬p → Quiet s e) :
    Quiet s (if p then t else e) := by
  split
  · next hp => exact ht hp
  · next hp => exact he hp

/-- A loop of quiet steps. -/
theorem foldl {α : Type} {f : RaftServer → α → RaftServer} (hf : ∀ s a, Quiet s (f s a)) :
    ∀ (l : List α) (s : RaftServer), Quiet s (l.foldl f s)
  | [], s => refl s
  | a :: l, s => (hf s a).trans (foldl hf l (f s a))

end Quiet

/-! ## Timers and roles -/

theorem quiet_allowElectionTimer (s : RaftServer) (allowed : Bool) :
    Quiet s (saveState { s with state := { s.state with electionTimerAllowed := allowed } }) :=
  ⟨rfl, rfl, rfl, rfl, rfl, fun h => h, fun h => h.of_same rfl rfl rfl rfl, fun _ => rfl⟩

theorem quiet_restartElectionTimer (s : RaftServer) : Quiet s s.restartElectionTimer :=
  .ite (fun _ => .refl s) fun _ => .ite (fun _ => .refl s) fun _ => quiet_allowElectionTimer s true

/-- Without the automatic adjustment the quorum is what it was. -/
theorem quiet_setQuorumSize {s : RaftServer} {size : Int32}
    (h : s.params.autoAdjustQuorumForSmallCluster = true) : Quiet s (s.setQuorumSize size) :=
  ⟨rfl, rfl, rfl, rfl, rfl, fun hl => hl,
    fun hs => absurd h (by rw [hs.paramsEq, hs.fixed]; exact Bool.false_ne_true), fun hs => hs⟩

theorem quiet_becomeFollower (s : RaftServer) : Quiet s s.becomeFollower := by
  have hrole : Quiet s { s with
      role := .follower
      writePaused := false
      nextLeaderCandidate := -1
      preVote := { s.preVote with quorumRejectCount := 0, failureCount := 0 } } :=
    .of_same rfl fun h => SrvRole.noConfusion h
  exact hrole.trans ((Quiet.ite (fun h => quiet_setQuorumSize h.1) fun _ => .refl _).trans
    (quiet_restartElectionTimer _))

theorem quiet_resign (s : RaftServer) : Quiet s s.resign := by
  have hleader : Quiet s { s with leader := -1 } := .of_same rfl fun h => h
  have halive : ∀ s : RaftServer, Quiet s { s with hbAlive := false } := fun s =>
    .of_same rfl fun h => h
  exact (hleader.trans (quiet_becomeFollower _)).trans (halive _)

theorem quiet_yieldLeadership (env : RaftEnv) (s : RaftServer) (immediateYield : Bool)
    (successorId : Int32) : Quiet s (s.yieldLeadership env immediateYield successorId) :=
  .ite (fun _ => .refl s) fun _ => .ite (fun _ => .refl s) fun _ => .ite (fun _ => .refl s) fun _ =>
    .ite (fun _ => quiet_resign s) fun _ =>
      .of_same rfl fun h => h

theorem quiet_logAppendFailed (s : RaftServer) : Quiet s s.logAppendFailed :=
  .ite (fun _ => quiet_resign s) fun _ => .refl s

theorem quiet_handleResignationRequest (env : RaftEnv) (s : RaftServer) (req : Request) :
    Quiet s (s.handleResignationRequest env req) :=
  .ite (fun _ => quiet_yieldLeadership env s false req.src) fun _ => .refl s

theorem quiet_checkLeadershipValidity (env : RaftEnv) (s : RaftServer) :
    Quiet s (s.checkLeadershipValidity env).1 := by
  unfold checkLeadershipValidity
  dsimp only
  split_ifs
  · exact .refl s
  · exact .refl s
  · exact quiet_yieldLeadership env s true (-1)
  · exact .refl s

/-! ## Priorities -/

theorem quiet_decayTargetPriority (s : RaftServer) : Quiet s s.decayTargetPriority :=
  .of_same rfl fun h => h

theorem quiet_updateTargetPriority (s : RaftServer) : Quiet s s.updateTargetPriority :=
  .of_same rfl fun h => h

/-- The same servers with other priorities. -/
theorem quiet_setPriority (s : RaftServer) (srvId priority : Int32) {servers : List SrvConfig}
    (h : servers.map (fun c => (c.id, c.learner)) =
      s.config.servers.map fun c => (c.id, c.learner)) :
    Quiet s (s.setPriority srvId priority servers) := by
  refine ⟨rfl, rfl, rfl, rfl, rfl, fun hl => hl, fun hs => ?_, fun hs => hs⟩
  have hid := congrArg (List.map Prod.fst) h
  have hlearner := congrArg (List.map Prod.snd) h
  simp only [List.map_map] at hid hlearner
  refine ⟨hid.trans hs.mapId, fun c hc => ?_, hs.imLearner, hs.paramsEq, hs.fixed, hs.member⟩
  have hmem : c.learner ∈ s.config.servers.map fun c => c.learner :=
    hlearner ▸ List.mem_map_of_mem hc
  obtain ⟨d, hd, hdc⟩ := List.mem_map.mp hmem
  exact hdc.symm.trans (hs.voting d hd)

theorem quiet_broadcastPriorityChange (env : RaftEnv) (s : RaftServer) (srvId priority : Int32) :
    Quiet s (s.broadcastPriorityChange env srvId priority).1 := by
  refine quiet_setPriority s srvId priority ?_
  rw [List.map_map]
  refine List.map_congr_left fun c _ => ?_
  dsimp only [Function.comp]
  split <;> rfl

theorem map_changePriority (srvId priority : Int32) (servers : List SrvConfig) :
    (changePriority srvId priority servers).map (fun c => (c.id, c.learner)) =
      servers.map fun c => (c.id, c.learner) := by
  induction servers with
  | nil => rfl
  | cons c cs ih =>
    rw [changePriority]
    split
    · rfl
    · rw [List.map_cons, List.map_cons, ih]

theorem quiet_handlePriorityChangeReq (env : RaftEnv) (s : RaftServer) (req : Request)
    (srvId priority : Int32) : Quiet s (s.handlePriorityChangeReq env req srvId priority).1 :=
  quiet_setPriority s srvId priority (map_changePriority srvId priority _)

theorem quiet_reconfigure (s : RaftServer) {config : ClusterConfig} (h : s.SameServers config) :
    Quiet s (s.reconfigure config) := by
  have hmine : ∀ (s : RaftServer) (p : Int32),
      Quiet s { s with myPriority := p, stepsToDown := 0 } := fun s p => .of_same rfl fun h => h
  have hcaught : ∀ s : RaftServer, Quiet s { s with catchingUp := false } := fun s =>
    .of_same rfl fun h => h
  have hstep : ∀ (s : RaftServer) (c : SrvConfig), Quiet s
      (if c.id = s.id then
        let s := { s with myPriority := c.priority, stepsToDown := 0 }
        if s.role = .follower ∧ s.catchingUp then
          restartElectionTimer { s with catchingUp := false }
        else s
      else s) := fun s c =>
    .ite (fun _ => (hmine s c.priority).trans
      (.ite (fun _ => (hcaught _).trans (quiet_restartElectionTimer _)) fun _ => .refl _))
      fun _ => .refl s
  have hconfig : ∀ (s' : RaftServer), Quiet s s' → Quiet s { s' with config := config } := by
    refine fun s' hs' => ⟨hs'.id, hs'.term, hs'.votedFor, hs'.votesGranted, hs'.elected, hs'.leads,
      fun hs => ?_, hs'.saved⟩
    -- The servers of the new configuration are those of `s`.
    have hset := (quiet_setPriority s s.id s.myPriority h).standing hs
    have hs'' := hs'.standing hs
    exact ⟨hset.mapId, hset.voting, hs''.imLearner, hs''.paramsEq, hs''.fixed, hs''.member⟩
  exact (hconfig _ (Quiet.foldl hstep config.servers s)).trans (quiet_updateTargetPriority _)

/-! ## Requests of other servers -/

theorem quiet_handleAppendEntries (env : RaftEnv) (s : RaftServer) (req : Request) :
    Quiet s (s.handleAppendEntries env req).1 ∧ ∀ r, (s.handleAppendEntries env req).2 = some r →
      r.kind = .appendEntries ∧ r.term = s.state.term := by
  have hcaught : Quiet s (if s.catchingUp ∧ (s.config.getServer s.id).isSome then
      { s with catchingUp := false } else s) :=
    .ite (fun _ => .of_same rfl fun h => h) fun _ => .refl s
  have hleader : ∀ s : RaftServer, Quiet s { s with leader := req.src } := fun s =>
    .of_same rfl fun h => h
  unfold handleAppendEntries
  extract_lets s₁ s₂ resp s₃
  have hs₂ : Quiet s s₂ := hcaught.trans
    (.ite (fun _ => .ite (fun _ => quiet_becomeFollower _) fun _ => quiet_updateTargetPriority _)
      fun _ => .refl _)
  have hresp : ∀ {r : Response} {b : Bool} {i : UInt64},
      some { resp with accepted := b, nextIdx := i } = some r →
      r.kind = .appendEntries ∧ r.term = s.state.term := fun hr =>
    Option.some.inj hr ▸ ⟨rfl, hs₂.term⟩
  split_ifs
  · exact ⟨hcaught, fun r hr => nomatch hr⟩
  · exact ⟨hs₂, fun r => hresp⟩
  · exact ⟨hs₂.trans (quiet_restartElectionTimer _), fun r => hresp⟩
  · exact ⟨(hs₂.trans (hleader _)).trans (quiet_restartElectionTimer _), fun r => hresp⟩
  · exact ⟨hs₂.trans (hleader _), fun r => hresp⟩

theorem quiet_handleInstallSnapshotReq (env : RaftEnv) (s : RaftServer) (req : Request) :
    Quiet s (s.handleInstallSnapshotReq env req).1 ∧
      ∀ r, (s.handleInstallSnapshotReq env req).2 = some r →
        r.kind = .installSnapshot ∧ r.term = s.state.term := by
  unfold handleInstallSnapshotReq
  extract_lets s₁ resp
  have hs₁ : Quiet s s₁ :=
    .ite (fun _ => .ite (fun _ => quiet_becomeFollower s) fun _ => quiet_restartElectionTimer s)
      fun _ => .refl s
  have hresp : ∀ {r : Response} {b : Bool} {i : UInt64},
      some { resp with accepted := b, nextIdx := i } = some r →
      r.kind = .installSnapshot ∧ r.term = s.state.term := fun hr =>
    Option.some.inj hr ▸ ⟨rfl, hs₁.term⟩
  split_ifs
  · exact ⟨.refl s, fun r hr => nomatch hr⟩
  · exact ⟨hs₁, fun r => hresp⟩
  · exact ⟨hs₁, fun r => hresp⟩
  · exact ⟨hs₁, fun r => hresp⟩

theorem quiet_adjustQuorum (env : RaftEnv) (s : RaftServer) (peer : Int32) :
    Quiet s (s.adjustQuorum env peer) :=
  .ite (fun h => .ite (fun _ => .ite (fun _ => quiet_setQuorumSize h.1) fun _ => .refl s)
    fun _ => .ite (fun _ => quiet_setQuorumSize h.1) fun _ => .refl s) fun _ => .refl s

end RaftServer

end LruCache
