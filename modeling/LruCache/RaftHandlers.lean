import LruCache.RaftTurns

/-!
# The handlers of `raft_server` as turns

Every request, every response and every call of a server is a turn of the election. One action
raises the term of a server by at most one, or to the term of a message, so the bound of the terms
goes up by at most one (`turn_processReq`, `turn_handlePeerResp`, `turn_call`).
-/

namespace LruCache

namespace RaftServer

variable {ids : List Int32} {params : RaftParams} {m : Nat} {s : RaftServer}

/-! ## Requests -/

theorem turn_learnTerm (h : Ready ids params m s) {req : Request} (hterm : req.term.toNat ≤ m) :
    OwnTurn ids params m s (s.learnTerm req) [] := by
  have hdown : ∀ s : RaftServer,
      Quiet s (if s.stepsToDown > 0 then { s with stepsToDown := 2 } else s) := fun s =>
    .ite (fun _ => .of_same rfl fun h => h) fun _ => .refl s
  unfold learnTerm
  split
  · exact ((turn_updateTerm h hterm).quiet
      (.ite (fun _ => quiet_decayTargetPriority _) fun _ => .refl _)).quiet (hdown _)
  · exact (Quiet.refl s).turn h

theorem turn_handleOutOfLogMsg (h : Ready ids params m s) {req : Request}
    (hterm : req.term.toNat ≤ m) : OwnTurn ids params m s (s.handleOutOfLogMsg req) [] :=
  (turn_updateTerm h hterm).quiet
    (.ite (fun _ => quiet_restartElectionTimer _) fun _ => .refl _)

/-- An answer that grants no vote. -/
theorem grant_of_kind {r : Response} (h : r.kind ≠ .requestVote) : r.grant = none :=
  if_neg fun hr => h hr.1

theorem answer_handlePrevoteReq (env : RaftEnv) (s : RaftServer) (req : Request) :
    (s.handlePrevoteReq env req).kind = .preVote ∧
      (s.handlePrevoteReq env req).term = req.term := by
  unfold handlePrevoteReq
  extract_lets nextIdxForResp resp
  split <;> exact ⟨rfl, rfl⟩

theorem answer_handlePriorityChangeReq (env : RaftEnv) (s : RaftServer) (req : Request)
    (srvId priority : Int32) :
    (s.handlePriorityChangeReq env req srvId priority).2.kind = .priorityChange ∧
      (s.handlePriorityChangeReq env req srvId priority).2.term = req.term := by
  unfold handlePriorityChangeReq
  dsimp only
  split <;> exact ⟨rfl, rfl⟩

theorem turn_processReq (env : RaftEnv) (he : Electorate ids params) (h : Ready ids params m s)
    (hm : m + 1 < 2 ^ 64) {req : Request} (hdst : req.dst = s.id) (hsrc : req.src ∈ ids)
    (hterm : req.term.toNat ≤ m) :
    Turn ids params (m + 1) s (s.processReq env req).1 [req] [] (s.processReq env req).2.1
      (s.processReq env req).2.2.toList := by
  unfold processReq
  split_ifs
  · exact (((Quiet.refl s).turn h).mono (Nat.le_succ m)).ignoring (by simp) _ _
  have hlearn := turn_learnTerm h hterm
  extract_lets s₁ noted
  have hs₁ : Ready ids params m s₁ := hlearn.ready
  -- A handler after the term has been learnt, with an answer that is not a vote.
  have hturn : ∀ {s' : RaftServer} {sent : List Request} {resp : Option Response},
      OwnTurn ids params (m + 1) s₁ s' sent →
      (∀ r, resp = some r → r.kind ≠ .requestVote ∧ (r.term = s₁.state.term ∨ r.term = req.term)) →
      Turn ids params (m + 1) s s' [req] [] sent resp.toList := by
    intro s' sent resp hs' hresp
    refine (hlearn.trans hs' (Nat.le_succ m)).ignoring (fun r hr => ?_) _ _
    obtain ⟨hkind, hr⟩ := hresp r (Option.mem_toList.mp hr)
    have hle : r.term.toNat ≤ m := by
      rcases hr with hr | hr
      · exact hr ▸ hs₁.term
      · exact hr ▸ hterm
    exact ⟨grant_of_kind hkind, hle.trans (Nat.le_succ m)⟩
  have hquiet : ∀ {s' : RaftServer}, Quiet s₁ s' → OwnTurn ids params (m + 1) s₁ s' [] :=
    fun hq => (hq.turn hs₁).mono (Nat.le_succ m)
  have hnoted : ∀ {s' : RaftServer} {sent : List Request},
      OwnTurn ids params (m + 1) s₁ s' sent →
      Turn ids params (m + 1) s s' [req] [] sent (some noted).toList := fun hs' =>
    hturn hs' fun r hr => Option.some.inj hr ▸ ⟨RespKind.noConfusion, .inl rfl⟩
  split
  · obtain ⟨hq, hresp⟩ := quiet_handleAppendEntries env s₁ req
    refine hturn (hquiet hq) fun r hr => ?_
    obtain ⟨hkind, hr⟩ := hresp r hr
    exact ⟨by rw [hkind]; exact RespKind.noConfusion, .inl hr⟩
  · next forceVote hkind =>
    exact hlearn.trans ((turn_handleVoteReq env he hs₁ hkind (hdst.trans hlearn.id.symm) hsrc).mono
      (Nat.le_succ m)) (Nat.le_succ m)
  · refine hturn (hquiet (.refl s₁)) fun r hr => ?_
    obtain ⟨hkind, hterm⟩ := answer_handlePrevoteReq env s₁ req
    rw [← Option.some.inj hr]
    exact ⟨by rw [hkind]; exact RespKind.noConfusion, .inr hterm⟩
  · next srvId priority _ =>
    refine hturn (hquiet (quiet_handlePriorityChangeReq env s₁ req srvId priority)) fun r hr => ?_
    obtain ⟨hkind, hterm⟩ := answer_handlePriorityChangeReq env s₁ req srvId priority
    rw [← Option.some.inj hr]
    exact ⟨by rw [hkind]; exact RespKind.noConfusion, .inr hterm⟩
  · obtain ⟨hq, hresp⟩ := quiet_handleInstallSnapshotReq env s₁ req
    refine hturn (hquiet hq) fun r hr => ?_
    obtain ⟨hkind, hr⟩ := hresp r hr
    exact ⟨by rw [hkind]; exact RespKind.noConfusion, .inl hr⟩
  · exact hnoted ((turn_handleOutOfLogMsg hs₁ hterm).mono (Nat.le_succ m))
  · exact hnoted (Turn.ite (fun _ => hquiet (.refl s₁))
      fun _ => turn_initiateVoteThenRestart env he hs₁ hm true)
  · exact hnoted (hquiet (quiet_handleResignationRequest env s₁ req))

/-! ## Responses -/

theorem turn_handlePrevoteResp (env : RaftEnv) (he : Electorate ids params)
    (h : Ready ids params m s) (hm : m + 1 < 2 ^ 64) (resp : Response) :
    OwnTurn ids params (m + 1) s (s.handlePrevoteResp env resp).1
      (s.handlePrevoteResp env resp).2 := by
  have hstatus : ∀ (s : RaftServer) (p : PreVoteStatus), Quiet s { s with preVote := p } :=
    fun s p => .of_same rfl fun h => h
  have hdown : ∀ s : RaftServer, Quiet s { s with stepsToDown := 2 } :=
    fun s => .of_same rfl fun h => h
  have hsame := (Quiet.refl s).turn h
  refine Turn.ite (fun _ => hsame.mono (Nat.le_succ m)) fun _ => ?_
  extract_lets status s₁ quorumSize status₁
  have hs₁ : OwnTurn ids params m s s₁ [] := hsame.quiet
    (.ite (fun _ => hstatus s _) fun _ => .ite (fun _ => hstatus s _) fun _ => hstatus s _)
  have hdone := hs₁.quiet (hstatus s₁ { s₁.preVote with done := true })
  have hvote := turn_initiateVoteThenRestart env he hdone.ready hm false
  refine (Turn.quiet ?_ (.ite (fun _ => hstatus _ _) fun _ => .refl _)).quiet
    (.ite (fun _ => hdown _) fun _ => .refl _)
  exact .ite (fun _ => hdone.trans hvote (Nat.le_succ m)) fun _ => hs₁.mono (Nat.le_succ m)

theorem mem_peers_of_any {i : Int32} (h : s.peers.any fun c => c.id = i) :
    i ∈ s.peers.map (·.id) := by
  obtain ⟨c, hc, hi⟩ := List.any_eq_true.mp h
  exact of_decide_eq_true hi ▸ List.mem_map_of_mem hc

theorem sends_handleAppendEntriesResp (env : RaftEnv) (h : Ready ids params m s) (resp : Response) :
    Sends ids m s (s.handleAppendEntriesResp env resp).1
      (s.handleAppendEntriesResp env resp).2 := by
  have hquiet := quiet_resign s
  unfold handleAppendEntriesResp
  split_ifs with hpeer
  · -- The leader resigns, and the peer that has caught up is to take over.
    have hmem := hquiet.mem_peers h.standing (mem_peers_of_any hpeer)
    exact .of_request hquiet ((h.quiet hquiet).posted rfl rfl hmem fun _ => ReqKind.noConfusion) rfl
  · exact sends_requestAppendEntriesTo env h (mem_peers_of_any hpeer)
  · exact .of_quiet (.refl s)
  · exact .of_quiet (.refl s)

theorem sends_handleInstallSnapshotResp (env : RaftEnv) (h : Ready ids params m s)
    (resp : Response) :
    Sends ids m s (s.handleInstallSnapshotResp env resp).1
      (s.handleInstallSnapshotResp env resp).2 := by
  unfold handleInstallSnapshotResp
  split_ifs with hpeer
  · exact sends_requestAppendEntriesTo env h (mem_peers_of_any hpeer.1)
  · exact .of_quiet (.refl s)

theorem updateTerm_of_false {t : UInt64} (h : (s.updateTerm t).2 = false) :
    (s.updateTerm t).1 = s := by
  unfold updateTerm at h ⊢
  split at h
  · cases h
  · next hle => rw [if_neg hle]

theorem turn_handlePeerResp (env : RaftEnv) (he : Electorate ids params) (h : Ready ids params m s)
    (hm : m + 1 < 2 ^ 64) {resp : Response} (hdst : resp.dst = s.id)
    (hterm : resp.term.toNat ≤ m) :
    Turn ids params (m + 1) s (s.handlePeerResp env resp).1 [] [resp]
      (s.handlePeerResp env resp).2 [] := by
  have hignored : ∀ {s' : RaftServer} {sent : List Request}, OwnTurn ids params (m + 1) s s' sent →
      Turn ids params (m + 1) s s' [] [resp] sent [] := fun hs' =>
    hs'.ignoring (fun _ hr => absurd hr List.not_mem_nil) _ _
  have hlater := Nat.le_succ m
  unfold handlePeerResp
  rcases hx : (if resp.kind.isValidMsg then s.updateTerm resp.term else (s, false)) with ⟨s', b⟩
  have hs' : OwnTurn ids params m s s' [] ∧ (b = false → s' = s) := by
    split at hx
    · have hupdate := turn_updateTerm h hterm
      have hfalse := updateTerm_of_false (s := s) (t := resp.term)
      rw [hx] at hupdate hfalse
      exact ⟨hupdate, hfalse⟩
    · cases hx
      exact ⟨(Quiet.refl s).turn h, fun _ => rfl⟩
  obtain ⟨hturn, hsame⟩ := hs'
  cases b with
  | true => exact hignored (hturn.mono hlater)
  | false =>
    obtain rfl := hsame rfl
    dsimp only
    rw [if_neg Bool.false_ne_true]
    split
    · exact hignored (turn_handlePrevoteResp env he h hm resp)
    · next hkind => exact (turn_handleVoteResp env he h hkind hdst).mono hlater
    · exact hignored (((sends_handleAppendEntriesResp env h resp).turn h).mono hlater)
    · exact hignored (((sends_handleInstallSnapshotResp env h resp).turn h).mono hlater)
    · exact hignored (hturn.mono hlater)
    · exact hignored (hturn.mono hlater)

/-! ## Timers -/

theorem sends_requestPrevote (env : RaftEnv) (h : Ready ids params m s) :
    Sends ids m s (s.requestPrevote env).1 (s.requestPrevote env).2 := by
  unfold requestPrevote
  extract_lets quorumSize status s₁ s₂ preVote s₃
  have hs₁ : Quiet s s₁ :=
    .ite (fun _ => .ite (fun _ => .of_same rfl fun h => h)
      fun _ => .of_same rfl fun h => h) fun _ => .refl s
  have hs₂ : Quiet s₁ s₂ := .ite (fun h => quiet_setQuorumSize h.1) fun _ => .refl s₁
  have hs₃ : Quiet s₂ s₃ :=
    .of_same rfl fun h => SrvRole.noConfusion h
  have hquiet := (hs₁.trans hs₂).trans hs₃
  split_ifs
  · exact .of_quiet (hquiet.trans (quiet_restartElectionTimer _))
  · refine ⟨hquiet, posted_requestFromPeers env (h.quiet hquiet) fun _ => ReqKind.noConfusion,
      fun r hr => ?_⟩
    obtain ⟨c, -, rfl⟩ := List.mem_map.mp hr
    rfl

theorem turn_handleElectionTimeout (env : RaftEnv) (he : Electorate ids params)
    (h : Ready ids params m s) (hm : m + 1 < 2 ^ 64) :
    OwnTurn ids params (m + 1) s (s.handleElectionTimeout env).1
      (s.handleElectionTimeout env).2 := by
  have hquiet : ∀ {s' : RaftServer}, Quiet s s' → OwnTurn ids params (m + 1) s s' [] :=
    fun hq => (hq.turn h).mono (Nat.le_succ m)
  have hrestart := hquiet (quiet_restartElectionTimer s)
  refine Turn.ite (fun _ => hquiet (.refl s)) fun _ => Turn.ite (fun _ => ?_) fun _ =>
    Turn.ite (fun _ => hrestart) fun _ => Turn.ite (fun _ => hquiet (.refl s)) fun _ =>
    Turn.ite (fun _ => hrestart) fun _ => Turn.ite (fun _ => hquiet (.refl s)) fun _ =>
    Turn.ite (fun _ => hrestart) fun _ => ?_
  · extract_lets s₁
    have hs₁ : Quiet s s₁ := .of_same rfl fun h => h
    exact Turn.ite (fun _ => hquiet (hs₁.trans (quiet_allowElectionTimer s₁ false)))
      fun _ => hquiet (hs₁.trans (quiet_restartElectionTimer s₁))
  · extract_lets s₁ s₂
    have hs₁ : Quiet s s₁ := .ite (fun _ => quiet_decayTargetPriority s) fun _ => .refl s
    have hs₂ : Quiet s₁ s₂ :=
      .ite (fun _ => .of_same rfl fun h => h) fun _ => .refl s₁
    have hturn := (hs₁.trans hs₂).turn h
    refine Turn.ite (fun _ => ?_) fun _ => ?_
    · exact hturn.trans (turn_initiateVoteThenRestart env he hturn.ready hm false) (Nat.le_succ m)
    · have hsends := (sends_requestPrevote env hturn.ready).turn hturn.ready
      generalize s₂.requestPrevote env = x at hsends ⊢
      exact ((hturn.trans hsends le_rfl).quiet (quiet_restartElectionTimer _)).mono (Nat.le_succ m)

theorem sends_handleHbTimeout (env : RaftEnv) (h : Ready ids params m s) (srvId : Int32) :
    Sends ids m s (s.handleHbTimeout env srvId).1 (s.handleHbTimeout env srvId).2 := by
  have hcheck := quiet_checkLeadershipValidity env s
  have hupdate := hcheck.trans (quiet_updateTargetPriority _)
  refine Sends.ite (fun _ => .of_quiet (quiet_resign s)) fun _ =>
    Sends.ite (fun hpeer => Sends.ite (fun _ => .of_quiet (.refl s)) fun _ => ?_)
      fun _ => .of_quiet (.refl s)
  have hmem := hupdate.mem_peers h.standing (mem_peers_of_any hpeer)
  exact Sends.ite (fun _ => (Sends.of_quiet hupdate).append
    (sends_requestAppendEntriesTo env (h.quiet hupdate) hmem)) fun _ => .of_quiet hcheck

/-! ## Calls -/

theorem sends_broadcastPriorityChange (env : RaftEnv) (h : Ready ids params m s)
    (srvId priority : Int32) :
    Sends ids m s (s.broadcastPriorityChange env srvId priority).1
      (s.broadcastPriorityChange env srvId priority).2 := by
  have hquiet := quiet_broadcastPriorityChange env s srvId priority
  refine ⟨hquiet, fun r hr => ?_, fun r hr => ?_⟩
  · obtain ⟨c, hc, rfl⟩ := List.mem_map.mp hr
    exact (h.quiet hquiet).posted rfl rfl (List.mem_map_of_mem (List.mem_of_mem_filter hc))
      fun _ => ReqKind.noConfusion
  · obtain ⟨c, -, rfl⟩ := List.mem_map.mp hr
    rfl

theorem sends_requestLeadership (env : RaftEnv) (h : Ready ids params m s) :
    Sends ids m s s (s.requestLeadership env) := by
  unfold requestLeadership
  split_ifs with _ _ hpeer
  · exact .of_quiet (.refl s)
  · exact .of_quiet (.refl s)
  · have hmem := mem_peers_of_any hpeer
    exact .of_request (.refl s) (h.posted rfl rfl hmem fun _ => ReqKind.noConfusion) rfl
  · exact .of_quiet (.refl s)

theorem turn_call (env : RaftEnv) (he : Electorate ids params) (h : Ready ids params m s)
    (hm : m + 1 < 2 ^ 64) {f : Call} {x : RaftServer × List Request} (hx : s.call env f = some x) :
    OwnTurn ids params (m + 1) s x.1 x.2 := by
  have hsends : ∀ {s' : RaftServer} {sent : List Request}, Sends ids m s s' sent →
      OwnTurn ids params (m + 1) s s' sent := fun hs' => (hs'.turn h).mono (Nat.le_succ m)
  cases f with
  | electionTimeout =>
    cases hx
    exact turn_handleElectionTimeout env he h hm
  | hbTimeout srvId =>
    cases hx
    exact hsends (sends_handleHbTimeout env h srvId)
  | requestAppendEntries =>
    cases hx
    exact hsends (sends_requestAppendEntries env h)
  | yieldLeadership immediateYield successorId =>
    cases hx
    exact hsends (.of_quiet (quiet_yieldLeadership env s immediateYield successorId))
  | requestLeadership =>
    cases hx
    exact hsends (sends_requestLeadership env h)
  | broadcastPriorityChange srvId priority =>
    cases hx
    exact hsends (sends_broadcastPriorityChange env h srvId priority)
  | logAppendFailed =>
    cases hx
    exact hsends (.of_quiet (quiet_logAppendFailed s))
  | reconfigure newConfig =>
    obtain ⟨hsame, hx⟩ := Option.ite_none_right_eq_some.mp hx
    cases hx
    exact hsends (.of_quiet (quiet_reconfigure s hsame))

end RaftServer

end LruCache
