import LruCache.StateManager

/-!
# Leader election in `nuraft::raft_server`

The Raft server that `raft_manager` launches, as far as elections go: pre-votes, votes, the
priorities of the servers, terms, and what every other request does to them. The functions run under
the lock of the server, so each is a function of its state. The exception is the end of a snapshot,
where `handle_snapshot_sync_req` releases the lock while it waits for the state machine; here it
does not wait.

What they learn from elsewhere is an input (`RaftEnv`): the log store, the clocks, the callbacks of
the user and whether a peer can be sent to. Servers that join or leave (`srv_to_join_`,
`srv_to_leave_`) are not modelled, so the peers of a server are the other servers of its
configuration. `peers_` is an unordered map, and its loops go through the configuration here.
`update_params` and `set_inc_term_func`, which `raft_manager` does not call, are left out.
-/

namespace LruCache

/-- `srv_role`. -/
inductive SrvRole
  | follower
  | candidate
  | leader
deriving DecidableEq, Repr

/-- The fields of `raft_params` that elections depend on. -/
structure RaftParams where
  customCommitQuorumSize : Int32
  customElectionQuorumSize : Int32
  allowTemporaryZeroPriorityLeader : Bool
  autoAdjustQuorumForSmallCluster : Bool
  excludeSnpReceiverFromQuorum : Bool
deriving DecidableEq, Repr

/-- The constructor of `raft_params`. `raft_manager` leaves these fields as they are. -/
def RaftParams.new : RaftParams := ⟨0, 0, true, false, false⟩

/-- `pre_vote_status_t`. -/
structure PreVoteStatus where
  term : UInt64
  done : Bool
  live : Nat
  dead : Nat
  abandoned : Nat
  quorumRejectCount : Nat
  failureCount : Nat
deriving DecidableEq, Repr

/-- `pre_vote_status_t::reset`. -/
def PreVoteStatus.reset (p : PreVoteStatus) (term : UInt64) : PreVoteStatus :=
  { p with term := term, done := false, live := 0, dead := 0, abandoned := 0 }

/-- What a leader sends to replicate its log: `append_entries_request`, `install_snapshot_request`
and the notification `out_of_log_range_warning`. -/
inductive Replication
  | appendEntries
  | installSnapshot
  | outOfLogRange
deriving DecidableEq, Repr

/-- The requests that reach the state of an election. `leadershipTakeover` and `requestResignation`
are notifications. -/
inductive ReqKind
  | preVote
  | requestVote (forceVote : Bool)
  | replicate (r : Replication)
  | leadershipTakeover
  | requestResignation
  | priorityChange (srvId priority : Int32)
deriving DecidableEq, Repr

/-- The requests with which `process_req` updates the term. -/
def ReqKind.updatesTerm : ReqKind → Bool
  | .requestVote _ | .replicate .appendEntries | .replicate .installSnapshot => true
  | _ => false

def ReqKind.isRequestVote : ReqKind → Bool
  | .requestVote _ => true
  | _ => false

/-- `req_msg`. -/
structure Request where
  kind : ReqKind
  term : UInt64
  src : Int32
  dst : Int32
  lastLogTerm : UInt64
  lastLogIdx : UInt64
deriving DecidableEq, Repr

/-- The answers to these requests. -/
inductive RespKind
  | preVote
  | requestVote
  | appendEntries
  | installSnapshot
  | customNotification
  | priorityChange
deriving DecidableEq, Repr

/-- `is_valid_msg`. -/
def RespKind.isValidMsg : RespKind → Bool
  | .customNotification | .priorityChange => false
  | _ => true

/-- `resp_msg`. -/
structure Response where
  kind : RespKind
  term : UInt64
  src : Int32
  dst : Int32
  accepted : Bool
  nextIdx : UInt64
deriving DecidableEq, Repr

/-- What a call learns from outside the state of the election. -/
structure RaftEnv where
  /-- `log_store_->last_entry()->get_term()`. -/
  lastEntryTerm : UInt64
  /-- `term_for_log(log_store_->next_slot() - 1)`. -/
  lastLogTerm : UInt64
  /-- `log_store_->next_slot()`. -/
  nextSlot : UInt64
  /-- The peers that are not busy. -/
  free : Int32 → Bool
  /-- The server is stopping, or the callback `ProcessReq` refuses the request. -/
  returnsNull : Bool
  /-- The log is up to date with an `append_entries` request, or the snapshot is taken. -/
  logOkay : Bool
  /-- The callback `GotAppendEntryReqFromLeader` declines. -/
  declined : Bool
  /-- The next index that an accepted request is answered with. -/
  nextIdx : UInt64
  /-- What `create_append_entries_req` makes for a peer, if anything. -/
  replication : Int32 → Option Replication
  /-- The callback `RequestAppendEntries` stops a request to a peer. -/
  appendStopped : Int32 → Bool
  /-- The timer of `request_append_entries` for the quorum has run out. -/
  checkTimeout : Int32 → Bool
  /-- `get_not_responding_peers`. -/
  notResponding : Nat
  /-- `nr_peers` of `check_leadership_validity`, which is zero if a leadership never expires. -/
  expired : Nat
  /-- `get_num_stale_peers`. -/
  stale : Nat
  /-- The peers that receive a snapshot. -/
  snapshotReceivers : Nat
  /-- The peers that have answered within a heartbeat. -/
  responsive : Int32 → Bool
  /-- `reelection_timer_` has run out. -/
  reelectionTimeout : Bool
  /-- The peer that answers has the whole log. -/
  caughtUp : Bool
  /-- `need_to_catchup`. -/
  needToCatchup : Bool
  /-- `out_of_log_range_`. -/
  outOfLogRange : Bool
  /-- An election timeout that is to be ignored: a snapshot is being received, entries are being
  appended, or the timer has been reset too recently. -/
  timeoutIgnored : Bool
  /-- `priority_change_timer_` has run for more than 20 heartbeats. -/
  priorityTimeout : Bool
  /-- The state machine lags behind and its grace period is not over. -/
  inGracePeriod : Bool
  /-- The callback `AutoAdjustQuorum` declines. -/
  adjustDeclined : Bool

/-- `raft_server`. The manager is that of the context, and `elected` lists the terms with which the
callback `BecomeLeader` has been called, the last one first. -/
structure RaftServer where
  id : Int32
  mgr : InMemStateMgr
  config : ClusterConfig
  params : RaftParams
  state : SrvState
  role : SrvRole
  leader : Int32
  imLearner : Bool
  myPriority : Int32
  targetPriority : Int32
  votesResponded : Nat
  votesGranted : Nat
  electionCompleted : Bool
  hbAlive : Bool
  catchingUp : Bool
  stepsToDown : Nat
  writePaused : Bool
  nextLeaderCandidate : Int32
  preVote : PreVoteStatus
  elected : List UInt64
deriving DecidableEq, Repr

namespace RaftServer

/-- The constructor, with the state and the configuration that the manager has saved. The manager
hands out pointers to them, and here the server has copies: a state is saved where it changes, and
the configuration of the manager is not read again. -/
def new (mgr : InMemStateMgr) (params : RaftParams) : RaftServer :=
  -- The loop over the servers, which sets `im_learner_` and `my_priority_`. It leaves the priority
  -- of a server outside its configuration uninitialised, which is 0 here.
  let myself := mgr.savedConfig.servers.foldl
    (fun acc c => if c.id = mgr.myId then (c.learner, c.priority) else acc) (false, 0)
  { id := mgr.myId
    mgr := mgr
    config := mgr.savedConfig
    params := params
    state := mgr.savedState.getD .new
    role := .follower
    leader := -1
    imLearner := myself.1
    myPriority := myself.2
    targetPriority := SrvConfig.initPriority
    votesResponded := 0
    votesGranted := 0
    electionCompleted := true
    hbAlive := false
    catchingUp := false
    stepsToDown := 0
    writePaused := false
    nextLeaderCandidate := -1
    preVote := ⟨0, false, 0, 0, 0, 0, 0⟩
    elected := [] }

/-- `peers_`. -/
def peers (s : RaftServer) : List SrvConfig := s.config.servers.filter fun c => c.id ≠ s.id

/-- The peers that `is_regular_member` holds of. -/
def regularPeers (s : RaftServer) : List SrvConfig := s.peers.filter fun c => !c.learner

/-- `get_num_voting_members`. -/
def getNumVotingMembers (s : RaftServer) : Nat :=
  s.regularPeers.length + if s.imLearner then 0 else 1

/-- `get_quorum_for_election`: the size of a quorum without this server. -/
def getQuorumForElection (s : RaftServer) : Nat :=
  if s.params.customElectionQuorumSize ≤ 0 ∨
      (s.getNumVotingMembers : Int) < s.params.customElectionQuorumSize.toInt then
    s.getNumVotingMembers / 2
  else s.params.customElectionQuorumSize.toInt.toNat - 1

/-- `get_quorum_for_commit`. -/
def getQuorumForCommit (env : RaftEnv) (s : RaftServer) : Nat :=
  let members :=
    if s.params.excludeSnpReceiverFromQuorum then s.getNumVotingMembers - env.snapshotReceivers
    else s.getNumVotingMembers
  if s.params.customCommitQuorumSize ≤ 0 ∨
      (members : Int) < s.params.customCommitQuorumSize.toInt then
    members / 2
  else s.params.customCommitQuorumSize.toInt.toNat - 1

/-- `is_leader`. -/
def isLeader (s : RaftServer) : Bool := s.leader = s.id ∧ s.role = .leader

/-- `ctx_->set_params` with another size of both quorums. -/
def setQuorumSize (s : RaftServer) (size : Int32) : RaftServer :=
  { s with params := { s.params with
      customCommitQuorumSize := size, customElectionQuorumSize := size } }

/-- `ctx_->state_mgr_->save_state(*state_)`. -/
def saveState (s : RaftServer) : RaftServer :=
  { s with mgr := { s.mgr with savedState := some s.state } }

/-- The manager does save the state: `saveState` is what `save_state` does. -/
theorem saveState_mgr (memory : Nat → UInt8) (s : RaftServer) :
    s.mgr.saveState memory s.state = .ok s.saveState.mgr :=
  InMemStateMgr.saveState_eq_ok memory s.mgr s.state

/-- `restart_election_timer`, without the timer. -/
def restartElectionTimer (s : RaftServer) : RaftServer :=
  if s.catchingUp ∨ s.role = .leader then s
  else if s.state.electionTimerAllowed then s
  else saveState { s with state := { s.state with electionTimerAllowed := true } }

/-- `become_follower`. -/
def becomeFollower (s : RaftServer) : RaftServer :=
  let s := { s with
    role := .follower
    writePaused := false
    nextLeaderCandidate := -1
    preVote := { s.preVote with quorumRejectCount := 0, failureCount := 0 } }
  let s :=
    if s.params.autoAdjustQuorumForSmallCluster ∧ s.peers.length = 1 ∧
        s.params.customCommitQuorumSize = 1 then
      s.setQuorumSize 0
    else s
  s.restartElectionTimer

/-- What a leader does to resign, in `yield_leadership` and wherever else it gives up. -/
def resign (s : RaftServer) : RaftServer :=
  let s := { s with leader := -1 }
  { s.becomeFollower with hbAlive := false }

/-- `yield_leadership`. A learner can be nominated as well. -/
def yieldLeadership (env : RaftEnv) (s : RaftServer) (immediateYield : Bool) (successorId : Int32) :
    RaftServer :=
  if s.writePaused then s
  else if s.id ≠ s.leader then s
  else if s.getNumVotingMembers ≤ 1 then s
  else if immediateYield then s.resign
  else
    let given :=
      if 0 ≤ successorId then (s.peers.find? fun c => c.id = successorId).map (·.id) else none
    let highest := s.peers.foldl
      (fun acc c => if env.responsive c.id ∧ acc.1 < c.priority then (c.priority, c.id) else acc)
      ((0, -1) : Int32 × Int32)
    let candidateId := given.getD highest.2
    { s with
      nextLeaderCandidate := if -1 < candidateId then candidateId else s.nextLeaderCandidate
      writePaused := true }

/-- The adjustment of the quorum in `request_append_entries`. -/
def adjustQuorum (env : RaftEnv) (s : RaftServer) (peer : Int32) : RaftServer :=
  if s.params.autoAdjustQuorumForSmallCluster ∧ s.getNumVotingMembers = 2 ∧
      env.checkTimeout peer then
    if 1 ≤ s.getQuorumForCommit env then
      if (env.notResponding ≠ 0 ∨ env.stale ≠ 0) ∧ !env.adjustDeclined then s.setQuorumSize 1 else s
    else if env.notResponding = 0 ∧ env.stale = 0 ∧ s.params.customCommitQuorumSize = 1 then
      s.setQuorumSize 0
    else s
  else s

/-- `request_append_entries` for one peer. Its reserved messages are not modelled, and the log
positions of what it sends are not read here. -/
def requestAppendEntriesTo (env : RaftEnv) (s : RaftServer) (peer : Int32) :
    RaftServer × List Request :=
  if s.role ≠ .leader then (s, [])
  else if env.appendStopped peer then (s, [])
  else
    let s := s.adjustQuorum env peer
    if env.free peer then
      (s, (env.replication peer).toList.map fun r =>
        ⟨.replicate r, s.state.term, s.id, peer, env.lastLogTerm, env.nextSlot - 1⟩)
    else (s, [])

/-- `request_append_entries` for all peers. -/
def requestAppendEntries (env : RaftEnv) (s : RaftServer) : RaftServer × List Request :=
  if s.peers = [] ∨ s.getQuorumForCommit env = 0 then (s, [])
  else
    s.peers.foldl
      (fun acc c =>
        let (s, sent) := acc.1.requestAppendEntriesTo env c.id
        (s, acc.2 ++ sent))
      (s, [])

/-- `become_leader`. -/
def becomeLeader (env : RaftEnv) (s : RaftServer) : RaftServer × List Request :=
  let s := { s with
    role := .leader
    leader := s.id
    elected := s.state.term :: s.elected
    writePaused := false
    nextLeaderCandidate := -1
    preVote := { s.preVote with quorumRejectCount := 0, failureCount := 0 } }
  let (s, sent) := s.requestAppendEntries env
  -- The leadership of a server with priority zero is temporary.
  if s.myPriority = 0 ∧ 1 < s.getNumVotingMembers then (s.yieldLeadership env false (-1), sent)
  else (s, sent)

/-- `update_term`. -/
def updateTerm (s : RaftServer) (term : UInt64) : RaftServer × Bool :=
  if term > s.state.term then
    let s := { s with
      role := .follower
      state := ⟨term, -1, true⟩
      electionCompleted := false
      votesGranted := 0
      votesResponded := 0 }
    (s.saveState.becomeFollower, true)
  else (s, false)

/-- `decay_target_priority`. -/
def decayTargetPriority (s : RaftServer) : RaftServer :=
  let gap := if 10 < s.targetPriority / 5 then s.targetPriority / 5 else 10
  { s with targetPriority := if 1 < s.targetPriority - gap then s.targetPriority - gap else 1 }

/-- `update_target_priority`. -/
def updateTargetPriority (s : RaftServer) : RaftServer :=
  let maxPriority := s.peers.foldl (fun m c => if m < c.priority then c.priority else m)
    s.myPriority
  { s with
    targetPriority := if 0 < maxPriority then maxPriority else SrvConfig.initPriority
    hbAlive := true
    preVote := s.preVote.reset s.state.term }

/-- `check_cond_for_zp_election`. -/
def checkCondForZpElection (env : RaftEnv) (s : RaftServer) : Bool :=
  s.params.allowTemporaryZeroPriorityLeader && s.targetPriority == 1 && s.myPriority == 0 &&
    env.priorityTimeout

/-- The loop of `request_prevote` and of `request_vote` that sends a request to each voting peer
that is not busy. -/
def requestFromPeers (env : RaftEnv) (s : RaftServer) (kind : ReqKind) : List Request :=
  (s.regularPeers.filter fun c => env.free c.id).map fun c =>
    ⟨kind, s.state.term, s.id, c.id, env.lastLogTerm, env.nextSlot - 1⟩

/-- `request_vote`: the server, and what it sends. -/
def requestVote (env : RaftEnv) (s : RaftServer) (forceVote : Bool) : RaftServer × List Request :=
  let s := saveState { s with state := { s.state with votedFor := s.id } }
  let s := { s with votesGranted := s.votesGranted + 1, votesResponded := s.votesResponded + 1 }
  if s.votesGranted > s.getQuorumForElection then
    becomeLeader env { s with electionCompleted := true }
  else (s, s.requestFromPeers env (.requestVote forceVote))

/-- `initiate_vote`. -/
def initiateVote (env : RaftEnv) (s : RaftServer) (forceVote : Bool) : RaftServer × List Request :=
  if !forceVote && env.inGracePeriod then (s, [])
  else
    let (s, sent) :=
      if s.targetPriority ≤ s.myPriority ∨ forceVote ∨ s.checkCondForZpElection env ∨
          (s.getQuorumForElection = 0 ∧ 0 < s.myPriority) then
        requestVote env { s with
          state := { s.state with term := s.state.term + 1, votedFor := -1 }
          role := .candidate
          votesGranted := 0
          votesResponded := 0
          electionCompleted := false } forceVote
      else (s, [])
    if s.role ≠ .leader then ({ s with hbAlive := false, leader := -1 }, sent) else (s, sent)

/-- `initiate_vote`, and the election timer again unless the server now leads. -/
def initiateVoteThenRestart (env : RaftEnv) (s : RaftServer) (forceVote : Bool) :
    RaftServer × List Request :=
  let (s, sent) := s.initiateVote env forceVote
  if s.role ≠ .leader then (s.restartElectionTimer, sent) else (s, sent)

/-- `raft_limits_.vote_limit_`. -/
def voteLimit : Nat := 5

/-- `request_prevote`. The connections it renews are not modelled. -/
def requestPrevote (env : RaftEnv) (s : RaftServer) : RaftServer × List Request :=
  let quorumSize := s.getQuorumForElection
  let s :=
    if s.preVote.live + s.preVote.dead > 0 then
      if s.preVote.live + s.preVote.dead < quorumSize + 1 then
        { s with preVote := { s.preVote with failureCount := s.preVote.failureCount + 1 } }
      else { s with preVote := { s.preVote with failureCount := 0 } }
    else s
  let s :=
    if s.params.autoAdjustQuorumForSmallCluster ∧ s.getNumVotingMembers = 2 ∧
        s.preVote.failureCount > voteLimit ∧ !env.adjustDeclined then
      s.setQuorumSize 1
    else s
  let preVote := s.preVote.reset s.state.term
  let s := { s with
    hbAlive := false
    leader := -1
    role := .candidate
    -- One for this server.
    preVote := { preVote with dead := preVote.dead + 1 } }
  if s.myPriority < s.targetPriority ∧ !s.checkCondForZpElection env then
    (s.restartElectionTimer, [])
  else (s, s.requestFromPeers env .preVote)

/-- `handle_vote_req`. -/
def handleVoteReq (env : RaftEnv) (s : RaftServer) (req : Request) (forceVote : Bool) :
    RaftServer × Response :=
  let resp : Response := ⟨.requestVote, s.state.term, s.id, req.src, false, 0⟩
  let logOkay := req.lastLogTerm > env.lastEntryTerm ∨
    (req.lastLogTerm = env.lastEntryTerm ∧ env.nextSlot - 1 ≤ req.lastLogIdx)
  let grant := req.term = s.state.term ∧ logOkay ∧
    (s.state.votedFor = req.src ∨ s.state.votedFor = -1)
  let ignorePriority := forceVote || s.catchingUp
  if grant then
    if s.config.servers.any fun c => !ignorePriority && c.id == req.src && c.priority != 0 &&
        decide (c.priority < s.targetPriority) then
      (s, resp)
    else
      (saveState { s with state := { s.state with votedFor := req.src } },
        { resp with accepted := true, nextIdx := env.nextSlot })
  else (s, resp)

/-- `handle_vote_resp`. -/
def handleVoteResp (env : RaftEnv) (s : RaftServer) (resp : Response) : RaftServer × List Request :=
  if s.electionCompleted then (s, [])
  else if resp.term ≠ s.state.term then (s, [])
  else
    let s := { s with votesResponded := s.votesResponded + 1 }
    let s := if resp.accepted then { s with votesGranted := s.votesGranted + 1 } else s
    let s :=
      if s.votesResponded ≥ s.getNumVotingMembers then { s with electionCompleted := true } else s
    if s.votesGranted ≥ s.getQuorumForElection + 1 then
      becomeLeader env { s with electionCompleted := true }
    else (s, [])

/-- `handle_prevote_req`. -/
def handlePrevoteReq (env : RaftEnv) (s : RaftServer) (req : Request) : Response :=
  let nextIdxForResp : UInt64 := if s.peers.any fun c => c.id = req.src then 0 else -1
  let resp : Response := ⟨.preVote, req.term, s.id, req.src, false, nextIdxForResp⟩
  if !s.hbAlive || s.catchingUp then { resp with accepted := true, nextIdx := env.nextSlot }
  else resp

/-- `handle_prevote_resp`. The request to reconnect after many rejections is not modelled. -/
def handlePrevoteResp (env : RaftEnv) (s : RaftServer) (resp : Response) :
    RaftServer × List Request :=
  if resp.term ≠ s.preVote.term then (s, [])
  else
    let s :=
      if resp.accepted then { s with preVote := { s.preVote with dead := s.preVote.dead + 1 } }
      else if resp.nextIdx ≠ -1 then
        { s with preVote := { s.preVote with live := s.preVote.live + 1 } }
      else { s with preVote := { s.preVote with abandoned := s.preVote.abandoned + 1 } }
    let electionQuorumSize := s.getQuorumForElection + 1
    let (s, sent) :=
      if s.preVote.dead ≥ electionQuorumSize ∧ !s.preVote.done then
        initiateVoteThenRestart env { s with preVote := { s.preVote with done := true } } false
      else (s, [])
    let s :=
      if s.preVote.live ≥ electionQuorumSize then
        { s with
          preVote := { s.preVote with quorumRejectCount := s.preVote.quorumRejectCount + 1 } }
      else s
    (if s.preVote.abandoned ≥ electionQuorumSize then { s with stepsToDown := 2 } else s, sent)

/-- `handle_append_entries`, as far as the election goes. A leader of the same term does not
answer. -/
def handleAppendEntries (env : RaftEnv) (s : RaftServer) (req : Request) :
    RaftServer × Option Response :=
  let s :=
    if s.catchingUp ∧ (s.config.getServer s.id).isSome then { s with catchingUp := false } else s
  if req.term = s.state.term ∧ s.role = .leader then (s, none)
  else
    let s :=
      if req.term = s.state.term then
        if s.role = .candidate then s.becomeFollower else s.updateTargetPriority
      else s
    let resp : Response := ⟨.appendEntries, s.state.term, s.id, req.src, false, env.nextSlot⟩
    if req.term < s.state.term ∨ !env.logOkay then (s, some resp)
    else if env.declined then (s.restartElectionTimer, some resp)
    else
      let s := { s with leader := req.src }
      (if req.term = s.state.term ∧ s.role = .follower then s.restartElectionTimer else s,
        some { resp with accepted := true, nextIdx := env.nextIdx })

/-- `handle_install_snapshot_req`, as far as the election goes. A leader of the same term exits. The
configuration of the snapshot is a step of its own (`reconfigure`). -/
def handleInstallSnapshotReq (env : RaftEnv) (s : RaftServer) (req : Request) :
    RaftServer × Option Response :=
  if req.term = s.state.term ∧ !s.catchingUp ∧ s.role = .leader then (s, none)
  else
    let s :=
      if req.term = s.state.term ∧ !s.catchingUp then
        if s.role = .candidate then s.becomeFollower else s.restartElectionTimer
      else s
    let resp : Response := ⟨.installSnapshot, s.state.term, s.id, req.src, false, env.nextSlot⟩
    if !s.catchingUp ∧ req.term < s.state.term then (s, some resp)
    else if env.logOkay then (s, some { resp with accepted := true, nextIdx := env.nextIdx })
    else (s, some resp)

/-- `handle_out_of_log_msg`. -/
def handleOutOfLogMsg (s : RaftServer) (req : Request) : RaftServer :=
  let s := (s.updateTerm req.term).1
  if req.term = s.state.term ∧ s.role = .follower then s.restartElectionTimer else s

/-- `handle_leadership_takeover`. -/
def handleLeadershipTakeover (env : RaftEnv) (s : RaftServer) : RaftServer × List Request :=
  if s.isLeader then (s, []) else s.initiateVoteThenRestart env true

/-- `handle_resignation_request`. -/
def handleResignationRequest (env : RaftEnv) (s : RaftServer) (req : Request) : RaftServer :=
  if s.isLeader then s.yieldLeadership env false req.src else s

/-- `my_priority_` and the list of servers after a change of priority. -/
def setPriority (s : RaftServer) (srvId priority : Int32) (servers : List SrvConfig) : RaftServer :=
  { s with
    myPriority := if srvId = s.id then priority else s.myPriority
    config := { s.config with servers := servers } }

/-- `broadcast_priority_change`. -/
def broadcastPriorityChange (env : RaftEnv) (s : RaftServer) (srvId priority : Int32) :
    RaftServer × List Request :=
  let s := s.setPriority srvId priority
    (s.config.servers.map fun c => if c.id = srvId then { c with priority := priority } else c)
  (s, (s.peers.filter fun c => env.free c.id).map fun c =>
    ⟨.priorityChange srvId priority, s.state.term, s.id, c.id, env.lastLogTerm, env.nextSlot - 1⟩)

/-- The loop of `handle_priority_change_req`, which stops at the first server with the id. -/
def changePriority (srvId priority : Int32) : List SrvConfig → List SrvConfig
  | [] => []
  | c :: cs =>
    if c.id = srvId then { c with priority := priority } :: cs
    else c :: changePriority srvId priority cs

/-- `handle_priority_change_req`, for a request with its log entry. -/
def handlePriorityChangeReq (env : RaftEnv) (s : RaftServer) (req : Request)
    (srvId priority : Int32) :
    RaftServer × Response :=
  let resp : Response := ⟨.priorityChange, req.term, s.id, req.src, false, 0⟩
  let found := s.config.servers.any fun c => c.id = srvId
  (s.setPriority srvId priority (changePriority srvId priority s.config.servers),
    if found then { resp with accepted := true, nextIdx := env.nextSlot } else resp)

/-- `reconfigure`, for a configuration with the same servers. -/
def reconfigure (s : RaftServer) (newConfig : ClusterConfig) : RaftServer :=
  let s := newConfig.servers.foldl
    (fun s c =>
      if c.id = s.id then
        let s := { s with myPriority := c.priority, stepsToDown := 0 }
        if s.role = .follower ∧ s.catchingUp then
          restartElectionTimer { s with catchingUp := false }
        else s
      else s)
    s
  updateTargetPriority { s with config := newConfig }

/-- `request_leadership`. -/
def requestLeadership (env : RaftEnv) (s : RaftServer) : List Request :=
  if s.id = s.leader ∨ s.isLeader then []
  else if s.leader = -1 then []
  else if s.peers.any fun c => c.id = s.leader then
    [⟨.requestResignation, s.state.term, s.id, s.leader, env.lastLogTerm, env.nextSlot - 1⟩]
  else []

/-- How `process_req` begins: the server learns the term of a request. -/
def learnTerm (s : RaftServer) (req : Request) : RaftServer :=
  if req.kind.updatesTerm then
    let (s, termUpdated) := s.updateTerm req.term
    let s :=
      if !s.imLearner && !s.hbAlive && termUpdated && req.kind.isRequestVote then
        s.decayTargetPriority
      else s
    if s.stepsToDown > 0 then { s with stepsToDown := 2 } else s
  else s

/-- `process_req`: the server, what it sends, and its answer. -/
def processReq (env : RaftEnv) (s : RaftServer) (req : Request) :
    RaftServer × List Request × Option Response :=
  if env.returnsNull then (s, [], none)
  else
    let s := s.learnTerm req
    -- The answer to a notification is made before the notification is handled.
    let noted : Response := ⟨.customNotification, s.state.term, s.id, req.src, true, env.nextSlot⟩
    match req.kind with
    | .replicate .appendEntries =>
      let (s, resp) := s.handleAppendEntries env req
      (s, [], resp)
    | .requestVote forceVote =>
      let (s, resp) := s.handleVoteReq env req forceVote
      (s, [], some resp)
    | .preVote => (s, [], some (s.handlePrevoteReq env req))
    | .priorityChange srvId priority =>
      let (s, resp) := s.handlePriorityChangeReq env req srvId priority
      (s, [], some resp)
    | .replicate .installSnapshot =>
      let (s, resp) := s.handleInstallSnapshotReq env req
      (s, [], resp)
    | .replicate .outOfLogRange => (s.handleOutOfLogMsg req, [], some noted)
    | .leadershipTakeover =>
      let (s, sent) := s.handleLeadershipTakeover env
      (s, sent, some noted)
    | .requestResignation => (s.handleResignationRequest env req, [], some noted)

/-- `handle_append_entries_resp`, as far as the election goes. `check_overall_status` is a step of
its own (`yieldLeadership`). -/
def handleAppendEntriesResp (env : RaftEnv) (s : RaftServer) (resp : Response) :
    RaftServer × List Request :=
  if s.peers.any fun c => c.id = resp.src then
    if s.writePaused ∧ resp.src = s.nextLeaderCandidate ∧ env.caughtUp ∧ env.free resp.src then
      let s := s.resign
      (s, [⟨.leadershipTakeover, s.state.term, s.id, resp.src, env.lastLogTerm, env.nextSlot - 1⟩])
    else if env.needToCatchup then s.requestAppendEntriesTo env resp.src
    else (s, [])
  else (s, [])

/-- `handle_install_snapshot_resp`, as far as the election goes. -/
def handleInstallSnapshotResp (env : RaftEnv) (s : RaftServer) (resp : Response) :
    RaftServer × List Request :=
  if (s.peers.any fun c => c.id = resp.src) ∧ env.needToCatchup then
    s.requestAppendEntriesTo env resp.src
  else (s, [])

/-- `handle_peer_resp`, for a response that has arrived. -/
def handlePeerResp (env : RaftEnv) (s : RaftServer) (resp : Response) : RaftServer × List Request :=
  let (s, termUpdated) := if resp.kind.isValidMsg then s.updateTerm resp.term else (s, false)
  if termUpdated then (s, [])
  else
    match resp.kind with
    | .preVote => s.handlePrevoteResp env resp
    | .requestVote => s.handleVoteResp env resp
    | .appendEntries => s.handleAppendEntriesResp env resp
    | .installSnapshot => s.handleInstallSnapshotResp env resp
    | .customNotification | .priorityChange => (s, [])

/-- `handle_election_timeout`. -/
def handleElectionTimeout (env : RaftEnv) (s : RaftServer) : RaftServer × List Request :=
  if env.returnsNull then (s, [])
  else if s.stepsToDown > 0 then
    let s := { s with stepsToDown := s.stepsToDown - 1 }
    if s.stepsToDown = 0 then
      (saveState { s with state := { s.state with electionTimerAllowed := false } }, [])
    else (s.restartElectionTimer, [])
  else if s.catchingUp then (s.restartElectionTimer, [])
  else if env.outOfLogRange then (s, [])
  else if env.timeoutIgnored then (s.restartElectionTimer, [])
  else if s.role = .leader then (s, [])
  else if s.imLearner then (s.restartElectionTimer, [])
  else
    let s := if !s.hbAlive then s.decayTargetPriority else s
    let s :=
      if s.preVote.term ≠ s.state.term then { s with preVote := s.preVote.reset s.state.term }
      else s
    if s.peers = [] ∨ s.preVote.done ∨ s.getQuorumForElection = 0 then
      s.initiateVoteThenRestart env false
    else
      let (s, sent) := s.requestPrevote env
      (s.restartElectionTimer, sent)

/-- `check_leadership_validity`: the server, and the result. -/
def checkLeadershipValidity (env : RaftEnv) (s : RaftServer) : RaftServer × Bool :=
  if s.role ≠ .leader then (s, false)
  else
    let minQuorumSize := s.getQuorumForCommit env + 1
    if s.getNumVotingMembers < minQuorumSize + env.expired then
      if s.getNumVotingMembers ≤ minQuorumSize then (s, true)
      else (s.yieldLeadership env true (-1), false)
    else (s, true)

/-- `handle_hb_timeout`. -/
def handleHbTimeout (env : RaftEnv) (s : RaftServer) (srvId : Int32) : RaftServer × List Request :=
  if s.writePaused ∧ env.reelectionTimeout then (s.resign, [])
  else if s.peers.any fun c => c.id = srvId then
    if env.returnsNull then (s, [])
    else
      let (s, valid) := s.checkLeadershipValidity env
      if valid ∧ s.role = .leader then s.updateTargetPriority.requestAppendEntriesTo env srvId
      else (s, [])
  else (s, [])

/-- `notify_log_append_completion(false)` of a leader. A follower stops the system. -/
def logAppendFailed (s : RaftServer) : RaftServer := if s.role = .leader then s.resign else s

/-- A configuration with the same servers, as far as voting goes. -/
def SameServers (s : RaftServer) (config : ClusterConfig) : Prop :=
  config.servers.map (fun c => (c.id, c.learner)) = s.config.servers.map fun c => (c.id, c.learner)

instance (s : RaftServer) (config : ClusterConfig) : Decidable (s.SameServers config) :=
  inferInstanceAs (Decidable (_ = _))

/-- What makes a server move besides the messages of others: its timers, its user, and the commit of
a configuration with the same servers. -/
inductive Call
  | electionTimeout
  | hbTimeout (srvId : Int32)
  | requestAppendEntries
  | yieldLeadership (immediateYield : Bool) (successorId : Int32)
  | requestLeadership
  | broadcastPriorityChange (srvId priority : Int32)
  | logAppendFailed
  | reconfigure (newConfig : ClusterConfig)

/-- One call: the server, and what it sends. -/
def call (env : RaftEnv) (s : RaftServer) : Call → Option (RaftServer × List Request)
  | .electionTimeout => some (s.handleElectionTimeout env)
  | .hbTimeout srvId => some (s.handleHbTimeout env srvId)
  | .requestAppendEntries => some (s.requestAppendEntries env)
  | .yieldLeadership immediateYield successorId =>
    some (s.yieldLeadership env immediateYield successorId, [])
  | .requestLeadership => some (s, s.requestLeadership env)
  | .broadcastPriorityChange srvId priority => some (s.broadcastPriorityChange env srvId priority)
  | .logAppendFailed => some (s.logAppendFailed, [])
  | .reconfigure newConfig =>
    if s.SameServers newConfig then some (s.reconfigure newConfig, []) else none

end RaftServer

end LruCache
