import LruCache.Lib.Voting
import LruCache.RaftBallot

/-!
# One server of an election by majority

A server of a fixed set of voting servers is a party of `Voting`: whatever a handler of
`raft_server` does to the ballot is a sequence of steps of that election (`Turn`). The questions are
the `request_vote` requests, and the votes that are granted are the accepted responses to them.

A turn takes messages and sends messages. Most handlers take none that matter to the election.
`handle_vote_req` turns a question into a granted vote, and `handle_vote_resp` counts one.
-/

namespace LruCache

/-- The question that a `request_vote` request asks. -/
def Request.ask (r : Request) : Option (Ask Int32) :=
  if r.kind.isRequestVote then some ⟨r.src, r.dst, r.term.toNat⟩ else none

/-- The vote that a response grants. -/
def Response.grant (r : Response) : Option (Ask Int32) :=
  if r.kind = .requestVote ∧ r.accepted then some ⟨r.dst, r.src, r.term.toNat⟩ else none

/-- The questions among requests. -/
def asksOf (reqs : List Request) : Multiset (Ask Int32) := reqs.filterMap Request.ask

/-- The votes among responses. -/
def grantsOf (resps : List Response) : Multiset (Ask Int32) := resps.filterMap Response.grant

@[simp] theorem asksOf_nil : asksOf [] = 0 := rfl

@[simp] theorem grantsOf_nil : grantsOf [] = 0 := rfl

@[simp] theorem asksOf_append (rs rs' : List Request) :
    asksOf (rs ++ rs') = asksOf rs + asksOf rs' :=
  congrArg _ List.filterMap_append

@[simp] theorem grantsOf_append (rs rs' : List Response) :
    grantsOf (rs ++ rs') = grantsOf rs + grantsOf rs' :=
  congrArg _ List.filterMap_append

theorem asksOf_eq_zero {reqs : List Request} (h : ∀ r ∈ reqs, r.ask = none) : asksOf reqs = 0 :=
  congrArg _ (List.filterMap_eq_nil_iff.mpr h)

theorem grantsOf_eq_zero {resps : List Response} (h : ∀ r ∈ resps, r.grant = none) :
    grantsOf resps = 0 :=
  congrArg _ (List.filterMap_eq_nil_iff.mpr h)

/-- Different servers, none of which has the id that stands for no server, that elect by
majority. -/
structure Electorate (ids : List Int32) (params : RaftParams) : Prop where
  nodup : ids.Nodup
  named : -1 ∉ ids
  majority : params.Majority ids.length

namespace RaftServer

open Voting

/-- The vote of a server in its term. -/
def vote (s : RaftServer) : Option Int32 :=
  if s.state.votedFor = -1 then none else some s.state.votedFor

/-- The election has the ballot of the server. -/
structure Tracks (s : RaftServer) (a : Voting Int32) : Prop where
  term : a.term s.id = s.state.term.toNat
  vote : a.vote s.id s.state.term.toNat = s.vote
  counted : (a.counted s.id).card = s.votesGranted
  elected : ∀ t ∈ s.elected, a.elected s.id t.toNat

/-- The two elections have the same ballot of a party. -/
structure SameAt (j : Int32) (a b : Voting Int32) : Prop where
  term : b.term j = a.term j
  vote : b.vote j = a.vote j
  counted : b.counted j = a.counted j
  elected : ∀ t, a.elected j t → b.elected j t

variable {ids : List Int32} {params : RaftParams} {m m' : Nat} {s s' s'' : RaftServer}
  {reqs reqs' sent sent' : List Request} {resps resps' answers answers' : List Response}
  {a b c : Voting Int32} {j : Int32}

theorem SameAt.refl (j : Int32) (a : Voting Int32) : SameAt j a a := ⟨rfl, rfl, rfl, fun _ h => h⟩

theorem SameAt.trans (h : SameAt j a b) (h' : SameAt j b c) : SameAt j a c :=
  ⟨h'.term.trans h.term, h'.vote.trans h.vote, h'.counted.trans h.counted,
    fun t ht => h'.elected t (h.elected t ht)⟩

theorem Tracks.of_sameAt (h : Tracks s a) (hsame : SameAt s.id a b) : Tracks s b :=
  ⟨hsame.term.trans h.term, by rw [hsame.vote, h.vote], by rw [hsame.counted, h.counted],
    fun t ht => hsame.elected _ (h.elected t ht)⟩

theorem Quiet.vote (h : Quiet s s') : s'.vote = s.vote := by rw [RaftServer.vote, h.votedFor]; rfl

theorem Tracks.quiet (h : Tracks s a) (hq : Quiet s s') : Tracks s' a :=
  ⟨by rw [hq.id, hq.term, h.term], by rw [hq.id, hq.term, hq.vote, h.vote],
    by rw [hq.id, hq.votesGranted, h.counted], by rw [hq.id, hq.elected]; exact h.elected⟩

/-- What every handler starts from and leaves, with no term above `m`. -/
structure Ready (ids : List Int32) (params : RaftParams) (m : Nat) (s : RaftServer) : Prop where
  standing : Standing ids params s
  saved : s.Saved
  leads : s.role = .leader → s.state.term ∈ s.elected
  term : s.state.term.toNat ≤ m

theorem Ready.quiet (h : Ready ids params m s) (hq : Quiet s s') : Ready ids params m s' where
  standing := hq.standing h.standing
  saved := hq.saved h.saved
  leads := fun hl => by
    rw [hq.term, hq.elected]
    exact h.leads (hq.leads hl)
  term := by
    rw [hq.term]
    exact h.term

theorem Ready.mono (h : Ready ids params m s) (hm : m ≤ m') : Ready ids params m' s :=
  ⟨h.standing, h.saved, h.leads, h.term.trans hm⟩

/-- A request as the server sends it: to another server of the cluster, and replication only in a
term that it has been elected in. -/
structure Posted (ids : List Int32) (m : Nat) (s : RaftServer) (r : Request) : Prop where
  src : r.src = s.id
  dst : r.dst ∈ ids
  other : r.dst ≠ s.id
  term : r.term.toNat ≤ m
  leads : ∀ k, r.kind = .replicate k → r.term ∈ s.elected

theorem Posted.mono {r : Request} (h : Posted ids m s r) (hm : m ≤ m') (hid : s'.id = s.id)
    (helected : ∀ t ∈ s.elected, t ∈ s'.elected) : Posted ids m' s' r :=
  ⟨h.src.trans hid.symm, h.dst, hid ▸ h.other, h.term.trans hm,
    fun k hk => helected _ (h.leads k hk)⟩

/-- The election goes from `a` to `b` by steps of the server alone, which is in the end `s`. -/
structure Follows (ids : List Int32) (s : RaftServer) (a b : Voting Int32) : Prop where
  steps : Relation.ReflTransGen (Step ids.toFinset) a b
  same : ∀ j, j ≠ s.id → SameAt j a b
  tracks : Tracks s b

/-- One handler. The server goes from `s` to `s'`, it takes requests and responses, and it sends
requests and answers. Messages that are under way besides these stay under way. -/
structure Turn (ids : List Int32) (params : RaftParams) (m : Nat) (s s' : RaftServer)
    (reqs : List Request) (resps : List Response) (sent : List Request)
    (answers : List Response) : Prop where
  id : s'.id = s.id
  ready : Ready ids params m s'
  elected : ∀ t ∈ s.elected, t ∈ s'.elected
  posted : ∀ r ∈ sent, Posted ids m s' r
  answered : ∀ r ∈ answers, r.term.toNat ≤ m
  follows : ∀ {a q g}, Sound ids.toFinset a → Tracks s a → a.asked = asksOf reqs + q →
    a.granted = grantsOf resps + g →
    ∃ b, Follows ids s' a b ∧ b.asked = asksOf sent + q ∧ b.granted = grantsOf answers + g

/-- A turn that takes no message. -/
abbrev OwnTurn (ids : List Int32) (params : RaftParams) (m : Nat) (s s' : RaftServer)
    (sent : List Request) : Prop :=
  Turn ids params m s s' [] [] sent []

namespace Turn

theorem trans (h : Turn ids params m s s' reqs resps sent answers)
    (h' : Turn ids params m' s' s'' reqs' resps' sent' answers') (hm : m ≤ m') :
    Turn ids params m' s s'' (reqs ++ reqs') (resps ++ resps') (sent ++ sent')
      (answers ++ answers') where
  id := h'.id.trans h.id
  ready := h'.ready
  elected := fun t ht => h'.elected t (h.elected t ht)
  posted := fun r hr => by
    rcases List.mem_append.mp hr with hr | hr
    · exact (h.posted r hr).mono hm h'.id h'.elected
    · exact h'.posted r hr
  answered := fun r hr => by
    rcases List.mem_append.mp hr with hr | hr
    · exact (h.answered r hr).trans hm
    · exact h'.answered r hr
  follows := by
    intro a q g hs ht hq hg
    rw [asksOf_append, add_assoc] at hq
    rw [grantsOf_append, add_assoc] at hg
    obtain ⟨b, hb, hbq, hbg⟩ := h.follows hs ht hq hg
    rw [add_left_comm] at hbq hbg
    obtain ⟨c, hc, hcq, hcg⟩ := h'.follows (hs.steps hb.steps) hb.tracks hbq hbg
    refine ⟨c, ⟨hb.steps.trans hc.steps, fun j hj => ?_, hc.tracks⟩, ?_, ?_⟩
    · exact (hb.same j (h'.id ▸ hj)).trans (hc.same j hj)
    · rw [hcq, asksOf_append, add_left_comm, add_assoc]
    · rw [hcg, grantsOf_append, add_left_comm, add_assoc]

theorem quiet (h : Turn ids params m s s' reqs resps sent answers) (hq : Quiet s' s'') :
    Turn ids params m s s'' reqs resps sent answers where
  id := hq.id.trans h.id
  ready := h.ready.quiet hq
  elected := fun t ht => hq.elected.symm ▸ h.elected t ht
  posted := fun r hr => (h.posted r hr).mono le_rfl hq.id fun t ht => hq.elected.symm ▸ ht
  answered := h.answered
  follows := by
    intro a q g hs ht haq hag
    obtain ⟨b, hb, hbq, hbg⟩ := h.follows hs ht haq hag
    exact ⟨b, ⟨hb.steps, fun j hj => hb.same j (hq.id ▸ hj), hb.tracks.quiet hq⟩, hbq, hbg⟩

theorem mono (h : Turn ids params m s s' reqs resps sent answers) (hm : m ≤ m') :
    Turn ids params m' s s' reqs resps sent answers :=
  ⟨h.id, h.ready.mono hm, h.elected, fun r hr => (h.posted r hr).mono hm rfl fun _ ht => ht,
    fun r hr => (h.answered r hr).trans hm, h.follows⟩

/-- Messages that the server ignores are lost, and it answers without a vote. -/
theorem ignoring (h : OwnTurn ids params m s s' sent)
    (hanswers : ∀ r ∈ answers, r.grant = none ∧ r.term.toNat ≤ m) (reqs : List Request)
    (resps : List Response) : Turn ids params m s s' reqs resps sent answers where
  id := h.id
  ready := h.ready
  elected := h.elected
  posted := h.posted
  answered := fun r hr => (hanswers r hr).2
  follows := by
    intro a q g hs ht hq hg
    have hstep : Step ids.toFinset a { a with asked := q, granted := g } :=
      .lose (hq ▸ Multiset.le_add_left q _) (hg ▸ Multiset.le_add_left g _)
    have htracks : Tracks s { a with asked := q, granted := g } :=
      ht.of_sameAt ⟨rfl, rfl, rfl, fun _ h => h⟩
    obtain ⟨b, hb, hbq, hbg⟩ :=
      h.follows (hs.step hstep) htracks (zero_add q).symm (zero_add g).symm
    refine ⟨b, ⟨hb.steps.head hstep, fun j hj => ?_, hb.tracks⟩, hbq, ?_⟩
    · exact ⟨(hb.same j hj).term, (hb.same j hj).vote, (hb.same j hj).counted,
        (hb.same j hj).elected⟩
    · rw [hbg, grantsOf_eq_zero fun r hr => (hanswers r hr).1, grantsOf_nil]

/-- Either branch of a conditional. -/
theorem ite {p : Prop} [Decidable p] {x y : RaftServer × List Request}
    (hx : p → Turn ids params m s x.1 reqs resps x.2 answers)
    (hy : ¬p → Turn ids params m s y.1 reqs resps y.2 answers) :
    Turn ids params m s (if p then x else y).1 reqs resps (if p then x else y).2 answers := by
  split
  · next hp => exact hx hp
  · next hp => exact hy hp

end Turn

/-- A handler that keeps the ballot and asks for no vote. -/
structure Sends (ids : List Int32) (m : Nat) (s s' : RaftServer) (sent : List Request) : Prop where
  quiet : Quiet s s'
  posted : ∀ r ∈ sent, Posted ids m s' r
  ask : ∀ r ∈ sent, r.ask = none

theorem Sends.of_quiet (h : Quiet s s') : Sends ids m s s' [] :=
  ⟨h, fun _ hr => absurd hr List.not_mem_nil, fun _ hr => absurd hr List.not_mem_nil⟩

theorem Sends.of_request (h : Quiet s s') {r : Request} (hposted : Posted ids m s' r)
    (hask : r.ask = none) : Sends ids m s s' [r] :=
  ⟨h, fun _ hr => List.mem_singleton.mp hr ▸ hposted, fun _ hr => List.mem_singleton.mp hr ▸ hask⟩

theorem Sends.append (h : Sends ids m s s' sent) (h' : Sends ids m s' s'' sent') :
    Sends ids m s s'' (sent ++ sent') where
  quiet := h.quiet.trans h'.quiet
  posted := fun r hr => by
    rcases List.mem_append.mp hr with hr | hr
    · exact (h.posted r hr).mono le_rfl h'.quiet.id fun t ht => h'.quiet.elected.symm ▸ ht
    · exact h'.posted r hr
  ask := fun r hr => by
    rcases List.mem_append.mp hr with hr | hr
    · exact h.ask r hr
    · exact h'.ask r hr

theorem Sends.turn (h : Sends ids m s s' sent) (hs : Ready ids params m s) :
    OwnTurn ids params m s s' sent where
  id := h.quiet.id
  ready := hs.quiet h.quiet
  elected := fun t ht => h.quiet.elected.symm ▸ ht
  posted := h.posted
  answered := fun _ hr => absurd hr List.not_mem_nil
  follows := by
    intro a q g _ ht hq hg
    refine ⟨a, ⟨.refl, fun j _ => .refl j a, ht.quiet h.quiet⟩, ?_, hg⟩
    rw [asksOf_eq_zero h.ask]
    exact hq

/-- Either branch of a conditional. -/
theorem Sends.ite {p : Prop} [Decidable p] {x y : RaftServer × List Request}
    (hx : p → Sends ids m s x.1 x.2) (hy : ¬p → Sends ids m s y.1 y.2) :
    Sends ids m s (if p then x else y).1 (if p then x else y).2 := by
  split
  · next hp => exact hx hp
  · next hp => exact hy hp

/-- A quiet handler that sends nothing. -/
theorem Quiet.turn (h : Quiet s s') (hs : Ready ids params m s) : OwnTurn ids params m s s' [] :=
  (Sends.of_quiet h).turn hs

/-- The server takes one step of the election that leaves the messages alone. -/
theorem ownTurn_of_step (hid : s'.id = s.id) (hready : Ready ids params m s')
    (helected : ∀ t ∈ s.elected, t ∈ s'.elected)
    (h : ∀ {a}, Sound ids.toFinset a → Tracks s a → ∃ b, Step ids.toFinset a b ∧
      (∀ j, j ≠ s.id → SameAt j a b) ∧ Tracks s' b ∧ b.asked = a.asked ∧ b.granted = a.granted) :
    OwnTurn ids params m s s' [] where
  id := hid
  ready := hready
  elected := helected
  posted := fun _ hr => absurd hr List.not_mem_nil
  answered := fun _ hr => absurd hr List.not_mem_nil
  follows := by
    intro a q g hs ht hq hg
    obtain ⟨b, hstep, hsame, htracks, hbq, hbg⟩ := h hs ht
    exact ⟨b, ⟨.single hstep, hid ▸ hsame, htracks⟩, hbq.trans hq, hbg.trans hg⟩

/-! ## A later term -/

theorem turn_updateTerm (h : Ready ids params m s) {t : UInt64} (ht : t.toNat ≤ m) :
    OwnTurn ids params m s (s.updateTerm t).1 [] := by
  unfold updateTerm
  split
  · next hlater =>
    extract_lets s₁
    have hs₁ : OwnTurn ids params m s s₁.saveState [] := by
      refine ownTurn_of_step rfl ⟨h.standing.of_same rfl rfl rfl rfl, rfl,
        fun hrole => SrvRole.noConfusion hrole, ht⟩ (fun _ ht => ht) fun {a} hs hts => ?_
      have hlt : a.term s.id < t.toNat := hts.term.symm ▸ hlater
      refine ⟨_, .advance hlt, fun j hj => ?_, ⟨?_, hs.vote_ahead hlt, ?_, hts.elected⟩, rfl, rfl⟩
      · exact ⟨Function.update_of_ne hj _ _, rfl, Function.update_of_ne hj _ _, fun _ h => h⟩
      · exact Function.update_self s.id _ a.term
      · exact congrArg Finset.card (Function.update_self s.id _ a.counted)
    exact hs₁.quiet (quiet_becomeFollower _)
  · exact (Quiet.refl s).turn h

/-! ## Replication -/

theorem mem_peers_iff (h : Standing ids params s) {i : Int32} :
    i ∈ s.peers.map (·.id) ↔ i ∈ ids ∧ i ≠ s.id := by
  rw [h.map_peers, List.mem_filter, decide_eq_true_iff]

theorem Quiet.mem_peers (hq : Quiet s s') (h : Standing ids params s) {i : Int32}
    (hi : i ∈ s.peers.map (·.id)) : i ∈ s'.peers.map (·.id) := by
  rw [mem_peers_iff (hq.standing h), hq.id, ← mem_peers_iff h]
  exact hi

/-- A request of the server itself, other than replication. -/
theorem Ready.posted (h : Ready ids params m s) {r : Request} (hsrc : r.src = s.id)
    (hterm : r.term = s.state.term) (hdst : r.dst ∈ s.peers.map (·.id))
    (hkind : ∀ k, r.kind ≠ .replicate k) : Posted ids m s r := by
  obtain ⟨hmem, hother⟩ := (mem_peers_iff h.standing).mp hdst
  exact ⟨hsrc, hmem, hother, hterm ▸ h.term, fun k hk => absurd hk (hkind k)⟩

theorem sends_requestAppendEntriesTo (env : RaftEnv) (h : Ready ids params m s) {peer : Int32}
    (hpeer : peer ∈ s.peers.map (·.id)) :
    Sends ids m s (s.requestAppendEntriesTo env peer).1 (s.requestAppendEntriesTo env peer).2 := by
  obtain ⟨hmem, hother⟩ := (mem_peers_iff h.standing).mp hpeer
  have hquiet := quiet_adjustQuorum env s peer
  unfold requestAppendEntriesTo
  dsimp only
  split_ifs with hrole
  · exact .of_quiet (.refl s)
  · exact .of_quiet (.refl s)
  · refine ⟨hquiet, fun r hr => ?_, fun r hr => ?_⟩
    · obtain ⟨k, -, rfl⟩ := List.mem_map.mp hr
      refine ⟨rfl, hmem, hquiet.id ▸ hother, (h.quiet hquiet).term, fun _ _ => ?_⟩
      rw [hquiet.term, hquiet.elected]
      exact h.leads (not_not.mp hrole)
    · obtain ⟨k, -, rfl⟩ := List.mem_map.mp hr
      rfl
  · exact .of_quiet hquiet

theorem sends_requestAppendEntries (env : RaftEnv) (h : Ready ids params m s) :
    Sends ids m s (s.requestAppendEntries env).1 (s.requestAppendEntries env).2 := by
  -- The loop, from the server and the requests it has come to.
  have hloop : ∀ (peers : List SrvConfig) (acc : RaftServer × List Request),
      (∀ c ∈ peers, c.id ∈ s.peers.map (·.id)) → Sends ids m s acc.1 acc.2 →
      ∀ out, peers.foldl (fun acc c => ((acc.1.requestAppendEntriesTo env c.id).1,
        acc.2 ++ (acc.1.requestAppendEntriesTo env c.id).2)) acc = out →
      Sends ids m s out.1 out.2 := by
    intro peers
    induction peers with
    | nil => exact fun acc _ hacc out hout => hout ▸ hacc
    | cons c peers ih =>
      intro acc hpeers hacc
      have hready := h.quiet hacc.quiet
      have hc : c.id ∈ acc.1.peers.map (·.id) := by
        rw [mem_peers_iff hready.standing, hacc.quiet.id, ← mem_peers_iff h.standing]
        exact hpeers c List.mem_cons_self
      exact ih _ (fun c hc => hpeers c (List.mem_cons_of_mem _ hc))
        (hacc.append (sends_requestAppendEntriesTo env hready hc))
  unfold requestAppendEntries
  split_ifs
  · exact .of_quiet (.refl s)
  · exact hloop s.peers (s, []) (fun c hc => List.mem_map_of_mem hc) (.of_quiet (.refl s)) _ rfl

/-! ## Candidates and leaders -/

theorem turn_becomeLeader (env : RaftEnv) (he : Electorate ids params) (h : Ready ids params m s)
    (hvotes : s.getQuorumForElection < s.votesGranted) :
    OwnTurn ids params m s (s.becomeLeader env).1 (s.becomeLeader env).2 := by
  unfold becomeLeader
  extract_lets status s₁
  have hs₁ : OwnTurn ids params m s s₁ [] := by
    refine ownTurn_of_step rfl ⟨h.standing.of_same rfl rfl rfl rfl, h.saved,
      fun _ => List.mem_cons_self, h.term⟩ (fun t ht => List.mem_cons_of_mem _ ht)
      fun {a} _ ht => ?_
    have hmajority : ids.toFinset.card < 2 * (a.counted s.id).card := by
      have hquorum := h.standing.lt_two_mul_quorum he.nodup he.majority
      rw [List.toFinset_card_of_nodup he.nodup, ht.counted]
      omega
    refine ⟨_, .win hmajority, fun j _ => ⟨rfl, rfl, rfl, fun _ h => .inl h⟩,
      ⟨ht.term, ht.vote, ht.counted, fun t hmem => ?_⟩, rfl, rfl⟩
    rcases List.mem_cons.mp hmem with rfl | hmem
    · exact .inr ⟨rfl, ht.term.symm⟩
    · exact .inl (ht.elected t hmem)
  have hsent := hs₁.trans ((sends_requestAppendEntries env hs₁.ready).turn hs₁.ready) le_rfl
  exact .ite (fun _ => hsent.quiet (quiet_yieldLeadership env _ false (-1))) fun _ => hsent

/-- The server as a candidate of the next term that has voted for itself. -/
def asCandidate (s : RaftServer) : RaftServer :=
  saveState { s with
    state := { s.state with term := s.state.term + 1, votedFor := s.id }
    role := .candidate
    votesGranted := 1
    votesResponded := 1
    electionCompleted := false }

theorem Ready.toNat_add_one (h : Ready ids params m s) (hm : m + 1 < 2 ^ 64) :
    (s.state.term + 1).toNat = s.state.term.toNat + 1 := by
  have hterm := h.term
  rw [UInt64.toNat_add]
  exact Nat.mod_eq_of_lt (by show s.state.term.toNat + 1 < 2 ^ 64; omega)

theorem Ready.asCandidate (h : Ready ids params m s) (hm : m + 1 < 2 ^ 64) :
    Ready ids params (m + 1) s.asCandidate where
  standing := h.standing.of_same rfl rfl rfl rfl
  saved := rfl
  leads := fun hrole => SrvRole.noConfusion hrole
  term := by
    show (s.state.term + 1).toNat ≤ m + 1
    rw [h.toNat_add_one hm]
    exact Nat.succ_le_succ h.term

theorem turn_asCandidate (he : Electorate ids params) (h : Ready ids params m s)
    (hm : m + 1 < 2 ^ 64) {polled : List Int32}
    (hpolled : polled.Sublist (s.peers.map (·.id)))
    (hposted : ∀ r ∈ sent, Posted ids (m + 1) s.asCandidate r)
    (hsent : asksOf sent = asks s.id (s.state.term + 1).toNat polled) :
    OwnTurn ids params (m + 1) s s.asCandidate sent where
  id := rfl
  ready := h.asCandidate hm
  elected := fun _ ht => ht
  posted := hposted
  answered := fun _ hr => absurd hr List.not_mem_nil
  follows := by
    intro a q g hs ht hq hg
    have hpeer : ∀ v ∈ polled, v ∈ ids ∧ v ≠ s.id := fun v hv =>
      (mem_peers_iff h.standing).mp (hpolled.subset hv)
    have hnodup : (s.peers.map (·.id)).Nodup := by
      rw [h.standing.map_peers]
      exact he.nodup.filter _
    have hlt : a.term s.id < (s.state.term + 1).toNat := by
      rw [ht.term, h.toNat_add_one hm]
      exact Nat.lt_succ_self _
    have hnamed : s.id ≠ -1 := fun hid => he.named (hid ▸ h.standing.member)
    refine ⟨_, ⟨.single (.stand hlt (List.mem_toFinset.mpr h.standing.member)
      (hnodup.sublist hpolled) (fun hself => (hpeer s.id hself).2 rfl)
      fun v hv => List.mem_toFinset.mpr (hpeer v hv).1), fun j hj => ?_, ⟨?_, ?_, ?_, ht.elected⟩⟩,
      ?_, hg⟩
    · exact ⟨Function.update_of_ne hj _ _, Function.update_of_ne hj _ _,
        Function.update_of_ne hj _ _, fun _ h => h⟩
    · exact Function.update_self s.id _ a.term
    · exact (cast_self a s.id _ s.id).trans (if_neg hnamed).symm
    · exact congrArg Finset.card (Function.update_self s.id _ a.counted)
    · show asks s.id _ polled + a.asked = _
      rw [hsent, hq, asksOf_nil, zero_add]

theorem posted_requestFromPeers (env : RaftEnv) (h : Ready ids params m s) {kind : ReqKind}
    (hkind : ∀ k, kind ≠ .replicate k) : ∀ r ∈ s.requestFromPeers env kind, Posted ids m s r := by
  intro r hr
  obtain ⟨c, hc, rfl⟩ := List.mem_map.mp hr
  have hpeer : c ∈ s.peers := List.mem_of_mem_filter (List.mem_of_mem_filter hc)
  exact h.posted rfl rfl (List.mem_map_of_mem hpeer) hkind

/-- The questions of a candidate to the peers that are not busy. -/
theorem asksOf_requestFromPeers (env : RaftEnv) (s : RaftServer) (forceVote : Bool) :
    asksOf (s.requestFromPeers env (.requestVote forceVote)) =
      asks s.id s.state.term.toNat ((s.regularPeers.filter fun c => env.free c.id).map (·.id)) := by
  unfold asksOf requestFromPeers asks
  rw [List.filterMap_map, List.map_map, ← List.filterMap_eq_map]
  rfl

theorem turn_requestVote (env : RaftEnv) (he : Electorate ids params) (h : Ready ids params m s)
    (hm : m + 1 < 2 ^ 64) (forceVote : Bool) :
    OwnTurn ids params (m + 1) s
      (requestVote env { s with
        state := { s.state with term := s.state.term + 1, votedFor := -1 }
        role := .candidate
        votesGranted := 0
        votesResponded := 0
        electionCompleted := false } forceVote).1
      (requestVote env { s with
        state := { s.state with term := s.state.term + 1, votedFor := -1 }
        role := .candidate
        votesGranted := 0
        votesResponded := 0
        electionCompleted := false } forceVote).2 := by
  have hready := h.asCandidate hm
  refine Turn.ite (fun hquorum => ?_) fun _ => ?_
  · -- The only server: nobody is asked.
    have hcompleted : Quiet s.asCandidate { s.asCandidate with electionCompleted := true } :=
      .of_same rfl fun h => h
    have halone : OwnTurn ids params (m + 1) s s.asCandidate [] :=
      turn_asCandidate he h hm (List.nil_sublist _) (fun _ hr => absurd hr List.not_mem_nil) rfl
    exact (halone.quiet hcompleted).trans
      (turn_becomeLeader env he (hready.quiet hcompleted) hquorum) le_rfl
  · refine turn_asCandidate he h hm ?_
      (posted_requestFromPeers env hready fun _ => ReqKind.noConfusion)
      (asksOf_requestFromPeers env s.asCandidate forceVote)
    exact (List.filter_sublist.trans List.filter_sublist).map _

theorem turn_initiateVote (env : RaftEnv) (he : Electorate ids params) (h : Ready ids params m s)
    (hm : m + 1 < 2 ^ 64) (forceVote : Bool) :
    OwnTurn ids params (m + 1) s (s.initiateVote env forceVote).1
      (s.initiateVote env forceVote).2 := by
  have hnone : OwnTurn ids params (m + 1) s s [] := ((Quiet.refl s).turn h).mono (Nat.le_succ m)
  have hrest : ∀ x : RaftServer × List Request, OwnTurn ids params (m + 1) s x.1 x.2 →
      OwnTurn ids params (m + 1) s
        (if x.1.role ≠ .leader then ({ x.1 with hbAlive := false, leader := -1 }, x.2) else x).1
        (if x.1.role ≠ .leader then ({ x.1 with hbAlive := false, leader := -1 }, x.2) else x).2 :=
    fun x hx => Turn.ite
      (fun _ => hx.quiet (.of_same rfl fun h => h)) fun _ => hx
  exact Turn.ite (fun _ => hnone) fun _ =>
    hrest _ (Turn.ite (fun _ => turn_requestVote env he h hm forceVote) fun _ => hnone)

theorem turn_initiateVoteThenRestart (env : RaftEnv) (he : Electorate ids params)
    (h : Ready ids params m s) (hm : m + 1 < 2 ^ 64) (forceVote : Bool) :
    OwnTurn ids params (m + 1) s (s.initiateVoteThenRestart env forceVote).1
      (s.initiateVoteThenRestart env forceVote).2 := by
  have hvote := turn_initiateVote env he h hm forceVote
  exact Turn.ite (fun _ => hvote.quiet (quiet_restartElectionTimer _)) fun _ => hvote

/-! ## Votes -/

/-- A vote is granted to the server that asks for it, and to one server in a term. -/
theorem turn_handleVoteReq (env : RaftEnv) (he : Electorate ids params) (h : Ready ids params m s)
    {req : Request} {forceVote : Bool} (hkind : req.kind = .requestVote forceVote)
    (hdst : req.dst = s.id) (hsrc : req.src ∈ ids) :
    Turn ids params m s (s.handleVoteReq env req forceVote).1 [req] []
      [] [(s.handleVoteReq env req forceVote).2] := by
  have hrefused : Turn ids params m s s [req] [] []
      [⟨.requestVote, s.state.term, s.id, req.src, false, 0⟩] := by
    refine ((Quiet.refl s).turn h).ignoring (fun r hr => ?_) _ _
    rw [List.mem_singleton.mp hr]
    exact ⟨rfl, h.term⟩
  have hask : asksOf [req] = {⟨req.src, s.id, req.term.toNat⟩} := by
    rw [asksOf, List.filterMap_cons, Request.ask, hkind, ← hdst]
    rfl
  unfold handleVoteReq
  extract_lets resp logOkay grant ignorePriority
  split_ifs with hgrant _
  · exact hrefused
  · obtain ⟨hterm, -, hfree⟩ := hgrant
    have hnamed : req.src ≠ -1 := fun hid => he.named (hid ▸ hsrc)
    refine ⟨rfl, ⟨h.standing.of_same rfl rfl rfl rfl, rfl, h.leads, h.term⟩, fun _ ht => ht,
      fun _ hr => absurd hr List.not_mem_nil, fun r hr => ?_, fun {a q g} hs ht hq hg => ?_⟩
    · rw [List.mem_singleton.mp hr]
      exact h.term
    rw [hask, Multiset.singleton_add, hterm] at hq
    refine ⟨_, ⟨.single (.grant hq ht.term fun x hx => ?_), fun j hj => ?_,
      ⟨ht.term, ?_, ht.counted, ht.elected⟩⟩, (zero_add _).symm, ?_⟩
    · rw [ht.vote, vote] at hx
      split_ifs at hx with hnone
      cases hx
      exact hfree.resolve_right hnone
    · exact ⟨rfl, Function.update_of_ne hj _ _, rfl, fun _ h => h⟩
    · exact (cast_self a s.id _ req.src).trans (if_neg hnamed).symm
    · show _ ::ₘ a.granted = _
      rw [hg, grantsOf_nil, zero_add]
      exact (Multiset.singleton_add _ _).symm
  · exact hrefused

/-- A vote is counted once: its voter is not among those that have been counted. -/
theorem turn_count (h : Ready ids params m s) {resp : Response} (hkind : resp.kind = .requestVote)
    (hdst : resp.dst = s.id) (haccepted : resp.accepted = true)
    (hterm : resp.term = s.state.term) :
    Turn ids params m s { s with votesGranted := s.votesGranted + 1 } [] [resp] [] [] := by
  have hgrant : grantsOf [resp] = {⟨s.id, resp.src, s.state.term.toNat⟩} := by
    rw [grantsOf, List.filterMap_cons, Response.grant, if_pos ⟨hkind, haccepted⟩, hdst, hterm]
    rfl
  refine ⟨rfl, ⟨h.standing.of_same rfl rfl rfl rfl, h.saved, h.leads, h.term⟩, fun _ ht => ht,
    fun _ hr => absurd hr List.not_mem_nil, fun _ hr => absurd hr List.not_mem_nil,
    fun {a q g} hs ht hq hg => ?_⟩
  rw [hgrant, Multiset.singleton_add] at hg
  have hfresh : resp.src ∉ a.counted s.id :=
    hs.fresh _ (Multiset.mem_add.mpr (.inr (hg ▸ Multiset.mem_cons_self _ _))) ht.term.symm
  refine ⟨_, ⟨.single (.count hg ht.term), fun j hj => ?_,
    ⟨ht.term, ht.vote, ?_, ht.elected⟩⟩, hq, (zero_add g).symm⟩
  · exact ⟨rfl, rfl, Function.update_of_ne hj _ _, fun _ h => h⟩
  · show (Function.update a.counted s.id (insert resp.src (a.counted s.id)) s.id).card = _
    rw [Function.update_self, Finset.card_insert_of_notMem hfresh, ht.counted]

theorem turn_handleVoteResp (env : RaftEnv) (he : Electorate ids params) (h : Ready ids params m s)
    {resp : Response} (hkind : resp.kind = .requestVote) (hdst : resp.dst = s.id) :
    Turn ids params m s (s.handleVoteResp env resp).1 [] [resp] (s.handleVoteResp env resp).2
      [] := by
  have hignored : ∀ {s' : RaftServer}, Quiet s s' → Turn ids params m s s' [] [resp] [] [] :=
    fun hq => (hq.turn h).ignoring (fun _ hr => absurd hr List.not_mem_nil) _ _
  refine Turn.ite (fun _ => hignored (.refl s)) fun _ => ?_
  refine Turn.ite (fun _ => hignored (.refl s)) fun hterm => ?_
  extract_lets s₁ s₂ s₃
  have hs₂ : Turn ids params m s s₂ [] [resp] [] [] := by
    have hresponded : Quiet s s₁ := .of_same rfl fun h => h
    by_cases haccepted : resp.accepted = true
    · have hs₂ : s₂ = { s₁ with votesGranted := s₁.votesGranted + 1 } := if_pos haccepted
      rw [hs₂]
      exact (turn_count h hkind hdst haccepted (not_not.mp hterm)).quiet
        (.of_same rfl fun h => h)
    · have hs₂ : s₂ = s₁ := if_neg haccepted
      rw [hs₂]
      exact hignored hresponded
  have hs₃ : Quiet s₂ s₃ :=
    .ite (fun _ => .of_same rfl fun h => h) fun _ => .refl s₂
  refine Turn.ite (fun hquorum => ?_) fun _ => hs₂.quiet hs₃
  have hcompleted : Quiet s₃ { s₃ with electionCompleted := true } := .of_same rfl fun h => h
  have hs₄ := (hs₂.quiet hs₃).quiet hcompleted
  exact hs₄.trans (turn_becomeLeader env he hs₄.ready hquorum) le_rfl

end RaftServer

end LruCache
