import LruCache.ThreadPoolOwner

/-!
# The pool comes to rest, and stops

Results, for every schedule:
1. `comes_to_rest`: with nothing more pushed or called, and without spurious wake-ups, the pool
   makes a bounded number of steps, and when none is left every call and every push has returned
   and, unless no worker is left, the queue is empty. In particular `stop` and `resize` never block
   for ever.
2. `stop_runs_everything`: `stop(true)` on a pool with a thread runs every function whose `push` had
   returned before the call, except for those handed out by `pop` and those in a detached thread.
3. `nothing_runs_after_stop`: once `stop` has returned, every thread that was not detached has ended
   and later pushes are never run.
-/

namespace LruCache

open Interleaving

/-- A bound on the steps of the worker up to its end or its sleep, while it finds the queue
empty. -/
def Pc.rank : Pc → Nat
  | .exited | .asleep => 0
  | .leave none => 1
  | .waitFlag => 2
  | .waitDone => 3
  | .waitPop => 4
  | .woken | .wantLock => 5
  | .popping => 6
  | .checkFlag => 7
  | .running _ => 8
  | .leave (some _) => 9

/-- A bound on the steps that the rest of the owner's call costs: its own, and those of the workers
that it wakes or starts. -/
def OwnerPc.work (workers threads : Nat) : OwnerPc → Nat
  | .idle => 0
  | .growing n => 8 * (n - threads) + 1
  | .shrinking i _ => i + (5 * workers + 3)
  | .shrunk _ => 5 * workers + 2
  | .cutting _ => 1
  | .raising i => (threads - i) + (5 * workers + threads + 6)
  | .notifying => 5 * workers + threads + 4
  | .joining i => (threads - i) + 3
  | .closing => 1
  | .clearing next => 1 + next.work workers threads

/-- The owner is in `stop`. -/
def OwnerPc.stops : OwnerPc → Bool
  | .raising _ | .notifying | .joining _ | .closing => true
  | .clearing next => next.stops
  | _ => false

namespace ThreadPool

variable {s s' s₁ : ThreadPool} {w v : Worker} {i j k : Nat} {pc : Pc} {f : Addr} {a : PoolAction}

/-! ## The pool comes to rest -/

/-- A bound on the pool's own steps. -/
def work (s : ThreadPool) : Nat :=
  6 * s.queue.length + 6 * s.pushing.length + pcTotal Pc.rank s +
    s.owner.work s.workers.length s.threads.length

theorem WorkerMove.lowers (hm : WorkerMove s w s₁ pc) :
    6 * s₁.queue.length + pc.rank < 6 * s.queue.length + w.pc.rank := by
  cases hm <;> simp_all [popped, Pc.rank] <;> omega

theorem pcTotal_rank_notifyAll :
    pcTotal Pc.rank s.notifyAll ≤ pcTotal Pc.rank s + 5 * s.workers.length := by
  refine Nat.le_trans (Nat.le_of_eq total_map) (total_le_add fun w _ => ?_)
  unfold Worker.wake
  split
  next => exact Nat.le_add_left _ _
  next => exact Nat.le_add_right _ _

theorem OwnerMove.lowers (hm : OwnerMove s s') : s'.work < s.work := by
  cases hm with
  | @spawn n ho hn =>
    have hown : s.setThread.owner = .growing n := ho
    unfold work
    rw [pcTotal_setThread, ho, hown]
    simp only [setThread, OwnerPc.work, Pc.rank, List.length_append, List.length_singleton]
    omega
  | @detach i n j w ho hn hj hw =>
    have hr := pcTotal_raiseFlag (g := Pc.rank) hw
    unfold work
    rw [ho]
    simp only [raiseFlag, OwnerPc.work, List.length_set, pcTotal] at hr ⊢
    omega
  | raise ho hj hw =>
    have hr := pcTotal_raiseFlag (g := Pc.rank) hw
    have hi := (List.getElem?_eq_some_iff.mp hj).1
    unfold work
    rw [ho]
    simp only [raiseFlag, OwnerPc.work, List.length_set, pcTotal] at hr ⊢
    omega
  | notifyShrunk ho | notify ho =>
    have hr := pcTotal_rank_notifyAll (s := s)
    unfold work
    rw [ho]
    simp only [notifyAll, OwnerPc.work, pcTotal] at hr ⊢
    omega
  | join ho hj =>
    have hi := (List.getElem?_eq_some_iff.mp hj).1
    unfold work
    rw [ho]
    simp only [OwnerPc.work, pcTotal]
    omega
  | drop ho hq =>
    unfold work
    rw [hq]
    simp only [popped, List.length_cons, pcTotal]
    omega
  | grown ho | detached ho | cut ho | raised ho | joined ho | close ho | cleared ho =>
    unfold work
    rw [ho]
    simp only [OwnerPc.work, pcTotal]
    omega

theorem PoolMove.lowers (hm : PoolMove s a s') (ha : a.internal = true) : s'.work < s.work := by
  cases hm with
  | @wakeOne f i w hf _ hw hpc =>
    have hr : pcTotal Pc.rank ({ s with pushing := s.pushing.erase f }.setPc i w .woken) +
        w.pc.rank = pcTotal Pc.rank s + 5 := pcTotal_setPc Pc.rank .woken hw
    have hlen := List.length_erase_of_mem hf
    have hpos := List.length_pos_of_mem hf
    unfold work
    simp only [setPc, List.length_set, pcTotal] at hr ⊢
    omega
  | wakeNone hf =>
    have hlen := List.length_erase_of_mem hf
    have hpos := List.length_pos_of_mem hf
    unfold work
    simp only [pcTotal]
    omega
  | @worker i w s₁ pc hw hm =>
    have hr := hm.pcTotal_eq hw Pc.rank
    have hlt := hm.lowers
    obtain ⟨-, -, -, -, hpush⟩ := hm.frame
    obtain ⟨hthreads, -, -, -, hown⟩ := hm.shared
    unfold work
    simp only [setPc, List.length_set, hm.workers_eq, hpush, hthreads, hown] at hr ⊢
    omega
  | owner hm => exact hm.lowers
  | push | handOut | handNothing | spurious | call => cases ha

theorem worker_enabled (hw : s.workers[i]? = some w) (hsleep : w.pc ≠ .asleep)
    (hexit : w.pc ≠ .exited) (hmutex : s.mutexFree = true ∨ w.pc.holdsMutex = true) :
    s.workerStep i ≠ none := by
  unfold workerStep
  cases hpc : w.pc with
  | popping | waitPop => cases s.queue <;> simp [hw, hpc]
  | running => simp [hw, hpc]
  | leave f => cases f <;> simp [hw, hpc]
  | checkFlag | waitFlag => cases hf : w.flag <;> simp [hw, hpc, hf]
  | waitDone => cases s.isDone <;> simp [hw, hpc]
  | wantLock | woken =>
    -- Outside the critical section, so the mutex is free.
    have hfree : s.mutexFree = true := hmutex.resolve_right (by rw [hpc]; exact Bool.false_ne_true)
    simp [hw, hpc, hfree]
  | asleep => exact absurd hpc hsleep
  | exited => exact absurd hpc hexit

/-- No step of the pool's own is enabled. -/
def Stuck (s : ThreadPool) : Prop := ∀ a : PoolAction, a.internal = true → s.step a = none

theorem Stuck.mutexFree (h : Stuck s) : s.mutexFree = true := by
  refine mutexFree_iff.mpr fun w hw => ?_
  obtain ⟨i, hi⟩ := List.mem_iff_getElem?.mp hw
  refine Bool.eq_false_iff.mpr fun hheld => ?_
  refine worker_enabled hi ?_ ?_ (.inr hheld) (h (.worker i) rfl)
  · intro hpc
    rw [hpc] at hheld
    cases hheld
  · intro hpc
    rw [hpc] at hheld
    cases hheld

theorem Stuck.workers (h : Stuck s) : ∀ w ∈ s.workers, w.pc = .asleep ∨ w.pc = .exited := by
  intro w hw
  obtain ⟨i, hi⟩ := List.mem_iff_getElem?.mp hw
  by_contra hpc
  obtain ⟨hsleep, hexit⟩ := not_or.mp hpc
  exact worker_enabled hi hsleep hexit (.inl h.mutexFree) (h (.worker i) rfl)

theorem Stuck.pushing (h : Stuck s) : s.pushing = [] := by
  cases hp : s.pushing with
  | nil => rfl
  | cons f fs =>
    have hf : f ∈ s.pushing := hp ▸ List.mem_cons_self
    by_cases hsleep : ∃ w ∈ s.workers, w.pc = .asleep
    · obtain ⟨w, hw, hpc⟩ := hsleep
      obtain ⟨i, hi⟩ := List.mem_iff_getElem?.mp hw
      have hnone := h (.notifyOne f (some i)) rfl
      have hen : f ∈ s.pushing ∧ s.mutexFree = true ∧ w.pc = .asleep := ⟨hf, h.mutexFree, hpc⟩
      simp only [step, hi, if_pos hen] at hnone
      cases hnone
    · have hawake : ∀ w ∈ s.workers, w.pc ≠ .asleep := fun w hw hpc => hsleep ⟨w, hw, hpc⟩
      have hnone := h (.notifyOne f none) rfl
      have hen : f ∈ s.pushing ∧ s.mutexFree = true ∧ ∀ w ∈ s.workers, w.pc ≠ .asleep :=
        ⟨hf, h.mutexFree, hawake⟩
      simp only [step, if_pos hen] at hnone
      cases hnone

/-- The owner is never stuck inside a call: the threads that it waits for cannot be asleep. -/
theorem Stuck.owner (h : Stuck s) (hs : Orderly s) : s.owner = .idle := by
  have hnone : s.ownerStep = none := h .owner rfl
  have hat := hs.owner
  have hget : ∀ k < s.threads.length, ∃ j w, s.threads[k]? = some j ∧ s.workers[j]? = some w := by
    intro k hk
    obtain ⟨w, hw, -⟩ := hs.ids k _ (List.getElem?_eq_getElem hk)
    exact ⟨_, w, List.getElem?_eq_getElem hk, hw⟩
  unfold ownerStep at hnone
  cases ho : s.owner with
  | idle => rfl
  | growing n =>
    simp only [ho] at hnone
    split at hnone <;> cases hnone
  | shrinking i n =>
    rw [ho] at hat
    simp only [ho] at hnone
    split at hnone
    next hn =>
      obtain ⟨j, w, hj, hw⟩ := hget (i - 1) (by have := hat.2.1; omega)
      simp [hj, hw] at hnone
    next => cases hnone
  | shrunk n | notifying =>
    simp only [ho, if_pos h.mutexFree] at hnone
    cases hnone
  | cutting n | closing =>
    simp only [ho] at hnone
    cases hnone
  | raising i =>
    simp only [ho] at hnone
    split at hnone
    next hi =>
      obtain ⟨j, w, hj, hw⟩ := hget i hi
      simp [hj, hw] at hnone
    next => cases hnone
  | joining i =>
    rw [ho] at hat
    simp only [ho] at hnone
    split at hnone
    next hi =>
      obtain ⟨j, w, hj, hw⟩ := hget i hi
      have hawake := (hat.1 i j w hj hw).2.1
      have hexit := (h.workers w (List.mem_of_getElem? hw)).resolve_left hawake
      simp [hj, hw, hexit] at hnone
    next => cases hnone
  | clearing next =>
    simp only [ho] at hnone
    split at hnone <;> cases hnone

/-- Nothing is left to do: every call and every push has returned, every worker sleeps or has
ended, and what is queued has nobody left to run it. -/
structure AtRest (s : ThreadPool) : Prop where
  owner : s.owner = .idle
  pushing : s.pushing = []
  workers : ∀ w ∈ s.workers, w.pc = .asleep ∨ w.pc = .exited
  queue : s.queue = [] ∨ ∀ w ∈ s.workers, w.pc = .exited

theorem Stuck.atRest (h : Stuck s) (hs : Reached s) : AtRest s := by
  refine ⟨h.owner hs.orderly, h.pushing, h.workers, ?_⟩
  by_cases hsleep : ∃ w ∈ s.workers, w.pc = .asleep
  · -- A sleeper and nobody awake: the queue can hold no more than the pushes in progress.
    obtain ⟨w, hw, hpc⟩ := hsleep
    have hle := hs.wakeful (pcTotal_pos hw (by rw [hpc]; exact Nat.one_pos))
    have hseek : pcTotal Pc.seeks s = 0 := by
      refine total_eq_zero.mpr fun v hv => ?_
      rcases h.workers v hv with hpc | hpc <;> rw [hpc] <;> rfl
    rw [h.pushing, hseek] at hle
    exact .inl (List.eq_nil_of_length_eq_zero (Nat.eq_zero_of_le_zero hle))
  · exact .inr fun w hw => (h.workers w hw).resolve_left fun hpc => hsleep ⟨w, hw, hpc⟩

/-- With nothing more pushed or called, and without spurious wake-ups, the pool takes a bounded
number of steps, whatever the schedule. Where it can take no further one, it is at rest, and it can
always get there. -/
theorem comes_to_rest (h : Reached s) :
    (∀ as s', (∀ a ∈ as, a.internal = true) → run step s as = some s' →
      as.length ≤ s.work ∧ (Stuck s' → AtRest s')) ∧
    ∃ as s', (∀ a ∈ as, a.internal = true) ∧ run step s as = some s' ∧ AtRest s' := by
  have hlower : ∀ s a s', PoolAction.internal a = true → step s a = some s' → s'.work < s.work :=
    fun _ _ _ ha hstep => (step_eq_some hstep).lowers ha
  constructor
  · intro as s' has hrun
    have hle := length_run_le (P := fun a => PoolAction.internal a = true) hlower has hrun
    exact ⟨by omega, fun hstuck => hstuck.atRest (h.run hrun)⟩
  · obtain ⟨as, s', has, hrun, hend⟩ :=
      exists_rest (P := fun a => PoolAction.internal a = true) hlower s
    exact ⟨as, s', has, hrun, Stuck.atRest hend (h.run hrun)⟩

/-- The two workers of the sample, one of them awake, and a push in progress. -/
theorem comes_to_rest_sample :
    ∃ as s', (∀ a ∈ as, a.internal = true) ∧ run step Sample.twoWorkers as = some s' ∧ AtRest s' :=
  (comes_to_rest Sample.twoWorkers_reached).2

/-! ## `stop(true)` runs what was pushed -/

/-- The worker has ended, or has found the queue empty for the last time. -/
def ended (pc : Pc) : Bool := pc.givesUp || decide (pc = .exited)

/-- A `stop(true)` in progress, as the function `f` sees it whose `push` had returned before. -/
structure Draining (f : Addr) (s : ThreadPool) : Prop where
  isDone : s.isDone = true
  isStop : s.isStop = false
  old : f < s.nextAddr
  returned : f ∉ s.pushing
  kept : f ∉ s.dropped
  /-- Up to the last join, no thread has ended before `f` left the queue. Then `f` has left it. -/
  phase :
    ((s.owner = .notifying ∨ ∃ i, s.owner = .joining i) ∧ s.threads ≠ [] ∧
      EachThread s fun _ _ w => ended w.pc = true → f ∉ s.queue) ∨
    ((s.owner = .clearing .closing ∨ s.owner = .closing ∨ s.owner = .idle ∧ s.threads = []) ∧
      f ∉ s.queue)

/-- A worker comes to its end on an empty queue, or on its flag. -/
theorem Evolves.ended (h : Evolves s w v) (hv : ended v.pc = true) :
    s.queue = [] ∨ ThreadPool.ended w.pc = true ∨ w.flag = true := by
  cases h with
  | same | raised => exact .inr (.inl hv)
  | moved hm => cases hm <;> simp_all [ThreadPool.ended, Pc.givesUp]
  | woken => cases hv

theorem PoolMove.queue_old (hm : PoolMove s a s') (hf : f < s.nextAddr) (hq : f ∉ s.queue) :
    f ∉ s'.queue := by
  intro hf'
  cases hm with
  | push =>
    rcases List.mem_append.mp hf' with hf' | hf'
    · exact hq hf'
    · rw [List.mem_singleton.mp hf'] at hf
      exact Nat.lt_irrefl _ hf
  | handOut hs => exact hq (hs ▸ List.mem_cons_of_mem _ hf')
  | worker _ hm => exact hq (hm.queue_subset hf')
  | call =>
    obtain ⟨_, _, _, hc⟩ := callStep_frame s _
    rw [hc] at hf'
    exact hq hf'
  | owner hm =>
    cases hm with
    | drop _ hs => exact hq (hs ▸ List.mem_cons_of_mem _ hf')
    | _ => exact hq hf'
  | _ => exact hq hf'

theorem PoolMove.pushing_old (hm : PoolMove s a s') (hf : f < s.nextAddr) (hp : f ∉ s.pushing) :
    f ∉ s'.pushing ∧ f < s'.nextAddr := by
  cases hm with
  | push =>
    refine ⟨fun hf' => ?_, Nat.lt_succ_of_lt hf⟩
    rcases List.mem_append.mp hf' with hf' | hf'
    · exact hp hf'
    · rw [List.mem_singleton.mp hf'] at hf
      exact Nat.lt_irrefl _ hf
  | wakeOne | wakeNone => exact ⟨fun hf' => hp (List.mem_of_mem_erase hf'), hf⟩
  | worker _ hm =>
    obtain ⟨-, hnext, -, -, hpush⟩ := hm.frame
    simp only [setPc, hnext, hpush]
    exact ⟨hp, hf⟩
  | call =>
    obtain ⟨_, _, _, hc⟩ := callStep_frame s _
    rw [hc]
    exact ⟨hp, hf⟩
  | owner hm =>
    obtain ⟨-, hnext, -, -, hpush, -⟩ := hm.frame
    rw [hnext, hpush]
    exact ⟨hp, hf⟩
  | _ => exact ⟨hp, hf⟩

theorem OwnerMove.of_notifying (hm : OwnerMove s s') (ho : s.owner = .notifying) :
    s' = { s.notifyAll with owner := .joining 0 } := by
  cases hm <;> simp_all

theorem OwnerMove.of_joining (hm : OwnerMove s s') (ho : s.owner = .joining i) :
    s' = { s with owner := .joining (i + 1) } ∨
      s.threads.length ≤ i ∧ s' = { s with owner := .clearing .closing } := by
  cases hm <;> simp_all

theorem OwnerMove.of_clearing {next : OwnerPc} (hm : OwnerMove s s')
    (ho : s.owner = .clearing next) :
    (∃ g rest, s.queue = g :: rest ∧ s' = { s.popped g rest with dropped := s.dropped ++ [g] }) ∨
      s' = { s with owner := next } := by
  cases hm <;> simp_all

theorem OwnerMove.of_closing (hm : OwnerMove s s') (ho : s.owner = .closing) :
    s' = { s with threads := [], owner := .idle } := by
  cases hm <;> simp_all

theorem OwnerMove.not_idle (hm : OwnerMove s s') : s.owner ≠ .idle := by
  cases hm <;> simp_all

theorem PoolMove.dropped_eq (hm : PoolMove s a s') (hown : a ≠ .owner) :
    s'.dropped = s.dropped := by
  cases hm with
  | worker _ hm => exact hm.frame.2.2.1
  | call =>
    obtain ⟨_, _, _, hc⟩ := callStep_frame s _
    rw [hc]
  | owner => exact absurd rfl hown
  | _ => rfl

/-- Without flags in the vector, its threads end only once `f` has left the queue. -/
theorem seen_step (hm : PoolMove s a s') (hon : Onward s s') (hf : f < s.nextAddr)
    (hflags : EachThread s fun _ _ w => w.flag = true → False)
    (h : EachThread s fun _ _ w => ended w.pc = true → f ∉ s.queue) :
    EachThread s' fun _ _ w => ended w.pc = true → f ∉ s'.queue := by
  intro k j v hk hv hend
  obtain ⟨w, hw, he⟩ := hon.evolves j v hv
  rw [hon.threads] at hk
  refine hm.queue_old hf ?_
  rcases he.ended hend with hnil | hwend | hflag
  · rw [hnil]
    exact List.not_mem_nil
  · exact h k j w hk hw hwend
  · exact (hflags k j w hk hw hflag).elim

theorem Draining.step_other (hs : Orderly s) (hm : PoolMove s a s') (hown : a ≠ .owner)
    (hcall : a.isCall = false) (h : Draining f s) : Draining f s' := by
  obtain ⟨hthreads, hdetached, hdone, hstop, hat⟩ := hm.shared hown hcall
  have hon : Onward s s' :=
    hm.onward hthreads (hdetached ▸ fun _ => id) (hdone ▸ id) (hstop ▸ id)
  obtain ⟨hpush, hnext⟩ := hm.pushing_old h.old h.returned
  refine ⟨hdone.trans h.isDone, hstop.trans h.isStop, hnext, hpush,
    hm.dropped_eq hown ▸ h.kept, ?_⟩
  rw [hat, hthreads]
  refine h.phase.imp ?_ fun ⟨ho, hq⟩ => ⟨ho, hm.queue_old h.old hq⟩
  rintro ⟨ho, hne, hseen⟩
  refine ⟨ho, hne, seen_step hm hon h.old ?_ hseen⟩
  exact hs.no_flags (p := fun _ => False)
    (fun k => by rcases ho with ho | ⟨i, ho⟩ <;> rw [ho] <;> exact id) h.isStop

theorem Draining.step_owner (hs : Orderly s) (hm : OwnerMove s s') (h : Draining f s) :
    Draining f s' := by
  have hpm := PoolMove.owner hm
  obtain ⟨hdone, hstop, hold, hret, hkept, hphase⟩ := h
  obtain ⟨hpush, hnext⟩ := hpm.pushing_old hold hret
  rcases hphase with ⟨ho | ⟨i, ho⟩, hne, hseen⟩ | ⟨ho | ho | ⟨ho, ht⟩, hq⟩
  · have hflags := hs.no_flags (p := fun _ => False) (fun k => by rw [ho]; exact id) hstop
    have hs' := hm.of_notifying ho
    have hon : Onward s s' := hpm.onward (by rw [hs']; rfl) (by rw [hs']; exact fun _ => id)
      (by rw [hs']; exact id) (by rw [hs']; exact id)
    have hseen' := seen_step hpm hon hold hflags hseen
    subst hs'
    exact ⟨hdone, hstop, hold, hret, hkept, .inl ⟨.inr ⟨0, rfl⟩, hne, hseen'⟩⟩
  · rcases hm.of_joining ho with rfl | ⟨hle, rfl⟩
    · exact ⟨hdone, hstop, hold, hret, hkept, .inl ⟨.inr ⟨i + 1, rfl⟩, hne, hseen⟩⟩
    · -- Every thread has been joined, and there is one.
      refine ⟨hdone, hstop, hold, hret, hkept, .inr ⟨.inl rfl, ?_⟩⟩
      have hpos := List.length_pos_iff.mpr hne
      obtain ⟨w, hw, -⟩ := hs.ids 0 _ (List.getElem?_eq_getElem hpos)
      have hat := hs.owner
      rw [ho] at hat
      have hexit := hat.2 0 _ w (List.getElem?_eq_getElem hpos) hw (Nat.lt_of_lt_of_le hpos hle)
      exact hseen 0 _ w (List.getElem?_eq_getElem hpos) hw (by rw [hexit]; rfl)
  · rcases hm.of_clearing ho with ⟨g, rest, hg, rfl⟩ | rfl
    · rw [hg] at hq
      obtain ⟨hne, hrest⟩ := not_or.mp fun hc => hq (List.mem_cons.mpr hc)
      refine ⟨hdone, hstop, hold, hret, fun hf => ?_, .inr ⟨.inl ho, hrest⟩⟩
      rcases List.mem_append.mp hf with hf | hf
      · exact hkept hf
      · exact hne (List.mem_singleton.mp hf)
    · exact ⟨hdone, hstop, hold, hret, hkept, .inr ⟨.inr (.inl rfl), hq⟩⟩
  · obtain rfl := hm.of_closing ho
    exact ⟨hdone, hstop, hold, hret, hkept, .inr ⟨.inr (.inr ⟨rfl, rfl⟩), hq⟩⟩
  · exact absurd ho hm.not_idle

/-- The call itself: a thread that has given up before it has left nothing in the queue but what is
still being pushed. -/
theorem Draining.of_call (hs : Orderly s) (ho : s.owner = .idle) (hdone : s.isDone = false)
    (hstop : s.isStop = false) (hne : s.threads ≠ []) (hf : f < s.nextAddr) (hp : f ∉ s.pushing)
    (hd : f ∉ s.dropped) : Draining f { s with isDone := true, owner := .notifying } := by
  refine ⟨rfl, hstop, hf, hp, hd, .inl ⟨.inl rfl, hne, ?_⟩⟩
  intro k j w hk hw hend hq
  have hflag : w.flag = false := Bool.eq_false_iff.mpr fun ht => by
    have hdet := hs.flags hstop k j w hk hw ht
    rw [ho] at hdet
    exact hdet
  obtain ⟨hexit, -⟩ := hs.working hdone j w hw hflag
  have hup : w.pc.givesUp = true := by
    rcases Bool.or_eq_true_iff.mp hend with hup | hx
    · exact hup
    · exact absurd (of_decide_eq_true hx) hexit
  exact hp (hs.unseen w (List.mem_of_getElem? hw) hup f hq)

theorem Draining.run {as : List PoolAction} (hs : Orderly s) (h : Draining f s)
    (hcalls : ∀ a ∈ as, a.isCall = false) (hrun : run step s as = some s') : Draining f s' := by
  refine (run_invariant (I := fun s => Orderly s ∧ Draining f s) (P := fun a => a.isCall = false)
    ?_ ⟨hs, h⟩ hcalls hrun).2
  rintro t a t' ⟨ht, hd⟩ ha hstep
  have hm := step_eq_some hstep
  refine ⟨ht.step hm, ?_⟩
  by_cases hown : a = .owner
  · subst hown
    cases hm with
    | owner hm => exact hd.step_owner ht hm
  · exact hd.step_other ht hm hown ha

/-- When nothing is left of `f` in the queue, it has been run or handed out, or a thread that has
not ended holds it. -/
theorem Reached.place (h : Reached s) (hf : f < s.nextAddr) (hq : f ∉ s.queue)
    (hd : f ∉ s.dropped) (ht : s.threads = []) :
    f ∈ s.finished.map Prod.fst ∨ f ∈ s.handed ∨
      ∃ j ∈ s.detached, ∃ w, s.workers[j]? = some w ∧ w.pc.held = some f := by
  have hone := h.count_eq_one hf
  rw [List.count_eq_zero.mpr hq, List.count_eq_zero.mpr hd] at hone
  by_cases hfin : f ∈ s.finished.map Prod.fst
  · exact .inl hfin
  by_cases hhand : f ∈ s.handed
  · exact .inr (.inl hhand)
  rw [List.count_eq_zero.mpr hfin, List.count_eq_zero.mpr hhand] at hone
  obtain ⟨w, hw, hpos⟩ := exists_of_pcTotal_pos (g := Pc.holds f) (s := s) (by omega)
  have hheld : w.pc.held = some f := by
    unfold Pc.holds at hpos
    split at hpos
    next hheld => exact hheld
    next => cases hpos
  obtain ⟨j, hj⟩ := List.mem_iff_getElem?.mp hw
  refine .inr (.inr ⟨j, ?_, w, hj, hheld⟩)
  rcases h.orderly.gone j w hj with hin | hdet | hexit
  · rw [ht] at hin
    cases hin
  · exact hdet
  · rw [hexit] at hheld
    cases hheld

/-- `stop(true)` on a pool with a thread: when it has returned, every function whose `push` had
returned before the call has been run, unless `pop` or `clear_queue` had taken it or a detached
thread still runs it. -/
theorem stop_runs_everything {as : List PoolAction} (h : Reached s) (hdone : s.isDone = false)
    (hstop : s.isStop = false) (hne : s.threads ≠ []) (hcalls : ∀ a ∈ as, a.isCall = false)
    (hrun : run step s (.call (.stop true) :: as) = some s') (hret : s'.owner = .idle)
    (hf : f < s.nextAddr) (hp : f ∉ s.pushing) (hd : f ∉ s.dropped) :
    f ∈ s'.finished.map Prod.fst ∨ f ∈ s'.handed ∨
      ∃ j ∈ s'.detached, ∃ w, s'.workers[j]? = some w ∧ w.pc.held = some f := by
  have hs' : Reached s' := h.run hrun
  obtain ⟨t, hcall, hrun⟩ := run_cons.mp hrun
  have ht : Orderly t := h.orderly.step (step_eq_some hcall)
  cases step_eq_some hcall with
  | call ho =>
    have hentry : s.callStep (.stop true) = { s with isDone := true, owner := .notifying } :=
      if_neg (by rw [hdone, hstop]; exact Bool.false_ne_true)
    rw [hentry] at ht hrun
    have hdrain := Draining.of_call h.orderly ho hdone hstop hne hf hp hd
    obtain ⟨-, -, hold, -, hkept, hphase⟩ := hdrain.run ht hcalls hrun
    -- At its return `stop` has passed the joins.
    rcases hphase with ⟨ho | ⟨i, ho⟩, -⟩ | ⟨ho | ho | ⟨-, hthreads⟩, hq⟩
    all_goals first
      | exact hs'.place hold hq hkept hthreads
      | (rw [hret] at ho; cases ho)

namespace Sample

/-- The workers of `twoWorkers` run what is left and end, and `stop` joins them. -/
def stopping : List PoolAction :=
  .owner :: List.replicate 10 (.worker 0) ++ List.replicate 4 (.worker 1) ++ List.replicate 5 .owner

def stopped : ThreadPool := (run step twoWorkers (.call (.stop true) :: stopping)).getD init

end Sample

theorem stop_runs_everything_sample :
    0 ∈ Sample.stopped.finished.map Prod.fst ∨ 0 ∈ Sample.stopped.handed ∨
      ∃ j ∈ Sample.stopped.detached, ∃ w,
        Sample.stopped.workers[j]? = some w ∧ w.pc.held = some 0 := by
  have hrun : run step Sample.twoWorkers (.call (.stop true) :: Sample.stopping) =
      some Sample.stopped := by decide
  exact stop_runs_everything Sample.twoWorkers_reached (by decide) (by decide) (by decide)
    (by decide) hrun (by decide) (by decide) (by decide) (by decide)

/-! ## After `stop` -/

/-- Where a `stop` has begun, it is in progress or the vector is empty, and no thread is started. -/
structure Ended (s : ThreadPool) : Prop where
  growing : ∀ n, s.owner = .growing n → s.isDone = false ∧ s.isStop = false
  closed : s.isDone = true ∨ s.isStop = true → s.threads = [] ∨ s.owner.stops = true

theorem Ended.init : Ended init :=
  ⟨(fun _ h => nomatch h), fun h => h.elim (fun h => nomatch h) fun h => nomatch h⟩

theorem Ended.step_call (h : Ended s) (ho : s.owner = .idle) (c : PoolCall) :
    Ended (s.callStep c) := by
  have hclosed : s.isDone = true ∨ s.isStop = true → s.threads = [] := fun hd =>
    (h.closed hd).resolve_right (by rw [ho]; exact Bool.false_ne_true)
  cases c with
  | resize n =>
    simp only [callStep]
    split
    next hrun =>
      obtain ⟨hstop, hdone⟩ := Bool.and_eq_true_iff.mp hrun
      have hno : s.isDone = false ∧ s.isStop = false :=
        ⟨Bool.not_eq_true'  _ |>.mp hdone, Bool.not_eq_true' _ |>.mp hstop⟩
      split
      · exact ⟨fun _ _ => hno, fun hd => .inl (hclosed hd)⟩
      · exact ⟨(fun _ hg => by cases hg), fun hd => .inl (hclosed hd)⟩
    next => exact h
  | stop isWait =>
    cases isWait <;> simp only [callStep] <;> split
    · exact h
    · exact ⟨(fun _ hg => by cases hg), fun _ => .inr rfl⟩
    · exact h
    · exact ⟨(fun _ hg => by cases hg), fun _ => .inr rfl⟩
  | clearQueue => exact ⟨(fun _ hg => by cases hg), fun hd => .inl (hclosed hd)⟩

theorem Ended.step_owner (hs : Orderly s) (hm : OwnerMove s s') (h : Ended s) : Ended s' := by
  obtain ⟨hgrow, hclosed⟩ := h
  have hat := hs.owner
  cases hm with
  | spawn ho =>
    refine ⟨hgrow, fun hd => ?_⟩
    obtain ⟨hdone, hstop⟩ := hgrow _ ho
    rcases hd with hd | hd
    · exact absurd (hdone.symm.trans hd) Bool.false_ne_true
    · exact absurd (hstop.symm.trans hd) Bool.false_ne_true
  | cleared ho =>
    rw [ho] at hat
    refine ⟨?_, fun hd => ?_⟩
    · rintro n rfl
      rcases hat.1 with hn | hn | hn <;> cases hn
    · have hstops := hclosed hd
      rwa [ho] at hstops
  | cut ho =>
    refine ⟨(fun _ hg => nomatch hg), fun hd => .inl ?_⟩
    have hstops := hclosed hd
    rw [ho] at hstops
    have hnil := hstops.resolve_right Bool.false_ne_true
    simp only [hnil, List.take_nil]
  | close => exact ⟨(fun _ hg => nomatch hg), fun _ => .inl rfl⟩
  | drop ho =>
    exact ⟨hgrow, hclosed⟩
  | raise | raised | notify | join | joined => exact ⟨(fun _ hg => nomatch hg), fun _ => .inr rfl⟩
  | grown ho | detach ho | detached ho | notifyShrunk ho =>
    refine ⟨(fun _ hg => nomatch hg), fun hd => .inl ?_⟩
    have hstops := hclosed hd
    rw [ho] at hstops
    exact hstops.resolve_right Bool.false_ne_true

theorem Ended.step (hs : Orderly s) (hm : PoolMove s a s') (h : Ended s) : Ended s' := by
  by_cases hown : a = .owner
  · subst hown
    cases hm with
    | owner hm => exact h.step_owner hs hm
  · cases hcall : a.isCall with
    | false =>
      obtain ⟨hthreads, -, hdone, hstop, hat⟩ := hm.shared hown hcall
      exact ⟨by rw [hat, hdone, hstop]; exact h.growing,
        by rw [hat, hdone, hstop, hthreads]; exact h.closed⟩
    | true =>
      cases hm with
      | call ho => exact h.step_call ho _
      | _ => cases hcall

theorem Reached.ended (h : Reached s) : Ended s :=
  (h.invariant (I := fun s => Orderly s ∧ Ended s)
    (fun _ _ _ hs hstep => ⟨hs.1.step (step_eq_some hstep), hs.2.step hs.1 (step_eq_some hstep)⟩)
    ⟨.init, .init⟩).2

/-- What holds from the return of `stop` on, when no thread was detached. -/
structure Over (ran : List (Addr × Nat)) (s : ThreadPool) : Prop where
  told : s.isDone = true ∨ s.isStop = true
  exited : ∀ w ∈ s.workers, w.pc = .exited
  finished : s.finished = ran

theorem OwnerMove.told_eq (hm : OwnerMove s s') : s'.isDone = s.isDone ∧ s'.isStop = s.isStop := by
  cases hm <;> exact ⟨rfl, rfl⟩

theorem callStep_told (h : s.isDone = true ∨ s.isStop = true) (c : PoolCall) :
    (s.callStep c).isDone = true ∨ (s.callStep c).isStop = true := by
  cases c with
  | resize n =>
    simp only [callStep]
    split
    · split <;> exact h
    · exact h
  | stop isWait =>
    cases isWait <;> simp only [callStep] <;> split
    · exact h
    · exact .inr rfl
    · exact h
    · exact .inl rfl
  | clearQueue => exact h

theorem Over.step {ran : List (Addr × Nat)} (hs : Ended s) (hm : PoolMove s a s')
    (h : Over ran s) : Over ran s' := by
  obtain ⟨htold, hexit, hfin⟩ := h
  cases hm with
  | push | wakeNone | handOut | handNothing => exact ⟨htold, hexit, hfin⟩
  | wakeOne _ _ hw hpc | spurious hw hpc =>
    rw [hexit _ (List.mem_of_getElem? hw)] at hpc
    cases hpc
  | worker hw hm =>
    have hpc := hexit _ (List.mem_of_getElem? hw)
    cases hm <;> simp_all
  | @call c =>
    have htold := callStep_told htold c
    obtain ⟨_, _, _, hc⟩ := callStep_frame s c
    rw [hc] at htold ⊢
    exact ⟨htold, hexit, hfin⟩
  | owner hm =>
    obtain ⟨hdone, hstop⟩ := hm.told_eq
    refine ⟨by rwa [hdone, hstop], fun v hv => ?_, hm.frame.2.2.1.trans hfin⟩
    obtain ⟨j, hj⟩ := List.mem_iff_getElem?.mp hv
    rcases (PoolMove.owner hm).evolves hj with ⟨w, hw, he⟩ | ⟨-, -, n, hgrow⟩
    · exact he.exited (hexit w (List.mem_of_getElem? hw))
    · -- A thread is started only before any `stop`.
      obtain ⟨hd, hs⟩ := hs.growing n hgrow
      rw [hd, hs] at htold
      rcases htold with ht | ht <;> cases ht

/-- Once `stop` has returned on a pool that has detached no thread, every thread has ended and
nothing runs any more: what is pushed later stays in the queue until it is deleted or handed out. -/
theorem nothing_runs_after_stop {as : List PoolAction} (h : Reached s)
    (htold : s.isDone = true ∨ s.isStop = true) (hret : s.owner = .idle) (hdet : s.detached = [])
    (hrun : run step s as = some s') :
    (∀ w ∈ s'.workers, w.pc = .exited) ∧ s'.finished = s.finished := by
  have hover : Over s.finished s := by
    refine ⟨htold, fun w hw => ?_, rfl⟩
    obtain ⟨j, hj⟩ := List.mem_iff_getElem?.mp hw
    have hthreads := (h.ended.closed htold).resolve_right (by rw [hret]; exact Bool.false_ne_true)
    have hgone := h.orderly.gone j w hj
    rw [hthreads, hdet] at hgone
    simpa using hgone
  have hend : Over s.finished s' :=
    (run_invariant (I := fun t => Reached t ∧ Over s.finished t) (P := fun _ => True)
      (fun t a t' ht _ hstep => ⟨ht.1.step hstep, ht.2.step ht.1.ended (step_eq_some hstep)⟩)
      ⟨h, hover⟩ (fun _ _ => trivial) hrun).2
  exact ⟨hend.exited, hend.finished⟩

/-- After the `stop` of the sample, a function is pushed, and the owner calls `resize`. -/
theorem nothing_runs_after_stop_sample :
    (run step Sample.stopped [.push, .notifyOne 2 none, .call (.resize 3)]).map
        (fun s => (s.queue, s.workers.length)) = some ([2], 2) ∧
      ∀ s, run step Sample.stopped [.push, .notifyOne 2 none, .call (.resize 3)] = some s →
        s.finished = Sample.stopped.finished := by
  refine ⟨by decide, fun s hs => ?_⟩
  have hrun : run step Sample.twoWorkers (.call (.stop true) :: Sample.stopping) =
      some Sample.stopped := by decide
  exact (nothing_runs_after_stop (Sample.twoWorkers_reached.run hrun) (by decide) (by decide)
    (by decide) hs).2

end ThreadPool

end LruCache
