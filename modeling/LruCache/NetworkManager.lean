import LruCache.ThreadPoolStop

/-!
# The connections of the server

`network_manager` owns a `ctpl::thread_pool` with `std::thread::hardware_concurrency()` threads.
`listen` pushes one function for each connection it accepts, and nothing else is done to the pool:
no thread calls `resize`, `stop`, `clear_queue` or `pop` while the server runs.

`listen_handles_every_connection`: with at least one thread, whenever the server has nothing left to
do, every accepted connection has been handled exactly once, by one of the threads of the pool. The
standard allows `hardware_concurrency()` to return 0: then no connection is ever handled.
-/

namespace LruCache

open Interleaving

/-- The actions of a running server: `listen` pushes, and the threads of the pool work. The owner
completes the constructor's `resize`. -/
def PoolAction.serves : PoolAction → Bool
  | .push | .notifyOne .. | .worker _ | .spurious _ | .owner => true
  | .pop | .call _ => false

namespace ThreadPool

variable {s s' : ThreadPool} {a : PoolAction} {n : Nat}

/-- The pool of a running server with `n` threads. -/
structure Serving (n : Nat) (s : ThreadPool) : Prop where
  isDone : s.isDone = false
  isStop : s.isStop = false
  dropped : s.dropped = []
  handed : s.handed = []
  flags : ∀ w ∈ s.workers, w.flag = false
  ids : ∀ w ∈ s.workers, w.id < n
  callers : ∀ r ∈ s.finished, r.2 < n
  length_eq : s.threads.length = s.workers.length
  length_le : s.workers.length ≤ n
  owner : s.owner = .growing n ∨ s.owner = .idle ∧ s.workers.length = n

theorem PoolMove.length_eq (hm : PoolMove s a s') (hown : a ≠ .owner) :
    s'.workers.length = s.workers.length := by
  cases hm with
  | wakeOne | spurious => exact List.length_set
  | worker _ hm => rw [setPc, List.length_set, hm.workers_eq]
  | call =>
    obtain ⟨_, _, _, hc⟩ := callStep_frame s _
    rw [hc]
  | owner => exact absurd rfl hown
  | _ => rfl

/-- Only a worker of the pool runs functions, and it passes on its own position. -/
theorem PoolMove.finished_subset (hm : PoolMove s a s') {r : Addr × Nat} (hr : r ∈ s'.finished) :
    r ∈ s.finished ∨ ∃ w ∈ s.workers, r.2 = w.id := by
  cases hm with
  | worker hw hm =>
    cases hm with
    | finish =>
      rcases List.mem_append.mp hr with hr | hr
      · exact .inl hr
      · rw [List.mem_singleton.mp hr]
        exact .inr ⟨_, List.mem_of_getElem? hw, rfl⟩
    | _ => exact .inl hr
  | call =>
    obtain ⟨_, _, _, hc⟩ := callStep_frame s _
    rw [hc] at hr
    exact .inl hr
  | owner hm =>
    rw [hm.frame.2.2.1] at hr
    exact .inl hr
  | _ => exact .inl hr

theorem PoolMove.handed_eq (hm : PoolMove s a s') (hserve : a.serves = true) :
    s'.handed = s.handed := by
  cases hm with
  | worker _ hm => exact hm.frame.2.2.2.1
  | owner hm => exact hm.frame.2.2.2.1
  | handOut | handNothing | call => cases hserve
  | _ => rfl

theorem Serving.step_other (hm : PoolMove s a s') (hown : a ≠ .owner) (hserve : a.serves = true)
    (h : Serving n s) : Serving n s' := by
  have hcall : a.isCall = false := by cases a <;> first | rfl | cases hserve
  obtain ⟨hthreads, -, hdone, hstop, hat⟩ := hm.shared hown hcall
  have hlen := hm.length_eq hown
  refine ⟨hdone.trans h.isDone, hstop.trans h.isStop, (hm.dropped_eq hown).trans h.dropped,
    (hm.handed_eq hserve).trans h.handed, fun v hv => ?_, fun v hv => ?_, fun r hr => ?_,
    ?_, ?_, ?_⟩
  · obtain ⟨j, hj⟩ := List.mem_iff_getElem?.mp hv
    obtain ⟨w, hw, hflag⟩ := hm.flag_eq hown hj
    exact hflag.trans (h.flags w (List.mem_of_getElem? hw))
  · obtain ⟨j, hj⟩ := List.mem_iff_getElem?.mp hv
    rcases hm.evolves hj with ⟨w, hw, he⟩ | ⟨-, rfl, -⟩
    · rw [he.id_eq]
      exact h.ids w (List.mem_of_getElem? hw)
    · simp [setThread] at hthreads
  · rcases hm.finished_subset hr with hr | ⟨w, hw, hid⟩
    · exact h.callers r hr
    · rw [hid]
      exact h.ids w hw
  · rw [hthreads, hlen, h.length_eq]
  · rw [hlen]
    exact h.length_le
  · rw [hat, hlen]
    exact h.owner

/-- The owner starts the threads of the constructor's `resize`, and does nothing else. -/
theorem Serving.step_owner (hm : OwnerMove s s') (h : Serving n s) : Serving n s' := by
  have hgrow : s.owner = .growing n := h.owner.resolve_right fun ho => hm.not_idle ho.1
  have hcases : s.threads.length < n ∧ s' = s.setThread ∨
      n ≤ s.threads.length ∧ s' = { s with owner := .idle } := by
    cases hm <;> simp_all
  have hlen := h.length_eq
  rcases hcases with ⟨hlt, rfl⟩ | ⟨hle, rfl⟩
  · refine ⟨h.isDone, h.isStop, h.dropped, h.handed, fun w hw => ?_, fun w hw => ?_, h.callers,
      ?_, ?_, .inl hgrow⟩
    · rcases List.mem_append.mp hw with hw | hw
      · exact h.flags w hw
      · rw [List.mem_singleton.mp hw]
    · rcases List.mem_append.mp hw with hw | hw
      · exact h.ids w hw
      · rw [List.mem_singleton.mp hw]
        exact hlt
    · simp only [setThread, List.length_append, List.length_singleton]
      omega
    · simp only [setThread, List.length_append, List.length_singleton]
      omega
  · have hn : s.workers.length = n := Nat.le_antisymm h.length_le (hlen ▸ hle)
    exact ⟨h.isDone, h.isStop, h.dropped, h.handed, h.flags, h.ids, h.callers, hlen, h.length_le,
      .inr ⟨rfl, hn⟩⟩

theorem Serving.step (hm : PoolMove s a s') (hserve : a.serves = true) (h : Serving n s) :
    Serving n s' := by
  by_cases hown : a = .owner
  · subst hown
    cases hm with
    | owner hm => exact h.step_owner hm
  · exact h.step_other hm hown hserve

/-- The constructor enters `resize` on the empty pool. -/
theorem Serving.of_call (hrun : ThreadPool.step ThreadPool.init (.call (.resize n)) = some s) :
    Serving n s := by
  obtain rfl : { ThreadPool.init with owner := .growing n } = s := Option.some.inj hrun
  exact ⟨rfl, rfl, rfl, rfl, (fun _ hw => nomatch hw), (fun _ hw => nomatch hw),
    (fun _ hr => nomatch hr), rfl, Nat.zero_le n, .inl rfl⟩

/-- Workers that nobody tells to stop do not end. -/
theorem Serving.alive (hs : Orderly s) (h : Serving n s) : ∀ w ∈ s.workers, w.pc ≠ .exited := by
  intro w hw
  obtain ⟨j, hj⟩ := List.mem_iff_getElem?.mp hw
  exact (hs.working h.isDone j w hj (h.flags w hw)).1

/-- At rest, every function that was pushed has been run. -/
theorem Serving.finished_of_atRest (hs : Reached s) (h : Serving n s) (hn : 0 < n)
    (hrest : AtRest s) : (s.finished.map Prod.fst).Perm (List.range s.nextAddr) := by
  have hlen : s.workers.length = n := by
    rcases h.owner with ho | ho
    · exact absurd (hrest.owner.symm.trans ho) (fun hc => nomatch hc)
    · exact ho.2
  have hqueue : s.queue = [] := by
    refine hrest.queue.resolve_right fun hall => ?_
    obtain ⟨w, hw⟩ := List.exists_mem_of_length_pos (hlen ▸ hn)
    exact h.alive hs.orderly w hw (hall w hw)
  have hheld : ∀ f, pcTotal (Pc.holds f) s = 0 := fun f => by
    refine total_eq_zero.mpr fun w hw => ?_
    rcases hrest.workers w hw with hpc | hpc <;> rw [hpc] <;> rfl
  obtain ⟨order, placed, -⟩ := hs.accounted
  rw [hqueue, List.append_nil] at order
  refine List.perm_iff_count.mpr fun f => ?_
  have hf := placed f
  rw [hheld f, h.dropped, h.handed, order, List.count_nil] at hf
  omega

/-- With at least one thread, every accepted connection has been handled exactly once whenever no
thread of the pool can take a step. Without one, none is ever handled. -/
theorem listen_handles_every_connection {as : List PoolAction}
    (hserve : ∀ a ∈ as, a.serves = true)
    (hrun : run step init (.call (.resize n) :: as) = some s) :
    (0 < n → Stuck s → (s.finished.map Prod.fst).Perm (List.range s.nextAddr)) ∧
      (∀ r ∈ s.finished, r.2 < n) ∧ (n = 0 → s.queue = List.range s.nextAddr) := by
  have hs : Reached s := ⟨_, hrun⟩
  obtain ⟨t, hcall, hrun⟩ := run_cons.mp hrun
  have h : Serving n s :=
    run_invariant (fun _ _ _ ht ha hstep => ht.step (step_eq_some hstep) ha)
      (Serving.of_call hcall) hserve hrun
  refine ⟨fun hn hstuck => h.finished_of_atRest hs hn (hstuck.atRest hs), h.callers, ?_⟩
  rintro rfl
  have hworkers : s.workers = [] :=
    List.eq_nil_of_length_eq_zero (Nat.eq_zero_of_le_zero h.length_le)
  have hfin : s.finished = [] :=
    List.eq_nil_iff_forall_not_mem.mpr fun r hr => Nat.not_lt_zero _ (h.callers r hr)
  obtain ⟨order, placed, -⟩ := hs.accounted
  have hremoved : s.removed = [] := by
    refine List.eq_nil_iff_forall_not_mem.mpr fun f hf => ?_
    have hcount := placed f
    rw [hfin, h.dropped, h.handed, pcTotal, hworkers] at hcount
    exact List.count_eq_zero.mp hcount hf
  rwa [hremoved, List.nil_append] at order

/-- Where every worker sleeps or has ended and no push and no call is in progress, no thread of the
pool can take a step. -/
theorem stuck_of_asleep (hworkers : ∀ w ∈ s.workers, w.pc = .asleep ∨ w.pc = .exited)
    (hpushing : s.pushing = []) (howner : s.owner = .idle) : Stuck s := by
  intro a ha
  cases hstep : s.step a with
  | none => rfl
  | some t =>
    cases step_eq_some hstep with
    | wakeOne hf | wakeNone hf =>
      rw [hpushing] at hf
      cases hf
    | worker hw hm =>
      rcases hworkers _ (List.mem_of_getElem? hw) with hpc | hpc <;> cases hm <;> simp_all
    | owner hm => exact absurd howner hm.not_idle
    | push | handOut | handNothing | spurious | call => cases ha

namespace Sample

/-- One thread falls asleep, a connection is accepted and handled, and the thread sleeps again. -/
def oneConnection : List PoolAction :=
  [.owner, .owner] ++ fallAsleep 0 ++ [.push, .notifyOne 0 (some 0)] ++
    List.replicate 10 (.worker 0)

def served : ThreadPool := (run step init (.call (.resize 1) :: oneConnection)).getD init

end Sample

theorem listen_handles_every_connection_sample :
    (Sample.served.finished.map Prod.fst).Perm (List.range Sample.served.nextAddr) ∧
      Sample.served.nextAddr = 1 := by
  have hrun : run step init (.call (.resize 1) :: Sample.oneConnection) = some Sample.served := by
    decide
  have hstuck : Stuck Sample.served := stuck_of_asleep (by decide) (by decide) (by decide)
  exact ⟨(listen_handles_every_connection (by decide) hrun).1 Nat.one_pos hstuck, by decide⟩

end ThreadPool

end LruCache
