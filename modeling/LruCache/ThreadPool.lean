import LruCache.Lib.Interleaving
import LruCache.Lib.NodeList

/-!
# The thread pool

`ctpl::thread_pool`, on which `network_manager` runs one `handle_connection` for each connection
that `listen` accepts. The model is the pool with all its threads: an action is one step of one
thread that the others can observe, and the scheduler chooses the next action freely.

* A worker is the function that `set_thread` starts, with its program counter (`Pc`) and its flag.
  The reads of `cv.wait`'s predicate are steps of their own: another thread may write between them.
* `push` is two steps, `q.push` and the notification. The functions whose second step is still to
  come are listed in `pushing`.
* `resize`, `stop` and `clear_queue` are called by one owner, as the source asks for, and their
  loops run step by step (`OwnerPc`) among the steps of the other threads. The destructor is
  `stop(true)`.
* The mutex belongs to the worker whose program counter is inside the critical section. A critical
  section with a single effect (the two notifications) is one step, enabled when the mutex is free.
* A function is the address that `push` allocates for it. `removed`, `finished`, `dropped`,
  `handed` and `detached` record what has happened and are never read by the code.

Results, for every schedule:
1. `function_in_one_place`: functions leave the queue in the order they were pushed, and each one is
   queued, held by one worker, run, deleted or handed out, and only one of these.
2. `no_lost_wakeup`: as long as a worker sleeps, every queued function is still being pushed or has
   an awake worker on its way to the queue.
3. `mutex_exclusive`: at most one worker is in the critical section, so that taking the mutex when
   nobody holds it models `std::mutex`.
4. `nIdle_eq`: `n_idle` is the number of workers between entering and leaving the wait.
-/

namespace LruCache

open Interleaving

/-- Where a worker stands. -/
inductive Pc
  /-- Before `isPop = q.pop(_f)`, outside the wait. -/
  | popping
  /-- In `(*_f)(i)`. -/
  | running (f : Addr)
  /-- Before `if (_flag)`. -/
  | checkFlag
  /-- Before `lock(mutex)`. -/
  | wantLock
  /-- In the predicate of `cv.wait`, before `q.pop(_f)`. -/
  | waitPop
  /-- In the predicate, with nothing popped, before the read of `isDone`. -/
  | waitDone
  /-- In the predicate, before the read of `_flag`. -/
  | waitFlag
  /-- Blocked in `cv.wait`, the mutex released. -/
  | asleep
  /-- Unblocked, before `cv.wait` takes the mutex again. -/
  | woken
  /-- Behind `cv.wait`, with what the predicate has popped. -/
  | leave (f : Option Addr)
  | exited
deriving DecidableEq, Repr

structure Worker where
  /-- The argument the functions are called with. -/
  id : Nat
  pc : Pc
  flag : Bool
deriving DecidableEq, Repr

/-- Where the owner of the pool stands. -/
inductive OwnerPc
  /-- In none of the pool's methods. -/
  | idle
  /-- In the loop of `resize` that starts threads. -/
  | growing (nThreads : Nat)
  /-- In the loop of `resize` that detaches threads, before the thread below `i`. -/
  | shrinking (i nThreads : Nat)
  /-- In `resize`, before `notify_all`. -/
  | shrunk (nThreads : Nat)
  /-- In `resize`, before the vectors are cut. -/
  | cutting (nThreads : Nat)
  /-- In the loop of `stop(false)` that raises the flags. -/
  | raising (i : Nat)
  /-- In `stop`, before `notify_all`. -/
  | notifying
  /-- In the loop of `stop` that joins the threads. -/
  | joining (i : Nat)
  /-- In `stop`, before the vectors are cleared. -/
  | closing
  /-- In the loop of `clear_queue`, and where its caller goes on. -/
  | clearing (next : OwnerPc)
deriving DecidableEq, Repr

structure ThreadPool where
  /-- Every thread ever started, in that order. -/
  workers : List Worker
  /-- The vectors `threads` and `flags`: the positions of their threads in `workers`. -/
  threads : List Nat
  queue : List Addr
  isDone : Bool
  isStop : Bool
  nWaiting : Int
  /-- The address of the next function. -/
  nextAddr : Addr
  /-- The functions whose `push` has not reached `notify_one`. -/
  pushing : List Addr
  owner : OwnerPc
  /-- The functions popped from the queue. -/
  removed : List Addr
  /-- The functions that have been run, with the argument they were called with. -/
  finished : List (Addr × Nat)
  /-- The functions that `clear_queue` has deleted. -/
  dropped : List Addr
  /-- The functions that `pop` has returned. -/
  handed : List Addr
  /-- The threads that `resize` has detached. -/
  detached : List Nat
deriving DecidableEq, Repr

/-- A call of the owner. The destructor is `stop true`. -/
inductive PoolCall
  | resize (nThreads : Nat)
  | stop (isWait : Bool)
  | clearQueue
deriving DecidableEq, Repr

inductive PoolAction
  /-- `push`, up to `q.push(_f)`. -/
  | push
  /-- The rest of the `push` of `f`: `notify_one` unblocks `woken`, nobody if no worker sleeps. -/
  | notifyOne (f : Addr) (woken : Option Nat)
  | pop
  /-- One step of a worker. -/
  | worker (i : Nat)
  /-- A worker is unblocked without a notification. -/
  | spurious (i : Nat)
  | call (c : PoolCall)
  /-- One step of the owner inside its call. -/
  | owner
deriving DecidableEq, Repr

/-- The pool's own work: the steps of the workers, of the pushes and calls in progress. -/
def PoolAction.internal : PoolAction → Bool
  | .notifyOne .. | .worker _ | .owner => true
  | .push | .pop | .spurious _ | .call _ => false

def PoolAction.isCall : PoolAction → Bool
  | .call _ => true
  | _ => false

/-- The worker is in the critical section of the pool's mutex. -/
def Pc.holdsMutex : Pc → Bool
  | .waitPop | .waitDone | .waitFlag | .leave _ => true
  | _ => false

/-- The function the worker has popped and not yet run to its end. -/
def Pc.held : Pc → Option Addr
  | .running f => some f
  | .leave f => f
  | _ => none

/-- 1 for a worker that holds `f`. -/
def Pc.holds (f : Addr) (pc : Pc) : Nat := if pc.held = some f then 1 else 0

/-- 1 for a worker between `++nWaiting` and `--nWaiting`. -/
def Pc.waits : Pc → Nat
  | .waitPop | .waitDone | .waitFlag | .asleep | .woken | .leave _ => 1
  | _ => 0

/-- 1 for a worker that sleeps, or will unless it is told to stop. -/
def Pc.dozes : Pc → Nat
  | .waitDone | .waitFlag | .asleep => 1
  | _ => 0

/-- 1 for a worker in the wait whose next step but the mutex is a pop. -/
def Pc.seeks : Pc → Nat
  | .waitPop | .woken => 1
  | _ => 0

def Worker.wake (w : Worker) : Worker :=
  if w.pc = .asleep then { w with pc := .woken } else w

namespace ThreadPool

/-- `thread_pool()`. The constructor with a number of threads goes on with `resize`. -/
def init : ThreadPool :=
  { workers := [], threads := [], queue := [], isDone := false, isStop := false, nWaiting := 0
    nextAddr := 0, pushing := [], owner := .idle, removed := [], finished := [], dropped := []
    handed := [], detached := [] }

/-- `n_idle()`. -/
def nIdle (s : ThreadPool) : Int := s.nWaiting

def mutexFree (s : ThreadPool) : Bool := s.workers.all fun w => !w.pc.holdsMutex

def setPc (s : ThreadPool) (i : Nat) (w : Worker) (pc : Pc) : ThreadPool :=
  { s with workers := s.workers.set i { w with pc := pc } }

/-- `*flags[_] = true` for the thread `w` at `i`. -/
def raiseFlag (s : ThreadPool) (i : Nat) (w : Worker) : ThreadPool :=
  { s with workers := s.workers.set i { w with flag := true } }

/-- `cv.notify_all()`. -/
def notifyAll (s : ThreadPool) : ThreadPool := { s with workers := s.workers.map Worker.wake }

/-- The queue after its front `f` has been popped. -/
def popped (s : ThreadPool) (f : Addr) (rest : List Addr) : ThreadPool :=
  { s with queue := rest, removed := s.removed ++ [f] }

/-- One step of the function that `set_thread` starts. -/
def workerStep (s : ThreadPool) (i : Nat) : Option ThreadPool :=
  match s.workers[i]? with
  | none => none
  | some w =>
    match w.pc with
    | .popping =>
      match s.queue with
      | f :: rest => some ((s.popped f rest).setPc i w (.running f))
      | [] => some (s.setPc i w .wantLock)
    | .running f => some ({ s with finished := s.finished ++ [(f, w.id)] }.setPc i w .checkFlag)
    | .checkFlag => if w.flag then some (s.setPc i w .exited) else some (s.setPc i w .popping)
    | .wantLock =>
      if s.mutexFree then some ({ s with nWaiting := s.nWaiting + 1 }.setPc i w .waitPop) else none
    | .waitPop =>
      match s.queue with
      | f :: rest => some ((s.popped f rest).setPc i w (.leave (some f)))
      | [] => some (s.setPc i w .waitDone)
    | .waitDone =>
      if s.isDone then some (s.setPc i w (.leave none)) else some (s.setPc i w .waitFlag)
    | .waitFlag =>
      if w.flag then some (s.setPc i w (.leave none)) else some (s.setPc i w .asleep)
    | .asleep => none
    | .woken => if s.mutexFree then some (s.setPc i w .waitPop) else none
    | .leave (some f) => some ({ s with nWaiting := s.nWaiting - 1 }.setPc i w (.running f))
    | .leave none => some ({ s with nWaiting := s.nWaiting - 1 }.setPc i w .exited)
    | .exited => none

/-- `set_thread(threads.size())`, in the growing loop of `resize`. -/
def setThread (s : ThreadPool) : ThreadPool :=
  { s with
    workers := s.workers ++ [⟨s.threads.length, .popping, false⟩]
    threads := s.threads ++ [s.workers.length] }

/-- One step of the owner inside its call. -/
def ownerStep (s : ThreadPool) : Option ThreadPool :=
  match s.owner with
  | .idle => none
  | .growing n => if s.threads.length < n then some s.setThread else some { s with owner := .idle }
  | .shrinking i n =>
    if n < i then do
      let j ← s.threads[i - 1]?
      let w ← s.workers[j]?
      some { s.raiseFlag j w with owner := .shrinking (i - 1) n, detached := j :: s.detached }
    else some { s with owner := .shrunk n }
  | .shrunk n => if s.mutexFree then some { s.notifyAll with owner := .cutting n } else none
  | .cutting n => some { s with threads := s.threads.take n, owner := .idle }
  | .raising i =>
    if i < s.threads.length then do
      let j ← s.threads[i]?
      let w ← s.workers[j]?
      some { s.raiseFlag j w with owner := .raising (i + 1) }
    else some { s with owner := .clearing .notifying }
  | .notifying => if s.mutexFree then some { s.notifyAll with owner := .joining 0 } else none
  | .joining i =>
    if i < s.threads.length then do
      let j ← s.threads[i]?
      let w ← s.workers[j]?
      if w.pc = .exited then some { s with owner := .joining (i + 1) } else none
    else some { s with owner := .clearing .closing }
  | .closing => some { s with threads := [], owner := .idle }
  | .clearing next =>
    match s.queue with
    | f :: rest => some { s.popped f rest with dropped := s.dropped ++ [f] }
    | [] => some { s with owner := next }

/-- The entry of a call, with the tests that the owner alone can influence. -/
def callStep (s : ThreadPool) : PoolCall → ThreadPool
  | .resize n =>
    if !s.isStop && !s.isDone then
      if s.threads.length ≤ n then { s with owner := .growing n }
      else { s with owner := .shrinking s.threads.length n }
    else s
  | .stop false =>
    if s.isStop then s else { s with isStop := true, owner := .raising 0 }
  | .stop true =>
    if s.isDone || s.isStop then s else { s with isDone := true, owner := .notifying }
  | .clearQueue => { s with owner := .clearing .idle }

def step (s : ThreadPool) : PoolAction → Option ThreadPool
  | .push =>
    some { s with
      queue := s.queue ++ [s.nextAddr]
      pushing := s.pushing ++ [s.nextAddr]
      nextAddr := s.nextAddr + 1 }
  | .notifyOne f (some i) =>
    match s.workers[i]? with
    | none => none
    | some w =>
      if f ∈ s.pushing ∧ s.mutexFree ∧ w.pc = .asleep then
        some ({ s with pushing := s.pushing.erase f }.setPc i w .woken)
      else none
  | .notifyOne f none =>
    if f ∈ s.pushing ∧ s.mutexFree ∧ ∀ w ∈ s.workers, w.pc ≠ .asleep then
      some { s with pushing := s.pushing.erase f }
    else none
  | .pop =>
    match s.queue with
    | f :: rest => some { s.popped f rest with handed := s.handed ++ [f] }
    | [] => some s
  | .worker i => s.workerStep i
  | .spurious i =>
    match s.workers[i]? with
    | none => none
    | some w => if w.pc = .asleep then some (s.setPc i w .woken) else none
  | .call c => if s.owner = .idle then some (s.callStep c) else none
  | .owner => s.ownerStep

/-- Some schedule from the construction of the pool leads to the state. -/
def Reached (s : ThreadPool) : Prop := Reachable step init s

namespace Sample

/-- The steps of a new worker that finds the queue empty, up to its sleep. -/
def fallAsleep (i : Nat) : List PoolAction := List.replicate 5 (.worker i)

/-- Two workers fall asleep, a push wakes the first one, which pops the function, and a second push
has queued its function. -/
def schedule : List PoolAction :=
  [.call (.resize 2), .owner, .owner, .owner] ++ fallAsleep 0 ++ fallAsleep 1 ++
    [.push, .notifyOne 0 (some 0), .worker 0, .worker 0, .worker 0, .push]

def twoWorkers : ThreadPool := (run step init schedule).getD init

theorem twoWorkers_reached : Reached twoWorkers := ⟨schedule, by decide⟩

end Sample

/-! ## What a step can do -/

/-- The moves of a worker: the pool apart from the worker, and the worker's next program counter. -/
inductive WorkerMove (s : ThreadPool) (w : Worker) : ThreadPool → Pc → Prop
  | popTake {f : Addr} {rest : List Addr} : w.pc = .popping → s.queue = f :: rest →
      WorkerMove s w (s.popped f rest) (.running f)
  | popEmpty : w.pc = .popping → s.queue = [] → WorkerMove s w s .wantLock
  | finish {f : Addr} : w.pc = .running f →
      WorkerMove s w { s with finished := s.finished ++ [(f, w.id)] } .checkFlag
  | quit : w.pc = .checkFlag → w.flag = true → WorkerMove s w s .exited
  | again : w.pc = .checkFlag → w.flag = false → WorkerMove s w s .popping
  | lock : w.pc = .wantLock → s.mutexFree = true →
      WorkerMove s w { s with nWaiting := s.nWaiting + 1 } .waitPop
  | waitTake {f : Addr} {rest : List Addr} : w.pc = .waitPop → s.queue = f :: rest →
      WorkerMove s w (s.popped f rest) (.leave (some f))
  | waitEmpty : w.pc = .waitPop → s.queue = [] → WorkerMove s w s .waitDone
  | done : w.pc = .waitDone → s.isDone = true → WorkerMove s w s (.leave none)
  | notDone : w.pc = .waitDone → s.isDone = false → WorkerMove s w s .waitFlag
  | flagged : w.pc = .waitFlag → w.flag = true → WorkerMove s w s (.leave none)
  | sleep : w.pc = .waitFlag → w.flag = false → WorkerMove s w s .asleep
  | relock : w.pc = .woken → s.mutexFree = true → WorkerMove s w s .waitPop
  | resume {f : Addr} : w.pc = .leave (some f) →
      WorkerMove s w { s with nWaiting := s.nWaiting - 1 } (.running f)
  | exit : w.pc = .leave none →
      WorkerMove s w { s with nWaiting := s.nWaiting - 1 } .exited

variable {s s' s₁ : ThreadPool} {w : Worker} {i : Nat} {pc : Pc} {f : Addr}

theorem workerStep_eq_some (h : s.workerStep i = some s') :
    ∃ w s₁ pc, s.workers[i]? = some w ∧ WorkerMove s w s₁ pc ∧ s' = s₁.setPc i w pc := by
  unfold workerStep at h
  split at h
  · cases h
  next w hw =>
  refine ⟨w, ?_⟩
  split at h
  next hpc =>
    split at h
    next f rest hq => exact ⟨_, _, hw, .popTake hpc hq, (Option.some.inj h).symm⟩
    next hq => exact ⟨_, _, hw, .popEmpty hpc hq, (Option.some.inj h).symm⟩
  next f hpc => exact ⟨_, _, hw, .finish hpc, (Option.some.inj h).symm⟩
  next hpc =>
    split at h
    next hf => exact ⟨_, _, hw, .quit hpc hf, (Option.some.inj h).symm⟩
    next hf => exact ⟨_, _, hw, .again hpc (Bool.eq_false_iff.mpr hf), (Option.some.inj h).symm⟩
  next hpc =>
    split at h
    next hm => exact ⟨_, _, hw, .lock hpc hm, (Option.some.inj h).symm⟩
    next => cases h
  next hpc =>
    split at h
    next f rest hq => exact ⟨_, _, hw, .waitTake hpc hq, (Option.some.inj h).symm⟩
    next hq => exact ⟨_, _, hw, .waitEmpty hpc hq, (Option.some.inj h).symm⟩
  next hpc =>
    split at h
    next hd => exact ⟨_, _, hw, .done hpc hd, (Option.some.inj h).symm⟩
    next hd => exact ⟨_, _, hw, .notDone hpc (Bool.eq_false_iff.mpr hd), (Option.some.inj h).symm⟩
  next hpc =>
    split at h
    next hf => exact ⟨_, _, hw, .flagged hpc hf, (Option.some.inj h).symm⟩
    next hf => exact ⟨_, _, hw, .sleep hpc (Bool.eq_false_iff.mpr hf), (Option.some.inj h).symm⟩
  next => cases h
  next hpc =>
    split at h
    next hm => exact ⟨_, _, hw, .relock hpc hm, (Option.some.inj h).symm⟩
    next => cases h
  next f hpc => exact ⟨_, _, hw, .resume hpc, (Option.some.inj h).symm⟩
  next hpc => exact ⟨_, _, hw, .exit hpc, (Option.some.inj h).symm⟩
  next => cases h

/-- The moves of the owner inside a call. -/
inductive OwnerMove (s : ThreadPool) : ThreadPool → Prop
  | spawn {n : Nat} : s.owner = .growing n → s.threads.length < n → OwnerMove s s.setThread
  | grown {n : Nat} : s.owner = .growing n → n ≤ s.threads.length →
      OwnerMove s { s with owner := .idle }
  | detach {i n j : Nat} {w : Worker} : s.owner = .shrinking i n → n < i →
      s.threads[i - 1]? = some j → s.workers[j]? = some w →
      OwnerMove s
        { s.raiseFlag j w with owner := .shrinking (i - 1) n, detached := j :: s.detached }
  | detached {i n : Nat} : s.owner = .shrinking i n → i ≤ n →
      OwnerMove s { s with owner := .shrunk n }
  | notifyShrunk {n : Nat} : s.owner = .shrunk n → s.mutexFree = true →
      OwnerMove s { s.notifyAll with owner := .cutting n }
  | cut {n : Nat} : s.owner = .cutting n →
      OwnerMove s { s with threads := s.threads.take n, owner := .idle }
  | raise {i j : Nat} {w : Worker} : s.owner = .raising i → s.threads[i]? = some j →
      s.workers[j]? = some w → OwnerMove s { s.raiseFlag j w with owner := .raising (i + 1) }
  | raised {i : Nat} : s.owner = .raising i → s.threads.length ≤ i →
      OwnerMove s { s with owner := .clearing .notifying }
  | notify : s.owner = .notifying → s.mutexFree = true →
      OwnerMove s { s.notifyAll with owner := .joining 0 }
  | join {i j : Nat} {w : Worker} : s.owner = .joining i → s.threads[i]? = some j →
      s.workers[j]? = some w → w.pc = .exited → OwnerMove s { s with owner := .joining (i + 1) }
  | joined {i : Nat} : s.owner = .joining i → s.threads.length ≤ i →
      OwnerMove s { s with owner := .clearing .closing }
  | close : s.owner = .closing → OwnerMove s { s with threads := [], owner := .idle }
  | drop {next : OwnerPc} {f : Addr} {rest : List Addr} : s.owner = .clearing next →
      s.queue = f :: rest → OwnerMove s { s.popped f rest with dropped := s.dropped ++ [f] }
  | cleared {next : OwnerPc} : s.owner = .clearing next → s.queue = [] →
      OwnerMove s { s with owner := next }

theorem ownerStep_eq_some (h : s.ownerStep = some s') : OwnerMove s s' := by
  unfold ownerStep at h
  split at h
  next => cases h
  next n ho =>
    split at h
    next hn => exact Option.some.inj h ▸ .spawn ho hn
    next hn => exact Option.some.inj h ▸ .grown ho (Nat.le_of_not_lt hn)
  next i n ho =>
    split at h
    next hn =>
      obtain ⟨j, hj, h⟩ := Option.bind_eq_some_iff.mp h
      obtain ⟨w, hw, h⟩ := Option.bind_eq_some_iff.mp h
      exact Option.some.inj h ▸ .detach ho hn hj hw
    next hn => exact Option.some.inj h ▸ .detached ho (Nat.le_of_not_lt hn)
  next n ho =>
    split at h
    next hm => exact Option.some.inj h ▸ .notifyShrunk ho hm
    next => cases h
  next n ho => exact Option.some.inj h ▸ .cut ho
  next i ho =>
    split at h
    next hi =>
      obtain ⟨j, hj, h⟩ := Option.bind_eq_some_iff.mp h
      obtain ⟨w, hw, h⟩ := Option.bind_eq_some_iff.mp h
      exact Option.some.inj h ▸ .raise ho hj hw
    next hi => exact Option.some.inj h ▸ .raised ho (Nat.le_of_not_lt hi)
  next ho =>
    split at h
    next hm => exact Option.some.inj h ▸ .notify ho hm
    next => cases h
  next i ho =>
    split at h
    next hi =>
      obtain ⟨j, hj, h⟩ := Option.bind_eq_some_iff.mp h
      obtain ⟨w, hw, h⟩ := Option.bind_eq_some_iff.mp h
      split at h
      next hx => exact Option.some.inj h ▸ .join ho hj hw hx
      next => cases h
    next hi => exact Option.some.inj h ▸ .joined ho (Nat.le_of_not_lt hi)
  next ho => exact Option.some.inj h ▸ .close ho
  next next ho =>
    split at h
    next f rest hq => exact Option.some.inj h ▸ .drop ho hq
    next hq => exact Option.some.inj h ▸ .cleared ho hq

/-- The moves of the pool, with what enables them. -/
inductive PoolMove (s : ThreadPool) : PoolAction → ThreadPool → Prop
  | push : PoolMove s .push
      { s with
        queue := s.queue ++ [s.nextAddr]
        pushing := s.pushing ++ [s.nextAddr]
        nextAddr := s.nextAddr + 1 }
  | wakeOne {f : Addr} {i : Nat} {w : Worker} : f ∈ s.pushing → s.mutexFree = true →
      s.workers[i]? = some w → w.pc = .asleep →
      PoolMove s (.notifyOne f (some i)) ({ s with pushing := s.pushing.erase f }.setPc i w .woken)
  | wakeNone {f : Addr} : f ∈ s.pushing → s.mutexFree = true →
      (∀ w ∈ s.workers, w.pc ≠ .asleep) →
      PoolMove s (.notifyOne f none) { s with pushing := s.pushing.erase f }
  | handOut {f : Addr} {rest : List Addr} : s.queue = f :: rest →
      PoolMove s .pop { s.popped f rest with handed := s.handed ++ [f] }
  | handNothing : s.queue = [] → PoolMove s .pop s
  | worker {i : Nat} {w : Worker} {s₁ : ThreadPool} {pc : Pc} : s.workers[i]? = some w →
      WorkerMove s w s₁ pc → PoolMove s (.worker i) (s₁.setPc i w pc)
  | spurious {i : Nat} {w : Worker} : s.workers[i]? = some w → w.pc = .asleep →
      PoolMove s (.spurious i) (s.setPc i w .woken)
  | call {c : PoolCall} : s.owner = .idle → PoolMove s (.call c) (s.callStep c)
  | owner {s' : ThreadPool} : OwnerMove s s' → PoolMove s .owner s'

theorem step_eq_some {a : PoolAction} (h : s.step a = some s') : PoolMove s a s' := by
  cases a with
  | push => exact Option.some.inj h ▸ .push
  | notifyOne f woken =>
    cases woken with
    | some i =>
      simp only [step] at h
      split at h
      · cases h
      next w hw =>
      split at h
      next hc => exact Option.some.inj h ▸ .wakeOne hc.1 hc.2.1 hw hc.2.2
      next => cases h
    | none =>
      simp only [step] at h
      split at h
      next hc => exact Option.some.inj h ▸ .wakeNone hc.1 hc.2.1 hc.2.2
      next => cases h
  | pop =>
    simp only [step] at h
    split at h
    next f rest hq => exact Option.some.inj h ▸ .handOut hq
    next hq => exact Option.some.inj h ▸ .handNothing hq
  | worker i =>
    obtain ⟨w, s₁, pc, hw, hm, rfl⟩ := workerStep_eq_some h
    exact .worker hw hm
  | spurious i =>
    simp only [step] at h
    split at h
    · cases h
    next w hw =>
    split at h
    next hpc => exact Option.some.inj h ▸ .spurious hw hpc
    next => cases h
  | call c =>
    simp only [step] at h
    split at h
    next ho => exact Option.some.inj h ▸ .call ho
    next => cases h
  | owner => exact .owner (ownerStep_eq_some h)

/-! ## Counting the workers by their program counters -/

/-- The sum over the workers of a weight of the program counter. -/
def pcTotal (g : Pc → Nat) (s : ThreadPool) : Nat := total (fun w => g w.pc) s.workers

variable {g : Pc → Nat}

theorem pcTotal_setPc (g : Pc → Nat) (pc : Pc) (hw : s.workers[i]? = some w) :
    pcTotal g (s.setPc i w pc) + g w.pc = pcTotal g s + g pc :=
  total_set (f := fun w : Worker => g w.pc) hw

theorem pcTotal_woken (hw : s.workers[i]? = some w) (hpc : w.pc = .asleep)
    (hg : g .woken = g .asleep) : pcTotal g (s.setPc i w .woken) = pcTotal g s := by
  have hset := pcTotal_setPc g .woken hw
  rw [hpc, hg] at hset
  exact Nat.add_right_cancel hset

theorem pcTotal_raiseFlag (hw : s.workers[i]? = some w) :
    pcTotal g (s.raiseFlag i w) = pcTotal g s :=
  Nat.add_right_cancel (total_set (f := fun w => g w.pc) hw)

theorem pcTotal_setThread : pcTotal g s.setThread = pcTotal g s + g .popping :=
  total_append

theorem pcTotal_notifyAll (hg : g .woken = g .asleep) : pcTotal g s.notifyAll = pcTotal g s := by
  have hwake : (fun w : Worker => g w.wake.pc) = fun w => g w.pc := by
    funext w
    unfold Worker.wake
    split
    next h => rw [h, hg]
    next => rfl
  exact total_map.trans (by rw [hwake]; rfl)

theorem pcTotal_pos (hw : w ∈ s.workers) (h : 0 < g w.pc) : 0 < pcTotal g s :=
  Nat.lt_of_lt_of_le h (le_total (f := fun w => g w.pc) hw)

theorem exists_of_pcTotal_pos (h : 0 < pcTotal g s) : ∃ w ∈ s.workers, 0 < g w.pc := by
  by_contra hnone
  refine Nat.lt_irrefl 0 (Nat.lt_of_lt_of_eq h (total_eq_zero.mpr fun w hw => ?_))
  exact Nat.eq_zero_of_not_pos fun hpos => hnone ⟨w, hw, hpos⟩

theorem mutexFree_iff : s.mutexFree = true ↔ ∀ w ∈ s.workers, w.pc.holdsMutex = false := by
  simp [mutexFree, List.all_eq_true]

theorem WorkerMove.workers_eq (hm : WorkerMove s w s₁ pc) : s₁.workers = s.workers := by
  cases hm <;> rfl

theorem WorkerMove.pcTotal_eq (hm : WorkerMove s w s₁ pc) (hw : s.workers[i]? = some w)
    (g : Pc → Nat) : pcTotal g (s₁.setPc i w pc) + g w.pc = pcTotal g s + g pc := by
  have hset := pcTotal_setPc g pc (hm.workers_eq ▸ hw)
  unfold pcTotal at hset ⊢
  rwa [hm.workers_eq] at hset

/-! ## Every function is in one place -/

/-- What has been pushed, and where it is. -/
structure Accounted (s : ThreadPool) : Prop where
  order : s.removed ++ s.queue = List.range s.nextAddr
  placed : ∀ f, s.removed.count f =
    pcTotal (Pc.holds f) s + (s.finished.map Prod.fst).count f + s.dropped.count f +
      s.handed.count f
  waiting : s.nWaiting = pcTotal Pc.waits s

theorem Accounted.init : Accounted init := ⟨rfl, fun _ => rfl, rfl⟩

theorem popped_order {rest : List Addr} (hq : s.queue = f :: rest) :
    (s.popped f rest).removed ++ (s.popped f rest).queue = s.removed ++ s.queue := by
  simp only [popped, hq, List.append_assoc, List.cons_append, List.nil_append]

/-- A function a worker pops is held until the worker has run it. -/
theorem WorkerMove.conserves (hm : WorkerMove s w s₁ pc) (f : Addr) :
    s₁.removed.count f + w.pc.holds f + (s.finished.map Prod.fst).count f =
      s.removed.count f + pc.holds f + (s₁.finished.map Prod.fst).count f := by
  cases hm <;> simp_all [popped, Pc.holds, Pc.held, List.count_cons]; omega

theorem WorkerMove.waiting (hm : WorkerMove s w s₁ pc) :
    s₁.nWaiting + w.pc.waits = s.nWaiting + pc.waits := by
  cases hm <;> simp_all [popped, Pc.waits]

theorem WorkerMove.frame (hm : WorkerMove s w s₁ pc) :
    s₁.removed ++ s₁.queue = s.removed ++ s.queue ∧ s₁.nextAddr = s.nextAddr ∧
      s₁.dropped = s.dropped ∧ s₁.handed = s.handed ∧ s₁.pushing = s.pushing := by
  cases hm with
  | popTake _ hq | waitTake _ hq => exact ⟨popped_order hq, rfl, rfl, rfl, rfl⟩
  | _ => exact ⟨rfl, rfl, rfl, rfl, rfl⟩

theorem OwnerMove.frame (hm : OwnerMove s s') :
    s'.removed ++ s'.queue = s.removed ++ s.queue ∧ s'.nextAddr = s.nextAddr ∧
      s'.finished = s.finished ∧ s'.handed = s.handed ∧ s'.pushing = s.pushing ∧
      s'.nWaiting = s.nWaiting := by
  cases hm with
  | drop _ hq => exact ⟨popped_order hq, rfl, rfl, rfl, rfl, rfl⟩
  | _ => exact ⟨rfl, rfl, rfl, rfl, rfl, rfl⟩

theorem OwnerMove.conserves (hm : OwnerMove s s') (f : Addr) :
    s'.removed.count f + s.dropped.count f = s.removed.count f + s'.dropped.count f := by
  cases hm with
  | drop _ hq =>
    simp only [popped, List.count_append]
    omega
  | _ => rfl

/-- The owner only unblocks workers and starts new ones. -/
theorem OwnerMove.pcTotal_eq (hm : OwnerMove s s') (hg : g .woken = g .asleep)
    (hp : g .popping = 0) : pcTotal g s' = pcTotal g s := by
  cases hm with
  | spawn => rw [pcTotal_setThread, hp, Nat.add_zero]
  | detach _ _ _ hw | raise _ _ hw => exact pcTotal_raiseFlag hw
  | notifyShrunk | notify => exact pcTotal_notifyAll hg
  | _ => rfl

theorem callStep_frame (s : ThreadPool) (c : PoolCall) :
    ∃ isDone isStop owner,
      s.callStep c = { s with isDone := isDone, isStop := isStop, owner := owner } := by
  unfold callStep
  split
  · split
    · split <;> exact ⟨_, _, _, rfl⟩
    · exact ⟨_, _, _, rfl⟩
  · split <;> exact ⟨_, _, _, rfl⟩
  · split <;> exact ⟨_, _, _, rfl⟩
  · exact ⟨_, _, _, rfl⟩

theorem Accounted.woken (h : Accounted s) (hw : s.workers[i]? = some w) (hpc : w.pc = .asleep) :
    Accounted (s.setPc i w .woken) := by
  refine ⟨h.order, fun f => ?_, ?_⟩
  · rw [pcTotal_woken hw hpc rfl]
    exact h.placed f
  · rw [pcTotal_woken hw hpc rfl]
    exact h.waiting

theorem Accounted.step {a : PoolAction} (hm : PoolMove s a s') (h : Accounted s) :
    Accounted s' := by
  obtain ⟨order, placed, waiting⟩ := h
  cases hm with
  | push =>
    refine ⟨?_, placed, waiting⟩
    rw [List.range_succ, ← order, List.append_assoc]
  | @wakeOne f i w _ _ hw hpc =>
    exact Accounted.woken (s := { s with pushing := s.pushing.erase f })
      ⟨order, placed, waiting⟩ hw hpc
  | spurious hw hpc => exact Accounted.woken ⟨order, placed, waiting⟩ hw hpc
  | wakeNone => exact ⟨order, placed, waiting⟩
  | handOut hq =>
    refine ⟨(popped_order hq).trans order, fun f => ?_, waiting⟩
    have hf := placed f
    simp only [popped, List.count_append, pcTotal] at hf ⊢
    omega
  | handNothing => exact ⟨order, placed, waiting⟩
  | @worker i w s₁ pc hw hm =>
    obtain ⟨horder, hnext, hdropped, hhanded, -⟩ := hm.frame
    refine ⟨?_, fun f => ?_, ?_⟩
    · exact horder.trans (order.trans (congrArg List.range hnext.symm))
    · have hset := hm.pcTotal_eq hw (Pc.holds f)
      have hf := placed f
      have hc := hm.conserves f
      simp only [setPc, hdropped, hhanded] at hset ⊢
      omega
    · have hset := hm.pcTotal_eq hw Pc.waits
      have hw := hm.waiting
      simp only [setPc] at hset ⊢
      omega
  | call =>
    obtain ⟨_, _, _, hc⟩ := callStep_frame s _
    rw [hc]
    exact ⟨order, placed, waiting⟩
  | owner hm =>
    obtain ⟨horder, hnext, hfinished, hhanded, -, hwaiting⟩ := hm.frame
    refine ⟨?_, fun f => ?_, ?_⟩
    · exact horder.trans (order.trans (congrArg List.range hnext.symm))
    · have hf := placed f
      have hc := hm.conserves f
      rw [hm.pcTotal_eq rfl rfl, hfinished, hhanded]
      omega
    · rw [hm.pcTotal_eq rfl rfl, hwaiting, waiting]

theorem Reached.accounted (h : Reached s) : Accounted s :=
  h.invariant (fun _ _ _ hs hstep => hs.step (step_eq_some hstep)) .init

theorem nIdle_eq (h : Reached s) : s.nIdle = pcTotal Pc.waits s := h.accounted.waiting

theorem Reached.count_eq_one (h : Reached s) (hf : f < s.nextAddr) :
    s.queue.count f + pcTotal (Pc.holds f) s + (s.finished.map Prod.fst).count f +
      s.dropped.count f + s.handed.count f = 1 := by
  obtain ⟨order, placed, -⟩ := h.accounted
  have hone : (s.removed ++ s.queue).count f = 1 := by
    rw [order]
    exact List.count_eq_one_of_mem List.nodup_range (List.mem_range.mpr hf)
  rw [List.count_append, placed f] at hone
  omega

/-- Functions leave the queue in the order they were pushed. Each one is queued, held by a worker,
run, deleted by `clear_queue` or handed out by `pop`, once and in one of these ways only. -/
theorem function_in_one_place (h : Reached s) :
    s.removed ++ s.queue = List.range s.nextAddr ∧
      ∀ f < s.nextAddr,
        s.queue.count f + pcTotal (Pc.holds f) s + (s.finished.map Prod.fst).count f +
          s.dropped.count f + s.handed.count f = 1 :=
  ⟨h.accounted.order, fun _ => h.count_eq_one⟩

/-- Two workers, the first one running the first of two functions, the second one asleep although
a function has just been queued: its push has not notified yet. -/
theorem function_in_one_place_sample :
    Reached Sample.twoWorkers ∧ Sample.twoWorkers.queue = [1] ∧
      Sample.twoWorkers.queue.count 0 + pcTotal (Pc.holds 0) Sample.twoWorkers +
        (Sample.twoWorkers.finished.map Prod.fst).count 0 + Sample.twoWorkers.dropped.count 0 +
        Sample.twoWorkers.handed.count 0 = 1 :=
  ⟨Sample.twoWorkers_reached, by decide,
    (function_in_one_place Sample.twoWorkers_reached).2 0 (by decide)⟩

/-! ## The mutex -/

/-- 1 for a worker in the critical section. -/
def inside (pc : Pc) : Nat := pc.holdsMutex.toNat

theorem pcTotal_inside_eq_zero : pcTotal inside s = 0 ↔ s.mutexFree = true := by
  rw [mutexFree_iff]
  exact total_eq_zero.trans (forall₂_congr fun w _ => Bool.toNat_eq_zero)

theorem WorkerMove.inside (hm : WorkerMove s w s₁ pc) :
    s.mutexFree = true ∨ ThreadPool.inside pc ≤ ThreadPool.inside w.pc := by
  cases hm <;> simp_all [ThreadPool.inside, Pc.holdsMutex]

/-- At most one worker is in the critical section. -/
theorem mutex_exclusive (h : Reached s) : pcTotal inside s ≤ 1 := by
  have hinit : pcTotal inside ThreadPool.init ≤ 1 := Nat.zero_le 1
  refine h.invariant (I := fun s => pcTotal inside s ≤ 1) (fun s a s' hle hstep => ?_) hinit
  cases step_eq_some hstep with
  | @wakeOne f i w _ _ hw hpc =>
    exact Nat.le_trans (Nat.le_of_eq (pcTotal_woken (s := { s with pushing := _ }) hw hpc rfl)) hle
  | spurious hw hpc => exact Nat.le_trans (Nat.le_of_eq (pcTotal_woken hw hpc rfl)) hle
  | @worker i w s₁ pc hw hm =>
    have hset := hm.pcTotal_eq hw inside
    rcases hm.inside with hfree | hin
    · -- Whoever enters finds nobody inside.
      have hone : inside pc ≤ 1 := Bool.toNat_le _
      have hzero := pcTotal_inside_eq_zero.mpr hfree
      omega
    · omega
  | call =>
    obtain ⟨_, _, _, hc⟩ := callStep_frame s _
    rw [hc]
    exact hle
  | owner hm => exact Nat.le_trans (Nat.le_of_eq (hm.pcTotal_eq rfl rfl)) hle
  | _ => exact hle

/-! ## No wake-up is lost -/

/-- While a worker sleeps or is about to, the queue holds no more functions than there are pushes
that will notify and awake workers that will look. -/
def Wakeful (s : ThreadPool) : Prop :=
  0 < pcTotal Pc.dozes s → s.queue.length ≤ s.pushing.length + pcTotal Pc.seeks s

theorem Wakeful.init : Wakeful init := fun _ => Nat.le_refl 0

/-- Unless it leaves the queue empty, a worker's move makes nobody doze off, and takes an awake
worker away only with a function. -/
theorem WorkerMove.seeking (hm : WorkerMove s w s₁ pc) :
    s₁.queue = [] ∨ pc.dozes ≤ w.pc.dozes ∧
      s₁.queue.length + w.pc.seeks ≤ s.queue.length + pc.seeks := by
  cases hm <;> simp_all [popped, Pc.dozes, Pc.seeks]

/-- With the mutex free and nobody asleep, no worker dozes. -/
theorem pcTotal_dozes_eq_zero (hm : s.mutexFree = true) (ha : ∀ w ∈ s.workers, w.pc ≠ .asleep) :
    pcTotal Pc.dozes s = 0 := by
  refine total_eq_zero.mpr fun w hw => ?_
  have hfree := mutexFree_iff.mp hm w hw
  have hawake := ha w hw
  cases hpc : w.pc <;> simp_all [Pc.holdsMutex, Pc.dozes]

theorem wake_pc_ne_asleep (w : Worker) : w.wake.pc ≠ .asleep := by
  unfold Worker.wake
  split
  next => exact Pc.noConfusion
  next h => exact h

theorem wake_holdsMutex (w : Worker) : w.wake.pc.holdsMutex = w.pc.holdsMutex := by
  unfold Worker.wake
  split
  next h => rw [h]; rfl
  next => rfl

theorem notifyAll_dozes (hm : s.mutexFree = true) : pcTotal Pc.dozes s.notifyAll = 0 := by
  refine pcTotal_dozes_eq_zero (mutexFree_iff.mpr ?_) ?_
  · intro w hw
    obtain ⟨v, hv, rfl⟩ := List.mem_map.mp hw
    exact (wake_holdsMutex v).trans (mutexFree_iff.mp hm v hv)
  · intro w hw
    obtain ⟨v, hv, rfl⟩ := List.mem_map.mp hw
    exact wake_pc_ne_asleep v

theorem Wakeful.step {a : PoolAction} (hm : PoolMove s a s') (h : Wakeful s) : Wakeful s' := by
  intro hdoze
  cases hm with
  | push =>
    have hle := h hdoze
    simp only [List.length_append, List.length_cons, List.length_nil, pcTotal] at hle ⊢
    omega
  | @wakeOne f i w hf _ hw hpc =>
    -- The notification is spent on a worker that now looks at the queue.
    have hd : pcTotal Pc.dozes ({ s with pushing := s.pushing.erase f }.setPc i w .woken) +
        w.pc.dozes = pcTotal Pc.dozes s := pcTotal_setPc Pc.dozes .woken hw
    have hs : pcTotal Pc.seeks ({ s with pushing := s.pushing.erase f }.setPc i w .woken) +
        w.pc.seeks = pcTotal Pc.seeks s + 1 := pcTotal_setPc Pc.seeks .woken hw
    have hlen := List.length_erase_of_mem hf
    have hpos := List.length_pos_of_mem hf
    rw [hpc] at hd hs
    simp only [Pc.dozes, Pc.seeks] at hd hs
    have hle := h (by omega)
    simp only [setPc, pcTotal] at hs hle ⊢
    omega
  | wakeNone hf hfree hnone =>
    -- Nobody is there to be notified, and with the mutex free nobody is about to sleep.
    exact absurd hdoze (Nat.not_lt_of_le (Nat.le_of_eq (pcTotal_dozes_eq_zero hfree hnone)))
  | handOut hq =>
    have hle := h hdoze
    rw [hq, List.length_cons] at hle
    exact Nat.le_of_succ_le hle
  | handNothing => exact h hdoze
  | @worker i w s₁ pc hw hm =>
    have hd := hm.pcTotal_eq hw Pc.dozes
    have hs := hm.pcTotal_eq hw Pc.seeks
    obtain ⟨-, -, -, -, hpush⟩ := hm.frame
    rcases hm.seeking with hq | ⟨hdozes, hseeks⟩
    · simp only [setPc, hq, List.length_nil]
      exact Nat.zero_le _
    · have hle := h (by omega)
      simp only [setPc, hpush] at hs ⊢
      omega
  | spurious hw hpc =>
    have hd := pcTotal_setPc Pc.dozes .woken hw
    have hs := pcTotal_setPc Pc.seeks .woken hw
    rw [hpc] at hd hs
    simp only [Pc.dozes, Pc.seeks] at hd hs
    have hle := h (by omega)
    simp only [setPc, pcTotal] at hs hle ⊢
    omega
  | call =>
    obtain ⟨_, _, _, hc⟩ := callStep_frame s _
    rw [hc] at hdoze ⊢
    exact h hdoze
  | owner hm =>
    cases hm with
    | spawn =>
      rw [pcTotal_setThread] at hdoze ⊢
      exact h hdoze
    | detach _ _ _ hw | raise _ _ hw =>
      have hd := pcTotal_raiseFlag (g := Pc.dozes) hw
      have hs := pcTotal_raiseFlag (g := Pc.seeks) hw
      have hle := h (Nat.lt_of_lt_of_eq hdoze hd)
      exact Nat.le_trans hle (Nat.le_of_eq (congrArg _ hs.symm))
    | notifyShrunk _ hfree | notify _ hfree =>
      exact absurd hdoze (Nat.not_lt_of_le (Nat.le_of_eq (notifyAll_dozes hfree)))
    | drop _ hq =>
      have hle := h hdoze
      rw [hq, List.length_cons] at hle
      exact Nat.le_of_succ_le hle
    | _ => exact h hdoze

theorem Reached.wakeful (h : Reached s) : Wakeful s :=
  h.invariant (fun _ _ _ hs hstep => hs.step (step_eq_some hstep)) Wakeful.init

/-- As long as a worker sleeps, every queued function is accounted for by a push that has yet to
notify or by an awake worker that will look at the queue. -/
theorem no_lost_wakeup (h : Reached s) (hsleep : ∃ w ∈ s.workers, w.pc = .asleep) :
    s.queue.length ≤ s.pushing.length + pcTotal Pc.seeks s := by
  obtain ⟨w, hw, hpc⟩ := hsleep
  exact h.wakeful (pcTotal_pos hw (by rw [hpc]; exact Nat.one_pos))

theorem no_lost_wakeup_sample :
    Sample.twoWorkers.queue.length ≤
      Sample.twoWorkers.pushing.length + pcTotal Pc.seeks Sample.twoWorkers :=
  no_lost_wakeup Sample.twoWorkers_reached (by decide)

end ThreadPool

end LruCache
