import LruCache.ThreadPool

/-!
# The calls of the pool's owner

`resize`, `stop` and `clear_queue` run among the steps of the workers. This module follows each
worker through a step (`Evolves`) and derives from that the invariant the calls rest on (`Orderly`):
which threads the vector holds, who may have ended, which flags are up, and what the owner can rely
on at each place of its loops (`AtOwner`). `Reached.orderly` says that it holds in every state that
a schedule reaches.
-/

namespace LruCache

open Interleaving

/-- The worker has found the queue empty in the wait and will end, unless it goes to sleep. -/
def Pc.givesUp : Pc → Bool
  | .waitDone | .waitFlag | .leave none => true
  | _ => false

/-- `resize` is detaching the thread at `k`. -/
def OwnerPc.detaches (k : Nat) : OwnerPc → Prop
  | .shrinking i _ => i ≤ k
  | .shrunk n | .cutting n => n ≤ k
  | _ => False

namespace ThreadPool

variable {s s' s₁ : ThreadPool} {w v : Worker} {i j k : Nat} {pc : Pc} {f : Addr} {a : PoolAction}

/-! ## One worker through one step -/

/-- What a step of the pool can make of a worker. -/
inductive Evolves (s : ThreadPool) (w : Worker) : Worker → Prop
  | same : Evolves s w w
  | moved {s₁ : ThreadPool} {pc : Pc} : WorkerMove s w s₁ pc → Evolves s w { w with pc := pc }
  | woken : w.pc = .asleep → Evolves s w { w with pc := .woken }
  | raised : Evolves s w { w with flag := true }

theorem Evolves.id_eq (h : Evolves s w v) : v.id = w.id := by
  cases h <;> rfl

theorem Evolves.flag (h : Evolves s w v) (hw : w.flag = true) : v.flag = true := by
  cases h with
  | raised => rfl
  | _ => exact hw

theorem Evolves.exited (h : Evolves s w v) (hw : w.pc = .exited) : v.pc = .exited := by
  cases h with
  | same | raised => exact hw
  | moved hm => cases hm <;> simp_all
  | woken ha => rw [hw] at ha; cases ha

theorem evolves_wake (s : ThreadPool) (w : Worker) : Evolves s w w.wake := by
  unfold Worker.wake
  split
  next h => exact .woken h
  next => exact .same

/-- Every worker after a step is one from before, evolved, or the thread that the step starts. -/
theorem PoolMove.evolves (hm : PoolMove s a s') (hv : s'.workers[j]? = some v) :
    (∃ w, s.workers[j]? = some w ∧ Evolves s w v) ∨
      (v = ⟨s.threads.length, .popping, false⟩ ∧ s' = s.setThread ∧ ∃ n, s.owner = .growing n) := by
  cases hm with
  | push | wakeNone | handOut | handNothing => exact .inl ⟨v, hv, .same⟩
  | wakeOne _ _ hw hpc | spurious hw hpc =>
    exact .inl (exists_of_getElem?_set (fun _ => .same) hw (.woken hpc) hv)
  | @worker i w s₁ pc hw hm =>
    refine .inl (exists_of_getElem?_set (fun _ => .same) hw (.moved hm) ?_)
    rw [← hm.workers_eq]
    exact hv
  | call =>
    obtain ⟨_, _, _, hc⟩ := callStep_frame s _
    rw [hc] at hv
    exact .inl ⟨v, hv, .same⟩
  | owner hm =>
    cases hm with
    | spawn ho =>
      rcases getElem?_snoc_eq_some.mp hv with hv | ⟨-, hv⟩
      · exact .inl ⟨v, hv, .same⟩
      · exact .inr ⟨hv, rfl, _, ho⟩
    | detach _ _ _ hw | raise _ _ hw =>
      exact .inl (exists_of_getElem?_set (fun _ => .same) hw .raised hv)
    | notifyShrunk | notify =>
      simp only [notifyAll, List.getElem?_map] at hv
      obtain ⟨w, hw, rfl⟩ := Option.map_eq_some_iff.mp hv
      exact .inl ⟨w, hw, evolves_wake s w⟩
    | _ => exact .inl ⟨v, hv, .same⟩

theorem PoolMove.length_le (hm : PoolMove s a s') : s.workers.length ≤ s'.workers.length := by
  cases hm with
  | wakeOne | spurious => exact Nat.le_of_eq List.length_set.symm
  | worker _ hm =>
    simp only [setPc, List.length_set, hm.workers_eq]
    exact Nat.le_refl _
  | call =>
    obtain ⟨_, _, _, hc⟩ := callStep_frame s _
    rw [hc]
  | owner hm =>
    cases hm with
    | spawn =>
      simp only [setThread, List.length_append]
      omega
    | detach | raise => exact Nat.le_of_eq List.length_set.symm
    | notifyShrunk | notify => exact Nat.le_of_eq (List.length_map _).symm
    | _ => exact Nat.le_refl _
  | _ => exact Nat.le_refl _

/-! ## The invariant of the calls -/

/-- Every thread of the vector, with its position in it, satisfies `p`. -/
def EachThread (s : ThreadPool) (p : Nat → Nat → Worker → Prop) : Prop :=
  ∀ k j w, s.threads[k]? = some j → s.workers[j]? = some w → p k j w

/-- The worker has been told to stop and will not sleep again. -/
def Bound (isDone : Bool) (w : Worker) : Prop :=
  (isDone = true ∨ w.flag = true) ∧ w.pc ≠ .asleep ∧ (w.pc = .waitFlag → w.flag = true)

/-- What holds where the owner stands. -/
def AtOwner (s : ThreadPool) : OwnerPc → Prop
  | .idle | .growing _ => True
  | .shrinking i n =>
    n ≤ i ∧ i ≤ s.threads.length ∧ EachThread s fun k j _ => i ≤ k → j ∈ s.detached
  | .shrunk n | .cutting n => EachThread s fun k j _ => n ≤ k → j ∈ s.detached
  | .raising i => s.isStop = true ∧ EachThread s fun k _ w => k < i → w.flag = true
  | .notifying => s.isDone = true ∨ EachThread s fun _ _ w => w.flag = true
  | .joining i =>
    (EachThread s fun _ _ w => Bound s.isDone w) ∧ EachThread s fun k _ w => k < i → w.pc = .exited
  | .closing => EachThread s fun _ _ w => w.pc = .exited
  | .clearing next => (next = .idle ∨ next = .notifying ∨ next = .closing) ∧ AtOwner s next

/-- What is queued behind the back of a worker that gives up is still being pushed. -/
def Unseen (s : ThreadPool) : Prop :=
  ∀ w ∈ s.workers, w.pc.givesUp = true → ∀ f ∈ s.queue, f ∈ s.pushing

structure Orderly (s : ThreadPool) : Prop where
  /-- The threads of the vector exist, and are called by their position. -/
  ids : ∀ k j : Nat, s.threads[k]? = some j → ∃ w : Worker, s.workers[j]? = some w ∧ w.id = k
  /-- A worker ends only when it is told to. -/
  working : s.isDone = false → ∀ (j : Nat) (w : Worker), s.workers[j]? = some w → w.flag = false →
    w.pc ≠ .exited ∧ w.pc ≠ .leave none
  unseen : Unseen s
  /-- Short of `stop(false)`, a flag of the vector is up only while `resize` detaches its thread. -/
  flags : s.isStop = false → EachThread s fun k _ w => w.flag = true → s.owner.detaches k
  /-- A thread leaves the vector detached or ended. -/
  gone : ∀ (j : Nat) (w : Worker),
    s.workers[j]? = some w → j ∈ s.threads ∨ j ∈ s.detached ∨ w.pc = .exited
  owner : AtOwner s s.owner

theorem Orderly.init : Orderly init where
  ids := fun _ _ h => nomatch h
  working := fun _ _ _ h => nomatch h
  unseen := fun _ h => nomatch h
  flags := fun _ _ _ _ h => nomatch h
  gone := fun _ _ h => nomatch h
  owner := trivial

/-- A step that leaves the vector as it is: its threads evolve, and what has been decided stays. -/
structure Onward (s s' : ThreadPool) : Prop where
  threads : s'.threads = s.threads
  detached : ∀ j ∈ s.detached, j ∈ s'.detached
  isDone : s.isDone = true → s'.isDone = true
  isStop : s.isStop = true → s'.isStop = true
  length_le : s.workers.length ≤ s'.workers.length
  evolves : ∀ (j : Nat) (v : Worker), s'.workers[j]? = some v →
    ∃ w, s.workers[j]? = some w ∧ Evolves s w v

theorem Evolves.bound (h : Evolves s w v) (hb : Bound s.isDone w) : Bound s.isDone v := by
  obtain ⟨hstop, hawake, hflag⟩ := hb
  cases h with
  | same => exact ⟨hstop, hawake, hflag⟩
  | moved hm =>
    -- Only `waitDone` leads to `waitFlag`, with `isDone` down, and only `waitFlag` to the sleep.
    refine ⟨hstop, ?_, ?_⟩
    · cases hm <;> simp_all
    · cases hm <;> simp_all
  | woken ha => exact absurd ha hawake
  | raised => exact ⟨.inr rfl, hawake, fun _ => rfl⟩

/-- Only a worker that has been told to stop gets out of its loop. -/
theorem Evolves.working (h : Evolves s w v) (hd : s.isDone = false) (hv : v.flag = false)
    (hw : w.pc ≠ .exited ∧ w.pc ≠ .leave none) : v.pc ≠ .exited ∧ v.pc ≠ .leave none := by
  cases h with
  | same => exact hw
  | moved hm => cases hm <;> simp_all
  | woken => exact ⟨Pc.noConfusion, Pc.noConfusion⟩
  | raised => cases hv

theorem Evolves.givesUp (h : Evolves s w v) (hv : v.pc.givesUp = true) :
    s.queue = [] ∨ w.pc.givesUp = true := by
  cases h with
  | same | raised => exact .inr hv
  | moved hm => cases hm <;> simp_all [Pc.givesUp]
  | woken => cases hv

namespace Onward

theorem eachThread (hq : Onward s s') {p q : Nat → Nat → Worker → Prop} (hp : EachThread s p)
    (hev : ∀ k j w v, Evolves s w v → p k j w → q k j v) : EachThread s' q := by
  intro k j v hk hv
  obtain ⟨w, hw, he⟩ := hq.evolves j v hv
  exact hev k j w v he (hp k j w (hq.threads ▸ hk) hw)

/-- Where the owner stands, the other threads cannot undo what it relies on. -/
theorem atOwner (hq : Onward s s') {o : OwnerPc} (h : AtOwner s o) : AtOwner s' o := by
  induction o with
  | idle | growing => trivial
  | shrinking i n =>
    obtain ⟨hn, hi, hd⟩ := h
    exact ⟨hn, hq.threads ▸ hi,
      hq.eachThread hd fun k j _ _ _ hkj hik => hq.detached j (hkj hik)⟩
  | shrunk n | cutting n =>
    exact hq.eachThread h fun k j _ _ _ hkj hnk => hq.detached j (hkj hnk)
  | raising i =>
    exact ⟨hq.isStop h.1, hq.eachThread h.2 fun _ _ _ _ he hw hk => he.flag (hw hk)⟩
  | notifying =>
    rcases h with h | h
    · exact .inl (hq.isDone h)
    · exact .inr (hq.eachThread h fun _ _ _ _ he hw => he.flag hw)
  | joining i =>
    refine ⟨hq.eachThread h.1 fun _ _ w v he hw => ?_,
      hq.eachThread h.2 fun _ _ _ _ he hw hk => he.exited (hw hk)⟩
    obtain ⟨hstop, hawake, hflag⟩ := he.bound hw
    exact ⟨hstop.imp_left hq.isDone, hawake, hflag⟩
  | closing => exact hq.eachThread h fun _ _ _ _ he hw => he.exited hw
  | clearing next ih => exact ⟨h.1, ih h.2⟩

theorem unseen (hq : Onward s s') (h : Unseen s) (hqueue : ∀ f ∈ s'.queue, f ∈ s.queue)
    (hpushing : ∀ f ∈ s.pushing, f ∈ s'.pushing) : Unseen s' := by
  intro v hv hg f hf
  obtain ⟨j, hj⟩ := List.mem_iff_getElem?.mp hv
  obtain ⟨w, hw, he⟩ := hq.evolves j v hj
  rcases he.givesUp hg with hnil | hwg
  · have hf := hqueue f hf
    rw [hnil] at hf
    cases hf
  · exact hpushing f (h w (List.mem_of_getElem? hw) hwg f (hqueue f hf))

/-- The parts of the invariant about single workers. What remains is the queue, the flags and the
place of the owner. -/
theorem orderly (hq : Onward s s') (h : Orderly s)
    (hunseen : Unseen s')
    (hflags : s'.isStop = false → EachThread s' fun k _ w => w.flag = true → s'.owner.detaches k)
    (howner : AtOwner s' s'.owner) : Orderly s' where
  ids := by
    intro k j hk
    obtain ⟨w, hw, hid⟩ := h.ids k j (hq.threads ▸ hk)
    have hj : j < s'.workers.length :=
      Nat.lt_of_lt_of_le (List.getElem?_eq_some_iff.mp hw).1 hq.length_le
    refine ⟨s'.workers[j], List.getElem?_eq_getElem hj, ?_⟩
    obtain ⟨w', hw', he⟩ := hq.evolves j _ (List.getElem?_eq_getElem hj)
    rw [he.id_eq, ← hid, Option.some.inj (hw'.symm.trans hw)]
  working := by
    intro hd j v hv hf
    obtain ⟨w, hw, he⟩ := hq.evolves j v hv
    have hd : s.isDone = false := Bool.eq_false_iff.mpr fun ht => by
      rw [hq.isDone ht] at hd
      cases hd
    have hwf : w.flag = false := Bool.eq_false_iff.mpr fun ht => by
      rw [he.flag ht] at hf
      cases hf
    exact he.working hd hf (h.working hd j w hw hwf)
  unseen := hunseen
  flags := hflags
  gone := by
    intro j v hv
    obtain ⟨w, hw, he⟩ := hq.evolves j v hv
    rw [hq.threads]
    exact (h.gone j w hw).imp_right (Or.imp (hq.detached j) he.exited)
  owner := howner

end Onward

theorem PoolMove.onward (hm : PoolMove s a s') (hthreads : s'.threads = s.threads)
    (hdetached : ∀ j ∈ s.detached, j ∈ s'.detached) (hdone : s.isDone = true → s'.isDone = true)
    (hstop : s.isStop = true → s'.isStop = true) : Onward s s' := by
  refine ⟨hthreads, hdetached, hdone, hstop, hm.length_le, fun j v hv => ?_⟩
  refine (hm.evolves hv).resolve_right ?_
  rintro ⟨-, rfl, -⟩
  simp [setThread] at hthreads

/-! ## Steps of the other threads -/

theorem WorkerMove.shared (hm : WorkerMove s w s₁ pc) :
    s₁.threads = s.threads ∧ s₁.detached = s.detached ∧ s₁.isDone = s.isDone ∧
      s₁.isStop = s.isStop ∧ s₁.owner = s.owner := by
  cases hm <;> exact ⟨rfl, rfl, rfl, rfl, rfl⟩

theorem WorkerMove.queue_subset (hm : WorkerMove s w s₁ pc) (hf : f ∈ s₁.queue) :
    f ∈ s.queue := by
  cases hm with
  | popTake _ hq | waitTake _ hq =>
    rw [hq]
    exact List.mem_cons_of_mem _ hf
  | _ => exact hf

/-- The threads other than the owner leave the vector, the stop commands and the owner alone. -/
theorem PoolMove.shared (hm : PoolMove s a s') (hown : a ≠ .owner) (hcall : a.isCall = false) :
    s'.threads = s.threads ∧ s'.detached = s.detached ∧ s'.isDone = s.isDone ∧
      s'.isStop = s.isStop ∧ s'.owner = s.owner := by
  cases hm with
  | worker _ hm => exact hm.shared
  | call => cases hcall
  | owner => exact absurd rfl hown
  | _ => exact ⟨rfl, rfl, rfl, rfl, rfl⟩

theorem flag_of_setPc (hw : s.workers[i]? = some w)
    (hv : (s.workers.set i { w with pc := pc })[j]? = some v) :
    ∃ u, s.workers[j]? = some u ∧ v.flag = u.flag :=
  exists_of_getElem?_set (R := fun u v : Worker => v.flag = u.flag) (b := { w with pc := pc })
    (fun _ => rfl) hw rfl hv

/-- Only the owner raises flags. -/
theorem PoolMove.flag_eq (hm : PoolMove s a s') (hown : a ≠ .owner)
    (hv : s'.workers[j]? = some v) : ∃ w, s.workers[j]? = some w ∧ v.flag = w.flag := by
  cases hm with
  | wakeOne _ _ hw | spurious hw => exact flag_of_setPc hw hv
  | @worker i w s₁ pc hw hm =>
    rw [setPc, hm.workers_eq] at hv
    exact flag_of_setPc hw hv
  | call =>
    obtain ⟨_, _, _, hc⟩ := callStep_frame s _
    rw [hc] at hv
    exact ⟨v, hv, rfl⟩
  | owner => exact absurd rfl hown
  | _ => exact ⟨v, hv, rfl⟩

/-- With the mutex free no worker gives up, and a notification makes none do so. -/
theorem unseen_of_mutexFree (hfree : s.mutexFree = true)
    (hg : ∀ v ∈ s'.workers, v.pc.givesUp = true →
    v ∈ s.workers) : Unseen s' := by
  intro v hv hup
  have hfree := mutexFree_iff.mp hfree v (hg v hv hup)
  cases hpc : v.pc <;> simp_all [Pc.givesUp, Pc.holdsMutex]

theorem PoolMove.unseen (hm : PoolMove s a s') (hown : a ≠ .owner) (hcall : a.isCall = false)
    (h : Unseen s) : Unseen s' := by
  obtain ⟨ht, hd, hdone, hstop, -⟩ := hm.shared hown hcall
  have hon : Onward s s' :=
    hm.onward ht (hd ▸ fun _ => id) (hdone ▸ id) (hstop ▸ id)
  cases hm with
  | push =>
    intro v hv hg f hf
    rcases List.mem_append.mp hf with hf | hf
    · exact List.mem_append_left _ (h v hv hg f hf)
    · exact List.mem_append_right _ hf
  | @wakeOne g i w _ hfree hw =>
    refine unseen_of_mutexFree hfree fun v hv hg => ?_
    rcases List.mem_or_eq_of_mem_set hv with hv | rfl
    · exact hv
    · cases hg
  | wakeNone _ hfree => exact unseen_of_mutexFree hfree fun v hv _ => hv
  | handOut hq => exact hon.unseen h (fun f hf => hq ▸ List.mem_cons_of_mem _ hf) fun _ => id
  | handNothing => exact h
  | worker _ hm =>
    obtain ⟨-, -, -, -, hpush⟩ := hm.frame
    exact hon.unseen h (fun f hf => hm.queue_subset hf) fun f hf => by rwa [setPc, hpush]
  | spurious => exact hon.unseen h (fun _ => id) fun _ => id
  | call => cases hcall
  | owner => exact absurd rfl hown

theorem Orderly.step_other (hm : PoolMove s a s') (hown : a ≠ .owner) (hcall : a.isCall = false)
    (h : Orderly s) : Orderly s' := by
  obtain ⟨ht, hd, hdone, hstop, hat⟩ := hm.shared hown hcall
  have hon : Onward s s' :=
    hm.onward ht (hd ▸ fun _ => id) (hdone ▸ id) (hstop ▸ id)
  refine hon.orderly h (hm.unseen hown hcall h.unseen) ?_ (hat ▸ hon.atOwner h.owner)
  intro hns k j v hk hv hf
  obtain ⟨w, hw, hflag⟩ := hm.flag_eq hown hv
  rw [hat]
  exact h.flags (hstop ▸ hns) k j w (ht ▸ hk) hw (hflag ▸ hf)

/-! ## Steps of the owner -/

theorem EachThread.lt {p : Nat → Nat → Worker → Prop}
    (hp : ∀ k j w, k < s.threads.length → p k j w) :
    EachThread s p :=
  fun k j w hk _ => hp k j w (List.getElem?_eq_some_iff.mp hk).1

/-- A step that moves only the owner and the two stop commands. -/
theorem onward_owner {isDone isStop : Bool} {o : OwnerPc} (hdone : s.isDone = true → isDone = true)
    (hstop : s.isStop = true → isStop = true) :
    Onward s { s with isDone := isDone, isStop := isStop, owner := o } :=
  ⟨rfl, fun _ => id, hdone, hstop, Nat.le_refl _, fun _ v hv => ⟨v, hv, .same⟩⟩

theorem Orderly.set_owner (h : Orderly s) {o : OwnerPc}
    (hflags : s.isStop = false → EachThread s fun k _ w => w.flag = true → o.detaches k)
    (hat : AtOwner s o) : Orderly { s with owner := o } := by
  have hon : Onward s { s with owner := o } := onward_owner id id
  exact hon.orderly h h.unseen hflags (hon.atOwner hat)

/-- Outside the shrinking part of `resize`, a flag of the vector means `stop(false)`. -/
theorem Orderly.no_flags (h : Orderly s) (ho : ∀ k, ¬ s.owner.detaches k)
    {p : Nat → Prop} (hns : s.isStop = false) :
    EachThread s fun k _ w => w.flag = true → p k :=
  fun k j w hk hw hf => absurd (h.flags hns k j w hk hw hf) (ho k)

theorem Orderly.step_call (h : Orderly s) (ho : s.owner = .idle) (c : PoolCall) :
    Orderly (s.callStep c) := by
  have hidle : ∀ k, ¬ s.owner.detaches k := fun k => by
    rw [ho]
    exact id
  cases c with
  | resize n =>
    simp only [callStep]
    split
    next hrun =>
      split
      next hle => exact h.set_owner (h.no_flags hidle) trivial
      next hgt =>
        refine h.set_owner (h.no_flags hidle) ⟨Nat.le_of_not_le hgt, Nat.le_refl _, ?_⟩
        exact EachThread.lt fun k _ _ hk hle => absurd hk (Nat.not_lt_of_le hle)
    next => exact h
  | stop isWait =>
    cases isWait with
    | false =>
      simp only [callStep]
      split
      next => exact h
      next hrun =>
        have hon : Onward s { s with isStop := true, owner := .raising 0 } :=
          onward_owner id fun _ => rfl
        refine hon.orderly h h.unseen (fun hf => nomatch hf) ⟨rfl, ?_⟩
        exact fun k _ _ _ _ hk => absurd hk (Nat.not_lt_zero k)
    | true =>
      simp only [callStep]
      split
      next => exact h
      next hrun =>
        have hon : Onward s { s with isDone := true, owner := .notifying } :=
          onward_owner (fun _ => rfl) id
        exact hon.orderly h h.unseen (h.no_flags hidle) (.inl rfl)
  | clearQueue => exact h.set_owner (h.no_flags hidle) ⟨.inl rfl, trivial⟩

theorem wake_flag (w : Worker) : w.wake.flag = w.flag := by
  unfold Worker.wake
  split <;> rfl

theorem notifyAll_getElem? (hv : s.notifyAll.workers[j]? = some v) :
    ∃ w, s.workers[j]? = some w ∧ v = w.wake := by
  simp only [notifyAll, List.getElem?_map] at hv
  obtain ⟨w, hw, rfl⟩ := Option.map_eq_some_iff.mp hv
  exact ⟨w, hw, rfl⟩

theorem Orderly.setThread {n : Nat} (h : Orderly s) (ho : s.owner = .growing n) :
    Orderly s.setThread where
  ids := by
    intro k j hk
    rcases getElem?_snoc_eq_some.mp hk with hk | ⟨rfl, rfl⟩
    · obtain ⟨w, hw, hid⟩ := h.ids k j hk
      exact ⟨w, getElem?_snoc_eq_some.mpr (.inl hw), hid⟩
    · exact ⟨_, getElem?_snoc_eq_some.mpr (.inr ⟨rfl, rfl⟩), rfl⟩
  working := by
    intro hd j w hw hf
    rcases getElem?_snoc_eq_some.mp hw with hw | ⟨-, rfl⟩
    · exact h.working hd j w hw hf
    · exact ⟨Pc.noConfusion, Pc.noConfusion⟩
  unseen := by
    intro w hw hg
    rcases List.mem_append.mp hw with hw | hw
    · exact h.unseen w hw hg
    · rw [List.mem_singleton.mp hw] at hg
      cases hg
  flags := by
    intro hns k j w hk hw hf
    rcases getElem?_snoc_eq_some.mp hw with hw | ⟨-, rfl⟩
    · rcases getElem?_snoc_eq_some.mp hk with hk | ⟨-, rfl⟩
      · exact h.flags hns k j w hk hw hf
      · exact absurd (List.getElem?_eq_some_iff.mp hw).1 (Nat.lt_irrefl _)
    · cases hf
  gone := by
    intro j w hw
    rcases getElem?_snoc_eq_some.mp hw with hw | ⟨rfl, -⟩
    · exact (h.gone j w hw).imp_left fun hj => List.mem_append_left _ hj
    · exact .inl (List.mem_append_right _ List.mem_cons_self)
  owner := by
    have howner : s.setThread.owner = .growing n := ho
    rw [howner]
    trivial

/-- The vector loses its end: what is cut off has been detached, and keeps its flag to itself. -/
theorem Orderly.cut {n : Nat} (h : Orderly s) (ho : s.owner = .cutting n) :
    Orderly { s with threads := s.threads.take n, owner := .idle } := by
  have hat : EachThread s fun k j _ => n ≤ k → j ∈ s.detached := by
    have hat := h.owner
    rwa [ho] at hat
  have hthread : ∀ {k j : Nat}, (s.threads.take n)[k]? = some j →
      k < n ∧ s.threads[k]? = some j := by
    intro k j hk
    rw [List.getElem?_take] at hk
    split at hk
    next hlt => exact ⟨hlt, hk⟩
    next => cases hk
  refine ⟨fun k j hk => h.ids k j (hthread hk).2, h.working, h.unseen, ?_, ?_, trivial⟩
  · intro hns k j w hk hw hf
    obtain ⟨hlt, hk⟩ := hthread hk
    have hd := h.flags hns k j w hk hw hf
    rw [ho] at hd
    exact absurd hlt (Nat.not_lt_of_le hd)
  · intro j w hw
    rcases h.gone j w hw with hj | hj
    · obtain ⟨k, hk⟩ := List.mem_iff_getElem?.mp hj
      by_cases hlt : k < n
      · exact .inl (List.mem_iff_getElem?.mpr ⟨k, by rw [List.getElem?_take, if_pos hlt, hk]⟩)
      · exact .inr (.inl (hat k j w hk hw (Nat.le_of_not_lt hlt)))
    · exact .inr hj

theorem Orderly.close (h : Orderly s) (ho : s.owner = .closing) :
    Orderly { s with threads := [], owner := .idle } := by
  have hat : EachThread s fun _ _ w => w.pc = .exited := by
    have hat := h.owner
    rwa [ho] at hat
  refine ⟨(fun _ _ hk => nomatch hk), h.working, h.unseen, (fun _ _ _ _ hk => nomatch hk), ?_,
    trivial⟩
  intro j w hw
  rcases h.gone j w hw with hj | hj
  · obtain ⟨k, hk⟩ := List.mem_iff_getElem?.mp hj
    exact .inr (.inr (hat k j w hk hw))
  · exact .inr hj

/-- The worker after its flag has been raised, and the others. -/
theorem raiseFlag_getElem? {u : Worker} (hu : (s.raiseFlag i w).workers[j]? = some u) :
    (j = i ∧ u = { w with flag := true }) ∨ (j ≠ i ∧ s.workers[j]? = some u) := by
  simp only [raiseFlag, List.getElem?_set] at hu
  split at hu
  next hij =>
    split at hu
    next => exact .inl ⟨hij.symm, (Option.some.inj hu).symm⟩
    next => cases hu
  next hij => exact .inr ⟨fun h => hij h.symm, hu⟩

/-- Two places of the vector are two threads. -/
theorem Orderly.thread_inj (h : Orderly s) {k k' : Nat} (hk : s.threads[k]? = some j)
    (hk' : s.threads[k']? = some j) : k = k' := by
  obtain ⟨w, hw, hid⟩ := h.ids k j hk
  obtain ⟨w', hw', hid'⟩ := h.ids k' j hk'
  rw [← hid, ← hid', Option.some.inj (hw.symm.trans hw')]

theorem Orderly.detach {n : Nat} (h : Orderly s) (ho : s.owner = .shrinking i n) (hn : n < i)
    (hj : s.threads[i - 1]? = some j) (hw : s.workers[j]? = some w) :
    Orderly { s.raiseFlag j w with
      owner := .shrinking (i - 1) n, detached := j :: s.detached } := by
  have hm := PoolMove.owner (OwnerMove.detach ho hn hj hw)
  have hon := hm.onward rfl (fun _ => List.mem_cons_of_mem j) id id
  obtain ⟨-, hi, hat⟩ : n ≤ i ∧ i ≤ s.threads.length ∧
      EachThread s fun k j _ => i ≤ k → j ∈ s.detached := by
    have hat := h.owner
    rwa [ho] at hat
  refine hon.orderly h (hon.unseen h.unseen (fun _ => id) fun _ => id) ?_ ⟨?_, ?_, ?_⟩
  · intro hns k j' u hk hu hf
    rcases raiseFlag_getElem? hu with ⟨rfl, -⟩ | ⟨-, hu⟩
    · exact Nat.le_of_eq (h.thread_inj hj hk)
    · have hd := h.flags hns k j' u hk hu hf
      rw [ho] at hd
      exact Nat.le_trans (Nat.sub_le i 1) hd
  · exact Nat.le_sub_one_of_lt hn
  · exact Nat.le_trans (Nat.sub_le i 1) hi
  · intro k j' u hk hu hle
    by_cases hik : i ≤ k
    · obtain ⟨w', hw', -⟩ := h.ids k j' hk
      exact List.mem_cons_of_mem j (hat k j' w' hk hw' hik)
    · obtain rfl : k = i - 1 := by omega
      obtain rfl : j' = j := Option.some.inj (hk.symm.trans hj)
      exact List.mem_cons_self

theorem Orderly.raise (h : Orderly s) (ho : s.owner = .raising i) (hj : s.threads[i]? = some j)
    (hw : s.workers[j]? = some w) :
    Orderly { s.raiseFlag j w with owner := .raising (i + 1) } := by
  have hm := PoolMove.owner (OwnerMove.raise ho hj hw)
  have hon := hm.onward rfl (fun _ => id) id id
  obtain ⟨hstop, hat⟩ : s.isStop = true ∧ EachThread s fun k _ w => k < i → w.flag = true := by
    have hat := h.owner
    rwa [ho] at hat
  refine hon.orderly h (hon.unseen h.unseen (fun _ => id) fun _ => id) ?_ ⟨hstop, ?_⟩
  · intro hns
    rw [show s.isStop = false from hns] at hstop
    cases hstop
  · intro k j' u hk hu hlt
    rcases raiseFlag_getElem? hu with ⟨-, rfl⟩ | ⟨hne, hu⟩
    · rfl
    · refine hat k j' u hk hu (Nat.lt_of_le_of_ne (Nat.le_of_lt_succ hlt) ?_)
      rintro rfl
      exact hne (Option.some.inj (hk.symm.trans hj))

theorem Orderly.notifyShrunk {n : Nat} (h : Orderly s) (ho : s.owner = .shrunk n)
    (hfree : s.mutexFree = true) : Orderly { s.notifyAll with owner := .cutting n } := by
  have hm := PoolMove.owner (OwnerMove.notifyShrunk ho hfree)
  have hon := hm.onward rfl (fun _ => id) id id
  have hat : AtOwner s (.cutting n) := by
    have hat := h.owner
    rwa [ho] at hat
  refine hon.orderly h (hon.unseen h.unseen (fun _ => id) fun _ => id) ?_ (hon.atOwner hat)
  intro hns k j v hk hv hf
  obtain ⟨w, hw, rfl⟩ := notifyAll_getElem? hv
  have hd := h.flags hns k j w hk hw (wake_flag w ▸ hf)
  rwa [ho] at hd

/-- `notify_all` finds no worker between its last look at the stop commands and its sleep, since it
holds the mutex. From here on no thread of the vector sleeps again. -/
theorem Orderly.notify (h : Orderly s) (ho : s.owner = .notifying) (hfree : s.mutexFree = true) :
    Orderly { s.notifyAll with owner := .joining 0 } := by
  have hm := PoolMove.owner (OwnerMove.notify ho hfree)
  have hon := hm.onward rfl (fun _ => id) id id
  have hat : s.isDone = true ∨ EachThread s fun _ _ w => w.flag = true := by
    have hat := h.owner
    rwa [ho] at hat
  refine hon.orderly h (hon.unseen h.unseen (fun _ => id) fun _ => id) ?_ ⟨?_, ?_⟩
  · intro hns k j v hk hv hf
    obtain ⟨w, hw, rfl⟩ := notifyAll_getElem? hv
    have hd := h.flags hns k j w hk hw (wake_flag w ▸ hf)
    rw [ho] at hd
    exact hd.elim
  · intro k j v hk hv
    obtain ⟨w, hw, rfl⟩ := notifyAll_getElem? hv
    refine ⟨hat.imp_right fun hf => ?_, wake_pc_ne_asleep w, fun hpc => ?_⟩
    · rw [wake_flag]
      exact hf k j w hk hw
    · have hheld := (wake_holdsMutex w).trans
        (mutexFree_iff.mp hfree w (List.mem_of_getElem? hw))
      rw [hpc] at hheld
      cases hheld
  · exact fun k _ _ _ _ hk => absurd hk (Nat.not_lt_zero k)

theorem Orderly.step_owner (hm : OwnerMove s s') (h : Orderly s) : Orderly s' := by
  have hat := h.owner
  cases hm with
  | spawn ho => exact h.setThread ho
  | grown ho => exact h.set_owner (h.no_flags fun k => by rw [ho]; exact id) trivial
  | detach ho hn hj hw => exact h.detach ho hn hj hw
  | detached ho hle =>
    rw [ho] at hat
    obtain ⟨hn, -, hat⟩ := hat
    obtain rfl := Nat.le_antisymm hn hle
    refine h.set_owner (fun hns k j w hk hw hf => ?_) hat
    have hd := h.flags hns k j w hk hw hf
    rwa [ho] at hd
  | notifyShrunk ho hfree => exact h.notifyShrunk ho hfree
  | cut ho => exact h.cut ho
  | raise ho hj hw => exact h.raise ho hj hw
  | raised ho hle =>
    rw [ho] at hat
    refine h.set_owner (h.no_flags fun k => by rw [ho]; exact id) ⟨.inr (.inl rfl), .inr ?_⟩
    intro k j w hk hw
    exact hat.2 k j w hk hw (Nat.lt_of_lt_of_le (List.getElem?_eq_some_iff.mp hk).1 hle)
  | notify ho hfree => exact h.notify ho hfree
  | @join i j w ho hj hw hx =>
    rw [ho] at hat
    refine h.set_owner (h.no_flags fun k => by rw [ho]; exact id) ⟨hat.1, ?_⟩
    intro k j' w' hk hw' hlt
    rcases Nat.lt_or_eq_of_le (Nat.le_of_lt_succ hlt) with hlt | rfl
    · exact hat.2 k j' w' hk hw' hlt
    · obtain rfl := Option.some.inj (hj.symm.trans hk)
      obtain rfl := Option.some.inj (hw.symm.trans hw')
      exact hx
  | joined ho hle =>
    rw [ho] at hat
    refine h.set_owner (h.no_flags fun k => by rw [ho]; exact id) ⟨.inr (.inr rfl), ?_⟩
    intro k j w hk hw
    exact hat.2 k j w hk hw (Nat.lt_of_lt_of_le (List.getElem?_eq_some_iff.mp hk).1 hle)
  | close ho => exact h.close ho
  | @drop next f rest ho hq =>
    have hon := (PoolMove.owner (OwnerMove.drop ho hq)).onward rfl (fun _ => id) id id
    refine hon.orderly h (hon.unseen h.unseen ?_ fun _ => id) h.flags (hon.atOwner hat)
    intro g hg
    rw [hq]
    exact List.mem_cons_of_mem f hg
  | cleared ho hq =>
    rw [ho] at hat
    exact h.set_owner (h.no_flags fun k => by rw [ho]; exact id) hat.2

theorem Orderly.step (hm : PoolMove s a s') (h : Orderly s) : Orderly s' := by
  by_cases hown : a = .owner
  · subst hown
    cases hm with
    | owner hm => exact h.step_owner hm
  · cases hcall : a.isCall with
    | false => exact h.step_other hm hown hcall
    | true =>
      cases hm with
      | call ho => exact h.step_call ho _
      | _ => cases hcall

theorem Reached.orderly (h : Reached s) : Orderly s :=
  h.invariant (fun _ _ _ hs hstep => hs.step (step_eq_some hstep)) .init

end ThreadPool

end LruCache
