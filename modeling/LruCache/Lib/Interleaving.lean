import Mathlib.Algebra.Order.BigOperators.Group.List
import Mathlib.Algebra.Order.Ring.Nat
import Mathlib.Tactic.Common

/-!
# Interleavings

A concurrent program is a partial step function: an action names the thread that moves and the
choice the scheduler makes for it, and an action that is not enabled has no successor. A schedule is
a list of actions. What every enabled action keeps holds in every state that a schedule reaches
(`run_invariant`, `Reachable.invariant`). When the actions of some kind all lower a measure, the
schedules made of them are bounded (`length_run_le`) and can be extended until none of them is
enabled (`exists_rest`).

The threads themselves are a list of components of which an action replaces one
(`exists_of_getElem?_set`). `total` adds up a weight over the components, and `total_set` says how
it changes.
-/

namespace Interleaving

variable {σ ι α : Type}

/-- The state after a schedule, `none` when one of its actions is not enabled. -/
def run (step : σ → ι → Option σ) : σ → List ι → Option σ
  | s, [] => some s
  | s, a :: as => (step s a).bind fun s' => run step s' as

/-- Some schedule leads from `init` to `s`. -/
def Reachable (step : σ → ι → Option σ) (init s : σ) : Prop := ∃ as, run step init as = some s

section Runs

variable {next : σ → ι → Option σ} {I : σ → Prop} {P : ι → Prop} {μ : σ → Nat}

theorem run_cons {s s'' : σ} {a : ι} {as : List ι} :
    run next s (a :: as) = some s'' ↔ ∃ s', next s a = some s' ∧ run next s' as = some s'' :=
  Option.bind_eq_some_iff

theorem run_append {s s'' : σ} {as bs : List ι} :
    run next s (as ++ bs) = some s'' ↔
      ∃ s', run next s as = some s' ∧ run next s' bs = some s'' := by
  induction as generalizing s with
  | nil =>
    constructor
    · intro h
      exact ⟨s, rfl, h⟩
    · rintro ⟨s', h₁, h₂⟩
      cases h₁
      exact h₂
  | cons a as ih =>
    rw [List.cons_append, run_cons]
    constructor
    · rintro ⟨t, ha, h⟩
      obtain ⟨s', h₁, h₂⟩ := ih.mp h
      exact ⟨s', run_cons.mpr ⟨t, ha, h₁⟩, h₂⟩
    · rintro ⟨s', h₁, h₂⟩
      obtain ⟨t, ha, h₁⟩ := run_cons.mp h₁
      exact ⟨t, ha, ih.mpr ⟨s', h₁, h₂⟩⟩

/-- What every action of some kind keeps, every schedule of such actions keeps. -/
theorem run_invariant (hstep : ∀ s a s', I s → P a → next s a = some s' → I s')
    {s s' : σ} {as : List ι} (hs : I s) (hP : ∀ a ∈ as, P a) (h : run next s as = some s') :
    I s' := by
  induction as generalizing s with
  | nil =>
    cases h
    exact hs
  | cons a as ih =>
    obtain ⟨t, ha, h⟩ := run_cons.mp h
    exact ih (hstep s a t hs (hP a List.mem_cons_self) ha)
      (fun b hb => hP b (List.mem_cons_of_mem a hb)) h

/-- What every enabled action keeps holds in every reachable state. -/
theorem Reachable.invariant (hstep : ∀ s a s', I s → next s a = some s' → I s') {init s : σ}
    (h₀ : I init) (h : Reachable next init s) : I s := by
  obtain ⟨as, h⟩ := h
  exact run_invariant (P := fun _ => True) (fun s a s' hs _ => hstep s a s' hs) h₀
    (fun _ _ => trivial) h

theorem Reachable.run {init s s' : σ} {as : List ι} (hs : Reachable next init s)
    (h : run next s as = some s') : Reachable next init s' := by
  obtain ⟨bs, hb⟩ := hs
  exact ⟨bs ++ as, run_append.mpr ⟨s, hb, h⟩⟩

theorem Reachable.step {init s s' : σ} {a : ι} (hs : Reachable next init s)
    (h : next s a = some s') : Reachable next init s' := by
  have hone : Interleaving.run next s [a] = some s' := run_cons.mpr ⟨s', h, rfl⟩
  exact hs.run hone

/-- A schedule whose actions all lower the measure is no longer than the measure allows. -/
theorem length_run_le (hstep : ∀ s a s', P a → next s a = some s' → μ s' < μ s)
    {s s' : σ} {as : List ι} (hP : ∀ a ∈ as, P a) (h : run next s as = some s') :
    as.length + μ s' ≤ μ s := by
  induction as generalizing s with
  | nil =>
    cases h
    exact Nat.le_of_eq (Nat.zero_add _)
  | cons a as ih =>
    obtain ⟨t, ha, h⟩ := run_cons.mp h
    have hlt := hstep s a t (hP a List.mem_cons_self) ha
    have hle := ih (fun b hb => hP b (List.mem_cons_of_mem a hb)) h
    rw [List.length_cons]
    omega

/-- Actions that all lower the measure can be taken until none of them is enabled. -/
theorem exists_rest (hstep : ∀ s a s', P a → next s a = some s' → μ s' < μ s) (s : σ) :
    ∃ as s', (∀ a ∈ as, P a) ∧ run next s as = some s' ∧ ∀ a, P a → next s' a = none := by
  induction hn : μ s using Nat.strongRecOn generalizing s with
  | ind n ih =>
    by_cases hrest : ∀ a, P a → next s a = none
    · exact ⟨[], s, (fun a ha => nomatch ha), rfl, hrest⟩
    · push Not at hrest
      obtain ⟨a, ha, hne⟩ := hrest
      obtain ⟨t, ht⟩ := Option.ne_none_iff_exists'.mp hne
      obtain ⟨as, s', hP, hrun, hend⟩ := ih (μ t) (hn ▸ hstep s a t ha ht) t rfl
      refine ⟨a :: as, s', ?_, run_cons.mpr ⟨t, ht, hrun⟩, hend⟩
      intro b hb
      rcases List.mem_cons.mp hb with rfl | hb
      · exact ha
      · exact hP b hb

end Runs

/-! ## The components -/

/-- After one component has been replaced by one that it is related to, so is every component. -/
theorem exists_of_getElem?_set {R : α → α → Prop} (hrefl : ∀ a, R a a) {l : List α} {a b c : α}
    {i j : Nat} (ha : l[i]? = some a) (hR : R a b) (hc : (l.set i b)[j]? = some c) :
    ∃ x, l[j]? = some x ∧ R x c := by
  rw [List.getElem?_set] at hc
  split at hc
  next hij =>
    split at hc
    next =>
      cases hc
      exact ⟨a, hij ▸ ha, hR⟩
    next => cases hc
  next => exact ⟨c, hc, hrefl c⟩

theorem getElem?_snoc_eq_some {l : List α} {a b : α} {i : Nat} :
    (l ++ [a])[i]? = some b ↔ l[i]? = some b ∨ i = l.length ∧ b = a := by
  rw [List.getElem?_append, List.getElem?_singleton]
  split
  next h =>
    constructor
    · exact .inl
    · rintro (hb | ⟨rfl, -⟩)
      · exact hb
      · exact absurd h (Nat.lt_irrefl _)
  next h =>
    rw [List.getElem?_eq_none (Nat.le_of_not_lt h)]
    split
    next hz =>
      constructor
      · intro hb
        exact .inr ⟨by omega, (Option.some.inj hb).symm⟩
      · rintro (hb | ⟨-, rfl⟩)
        · cases hb
        · rfl
    next hz =>
      constructor
      · intro hb
        cases hb
      · rintro (hb | ⟨rfl, -⟩)
        · cases hb
        · exact absurd (Nat.sub_self _) hz

/-- The sum of a weight over the components. -/
def total (f : α → Nat) (l : List α) : Nat := (l.map f).sum

variable {f : α → Nat} {l : List α} {a b : α} {i : Nat}

@[simp] theorem total_nil : total f [] = 0 := rfl

@[simp] theorem total_cons : total f (a :: l) = f a + total f l := rfl

@[simp] theorem total_append {l' : List α} : total f (l ++ l') = total f l + total f l' := by
  rw [total, List.map_append, List.sum_append]
  rfl

/-- Replacing one component trades its weight for the new one's. -/
theorem total_set (h : l[i]? = some a) : total f (l.set i b) + f a = total f l + f b := by
  induction l generalizing i with
  | nil => cases h
  | cons c l ih =>
    cases i with
    | zero =>
      cases h
      rw [List.set_cons_zero, total_cons, total_cons]
      omega
    | succ i =>
      have hi := ih h
      rw [List.set_cons_succ, total_cons, total_cons]
      omega

theorem le_total (h : a ∈ l) : f a ≤ total f l :=
  List.single_le_sum (fun _ _ => Nat.zero_le _) (f a) (List.mem_map_of_mem h)

theorem total_eq_zero : total f l = 0 ↔ ∀ a ∈ l, f a = 0 := by
  rw [total, List.sum_eq_zero_iff]
  exact List.forall_mem_map

theorem total_map {β : Type} {g : β → α} {l : List β} :
    total f (l.map g) = total (fun b => f (g b)) l := by
  rw [total, List.map_map]
  rfl

/-- Weights that grow by at most `n` for each component. -/
theorem total_le_add {g : α → Nat} {n : Nat} (h : ∀ a ∈ l, f a ≤ g a + n) :
    total f l ≤ total g l + n * l.length := by
  induction l with
  | nil => exact Nat.zero_le _
  | cons a l ih =>
    have ha := h a List.mem_cons_self
    have hl := ih fun b hb => h b (List.mem_cons_of_mem a hb)
    rw [total_cons, total_cons, List.length_cons, Nat.mul_succ]
    omega

end Interleaving
