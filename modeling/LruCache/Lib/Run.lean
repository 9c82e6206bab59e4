import Mathlib.Tactic.Common

/-!
# Runs of a fallible step function

A step function takes a state and an input and returns an answer and the next state, or fails.
`run` feeds it a list of inputs. `Along` says that every step of a run meets a condition on the
state before it. The two induction rules turn a fact about one step into a fact about a whole run:
`run_invariant` for the runs that return, `run_total` for a condition under which no step fails.
-/

namespace Run

variable {σ ι ρ ε α β : Type}

@[simp] theorem ok_bind (a : α) (f : α → Except ε β) : (Except.ok a >>= f) = f a := rfl

@[simp] theorem error_bind (e : ε) (f : α → Except ε β) : (Except.error e >>= f) = .error e := rfl

theorem bind_eq_ok {x : Except ε α} {f : α → Except ε β} {b : β} :
    (x >>= f) = .ok b ↔ ∃ a, x = .ok a ∧ f a = .ok b := by
  cases x with
  | error e => exact ⟨(fun h => nomatch h), (fun ⟨_, h, _⟩ => nomatch h)⟩
  | ok a => exact ⟨fun h => ⟨a, rfl, h⟩, fun ⟨_, h, hf⟩ => by cases h; exact hf⟩

/-- A traversal none of whose calls fails. -/
theorem mapM_eq_ok {l : List α} {f : α → Except ε β} {g : α → β} (h : ∀ x ∈ l, f x = .ok (g x)) :
    l.mapM f = .ok (l.map g) := by
  induction l with
  | nil => rfl
  | cons x xs ih =>
    rw [List.mapM_cons, h x List.mem_cons_self, ih fun y hy => h y (List.mem_cons_of_mem x hy)]
    rfl

theorem length_of_mapM {l : List α} {f : α → Except ε β} {bs : List β} (h : l.mapM f = .ok bs) :
    bs.length = l.length := by
  induction l generalizing bs with
  | nil =>
    cases h
    rfl
  | cons x xs ih =>
    rw [List.mapM_cons] at h
    obtain ⟨b, -, h⟩ := bind_eq_ok.mp h
    obtain ⟨bs', hbs, h⟩ := bind_eq_ok.mp h
    cases h
    exact congrArg Nat.succ (ih hbs)

theorem mapM_drop {l : List α} {f : α → Except ε β} {bs : List β} (h : l.mapM f = .ok bs)
    (i : Nat) : (l.drop i).mapM f = .ok (bs.drop i) := by
  induction l generalizing bs i with
  | nil =>
    obtain rfl : [] = bs := Except.ok.inj h
    rw [List.drop_nil, List.drop_nil]
    rfl
  | cons x xs ih =>
    cases i with
    | zero => exact h
    | succ i =>
      rw [List.mapM_cons] at h
      obtain ⟨b, -, h⟩ := bind_eq_ok.mp h
      obtain ⟨bs', hbs, h⟩ := bind_eq_ok.mp h
      cases h
      exact ih hbs i

/-- The answers and the final state of a run; the first failing step ends it. -/
def run (step : σ → ι → Except ε (ρ × σ)) : σ → List ι → Except ε (List ρ × σ)
  | s, [] => .ok ([], s)
  | s, i :: is => do
    let (r, s') ← step s i
    let (rs, s'') ← run step s' is
    return (r :: rs, s'')

/-- Every step of the run from `s` over the inputs meets `C` in the state before it. -/
def Along (step : σ → ι → Except ε (ρ × σ)) (C : σ → ι → Prop) : σ → List ι → Prop
  | _, [] => True
  | s, i :: is => C s i ∧ ∀ r s', step s i = .ok (r, s') → Along step C s' is

instance decidableAlong (step : σ → ι → Except ε (ρ × σ)) (C : σ → ι → Prop)
    [∀ s i, Decidable (C s i)] : ∀ s is, Decidable (Along step C s is)
  | _, [] => .isTrue trivial
  | s, i :: is =>
    match h : step s i with
    | .error _ => decidable_of_iff (C s i)
      ⟨fun hc => ⟨hc, fun r s' hs => by simp [h] at hs⟩, And.left⟩
    | .ok (r, s') =>
      have := decidableAlong step C s' is
      decidable_of_iff (C s i ∧ Along step C s' is)
        ⟨fun hc => ⟨hc.1, fun r' t hs => by
            rw [h] at hs
            cases hs
            exact hc.2⟩,
          fun hc => ⟨hc.1, hc.2 r s' h⟩⟩

variable {step : σ → ι → Except ε (ρ × σ)} {C : σ → ι → Prop} {I : σ → Prop}

theorem run_cons {s s'' : σ} {i : ι} {is : List ι} {rs : List ρ} :
    run step s (i :: is) = .ok (rs, s'') ↔
      ∃ r s' rs', step s i = .ok (r, s') ∧ run step s' is = .ok (rs', s'') ∧ rs = r :: rs' := by
  constructor
  · intro h
    obtain ⟨⟨r, s'⟩, hs, h⟩ := bind_eq_ok.mp h
    obtain ⟨⟨rs', t⟩, hr, h⟩ := bind_eq_ok.mp h
    cases h
    exact ⟨r, s', rs', hs, hr, rfl⟩
  · rintro ⟨r, s', rs', hs, hr, rfl⟩
    exact bind_eq_ok.mpr ⟨_, hs, bind_eq_ok.mpr ⟨_, hr, rfl⟩⟩

theorem run_append {s s'' : σ} {is js : List ι} {rs : List ρ} :
    run step s (is ++ js) = .ok (rs, s'') ↔
      ∃ rs₁ s' rs₂, run step s is = .ok (rs₁, s') ∧ run step s' js = .ok (rs₂, s'') ∧
        rs = rs₁ ++ rs₂ := by
  induction is generalizing s rs with
  | nil =>
    constructor
    · intro h
      exact ⟨[], s, rs, rfl, h, rfl⟩
    · rintro ⟨rs₁, s', rs₂, h₁, h₂, rfl⟩
      cases h₁
      exact h₂
  | cons i is ih =>
    rw [List.cons_append, run_cons]
    constructor
    · rintro ⟨r, s', rs', hs, hr, rfl⟩
      obtain ⟨rs₁, t, rs₂, h₁, h₂, rfl⟩ := ih.mp hr
      exact ⟨r :: rs₁, t, rs₂, run_cons.mpr ⟨r, s', rs₁, hs, h₁, rfl⟩, h₂, rfl⟩
    · rintro ⟨rs₁, t, rs₂, h₁, h₂, rfl⟩
      obtain ⟨r, s', rs', hs, hr, rfl⟩ := run_cons.mp h₁
      exact ⟨r, s', rs' ++ rs₂, hs, ih.mpr ⟨rs', t, rs₂, hr, h₂, rfl⟩, rfl⟩

/-- What every step that meets the condition preserves, every run whose steps meet it preserves. -/
theorem run_invariant
    (hstep : ∀ s i r s', I s → C s i → step s i = .ok (r, s') → I s')
    {s s' : σ} {is : List ι} {rs : List ρ} (hs : I s) (hC : Along step C s is)
    (h : run step s is = .ok (rs, s')) : I s' := by
  induction is generalizing s rs with
  | nil => cases h; exact hs
  | cons i is ih =>
    obtain ⟨r, t, rs', h₁, h₂, -⟩ := run_cons.mp h
    exact ih (hstep s i r t hs hC.1 h₁) (hC.2 r t h₁) h₂

/-- An invariant that also speaks of what a fold collects from the inputs and answers so far. -/
theorem run_fold {γ : Type} {note : γ → ι × ρ → γ} {J : γ → σ → Prop}
    (hstep : ∀ g s i r s', J g s → C s i → step s i = .ok (r, s') → J (note g (i, r)) s')
    {g : γ} {s s' : σ} {is : List ι} {rs : List ρ} (hs : J g s) (hC : Along step C s is)
    (h : run step s is = .ok (rs, s')) : J ((is.zip rs).foldl note g) s' := by
  induction is generalizing g s rs with
  | nil => cases h; exact hs
  | cons i is ih =>
    obtain ⟨r, t, rs', h₁, h₂, rfl⟩ := run_cons.mp h
    exact ih (hstep g s i r t hs hC.1 h₁) (hC.2 r t h₁) h₂

/-- When no step that meets the condition fails, no run whose steps meet it fails. -/
theorem run_total
    (hstep : ∀ s i, I s → C s i → ∃ r s', step s i = .ok (r, s') ∧ I s')
    {s : σ} {is : List ι} (hs : I s) (hC : Along step C s is) :
    ∃ rs s', run step s is = .ok (rs, s') ∧ I s' := by
  induction is generalizing s with
  | nil => exact ⟨[], s, rfl, hs⟩
  | cons i is ih =>
    obtain ⟨r, t, h₁, ht⟩ := hstep s i hs hC.1
    obtain ⟨rs, s', h₂, hs'⟩ := ih ht (hC.2 r t h₁)
    exact ⟨r :: rs, s', run_cons.mpr ⟨r, t, rs, h₁, h₂, rfl⟩, hs'⟩

theorem along_true (s : σ) (is : List ι) : Along step (fun _ _ => True) s is := by
  induction is generalizing s with
  | nil => trivial
  | cons i is ih => exact ⟨trivial, fun _ s' _ => ih s'⟩

theorem Along.take {s : σ} {is : List ι} (h : Along step C s is) (n : Nat) :
    Along step C s (is.take n) := by
  induction is generalizing s n with
  | nil =>
    rw [List.take_nil]
    trivial
  | cons i is ih =>
    cases n with
    | zero => trivial
    | succ n => exact ⟨h.1, fun r s' hs => ih (h.2 r s' hs) n⟩

theorem Along.and_forall {P : ι → Prop} {s : σ} {is : List ι} (h : Along step C s is)
    (hP : ∀ i ∈ is, P i) : Along step (fun s i => C s i ∧ P i) s is := by
  induction is generalizing s with
  | nil => trivial
  | cons i is ih =>
    exact ⟨⟨h.1, hP i List.mem_cons_self⟩, fun r s' hs =>
      ih (h.2 r s' hs) fun j hj => hP j (List.mem_cons_of_mem i hj)⟩

/-- When a second step function follows each step that returns, it follows each run that does. -/
theorem run_lift {τ : Type} {g : τ → ι → Except ε (ρ × τ)} (rel : σ → τ → Prop)
    (hstep : ∀ s t i r s', rel s t → step s i = .ok (r, s') →
      ∃ t', g t i = .ok (r, t') ∧ rel s' t')
    {s s' : σ} {t : τ} {is : List ι} {rs : List ρ} (h : rel s t)
    (hr : run step s is = .ok (rs, s')) : ∃ t', run g t is = .ok (rs, t') ∧ rel s' t' := by
  induction is generalizing s t rs with
  | nil =>
    cases hr
    exact ⟨t, rfl, h⟩
  | cons i is ih =>
    obtain ⟨r, s₁, rs', hs, hrest, rfl⟩ := run_cons.mp hr
    obtain ⟨t₁, ht, h₁⟩ := hstep s t i r s₁ h hs
    obtain ⟨t', ht', h'⟩ := ih h₁ hrest
    exact ⟨t', run_cons.mpr ⟨r, t₁, rs', ht, ht', rfl⟩, h'⟩

/-! ## Simulation of a total step function -/

section Simulation

variable {τ : Type}

/-- The answers and the final state of a run of a step function that never fails. -/
def exec (f : τ → ι → ρ × τ) : τ → List ι → List ρ × τ
  | t, [] => ([], t)
  | t, i :: is => ((f t i).1 :: (exec f (f t i).2 is).1, (exec f (f t i).2 is).2)

/-- Every state of the run satisfies `D`, the first and the last one included. -/
def Throughout (f : τ → ι → ρ × τ) (D : τ → Prop) : τ → List ι → Prop
  | t, [] => D t
  | t, i :: is => D t ∧ Throughout f D (f t i).2 is

instance decidableThroughout (f : τ → ι → ρ × τ) (D : τ → Prop) [∀ t, Decidable (D t)] :
    ∀ t is, Decidable (Throughout f D t is)
  | t, [] => inferInstanceAs (Decidable (D t))
  | t, i :: is =>
    have := decidableThroughout f D (f t i).2 is
    inferInstanceAs (Decidable (D t ∧ Throughout f D (f t i).2 is))

variable {f : τ → ι → ρ × τ} {D : τ → Prop} {E : τ → ι → Prop} {rel : σ → τ → Prop}

/-- Every step of the run meets `E` in the state before it. -/
def Steps (f : τ → ι → ρ × τ) (E : τ → ι → Prop) : τ → List ι → Prop
  | _, [] => True
  | t, i :: is => E t i ∧ Steps f E (f t i).2 is

instance decidableSteps (f : τ → ι → ρ × τ) (E : τ → ι → Prop) [∀ t i, Decidable (E t i)] :
    ∀ t is, Decidable (Steps f E t is)
  | _, [] => .isTrue trivial
  | t, i :: is =>
    have := decidableSteps f E (f t i).2 is
    inferInstanceAs (Decidable (E t i ∧ Steps f E (f t i).2 is))

theorem exec_snoc {t : τ} {is : List ι} {i : ι} :
    (exec f t (is ++ [i])).2 = (f (exec f t is).2 i).2 := by
  induction is generalizing t with
  | nil => rfl
  | cons j is ih => exact ih

theorem throughout_snoc {t : τ} {is : List ι} {i : ι} :
    Throughout f D t (is ++ [i]) ↔ Throughout f D t is ∧ D (f (exec f t is).2 i).2 := by
  induction is generalizing t with
  | nil => exact Iff.rfl
  | cons j is ih => exact (and_congr_right fun _ => ih).trans and_assoc.symm

theorem steps_snoc {t : τ} {is : List ι} {i : ι} :
    Steps f E t (is ++ [i]) ↔ Steps f E t is ∧ E (exec f t is).2 i := by
  induction is generalizing t with
  | nil => exact ⟨fun h => ⟨trivial, h.1⟩, fun h => ⟨h.2, trivial⟩⟩
  | cons j is ih => exact (and_congr_right fun _ => ih).trans and_assoc.symm

theorem Throughout.head {t : τ} {is : List ι} (h : Throughout f D t is) : D t := by
  cases is with
  | nil => exact h
  | cons i is => exact h.1

theorem throughout_true (t : τ) (is : List ι) : Throughout f (fun _ => True) t is := by
  induction is generalizing t with
  | nil => trivial
  | cons i is ih => exact ⟨trivial, ih _⟩

theorem Throughout.exec_take {t : τ} {is : List ι} (h : Throughout f D t is) (n : Nat) :
    D (exec f t (is.take n)).2 := by
  induction is generalizing t n with
  | nil =>
    rw [List.take_nil]
    exact h
  | cons i is ih =>
    cases n with
    | zero => exact h.1
    | succ n => exact ih h.2 n

/-- A condition on the steps that follows from one on the states and another on the steps. -/
theorem Throughout.steps {E' : τ → ι → Prop} {t : τ} {is : List ι} (hD : Throughout f D t is)
    (hE : Steps f E t is) (himp : ∀ t i, D t → D (f t i).2 → E t i → E' t i) :
    Steps f E' t is := by
  induction is generalizing t with
  | nil => trivial
  | cons i is ih => exact ⟨himp t i hD.1 hD.2.head hE.1, ih hD.2 hE.2⟩

/-- When a second step function agrees at exactly the steps that meet `E`, the two runs agree after
every number of inputs exactly when all steps meet it. -/
theorem exec_take_eq_iff {g : τ → ι → ρ × τ} {t : τ} {is : List ι}
    (h : Steps f (fun t i => g t i = f t i ↔ E t i) t is) :
    (∀ n, exec g t (is.take n) = exec f t (is.take n)) ↔ Steps f E t is := by
  induction is generalizing t with
  | nil => exact ⟨fun _ => trivial, fun _ n => by rw [List.take_nil]; rfl⟩
  | cons i is ih =>
    obtain ⟨hi, hrest⟩ := h
    constructor
    · intro hall
      have hone : ([(g t i).1], (g t i).2) = ([(f t i).1], (f t i).2) := hall 1
      have heq : g t i = f t i :=
        Prod.ext (List.singleton_inj.mp (Prod.mk.inj hone).1) (Prod.mk.inj hone).2
      refine ⟨hi.mp heq, (ih hrest).mp fun n => ?_⟩
      have hn := hall (n + 1)
      rw [List.take_succ_cons, exec, exec, heq] at hn
      obtain ⟨hanswers, hstate⟩ := Prod.mk.inj hn
      exact Prod.ext (List.cons_inj_right _ |>.mp hanswers) hstate
    · rintro ⟨hE, hsteps⟩ n
      cases n with
      | zero => rfl
      | succ n =>
        rw [List.take_succ_cons, exec, exec, hi.mpr hE, (ih hrest).mpr hsteps n]

/-- When each step simulates the total step function between states that satisfy `D`, so does each
run through such states. -/
theorem run_simulates
    (hstep : ∀ s t i, rel s t → C s i → D t → D (f t i).2 →
      ∃ s', step s i = .ok ((f t i).1, s') ∧ rel s' (f t i).2)
    {s : σ} {t : τ} {is : List ι} (h : rel s t) (hC : Along step C s is)
    (hD : Throughout f D t is) :
    ∃ s', run step s is = .ok ((exec f t is).1, s') ∧ rel s' (exec f t is).2 ∧
      D (exec f t is).2 := by
  induction is generalizing s t with
  | nil => exact ⟨s, rfl, h, hD⟩
  | cons i is ih =>
    obtain ⟨s', hs, h'⟩ := hstep s t i h hC.1 hD.1 hD.2.head
    obtain ⟨s'', hr, h'', hD''⟩ := ih h' (hC.2 _ _ hs) hD.2
    exact ⟨s'', run_cons.mpr ⟨_, s', _, hs, hr, rfl⟩, h'', hD''⟩

/-- The same with a condition on each step in the state of the total step function. -/
theorem run_simulates_steps
    (hstep : ∀ s t i, rel s t → E t i → ∃ s', step s i = .ok ((f t i).1, s') ∧ rel s' (f t i).2)
    {s : σ} {t : τ} {is : List ι} (h : rel s t) (hE : Steps f E t is) :
    ∃ s', run step s is = .ok ((exec f t is).1, s') ∧ rel s' (exec f t is).2 := by
  induction is generalizing s t with
  | nil => exact ⟨s, rfl, h⟩
  | cons i is ih =>
    obtain ⟨s', hs, h'⟩ := hstep s t i h hE.1
    obtain ⟨s'', hr, h''⟩ := ih h' hE.2
    exact ⟨s'', run_cons.mpr ⟨_, s', _, hs, hr, rfl⟩, h''⟩

end Simulation

end Run
