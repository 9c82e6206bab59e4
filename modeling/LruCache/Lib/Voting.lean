import Mathlib.Algebra.Order.Group.Multiset
import Mathlib.Algebra.Order.Ring.Nat
import Mathlib.Data.Finset.Card
import Mathlib.Logic.Function.Basic
import Mathlib.Logic.Relation
import Mathlib.Tactic.Common

/-!
# Elections by majority

Parties move through numbered terms. In each term a party votes at most once. A candidate starts a
term by voting for itself and asking other parties for their votes. A party that is asked in its own
term grants its vote if it has not given it to somebody else. The candidate counts the votes that it
is granted, and is elected with more than half of them.

Questions and answers are lost at will, and none is delivered twice. A candidate need not remember
who voted for it, the number is enough: nobody is counted twice (`Sound.fresh`). At most one party
is elected in a term (`Reachable.elected_unique`).
-/

/-- One question for a vote, or the answer that grants it. -/
structure Ask (P : Type) where
  candidate : P
  voter : P
  term : Nat
deriving DecidableEq

/-- The terms and votes of all parties, the questions and granted votes that are under way, and who
has been elected in which terms. -/
structure Voting (P : Type) where
  term : P → Nat
  vote : P → Nat → Option P
  counted : P → Finset P
  asked : Multiset (Ask P)
  granted : Multiset (Ask P)
  elected : P → Nat → Prop

namespace Voting

variable {P : Type}

/-- The questions of a candidate in a term. -/
def asks (x : P) (t : Nat) (polled : List P) : Multiset (Ask P) :=
  (polled.map fun v => (⟨x, v, t⟩ : Ask P) : List (Ask P))

theorem mem_asks {x : P} {t : Nat} {polled : List P} {q : Ask P} :
    q ∈ asks x t polled ↔ ∃ v ∈ polled, ⟨x, v, t⟩ = q := by
  rw [asks, Multiset.mem_coe, List.mem_map]

theorem nodup_asks {x : P} {t : Nat} {polled : List P} (h : polled.Nodup) :
    (asks x t polled).Nodup := by
  rw [asks, Multiset.coe_nodup]
  exact h.map fun v w hvw => congrArg Ask.voter hvw

variable [DecidableEq P]

/-- Nobody has been asked or elected yet. A party may have voted in its term. -/
def start (term : P → Nat) (vote : P → Option P) : Voting P :=
  ⟨term, fun v t => if t = term v then vote v else none, fun _ => ∅, 0, 0, fun _ _ => False⟩

/-- The vote of `v` in the term `t` recorded. -/
def cast (a : Voting P) (v : P) (t : Nat) (x : P) : P → Nat → Option P :=
  Function.update a.vote v (Function.update (a.vote v) t (some x))

variable (voters : Finset P)

/-- What can happen. -/
inductive Step (a : Voting P) : Voting P → Prop
  /-- A party learns of a later term. -/
  | advance {v : P} {t : Nat} : a.term v < t →
      Step a { a with
        term := Function.update a.term v t
        counted := Function.update a.counted v ∅ }
  /-- A party becomes a candidate. -/
  | stand {x : P} {t : Nat} {polled : List P} :
    a.term x < t → x ∈ voters → polled.Nodup → x ∉ polled →
      (∀ v ∈ polled, v ∈ voters) →
      Step a { a with
        term := Function.update a.term x t
        vote := a.cast x t x
        counted := Function.update a.counted x {x}
        asked := asks x t polled + a.asked }
  /-- A party gives its vote. -/
  | grant {q : Ask P} {rest : Multiset (Ask P)} : a.asked = q ::ₘ rest → a.term q.voter = q.term →
      (∀ x, a.vote q.voter q.term = some x → x = q.candidate) →
      Step a { a with
        vote := a.cast q.voter q.term q.candidate
        asked := rest
        granted := q ::ₘ a.granted }
  /-- A vote is counted. -/
  | count {q : Ask P} {rest : Multiset (Ask P)} : a.granted = q ::ₘ rest →
      a.term q.candidate = q.term →
      Step a { a with
        counted := Function.update a.counted q.candidate (insert q.voter (a.counted q.candidate))
        granted := rest }
  /-- A candidate is elected. -/
  | win {x : P} : voters.card < 2 * (a.counted x).card →
      Step a { a with elected := fun y t => a.elected y t ∨ y = x ∧ t = a.term x }
  /-- Questions and votes are lost. -/
  | lose {asked granted : Multiset (Ask P)} : asked ≤ a.asked → granted ≤ a.granted →
      Step a { a with asked := asked, granted := granted }

/-- What can be reached from a state in which nobody has been asked or elected. -/
def Reachable (a : Voting P) : Prop :=
  ∃ term vote, Relation.ReflTransGen (Step voters) (start term vote) a

/-- The invariant. -/
structure Sound (a : Voting P) : Prop where
  past : ∀ {v t x}, a.vote v t = some x → t ≤ a.term v
  asked : ∀ q ∈ a.asked, q.voter ∈ voters ∧ a.vote q.candidate q.term = some q.candidate
  granted : ∀ q ∈ a.granted, q.voter ∈ voters ∧
    a.vote q.candidate q.term = some q.candidate ∧ a.vote q.voter q.term = some q.candidate
  counted : ∀ {x}, ∀ v ∈ a.counted x, v ∈ voters ∧ a.vote v (a.term x) = some x
  fresh : ∀ q ∈ a.asked + a.granted, q.term = a.term q.candidate → q.voter ∉ a.counted q.candidate
  nodup : (a.asked + a.granted).Nodup
  elected : ∀ {x t}, a.elected x t → voters.card < 2 * (voters.filter (a.vote · t = some x)).card

variable {voters} {a b : Voting P}

theorem cast_self (a : Voting P) (v : P) (t : Nat) (x : P) : a.cast v t x v t = some x := by
  simp [cast]

/-- A vote is not taken back. -/
theorem cast_of_vote {v w x y : P} {t u : Nat} (h : a.vote w u = some y)
    (hx : ∀ z, a.vote v t = some z → z = x) : a.cast v t x w u = some y := by
  unfold cast
  by_cases hw : w = v
  · subst hw
    rw [Function.update_self]
    by_cases hu : u = t
    · subst hu
      rw [Function.update_self, hx y h]
    · rw [Function.update_of_ne hu, h]
  · rw [Function.update_of_ne hw, h]

theorem eq_of_cast {v w x y : P} {t u : Nat} (h : a.cast v t x w u = some y) :
    a.vote w u = some y ∨ w = v ∧ u = t := by
  unfold cast at h
  by_cases hw : w = v
  · subst hw
    rw [Function.update_self] at h
    by_cases hu : u = t
    · exact .inr ⟨rfl, hu⟩
    · rw [Function.update_of_ne hu] at h
      exact .inl h
  · rw [Function.update_of_ne hw] at h
    exact .inl h

theorem sound_start (term : P → Nat) (vote : P → Option P) :
    Sound voters (start term vote) where
  past := by
    intro v t x h
    dsimp only [start] at h ⊢
    split at h
    next ht => exact Nat.le_of_eq ht
    next => cases h
  asked := fun q hq => absurd hq (Multiset.notMem_zero q)
  granted := fun q hq => absurd hq (Multiset.notMem_zero q)
  counted := fun v hv => absurd hv (Finset.notMem_empty v)
  fresh := fun q hq => absurd hq (Multiset.notMem_zero q)
  nodup := Multiset.nodup_zero
  elected := fun h => h.elim

/-- The votes of a term are kept, so who has been elected stays elected. -/
theorem elected_mono {x : P} {t : Nat} {vote : P → Nat → Option P}
    (hvote : ∀ {v y}, a.vote v t = some y → vote v t = some y)
    (h : voters.card < 2 * (voters.filter (a.vote · t = some x)).card) :
    voters.card < 2 * (voters.filter (vote · t = some x)).card := by
  refine Nat.lt_of_lt_of_le h (Nat.mul_le_mul_left 2 (Finset.card_le_card ?_))
  exact Finset.monotone_filter_right voters fun v _ hv => hvote hv

namespace Sound

theorem advance (h : Sound voters a) {v : P} {t : Nat} (ht : a.term v < t) :
    Sound voters { a with
      term := Function.update a.term v t
      counted := Function.update a.counted v ∅ } where
  past := by
    intro w u x hw
    have hle := h.past hw
    dsimp only
    by_cases hv : w = v
    · subst hv
      rw [Function.update_self]
      exact Nat.le_trans hle (Nat.le_of_lt ht)
    · rwa [Function.update_of_ne hv]
  asked := h.asked
  granted := h.granted
  counted := by
    intro x w hw
    dsimp only at hw ⊢
    by_cases hx : x = v
    · subst hx
      rw [Function.update_self] at hw
      exact absurd hw (Finset.notMem_empty w)
    · rw [Function.update_of_ne hx] at hw ⊢
      exact h.counted w hw
  fresh := by
    intro q hq hterm
    dsimp only at hterm ⊢
    by_cases hx : q.candidate = v
    · rw [hx, Function.update_self]
      exact Finset.notMem_empty _
    · rw [Function.update_of_ne hx] at hterm ⊢
      exact h.fresh q hq hterm
  nodup := h.nodup
  elected := h.elected

/-- Nobody has voted in a term that lies ahead. -/
theorem vote_ahead (h : Sound voters a) {v : P} {t : Nat} (ht : a.term v < t) :
    a.vote v t = none := by
  cases hv : a.vote v t with
  | none => rfl
  | some x => exact absurd (h.past hv) (Nat.not_le.mpr ht)

theorem stand (h : Sound voters a) {x : P} {t : Nat} {polled : List P} (ht : a.term x < t)
    (hx : x ∈ voters) (hnodup : polled.Nodup) (hself : x ∉ polled)
    (hpolled : ∀ v ∈ polled, v ∈ voters) :
    Sound voters { a with
      term := Function.update a.term x t
      vote := a.cast x t x
      counted := Function.update a.counted x {x}
      asked := asks x t polled + a.asked } := by
  have hnone := h.vote_ahead ht
  have hkeep : ∀ {w u y}, a.vote w u = some y → a.cast x t x w u = some y := fun hw =>
    cast_of_vote hw fun z hz => by rw [hnone] at hz; cases hz
  -- No question of the new term is under way.
  have hnew : ∀ q ∈ a.asked + a.granted, q.candidate = x → q.term ≠ t := by
    rintro q hq rfl rfl
    rcases Multiset.mem_add.mp hq with hq | hq
    · rw [(h.asked q hq).2] at hnone
      cases hnone
    · rw [(h.granted q hq).2.1] at hnone
      cases hnone
  constructor
  · intro w u y hw
    dsimp only at hw ⊢
    rcases eq_of_cast hw with hw | ⟨rfl, rfl⟩
    · have hle := h.past hw
      by_cases hv : w = x
      · subst hv
        rw [Function.update_self]
        exact Nat.le_trans hle (Nat.le_of_lt ht)
      · rwa [Function.update_of_ne hv]
    · rw [Function.update_self]
  · intro q hq
    rcases Multiset.mem_add.mp hq with hq | hq
    · obtain ⟨v, hv, rfl⟩ := mem_asks.mp hq
      exact ⟨hpolled v hv, cast_self a x t x⟩
    · obtain ⟨hvoter, hvote⟩ := h.asked q hq
      exact ⟨hvoter, hkeep hvote⟩
  · intro q hq
    obtain ⟨hvoter, hcand, hvote⟩ := h.granted q hq
    exact ⟨hvoter, hkeep hcand, hkeep hvote⟩
  · intro y w hw
    dsimp only at hw ⊢
    by_cases hy : y = x
    · subst hy
      rw [Function.update_self] at hw ⊢
      rw [Finset.mem_singleton.mp hw]
      exact ⟨hx, cast_self a y t y⟩
    · rw [Function.update_of_ne hy] at hw ⊢
      obtain ⟨hvoter, hvote⟩ := h.counted w hw
      exact ⟨hvoter, hkeep hvote⟩
  · intro q hq hterm
    dsimp only at hq hterm ⊢
    rw [add_assoc] at hq
    rcases Multiset.mem_add.mp hq with hq | hq
    · obtain ⟨v, hv, rfl⟩ := mem_asks.mp hq
      dsimp only
      rw [Function.update_self, Finset.mem_singleton]
      rintro rfl
      exact hself hv
    · by_cases hy : q.candidate = x
      · rw [hy, Function.update_self] at hterm
        exact absurd hterm (hnew q hq hy)
      · rw [Function.update_of_ne hy] at hterm ⊢
        exact h.fresh q hq hterm
  · dsimp only
    rw [add_assoc]
    refine (Multiset.nodup_add).mpr ⟨nodup_asks hnodup, h.nodup, ?_⟩
    refine Multiset.disjoint_left.mpr fun hq hq' => ?_
    obtain ⟨v, hv, rfl⟩ := mem_asks.mp hq
    exact hnew _ hq' rfl rfl
  · intro y u hy
    exact elected_mono hkeep (h.elected hy)

theorem grant (h : Sound voters a) {q : Ask P} {rest : Multiset (Ask P)} (hq : a.asked = q ::ₘ rest)
    (hterm : a.term q.voter = q.term)
    (hfree : ∀ x, a.vote q.voter q.term = some x → x = q.candidate) :
    Sound voters { a with
      vote := a.cast q.voter q.term q.candidate
      asked := rest
      granted := q ::ₘ a.granted } := by
  have hkeep : ∀ {w u y}, a.vote w u = some y →
      a.cast q.voter q.term q.candidate w u = some y := fun hw => cast_of_vote hw hfree
  have hmem : q ∈ a.asked := hq ▸ Multiset.mem_cons_self q rest
  have hsame : rest + q ::ₘ a.granted = a.asked + a.granted := by
    rw [hq, Multiset.add_cons, Multiset.cons_add]
  constructor
  · intro w u y hw
    rcases eq_of_cast hw with hw | ⟨rfl, rfl⟩
    · exact h.past hw
    · exact Nat.le_of_eq hterm.symm
  · intro p hp
    obtain ⟨hvoter, hvote⟩ := h.asked p (hq ▸ Multiset.mem_cons_of_mem hp)
    exact ⟨hvoter, hkeep hvote⟩
  · intro p hp
    rcases Multiset.mem_cons.mp hp with rfl | hp
    · obtain ⟨hvoter, hvote⟩ := h.asked p hmem
      exact ⟨hvoter, hkeep hvote, cast_self a _ _ _⟩
    · obtain ⟨hvoter, hcand, hvote⟩ := h.granted p hp
      exact ⟨hvoter, hkeep hcand, hkeep hvote⟩
  · intro x w hw
    obtain ⟨hvoter, hvote⟩ := h.counted w hw
    exact ⟨hvoter, hkeep hvote⟩
  · exact fun p hp => h.fresh p (hsame ▸ hp)
  · dsimp only
    rw [hsame]
    exact h.nodup
  · intro x u hx
    exact elected_mono hkeep (h.elected hx)

theorem count (h : Sound voters a) {q : Ask P} {rest : Multiset (Ask P)}
    (hq : a.granted = q ::ₘ rest) (hterm : a.term q.candidate = q.term) :
    Sound voters { a with
      counted := Function.update a.counted q.candidate (insert q.voter (a.counted q.candidate))
      granted := rest } := by
  have hmem : q ∈ a.granted := hq ▸ Multiset.mem_cons_self q rest
  have hsame : a.asked + a.granted = q ::ₘ (a.asked + rest) := by rw [hq, Multiset.add_cons]
  have hsub : ∀ p ∈ a.asked + rest, p ∈ a.asked + a.granted := fun p hp =>
    hsame ▸ Multiset.mem_cons_of_mem hp
  have hnodup : q ∉ a.asked + rest ∧ (a.asked + rest).Nodup :=
    Multiset.nodup_cons.mp (hsame ▸ h.nodup)
  refine ⟨h.past, h.asked, fun p hp => h.granted p (hq ▸ Multiset.mem_cons_of_mem hp), ?_, ?_,
    hnodup.2, h.elected⟩
  · intro x w hw
    dsimp only at hw
    by_cases hx : x = q.candidate
    · subst hx
      rw [Function.update_self] at hw
      rcases Finset.mem_insert.mp hw with rfl | hw
      · obtain ⟨hvoter, -, hvote⟩ := h.granted q hmem
        exact ⟨hvoter, hterm.symm ▸ hvote⟩
      · exact h.counted w hw
    · rw [Function.update_of_ne hx] at hw
      exact h.counted w hw
  · intro p hp hpterm
    dsimp only at hpterm ⊢
    have hfresh := h.fresh p (hsub p hp) hpterm
    by_cases hx : p.candidate = q.candidate
    · rw [hx, Function.update_self, Finset.mem_insert]
      rintro (hvoter | hw)
      · -- The same voter, candidate and term: the question would be under way twice.
        have hpq : p = q := by
          cases p
          cases q
          simp_all
        exact hnodup.1 (hpq ▸ hp)
      · exact hfresh (hx.symm ▸ hw)
    · rwa [Function.update_of_ne hx]

theorem win (h : Sound voters a) {x : P} (hx : voters.card < 2 * (a.counted x).card) :
    Sound voters { a with elected := fun y t => a.elected y t ∨ y = x ∧ t = a.term x } := by
  refine ⟨h.past, h.asked, h.granted, h.counted, h.fresh, h.nodup, ?_⟩
  rintro y t (hy | ⟨rfl, rfl⟩)
  · exact h.elected hy
  · refine Nat.lt_of_lt_of_le hx (Nat.mul_le_mul_left 2 (Finset.card_le_card fun w hw => ?_))
    exact Finset.mem_filter.mpr (h.counted w hw)

theorem lose (h : Sound voters a) {asked granted : Multiset (Ask P)} (hasked : asked ≤ a.asked)
    (hgranted : granted ≤ a.granted) :
    Sound voters { a with asked := asked, granted := granted } where
  past := h.past
  asked := fun q hq => h.asked q (Multiset.mem_of_le hasked hq)
  granted := fun q hq => h.granted q (Multiset.mem_of_le hgranted hq)
  counted := h.counted
  fresh := fun q hq => h.fresh q (Multiset.mem_of_le (add_le_add hasked hgranted) hq)
  nodup := Multiset.nodup_of_le (add_le_add hasked hgranted) h.nodup
  elected := h.elected

theorem step (h : Sound voters a) (hstep : Step voters a b) : Sound voters b := by
  cases hstep with
  | advance ht => exact h.advance ht
  | stand ht hx hnodup hself hpolled => exact h.stand ht hx hnodup hself hpolled
  | grant hq hterm hfree => exact h.grant hq hterm hfree
  | count hq hterm => exact h.count hq hterm
  | win hx => exact h.win hx
  | lose hasked hgranted => exact h.lose hasked hgranted

end Sound

theorem Sound.steps (h : Sound voters a) (hsteps : Relation.ReflTransGen (Step voters) a b) :
    Sound voters b := by
  induction hsteps with
  | refl => exact h
  | tail _ hstep ih => exact ih.step hstep

theorem Reachable.sound (h : Reachable voters a) : Sound voters a := by
  obtain ⟨term, vote, hsteps⟩ := h
  exact (sound_start term vote).steps hsteps

theorem Reachable.steps (h : Reachable voters a)
    (hsteps : Relation.ReflTransGen (Step voters) a b) : Reachable voters b := by
  obtain ⟨term, vote, ha⟩ := h
  exact ⟨term, vote, ha.trans hsteps⟩

/-- Two majorities have a voter in common, who has voted once. -/
theorem Reachable.elected_unique (h : Reachable voters a) {x y : P} {t : Nat} (hx : a.elected x t)
    (hy : a.elected y t) : x = y := by
  have hcard : voters.card < (voters.filter (a.vote · t = some x)).card +
      (voters.filter (a.vote · t = some y)).card := by
    have := h.sound.elected hx
    have := h.sound.elected hy
    omega
  obtain ⟨v, hv⟩ := Finset.inter_nonempty_of_card_lt_card_add_card (Finset.filter_subset _ _)
    (Finset.filter_subset _ _) hcard
  obtain ⟨hvx, hvy⟩ := Finset.mem_inter.mp hv
  exact Option.some.inj ((Finset.mem_filter.mp hvx).2.symm.trans (Finset.mem_filter.mp hvy).2)

end Voting
