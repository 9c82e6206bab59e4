import Mathlib.Data.List.Basic
import Mathlib.Tactic.Common

/-!
# Reclaiming from the cold end of a recency list

A list ordered by recency gives up elements from its least recent end until a budget is met. Some
elements are protected and are passed over. `reclaim` takes the list least recent first and returns
the survivors in the same order. The budget is of any type: `gain` is what dropping an element adds
to it, `enough` says when to stop.
-/

namespace Recency

variable {α α' β β' : Type}

/-- The survivors of a walk from the least recent element on. -/
def reclaim (keep : α → Bool) (gain : β → α → β) (enough : β → Bool) : β → List α → List α
  | _, [] => []
  | b, x :: xs =>
    if keep x then x :: reclaim keep gain enough b xs
    else if enough (gain b x) then xs
    else reclaim keep gain enough (gain b x) xs

/-- Reclaim from a list kept most recent first, unless the budget is met already. -/
def evict (keep : α → Bool) (gain : β → α → β) (enough : β → Bool) (b : β) (l : List α) : List α :=
  if enough b then l else (reclaim keep gain enough b l.reverse).reverse

section

variable {keep : α → Bool} {gain : β → α → β} {enough : β → Bool}

/-- The survivors keep their order. -/
theorem reclaim_sublist (b : β) (l : List α) : (reclaim keep gain enough b l).Sublist l := by
  induction l generalizing b with
  | nil => exact List.Sublist.refl _
  | cons x xs ih =>
    unfold reclaim
    split
    · exact (ih b).cons_cons x
    · split
      · exact List.sublist_cons_self x xs
      · exact (ih _).cons x

theorem evict_sublist (b : β) (l : List α) : (evict keep gain enough b l).Sublist l := by
  unfold evict
  split
  · exact List.Sublist.refl _
  · have h : (reclaim keep gain enough b l.reverse).reverse.Sublist l.reverse.reverse :=
      (reclaim_sublist b l.reverse).reverse
    rwa [List.reverse_reverse] at h

/-- A protected element survives. -/
theorem mem_reclaim_of_keep {x : α} (hk : keep x = true) {b : β} {l : List α} (hx : x ∈ l) :
    x ∈ reclaim keep gain enough b l := by
  induction l generalizing b with
  | nil => exact absurd hx List.not_mem_nil
  | cons y ys ih =>
    unfold reclaim
    by_cases hy : keep y = true
    · rw [if_pos hy]
      rcases List.mem_cons.mp hx with rfl | hx
      · exact List.mem_cons_self
      · exact List.mem_cons_of_mem _ (ih hx)
    · have hx : x ∈ ys := (List.mem_cons.mp hx).resolve_left fun he => hy (he ▸ hk)
      rw [if_neg hy]
      split
      · exact hx
      · exact ih hx

theorem mem_evict_of_keep {x : α} (hk : keep x = true) {b : β} {l : List α} (hx : x ∈ l) :
    x ∈ evict keep gain enough b l := by
  unfold evict
  split
  · exact hx
  · exact List.mem_reverse.mpr (mem_reclaim_of_keep hk (List.mem_reverse.mpr hx))

/-- Reclaiming passes over a list of protected elements. -/
theorem reclaim_of_all_keep {b : β} {l : List α} (h : ∀ x ∈ l, keep x = true) :
    reclaim keep gain enough b l = l := by
  induction l with
  | nil => rfl
  | cons x xs ih =>
    unfold reclaim
    rw [if_pos (h x List.mem_cons_self), ih fun y hy => h y (List.mem_cons_of_mem x hy)]

/-- It takes at least one element that is not protected. -/
theorem length_reclaim_lt {b : β} {l : List α} {x : α} (hx : x ∈ l) (hk : keep x = false) :
    (reclaim keep gain enough b l).length < l.length := by
  induction l with
  | nil => exact absurd hx List.not_mem_nil
  | cons y ys ih =>
    unfold reclaim
    by_cases hy : keep y = true
    · have hx : x ∈ ys := (List.mem_cons.mp hx).resolve_left fun he => by
        rw [he, hy] at hk
        cases hk
      rw [if_pos hy]
      exact Nat.succ_lt_succ (ih hx)
    · rw [if_neg hy]
      split
      · exact Nat.lt_succ_self _
      · exact Nat.lt_succ_of_le (reclaim_sublist _ _).length_le

/-- The walk goes through an initial part of the list and drops what is not protected there. It goes
on as long as the budget is not met after a drop. -/
theorem reclaim_cut (keep : α → Bool) (gain : β → α → β) (enough : β → Bool) (b : β)
    (l : List α) :
    ∃ pre post, l = pre ++ post ∧ reclaim keep gain enough b l = pre.filter keep ++ post ∧
      (∀ n, 0 < n → n < (pre.filter fun x => !keep x).length →
        enough (((pre.filter fun x => !keep x).take n).foldl gain b) = false) ∧
      (enough ((pre.filter fun x => !keep x).foldl gain b) = true ∨ post = []) := by
  induction l generalizing b with
  | nil => exact ⟨[], [], rfl, rfl, fun _ _ h => absurd h (Nat.not_lt_zero _), .inr rfl⟩
  | cons x xs ih =>
    unfold reclaim
    by_cases hx : keep x = true
    · obtain ⟨pre, post, rfl, heq, hmore, hend⟩ := ih b
      have hgone : (x :: pre).filter (fun x => !keep x) = pre.filter fun x => !keep x :=
        List.filter_cons_of_neg (by simp [hx])
      refine ⟨x :: pre, post, rfl, ?_, ?_, ?_⟩
      · rw [if_pos hx, heq, List.filter_cons_of_pos hx]
        rfl
      · rw [hgone]
        exact hmore
      · rw [hgone]
        exact hend
    · rw [if_neg hx]
      have hgone : ∀ l : List α, (x :: l).filter (fun x => !keep x) =
          x :: l.filter fun x => !keep x := fun l => List.filter_cons_of_pos (by simp [hx])
      by_cases he : enough (gain b x) = true
      · refine ⟨[x], xs, rfl, ?_, ?_, .inl ?_⟩
        · rw [if_pos he, List.filter_cons_of_neg hx]
          rfl
        · rw [hgone]
          exact fun n h0 h1 => absurd h1 (Nat.not_lt.mpr h0)
        · rw [hgone]
          exact he
      · obtain ⟨pre, post, rfl, heq, hmore, hend⟩ := ih (gain b x)
        refine ⟨x :: pre, post, rfl, ?_, ?_, ?_⟩
        · rw [if_neg he, heq, List.filter_cons_of_neg hx]
        · rw [hgone]
          intro n h0 h1
          obtain ⟨n, rfl⟩ := Nat.exists_eq_succ_of_ne_zero (Nat.ne_of_gt h0)
          rw [List.take_succ_cons, List.foldl_cons]
          cases n with
          | zero => exact Bool.eq_false_iff.mpr he
          | succ n => exact hmore (n + 1) (Nat.succ_pos n) (Nat.lt_of_succ_lt_succ h1)
        · rw [hgone]
          exact hend

/-- An eviction cuts the list in two. The part in front stays, of the part behind the protected
elements stay. Those that go are the fewest that meet the budget, least recent first; or the budget
is not met and nothing but protected elements stays. -/
theorem evict_cut (keep : α → Bool) (gain : β → α → β) (enough : β → Bool) (b : β)
    (l : List α) :
    ∃ front back, l = front ++ back ∧ evict keep gain enough b l = front ++ back.filter keep ∧
      (∀ n < ((back.filter fun x => !keep x).reverse).length,
        enough ((((back.filter fun x => !keep x).reverse).take n).foldl gain b) = false) ∧
      (enough ((back.filter fun x => !keep x).reverse.foldl gain b) = true ∨ front = []) := by
  unfold evict
  by_cases hb : enough b = true
  · rw [if_pos hb]
    exact ⟨l, [], (List.append_nil l).symm, (List.append_nil l).symm,
      fun _ h => absurd h (Nat.not_lt_zero _), .inl hb⟩
  · rw [if_neg hb]
    obtain ⟨pre, post, hl, heq, hmore, hend⟩ := reclaim_cut keep gain enough b l.reverse
    have hgone : (pre.reverse.filter fun x => !keep x).reverse = pre.filter fun x => !keep x := by
      rw [List.filter_reverse, List.reverse_reverse]
    refine ⟨post.reverse, pre.reverse, ?_, ?_, ?_, ?_⟩
    · rw [← List.reverse_append, ← hl, List.reverse_reverse]
    · rw [heq, List.reverse_append, List.filter_reverse]
    · rw [hgone]
      intro n hn
      cases n with
      | zero => exact Bool.eq_false_iff.mpr hb
      | succ n => exact hmore (n + 1) (Nat.succ_pos n) hn
    · rw [hgone]
      exact hend.imp_right fun hpost => by rw [hpost]; rfl

/-- Nothing goes exactly when the budget is met or every element is protected. -/
theorem evict_eq_self_iff {b : β} {l : List α} :
    evict keep gain enough b l = l ↔ enough b = true ∨ ∀ x ∈ l, keep x = true := by
  unfold evict
  by_cases hb : enough b = true
  · rw [if_pos hb]
    exact ⟨fun _ => .inl hb, fun _ => rfl⟩
  · rw [if_neg hb]
    constructor
    · intro h
      refine .inr fun x hx => ?_
      by_contra hk
      have hlt : (reclaim keep gain enough b l.reverse).length < l.reverse.length :=
        length_reclaim_lt (List.mem_reverse.mpr hx) (Bool.eq_false_iff.mpr hk)
      rw [← List.length_reverse, h, List.length_reverse] at hlt
      exact Nat.lt_irrefl _ hlt
    · rintro (he | hall)
      · exact absurd he hb
      · rw [reclaim_of_all_keep fun x hx => hall x (List.mem_reverse.mp hx), List.reverse_reverse]

end

/-- Reclaiming looks at an element through `keep` and `gain` only, so it commutes with a map that
preserves both. -/
theorem map_reclaim {keep : α → Bool} {keep' : α' → Bool} {gain : β → α → β} {gain' : β → α' → β}
    {enough : β → Bool} {f : α → α'} (hk : ∀ x, keep' (f x) = keep x)
    (hg : ∀ b x, gain' b (f x) = gain b x) (b : β) (l : List α) :
    (reclaim keep gain enough b l).map f = reclaim keep' gain' enough b (l.map f) := by
  induction l generalizing b with
  | nil => rfl
  | cons x xs ih =>
    simp only [List.map_cons, reclaim, hk, hg]
    split
    · rw [List.map_cons, ih]
    · split
      · rfl
      · exact ih _

theorem map_evict {keep : α → Bool} {keep' : α' → Bool} {gain : β → α → β} {gain' : β → α' → β}
    {enough : β → Bool} {f : α → α'} (hk : ∀ x, keep' (f x) = keep x)
    (hg : ∀ b x, gain' b (f x) = gain b x) (b : β) (l : List α) :
    (evict keep gain enough b l).map f = evict keep' gain' enough b (l.map f) := by
  unfold evict
  split
  · rfl
  · rw [List.map_reverse, map_reclaim hk hg, List.map_reverse]

/-- Two budgets that stay related along the walk reclaim the same elements. The relation may
speak of the elements still ahead. -/
theorem reclaim_congr {keep : α → Bool} {gain : β → α → β} {gain' : β' → α → β'}
    {enough : β → Bool} {enough' : β' → Bool} (rel : List α → β → β' → Prop)
    (hskip : ∀ x xs b b', rel (x :: xs) b b' → rel xs b b')
    (hgain : ∀ x xs b b', rel (x :: xs) b b' → rel xs (gain b x) (gain' b' x))
    (hstop : ∀ xs b b', rel xs b b' → enough b = enough' b') {l : List α} {b : β} {b' : β'}
    (h : rel l b b') : reclaim keep gain enough b l = reclaim keep gain' enough' b' l := by
  induction l generalizing b b' with
  | nil => rfl
  | cons x xs ih =>
    unfold reclaim
    rw [hstop _ _ _ (hgain x xs b b' h), ih (hskip x xs b b' h), ih (hgain x xs b b' h)]

end Recency
