import Mathlib.Data.List.DropRight
import Mathlib.Data.List.Basic

/-!
# Lines and tables

Cutting a text into lines of bounded length, white space at the ends of a line, and tables kept as
association lists.
-/

namespace Text

variable {α : Type}

/-! ## Lines -/

section Lines

variable [DecidableEq α]

/-- At most `n` characters, up to and including the first `newline`; and the rest. -/
def takeLine (newline : α) : Nat → List α → List α × List α
  | 0, s => ([], s)
  | _ + 1, [] => ([], [])
  | n + 1, c :: s =>
    if c = newline then ([c], s)
    else (c :: (takeLine newline n s).1, (takeLine newline n s).2)

/-- The lines of a text, cut after every `newline` and after `width` characters; `cur` is what the
current line has so far. -/
def linesFrom (newline : α) (width : Nat) (cur : List α) : List α → List (List α)
  | [] => if cur = [] then [] else [cur]
  | c :: s =>
    if c = newline ∨ cur.length + 1 = width then (cur ++ [c]) :: linesFrom newline width [] s
    else linesFrom newline width (cur ++ [c]) s

/-- The lines of a text. -/
def lines (newline : α) (width : Nat) (s : List α) : List (List α) := linesFrom newline width [] s

variable {newline : α} {n m width : Nat} {s : List α}

@[simp] theorem takeLine_nil (newline : α) (n : Nat) : takeLine newline n [] = ([], []) := by
  cases n <;> rfl

theorem takeLine_append (newline : α) (n : Nat) (s : List α) :
    (takeLine newline n s).1 ++ (takeLine newline n s).2 = s := by
  induction n generalizing s with
  | zero => rfl
  | succ n ih =>
    cases s with
    | nil => rfl
    | cons c s =>
      rw [takeLine]
      split
      · rfl
      · exact congrArg (c :: ·) (ih s)

theorem length_takeLine_le (newline : α) (n : Nat) (s : List α) :
    (takeLine newline n s).1.length ≤ n := by
  induction n generalizing s with
  | zero => exact Nat.le_refl 0
  | succ n ih =>
    cases s with
    | nil => exact Nat.zero_le _
    | cons c s =>
      rw [takeLine]
      split
      · exact Nat.succ_le_succ (Nat.zero_le n)
      · exact Nat.succ_le_succ (ih s)

theorem takeLine_ne_nil (newline : α) (n : Nat) (hs : s ≠ []) :
    (takeLine newline (n + 1) s).1 ≠ [] := by
  cases s with
  | nil => exact absurd rfl hs
  | cons c s =>
    rw [takeLine]
    split <;> exact List.cons_ne_nil _ _

/-- A newline can only be the last character of a line. -/
theorem newline_notMem_dropLast (newline : α) (n : Nat) (s : List α) :
    newline ∉ (takeLine newline n s).1.dropLast := by
  induction n generalizing s with
  | zero => exact List.not_mem_nil
  | succ n ih =>
    cases s with
    | nil => exact List.not_mem_nil
    | cons c s =>
      rw [takeLine]
      split
      · exact List.not_mem_nil
      · rename_i hc
        cases hline : (takeLine newline n s).1 with
        | nil => exact List.not_mem_nil
        | cons a l =>
          rw [List.dropLast_cons_cons, List.mem_cons, ← hline]
          rintro (heq | hmem)
          · exact hc heq.symm
          · exact ih s hmem

/-- A line that fills its room without a newline goes on with the rest. -/
theorem takeLine_add (hlen : (takeLine newline n s).1.length = n)
    (hlast : (takeLine newline n s).1.getLast? ≠ some newline) :
    takeLine newline (n + m) s =
      ((takeLine newline n s).1 ++ (takeLine newline m (takeLine newline n s).2).1,
        (takeLine newline m (takeLine newline n s).2).2) := by
  induction n generalizing s with
  | zero => rw [Nat.zero_add]; rfl
  | succ n ih =>
    cases s with
    | nil => cases hlen
    | cons c s =>
      rw [Nat.succ_add]
      by_cases hc : c = newline
      · rw [takeLine, if_pos hc] at hlast
        exact absurd (by rw [hc]; rfl) hlast
      · rw [takeLine, if_neg hc] at hlen hlast ⊢
        rw [takeLine, if_neg hc]
        have hlen' : (takeLine newline n s).1.length = n := Nat.succ.inj hlen
        have hlast' : (takeLine newline n s).1.getLast? ≠ some newline := by
          intro heq
          refine hlast ?_
          rw [List.getLast?_cons, heq]
          rfl
        rw [ih hlen' hlast']
        rfl

/-- A line that ends before its room is full, or with a newline, is the same with more room. -/
theorem takeLine_of_ended
    (h : (takeLine newline n s).1.length < n ∨ (takeLine newline n s).1.getLast? = some newline) :
    takeLine newline (n + m) s = takeLine newline n s := by
  induction n generalizing s with
  | zero =>
    rcases h with h | h
    · cases h
    · cases h
  | succ n ih =>
    rw [Nat.succ_add]
    cases s with
    | nil => rfl
    | cons c s =>
      by_cases hc : c = newline
      · rw [takeLine, if_pos hc, takeLine, if_pos hc]
      · rw [takeLine, if_neg hc] at h
        rw [takeLine, if_neg hc, takeLine, if_neg hc, ih]
        rcases h with h | h
        · exact .inl (Nat.lt_of_succ_lt_succ h)
        · cases hline : (takeLine newline n s).1 with
          | nil =>
            rw [hline] at h
            exact absurd (Option.some.inj h) hc
          | cons a l =>
            rw [hline, List.getLast?_cons_cons] at h
            exact .inr h

theorem takeLine_of_lt {l rest : List α} (h : newline ∉ l) (hlt : l.length < n) :
    takeLine newline n (l ++ newline :: rest) = (l ++ [newline], rest) := by
  induction l generalizing n with
  | nil =>
    obtain ⟨n, rfl⟩ := Nat.exists_eq_add_of_lt hlt
    rw [List.nil_append, takeLine, if_pos rfl]
    rfl
  | cons c l ih =>
    obtain ⟨m, rfl⟩ : ∃ m, n = m + 1 := ⟨n - 1, by rw [List.length_cons] at hlt; omega⟩
    have hc : c ≠ newline := fun heq => h (heq ▸ List.mem_cons_self)
    rw [List.cons_append, takeLine, if_neg hc,
      ih (fun hmem => h (List.mem_cons_of_mem _ hmem)) (Nat.lt_of_succ_lt_succ hlt)]
    rfl

theorem takeLine_length {l rest : List α} (h : newline ∉ l) :
    takeLine newline l.length (l ++ rest) = (l, rest) := by
  induction l with
  | nil => rfl
  | cons c l ih =>
    have hc : c ≠ newline := fun heq => h (heq ▸ List.mem_cons_self)
    rw [List.cons_append, List.length_cons, takeLine, if_neg hc,
      ih fun hmem => h (List.mem_cons_of_mem _ hmem)]

theorem linesFrom_eq {cur : List α} (hcur : cur.length < width) (hne : cur ++ s ≠ []) :
    linesFrom newline width cur s =
      (cur ++ (takeLine newline (width - cur.length) s).1) ::
        lines newline width (takeLine newline (width - cur.length) s).2 := by
  induction s generalizing cur with
  | nil =>
    rw [List.append_nil] at hne
    rw [takeLine_nil, linesFrom, if_neg hne, List.append_nil]
    rfl
  | cons c s ih =>
    obtain ⟨k, hk⟩ : ∃ k, width - cur.length = k + 1 := ⟨width - cur.length - 1, by omega⟩
    rw [linesFrom, hk, takeLine]
    by_cases hc : c = newline
    · rw [if_pos (.inl hc), if_pos hc]
      rfl
    · rw [if_neg hc]
      by_cases hfull : cur.length + 1 = width
      · have hzero : k = 0 := by omega
        rw [if_pos (.inr hfull), hzero]
        rfl
      · have hlen : (cur ++ [c]).length = cur.length + 1 := List.length_append
        have hroom : width - (cur ++ [c]).length = k := by omega
        rw [if_neg (by tauto), ih (by omega) (by simp), hroom, List.append_assoc]
        rfl

/-- The first line of a text, and the lines of the rest. -/
theorem lines_eq (hwidth : 0 < width) (hs : s ≠ []) :
    lines newline width s =
      (takeLine newline width s).1 :: lines newline width (takeLine newline width s).2 :=
  linesFrom_eq hwidth hs

/-- A text and a newline are one line, or two when the text fills the width by itself. -/
theorem lines_append (hwidth : 0 < width) {l rest : List α} (h : newline ∉ l)
    (hle : l.length ≤ width) :
    lines newline width (l ++ newline :: rest) =
      if l.length < width then (l ++ [newline]) :: lines newline width rest
      else l :: [newline] :: lines newline width rest := by
  have hne : l ++ newline :: rest ≠ [] :=
    List.append_ne_nil_of_right_ne_nil _ (List.cons_ne_nil _ _)
  rw [lines_eq hwidth hne]
  split
  next hlt => rw [takeLine_of_lt h hlt]
  next hlt =>
    have hlen : l.length = width := by omega
    have hfirst : takeLine newline width (l ++ newline :: rest) = (l, newline :: rest) := by
      rw [← hlen]
      exact takeLine_length h
    have hsecond : takeLine newline width (newline :: rest) = ([newline], rest) :=
      takeLine_of_lt List.not_mem_nil hwidth
    rw [hfirst]
    dsimp only
    rw [lines_eq hwidth (List.cons_ne_nil _ _), hsecond]

end Lines

/-! ## White space -/

section Trim

variable {p : α → Bool} {l : List α}

/-- A list that neither begins nor ends with what `p` accepts. -/
structure Trimmed (p : α → Bool) (l : List α) : Prop where
  left : l.dropWhile p = l
  right : l.rdropWhile p = l

theorem trimmed_of_head_last (hhead : ∀ a, l.head? = some a → p a = false)
    (hlast : ∀ a, l.getLast? = some a → p a = false) : Trimmed p l := by
  constructor
  · cases l with
    | nil => rfl
    | cons a l => rw [List.dropWhile_cons, if_neg (by rw [hhead a rfl]; exact Bool.false_ne_true)]
  · rw [List.rdropWhile_eq_self_iff]
    intro hne
    rw [hlast _ (List.getLast?_eq_some_getLast hne)]
    exact Bool.false_ne_true

theorem Trimmed.head (h : Trimmed p l) {a : α} (ha : l.head? = some a) : p a = false := by
  cases l with
  | nil => cases ha
  | cons b l =>
    cases ha
    have hleft := h.left
    rw [List.dropWhile_cons] at hleft
    split at hleft
    · have hlen := congrArg List.length hleft
      have hle := (List.dropWhile_suffix p (l := l)).length_le
      rw [List.length_cons] at hlen
      omega
    · rename_i hp
      exact Bool.eq_false_iff.mpr hp

theorem Trimmed.last (h : Trimmed p l) {a : α} (ha : l.getLast? = some a) : p a = false := by
  have hne : l ≠ [] := by
    rintro rfl
    cases ha
  have hnot := List.rdropWhile_eq_self_iff.mp h.right hne
  rw [List.getLast?_eq_some_getLast hne] at ha
  rw [Option.some.inj ha] at hnot
  exact Bool.eq_false_iff.mpr hnot

theorem trimmed_dropWhile (p : α → Bool) (l : List α) :
    Trimmed p ((l.rdropWhile p).dropWhile p) := by
  refine trimmed_of_head_last (fun a ha => ?_) (fun a ha => ?_)
  · have hhead := List.head?_dropWhile_not p (l.rdropWhile p)
    rw [ha] at hhead
    exact hhead
  · obtain ⟨t, ht⟩ := List.dropWhile_suffix p (l := l.rdropWhile p)
    have hlast : (l.rdropWhile p).getLast? = some a := by
      rw [← ht, List.getLast?_append, ha]
      rfl
    have hne : l.rdropWhile p ≠ [] := by
      intro hnil
      rw [hnil] at hlast
      cases hlast
    have hnot := List.rdropWhile_last_not p l hne
    rw [List.getLast?_eq_some_getLast hne] at hlast
    rw [Option.some.inj hlast] at hnot
    exact Bool.eq_false_iff.mpr hnot

theorem trimmed_rdropWhile (p : α → Bool) (l : List α) :
    Trimmed p ((l.dropWhile p).rdropWhile p) := by
  refine trimmed_of_head_last (fun a ha => ?_) (fun a ha => ?_)
  · obtain ⟨t, ht⟩ := List.rdropWhile_prefix p (l := l.dropWhile p)
    have hhead := List.head?_dropWhile_not p l
    rw [← ht, List.head?_append, ha] at hhead
    exact hhead
  · have hne : (l.dropWhile p).rdropWhile p ≠ [] := by
      intro hnil
      rw [hnil] at ha
      cases ha
    have hnot := List.rdropWhile_last_not p (l.dropWhile p) hne
    rw [List.getLast?_eq_some_getLast hne] at ha
    rw [Option.some.inj ha] at hnot
    exact Bool.eq_false_iff.mpr hnot

end Trim

/-! ## Tables -/

section Tables

variable {κ β : Type} [DecidableEq κ]

/-- The table with `v` under `k`. -/
def upsert (k : κ) (v : β) : List (κ × β) → List (κ × β)
  | [] => [(k, v)]
  | e :: l => if e.1 = k then (k, v) :: l else e :: upsert k v l

theorem lookup_upsert (k k' : κ) (v : β) (l : List (κ × β)) :
    (upsert k v l).lookup k' = if k' = k then some v else l.lookup k' := by
  induction l with
  | nil =>
    rw [upsert, List.lookup_cons, List.lookup_nil]
    by_cases h : k' = k
    · rw [if_pos h, beq_iff_eq.mpr h]
    · rw [if_neg h, beq_eq_false_iff_ne.mpr h]
  | cons e l ih =>
    obtain ⟨k₀, v₀⟩ := e
    rw [upsert]
    by_cases h₀ : k₀ = k
    · rw [if_pos h₀, List.lookup_cons, List.lookup_cons]
      by_cases h : k' = k
      · rw [if_pos h, beq_iff_eq.mpr h]
      · rw [if_neg h, beq_eq_false_iff_ne.mpr h, beq_eq_false_iff_ne.mpr (h₀ ▸ h)]
    · rw [if_neg h₀, List.lookup_cons, List.lookup_cons, ih]
      by_cases h : k' = k₀
      · have hne : ¬ k' = k := fun heq => h₀ (h.symm.trans heq)
        rw [if_neg hne, if_neg hne]
      · rw [beq_eq_false_iff_ne.mpr h]

end Tables

end Text
