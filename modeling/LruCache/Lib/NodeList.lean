import Mathlib.Data.List.Basic
import Mathlib.Data.List.Nodup
import Mathlib.Data.List.TakeWhile
import Mathlib.Tactic.Common

/-!
# Node lists

A node-based container (a doubly linked list, the nodes of a hash map, the nodes of a search tree)
keeps each element in a node of its own. An iterator, or a pointer to the element, is the address
of that node: it survives insertions, moves and erasures of other nodes, and it dangles once its
own node is erased. The model is the list of the live nodes in container order, each with its
address. An allocator hands out addresses in increasing order and never twice, so a dangling
address is one that no live node has.

The operations are those of a linked list: `get?` follows an iterator, `modify` writes through it,
`erase` and `next` are the two results of erasing at it, `prev` is the element a reverse iterator
shows, and `moveFront` splices a node to the front. Each one is described twice: by membership,
for containers whose order nobody observes, and on a list split at the node, for ordered ones.
-/

/-- Address of a node. -/
abbrev Addr := Nat

/-- An element with the address of the node that holds it. -/
structure Node (α : Type) where
  addr : Addr
  val : α
deriving DecidableEq, Repr

namespace NodeList

variable {α : Type}

/-- The addresses of the live nodes, front to back. -/
def addrs (l : List (Node α)) : List Addr := l.map Node.addr

/-- The element an iterator designates, `none` once its node has been erased. -/
def get? (l : List (Node α)) (a : Addr) : Option α := (l.find? fun n => n.addr == a).map Node.val

/-- Write through an iterator. -/
def modify (l : List (Node α)) (a : Addr) (f : α → α) : List (Node α) :=
  l.map fun n => if n.addr = a then ⟨n.addr, f n.val⟩ else n

/-- Erase the node an iterator designates. -/
def erase (l : List (Node α)) (a : Addr) : List (Node α) := l.filter fun n => n.addr != a

/-- The iterator after `a`; `none` is the end iterator. -/
def next (l : List (Node α)) (a : Addr) : Option Addr :=
  (l.dropWhile fun n => n.addr != a).tail.head?.map Node.addr

/-- The node a reverse iterator shows: the one before its base. The base `none` is the end
iterator, so that `prev l none` is the last node; the result `none` is the reverse end. -/
def prev (l : List (Node α)) (base : Option Addr) : Option (Node α) :=
  (l.takeWhile fun n => some n.addr != base).getLast?

/-- Splice the node at `a` to the front. -/
def moveFront (l : List (Node α)) (a : Addr) : List (Node α) :=
  (l.filter fun n => n.addr == a) ++ erase l a

/-- Dropping the middle element of a list keeps exactly the elements with another `f`, when `f`
tells the elements apart. -/
theorem mem_drop_middle {α β : Type} {f : α → β} {pre post : List α} {r x : α}
    (h : ((pre ++ r :: post).map f).Nodup) :
    x ∈ pre ++ post ↔ x ∈ pre ++ r :: post ∧ f x ≠ f r := by
  rw [List.map_append, List.map_cons, List.nodup_middle, List.nodup_cons, ← List.map_append] at h
  simp only [List.mem_append, List.mem_cons]
  constructor
  · intro hx
    refine ⟨hx.imp_right Or.inr, fun he => h.1 ?_⟩
    rw [← he]
    exact List.mem_map_of_mem (List.mem_append.mpr hx)
  · rintro ⟨hx | rfl | hx, hne⟩
    · exact Or.inl hx
    · exact absurd rfl hne
    · exact Or.inr hx

/-- Two sublists of a list without duplicates that have the same elements are equal. -/
theorem eq_of_sublist {α : Type} {l l₁ l₂ : List α} (hn : l.Nodup) (h₁ : l₁.Sublist l)
    (h₂ : l₂.Sublist l) (hm : ∀ x, x ∈ l₁ ↔ x ∈ l₂) : l₁ = l₂ := by
  induction l generalizing l₁ l₂ with
  | nil => rw [List.sublist_nil.mp h₁, List.sublist_nil.mp h₂]
  | cons x l ih =>
    obtain ⟨hx, hn⟩ := List.nodup_cons.mp hn
    cases h₁ with
    | cons _ h₁ =>
      cases h₂ with
      | cons _ h₂ => exact ih hn h₁ h₂ hm
      | cons_cons _ h₂ => exact absurd (h₁.subset ((hm x).mpr List.mem_cons_self)) hx
    | cons_cons _ h₁ =>
      cases h₂ with
      | cons _ h₂ => exact absurd (h₂.subset ((hm x).mp List.mem_cons_self)) hx
      | cons_cons _ h₂ =>
        refine congrArg (x :: ·) (ih hn h₁ h₂ fun y => ?_)
        have hy := hm y
        rw [List.mem_cons, List.mem_cons] at hy
        constructor
        · intro hyl
          exact (hy.mp (.inr hyl)).resolve_left fun he => hx (he ▸ h₁.subset hyl)
        · intro hyl
          exact (hy.mpr (.inr hyl)).resolve_left fun he => hx (he ▸ h₂.subset hyl)

/-! ## Addresses -/

@[simp] theorem addrs_nil : addrs ([] : List (Node α)) = [] := rfl

@[simp] theorem addrs_cons (n : Node α) (l : List (Node α)) :
    addrs (n :: l) = n.addr :: addrs l := rfl

@[simp] theorem addrs_append (l m : List (Node α)) : addrs (l ++ m) = addrs l ++ addrs m :=
  List.map_append

theorem mem_addrs {l : List (Node α)} {a : Addr} : a ∈ addrs l ↔ ∃ n ∈ l, n.addr = a :=
  List.mem_map

theorem mem_addrs_of_mem {l : List (Node α)} {n : Node α} (h : n ∈ l) : n.addr ∈ addrs l :=
  List.mem_map_of_mem h

/-- Distinct addresses make the node at an address unique. -/
theorem eq_of_addr_eq {l : List (Node α)} (hl : (addrs l).Nodup) {n m : Node α}
    (hn : n ∈ l) (hm : m ∈ l) (h : n.addr = m.addr) : n = m :=
  List.inj_on_of_nodup_map hl hn hm h

@[simp] theorem addrs_modify (l : List (Node α)) (a : Addr) (f : α → α) :
    addrs (modify l a f) = addrs l := by
  unfold addrs modify
  rw [List.map_map]
  refine List.map_congr_left fun n _ => ?_
  simp only [Function.comp_apply]
  split <;> rfl

theorem addrs_erase_sublist (l : List (Node α)) (a : Addr) :
    (addrs (erase l a)).Sublist (addrs l) :=
  List.Sublist.map _ List.filter_sublist

theorem nodup_addrs_erase {l : List (Node α)} (hl : (addrs l).Nodup) (a : Addr) :
    (addrs (erase l a)).Nodup :=
  hl.sublist (addrs_erase_sublist l a)

/-! ## Membership -/

theorem mem_erase {l : List (Node α)} {a : Addr} {n : Node α} :
    n ∈ erase l a ↔ n ∈ l ∧ n.addr ≠ a := by
  simp [erase]

theorem mem_modify {l : List (Node α)} {a : Addr} {f : α → α} {n : Node α} :
    n ∈ modify l a f ↔
      (n ∈ l ∧ n.addr ≠ a) ∨ (∃ m ∈ l, m.addr = a ∧ n = ⟨a, f m.val⟩) := by
  unfold modify
  rw [List.mem_map]
  constructor
  · rintro ⟨m, hm, rfl⟩
    by_cases h : m.addr = a
    · exact Or.inr ⟨m, hm, h, by rw [if_pos h, h]⟩
    · rw [if_neg h]
      exact Or.inl ⟨hm, h⟩
  · rintro (⟨hn, h⟩ | ⟨m, hm, h, rfl⟩)
    · exact ⟨n, hn, if_neg h⟩
    · exact ⟨m, hm, by rw [if_pos h, h]⟩

theorem get?_eq_some_iff {l : List (Node α)} (hl : (addrs l).Nodup) {a : Addr} {v : α} :
    get? l a = some v ↔ (⟨a, v⟩ : Node α) ∈ l := by
  unfold get?
  rw [Option.map_eq_some_iff]
  constructor
  · rintro ⟨n, hf, rfl⟩
    have ha : n.addr = a := by simpa using List.find?_some hf
    subst ha
    exact List.mem_of_find?_eq_some hf
  · intro hm
    cases hf : l.find? fun n => n.addr == a with
    | none =>
      have := List.find?_eq_none.mp hf _ hm
      simp at this
    | some n =>
      have ha : n.addr = a := by simpa using List.find?_some hf
      refine ⟨n, rfl, ?_⟩
      rw [eq_of_addr_eq hl (List.mem_of_find?_eq_some hf) hm ha]

theorem get?_of_mem {l : List (Node α)} (hl : (addrs l).Nodup) {n : Node α} (hn : n ∈ l) :
    get? l n.addr = some n.val :=
  (get?_eq_some_iff hl).mpr hn

theorem mem_of_get? {l : List (Node α)} {a : Addr} {v : α} (h : get? l a = some v) :
    (⟨a, v⟩ : Node α) ∈ l := by
  obtain ⟨n, hf, rfl⟩ := Option.map_eq_some_iff.mp h
  have ha : n.addr = a := by simpa using List.find?_some hf
  subst ha
  exact List.mem_of_find?_eq_some hf

theorem get?_isSome_iff {l : List (Node α)} {a : Addr} : (get? l a).isSome ↔ a ∈ addrs l := by
  simp [get?, mem_addrs]

/-! ## Reading after a change -/

theorem get?_cons (n : Node α) (l : List (Node α)) (i : Addr) :
    get? (n :: l) i = if i = n.addr then some n.val else get? l i := by
  unfold get?
  rw [List.find?_cons]
  by_cases h : i = n.addr
  · rw [if_pos h, h]
    simp
  · rw [if_neg h]
    have hne : (n.addr == i) = false := by simpa using fun he => h (Eq.symm he)
    rw [hne]

theorem get?_erase (l : List (Node α)) (a i : Addr) :
    get? (erase l a) i = if i = a then none else get? l i := by
  induction l with
  | nil => simp [erase, get?]
  | cons n l ih =>
    unfold erase at ih ⊢
    rw [List.filter_cons, get?_cons]
    by_cases ha : n.addr = a
    · subst ha
      rw [if_neg (by simp), ih]
      split
      · rfl
      · rfl
    · rw [if_pos (by simpa using ha), get?_cons, ih]
      by_cases hi : i = n.addr
      · rw [if_pos hi, if_neg (fun he => ha (hi ▸ he)), if_pos hi]
      · rw [if_neg hi, if_neg hi]

theorem get?_modify (l : List (Node α)) (a i : Addr) (f : α → α) :
    get? (modify l a f) i = if i = a then (get? l i).map f else get? l i := by
  induction l with
  | nil => simp [modify, get?]
  | cons n l ih =>
    unfold modify at ih ⊢
    rw [List.map_cons, get?_cons, get?_cons, ih]
    by_cases hn : n.addr = a
    · rw [if_pos hn]
      by_cases hi : i = n.addr
      · rw [if_pos hi, if_pos (hi.trans hn), if_pos hi]
        rfl
      · rw [if_neg hi, if_neg hi]
    · rw [if_neg hn]
      by_cases hi : i = n.addr
      · rw [if_pos hi, if_neg (fun he => hn (hi ▸ he)), if_pos hi]
      · rw [if_neg hi, if_neg hi]

/-- Moving a node changes no element. -/
theorem get?_moveFront (l : List (Node α)) (a i : Addr) : get? (moveFront l a) i = get? l i := by
  have happend : ∀ (k m : List (Node α)), get? (k ++ m) i = (get? k i).or (get? m i) := by
    intro k m
    unfold get?
    rw [List.find?_append]
    cases k.find? fun n => n.addr == i <;> rfl
  have hfilter : get? (l.filter fun n => n.addr == a) i = if i = a then get? l i else none := by
    induction l with
    | nil => simp [get?]
    | cons n l ih =>
      rw [List.filter_cons]
      by_cases ha : n.addr = a
      · rw [if_pos (by simpa using ha), get?_cons, get?_cons, ih]
        by_cases hi : i = n.addr
        · rw [if_pos hi, if_pos hi, if_pos (hi.trans ha)]
        · rw [if_neg hi, if_neg (fun he => hi (he.trans ha.symm)),
            if_neg (fun he => hi (he.trans ha.symm))]
      · rw [if_neg (by simpa using ha), ih, get?_cons]
        by_cases hi : i = n.addr
        · rw [if_neg (fun he => ha (hi ▸ he)), if_neg (fun he => ha (hi ▸ he))]
        · rw [if_neg hi]
  unfold moveFront
  rw [happend, hfilter, get?_erase]
  by_cases hi : i = a
  · rw [if_pos hi, if_pos hi, Option.or_none]
  · rw [if_neg hi, if_neg hi, Option.none_or]

theorem mem_moveFront {l : List (Node α)} {a : Addr} {n : Node α} :
    n ∈ moveFront l a ↔ n ∈ l := by
  unfold moveFront
  rw [List.mem_append, List.mem_filter, mem_erase, beq_iff_eq]
  constructor
  · rintro (⟨hn, -⟩ | ⟨hn, -⟩) <;> exact hn
  · intro hn
    by_cases ha : n.addr = a
    · exact .inl ⟨hn, ha⟩
    · exact .inr ⟨hn, ha⟩

/-! ## Lists split at a node -/

section Split

variable {pre post : List (Node α)} {n : Node α}

theorem not_mem_of_nodup_split (h : (addrs (pre ++ n :: post)).Nodup) :
    n.addr ∉ addrs pre ∧ n.addr ∉ addrs post := by
  rw [addrs_append, addrs_cons, List.nodup_middle, List.nodup_cons, List.mem_append] at h
  exact ⟨fun hp => h.1 (Or.inl hp), fun hp => h.1 (Or.inr hp)⟩

private theorem ne_of_not_mem {l : List (Node α)} {a : Addr} (h : a ∉ addrs l) :
    ∀ m ∈ l, m.addr ≠ a :=
  fun _ hm he => h (he ▸ mem_addrs_of_mem hm)

theorem erase_of_not_mem {l : List (Node α)} {a : Addr} (h : a ∉ addrs l) : erase l a = l := by
  unfold erase
  rw [List.filter_eq_self]
  intro m hm
  simpa using ne_of_not_mem h m hm

theorem erase_split (h : (addrs (pre ++ n :: post)).Nodup) :
    erase (pre ++ n :: post) n.addr = pre ++ post := by
  obtain ⟨hpre, hpost⟩ := not_mem_of_nodup_split h
  have h1 := erase_of_not_mem hpre
  have h2 := erase_of_not_mem hpost
  unfold erase at h1 h2 ⊢
  rw [List.filter_append, List.filter_cons_of_neg (by simp), h1, h2]

theorem moveFront_split (h : (addrs (pre ++ n :: post)).Nodup) :
    moveFront (pre ++ n :: post) n.addr = n :: (pre ++ post) := by
  obtain ⟨hpre, hpost⟩ := not_mem_of_nodup_split h
  have h1 : pre.filter (fun m => m.addr == n.addr) = [] := by
    rw [List.filter_eq_nil_iff]
    intro m hm
    simpa using ne_of_not_mem hpre m hm
  have h2 : post.filter (fun m => m.addr == n.addr) = [] := by
    rw [List.filter_eq_nil_iff]
    intro m hm
    simpa using ne_of_not_mem hpost m hm
  unfold moveFront
  rw [erase_split h, List.filter_append, List.filter_cons_of_pos (by simp), h1, h2]
  rfl

theorem modify_of_not_mem {l : List (Node α)} {a : Addr} (h : a ∉ addrs l) (f : α → α) :
    modify l a f = l := by
  unfold modify
  conv_rhs => rw [← List.map_id l]
  refine List.map_congr_left fun m hm => ?_
  rw [if_neg (ne_of_not_mem h m hm)]
  rfl

theorem modify_split (h : (addrs (pre ++ n :: post)).Nodup) (f : α → α) :
    modify (pre ++ n :: post) n.addr f = pre ++ ⟨n.addr, f n.val⟩ :: post := by
  obtain ⟨hpre, hpost⟩ := not_mem_of_nodup_split h
  have h1 := modify_of_not_mem hpre f
  have h2 := modify_of_not_mem hpost f
  unfold modify at h1 h2 ⊢
  rw [List.map_append, List.map_cons, h1, h2, if_pos rfl]

theorem next_split (h : (addrs (pre ++ n :: post)).Nodup) :
    next (pre ++ n :: post) n.addr = post.head?.map Node.addr := by
  obtain ⟨hpre, -⟩ := not_mem_of_nodup_split h
  unfold next
  rw [List.dropWhile_append_of_pos]
  · rw [List.dropWhile_cons_of_neg (by simp)]
    rfl
  · intro m hm
    simpa using ne_of_not_mem hpre m hm

theorem prev_none (l : List (Node α)) : prev l none = l.getLast? := by
  have hall : l.takeWhile (fun n => some n.addr != none) = l :=
    List.takeWhile_eq_self_iff.mpr fun _ _ => rfl
  rw [prev, hall]

theorem prev_split (h : (addrs (pre ++ n :: post)).Nodup) :
    prev (pre ++ n :: post) (some n.addr) = pre.getLast? := by
  obtain ⟨hpre, -⟩ := not_mem_of_nodup_split h
  unfold prev
  rw [List.takeWhile_append_of_pos]
  · rw [List.takeWhile_cons_of_neg (by simp), List.append_nil]
  · intro m hm
    simpa using ne_of_not_mem hpre m hm

/-- A reverse iterator whose base is the first node of the suffix `post`, or the end iterator when
`post` is empty, shows the last node of the prefix. -/
theorem prev_append (h : (addrs (pre ++ post)).Nodup) :
    prev (pre ++ post) (post.head?.map Node.addr) = pre.getLast? := by
  cases post with
  | nil => simp [prev_none]
  | cons m post => exact prev_split h

end Split

end NodeList
