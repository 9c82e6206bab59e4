import Mathlib.Algebra.Order.Ring.Nat
import Mathlib.Tactic.Common

/-!
# Bytes and buffers

Numbers of a fixed width as bytes, least significant first; a list split after a given number of
elements, for readers; and a buffer of fixed length that writers overwrite piece by piece.

Writing one piece after another is writing them at once (`overwrite_append`), so a writer is
described by the bytes it writes in total.
-/

namespace Bytes

/-! ## Numbers -/

/-- The `w` low bytes of `n`. -/
def ofNat : Nat → Nat → List UInt8
  | 0, _ => []
  | w + 1, n => UInt8.ofNat n :: ofNat w (n / 256)

/-- The number with these bytes. -/
def toNat (bytes : List UInt8) : Nat := bytes.foldr (fun b n => b.toNat + 256 * n) 0

@[simp] theorem length_ofNat (w n : Nat) : (ofNat w n).length = w := by
  induction w generalizing n with
  | zero => rfl
  | succ w ih => exact congrArg Nat.succ (ih (n / 256))

theorem toNat_ofNat {w n : Nat} (h : n < 256 ^ w) : toNat (ofNat w n) = n := by
  induction w generalizing n with
  | zero =>
    rw [Nat.pow_zero, Nat.lt_one_iff] at h
    exact h.symm
  | succ w ih =>
    have hdiv : n / 256 < 256 ^ w := Nat.div_lt_of_lt_mul (by rwa [Nat.mul_comm, ← Nat.pow_succ])
    show (UInt8.ofNat n).toNat + 256 * toNat (ofNat w (n / 256)) = n
    rw [ih hdiv, UInt8.toNat_ofNat']
    exact Nat.mod_add_div n 256

theorem toNat_cons (b : UInt8) (l : List UInt8) : toNat (b :: l) = b.toNat + 256 * toNat l := rfl

theorem ofNat_toNat (l : List UInt8) : ofNat l.length (toNat l) = l := by
  induction l with
  | nil => rfl
  | cons b l ih =>
    have hb := b.toNat_lt
    have hlow : UInt8.ofNat (b.toNat + 256 * toNat l) = b := by
      refine UInt8.toNat_inj.mp ?_
      rw [UInt8.toNat_ofNat']
      omega
    have hhigh : (b.toNat + 256 * toNat l) / 256 = toNat l := by omega
    rw [toNat_cons, List.length_cons, ofNat, hlow, hhigh, ih]

theorem toNat_lt (l : List UInt8) : toNat l < 256 ^ l.length := by
  induction l with
  | nil => exact Nat.zero_lt_one
  | cons b l ih =>
    have hb := b.toNat_lt
    rw [toNat_cons, List.length_cons, Nat.pow_succ]
    omega

/-! ## Reading -/

section Split

variable {α : Type}

/-- The first `n` elements and the rest. -/
def split (n : Nat) (l : List α) : Option (List α × List α) :=
  if n ≤ l.length then some (l.take n, l.drop n) else none

theorem split_append (a b : List α) : split a.length (a ++ b) = some (a, b) := by
  unfold split
  rw [if_pos (by simp), List.take_left, List.drop_left]

theorem split_eq_some {n : Nat} {l a b : List α} (h : split n l = some (a, b)) :
    a.length = n ∧ a ++ b = l := by
  unfold split at h
  split at h
  · next hn =>
    cases h
    exact ⟨List.length_take_of_le hn, List.take_append_drop n l⟩
  · cases h

/-! ## Writing -/

/-- The buffer with `src` at `pos`, when it fits. -/
def overwrite (buffer : List α) (pos : Nat) (src : List α) : Option (List α) :=
  if pos + src.length ≤ buffer.length then
    some (buffer.take pos ++ src ++ buffer.drop (pos + src.length))
  else none

variable {buffer buffer' src : List α} {pos : Nat}

theorem overwrite_eq_some (h : pos + src.length ≤ buffer.length) :
    overwrite buffer pos src = some (buffer.take pos ++ src ++ buffer.drop (pos + src.length)) :=
  if_pos h

theorem le_of_overwrite (h : overwrite buffer pos src = some buffer') :
    pos + src.length ≤ buffer.length := by
  unfold overwrite at h
  split at h
  · next hle => exact hle
  · cases h

theorem length_overwrite (h : overwrite buffer pos src = some buffer') :
    buffer'.length = buffer.length := by
  have hle := le_of_overwrite h
  rw [overwrite_eq_some hle] at h
  cases h
  simp only [List.length_append, List.length_take, List.length_drop]
  omega

theorem take_overwrite (h : overwrite buffer pos src = some buffer') :
    buffer'.take (pos + src.length) = buffer.take pos ++ src := by
  have hle := le_of_overwrite h
  rw [overwrite_eq_some hle] at h
  cases h
  have hlen : (buffer.take pos ++ src).length = pos + src.length := by
    rw [List.length_append, List.length_take_of_le (by omega)]
  rw [← hlen, List.take_left]

/-- Two pieces, one after the other, are written as one. -/
theorem overwrite_append (a b : List α) :
    overwrite buffer pos (a ++ b) =
      (overwrite buffer pos a).bind fun u => overwrite u (pos + a.length) b := by
  by_cases ha : pos + a.length ≤ buffer.length
  · have hlen : (buffer.take pos ++ a).length = pos + a.length := by
      rw [List.length_append, List.length_take_of_le (by omega)]
    have hlen' := length_overwrite (overwrite_eq_some ha)
    rw [overwrite_eq_some ha, Option.bind_some]
    unfold overwrite
    rw [hlen', List.length_append, ← Nat.add_assoc]
    refine if_congr Iff.rfl ?_ rfl
    have hdrop : (buffer.take pos ++ a ++ buffer.drop (pos + a.length)).drop
        (pos + a.length + b.length) = buffer.drop (pos + a.length + b.length) := by
      rw [← hlen, List.drop_length_add_append, hlen, List.drop_drop]
    have htake : (buffer.take pos ++ a ++ buffer.drop (pos + a.length)).take (pos + a.length) =
        buffer.take pos ++ a := by
      rw [← hlen, List.take_left]
    rw [hdrop, htake, List.append_assoc (buffer.take pos) a b]
  · have hab : ¬ pos + (a ++ b).length ≤ buffer.length := by
      rw [List.length_append]
      omega
    unfold overwrite
    rw [if_neg ha, if_neg hab]
    rfl

end Split

end Bytes
