import Mathlib.Algebra.Order.Ring.Nat
import Mathlib.Logic.Function.Iterate
import Mathlib.Tactic.Common

/-!
# Cyclic redundancy checks

The remainder of a polynomial division over the field with two elements, lowest bit first. One step
of the division shifts the remainder and subtracts the polynomial `p` when a bit falls out. Steps
are linear in exclusive or (`steps_xor`), and a remainder whose low bits are clear is only shifted
(`steps_shiftLeft`). From these two facts: bytes can be fed one by one or as a word
(`feed_eq_steps`), and the steps of a word are the sum of the steps of its bytes (`steps_word`),
which is how lookup tables compute them several bytes at a time. When the highest bit of `p` is set
no step loses information (`steps_injective`).
-/

namespace Crc

variable {w : Nat} {p : BitVec w}

/-- One step of the division. -/
def step (p c : BitVec w) : BitVec w := (c >>> 1) ^^^ (if c.getLsbD 0 then p else 0#w)

/-- `n` steps of the division. -/
def steps (p : BitVec w) (n : Nat) (c : BitVec w) : BitVec w := (step p)^[n] c

theorem steps_add (m n : Nat) (c : BitVec w) : steps p (m + n) c = steps p m (steps p n c) :=
  Function.iterate_add_apply (step p) m n c

theorem step_xor (a b : BitVec w) : step p (a ^^^ b) = step p a ^^^ step p b := by
  unfold step
  rw [BitVec.ushiftRight_xor_distrib, BitVec.getLsbD_xor]
  have hswap : ∀ u v x y : BitVec w, u ^^^ v ^^^ (x ^^^ y) = u ^^^ x ^^^ (v ^^^ y) := by
    intro u v x y
    ac_rfl
  rw [hswap]
  congr 1
  cases a.getLsbD 0 <;> cases b.getLsbD 0 <;> simp

theorem steps_xor (n : Nat) (a b : BitVec w) :
    steps p n (a ^^^ b) = steps p n a ^^^ steps p n b := by
  induction n generalizing a b with
  | zero => rfl
  | succ n ih =>
    show steps p n (step p (a ^^^ b)) = steps p n (step p a) ^^^ steps p n (step p b)
    rw [step_xor, ih]

theorem steps_zero (n : Nat) : steps p n 0#w = 0#w := by
  have h := steps_xor (p := p) n 0#w 0#w
  rwa [BitVec.xor_self, BitVec.xor_self] at h

theorem step_shiftLeft_one {x : BitVec w} (h : x.toNat * 2 < 2 ^ w) : step p (x <<< 1) = x := by
  have hlow : (x <<< 1).getLsbD 0 = false := by simp
  have hback : x <<< 1 >>> 1 = x := by
    apply BitVec.eq_of_toNat_eq
    rw [BitVec.toNat_ushiftRight, BitVec.toNat_shiftLeft, Nat.shiftLeft_eq, Nat.pow_one,
      Nat.mod_eq_of_lt h, Nat.shiftRight_eq_div_pow, Nat.pow_one, Nat.mul_div_cancel _ Nat.two_pos]
  unfold step
  rw [hlow, hback]
  simp

/-- A remainder whose low bits are clear is only shifted. -/
theorem steps_shiftLeft {n : Nat} {x : BitVec w} (h : x.toNat * 2 ^ n < 2 ^ w) :
    steps p n (x <<< n) = x := by
  induction n with
  | zero =>
    rw [BitVec.shiftLeft_zero]
    rfl
  | succ n ih =>
    have hn : x.toNat * 2 ^ n * 2 < 2 ^ w := by rwa [Nat.mul_assoc, ← Nat.pow_succ]
    have hlt : x.toNat * 2 ^ n < 2 ^ w := by omega
    have hone : (x <<< n).toNat * 2 < 2 ^ w := by
      rwa [BitVec.toNat_shiftLeft, Nat.shiftLeft_eq, Nat.mod_eq_of_lt hlt]
    show steps p n (step p (x <<< (n + 1))) = x
    rw [BitVec.shiftLeft_add, step_shiftLeft_one hone, ih hlt]

/-! ## Words and their bytes -/

/-- The word with these bytes, lowest first. -/
def word : List (BitVec w) → BitVec w
  | [] => 0#w
  | b :: bs => b ||| (word bs <<< 8)

/-- The `n` low bytes of a word, lowest first. -/
def bytes : Nat → BitVec w → List (BitVec w)
  | 0, _ => []
  | n + 1, x => (x &&& 255#w) :: bytes n (x >>> 8)

theorem getLsbD_byte {b : BitVec w} (hb : b.toNat < 256) {i : Nat} (hi : 8 ≤ i) :
    b.getLsbD i = false := by
  rw [BitVec.getLsbD]
  exact Nat.testBit_lt_two_pow (Nat.lt_of_lt_of_le hb (Nat.pow_le_pow_right Nat.two_pos hi))

theorem word_cons {b : BitVec w} (hb : b.toNat < 256) (bs : List (BitVec w)) :
    word (b :: bs) = b ^^^ (word bs <<< 8) := by
  apply BitVec.eq_of_getLsbD_eq
  intro i hi
  rw [word, BitVec.getLsbD_or, BitVec.getLsbD_xor, BitVec.getLsbD_shiftLeft]
  by_cases h8 : i < 8
  · simp [h8]
  · rw [getLsbD_byte hb (Nat.le_of_not_lt h8)]
    simp

theorem toNat_word_lt {bs : List (BitVec w)} (hbs : ∀ b ∈ bs, b.toNat < 256) :
    (word bs).toNat < 2 ^ (8 * bs.length) := by
  induction bs with
  | nil => exact Nat.one_pos
  | cons b bs ih =>
    have hb := hbs b List.mem_cons_self
    have hrest := ih fun c hc => hbs c (List.mem_cons_of_mem b hc)
    have hpow : 2 ^ (8 * (b :: bs).length) = 2 ^ (8 * bs.length) * 256 := by
      rw [List.length_cons, Nat.mul_succ, Nat.pow_add]
    have hlow : b.toNat < 2 ^ (8 * (b :: bs).length) := by
      have := Nat.one_le_two_pow (n := 8 * bs.length)
      omega
    have hhigh : (word bs <<< 8).toNat < 2 ^ (8 * (b :: bs).length) := by
      rw [BitVec.toNat_shiftLeft, Nat.shiftLeft_eq]
      exact Nat.lt_of_le_of_lt (Nat.mod_le _ _) (by omega)
    rw [word, BitVec.toNat_or]
    exact Nat.or_lt_two_pow hlow hhigh

theorem toNat_word_cons {b : BitVec w} {bs : List (BitVec w)} (hbs : ∀ c ∈ b :: bs, c.toNat < 256)
    (hw : 8 * (b :: bs).length ≤ w) :
    (word (b :: bs)).toNat = (word bs).toNat * 256 + b.toNat := by
  have hb : b.toNat < 2 ^ 8 := hbs b List.mem_cons_self
  have hrest := toNat_word_lt fun c hc => hbs c (List.mem_cons_of_mem b hc)
  have hfit : (word bs).toNat <<< 8 < 2 ^ w := by
    rw [List.length_cons, Nat.mul_succ] at hw
    refine Nat.lt_of_lt_of_le ?_ (Nat.pow_le_pow_right Nat.two_pos hw)
    rw [Nat.shiftLeft_eq, Nat.pow_add]
    exact Nat.mul_lt_mul_of_pos_right hrest (by decide)
  rw [word, BitVec.toNat_or, BitVec.toNat_shiftLeft, Nat.mod_eq_of_lt hfit, Nat.or_comm,
    ← Nat.shiftLeft_add_eq_or_of_lt hb, Nat.shiftLeft_eq]

/-- A word tells its bytes apart. -/
theorem word_inj {as bs : List (BitVec w)} (hlen : as.length = bs.length)
    (has : ∀ a ∈ as, a.toNat < 256) (hbs : ∀ b ∈ bs, b.toNat < 256) (hw : 8 * as.length ≤ w)
    (h : word as = word bs) : as = bs := by
  induction as generalizing bs with
  | nil => exact (List.eq_nil_of_length_eq_zero hlen.symm).symm
  | cons a as ih =>
    cases bs with
    | nil => cases hlen
    | cons b bs =>
      have hnat := congrArg BitVec.toNat h
      have ha := has a List.mem_cons_self
      have hb := hbs b List.mem_cons_self
      rw [toNat_word_cons has hw, toNat_word_cons hbs (hlen ▸ hw)] at hnat
      rw [List.length_cons] at hw
      have hhead : a = b := BitVec.eq_of_toNat_eq (by omega)
      have htail : word as = word bs := BitVec.eq_of_toNat_eq (by omega)
      rw [hhead, ih (Nat.succ.inj hlen) (fun c hc => has c (List.mem_cons_of_mem a hc))
        (fun c hc => hbs c (List.mem_cons_of_mem b hc)) (by omega) htail]

theorem word_bytes {n : Nat} {x : BitVec w} (h : x.toNat < 2 ^ (8 * n)) : word (bytes n x) = x := by
  induction n generalizing x with
  | zero =>
    apply BitVec.eq_of_toNat_eq
    rw [Nat.mul_zero, Nat.pow_zero] at h
    show 0 = x.toNat
    omega
  | succ n ih =>
    have hhigh : (x >>> 8).toNat < 2 ^ (8 * n) := by
      rw [BitVec.toNat_ushiftRight, Nat.shiftRight_eq_div_pow]
      exact Nat.div_lt_of_lt_mul (by rwa [Nat.mul_comm, ← Nat.pow_add])
    apply BitVec.eq_of_getLsbD_eq
    intro i hi
    rw [bytes, word, ih hhigh, BitVec.getLsbD_or, BitVec.getLsbD_and, BitVec.getLsbD_shiftLeft,
      BitVec.getLsbD_ushiftRight]
    have hmask : (255#w).getLsbD i = decide (i < 8) := by
      rw [BitVec.getLsbD_ofNat, show (255 : Nat) = 2 ^ 8 - 1 from rfl, Nat.testBit_two_pow_sub_one]
      simp [hi]
    rw [hmask]
    by_cases h8 : i < 8
    · simp [h8]
    · have hi8 : 8 + (i - 8) = i := by omega
      simp [h8, hi8, hi]

/-- Eight steps look at the low byte only. -/
theorem steps_eight (x : BitVec w) : steps p 8 x = (x >>> 8) ^^^ steps p 8 (x &&& 255#w) := by
  have hlow : (x &&& 255#w).toNat < 256 := by
    rw [BitVec.toNat_and, BitVec.toNat_ofNat]
    exact Nat.lt_of_le_of_lt Nat.and_le_right (Nat.lt_of_le_of_lt (Nat.mod_le _ _) (by decide))
  have hhigh : (x >>> 8).toNat * 2 ^ 8 < 2 ^ w := by
    rw [BitVec.toNat_ushiftRight, Nat.shiftRight_eq_div_pow]
    exact Nat.lt_of_le_of_lt (Nat.div_mul_le_self _ _) x.isLt
  have hsplit : x = (x &&& 255#w) ^^^ (x >>> 8) <<< 8 := by
    have hx : x.toNat < 2 ^ (8 * (w + 1)) :=
      Nat.lt_of_lt_of_le x.isLt (Nat.pow_le_pow_right Nat.two_pos (by omega))
    have hrest : (x >>> 8).toNat < 2 ^ (8 * w) :=
      Nat.lt_of_le_of_lt (by rw [BitVec.toNat_ushiftRight]; exact Nat.shiftRight_le _ _)
        (Nat.lt_of_lt_of_le x.isLt (Nat.pow_le_pow_right Nat.two_pos (by omega)))
    have hword := word_bytes hx
    rwa [bytes, word_cons hlow, word_bytes hrest, eq_comm] at hword
  calc steps p 8 x
      = steps p 8 ((x &&& 255#w) ^^^ (x >>> 8) <<< 8) := congrArg (steps p 8) hsplit
    _ = (x >>> 8) ^^^ steps p 8 (x &&& 255#w) := by
      rw [steps_xor, steps_shiftLeft hhigh, BitVec.xor_comm]

theorem bytes_lt {n : Nat} {x b : BitVec w} (hb : b ∈ bytes n x) : b.toNat < 256 := by
  induction n generalizing x with
  | zero => cases hb
  | succ n ih =>
    rcases List.mem_cons.mp hb with rfl | hb
    · rw [BitVec.toNat_and]
      refine Nat.lt_of_le_of_lt Nat.and_le_right ?_
      rw [BitVec.toNat_ofNat]
      exact Nat.lt_of_le_of_lt (Nat.mod_le _ _) (by decide)
    · exact ih hb

/-! ## Feeding bytes -/

/-- The remainder after some more bytes of the message. -/
def feed (p c : BitVec w) (bs : List (BitVec w)) : BitVec w :=
  bs.foldl (fun c b => steps p 8 (c ^^^ b)) c

/-- The bytes of a word can be fed at once. -/
theorem feed_eq_steps {bs : List (BitVec w)} (hbs : ∀ b ∈ bs, b.toNat < 256)
    (hw : 8 * bs.length ≤ w) (c : BitVec w) :
    feed p c bs = steps p (8 * bs.length) (c ^^^ word bs) := by
  induction bs generalizing c with
  | nil =>
    show c = c ^^^ 0#w
    rw [BitVec.xor_zero]
  | cons b bs ih =>
    have hb := hbs b List.mem_cons_self
    have hrest : ∀ d ∈ bs, d.toNat < 256 := fun d hd => hbs d (List.mem_cons_of_mem b hd)
    rw [List.length_cons, Nat.mul_succ] at hw ⊢
    have hshift : steps p 8 (word bs <<< 8) = word bs := by
      refine steps_shiftLeft (Nat.lt_of_lt_of_le ?_ (Nat.pow_le_pow_right Nat.two_pos hw))
      rw [Nat.pow_add]
      exact Nat.mul_lt_mul_of_pos_right (toNat_word_lt hrest) (by decide)
    calc feed p c (b :: bs)
        = feed p (steps p 8 (c ^^^ b)) bs := rfl
      _ = steps p (8 * bs.length) (steps p 8 (c ^^^ b) ^^^ steps p 8 (word bs <<< 8)) := by
        rw [ih hrest (by omega), hshift]
      _ = steps p (8 * bs.length + 8) (c ^^^ word (b :: bs)) := by
        rw [← steps_xor, ← steps_add, word_cons hb, BitVec.xor_assoc]

/-- The sum of the steps of single bytes, the first of which is `n` bytes from its end. -/
def slices (p : BitVec w) : Nat → List (BitVec w) → BitVec w
  | _, [] => 0#w
  | n, b :: bs => steps p (8 * n) b ^^^ slices p (n - 1) bs

/-- A word divided byte by byte, as lookup tables do it. -/
theorem steps_word {bs : List (BitVec w)} (hbs : ∀ b ∈ bs, b.toNat < 256)
    (hw : 8 * bs.length ≤ w) {n : Nat} (hn : bs.length ≤ n) :
    steps p (8 * n) (word bs) = slices p n bs := by
  induction bs generalizing n with
  | nil => exact steps_zero _
  | cons b bs ih =>
    have hb := hbs b List.mem_cons_self
    have hrest : ∀ d ∈ bs, d.toNat < 256 := fun d hd => hbs d (List.mem_cons_of_mem b hd)
    rw [List.length_cons] at hn
    rw [List.length_cons, Nat.mul_succ] at hw
    have hshift : steps p 8 (word bs <<< 8) = word bs := by
      refine steps_shiftLeft (Nat.lt_of_lt_of_le ?_ (Nat.pow_le_pow_right Nat.two_pos hw))
      rw [Nat.pow_add]
      exact Nat.mul_lt_mul_of_pos_right (toNat_word_lt hrest) (by decide)
    have hsplit : 8 * n = 8 * (n - 1) + 8 := by omega
    calc steps p (8 * n) (word (b :: bs))
        = steps p (8 * n) b ^^^ steps p (8 * n) (word bs <<< 8) := by
          rw [word_cons hb, steps_xor]
      _ = steps p (8 * n) b ^^^ steps p (8 * (n - 1)) (word bs) := by
        congr 1
        rw [hsplit, steps_add, hshift]
      _ = slices p n (b :: bs) := by rw [ih hrest (by omega) (by omega), slices]

/-! ## Nothing is lost -/

theorem eq_of_xor_eq_zero {a b : BitVec w} (h : a ^^^ b = 0#w) : a = b := by
  have hab : a ^^^ b ^^^ b = b := by rw [h, BitVec.zero_xor]
  rwa [BitVec.xor_assoc, BitVec.xor_self, BitVec.xor_zero] at hab

theorem step_eq_zero (hp : p.msb = true) {c : BitVec w} (h : step p c = 0#w) : c = 0#w := by
  unfold step at h
  have htop : (c >>> 1).msb = false := by
    rw [BitVec.msb_eq_getLsbD_last, BitVec.getLsbD_ushiftRight]
    exact BitVec.getLsbD_of_ge _ _ (by omega)
  split at h
  · -- The polynomial would have to be a shifted word, whose highest bit is clear.
    rw [eq_of_xor_eq_zero h, hp] at htop
    cases htop
  next hlow =>
    rw [BitVec.xor_zero] at h
    apply BitVec.eq_of_toNat_eq
    have hhalf := congrArg BitVec.toNat h
    rw [BitVec.toNat_ushiftRight, Nat.shiftRight_eq_div_pow, Nat.pow_one,
      BitVec.toNat_zero] at hhalf
    have hbit : c.toNat % 2 = 0 := by
      have hb := Bool.eq_false_iff.mpr hlow
      rw [BitVec.getLsbD, Nat.testBit_zero] at hb
      have := of_decide_eq_false hb
      omega
    rw [BitVec.toNat_zero]
    omega

theorem step_injective (hp : p.msb = true) : Function.Injective (step p) := by
  intro a b hab
  refine eq_of_xor_eq_zero (step_eq_zero hp ?_)
  rw [step_xor, hab, BitVec.xor_self]

theorem steps_injective (hp : p.msb = true) (n : Nat) : Function.Injective (steps p n) :=
  (step_injective hp).iterate n

theorem feed_injective (hp : p.msb = true) (bs : List (BitVec w)) :
    Function.Injective fun c => feed p c bs := by
  induction bs with
  | nil => exact fun _ _ h => h
  | cons b bs ih =>
    intro c d h
    have hcd := steps_injective hp 8 (ih h)
    refine eq_of_xor_eq_zero ?_
    have hxor : c ^^^ b ^^^ (d ^^^ b) = 0#w := by rw [hcd, BitVec.xor_self]
    rwa [show c ^^^ b ^^^ (d ^^^ b) = c ^^^ d ^^^ (b ^^^ b) by ac_rfl, BitVec.xor_self,
      BitVec.xor_zero] at hxor

/-- A message altered within one word has another remainder. -/
theorem feed_ne_of_burst (hp : p.msb = true) {as bs cs ds : List (BitVec w)}
    (hlen : bs.length = cs.length) (hbs : ∀ b ∈ bs, b.toNat < 256) (hcs : ∀ b ∈ cs, b.toNat < 256)
    (hw : 8 * bs.length ≤ w) (hne : bs ≠ cs) (c : BitVec w) :
    feed p c (as ++ bs ++ ds) ≠ feed p c (as ++ cs ++ ds) := by
  intro h
  unfold feed at h
  simp only [List.foldl_append] at h
  have hmid : feed p (feed p c as) bs = feed p (feed p c as) cs := feed_injective hp ds h
  rw [feed_eq_steps hbs hw, feed_eq_steps hcs (hlen ▸ hw), hlen] at hmid
  have hxor := steps_injective hp _ hmid
  refine hne (word_inj hlen hbs hcs hw (eq_of_xor_eq_zero ?_))
  have hcancel : feed p c as ^^^ word bs ^^^ (feed p c as ^^^ word cs) = word bs ^^^ word cs := by
    rw [show feed p c as ^^^ word bs ^^^ (feed p c as ^^^ word cs) =
        feed p c as ^^^ feed p c as ^^^ (word bs ^^^ word cs) by ac_rfl,
      BitVec.xor_self, BitVec.zero_xor]
  rw [← hcancel, hxor, BitVec.xor_self]

end Crc
