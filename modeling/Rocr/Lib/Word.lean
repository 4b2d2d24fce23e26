import Mathlib

/-!
# Machine words: trailing zeros and counted loops

Two pieces of C that programs over fixed-width words keep using.

`__builtin_ctz` counts the trailing zero bits of a nonzero word; it is
`BitVec.ctz`.  A set bit bounds the count, and the word is a multiple of two
to the count.

`for (uint32_t i = start; i < bound; i += step)` runs with a wrapping
counter.  `forUpTo` runs such a loop with a fuel bound, returning `none` when
the fuel runs out.  When every multiple of `step` below `2^32` is below
`bound`, the counter wraps before reaching `bound` and the loop never exits
(`forUpTo_eq_none`).

`(x + a - 1) & ~(a - 1)` rounds up to a multiple of a power of two `a`: the
mask clears the low bits of a word (`land_two_pow_sub_two_pow`).  The same
masks take apart a word that packs fields into disjoint bits: or-ing a
small field into a multiple of its range adds it (`or_eq_add_of_dvd`), and a
mask of bits `k` to `w - 1` keeps what lies there
(`land_two_pow_sub_two_pow_mod`).  On a wrapping word the rounding happens
modulo `2 ^ w` (`mask_eq_roundUp_mod`), with `roundUp` the rounding of
unbounded numbers.
-/

namespace Word

/-! ## Trailing zeros -/

/-- A number whose low `c` bits are clear is a multiple of `2 ^ c`. -/
theorem two_pow_dvd_of_testBit {n c : Nat} (h : ∀ i < c, n.testBit i = false) : 2 ^ c ∣ n := by
  apply Nat.dvd_of_mod_eq_zero
  apply Nat.eq_of_testBit_eq
  intro i
  rw [Nat.testBit_mod_two_pow, Nat.zero_testBit]
  by_cases hi : i < c
  · simp [hi, h i hi]
  · simp [hi]

variable {w : Nat}

/-- A set bit bounds the number of trailing zeros. -/
theorem ctz_le_of_getLsbD {x : BitVec w} {k : Nat} (h : x.getLsbD k = true) :
    x.ctz.toNat ≤ k := by
  by_contra hlt
  rw [BitVec.getLsbD_false_of_lt_ctz (Nat.lt_of_not_le hlt)] at h
  exact Bool.false_ne_true h

/-- The bits below the trailing-zero count are clear. -/
theorem testBit_of_lt_ctz {x : BitVec w} {i : Nat} (hi : i < x.ctz.toNat) :
    x.toNat.testBit i = false := by
  rw [BitVec.testBit_toNat]
  exact BitVec.getLsbD_false_of_lt_ctz hi

/-! ## Counted loops over `uint32_t` -/

variable {α : Type}

/-- `for (uint32_t i = start; i < bound; i += step) body(i)` with at most
`fuel` iterations, collecting what the body appends; `none` when the body or
the loop runs out of fuel. -/
def forUpTo (bound step : UInt32) (body : UInt32 → Option (List α)) : Nat → UInt32 → Option (List α)
  | 0, _ => none
  | fuel + 1, i =>
    if i < bound then do
      let a ← body i
      let b ← forUpTo bound step body fuel (i + step)
      pure (a ++ b)
    else some []

/-- A multiple of `step` below `2 ^ 32`, with `step` dividing `2 ^ 32`, is at
most `2 ^ 32 - step`. -/
theorem le_sub_of_dvd {step i : Nat} (hstep : step ∣ 2 ^ 32) (hi : step ∣ i) (hlt : i < 2 ^ 32) :
    i ≤ 2 ^ 32 - step := by
  have hd : step ∣ 2 ^ 32 - i := Nat.dvd_sub hstep hi
  have hle : step ≤ 2 ^ 32 - i := Nat.le_of_dvd (by omega) hd
  omega

/-- The counter stays a multiple of `step` as it wraps. -/
theorem dvd_add_step {step : UInt32} {i : UInt32} (hstep : step.toNat ∣ 2 ^ 32)
    (hi : step.toNat ∣ i.toNat) : step.toNat ∣ (i + step).toNat := by
  rw [UInt32.toNat_add]
  exact (Nat.dvd_mod_iff hstep).mpr (Nat.dvd_add hi (dvd_refl _))

/-- When `step` divides `2 ^ 32` and `bound` exceeds `2 ^ 32 - step`, a loop
whose counter starts at a multiple of `step` runs until the fuel is spent. -/
theorem forUpTo_eq_none {bound step : UInt32} (body : UInt32 → Option (List α))
    (hstep : step.toNat ∣ 2 ^ 32) (hbound : 2 ^ 32 - step.toNat < bound.toNat) (fuel : Nat)
    {i : UInt32} (hi : step.toNat ∣ i.toNat) : forUpTo bound step body fuel i = none := by
  induction fuel generalizing i with
  | zero => rfl
  | succ fuel ih =>
    -- every multiple of `step` is below `bound`, so the loop goes round again
    have hlt : i < bound := by
      rw [UInt32.lt_iff_toNat_lt]
      have := le_sub_of_dvd hstep hi i.toNat_lt
      omega
    have hrest := ih (dvd_add_step hstep hi)
    simp only [forUpTo, hlt, if_true, hrest]
    cases body i <;> rfl

/-! ## Rounding with a mask -/

/-- Clearing the low `k` bits of a number below `2 ^ w` with the mask
`2 ^ w - 2 ^ k` rounds it down to a multiple of `2 ^ k`. -/
theorem land_two_pow_sub_two_pow {a k w : Nat} (hk : k ≤ w) (ha : a < 2 ^ w) :
    a &&& (2 ^ w - 2 ^ k) = a / 2 ^ k * 2 ^ k := by
  have hmask : 2 ^ w - 2 ^ k = (2 ^ (w - k) - 1) <<< k := by
    rw [Nat.shiftLeft_eq, Nat.sub_mul, one_mul, ← pow_add, Nat.sub_add_cancel hk]
  have hround : a / 2 ^ k * 2 ^ k = (a >>> k) <<< k := by
    rw [Nat.shiftLeft_eq, Nat.shiftRight_eq_div_pow]
  rw [hmask, hround]
  apply Nat.eq_of_testBit_eq
  intro i
  simp only [Nat.testBit_and, Nat.testBit_shiftLeft, Nat.testBit_shiftRight,
    Nat.testBit_two_pow_sub_one]
  by_cases hi : k ≤ i
  · have hki : k + (i - k) = i := by omega
    by_cases hw : i < w
    · have hwk : i - k < w - k := by omega
      simp [hi, hki, hwk]
    · have hbit : a.testBit i = false :=
        Nat.testBit_lt_two_pow (lt_of_lt_of_le ha (Nat.pow_le_pow_right (by decide) (by omega)))
      simp [hi, hki, hbit]
  · have hik : ¬ i ≥ k := hi
    simp [hik]

/-- A number below `2 ^ 32` is kept by the conversion to a `uint32_t`. -/
theorem toNat_toUInt32 {n : Nat} (h : n < 2 ^ 32) : n.toUInt32.toNat = n :=
  UInt32.toNat_ofNat_of_lt' h

/-- The mask `2 ^ w - 2 ^ k` keeps bits `k` to `w - 1` of any number. -/
theorem land_two_pow_sub_two_pow_mod (a : Nat) {k w : Nat} (hk : k ≤ w) :
    a &&& (2 ^ w - 2 ^ k) = a % 2 ^ w / 2 ^ k * 2 ^ k := by
  have hmask : 2 ^ w - 2 ^ k < 2 ^ w := Nat.sub_lt (Nat.two_pow_pos w) (Nat.two_pow_pos k)
  -- the mask has no bit at `w` or above, so the high part of `a` does not matter
  have hlow : a &&& (2 ^ w - 2 ^ k) = a % 2 ^ w &&& (2 ^ w - 2 ^ k) := by
    apply Nat.eq_of_testBit_eq
    intro i
    by_cases hi : i < w
    · simp [Nat.testBit_and, Nat.testBit_mod_two_pow, hi]
    · have hbit : (2 ^ w - 2 ^ k).testBit i = false :=
        Nat.testBit_lt_two_pow (lt_of_lt_of_le hmask (Nat.pow_le_pow_right (by decide) (by omega)))
      simp [Nat.testBit_and, hbit]
  rw [hlow, land_two_pow_sub_two_pow hk (Nat.mod_lt _ (Nat.two_pow_pos w))]

/-- A number below `2 ^ k` or-ed into a multiple of `2 ^ k` is added to it. -/
theorem or_eq_add_of_dvd {a f k : Nat} (ha : 2 ^ k ∣ a) (hf : f < 2 ^ k) : a ||| f = a + f := by
  obtain ⟨q, rfl⟩ := ha
  exact (Nat.two_pow_add_eq_or_of_lt hf q).symm

/-! ## Rounding up -/

/-- `x` rounded up to a multiple of `a`. -/
def roundUp (x a : Nat) : Nat := (x + a - 1) / a * a

theorem le_roundUp (x : Nat) {a : Nat} (ha : 0 < a) : x ≤ roundUp x a := by
  have hmod := Nat.mod_lt (x + a - 1) ha
  rw [roundUp, Nat.div_mul_self_eq_mod_sub_self]
  omega

theorem roundUp_le (x a : Nat) : roundUp x a ≤ x + a - 1 :=
  Nat.div_mul_le_self _ _

theorem roundUp_mono (a : Nat) {x y : Nat} (h : x ≤ y) : roundUp x a ≤ roundUp y a :=
  Nat.mul_le_mul_right a (Nat.div_le_div_right (by omega))

theorem dvd_roundUp (x a : Nat) : a ∣ roundUp x a :=
  Nat.dvd_mul_left a _

theorem roundUp_zero (a : Nat) : roundUp 0 a = 0 := by
  rcases Nat.eq_zero_or_pos a with rfl | ha
  · simp [roundUp]
  · rw [roundUp, Nat.div_eq_of_lt (by omega), Nat.zero_mul]

/-- A positive size no larger than the unit rounds up to one unit. -/
theorem roundUp_eq_of_le {x a : Nat} (hx : 0 < x) (h : x ≤ a) : roundUp x a = a := by
  have hq : (x + a - 1) / a = 1 := Nat.div_eq_of_lt_le (by omega) (by omega)
  rw [roundUp, hq, Nat.one_mul]

/-- Rounding down to a multiple of `p` commutes with reducing modulo a
multiple `w` of `p`. -/
theorem mod_div_mul_of_dvd (y : Nat) {p w : Nat} (hw : 0 < w) (hpw : p ∣ w) :
    y % w / p * p = y / p * p % w := by
  have hr : y % w % p = y % p := Nat.mod_mod_of_dvd y hpw
  have hle : y % p ≤ y % w := hr ▸ Nat.mod_le _ _
  have hlt := Nat.mod_lt y hw
  have hy := Nat.div_add_mod y w
  rw [Nat.div_mul_self_eq_mod_sub_self, Nat.div_mul_self_eq_mod_sub_self, hr]
  have hsplit : y - y % p = w * (y / w) + (y % w - y % p) := by omega
  have hsmall : y % w - y % p < w := by omega
  rw [hsplit, Nat.mul_add_mod, Nat.mod_eq_of_lt hsmall]

/-- `(x + 2^k - 1) & ~(2^k - 1)` on a `w`-bit word rounds `x` up modulo `2 ^ w`. -/
theorem mask_eq_roundUp_mod (x : Nat) {k w : Nat} (hk : k ≤ w) :
    (x + 2 ^ k - 1) % 2 ^ w &&& (2 ^ w - 2 ^ k) = roundUp x (2 ^ k) % 2 ^ w := by
  rw [land_two_pow_sub_two_pow_mod _ hk, Nat.mod_mod,
    mod_div_mul_of_dvd _ (Nat.two_pow_pos w) (Nat.pow_dvd_pow 2 hk), roundUp]

end Word
