import Mathlib.Data.Nat.Bitwise
import Mathlib.Tactic.Ring
import Mathlib.Tactic.NormNum

/-!
# Unsigned 64-bit arithmetic on natural numbers

Machine words are natural numbers below `2 ^ 64`; every operation that can overflow reduces its
result with `u64`.
-/

namespace KLib

variable {k n w x : ℕ}

def u64 (n : ℕ) : ℕ := n % 2 ^ 64

lemma u64_lt (n : ℕ) : u64 n < 2 ^ 64 := Nat.mod_lt _ (by positivity)

lemma u64_of_lt (h : n < 2 ^ 64) : u64 n = n := Nat.mod_eq_of_lt h

def u64Dec (n : ℕ) : ℕ := u64 (n + (2 ^ 64 - 1))

def u64Sub (a b : ℕ) : ℕ := u64 (a + (2 ^ 64 - u64 b))

lemma u64Dec_of_pos (h : 0 < n) (h' : n < 2 ^ 64) : u64Dec n = n - 1 := by
  unfold u64Dec u64; omega

lemma u64Sub_of_le {a b : ℕ} (h : b ≤ a) (h' : a < 2 ^ 64) : u64Sub a b = a - b := by
  unfold u64Sub u64; omega

def u32 (n : ℕ) : ℕ := n % 2 ^ 32

lemma u32_of_lt (h : n < 2 ^ 32) : u32 n = n := Nat.mod_eq_of_lt h

def u32Dec (n : ℕ) : ℕ := u32 (n + (2 ^ 32 - 1))

lemma u32Dec_of_pos (h : 0 < n) (h' : n < 2 ^ 32) : u32Dec n = n - 1 := by
  unfold u32Dec u32; omega

def alignDown (x align : ℕ) : ℕ := x &&& (2 ^ 64 - align)

def alignUp (x align : ℕ) : ℕ := alignDown (u64 (x + (align - 1))) align

lemma testBit_highMask (hk : k ≤ 64) (i : ℕ) :
    (2 ^ 64 - 2 ^ k).testBit i = (decide (k ≤ i) && decide (i < 64)) := by
  have h : 2 ^ 64 - 2 ^ k = (2 ^ (64 - k) - 1) * 2 ^ k := by
    rw [Nat.sub_mul, ← pow_add, Nat.sub_add_cancel hk, one_mul]
  rw [h, Nat.testBit_mul_two_pow, Nat.testBit_two_pow_sub_one]
  by_cases hi : k ≤ i
  · simp only [hi, decide_true, Bool.true_and, decide_eq_decide]
    omega
  · simp [hi]

lemma alignDown_two_pow (hx : x < 2 ^ 64) (hk : k ≤ 64) :
    alignDown x (2 ^ k) = x / 2 ^ k * 2 ^ k := by
  apply Nat.eq_of_testBit_eq
  intro i
  rw [alignDown, Nat.testBit_and, testBit_highMask hk, Nat.testBit_mul_two_pow, Nat.testBit_div_two_pow]
  by_cases hi : k ≤ i
  · rw [Nat.sub_add_cancel hi]
    by_cases h64 : i < 64
    · simp [hi, h64]
    have : x.testBit i = false :=
      Nat.testBit_lt_two_pow (hx.trans_le (Nat.pow_le_pow_right (by norm_num) (by omega)))
    simp [hi, this]
  · simp [hi]

lemma alignDown_le (x align : ℕ) : alignDown x align ≤ x := Nat.and_le_left

lemma alignDown_lt (x align : ℕ) (ha : 0 < align) : alignDown x align < 2 ^ 64 := by
  have : alignDown x align ≤ 2 ^ 64 - align := Nat.and_le_right
  omega

lemma alignDown_mod (x : ℕ) (hk : k ≤ 64) : alignDown x (2 ^ k) % 2 ^ k = 0 := by
  apply Nat.eq_of_testBit_eq
  intro i
  rw [Nat.testBit_mod_two_pow, alignDown, Nat.testBit_and, testBit_highMask hk, Nat.zero_testBit]
  by_cases hi : i < k <;> simp [hi]

lemma alignUp_two_pow (h : x + (2 ^ k - 1) < 2 ^ 64) (hk : k ≤ 64) :
    alignUp x (2 ^ k) = (x + (2 ^ k - 1)) / 2 ^ k * 2 ^ k := by
  rw [alignUp, u64_of_lt h, alignDown_two_pow h hk]

lemma getLsbD_one_shiftLeft (k i : ℕ) (hi : i < w) : (1#w <<< k).getLsbD i = decide (i = k) := by
  rw [BitVec.getLsbD_shiftLeft, BitVec.getLsbD_one]
  by_cases h : i = k
  · subst h; simp [hi, show 0 < w by omega]
  by_cases hk : i < k
  · simp [h, hk]
  have : i - k ≠ 0 := by omega
  simp [h, this]

lemma and_one_shiftLeft_bne (x : BitVec w) (hk : k < w) :
    ((x &&& 1#w <<< k) != 0#w) = x.getLsbD k := by
  cases h : x.getLsbD k
  · have h0 : x &&& 1#w <<< k = 0#w := by
      apply BitVec.eq_of_getLsbD_eq
      intro i hi
      rw [BitVec.getLsbD_and, getLsbD_one_shiftLeft _ _ hi, BitVec.getLsbD_zero]
      by_cases e : i = k
      · simp [e, h]
      · simp [e]
    simp [h0]
  rw [bne_iff_ne]
  intro h0
  have := congrArg (fun y => y.getLsbD k) h0
  simp [getLsbD_one_shiftLeft _ _ hk, h] at this

end KLib
