import Mathlib.Data.Nat.ModEq
import Mathlib.Data.UInt
import Mathlib.Tactic.NormNum
import Mathlib.Tactic.Ring
import MiniPascal.Token.LexemeHash

/-!
# Which bytes a hash depends on

The sum of a sequence of bytes weighs each byte by a power of 32 for each byte behind it,
modulo `2 ^ 64`, and the final mix tells all sums apart.  So two hashes are equal only if the sums
are, however the bytes were cut into writes.  Thirteen bytes behind a byte give it a weight that is
a multiple of `2 ^ 64`, so the hash depends on the last thirteen bytes only.
-/

namespace MiniPascal

namespace LexemeHash

/-! ### Sums -/

/-- The sum of the bytes, each weighed by 32 for each byte behind it. -/
def weightedSum : List UInt8 → Nat
  | [] => 0
  | b :: bs => b.toNat * 32 ^ bs.length + weightedSum bs

theorem weightedSum_append (bytes more : List UInt8) :
    weightedSum (bytes ++ more) = weightedSum bytes * 32 ^ more.length + weightedSum more := by
  induction bytes with
  | nil => simp [weightedSum]
  | cons b bytes ih =>
      rw [List.cons_append, weightedSum, ih, List.length_append, weightedSum]
      ring

theorem toNat_sum_push (h : LexemeHash) (b : UInt8) :
    (h.push b).sum.toNat = (h.sum.toNat * 32 + b.toNat) % 2 ^ 64 := by
  simp [push, Nat.shiftLeft_eq]

/-- Bytes that are written move the sum up and add their own. -/
theorem toNat_sum_write (h : LexemeHash) (bytes : List UInt8) :
    (h.write bytes).sum.toNat =
      (h.sum.toNat * 32 ^ bytes.length + weightedSum bytes) % 2 ^ 64 := by
  induction bytes generalizing h with
  | nil => simp [write, weightedSum, Nat.mod_eq_of_lt h.sum.toNat_lt]
  | cons b bytes ih =>
      have hwrite : h.write (b :: bytes) = (h.push b).write bytes := rfl
      have hpush : (h.push b).sum.toNat ≡ h.sum.toNat * 32 + b.toNat [MOD 2 ^ 64] := by
        rw [toNat_sum_push]
        exact Nat.mod_modEq ..
      rw [hwrite, ih]
      calc (h.push b).sum.toNat * 32 ^ bytes.length + weightedSum bytes
          ≡ (h.sum.toNat * 32 + b.toNat) * 32 ^ bytes.length + weightedSum bytes [MOD 2 ^ 64] :=
            (hpush.mul_right _).add_right _
        _ = h.sum.toNat * 32 ^ (b :: bytes).length + weightedSum (b :: bytes) := by
            rw [weightedSum, List.length_cons]
            ring

/-! ### The mix -/

/-- The upper half is not changed by folding, so folding again takes it off the lower half. -/
theorem fold_involutive : Function.Involutive fold := by
  intro x
  have hshift : x >>> 33 >>> 33 = 0 := by
    rw [← UInt64.toNat_inj]
    have hx := x.toNat_lt
    simp only [UInt64.toNat_shiftRight, Nat.shiftRight_eq_div_pow]
    show x.toNat / 2 ^ 33 / 2 ^ 33 = 0
    omega
  rw [fold, fold, UInt64.shiftRight_xor, hshift, UInt64.xor_zero, UInt64.xor_assoc,
    UInt64.xor_self, UInt64.xor_zero]

theorem mul_injective {k inverse : UInt64} (h : k * inverse = 1) :
    Function.Injective fun x : UInt64 => x * k := by
  refine Function.LeftInverse.injective (g := fun x => x * inverse) fun x => ?_
  show x * k * inverse = x
  rw [UInt64.mul_assoc, h, UInt64.mul_one]

/-- The mix undoes nothing: every step of it can be taken back. -/
theorem finish_injective : Function.Injective finish := by
  intro g h hfinish
  have hfirst := mul_injective
    (show (0xff51afd7ed558ccd : UInt64) * 0x4f74430c22a54005 = 1 by decide)
  have hsecond := mul_injective
    (show (0xc4ceb9fe1a85ec53 : UInt64) * 0x9cb4b2f8129337db = 1 by decide)
  have hfold := fold_involutive.injective
  have hsum : g.sum = h.sum := hfold (hfirst (hfold (hsecond (hfold hfinish))))
  obtain ⟨sum⟩ := g
  obtain ⟨sum'⟩ := h
  exact congrArg LexemeHash.mk hsum

/-- The hash of some bytes is decided by their weighted sum. -/
theorem finish_write_eq_iff (bytes others : List UInt8) :
    (empty.write bytes).finish = (empty.write others).finish ↔
      weightedSum bytes ≡ weightedSum others [MOD 2 ^ 64] := by
  have hsum (bytes : List UInt8) :
      (empty.write bytes).sum.toNat = weightedSum bytes % 2 ^ 64 := by
    have hempty : empty.sum.toNat = 0 := rfl
    rw [toNat_sum_write, hempty, Nat.zero_mul, Nat.zero_add]
  rw [finish_injective.eq_iff, Nat.ModEq, ← hsum bytes, ← hsum others, UInt64.toNat_inj]
  exact ⟨congrArg sum, fun h => congrArg LexemeHash.mk h⟩

/-! ### Several writes -/

/-- Writing one sequence of bytes after the other is writing all of them at once. -/
theorem foldl_write (h : LexemeHash) (chunks : List (List UInt8)) :
    chunks.foldl write h = h.write chunks.flatten :=
  List.foldl_flatten.symm

/-- **Hashes collide where the sums do.**  Two sequences of bytes, each cut into writes in any way,
have equal hashes if and only if their weighted sums agree modulo `2 ^ 64`: where the cuts are does
not show in the sum, and the mix tells any two sums apart. -/
theorem finish_foldl_write_eq_iff (chunks others : List (List UInt8)) :
    ((chunks.foldl write empty).finish = (others.foldl write empty).finish ↔
        weightedSum chunks.flatten ≡ weightedSum others.flatten [MOD 2 ^ 64]) ∧
      chunks.foldl write empty = empty.write chunks.flatten ∧
      Function.Injective finish := by
  refine ⟨?_, foldl_write empty chunks, finish_injective⟩
  rw [foldl_write, foldl_write]
  exact finish_write_eq_iff chunks.flatten others.flatten

/-! ### Replacing one byte -/

/-- Bytes with thirteen others behind them have a weight that is a multiple of the modulus. -/
theorem weightedSum_modEq_of_le (before after : List UInt8) (h : 13 ≤ after.length) :
    weightedSum (before ++ after) ≡ weightedSum after [MOD 2 ^ 64] := by
  have hweight : 2 ^ 64 ∣ 32 ^ after.length :=
    Nat.dvd_trans (by norm_num) (pow_dvd_pow 32 h)
  have hzero : weightedSum before * 32 ^ after.length ≡ 0 [MOD 2 ^ 64] :=
    Nat.modEq_zero_iff_dvd.2 (hweight.mul_left _)
  rw [weightedSum_append]
  simpa using hzero.add_right (weightedSum after)

/-- Bytes with at most twelve others behind them have the same weighted sum only if they agree in
their lower half. -/
theorem modEq_of_weightedSum_modEq {before after : List UInt8} {b c : UInt8}
    (hafter : after.length < 13)
    (h : weightedSum (before ++ b :: after) ≡ weightedSum (before ++ c :: after) [MOD 2 ^ 64]) :
    b.toNat ≡ c.toNat [MOD 16] := by
  have hweighed : b.toNat * 32 ^ after.length ≡ c.toNat * 32 ^ after.length [MOD 2 ^ 64] := by
    simp only [weightedSum_append, weightedSum, List.length_cons] at h
    exact (h.add_left_cancel' _).add_right_cancel' _
  have hpower : 32 ^ after.length ∣ 32 ^ 12 := pow_dvd_pow 32 (Nat.le_of_lt_succ hafter)
  have hmodulus : 16 * 32 ^ after.length ∣ 2 ^ 64 :=
    Nat.dvd_trans (Nat.mul_dvd_mul_left 16 hpower) (by norm_num)
  exact (hweighed.of_dvd hmodulus).mul_right_cancel' (by simp)

/-- A byte does not count behind which there are thirteen others. -/
theorem finish_eq_of_le (before : List UInt8) (b c : UInt8) {after : List UInt8}
    (h : 13 ≤ after.length) :
    (empty.write (before ++ b :: after)).finish = (empty.write (before ++ c :: after)).finish := by
  have hlast (d : UInt8) :
      weightedSum (before ++ d :: after) ≡ weightedSum after [MOD 2 ^ 64] := by
    simpa using weightedSum_modEq_of_le (before ++ [d]) after h
  exact (finish_write_eq_iff _ _).2 ((hlast b).trans (hlast c).symm)

/-- **Only the last thirteen bytes count.**  Some replacement of a byte changes the hash if and only
if there are at most twelve bytes behind it. -/
theorem exists_finish_ne_iff (before after : List UInt8) (b : UInt8) :
    (∃ c, (empty.write (before ++ c :: after)).finish ≠
        (empty.write (before ++ b :: after)).finish) ↔ after.length < 13 := by
  constructor
  · rintro ⟨c, hne⟩
    by_contra! hlong
    exact hne (finish_eq_of_le before c b hlong)
  · intro hshort
    -- the next byte is another one in its lower half
    refine ⟨b + 1, fun heq => ?_⟩
    have hlower : (b + 1).toNat ≡ b.toNat [MOD 16] :=
      modEq_of_weightedSum_modEq hshort ((finish_write_eq_iff _ _).1 heq)
    have hnext : (b + 1).toNat = (b.toNat + 1) % 256 := UInt8.toNat_add b 1
    rw [Nat.ModEq, hnext] at hlower
    omega

/-- Of fourteen bytes the first one does not count. -/
theorem finish_ignores_first_of_fourteen :
    ¬ ∃ c, (empty.write (c :: List.replicate 13 97)).finish ≠
      (empty.write (98 :: List.replicate 13 97)).finish := by
  rintro ⟨c, hne⟩
  exact hne (finish_eq_of_le [] c 98 (by decide))

end LexemeHash

end MiniPascal
