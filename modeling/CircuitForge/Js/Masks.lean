/-
Enumeration by a bit mask.

A loop over `mask < 1 << k` that reads the bits `mask & (1 << i)`, all in 32 bits.  It goes through
every choice of `k` bits once as long as `1 << k` is `2 ^ k`.
-/
import Mathlib.Data.List.Basic
import Mathlib.Data.List.Nodup
import Mathlib.Data.List.Range
import Mathlib.Tactic.IntervalCases
import Mathlib.Data.Nat.Bitwise

namespace Js

/-- `mask & (1 << i)` for every `i` below `k`. -/
def maskBits (k mask : Nat) : List Bool := (List.range k).map fun i => mask.testBit (i % 32)

theorem maskBits_length (k mask : Nat) : (maskBits k mask).length = k := by
  rw [maskBits, List.length_map, List.length_range]

theorem maskBits_getElem {k mask i : Nat} (h : i < k) :
    (maskBits k mask)[i]? = some (mask.testBit (i % 32)) := by
  rw [maskBits, List.getElem?_map, List.getElem?_range h, Option.map_some]

/-- A mask below `2 ^ k` is known by its bits. -/
theorem maskBits_inj {k m n : Nat} (hk : k ≤ 32) (hm : m < 2 ^ k) (hn : n < 2 ^ k)
    (h : maskBits k m = maskBits k n) : m = n := by
  refine Nat.eq_of_testBit_eq fun i => ?_
  by_cases hi : i < k
  · have hbit : (maskBits k m)[i]? = some (m.testBit (i % 32)) := maskBits_getElem hi
    rw [h, maskBits_getElem hi, Option.some.injEq, Nat.mod_eq_of_lt (by omega)] at hbit
    exact hbit.symm
  · have hpow : 2 ^ k ≤ 2 ^ i := Nat.pow_le_pow_right (by omega) (by omega)
    rw [Nat.testBit_lt_two_pow (lt_of_lt_of_le hm hpow),
      Nat.testBit_lt_two_pow (lt_of_lt_of_le hn hpow)]

/-- Every choice of bits has a mask. -/
theorem exists_maskBits {bits : List Bool} (hk : bits.length ≤ 32) :
    ∃ mask < 2 ^ bits.length, maskBits bits.length mask = bits := by
  refine ⟨Nat.ofBits fun i : Fin bits.length => bits[i], Nat.ofBits_lt_two_pow _, ?_⟩
  refine List.ext_getElem (maskBits_length _ _) fun i hi hi' => ?_
  have hmod : i % 32 = i := Nat.mod_eq_of_lt (by omega)
  have hbit : (maskBits bits.length (Nat.ofBits fun i : Fin bits.length => bits[i]))[i]? =
      some bits[i] := by
    rw [maskBits_getElem hi', hmod, Nat.testBit_ofBits_lt _ i hi']
    rfl
  exact Option.some.inj ((List.getElem?_eq_getElem hi).symm.trans hbit)

/-- What is injective on choices of bits meets every value it takes once. -/
theorem count_map_maskBits {α : Type} [BEq α] [LawfulBEq α] {k : Nat} (hk : k ≤ 32)
    {f : List Bool → α} (hf : ∀ b c, b.length = k → c.length = k → f b = f c → b = c)
    {bits : List Bool} (hbits : bits.length = k) :
    ((List.range (2 ^ k)).map fun mask => f (maskBits k mask)).count (f bits) = 1 := by
  subst hbits
  refine List.count_eq_one_of_mem ?_ ?_
  · refine List.Nodup.map_on (fun m hm n hn h => ?_) List.nodup_range
    exact maskBits_inj hk (List.mem_range.mp hm) (List.mem_range.mp hn)
      (hf _ _ (maskBits_length _ m) (maskBits_length _ n) h)
  · obtain ⟨mask, hlt, hmask⟩ := exists_maskBits hk
    exact List.mem_map.mpr ⟨mask, List.mem_range.mpr hlt, congrArg f hmask⟩

end Js
