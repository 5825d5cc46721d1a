/-
# Bit masks as sets of small indices

A mask over `n` devices names a set of indices.  `setBits` lists that set in increasing order;
`nthSet` is the usual scan for its `k`-th element and `nthSet_eq` says the two agree, so that
an ordinal-to-index lookup is injective because a filtered range has no duplicates.
-/
import Mathlib

namespace AetherFs.Lib

/-- The indices below `n` whose bit is set, in increasing order. -/
def setBits (n mask : Nat) : List Nat := (List.range n).filter mask.testBit

theorem mem_setBits {n mask i : Nat} : i ∈ setBits n mask ↔ i < n ∧ mask.testBit i = true := by
  simp [setBits]

theorem setBits_nodup (n mask : Nat) : (setBits n mask).Nodup :=
  List.Nodup.filter _ List.nodup_range

theorem sum_setBits (byte : Nat → Nat) (k : Nat) :
    ((List.range k).map fun i => (setBits 8 (byte i)).length).sum
      = ((List.range (8 * k)).filter fun b => (byte (b / 8)).testBit (b % 8)).length := by
  induction k with
  | zero => rfl
  | succ k ih =>
    have hbyte : ((List.range 8).map (8 * k + ·)).filter (fun b => (byte (b / 8)).testBit (b % 8))
        = (setBits 8 (byte k)).map (8 * k + ·) := by
      rw [List.filter_map, setBits]
      refine congrArg _ (List.filter_congr fun j hj => ?_)
      have hlt := List.mem_range.mp hj
      rw [Function.comp_apply, Nat.mul_add_div (by norm_num), Nat.div_eq_of_lt hlt,
        Nat.mul_add_mod, Nat.mod_eq_of_lt hlt, Nat.add_zero]
    rw [List.range_succ, List.map_append, List.sum_append, ih, Nat.mul_succ, List.range_add,
      List.filter_append, List.length_append, hbyte, List.length_map]
    simp

/-- Scan `indices` for the `k`-th set bit. -/
def nthSet (mask : Nat) : List Nat → Nat → Option Nat
  | [], _ => none
  | i :: is, k =>
    if mask.testBit i = true then (if k = 0 then some i else nthSet mask is (k - 1))
    else nthSet mask is k

theorem nthSet_eq (mask : Nat) : ∀ (l : List Nat) (k : Nat),
    nthSet mask l k = (l.filter mask.testBit)[k]?
  | [], k => by simp [nthSet]
  | i :: is, k => by
    rw [nthSet]
    by_cases hi : mask.testBit i = true
    · rw [if_pos hi, List.filter_cons_of_pos hi]
      cases k with
      | zero => simp
      | succ k => simp [nthSet_eq mask is k]
    · rw [if_neg hi, List.filter_cons_of_neg hi, nthSet_eq mask is k]

theorem setBits_of_lt {n m mask : Nat} (h : mask < 2 ^ n) (hnm : n ≤ m) :
    setBits m mask = setBits n mask := by
  obtain ⟨d, rfl⟩ := Nat.exists_eq_add_of_le hnm
  have hpast : ((List.range d).map (fun j => n + j)).filter mask.testBit = [] := by
    refine List.filter_eq_nil_iff.mpr fun i hi => ?_
    obtain ⟨j, _, rfl⟩ := List.mem_map.mp hi
    have : mask.testBit (n + j) = false :=
      Nat.testBit_lt_two_pow (Nat.lt_of_lt_of_le h (Nat.pow_le_pow_right (by omega) (by omega)))
    simp [this]
  rw [setBits, setBits, List.range_add, List.filter_append, hpast, List.append_nil]

theorem setBits_ne_nil {n mask : Nat} (h : mask < 2 ^ n) (hne : mask ≠ 0) :
    setBits n mask ≠ [] := by
  obtain ⟨i, hi⟩ := Nat.exists_testBit_of_ne_zero hne
  refine List.ne_nil_of_mem (mem_setBits.mpr ⟨?_, hi⟩)
  by_contra hge
  have : mask.testBit i = false :=
    Nat.testBit_lt_two_pow (Nat.lt_of_lt_of_le h (Nat.pow_le_pow_right (by omega) (by omega)))
  rw [this] at hi
  exact absurd hi (by simp)

/-- A `w`-bit mask that shares no bit with the complement of `2 ^ n - 1` is below `2 ^ n`. -/
theorem lt_of_and_compl_eq_zero {w n mask : Nat} (hw : mask < 2 ^ w)
    (h : mask &&& ((2 ^ w - 1) ^^^ (2 ^ n - 1)) = 0) : mask < 2 ^ n := by
  refine Nat.lt_pow_two_of_testBit mask fun i hi => ?_
  by_cases hiw : i < w
  · have hb : (mask &&& ((2 ^ w - 1) ^^^ (2 ^ n - 1))).testBit i = false := by rw [h]; simp
    rw [Nat.testBit_and, Nat.testBit_xor, Nat.testBit_two_pow_sub_one,
      Nat.testBit_two_pow_sub_one] at hb
    simpa [hiw, Nat.not_lt.mpr hi] using hb
  · exact Nat.testBit_lt_two_pow
      (Nat.lt_of_lt_of_le hw (Nat.pow_le_pow_right (by omega) (by omega)))

/-- Conversely, a mask below `2 ^ n` shares no bit with that complement. -/
theorem and_compl_eq_zero {w n mask : Nat} (hn : n ≤ w) (h : mask < 2 ^ n) :
    mask &&& ((2 ^ w - 1) ^^^ (2 ^ n - 1)) = 0 := by
  refine Nat.eq_of_testBit_eq fun i => ?_
  rw [Nat.testBit_and, Nat.testBit_xor, Nat.testBit_two_pow_sub_one,
    Nat.testBit_two_pow_sub_one, Nat.zero_testBit]
  by_cases hi : i < n
  · simp [hi, Nat.lt_of_lt_of_le hi hn]
  · rw [Nat.testBit_lt_two_pow
      (Nat.lt_of_lt_of_le h (Nat.pow_le_pow_right (by omega) (by omega)))]
    simp

end AetherFs.Lib
