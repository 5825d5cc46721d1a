/-
# Bitmaps

A bitmap as the function it is, with the four operations allocators use on it: find the first
clear bit, set a run of bits, clear a run of bits, count the clear ones.  Setting a run does not
ask whether it was clear or whether it ends inside the bitmap; what the count says afterwards
tells (`zeroCount_setRun`).
-/
import Mathlib

namespace AetherFs.Lib

section Bitmap

variable (b : Nat → Bool)

/-! ## 1. Searching -/

/-- The first clear bit among the next `k` ones from `i`; `n` if there is none. -/
def searchZero (n : Nat) : Nat → Nat → Nat
  | 0, _ => n
  | k + 1, i => if b i then searchZero n k (i + 1) else i

/-- The first clear bit at or after `i` and below `n`; `n` if there is none. -/
def firstZeroFrom (n i : Nat) : Nat := searchZero b n (n - i) i

theorem firstZeroFrom_step (n i : Nat) : firstZeroFrom b n i =
    if i < n then (if b i then firstZeroFrom b n (i + 1) else i) else n := by
  by_cases h : i < n
  · rw [if_pos h, firstZeroFrom, firstZeroFrom, show n - i = n - (i + 1) + 1 by omega, searchZero]
  · rw [if_neg h, firstZeroFrom, Nat.sub_eq_zero_of_le (Nat.not_lt.mp h), searchZero]

/-- **What the search finds.** -/
theorem firstZeroFrom_spec {n i : Nat} (h : i ≤ n) : i ≤ firstZeroFrom b n i ∧
    firstZeroFrom b n i ≤ n ∧ (∀ j, i ≤ j → j < firstZeroFrom b n i → b j = true) ∧
    (firstZeroFrom b n i < n → b (firstZeroFrom b n i) = false) := by
  induction hk : n - i generalizing i with
  | zero =>
    rw [firstZeroFrom_step, if_neg (by omega)]
    exact ⟨h, le_refl n, fun j h1 h2 => by omega, fun hlt => absurd hlt (lt_irrefl n)⟩
  | succ k ih =>
    rw [firstZeroFrom_step, if_pos (by omega)]
    cases hb : b i with
    | false =>
      rw [if_neg (by simp)]
      exact ⟨le_refl i, h, fun j h1 h2 => by omega, fun _ => hb⟩
    | true =>
      rw [if_pos rfl]
      obtain ⟨h1, h2, h3, h4⟩ := ih (i := i + 1) (by omega) (by omega)
      refine ⟨by omega, h2, fun j hj hlt => ?_, h4⟩
      rcases Nat.lt_or_ge i j with hij | hij
      · exact h3 j hij hlt
      · rw [show j = i by omega]
        exact hb

/-! ## 2. Runs of bits -/

/-- Set the bits `pos, .., pos + count - 1`. -/
def setRun (pos count i : Nat) : Bool := if pos ≤ i ∧ i < pos + count then true else b i

/-- Clear them. -/
def clearRun (pos count i : Nat) : Bool := if pos ≤ i ∧ i < pos + count then false else b i

theorem setRun_in {pos count i : Nat} (h : pos ≤ i ∧ i < pos + count) :
    setRun b pos count i = true := if_pos h

theorem setRun_out {pos count i : Nat} (h : ¬ (pos ≤ i ∧ i < pos + count)) :
    setRun b pos count i = b i := if_neg h

theorem clearRun_in {pos count i : Nat} (h : pos ≤ i ∧ i < pos + count) :
    clearRun b pos count i = false := if_pos h

theorem clearRun_out {pos count i : Nat} (h : ¬ (pos ≤ i ∧ i < pos + count)) :
    clearRun b pos count i = b i := if_neg h

theorem clearRun_setRun {pos count : Nat} (h : ∀ i, i < count → b (pos + i) = false) :
    clearRun (setRun b pos count) pos count = b := by
  funext i
  by_cases hi : pos ≤ i ∧ i < pos + count
  · have hclear := h (i - pos) (by omega)
    rw [Nat.add_sub_cancel' hi.1] at hclear
    rw [clearRun_in _ hi, hclear]
  · rw [clearRun_out _ hi, setRun_out _ hi]

theorem setRun_clearRun (pos count : Nat) :
    setRun (clearRun b pos count) pos count = setRun b pos count := by
  funext i
  by_cases hi : pos ≤ i ∧ i < pos + count
  · rw [setRun_in _ hi, setRun_in _ hi]
  · rw [setRun_out _ hi, setRun_out _ hi, clearRun_out _ hi]

/-! ## 3. Counting -/

/-- The number of clear bits below `n`. -/
def zeroCount : Nat → Nat
  | 0 => 0
  | n + 1 => zeroCount n + if b n then 0 else 1

theorem zeroCount_congr {b b' : Nat → Bool} {n : Nat} (h : ∀ i, i < n → b i = b' i) :
    zeroCount b n = zeroCount b' n := by
  induction n with
  | zero => rfl
  | succ n ih => rw [zeroCount, zeroCount, ih fun i hi => h i (by omega), h n (Nat.lt_succ_self n)]

theorem zeroCount_clear (n : Nat) : zeroCount (fun _ => false) n = n := by
  induction n with
  | zero => rfl
  | succ n ih => rw [zeroCount, ih, if_neg (by simp)]

/-- The number of clear bits of a run. -/
def runZeros (pos count : Nat) : Nat := zeroCount (fun i => b (pos + i)) count

theorem runZeros_le (pos count : Nat) : runZeros b pos count ≤ count := by
  unfold runZeros
  induction count with
  | zero => exact le_refl 0
  | succ count ih =>
    rw [zeroCount]
    split <;> omega

theorem runZeros_eq_iff {pos count : Nat} :
    runZeros b pos count = count ↔ ∀ i, i < count → b (pos + i) = false := by
  constructor
  · intro h
    induction count with
    | zero =>
      intro i hi
      omega
    | succ count ih =>
      have hle := runZeros_le b pos count
      unfold runZeros at h hle ih
      rw [zeroCount] at h
      intro i hi
      cases hb : b (pos + count) with
      | true =>
        rw [if_pos hb] at h
        omega
      | false =>
        rw [if_neg (by simp [hb])] at h
        rcases Nat.lt_succ_iff_lt_or_eq.mp hi with hlt | rfl
        · exact ih (by omega) i hlt
        · exact hb
  · intro h
    have hsame : zeroCount (fun i => b (pos + i)) count = zeroCount (fun _ => false) count :=
      zeroCount_congr h
    rw [runZeros, hsame, zeroCount_clear]

theorem runZeros_eq_zero_iff {pos count : Nat} :
    runZeros b pos count = 0 ↔ ∀ i, i < count → b (pos + i) = true := by
  unfold runZeros
  induction count with
  | zero => exact ⟨fun _ i hi => absurd hi (Nat.not_lt_zero i), fun _ => rfl⟩
  | succ count ih =>
    rw [zeroCount, Nat.add_eq_zero_iff, ih, Nat.forall_lt_succ_right]
    refine and_congr_right fun _ => ?_
    cases b (pos + count) with
    | true => exact iff_of_true rfl rfl
    | false => exact iff_of_false (by simp) (by simp)

theorem zeroCount_update {n p : Nat} (hp : p < n) :
    zeroCount (Function.update b p true) n + (if b p then 0 else 1) = zeroCount b n := by
  induction n with
  | zero => omega
  | succ n ih =>
    rw [zeroCount, zeroCount]
    rcases Nat.lt_succ_iff_lt_or_eq.mp hp with hlt | rfl
    · rw [Function.update_of_ne (by omega)]
      have := ih hlt
      omega
    · have hbelow : zeroCount (Function.update b p true) p = zeroCount b p :=
        zeroCount_congr fun i hi => Function.update_of_ne (by omega) _ _
      rw [hbelow, Function.update_self, if_pos rfl]
      omega

/-- **Setting a run takes away the clear bits it had**, no more and no less. -/
theorem zeroCount_setRun {n pos count : Nat} (h : pos + count ≤ n) :
    zeroCount (setRun b pos count) n + runZeros b pos count = zeroCount b n := by
  induction count with
  | zero =>
    have hsame : setRun b pos 0 = b := funext fun i => setRun_out b (by omega)
    rw [hsame]
    rfl
  | succ count ih =>
    have hnext : setRun b pos (count + 1) = Function.update (setRun b pos count) (pos + count) true := by
      funext i
      by_cases hi : i = pos + count
      · rw [hi, Function.update_self, setRun_in _ (by omega)]
      · rw [Function.update_of_ne hi]
        exact if_congr (by omega) rfl rfl
    have hone := zeroCount_update (setRun b pos count) (n := n) (p := pos + count) (by omega)
    rw [setRun_out b (by omega)] at hone
    have hrest := ih (by omega)
    rw [hnext, runZeros, zeroCount, ← runZeros]
    omega

theorem zeroCount_clearRun {n pos count : Nat} (h : pos + count ≤ n) :
    zeroCount (clearRun b pos count) n + runZeros b pos count = zeroCount b n + count := by
  have hset := zeroCount_setRun b h
  have hback := zeroCount_setRun (clearRun b pos count) h
  have hall : runZeros (clearRun b pos count) pos count = count :=
    (runZeros_eq_iff _).mpr fun i hi => clearRun_in b (by omega)
  rw [setRun_clearRun, hall] at hback
  omega

/-- **Clearing a run adds all of its length exactly when the whole run was there and set.** -/
theorem zeroCount_clearRun_iff {n pos count : Nat} (hcount : 0 < count) :
    zeroCount (clearRun b pos count) n = zeroCount b n + count ↔
      pos + count ≤ n ∧ ∀ i, i < count → b (pos + i) = true := by
  by_cases hend : pos + count ≤ n
  · have hadd := zeroCount_clearRun b hend
    rw [← runZeros_eq_zero_iff]
    omega
  · -- below `n` only the part of the run in front of it is seen
    have hsame : zeroCount (clearRun b pos count) n = zeroCount (clearRun b pos (n - pos)) n := by
      refine zeroCount_congr fun i hi => ?_
      unfold clearRun
      congr 1
      exact propext (by omega)
    have hpart : zeroCount (clearRun b pos (n - pos)) n ≤ zeroCount b n + (n - pos) := by
      by_cases hpos : pos ≤ n
      · have hadd := zeroCount_clearRun b (show pos + (n - pos) ≤ n by omega)
        omega
      · have hnone : clearRun b pos (n - pos) = b := funext fun i => clearRun_out b (by omega)
        rw [hnone]
        exact Nat.le_add_right _ _
    constructor
    · intro hlen
      omega
    · intro hall
      exact absurd hall.1 hend

end Bitmap

end AetherFs.Lib
