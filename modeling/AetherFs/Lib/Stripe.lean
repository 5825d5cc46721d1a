/-
# Striped address spaces

A linear address space laid out over `n` lanes in units of `s` addresses: unit `u` goes to lane
`u % n`, as that lane's unit `u / n`.  `lane` and `offset` are the two halves of the layout and
`address` is its inverse; on lanes that hold `D` addresses each, `D` a multiple of `s`, the
layout is a bijection between `[0, n * D)` and the pairs `(lane, offset)`.

The rotating layout sets one lane of `n` aside in every row of units, lane `row % n`, and stripes
over the `n - 1` others.  It is the same layout over `n - 1` lanes with the lanes renamed row by
row: `skip p` enumerates the lanes other than `p`, and `unskip p` numbers them back.
-/
import Mathlib.Algebra.Order.Group.Nat
import Mathlib.Tactic.Ring

namespace AetherFs.Lib.Stripe

/-! ## 1. Lanes and offsets -/

/-- The lane an address is kept in. -/
def lane (s n r : Nat) : Nat := r / s % n

/-- Its place in that lane. -/
def offset (s n r : Nat) : Nat := r / s / n * s + r % s

/-- The address kept at place `c` of lane `k`. -/
def address (s n k c : Nat) : Nat := (c / s * n + k) * s + c % s

variable {s n : Nat}

theorem lane_lt (hn : 0 < n) (r : Nat) : lane s n r < n := Nat.mod_lt _ hn

theorem div_mod_digits {w : Nat} (hw : w < s) (x : Nat) :
    (x * s + w) / s = x ∧ (x * s + w) % s = w := by
  refine (Nat.div_mod_unique (by omega)).mpr ⟨?_, hw⟩
  rw [Nat.mul_comm, Nat.add_comm]

theorem offset_div (hs : 0 < s) (r : Nat) : offset s n r / s = r / s / n :=
  (div_mod_digits (Nat.mod_lt r hs) _).1

theorem offset_mod (hs : 0 < s) (r : Nat) : offset s n r % s = r % s :=
  (div_mod_digits (Nat.mod_lt r hs) _).2

theorem address_lane_offset (hs : 0 < s) (r : Nat) :
    address s n (lane s n r) (offset s n r) = r := by
  rw [address, lane, offset_div hs, offset_mod hs, Nat.div_add_mod', Nat.div_add_mod']

theorem lane_address (hs : 0 < s) {k : Nat} (hk : k < n) (c : Nat) :
    lane s n (address s n k c) = k := by
  rw [lane, address, (div_mod_digits (Nat.mod_lt c hs) _).1, (div_mod_digits hk _).2]

theorem offset_address (hs : 0 < s) {k : Nat} (hk : k < n) (c : Nat) :
    offset s n (address s n k c) = c := by
  obtain ⟨hdiv, hmod⟩ := div_mod_digits (Nat.mod_lt c hs) (c / s * n + k)
  rw [offset, address, hdiv, hmod, (div_mod_digits hk _).1, Nat.div_add_mod']

theorem offset_lt (hs : 0 < s) {D : Nat} (hD : s ∣ D) {r : Nat} (hr : r < n * D) :
    offset s n r < D := by
  obtain ⟨q, rfl⟩ := hD
  have hn : 0 < n := Nat.pos_of_ne_zero fun h => by simp [h] at hr
  have hunit : r / s / n < q := by
    rw [Nat.div_div_eq_div_mul, Nat.div_lt_iff_lt_mul (Nat.mul_pos hs hn)]
    calc r < n * (s * q) := hr
      _ = q * (s * n) := by ring
  calc offset s n r < r / s / n * s + s := Nat.add_lt_add_left (Nat.mod_lt r hs) _
    _ = (r / s / n + 1) * s := by ring
    _ ≤ q * s := Nat.mul_le_mul_right s hunit
    _ = s * q := Nat.mul_comm q s

theorem address_lt (hs : 0 < s) {D : Nat} (hD : s ∣ D) {k c : Nat} (hk : k < n) (hc : c < D) :
    address s n k c < n * D := by
  obtain ⟨q, rfl⟩ := hD
  have hunit : c / s < q := by
    rw [Nat.div_lt_iff_lt_mul hs, Nat.mul_comm]
    exact hc
  calc address s n k c < (c / s * n + k) * s + s := Nat.add_lt_add_left (Nat.mod_lt c hs) _
    _ = (c / s * n + k + 1) * s := by ring
    _ ≤ ((c / s + 1) * n) * s := Nat.mul_le_mul_right s (by rw [Nat.succ_mul]; omega)
    _ ≤ (q * n) * s := Nat.mul_le_mul_right s (Nat.mul_le_mul_right n hunit)
    _ = n * (s * q) := by ring

/-! ## 2. One lane set aside -/

/-- The lanes other than `p`, in order. -/
def skip (p d : Nat) : Nat := if p ≤ d then d + 1 else d

/-- The number of a lane among those other than `p`. -/
def unskip (p k : Nat) : Nat := if p < k then k - 1 else k

theorem skip_ne (p d : Nat) : skip p d ≠ p := by
  unfold skip
  split <;> omega

theorem skip_lt {p d : Nat} (hd : d < n - 1) : skip p d < n := by
  unfold skip
  split <;> omega

theorem unskip_skip (p d : Nat) : unskip p (skip p d) = d := by
  unfold unskip skip
  split <;> split <;> omega

theorem skip_unskip {p k : Nat} (h : k ≠ p) : skip p (unskip p k) = k := by
  unfold unskip skip
  split <;> split <;> omega

theorem unskip_lt {p k : Nat} (hp : p < n) (hk : k < n) (h : k ≠ p) : unskip p k < n - 1 := by
  unfold unskip
  split <;> omega

end AetherFs.Lib.Stripe
