/-
# Reflected cyclic redundancy checks

A reflected CRC keeps a `w`-bit register, xors each input byte into its low end and then
shifts eight times, xoring the polynomial back in whenever a one falls out.  Two facts about
that register carry every detection result:

* one shift is INJECTIVE as soon as the polynomial's top bit is set (`shiftStep_eq_zero`,
  `shiftStep_inj`), so a difference between two registers never dies out while the two read
  the same bytes (`feedBy_inj`, for any number of shifts a byte);
* a shift whose result has its top bit clear was a plain halving (`shiftStep_toNat`), so a
  difference that DIES inside a window of `w / 8` bytes spells out the differing bytes
  (`feed_diff_digits`), and a window that really differs cannot kill it.

Together: two inputs that differ, but only inside `w / 8` consecutive bytes, are told apart
(`feed_burst_ne`; `exists_window` cuts two such inputs around the window).
-/
import Mathlib

namespace AetherFs.Lib

section Register

variable {w : Nat} (poly : BitVec w)

/-! ## 1. The register -/

/-- One shift of the register. -/
def shiftStep (c : BitVec w) : BitVec w := (c >>> 1) ^^^ (if c.getLsbD 0 then poly else 0#w)

/-- `n` shifts. -/
def shifts : Nat → BitVec w → BitVec w
  | 0, c => c
  | n + 1, c => shifts n (shiftStep poly c)

/-- One input byte. -/
def feedByte (c : BitVec w) (b : UInt8) : BitVec w :=
  shifts poly 8 (c ^^^ b.toBitVec.setWidth w)

/-- A whole input. -/
def feed (c : BitVec w) (bytes : List UInt8) : BitVec w := bytes.foldl (feedByte poly) c

@[simp] theorem feed_nil (c : BitVec w) : feed poly c [] = c := rfl

@[simp] theorem feed_cons (c : BitVec w) (b : UInt8) (l : List UInt8) :
    feed poly c (b :: l) = feed poly (feedByte poly c b) l := rfl

theorem feed_append (c : BitVec w) (l l' : List UInt8) :
    feed poly c (l ++ l') = feed poly (feed poly c l) l' := List.foldl_append

/-- A whole input, with `n` shifts a byte. -/
def feedBy (n : Nat) (c : BitVec w) (bytes : List UInt8) : BitVec w :=
  bytes.foldl (fun c b => shifts poly n (c ^^^ b.toBitVec.setWidth w)) c

theorem feedBy_append (n : Nat) (c : BitVec w) (l l' : List UInt8) :
    feedBy poly n c (l ++ l') = feedBy poly n (feedBy poly n c l) l' := List.foldl_append

theorem feed_eq_feedBy (c : BitVec w) (bytes : List UInt8) :
    feed poly c bytes = feedBy poly 8 c bytes := rfl

/-! ## 2. Linearity -/

theorem shiftStep_xor (a b : BitVec w) :
    shiftStep poly (a ^^^ b) = shiftStep poly a ^^^ shiftStep poly b := by
  refine BitVec.eq_of_getLsbD_eq fun i _ => ?_
  simp only [shiftStep, BitVec.getLsbD_xor, BitVec.getLsbD_ushiftRight]
  cases a.getLsbD 0 <;> cases b.getLsbD 0 <;>
    cases a.getLsbD (1 + i) <;> cases b.getLsbD (1 + i) <;> cases hp : poly.getLsbD i <;>
    simp [hp]

theorem shifts_xor : ∀ (n : Nat) (a b : BitVec w),
    shifts poly n (a ^^^ b) = shifts poly n a ^^^ shifts poly n b
  | 0, _, _ => rfl
  | n + 1, a, b => by simp only [shifts, shiftStep_xor, shifts_xor n]

/-- The difference of two registers after one byte depends on their difference alone. -/
theorem shifts_byte_xor (n : Nat) (c c' : BitVec w) (b b' : UInt8) :
    shifts poly n (c ^^^ b.toBitVec.setWidth w) ^^^ shifts poly n (c' ^^^ b'.toBitVec.setWidth w)
      = shifts poly n ((c ^^^ c') ^^^ (b ^^^ b').toBitVec.setWidth w) := by
  have hbytes : (b ^^^ b').toBitVec.setWidth w
      = b.toBitVec.setWidth w ^^^ b'.toBitVec.setWidth w := by
    rw [UInt8.toBitVec_xor, BitVec.setWidth_xor]
  rw [← shifts_xor, hbytes]
  congr 1
  ac_rfl

theorem feedByte_xor (c c' : BitVec w) (b b' : UInt8) :
    feedByte poly c b ^^^ feedByte poly c' b' =
      feedByte poly (c ^^^ c') (b ^^^ b') := shifts_byte_xor poly 8 c c' b b'

/-- The difference of two registers is a register, fed with the differences of the bytes. -/
theorem feedBy_xor (n : Nat) : ∀ {l l' : List UInt8}, l.length = l'.length →
    ∀ c c' : BitVec w, feedBy poly n c l ^^^ feedBy poly n c' l'
      = feedBy poly n (c ^^^ c') (List.zipWith (· ^^^ ·) l l')
  | [], [], _, _, _ => rfl
  | b :: l, b' :: l', hlen, c, c' => by
    have ih := feedBy_xor n (show l.length = l'.length by simpa using hlen)
      (shifts poly n (c ^^^ b.toBitVec.setWidth w)) (shifts poly n (c' ^^^ b'.toBitVec.setWidth w))
    rw [shifts_byte_xor] at ih
    exact ih

/-! A register that a linear map moves on after each byte is an affine function of the seed and the
bytes: each of them, moved on as often as there are bytes from there to the end. -/

/-- A sum over the positions of an input.  `f k b` is what the byte `b` adds as the `k`-th from the
end. -/
def positionSum (f : Nat → UInt8 → BitVec w) : List UInt8 → BitVec w
  | [] => 0#w
  | b :: l => f (l.length + 1) b ^^^ positionSum f l

theorem positionSum_xor (f g : Nat → UInt8 → BitVec w) : ∀ l : List UInt8,
    positionSum (fun k b => f k b ^^^ g k b) l = positionSum f l ^^^ positionSum g l
  | [] => BitVec.xor_zero.symm
  | b :: l => by
    simp only [positionSum, positionSum_xor f g l]
    ac_rfl

theorem iterate_xor {step : BitVec w → BitVec w}
    (hstep : ∀ a b, step (a ^^^ b) = step a ^^^ step b) (n : Nat) :
    ∀ a b, step^[n] (a ^^^ b) = step^[n] a ^^^ step^[n] b := by
  induction n with
  | zero =>
    intro a b
    rfl
  | succ n ih =>
    intro a b
    rw [Function.iterate_succ_apply, hstep, ih]
    rfl

/-- **The register as a sum.** -/
theorem foldl_linear {step : BitVec w → BitVec w}
    (hstep : ∀ a b, step (a ^^^ b) = step a ^^^ step b) (l : List UInt8) : ∀ c : BitVec w,
    l.foldl (fun c b => step (c ^^^ b.toBitVec.setWidth w)) c
      = step^[l.length] c ^^^ positionSum (fun k b => step^[k] (b.toBitVec.setWidth w)) l := by
  induction l with
  | nil =>
    intro c
    exact BitVec.xor_zero.symm
  | cons b l ih =>
    intro c
    rw [List.foldl_cons, ih, ← Function.iterate_succ_apply, iterate_xor hstep, positionSum,
      BitVec.xor_assoc]
    rfl

theorem shifts_eq_iterate (n : Nat) : ∀ c : BitVec w, shifts poly n c = (shiftStep poly)^[n] c := by
  induction n with
  | zero =>
    intro c
    rfl
  | succ n ih =>
    intro c
    exact ih (shiftStep poly c)

/-! ## 3. A shift that leaves the top bit clear was a halving -/

variable {poly}

/-- **The polynomial's top bit records every one that falls out.**  If the register's top bit
is clear after a shift then nothing was xored in, so the register was twice its new value. -/
theorem shiftStep_toNat (hp : poly.msb = true) {c : BitVec w}
    (h : (shiftStep poly c).msb = false) : c.toNat = 2 * (shiftStep poly c).toNat := by
  have hmsb : (c >>> 1).msb = false := by simp [BitVec.msb_ushiftRight]
  have hlow : c.getLsbD 0 = false := by
    cases hb : c.getLsbD 0 with
    | false => rfl
    | true => rw [shiftStep, hb, if_pos rfl, BitVec.msb_xor, hmsb, hp] at h; simp at h
  have heven : c.toNat % 2 = 0 := by
    have := hlow
    rw [BitVec.getLsbD, Nat.testBit_zero] at this
    simpa using this
  have hval : shiftStep poly c = c >>> 1 := by simp [shiftStep, hlow]
  rw [hval, BitVec.toNat_ushiftRight, Nat.shiftRight_one]
  omega

/-- `n` shifts whose result is below `2 ^ k`, with room for `n` more bits, multiply back. -/
theorem shifts_toNat (hp : poly.msb = true) : ∀ (n k : Nat) (c : BitVec w), k + n ≤ w →
    (shifts poly n c).toNat < 2 ^ k → c.toNat = 2 ^ n * (shifts poly n c).toNat
  | 0, _, c, _, _ => by simp [shifts]
  | n + 1, k, c, hw, hlt => by
    simp only [shifts] at hlt ⊢
    have ih := shifts_toNat hp n k (shiftStep poly c) (by omega) hlt
    have hsmall : (shiftStep poly c).toNat < 2 ^ (k + n) := by
      rw [ih, Nat.pow_add, Nat.mul_comm (2 ^ k)]
      exact Nat.mul_lt_mul_of_pos_left hlt (Nat.two_pow_pos n)
    have hmsb : (shiftStep poly c).msb = false := by
      rw [BitVec.msb_eq_false_iff_two_mul_lt]
      calc 2 * (shiftStep poly c).toNat < 2 * 2 ^ (k + n) := by omega
        _ = 2 ^ (k + n + 1) := by rw [Nat.pow_succ, Nat.mul_comm]
        _ ≤ 2 ^ w := Nat.pow_le_pow_right (by omega) (by omega)
    rw [shiftStep_toNat hp hmsb, ih, Nat.pow_succ]
    ring

theorem shiftStep_eq_zero (hp : poly.msb = true) {c : BitVec w} (h : shiftStep poly c = 0#w) :
    c = 0#w := by
  have := shiftStep_toNat hp (c := c) (by rw [h]; simp)
  rw [h] at this
  exact BitVec.eq_of_toNat_eq (by simpa using this)

theorem shiftStep_inj (hp : poly.msb = true) {c c' : BitVec w}
    (h : shiftStep poly c = shiftStep poly c') : c = c' := by
  have hzero := BitVec.xor_eq_zero_iff.mpr h
  rw [← shiftStep_xor] at hzero
  exact BitVec.xor_eq_zero_iff.mp (shiftStep_eq_zero hp hzero)

theorem shifts_inj (hp : poly.msb = true) : ∀ {n : Nat} {c c' : BitVec w},
    shifts poly n c = shifts poly n c' → c = c'
  | 0, _, _, h => h
  | _ + 1, _, _, h => shiftStep_inj hp (shifts_inj hp h)

/-- **A difference survives equal input.** -/
theorem feedBy_inj (hp : poly.msb = true) (n : Nat) : ∀ (l : List UInt8) {c c' : BitVec w},
    feedBy poly n c l = feedBy poly n c' l → c = c'
  | [], _, _, h => h
  | _ :: l, _, _, h => by
    have hbyte := feedBy_inj hp n l h
    exact (BitVec.xor_left_inj _).mp (shifts_inj hp hbyte)

theorem feed_inj (hp : poly.msb = true) (l : List UInt8) {c c' : BitVec w}
    (h : feed poly c l = feed poly c' l) : c = c' := by
  rw [feed_eq_feedBy, feed_eq_feedBy] at h
  exact feedBy_inj hp 8 l h

/-! ## 4. Bursts -/

/-- The value the byte differences of two lists spell, least significant first. -/
def diffDigits : List UInt8 → List UInt8 → Nat
  | b :: l, b' :: l' => (b ^^^ b').toNat + 256 * diffDigits l l'
  | _, _ => 0

theorem diffDigits_eq_zero : ∀ {l l' : List UInt8}, l.length = l'.length →
    diffDigits l l' = 0 → l = l'
  | [], [], _, _ => rfl
  | b :: l, b' :: l', hlen, h => by
    simp only [diffDigits] at h
    have hb : (b ^^^ b').toNat = 0 := by omega
    have hb' : b ^^^ b' = 0 := UInt8.toNat_inj.mp (by simpa using hb)
    have hl : l = l' := diffDigits_eq_zero (by simpa using hlen) (by omega)
    rw [hl, UInt8.xor_eq_zero_iff.mp hb']

theorem diffDigits_lt : ∀ (l l' : List UInt8), l.length = l'.length →
    diffDigits l l' < 256 ^ l.length
  | [], [], _ => by simp [diffDigits]
  | b :: l, b' :: l', hlen => by
    have ih := diffDigits_lt l l' (by simpa using hlen)
    have hb : (b ^^^ b').toNat < 256 := (b ^^^ b').toNat_lt
    rw [diffDigits, List.length_cons, Nat.pow_succ]
    omega

theorem mul_256_xor {a b : Nat} (hb : b < 256) : 256 * a ^^^ b = 256 * a + b := by
  refine Nat.eq_of_testBit_eq fun i => ?_
  have hb' : b < 2 ^ 8 := hb
  rw [show 256 * a = 2 ^ 8 * a by norm_num, Nat.testBit_two_pow_mul_add a hb', Nat.testBit_xor,
    Nat.testBit_two_pow_mul]
  by_cases hi : i < 8
  · simp [hi, Nat.not_le.mpr hi]
  · have : b.testBit i = false :=
      Nat.testBit_lt_two_pow (Nat.lt_of_lt_of_le hb' (Nat.pow_le_pow_right (by omega) (by omega)))
    simp [hi, Nat.not_lt.mp hi, this]

/-- **A window that kills the difference spells it.**  If two registers agree after a window
of at most `w / 8` bytes, the difference they entered it with is the little-endian value of
the byte differences. -/
theorem feed_diff_digits (hp : poly.msb = true) : ∀ (l l' : List UInt8) (c c' : BitVec w),
    l.length = l'.length → 8 * l.length ≤ w → feed poly c l = feed poly c' l' →
    (c ^^^ c').toNat = diffDigits l l'
  | [], [], c, c', _, _, h => by
    have : c = c' := h
    simp [this, diffDigits]
  | b :: l, b' :: l', c, c', hlen, hw, h => by
    have hlen' : l.length = l'.length := by simpa using hlen
    have hw' : 8 * l.length + 8 ≤ w := by simp only [List.length_cons] at hw; omega
    have ih := feed_diff_digits hp l l' _ _ hlen' (by omega) h
    rw [feedByte_xor] at ih
    -- the register after the first byte is small, so its eight shifts multiply back
    have hlt : (feedByte poly (c ^^^ c') (b ^^^ b')).toNat < 2 ^ (8 * l.length) := by
      rw [ih, Nat.pow_mul]
      exact diffDigits_lt l l' hlen'
    have hback : ((c ^^^ c') ^^^ (b ^^^ b').toBitVec.setWidth w).toNat
        = 256 * diffDigits l l' := by
      rw [← ih]
      exact shifts_toNat hp 8 (8 * l.length) _ hw' hlt
    have hbyte : ((b ^^^ b').toBitVec.setWidth w).toNat = (b ^^^ b').toNat := by
      rw [BitVec.toNat_setWidth, UInt8.toNat_toBitVec]
      refine Nat.mod_eq_of_lt (Nat.lt_of_lt_of_le (b ^^^ b').toNat_lt ?_)
      exact Nat.pow_le_pow_right (n := 2) (by omega) (by omega)
    -- and the byte sits below the multiple of 256
    have hsplit : (c ^^^ c').toNat = (256 * diffDigits l l') ^^^ (b ^^^ b').toNat := by
      rw [← hback, ← hbyte, ← BitVec.toNat_xor, BitVec.xor_assoc, BitVec.xor_self,
        BitVec.xor_zero]
    rw [hsplit, diffDigits, Nat.add_comm, mul_256_xor (b ^^^ b').toNat_lt]

/-- **Two lists that agree outside a window** of `n` positions are a common front, two parts of at most
`n` elements and a common back. -/
theorem exists_window {α : Type} {l l' : List α} {p n : Nat} (hlen : l.length = l'.length)
    (hsame : ∀ i, i < p ∨ p + n ≤ i → l[i]? = l'[i]?) :
    ∃ pre mid mid' post, l = pre ++ mid ++ post ∧ l' = pre ++ mid' ++ post ∧
      mid.length = mid'.length ∧ mid.length ≤ n := by
  have hsplit : ∀ k : List α, k = k.take p ++ (k.drop p).take n ++ k.drop (p + n) := by
    intro k
    rw [List.append_assoc, ← List.drop_drop, List.take_append_drop, List.take_append_drop]
  have hfront : l'.take p = l.take p := by
    refine List.ext_getElem? fun i => ?_
    rw [List.getElem?_take, List.getElem?_take]
    split
    · next hi => exact (hsame i (Or.inl hi)).symm
    · rfl
  have hback : l'.drop (p + n) = l.drop (p + n) := by
    refine List.ext_getElem? fun i => ?_
    rw [List.getElem?_drop, List.getElem?_drop]
    exact (hsame _ (Or.inr (Nat.le_add_right _ _))).symm
  refine ⟨l.take p, (l.drop p).take n, (l'.drop p).take n, l.drop (p + n), hsplit l, ?_, ?_, ?_⟩
  · rw [← hfront, ← hback]
    exact hsplit l'
  · rw [List.length_take, List.length_take, List.length_drop, List.length_drop, hlen]
  · exact List.length_take_le n _

/-- **Bursts are detected.**  Two inputs of equal length that agree outside a window of at
most `w / 8` bytes, and differ inside it, leave different registers. -/
theorem feed_burst_ne (hp : poly.msb = true) (c : BitVec w) (pre post l l' : List UInt8)
    (hlen : l.length = l'.length) (hw : 8 * l.length ≤ w) (hne : l ≠ l') :
    feed poly c (pre ++ l ++ post) ≠ feed poly c (pre ++ l' ++ post) := by
  intro h
  simp only [feed_append] at h
  have hmid := feed_inj hp post h
  have hd := feed_diff_digits hp l l' _ _ hlen hw hmid
  rw [BitVec.xor_self] at hd
  exact hne (diffDigits_eq_zero hlen (by simpa using hd.symm))

/-! ## 5. Other step counts -/

/-- **Two inputs that differ in a window leave one register exactly when the differing bytes,
fed to a zero register, leave zero.** -/
theorem feedBy_window_eq_iff (hp : poly.msb = true) (n : Nat) (c : BitVec w)
    (pre post : List UInt8) {l l' : List UInt8} (hlen : l.length = l'.length) :
    feedBy poly n c (pre ++ l ++ post) = feedBy poly n c (pre ++ l' ++ post) ↔
      feedBy poly n 0#w (List.zipWith (· ^^^ ·) l l') = 0#w := by
  have hwindow := feedBy_xor poly n hlen (feedBy poly n c pre) (feedBy poly n c pre)
  rw [BitVec.xor_self] at hwindow
  rw [← hwindow, BitVec.xor_eq_zero_iff]
  simp only [feedBy_append]
  exact ⟨fun h => feedBy_inj hp n post h, fun h => by rw [h]⟩

end Register

end AetherFs.Lib
