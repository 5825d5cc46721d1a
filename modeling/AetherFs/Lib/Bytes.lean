/-
# Byte buffers and little-endian fields

A packed C structure is a run of bytes, and reading one of its fields is reading a few bytes
at a fixed offset, least significant first.  This module is that view and nothing else: a
buffer `Bytes n`, the total reading `byteAt` of it, `getLE` / `putLE` for one little-endian
field, and `slice` / `overlay` for `memcpy` out of and into a larger buffer.

What the proofs use are the four laws of `getLE` against `putLE` and `overlay`: a field reads
back what was put there, and a field elsewhere reads what it read before.
-/
import Mathlib

namespace AetherFs.Lib

/-! ## 1. Buffers -/

/-- A buffer of `n` bytes. -/
abbrev Bytes (n : Nat) := Fin n → UInt8

/-- The byte at an offset, and `0` past the end. -/
def byteAt {n : Nat} (b : Bytes n) (i : Nat) : UInt8 := if h : i < n then b ⟨i, h⟩ else 0

theorem byteAt_lt {n : Nat} (b : Bytes n) {i : Nat} (h : i < n) : byteAt b i = b ⟨i, h⟩ := by
  simp [byteAt, h]

theorem byteAt_ge {n : Nat} (b : Bytes n) {i : Nat} (h : n ≤ i) : byteAt b i = 0 := by
  simp [byteAt, Nat.not_lt.mpr h]

@[simp] theorem byteAt_fin {n : Nat} (b : Bytes n) (i : Fin n) : byteAt b i = b i :=
  byteAt_lt b i.isLt

theorem bytes_ext {n : Nat} {a b : Bytes n} (h : ∀ i, i < n → byteAt a i = byteAt b i) :
    a = b := by
  funext i
  have := h i i.isLt
  rwa [byteAt_fin, byteAt_fin] at this

/-- `memset(buf, 0, n)`. -/
def zeros (n : Nat) : Bytes n := fun _ => 0

@[simp] theorem byteAt_zeros (n i : Nat) : byteAt (zeros n) i = 0 := by
  unfold byteAt zeros
  split <;> rfl

/-- The bytes of a buffer, in order. -/
def toList {n : Nat} (b : Bytes n) : List UInt8 := List.ofFn b

@[simp] theorem toList_length {n : Nat} (b : Bytes n) : (toList b).length = n := by
  simp [toList]

theorem toList_getElem? {n : Nat} (b : Bytes n) (i : Nat) :
    (toList b)[i]? = if i < n then some (byteAt b i) else none := by
  rw [toList, List.getElem?_ofFn]
  split
  · rename_i hi
    rw [byteAt_lt b hi]
  · rfl

/-- Byte-wise exclusive or. -/
def xorBytes {n : Nat} (a b : Bytes n) : Bytes n := fun i => a i ^^^ b i

theorem xorBytes_comm {n : Nat} (a b : Bytes n) : xorBytes a b = xorBytes b a :=
  funext fun _ => UInt8.xor_comm _ _

theorem xorBytes_assoc {n : Nat} (a b c : Bytes n) :
    xorBytes (xorBytes a b) c = xorBytes a (xorBytes b c) :=
  funext fun _ => UInt8.xor_assoc _ _ _

@[simp] theorem xorBytes_self {n : Nat} (a : Bytes n) : xorBytes a a = zeros n :=
  funext fun _ => UInt8.xor_self

@[simp] theorem xorBytes_zeros {n : Nat} (a : Bytes n) : xorBytes a (zeros n) = a :=
  funext fun _ => UInt8.xor_zero

@[simp] theorem zeros_xorBytes {n : Nat} (a : Bytes n) : xorBytes (zeros n) a = a :=
  funext fun _ => UInt8.zero_xor

/-- The xor of a list of strings. -/
def xorAll {n : Nat} (l : List (Bytes n)) : Bytes n := l.foldl xorBytes (zeros n)

theorem xorAll_perm {n : Nat} {l l' : List (Bytes n)} (h : l.Perm l') : xorAll l = xorAll l' := by
  have : RightCommutative (@xorBytes n) :=
    ⟨fun a b c => by rw [xorBytes_assoc, xorBytes_comm b c, xorBytes_assoc]⟩
  exact h.foldl_eq (zeros n)

theorem xorAll_cons {n : Nat} (a : Bytes n) (l : List (Bytes n)) :
    xorAll (a :: l) = xorBytes a (xorAll l) := by
  have shift : ∀ (l : List (Bytes n)) (x : Bytes n),
      l.foldl xorBytes x = xorBytes x (xorAll l) := fun l => by
    induction l with
    | nil => intro x; rw [xorAll, List.foldl_nil, List.foldl_nil, xorBytes_zeros]
    | cons b l ih =>
      intro x
      have hb : xorAll (b :: l) = xorBytes b (xorAll l) := by
        rw [xorAll, List.foldl_cons, zeros_xorBytes, ih]
      rw [List.foldl_cons, ih, hb, xorBytes_assoc]
  rw [xorAll, List.foldl_cons, zeros_xorBytes, shift]

/-- A summand of a sum that is zero is the sum of the others. -/
theorem xorAll_rebuild {n : Nat} {a : Bytes n} {l : List (Bytes n)} (h : xorAll (a :: l) = zeros n) :
    a = xorAll l := by
  rw [xorAll_cons] at h
  calc a = xorBytes a (xorBytes (xorAll l) (xorAll l)) := by rw [xorBytes_self, xorBytes_zeros]
    _ = xorBytes (xorBytes a (xorAll l)) (xorAll l) := (xorBytes_assoc _ _ _).symm
    _ = xorAll l := by rw [h, zeros_xorBytes]

/-- **The incremental update.**  Replacing one summand and correcting another by the
difference leaves the xor what it was. -/
theorem xorAll_update {n : Nat} (a p b : Bytes n) (l : List (Bytes n)) :
    xorAll (b :: xorBytes (xorBytes p a) b :: l) = xorAll (a :: p :: l) := by
  have h : xorBytes b (xorBytes (xorBytes p a) b) = xorBytes a p := by
    rw [xorBytes_comm b, xorBytes_assoc, xorBytes_self, xorBytes_zeros, xorBytes_comm]
  rw [xorAll_cons, xorAll_cons, ← xorBytes_assoc, h, xorAll_cons, xorAll_cons, xorBytes_assoc]

/-! ## 2. Little-endian fields -/

/-- `w` bytes from `off`, least significant first.  `m` is any byte-addressed memory, so that
the same reading serves a buffer and what lies behind it. -/
def getLE (m : Nat → UInt8) (off : Nat) : Nat → Nat
  | 0 => 0
  | w + 1 => (m off).toNat + 256 * getLE m (off + 1) w

/-- Overwrite `w` bytes from `off` with the low `w` bytes of `v`. -/
def putLE {n : Nat} (b : Bytes n) (off w v : Nat) : Bytes n :=
  fun i => if off ≤ i.val ∧ i.val < off + w then UInt8.ofNat (v / 256 ^ (i.val - off)) else b i

theorem getLE_lt (m : Nat → UInt8) : ∀ (w off : Nat), getLE m off w < 256 ^ w
  | 0, _ => by simp [getLE]
  | w + 1, off => by
    have ih := getLE_lt m w (off + 1)
    have hb : (m off).toNat < 256 := (m off).toNat_lt
    rw [getLE, Nat.pow_succ]
    omega

theorem getLE_congr {m m' : Nat → UInt8} : ∀ {w off : Nat},
    (∀ i, off ≤ i → i < off + w → m i = m' i) → getLE m off w = getLE m' off w
  | 0, _, _ => rfl
  | w + 1, off, h => by
    rw [getLE, getLE, h off (Nat.le_refl _) (by omega),
      getLE_congr (fun i h1 h2 => h i (by omega) (by omega))]

theorem getLE_shift (m : Nat → UInt8) (base : Nat) : ∀ w off : Nat,
    getLE m (base + off) w = getLE (fun i => m (base + i)) off w
  | 0, _ => rfl
  | w + 1, off => by rw [getLE, getLE, Nat.add_assoc, getLE_shift m base w (off + 1)]

theorem getLE_split (m : Nat → UInt8) (b : Nat) : ∀ a off : Nat,
    getLE m off (a + b) = getLE m off a + 256 ^ a * getLE m (off + a) b
  | 0, off => by simp [getLE]
  | a + 1, off => by
    rw [Nat.add_right_comm, getLE, getLE_split m b a (off + 1), getLE, Nat.pow_succ',
      show off + 1 + a = off + (a + 1) by omega]
    ring

theorem byteAt_putLE {n : Nat} (b : Bytes n) {off w : Nat} (v : Nat) (hn : off + w ≤ n) (i : Nat) :
    byteAt (putLE b off w v) i =
      if off ≤ i ∧ i < off + w then UInt8.ofNat (v / 256 ^ (i - off)) else byteAt b i := by
  by_cases hi : i < n
  · rw [byteAt_lt _ hi, byteAt_lt _ hi, putLE]
  · rw [byteAt_ge _ (Nat.not_lt.mp hi), byteAt_ge _ (Nat.not_lt.mp hi), if_neg (by omega)]

theorem byteAt_putLE_of_out {n : Nat} (b : Bytes n) {off w i : Nat} (v : Nat)
    (h : i < off ∨ off + w ≤ i) : byteAt (putLE b off w v) i = byteAt b i := by
  by_cases hi : i < n
  · rw [byteAt_lt _ hi, byteAt_lt _ hi, putLE, if_neg (by simp only; omega)]
  · rw [byteAt_ge _ (Nat.not_lt.mp hi), byteAt_ge _ (Nat.not_lt.mp hi)]

theorem getLE_of_digits (m : Nat → UInt8) (v : Nat) : ∀ (w off : Nat),
    (∀ i, i < w → m (off + i) = UInt8.ofNat (v / 256 ^ i)) → getLE m off w = v % 256 ^ w := by
  intro w
  induction w generalizing v with
  | zero => intro off _; simp [getLE, Nat.mod_one]
  | succ w ih =>
    intro off h
    have h0 : m off = UInt8.ofNat v := by simpa using h 0 (by omega)
    have hrest : getLE m (off + 1) w = v / 256 % 256 ^ w := by
      refine ih (v / 256) (off + 1) (fun i hi => ?_)
      have := h (i + 1) (by omega)
      rw [show off + 1 + i = off + (i + 1) by omega, this, Nat.div_div_eq_div_mul, Nat.pow_succ,
        Nat.mul_comm]
    have hp : 256 ^ (w + 1) = 256 * 256 ^ w := Nat.pow_succ'
    rw [getLE, h0, hrest, UInt8.toNat_ofNat', hp, Nat.mod_mul]

/-- **A field reads back what was put there**, cut to its width. -/
@[simp] theorem getLE_putLE_self {n : Nat} (b : Bytes n) (off w v : Nat) (hn : off + w ≤ n) :
    getLE (byteAt (putLE b off w v)) off w = v % 256 ^ w := by
  refine getLE_of_digits _ v w off (fun i hi => ?_)
  rw [byteAt_putLE b v hn, if_pos (by omega), Nat.add_sub_cancel_left]

/-- **A field elsewhere is not disturbed.** -/
@[simp] theorem getLE_putLE_of_disjoint {n : Nat} (b : Bytes n) (off w v off' w' : Nat)
    (h : off' + w' ≤ off ∨ off + w ≤ off') :
    getLE (byteAt (putLE b off w v)) off' w' = getLE (byteAt b) off' w' :=
  getLE_congr fun _ _ _ => byteAt_putLE_of_out b v (by omega)

@[simp] theorem getLE_zeros (n off : Nat) : ∀ w, getLE (byteAt (zeros n)) off w = 0 := by
  intro w
  induction w generalizing off with
  | zero => rfl
  | succ w ih => simp [getLE, ih]

@[simp] theorem putLE_putLE {n : Nat} (b : Bytes n) (off w v v' : Nat) :
    putLE (putLE b off w v) off w v' = putLE b off w v' := by
  funext i
  simp only [putLE]
  split <;> rfl

theorem putLE_comm {n : Nat} (b : Bytes n) {off w off' w' : Nat} (v v' : Nat)
    (h : off + w ≤ off' ∨ off' + w' ≤ off) :
    putLE (putLE b off w v) off' w' v' = putLE (putLE b off' w' v') off w v := by
  funext i
  simp only [putLE]
  split
  · rw [if_neg (by omega)]
  · rfl

/-- The two records agree on every field that stays clear of `holes`. -/
def DiffersOnly {n : Nat} (holes : List (Nat × Nat)) (a b : Bytes n) : Prop :=
  ∀ off w, (∀ h ∈ holes, off + w ≤ h.1 ∨ h.1 + h.2 ≤ off) →
    getLE (byteAt a) off w = getLE (byteAt b) off w

theorem DiffersOnly.refl {n : Nat} (holes : List (Nat × Nat)) (a : Bytes n) :
    DiffersOnly holes a a := fun _ _ _ => rfl

theorem DiffersOnly.trans {n : Nat} {holes : List (Nat × Nat)} {a b c : Bytes n}
    (h : DiffersOnly holes a b) (h' : DiffersOnly holes b c) : DiffersOnly holes a c :=
  fun off w hout => (h off w hout).trans (h' off w hout)

theorem DiffersOnly.mono {n : Nat} {holes holes' : List (Nat × Nat)} {a b : Bytes n}
    (h : DiffersOnly holes a b) (hsub : ∀ x ∈ holes, x ∈ holes') : DiffersOnly holes' a b :=
  fun off w hout => h off w fun x hx => hout x (hsub x hx)

theorem differsOnly_putLE {n : Nat} {holes : List (Nat × Nat)} (b : Bytes n) {off w : Nat} (v : Nat)
    (h : (off, w) ∈ holes) : DiffersOnly holes (putLE b off w v) b :=
  fun off' w' hout => getLE_putLE_of_disjoint b off w v off' w' (hout _ h)

/-! ## 3. `memcpy` -/

/-- `len` bytes from `off`. -/
def slice {n : Nat} (b : Bytes n) (off len : Nat) : Bytes len := fun i => byteAt b (off + i.val)

/-- Overwrite the bytes from `off` by those of `c`. -/
def overlay {n len : Nat} (b : Bytes n) (off : Nat) (c : Bytes len) : Bytes n :=
  fun i => if off ≤ i.val ∧ i.val < off + len then byteAt c (i.val - off) else b i

theorem byteAt_slice {n : Nat} (b : Bytes n) {off len i : Nat} (h : i < len) :
    byteAt (slice b off len) i = byteAt b (off + i) := by
  rw [byteAt_lt _ h, slice]

@[simp] theorem getLE_slice {n : Nat} (b : Bytes n) (off len o w : Nat) (h : o + w ≤ len) :
    getLE (byteAt (slice b off len)) o w = getLE (byteAt b) (off + o) w := by
  have shift : ∀ (w o : Nat), o + w ≤ len →
      getLE (byteAt (slice b off len)) o w = getLE (byteAt b) (off + o) w := by
    intro w
    induction w with
    | zero => intro o _; rfl
    | succ w ih =>
      intro o ho
      rw [getLE, getLE, byteAt_slice b (by omega), ih (o + 1) (by omega), Nat.add_assoc]
  exact shift w o h

theorem byteAt_overlay {n len : Nat} (b : Bytes n) {off : Nat} (c : Bytes len)
    (hn : off + len ≤ n) (i : Nat) : byteAt (overlay b off c) i =
      if off ≤ i ∧ i < off + len then byteAt c (i - off) else byteAt b i := by
  by_cases hi : i < n
  · rw [byteAt_lt _ hi, byteAt_lt _ hi, overlay]
  · rw [byteAt_ge _ (Nat.not_lt.mp hi), byteAt_ge _ (Nat.not_lt.mp hi), if_neg (by omega)]

theorem byteAt_overlay_of_out {n len : Nat} (b : Bytes n) {off : Nat} (c : Bytes len) {i : Nat}
    (h : i < off ∨ off + len ≤ i) : byteAt (overlay b off c) i = byteAt b i := by
  by_cases hi : i < n
  · rw [byteAt_lt _ hi, byteAt_lt _ hi, overlay, if_neg (by simp only; omega)]
  · rw [byteAt_ge _ (Nat.not_lt.mp hi), byteAt_ge _ (Nat.not_lt.mp hi)]

@[simp] theorem getLE_overlay_of_disjoint {n len : Nat} (b : Bytes n) (off : Nat) (c : Bytes len)
    (off' w' : Nat) (h : off' + w' ≤ off ∨ off + len ≤ off') :
    getLE (byteAt (overlay b off c)) off' w' = getLE (byteAt b) off' w' :=
  getLE_congr fun _ _ _ => byteAt_overlay_of_out b c (by omega)

@[simp] theorem slice_overlay_self {n len : Nat} (b : Bytes n) (off : Nat) (c : Bytes len)
    (hn : off + len ≤ n) : slice (overlay b off c) off len = c := by
  refine bytes_ext fun i hi => ?_
  rw [byteAt_slice _ hi, byteAt_overlay b c hn, if_pos (by omega), Nat.add_sub_cancel_left]

@[simp] theorem slice_overlay_of_disjoint {n len : Nat} (b : Bytes n) (off : Nat) (c : Bytes len)
    (off' len' : Nat) (hn : off + len ≤ n) (h : off' + len' ≤ off ∨ off + len ≤ off') :
    slice (overlay b off c) off' len' = slice b off' len' := by
  refine bytes_ext fun i hi => ?_
  rw [byteAt_slice _ hi, byteAt_slice _ hi, byteAt_overlay b c hn, if_neg (by omega)]

@[simp] theorem slice_zeros (n off len : Nat) : slice (zeros n) off len = zeros len := by
  refine bytes_ext fun i hi => ?_
  rw [byteAt_slice _ hi, byteAt_zeros, byteAt_zeros]

/-! ## 4. Fields of a memory -/

section Memory

variable (m : Nat → UInt8)

/-- Overwrite `w` bytes of a memory. -/
def setLE (off w v : Nat) : Nat → UInt8 :=
  fun i => if off ≤ i ∧ i < off + w then UInt8.ofNat (v / 256 ^ (i - off)) else m i

theorem setLE_of_out {off w i : Nat} (v : Nat) (h : i < off ∨ off + w ≤ i) :
    setLE m off w v i = m i := if_neg (by omega)

theorem getLE_setLE_self (off w v : Nat) : getLE (setLE m off w v) off w = v % 256 ^ w := by
  refine getLE_of_digits _ v w off fun i hi => ?_
  rw [setLE, if_pos (by omega), Nat.add_sub_cancel_left]

theorem getLE_setLE_of_disjoint {off w : Nat} (v : Nat) {off' w' : Nat}
    (h : off' + w' ≤ off ∨ off + w ≤ off') : getLE (setLE m off w v) off' w' = getLE m off' w' :=
  getLE_congr fun i _ _ => setLE_of_out m v (by omega)

theorem setLE_setLE (off w v v' : Nat) : setLE (setLE m off w v) off w v' = setLE m off w v' := by
  funext i
  simp only [setLE]
  split <;> rfl

theorem getLE_digit : ∀ {w off i : Nat}, i < w → UInt8.ofNat (getLE m off w / 256 ^ i) = m (off + i)
  | w + 1, off, 0, _ => by
    rw [getLE, Nat.pow_zero, Nat.div_one]
    apply UInt8.toNat_inj.mp
    have hb : (m off).toNat < 256 := (m off).toNat_lt
    rw [UInt8.toNat_ofNat', Nat.add_mul_mod_self_left, Nat.mod_eq_of_lt hb, Nat.add_zero]
  | w + 1, off, i + 1, h => by
    have hb : (m off).toNat < 256 := (m off).toNat_lt
    have hdiv : ((m off).toNat + 256 * getLE m (off + 1) w) / 256 = getLE m (off + 1) w := by omega
    rw [getLE, Nat.pow_succ', ← Nat.div_div_eq_div_mul, hdiv, getLE_digit (Nat.lt_of_succ_lt_succ h),
      Nat.add_right_comm, Nat.add_assoc]

theorem setLE_getLE (off w : Nat) : setLE m off w (getLE m off w) = m := by
  funext i
  rw [setLE]
  split
  · rename_i h
    rw [getLE_digit m (by omega), Nat.add_sub_cancel' h.1]
  · rfl

theorem eq_of_getLE {m m' : Nat → UInt8} {off w : Nat} (h : getLE m off w = getLE m' off w) {a : Nat}
    (hlo : off ≤ a) (hhi : a < off + w) : m a = m' a := by
  have hdigit : ∀ x : Nat → UInt8, UInt8.ofNat (getLE x off w / 256 ^ (a - off)) = x a := by
    intro x
    rw [getLE_digit x (by omega), Nat.add_sub_cancel' hlo]
  rw [← hdigit m, ← hdigit m', h]

/-- The bytes of a range. -/
def bytesFrom (off len : Nat) : List UInt8 := (List.range len).map fun i => m (off + i)

theorem bytesFrom_congr {m m' : Nat → UInt8} {off len : Nat}
    (h : ∀ i, i < len → m (off + i) = m' (off + i)) : bytesFrom m off len = bytesFrom m' off len :=
  List.map_congr_left fun i hi => h i (List.mem_range.mp hi)

theorem bytesFrom_setLE_of_disjoint {off w : Nat} (v : Nat) {off' len : Nat}
    (h : off' + len ≤ off ∨ off + w ≤ off') :
    bytesFrom (setLE m off w v) off' len = bytesFrom m off' len :=
  bytesFrom_congr fun i hi => setLE_of_out m v (by omega)

/-- Copy bytes into a memory. -/
def setBytes (off : Nat) (l : List UInt8) : Nat → UInt8 :=
  fun i => if off ≤ i then (l[i - off]?).getD (m i) else m i

theorem setBytes_of_out {off : Nat} {l : List UInt8} {i : Nat} (h : i < off ∨ off + l.length ≤ i) :
    setBytes m off l i = m i := by
  rw [setBytes]
  split
  · rw [List.getElem?_eq_none (by omega)]
    rfl
  · rfl

theorem setBytes_nil (m : Nat → UInt8) (off : Nat) : setBytes m off [] = m := by
  funext i
  exact setBytes_of_out m (Nat.lt_or_ge i off)

theorem setBytes_append (m : Nat → UInt8) (off : Nat) (l l' : List UInt8) :
    setBytes (setBytes m off l) (off + l.length) l' = setBytes m off (l ++ l') := by
  funext i
  simp only [setBytes, List.getElem?_append, Nat.sub_add_eq]
  by_cases hlo : off ≤ i
  · by_cases hl : i - off < l.length
    · rw [if_neg (by omega), if_pos hlo, if_pos hlo, if_pos hl]
    · rw [if_pos (by omega), if_pos hlo, if_pos hlo, if_neg hl,
        List.getElem?_eq_none (Nat.not_lt.mp hl), Option.getD_none]
  · rw [if_neg (by omega), if_neg hlo, if_neg hlo]

theorem getLE_setBytes_of_disjoint {off : Nat} (l : List UInt8) {off' w' : Nat}
    (h : off' + w' ≤ off) : getLE (setBytes m off l) off' w' = getLE m off' w' :=
  getLE_congr fun i _ _ => if_neg (by omega)

theorem bytesFrom_setBytes_of_disjoint {off : Nat} (l : List UInt8) {off' len : Nat}
    (h : off' + len ≤ off) : bytesFrom (setBytes m off l) off' len = bytesFrom m off' len :=
  bytesFrom_congr fun _ _ => if_neg (by omega)

theorem bytesFrom_setBytes_self (off : Nat) (l : List UInt8) :
    bytesFrom (setBytes m off l) off l.length = l := by
  refine List.ext_getElem (by simp [bytesFrom]) fun i h1 h2 => ?_
  simp only [bytesFrom, List.getElem_map, List.getElem_range, setBytes]
  rw [if_pos (Nat.le_add_right off i), Nat.add_sub_cancel_left, List.getElem?_eq_getElem h2,
    Option.getD_some]

theorem bytesFrom_length (off len : Nat) : (bytesFrom m off len).length = len := by
  simp [bytesFrom]

theorem bytesFrom_getElem? {off i len : Nat} (h : i < len) :
    (bytesFrom m off len)[i]? = some (m (off + i)) := by
  rw [bytesFrom, List.getElem?_map, List.getElem?_range h]
  rfl

theorem bytesFrom_eq_iff {off len : Nat} {l : List UInt8} (h : l.length = len) :
    bytesFrom m off len = l ↔ ∀ i, i < len → some (m (off + i)) = l[i]? := by
  constructor
  · intro heq i hi
    rw [← heq, bytesFrom_getElem? m hi]
  · intro hall
    refine List.ext_getElem? fun i => ?_
    by_cases hi : i < len
    · rw [bytesFrom_getElem? m hi, hall i hi]
    · rw [List.getElem?_eq_none (by rw [bytesFrom_length]; omega),
        List.getElem?_eq_none (by omega)]

theorem bytesFrom_take (off len k : Nat) :
    (bytesFrom m off len).take k = bytesFrom m off (min k len) := by
  rw [bytesFrom, bytesFrom, ← List.map_take, List.take_range]

theorem bytesFrom_append (off a b : Nat) :
    bytesFrom m off (a + b) = bytesFrom m off a ++ bytesFrom m (off + a) b := by
  simp [bytesFrom, List.range_add, Nat.add_assoc, Function.comp_def]

end Memory

-- a field of a structure is compared through the lemmas above, never by running the decoder
attribute [irreducible] getLE

end AetherFs.Lib
