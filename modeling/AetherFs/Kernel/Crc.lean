/-
# Three functions called `aetherfs_crc32c`

The shared format header defines the checksum of `mkfs` and scrub; `kernel/aetherfs.h` defines
two more under the same name, one for the module and one for userspace.  All three have the same
polynomial and the same inverted result, and differ in everything else:

* the format header inverts the seed and shifts EIGHT times a byte;
* the kernel variant keeps the seed and shifts ONCE a byte;
* the userspace variant keeps the seed and folds the register onto itself by 16, 8, 4, 2 and 1
  bits, which is no shift at all.

So they disagree already on the empty string, at every seed.  One shift and one folding are linear
over exclusive or, so each value is an affine function of the seed and the bytes, and the three meet
exactly where two sums over the positions of the string have the values that the seed gives them.
-/
import AetherFs.Format

namespace AetherFs

open Lib

/-! ## 1. The variants -/

/-- A byte, xored into the low end of the register. -/
def crcByte (b : UInt8) : BitVec 32 := b.toBitVec.setWidth 32

/-- The register of the kernel variant: one shift a byte. -/
def kernelRegister (crc : BitVec 32) (buf : List UInt8) : BitVec 32 :=
  buf.foldl (fun c b => shiftStep crcPoly (c ^^^ crcByte b)) crc

/-- `aetherfs_crc32c` of `kernel/aetherfs.h` under `__KERNEL__`. -/
def kernelCrc32c (crc : BitVec 32) (buf : List UInt8) : BitVec 32 := ~~~kernelRegister crc buf

/-- The five foldings of the userspace variant, and its conditional xor. -/
def userMix (c : BitVec 32) : BitVec 32 :=
  let c := c ^^^ (c >>> 16)
  let c := c ^^^ (c >>> 8)
  let c := c ^^^ (c >>> 4)
  let c := c ^^^ (c >>> 2)
  let c := c ^^^ (c >>> 1)
  c ^^^ (if c.getLsbD 0 then crcPoly else 0#32)

/-- The register of the userspace variant. -/
def userRegister (crc : BitVec 32) (buf : List UInt8) : BitVec 32 :=
  buf.foldl (fun c b => userMix (c ^^^ crcByte b)) crc

/-- `aetherfs_crc32c` of `kernel/aetherfs.h` outside `__KERNEL__`. -/
def userCrc32c (crc : BitVec 32) (buf : List UInt8) : BitVec 32 := ~~~userRegister crc buf

/-- The register of the format header, which starts from the inverted seed. -/
def formatRegister (crc : BitVec 32) (buf : List UInt8) : BitVec 32 := feed crcPoly (~~~crc) buf

/-- The three return the same value. -/
def CrcAgree (crc : BitVec 32) (buf : List UInt8) : Prop :=
  kernelCrc32c crc buf = crc32c crc buf ∧ userCrc32c crc buf = crc32c crc buf

instance (crc : BitVec 32) (buf : List UInt8) : Decidable (CrcAgree crc buf) :=
  inferInstanceAs (Decidable (_ ∧ _))

theorem crc32c_eq_register (crc : BitVec 32) (buf : List UInt8) :
    crc32c crc buf = ~~~formatRegister crc buf := by
  have hall : ∀ x : BitVec 32, x ^^^ 0xFFFFFFFF#32 = ~~~x := fun x => BitVec.xor_allOnes
  rw [crc32c, hall, hall, formatRegister]

theorem kernelRegister_eq_feedBy (crc : BitVec 32) (buf : List UInt8) :
    kernelRegister crc buf = feedBy crcPoly 1 crc buf := rfl

theorem crcAgree_iff_registers (crc : BitVec 32) (buf : List UInt8) :
    CrcAgree crc buf ↔ kernelRegister crc buf = formatRegister crc buf ∧
      userRegister crc buf = kernelRegister crc buf := by
  rw [CrcAgree, crc32c_eq_register, kernelCrc32c, userCrc32c, BitVec.not_inj, BitVec.not_inj]
  exact and_congr_right fun h => by rw [h]

/-! ## 2. The registers as sums -/

theorem kernelRegister_eq_sum (crc : BitVec 32) (buf : List UInt8) : kernelRegister crc buf =
    (shiftStep crcPoly)^[buf.length] crc ^^^
      positionSum (fun k b => (shiftStep crcPoly)^[k] (crcByte b)) buf :=
  foldl_linear (shiftStep_xor crcPoly) buf crc

theorem formatRegister_eq_sum (crc : BitVec 32) (buf : List UInt8) : formatRegister crc buf =
    (shiftStep crcPoly)^[8 * buf.length] (~~~crc) ^^^
      positionSum (fun k b => (shiftStep crcPoly)^[8 * k] (crcByte b)) buf := by
  have height : ∀ k c, (shifts crcPoly 8)^[k] c = (shiftStep crcPoly)^[8 * k] c := by
    intro k c
    have hshifts : shifts crcPoly 8 = (shiftStep crcPoly)^[8] :=
      funext (shifts_eq_iterate crcPoly 8)
    rw [hshifts, Function.iterate_mul]
  have hsum := foldl_linear (shifts_xor crcPoly 8) buf (~~~crc)
  simp only [height] at hsum
  exact hsum

theorem fold_xor (n : Nat) (a b : BitVec 32) :
    (a ^^^ b) ^^^ ((a ^^^ b) >>> n) = (a ^^^ (a >>> n)) ^^^ (b ^^^ (b >>> n)) := by
  rw [BitVec.ushiftRight_xor_distrib]
  ac_rfl

theorem userMix_xor (a b : BitVec 32) : userMix (a ^^^ b) = userMix a ^^^ userMix b := by
  have hlow : ∀ x y : BitVec 32,
      x ^^^ y ^^^ (if (x ^^^ y).getLsbD 0 then crcPoly else 0#32)
        = x ^^^ (if x.getLsbD 0 then crcPoly else 0#32)
          ^^^ (y ^^^ (if y.getLsbD 0 then crcPoly else 0#32)) := by
    intro x y
    rw [BitVec.getLsbD_xor]
    cases x.getLsbD 0 <;> cases y.getLsbD 0
    · simp
    · simp [BitVec.xor_assoc]
    · simp only [Bool.true_xor, Bool.not_false, if_true, Bool.false_eq_true, if_false,
        BitVec.xor_zero]
      ac_rfl
    · have hcancel : x ^^^ y = x ^^^ y ^^^ (crcPoly ^^^ crcPoly) := by
        rw [BitVec.xor_self, BitVec.xor_zero]
      simp only [Bool.true_xor, Bool.not_true, if_true, Bool.false_eq_true, if_false,
        BitVec.xor_zero]
      rw [hcancel]
      ac_rfl
  simp only [userMix, fold_xor, hlow]

theorem userRegister_eq_sum (crc : BitVec 32) (buf : List UInt8) : userRegister crc buf =
    userMix^[buf.length] crc ^^^ positionSum (fun k b => userMix^[k] (crcByte b)) buf :=
  foldl_linear userMix_xor buf crc

/-! ## 3. When they agree -/

/-- Two affine values meet when their linear parts differ as their constants do. -/
theorem xor_meets_iff {a b c d : BitVec 32} : a ^^^ b = c ^^^ d ↔ b ^^^ d = a ^^^ c := by
  have hsum : a ^^^ b ^^^ (c ^^^ d) = b ^^^ d ^^^ (a ^^^ c) := by ac_rfl
  rw [← BitVec.xor_eq_zero_iff, hsum, BitVec.xor_eq_zero_iff]

/-- **When the three agree**, in the seed and the bytes: the `k`-th byte from the end adds to the
first sum its difference under `k` and `8 * k` shifts, and to the second that under `k` foldings and
`k` shifts.  On the empty string they never do. -/
theorem crc_variants_agree_iff (crc : BitVec 32) (buf : List UInt8) :
    (CrcAgree crc buf ↔
      positionSum (fun k b => (shiftStep crcPoly)^[k] (crcByte b) ^^^
          (shiftStep crcPoly)^[8 * k] (crcByte b)) buf
        = (shiftStep crcPoly)^[buf.length] crc ^^^
          (shiftStep crcPoly)^[8 * buf.length] (~~~crc) ∧
      positionSum (fun k b => userMix^[k] (crcByte b) ^^^ (shiftStep crcPoly)^[k] (crcByte b)) buf
        = userMix^[buf.length] crc ^^^ (shiftStep crcPoly)^[buf.length] crc) ∧
    ¬ CrcAgree crc [] := by
  constructor
  · rw [crcAgree_iff_registers, userRegister_eq_sum, kernelRegister_eq_sum, formatRegister_eq_sum,
      positionSum_xor, positionSum_xor]
    exact and_congr xor_meets_iff xor_meets_iff
  · intro h
    have hmeet : crc = ~~~crc := (crcAgree_iff_registers crc []).mp h |>.1
    have hbit := congrArg (BitVec.getLsbD · 0) hmeet
    simp at hbit

/-- Three values for one byte. -/
theorem crc_variants_differ : ¬ CrcAgree 0xFFFFFFFF#32 [0] ∧
    kernelCrc32c 0xFFFFFFFF#32 [0] = 0x6DB88320#32 ∧
    userCrc32c 0xFFFFFFFF#32 [0] = 0x55555555#32 ∧
    crc32c 0xFFFFFFFF#32 [0] = 0xFFFFFFFF#32 := by
  decide

end AetherFs
