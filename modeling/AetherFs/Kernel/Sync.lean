/-
# A mounted superblock, and the tools afterwards

`aetherfs_fill_super` keeps the buffer of block 1 and points `s_es` into it; `sync_fs`, a remount to
read-only and `put_super` write it back, each through `aetherfs_sb_write_super`, which stores two
fields: `s_free_blocks`, and a sum over the structure, the old sum included.

Both are stored where `kernel/aetherfs.h` has them.  There the format has the upper half of its own
`s_free_blocks`, for the first, and bytes 4 to 7 of the UUID for the second (`Kernel.Layout`).  What
the kernel reads as its free blocks it puts back as it was; the UUID it overwrites.

* After `n` writes the buffer is the one that was mounted, with the `n`-fold sum of those four bytes
  in their place (`superRun_buffer`).
* The format's checksum sees every change of four bytes in a row.  So the tools take the image after
  `n` writes exactly if the `n`-fold sum happens to be what was there, and otherwise none of the three
  mount behaviours does.  One unmount is one write.
-/
import AetherFs.Health
import AetherFs.Kernel.Checksum
import AetherFs.Transfer

namespace AetherFs

open Lib

/-! ## 1. The source -/

/-- What the kernel keeps of a mounted file system, as far as the superblock goes: the buffer
`s_sbh`, into which `s_es` points, `s_free_blocks`, and `MS_RDONLY` of `s_flags`. -/
structure Mounted where
  sbh : Memory
  sFreeBlocks : Nat
  readOnly : Bool

/-- `aetherfs_fill_super` on the buffer of block 1; a wrong magic is `-EFBIG`. -/
def fillSuper (readOnly : Bool) (sbh : Memory) : Option Mounted :=
  if decode kernelSuper sbh .magic ≠ aetherfsMagic then none
  else some ⟨sbh, decode kernelSuper sbh .freeBlocks, readOnly⟩

/-- `aetherfs_sb_write_super`.  The sum is over the old sum too.  Locks are not modelled: calls come
one after the other. -/
def sbWriteSuper (s : Mounted) : Mounted :=
  let es := setLE s.sbh (offsetOf kernelSuper .freeBlocks) 8 s.sFreeBlocks
  let es := setLE es (offsetOf kernelSuper .checksum) 4 (hashed es 0 (naturalSize kernelSuperDecl - 4))
  { s with sbh := es }

/-- `aetherfs_sync_fs`. -/
def syncFs (wait : Bool) (s : Mounted) : Mounted := if wait then sbWriteSuper s else s

/-- `aetherfs_remount`, and what the caller then makes of `s_flags`. -/
def remountSuper (rdonly : Bool) (s : Mounted) : Mounted :=
  if rdonly = s.readOnly then s
  else { (if rdonly then syncFs true s else s) with readOnly := rdonly }

/-- The calls that may write the superblock; `putSuper` is the last one of a mount: after the write
`put_super` frees `s_es`, which points into the buffer. -/
inductive SuperOp
  | syncFs (wait : Bool)
  | remount (rdonly : Bool)
  | putSuper
deriving DecidableEq, Repr

def superStep (s : Mounted) : SuperOp → Mounted
  | .syncFs wait => syncFs wait s
  | .remount rdonly => remountSuper rdonly s
  | .putSuper => sbWriteSuper s

/-- Whether a call writes. -/
def writesSuper (s : Mounted) : SuperOp → Bool
  | .syncFs wait => wait
  | .remount rdonly => rdonly && !s.readOnly
  | .putSuper => true

/-- How many calls of a run write. -/
def superWrites : Mounted → List SuperOp → Nat
  | _, [] => 0
  | s, op :: ops => (writesSuper s op).toNat + superWrites (superStep s op) ops

/-- The buffer of the superblock, as it is read. -/
def superBuffer (f : ByteFile) : Memory := byteAt (f.blockAt (ByteFile.offsetOf superblockBlock))

/-- The image when the buffer has been written out. -/
def superWrittenOut (f : ByteFile) (s : Mounted) : ByteFile :=
  (BlockDev.write f superblockBlock (ByteFile.bufferBlock s.sbh)).2

/-! ## 2. What a run leaves in the buffer -/

/-- The sum that is stored when `x` is where the sum goes. -/
def nextSum (sbh : Memory) (x : Nat) : Nat := hashed (setLE sbh 52 4 x) 0 260

theorem iterate_nextSum_lt (sbh : Memory) {x : Nat} (hx : x < 256 ^ 4) (n : Nat) :
    (nextSum sbh)^[n] x < 256 ^ 4 := by
  cases n with
  | zero => exact hx
  | succ n =>
    rw [Function.iterate_succ_apply']
    exact hashed_lt _ _ _

/-- The buffer has one value where the sum goes and is otherwise as it was mounted. -/
structure SumOnly (sbh : Memory) (x : Nat) (s : Mounted) : Prop where
  buffer : s.sbh = setLE sbh 52 4 x
  free : s.sFreeBlocks = getLE sbh 24 8

theorem sumOnly_mounted (sbh : Memory) (readOnly : Bool) :
    SumOnly sbh (getLE sbh 52 4) ⟨sbh, decode kernelSuper sbh .freeBlocks, readOnly⟩ where
  buffer := (setLE_getLE sbh 52 4).symm
  free := rfl

/-- One write: the free blocks go back to where they came from, and the sum follows the sum. -/
theorem SumOnly.write {sbh : Memory} {x : Nat} {s : Mounted} (h : SumOnly sbh x s) :
    SumOnly sbh (nextSum sbh x) (sbWriteSuper s) where
  buffer := by
    have hfree : setLE s.sbh 24 8 s.sFreeBlocks = s.sbh := by
      have hfield : getLE s.sbh 24 8 = s.sFreeBlocks := by
        rw [h.buffer, h.free]
        exact getLE_setLE_of_disjoint sbh x (by norm_num)
      rw [← hfield, setLE_getLE]
    change setLE (setLE s.sbh 24 8 s.sFreeBlocks) 52 4
      (hashed (setLE s.sbh 24 8 s.sFreeBlocks) 0 260) = _
    rw [hfree, h.buffer, setLE_setLE]
    rfl
  free := h.free

theorem SumOnly.step {sbh : Memory} {x : Nat} {s : Mounted} (h : SumOnly sbh x s) (op : SuperOp) :
    SumOnly sbh ((nextSum sbh)^[(writesSuper s op).toNat] x) (superStep s op) := by
  cases op with
  | syncFs wait =>
    cases wait with
    | true => exact h.write
    | false => exact h
  | remount rdonly =>
    change SumOnly sbh _ (remountSuper rdonly s)
    unfold remountSuper
    split
    · rename_i heq
      have hno : writesSuper s (.remount rdonly) = false := by
        rw [writesSuper, heq]
        cases s.readOnly <;> rfl
      rw [hno]
      exact h
    · rename_i hne
      cases rdonly with
      | true =>
        have hyes : writesSuper s (.remount true) = true := by
          rw [writesSuper, Bool.true_and, Bool.not_eq_true']
          exact Bool.eq_false_iff.mpr (Ne.symm hne)
        rw [hyes]
        exact ⟨h.write.buffer, h.write.free⟩
      | false => exact ⟨h.buffer, h.free⟩
  | putSuper => exact h.write

/-- **The buffer after a run.** -/
theorem superRun_buffer {sbh : Memory} (ops : List SuperOp) : ∀ {x : Nat} {s : Mounted},
    SumOnly sbh x s → SumOnly sbh ((nextSum sbh)^[superWrites s ops] x) (ops.foldl superStep s) := by
  induction ops with
  | nil =>
    intro x s h
    exact h
  | cons op ops ih =>
    intro x s h
    have hrest := ih (h.step op)
    rw [← Function.iterate_add_apply, Nat.add_comm] at hrest
    exact hrest

/-! ## 3. What the tools say -/

section Tools

variable {f : ByteFile}

/-- Writing the superblock out changes block 1 and nothing else. -/
theorem superWrittenOut_spec (hf : LenientRest f) (s : Mounted) :
    (superWrittenOut f s).blockAt 4096 = ByteFile.bufferBlock s.sbh ∧
      LenientRest (superWrittenOut f s) := by
  have hsize := hf.size
  have hlt := f.size_lt
  have hoff : ByteFile.offsetOf superblockBlock = 4096 := rfl
  have hw : f.writeAll 4096 (ByteFile.bufferBlock s.sbh)
      = (.ok (), superWrittenOut f s) := by
    have hok : (f.writeAll 4096 (ByteFile.bufferBlock s.sbh)).1 = .ok () := by
      unfold ByteFile.writeAll
      rw [dif_neg (by omega), if_neg (by omega)]
    rw [superWrittenOut, ByteFile.write_def, hoff]
    exact Prod.ext hok rfl
  obtain ⟨-, hk, hs, -⟩ := ByteFile.writeAll_eq_ok hw
  have h0 : (superWrittenOut f s).blockAt 0 = f.blockAt 0 :=
    ByteFile.blockAt_write_ne hw (by norm_num)
  have h7 : (superWrittenOut f s).blockAt 28672 = f.blockAt 28672 :=
    ByteFile.blockAt_write_ne hw (by norm_num)
  refine ⟨ByteFile.blockAt_write_self hw, ⟨hk ▸ hf.kind, ?_, h0 ▸ hf.label, h7 ▸ hf.rootMagic,
    h7 ▸ hf.rootVersion, h7 ▸ hf.rootChecksum⟩⟩
  rw [hs]
  exact le_trans hf.size (le_max_left _ _)

/-- **A structure checksum tells apart** two structures that differ inside four bytes in a row, apart
from its own field. -/
theorem eq_of_zeroedChecksum {n : Nat} {a b : Bytes n} {off p : Nat} (hn : off + 4 ≤ n)
    (happart : off + 4 ≤ p ∨ p + 4 ≤ off)
    (hsame : ∀ i, i < p ∨ p + 4 ≤ i → byteAt a i = byteAt b i)
    (h : zeroedChecksum a off = zeroedChecksum b off) : a = b := by
  have hput : ∀ i, i < p ∨ p + 4 ≤ i → byteAt (put32 a off 0) i = byteAt (put32 b off 0) i := by
    intro i hi
    rw [put32, put32, byteAt_putLE _ _ hn, byteAt_putLE _ _ hn, hsame i hi]
  have hlists : toList (put32 a off 0) = toList (put32 b off 0) := by
    by_contra hne
    have hget : ∀ i, i < p ∨ p + 4 ≤ i →
        (toList (put32 a off 0))[i]? = (toList (put32 b off 0))[i]? := by
      intro i hi
      rw [toList_getElem?, toList_getElem?, hput i hi]
    obtain ⟨pre, mid, mid', post, ha, hb, hmid, hfour⟩ := exists_window (by simp) hget
    rw [zeroedChecksum, zeroedChecksum, ha, hb] at h
    refine crc32c_burst_ne _ pre post mid mid' hmid hfour ?_ (BitVec.eq_of_toNat_eq h)
    rintro rfl
    exact hne (ha.trans hb.symm)
  refine bytes_ext fun i hi => ?_
  by_cases hin : i < p ∨ p + 4 ≤ i
  · exact hsame i hin
  · -- inside the window the zeroed field is not met
    have hbyte := congrArg (byteAt · i) (List.ofFn_injective hlists)
    simp only [put32] at hbyte
    rwa [byteAt_putLE_of_out _ _ (by omega), byteAt_putLE_of_out _ _ (by omega)] at hbyte

/-- The superblock in a buffer. -/
def superOf (sbh : Memory) : Super := slice (ByteFile.bufferBlock sbh) 0 256

theorem byteAt_superOf (sbh : Memory) {i : Nat} (hi : i < 256) : byteAt (superOf sbh) i = sbh i := by
  have hi' : i < 4096 := by omega
  rw [superOf, byteAt_slice _ hi, Nat.zero_add, byteAt_lt _ hi']
  rfl

theorem getLE_superOf {sbh : Memory} {off w : Nat} (x : Nat) (hw : off + w ≤ 256)
    (h : off + w ≤ 52 ∨ 56 ≤ off) :
    getLE (byteAt (superOf (setLE sbh 52 4 x))) off w = getLE (byteAt (superOf sbh)) off w := by
  refine getLE_congr fun i h1 h2 => ?_
  rw [byteAt_superOf _ (by omega), byteAt_superOf _ (by omega)]
  exact setLE_of_out sbh x (by omega)

/-- **The four bytes decide.** -/
theorem lenientSuper_iff {sbh : Memory} (hs : LenientSuper (superOf sbh)) {x : Nat}
    (hx : x < 256 ^ 4) :
    LenientSuper (superOf (setLE sbh 52 4 x)) ↔ x = getLE sbh 52 4 := by
  constructor
  · intro h
    have hsum : sChecksum (superOf (setLE sbh 52 4 x)) = sChecksum (superOf sbh) :=
      getLE_superOf x (by norm_num) (by norm_num)
    have hsame : superOf (setLE sbh 52 4 x) = superOf sbh := by
      refine @eq_of_zeroedChecksum _ _ _ 44 52 (by norm_num) (by norm_num) ?_ ?_
      · intro i hi
        by_cases hlt : i < 256
        · rw [byteAt_superOf _ hlt, byteAt_superOf _ hlt]
          exact setLE_of_out sbh x hi
        · rw [byteAt_ge _ (Nat.not_lt.mp hlt), byteAt_ge _ (Nat.not_lt.mp hlt)]
      · exact (h.checksum.symm.trans hsum).trans hs.checksum
    have hread : getLE (setLE sbh 52 4 x) 52 4 = getLE sbh 52 4 := by
      refine getLE_congr fun i h1 h2 => ?_
      have hi : i < 256 := by omega
      rw [← byteAt_superOf sbh hi, ← hsame, byteAt_superOf _ hi]
    rwa [getLE_setLE_self, Nat.mod_eq_of_lt hx] at hread
  · rintro rfl
    rw [setLE_getLE]
    exact hs

theorem bufferBlock_superBuffer (f : ByteFile) :
    ByteFile.bufferBlock (superBuffer f) = f.blockAt 4096 := by
  funext i
  exact byteAt_fin _ i

/-- **The tools after a mount.**  An image that the lenient check takes can be mounted; and after any
run of `sync_fs`, remounts and `put_super`, with no block allocated or freed, that has written the
superblock `n` times, the lenient check takes it exactly if the `n`-fold sum of the four bytes where
the kernel keeps its sum is what they were.  Where it is not, no mount behaviour takes the image. -/
theorem synced_image_iff (hf : validateImage f = .ok ()) (readOnly : Bool) :
    ∃ s, fillSuper readOnly (superBuffer f) = some s ∧ ∀ ops : List SuperOp,
      (validateImage (superWrittenOut f (ops.foldl superStep s)) = .ok () ↔
        (nextSum (superBuffer f))^[superWrites s ops] (getLE (superBuffer f) 52 4)
          = getLE (superBuffer f) 52 4) ∧
      (validateImage (superWrittenOut f (ops.foldl superStep s)) ≠ .ok () →
        ∀ beyond behavior ro,
          preflight (superWrittenOut f (ops.foldl superStep s)) beyond behavior ≠ .ok ro) := by
  obtain ⟨hrest, hsuper⟩ := validateImage_iff.mp hf
  rw [← bufferBlock_superBuffer] at hsuper
  have hmagic : decode kernelSuper (superBuffer f) .magic = aetherfsMagic := by
    rw [← hsuper.magic]
    have hfield : getLE (superBuffer f) 0 4 = getLE (byteAt (superOf (superBuffer f))) 0 4 :=
      getLE_congr fun i _ hi => (byteAt_superOf _ (by omega)).symm
    exact hfield
  refine ⟨_, if_neg (not_not.mpr hmagic), fun ops => ⟨?_, ?_⟩⟩
  · have hrun := superRun_buffer ops (sumOnly_mounted (superBuffer f) readOnly)
    obtain ⟨hblock, hrest'⟩ := superWrittenOut_spec hrest
      (ops.foldl superStep ⟨superBuffer f, decode kernelSuper (superBuffer f) .freeBlocks, readOnly⟩)
    rw [validateImage_iff, hblock, hrun.buffer,
      ← lenientSuper_iff hsuper (iterate_nextSum_lt _ (getLE_lt _ 4 52) _)]
    exact and_iff_right hrest'
  · intro hno beyond behavior ro hpre
    cases behavior with
    | strict => exact hno (validateImage_of_strict (preflight_strict_iff.mp hpre).1)
    | degradedRo => exact hno (preflight_degraded_iff.mp hpre).1
    | rescue => exact hno (preflight_rescue_iff.mp hpre).1

end Tools

theorem smallVolume_uuid : getLE (superBuffer smallVolume) 52 4 = 0x400000 := by decide +kernel

theorem smallVolume_sum : nextSum (superBuffer smallVolume) 0x400000 ≠ 0x400000 := by decide +kernel

/-- A volume that scrubs clean, mounted and unmounted: no mount behaviour takes it again. -/
theorem synced_smallVolume :
    validateStrictImage smallVolume (fun _ => 0) = .ok () ∧
      ∃ s, fillSuper false (superBuffer smallVolume) = some s ∧
        ∀ behavior ro, preflight (superWrittenOut smallVolume (superStep s .putSuper)) (fun _ => 0)
          behavior ≠ .ok ro := by
  have hstrict := smallVolume_strict fun _ => 0
  obtain ⟨s, hs, hrun⟩ := synced_image_iff (validateImage_of_strict hstrict) false
  refine ⟨hstrict, s, hs, fun behavior ro => (hrun [.putSuper]).2 (fun hok => ?_) _ behavior ro⟩
  have hsum := (hrun [.putSuper]).1.mp hok
  rw [smallVolume_uuid] at hsum
  exact smallVolume_sum hsum

end AetherFs
