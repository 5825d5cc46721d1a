/-
# Labels that validate

`aetherfs_image_synthesize_single_label` builds a label for an image that carries none; the
tools write no other.  Pools are labelled by hand, so this module also builds the plainest such
label, `uniformLabel`: up to three members of equal size, with the masks and the profile left
open.  Both are sealed last, and a sealed label carries its own checksum
(`plChecksum_sealLabel`).
-/
import AetherFs.Image.Basic

namespace AetherFs

open Lib

/-- `label->pl_checksum = aetherfs_cpu_to_le32(aetherfs_pool_label_checksum(label))`. -/
def sealLabel (l : PoolLabel) : PoolLabel := sealAt l 8

theorem plChecksum_sealLabel (l : PoolLabel) :
    plChecksum (sealLabel l) = poolLabelChecksum (sealLabel l) := le32_sealAt l (by norm_num)

/-- The label `aetherfs_image_synthesize_single_label` fills in for a file of `blocks` blocks. -/
def singleLabel (blocks : Nat) : PoolLabel :=
  let l : PoolLabel := put32 (zeros 824) 0 poolMagic
  let l := put32 l 4 poolVersion
  let l := put32 l 12 poolProfileSingle
  let l := put32 l 16 1
  let l := put32 l 20 0
  let l := put32 l 24 1
  let l := put32 l 32 1
  let l := put32 l 36 1
  let l := put32 l 40 1
  let l := put64 l 48 blocks
  let l := put64 l 56 (subU64 blocks dataStartBlock)
  let l := put64 l 96 blocks
  let l := put64 l 104 (subU64 blocks dataStartBlock)
  let l := put32 l 116 7
  sealLabel l

/-- The fields of `pl_members[index]` for a member of `total` blocks. -/
def memberFields (total : Nat) (l : PoolLabel) (index : Nat) : PoolLabel :=
  put32 (put64 (put64 l (80 + 48 * index + 16) total) (80 + 48 * index + 24) (total - 8))
    (80 + 48 * index + 40) index

/-- A label for `count ≤ 3` members of `total` blocks each, striped by two blocks. -/
def uniformLabel (profile count metadataMask dataMask logMask logical total : Nat) : PoolLabel :=
  let l : PoolLabel := put32 (zeros 824) 0 poolMagic
  let l := put32 l 4 poolVersion
  let l := put32 l 12 profile
  let l := put32 l 16 count
  let l := put32 l 24 2
  let l := put32 l 32 metadataMask
  let l := put32 l 36 dataMask
  let l := put32 l 40 logMask
  let l := put64 l 48 logical
  let l := put64 l 56 (logical - 8)
  sealLabel ((List.range 3).foldl (memberFields total) l)

section Uniform

variable (profile count mm dm lm logical total : Nat)

/-- The fields of a uniform label whose values fit their widths. -/
theorem uniformLabel_fields (hp : profile < 2 ^ 32) (hc : count < 2 ^ 32) (hmm : mm < 2 ^ 32)
    (hdm : dm < 2 ^ 32) (hlm : lm < 2 ^ 32) (hl : logical < 2 ^ 64) :
    let l := uniformLabel profile count mm dm lm logical total
    plMagic l = poolMagic ∧ plVersion l = 1 ∧ plProfile l = profile ∧ plMemberCount l = count ∧
      plMemberIndex l = 0 ∧ plStripeBlocks l = 2 ∧ plMetadataMask l = mm ∧ plDataMask l = dm ∧
      plLogMask l = lm ∧ plCacheMask l = 0 ∧ plLogicalBlocks l = logical ∧
      plLogicalDataBlocks l = logical - 8 := by
  simp only [plMagic, plVersion, plProfile, plMemberCount, plMemberIndex, plStripeBlocks,
    plMetadataMask, plDataMask, plLogMask, plCacheMask, plLogicalBlocks, plLogicalDataBlocks]
  simp only [uniformLabel, sealLabel, memberFields, List.range_succ, List.range_zero,
    List.nil_append, List.cons_append, List.foldl_cons, List.foldl_nil, le32, le64, put32, put64]
  simp (disch := decide) only [getLE_sealAt, getLE_putLE_of_disjoint, getLE_putLE_self, getLE_zeros]
  simp [poolMagic, poolVersion]
  omega

theorem uniformLabel_members (ht : total < 2 ^ 64) {i : Nat} (hi : i < 3) :
    let l := uniformLabel profile count mm dm lm logical total
    pmTotalBlocks l i = total ∧ pmDataBlocks l i = total - 8 ∧ pmIndex l i = i := by
  simp only [pmTotalBlocks, pmDataBlocks, pmIndex]
  interval_cases i <;> refine ⟨?_, ?_, ?_⟩ <;>
    simp [uniformLabel, sealLabel, memberFields, List.range_succ] <;> omega

/-- **A uniform label is accepted.** -/
theorem uniformLabel_validate (hp : profile ≤ 4) (hc : 0 < count) (hc3 : count ≤ 3)
    (hmm : mm < 2 ^ count) (hdm : dm < 2 ^ count) (hlm : lm < 2 ^ count) (hl : 8 ≤ logical)
    (hl' : logical < 2 ^ 64) (ht : 8 ≤ total) (ht' : total < 2 ^ 64) :
    poolLabelValidate (uniformLabel profile count mm dm lm logical total) = .ok () := by
  have h32 : 2 ^ count < 2 ^ 32 := Nat.pow_lt_pow_right (by omega) (by omega)
  obtain ⟨h1, h2, h3, h4, h5, h6, h7, h8, h9, h10, h11, h12⟩ :=
    uniformLabel_fields profile count mm dm lm logical total (by omega) (by omega) (by omega)
      (by omega) (by omega) hl'
  simp only [poolLabelValidate, poolLabelValidateMember, failIf_bind_ok, failIf_eq_ok,
    forEach_eq_ok, h1, h2, h3, h4, h5, h6, h7, h8, h9, h10, h11, h12,
    and_compl_eq_zero (show count ≤ 32 by omega) hmm,
    and_compl_eq_zero (show count ≤ 32 by omega) hdm,
    and_compl_eq_zero (show count ≤ 32 by omega) hlm]
  refine ⟨by simp, by simp, not_not.mpr (plChecksum_sealLabel _), ?_, by omega, ?_, by omega, ?_,
    ?_, by simp, fun i hi => ?_⟩
  · simp only [maxDevices]; omega
  · simp only [poolProfileTiered]; omega
  · simp only [dataStartBlock]; omega
  · simp only [addU64, dataStartBlock]; omega
  · obtain ⟨e1, e2, e3⟩ := uniformLabel_members profile count mm dm lm logical total ht'
      (show i < 3 by have := List.mem_range.mp hi; omega)
    simp only [e1, e2, e3, bootstrapBlocks, dataStartBlock]
    omega

/-- An open pool of `count` like members under a uniform label. -/
def uniformPool {δ : Type} (dev : Nat → δ) : Image δ :=
  openedImage true (uniformLabel profile count mm dm lm logical total) logical count
    (fun i => ⟨dev i, false, total * defBlockSize, total⟩) (fun _ => 0)

theorem uniformPool_masks {δ : Type} (dev : Nat → δ) (hc : 0 < count) (hc3 : count ≤ 3)
    (hp : profile < 2 ^ 32) (hmm : mm < 2 ^ count) (hdm : dm < 2 ^ count) (hlm : lm < 2 ^ count)
    (hmm0 : mm ≠ 0) (hdm0 : dm ≠ 0) (hlm0 : lm ≠ 0) (hl : logical < 2 ^ 64) :
    let img := uniformPool profile count mm dm lm logical total dev
    poolMetadataMask img = mm ∧ poolDataMask img = dm ∧ poolLogMask img = lm := by
  intro img
  have h32 : 2 ^ count < 2 ^ 32 := Nat.pow_lt_pow_right (by omega) (by omega)
  obtain ⟨-, -, -, -, -, -, h7, h8, h9, -⟩ :=
    uniformLabel_fields profile count mm dm lm logical total hp (by omega) (by omega) (by omega)
      (by omega) hl
  have hlimit : poolMemberLimitMask img = 2 ^ count - 1 := by
    have : img.memberCount = count := rfl
    rw [poolMemberLimitMask, this, if_neg (by omega), if_neg (by omega)]
  have hlabel : img.poolLabel = uniformLabel profile count mm dm lm logical total := rfl
  have hcut : ∀ m, m < 2 ^ count → m &&& (2 ^ count - 1) = m := fun m hm => by
    rw [Nat.and_two_pow_sub_one_eq_mod, Nat.mod_eq_of_lt hm]
  refine ⟨?_, ?_, ?_⟩
  · simp only [poolMetadataMask, hlimit, hlabel, h7, hcut mm hmm]
    rw [if_neg (by omega)]
  · simp only [poolDataMask, hlimit, hlabel, h8, hcut dm hdm]
    rw [if_neg (by omega)]
  · simp only [poolLogMask, hlimit, hlabel, h9, hcut lm hlm]
    rw [if_neg hlm0]

theorem uniformPool_capacity {δ : Type} (dev : Nat → δ) (ht : 8 ≤ total) (ht' : total < 2 ^ 64)
    {i : Nat} (hi : i < 3) :
    poolMemberDataBlocks (uniformPool profile count mm dm lm logical total dev) i = total - 8 := by
  obtain ⟨e1, e2, -⟩ := uniformLabel_members profile count mm dm lm logical total ht' hi
  have hlabel : (uniformPool profile count mm dm lm logical total dev).poolLabel
      = uniformLabel profile count mm dm lm logical total := rfl
  simp only [poolMemberDataBlocks, poolMemberTotalBlocks, hlabel, e1, e2, dataStartBlock]
  rw [if_neg (by omega : ¬ total = 0), ite_self]

end Uniform

/-! ## The synthesised label -/

section Single

variable {blocks : Nat}

theorem singleLabel_fields (blocks : Nat) (hb : blocks < 2 ^ 64) :
    let l := singleLabel blocks
    plMagic l = poolMagic ∧ plVersion l = 1 ∧ plProfile l = 0 ∧ plMemberCount l = 1 ∧
      plMemberIndex l = 0 ∧ plStripeBlocks l = 1 ∧ plMetadataMask l = 1 ∧ plDataMask l = 1 ∧
      plLogMask l = 1 ∧ plCacheMask l = 0 ∧ plLogicalBlocks l = blocks ∧
      plLogicalDataBlocks l = subU64 blocks 8 ∧ pmTotalBlocks l 0 = blocks ∧
      pmDataBlocks l 0 = subU64 blocks 8 ∧ pmIndex l 0 = 0 := by
  simp only [plMagic, plVersion, plProfile, plMemberCount, plMemberIndex, plStripeBlocks,
    plMetadataMask, plDataMask, plLogMask, plCacheMask, plLogicalBlocks, plLogicalDataBlocks,
    pmTotalBlocks, pmDataBlocks, pmIndex]
  simp only [singleLabel, sealLabel, Nat.mul_zero, Nat.add_zero, Nat.reduceAdd, le32, le64, put32,
    put64]
  simp (disch := decide) only [getLE_sealAt, getLE_putLE_of_disjoint, getLE_putLE_self, getLE_zeros]
  simp [poolMagic, poolVersion, poolProfileSingle, dataStartBlock, subU64]
  omega

/-- The synthesised label would pass the check too, when the file has the bootstrap blocks. -/
theorem singleLabel_validate (h8 : 8 ≤ blocks) (hb : blocks < 2 ^ 64) :
    poolLabelValidate (singleLabel blocks) = .ok () := by
  obtain ⟨h1, h2, h3, h4, h5, h6, h7, h8, h9, h10, h11, h12, h13, h14, h15⟩ :=
    singleLabel_fields blocks hb
  simp only [poolLabelValidate, poolLabelValidateMember, failIf_bind_ok, failIf_eq_ok,
    forEach_eq_ok, h1, h2, h3, h4, h5, h6, h7, h8, h9, h10, h11, h12]
  refine ⟨by simp, by simp, not_not.mpr (plChecksum_sealLabel _), by simp, by simp, by simp,
    by simp, ?_, ?_, by decide, fun i hi => ?_⟩
  · simp only [dataStartBlock]; omega
  · simp only [addU64, subU64, dataStartBlock]; omega
  · obtain rfl : i = 0 := by simpa using hi
    simp only [h13, h14, h15, subU64, bootstrapBlocks, dataStartBlock]
    omega

end Single

end AetherFs
