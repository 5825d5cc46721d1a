/-
# Images and their pool labels

`struct aetherfs_image` as the tools hold it in memory, and what `image.c` reads off its pool
label: the profile, the three role masks and each member's capacity.

`aetherfs_pool_label_validate` is the only gate between the label's bytes and the address
arithmetic, so its acceptance is summarised once, as `LabelOk`; nothing later unfolds it.
-/
import AetherFs.Device
import AetherFs.Lib.Mask

namespace AetherFs

open Lib

/-! ## 1. The image in memory -/

/-- `struct aetherfs_image_member`, with the open device in place of its descriptor. -/
structure Member (δ : Type) where
  dev : δ
  isBlockDevice : Bool
  sizeBytes : Nat
  blocks : Nat

/-- `struct aetherfs_image`.  `beyond` is the memory that lies behind `root_dir`, the last
member of the structure: the directory walk can run into it. -/
structure Image (δ : Type) where
  writable : Bool
  isBlockDevice : Bool
  sizeBytes : Nat
  blocks : Nat
  memberCount : Nat
  poolLabel : PoolLabel
  checkpointRoot : CheckpointRoot
  members : Nat → Member δ
  super : Super
  journal : IntentLog
  inodeBitmap : BitmapBlock
  freeExtents : ExtentNode
  inodeTable : Nat → Inode
  rootDir : Block
  beyond : Nat → UInt8

section Label

variable {δ : Type}

/-! ## 2. Masks -/

/-- `aetherfs_mask_first`. -/
def maskFirst (mask : Nat) : Option Nat := (List.range maxDevices).find? mask.testBit

/-- `aetherfs_mask_count`: `__builtin_popcount` of a 32-bit mask. -/
def maskCount (mask : Nat) : Nat := (setBits 32 mask).length

/-- `aetherfs_mask_nth`. -/
def maskNth (mask ordinal : Nat) : Option Nat := nthSet mask (List.range maxDevices) ordinal

/-- The members a loop `for (ordinal = 0; ordinal < aetherfs_mask_count(mask); ++ordinal)`
visits when it breaks off at the first failed `aetherfs_mask_nth`. -/
def maskMembers (mask : Nat) : List Nat :=
  (((List.range (maskCount mask)).map (maskNth mask)).takeWhile Option.isSome).filterMap id

/-- `aetherfs_pool_member_limit_mask`. -/
def poolMemberLimitMask (img : Image δ) : Nat :=
  if img.memberCount ≥ 32 then 2 ^ 32 - 1
  else if img.memberCount = 0 then 0 else 2 ^ img.memberCount - 1

/-- `aetherfs_pool_profile`. -/
def poolProfile (img : Image δ) : Nat := plProfile img.poolLabel

/-- `aetherfs_pool_metadata_mask`. -/
def poolMetadataMask (img : Image δ) : Nat :=
  let mask := plMetadataMask img.poolLabel &&& poolMemberLimitMask img
  if mask = 0 ∧ img.memberCount > 0 then 1 else mask

/-- `aetherfs_pool_data_mask`. -/
def poolDataMask (img : Image δ) : Nat :=
  let mask := plDataMask img.poolLabel &&& poolMemberLimitMask img
  if mask = 0 ∧ img.memberCount > 0 then 1 else mask

/-- `aetherfs_pool_log_mask`: unlike the other two it falls back to the metadata members. -/
def poolLogMask (img : Image δ) : Nat :=
  let mask := plLogMask img.poolLabel &&& poolMemberLimitMask img
  if mask = 0 then poolMetadataMask img else mask

/-- `aetherfs_pool_member_total_blocks`. -/
def poolMemberTotalBlocks (img : Image δ) (index : Nat) : Nat :=
  let total := pmTotalBlocks img.poolLabel index
  if total = 0 then (img.members index).blocks else total

/-- `aetherfs_pool_member_data_blocks`. -/
def poolMemberDataBlocks (img : Image δ) (index : Nat) : Nat :=
  let blocks := pmDataBlocks img.poolLabel index
  if blocks = 0 ∧ poolMemberTotalBlocks img index > dataStartBlock then
    poolMemberTotalBlocks img index - dataStartBlock
  else blocks

/-- `aetherfs_pool_role_mask_for_bootstrap_block`. -/
def poolRoleMaskForBootstrapBlock (img : Image δ) (block : Nat) : Nat :=
  if block = journalBlock then poolLogMask img else poolMetadataMask img

/-- `aetherfs_image_assign_primary_aliases`.  The descriptor itself is not aliased here: reads
and writes go through `members`. -/
def imageAssignPrimaryAliases (img : Image δ) : Image δ :=
  let primary := (maskFirst (poolMetadataMask img)).getD 0
  { img with
    isBlockDevice := if img.memberCount = 1 then (img.members primary).isBlockDevice else false
    sizeBytes := if img.memberCount = 1 then (img.members primary).sizeBytes
      else mulU64 (plLogicalBlocks img.poolLabel) defBlockSize }

/-- The structure the two open functions hand out: everything that is loaded later is still
zero from their `memset`. -/
def openedImage (writable : Bool) (label : PoolLabel) (blocks memberCount : Nat)
    (members : Nat → Member δ) (beyond : Nat → UInt8) : Image δ :=
  imageAssignPrimaryAliases
    { writable := writable
      isBlockDevice := false
      sizeBytes := 0
      blocks := blocks
      memberCount := memberCount
      poolLabel := label
      checkpointRoot := zeros 4096
      members := members
      super := zeros 256
      journal := zeros 48
      inodeBitmap := zeros 4096
      freeExtents := zeros 4096
      inodeTable := fun _ => zeros 512
      rootDir := zeros 4096
      beyond := beyond }

section Opened

variable (writable : Bool) (label : PoolLabel) (blocks memberCount : Nat)
  (members : Nat → Member δ) (beyond : Nat → UInt8)

@[simp] theorem openedImage_poolLabel :
    (openedImage writable label blocks memberCount members beyond).poolLabel = label := rfl

@[simp] theorem openedImage_blocks :
    (openedImage writable label blocks memberCount members beyond).blocks = blocks := rfl

@[simp] theorem openedImage_memberCount :
    (openedImage writable label blocks memberCount members beyond).memberCount = memberCount := rfl

end Opened

/-! ## 3. The label check -/

/-- One turn of the member loop of `aetherfs_pool_label_validate`. -/
def poolLabelValidateMember (label : PoolLabel) (index : Nat) : Except Fail Unit := do
  failIf (pmIndex label index ≠ index) .EINVAL
  failIf (pmTotalBlocks label index < bootstrapBlocks) .EINVAL
  failIf (pmDataBlocks label index > pmTotalBlocks label index - dataStartBlock) .EINVAL

/-- `aetherfs_pool_label_validate`. -/
def poolLabelValidate (label : PoolLabel) : Except Fail Unit := do
  failIf (plMagic label ≠ poolMagic) .EINVAL
  failIf (plVersion label ≠ poolVersion) .EINVAL
  failIf (plChecksum label ≠ poolLabelChecksum label) .EILSEQ
  failIf (plMemberCount label = 0 ∨ plMemberCount label > maxDevices) .EINVAL
  failIf (plMemberIndex label ≥ plMemberCount label) .EINVAL
  failIf (plProfile label > poolProfileTiered) .EINVAL
  failIf (plStripeBlocks label = 0) .EINVAL
  failIf (plLogicalBlocks label < dataStartBlock) .EINVAL
  failIf (plLogicalBlocks label ≠ addU64 (plLogicalDataBlocks label) dataStartBlock) .EINVAL
  let outside := (2 ^ 32 - 1) ^^^ (2 ^ plMemberCount label - 1)
  failIf (plMetadataMask label &&& outside ≠ 0 ∨ plDataMask label &&& outside ≠ 0 ∨
    plLogMask label &&& outside ≠ 0 ∨ plCacheMask label &&& outside ≠ 0) .EINVAL
  forEach (poolLabelValidateMember label) (List.range (plMemberCount label))

/-- What an accepted label promises to the address arithmetic. -/
structure LabelOk (label : PoolLabel) : Prop where
  count_pos : 0 < plMemberCount label
  count_le : plMemberCount label ≤ 8
  profile_le : plProfile label ≤ 4
  stripe_pos : 0 < plStripeBlocks label
  logical_ge : 8 ≤ plLogicalBlocks label
  metadata_lt : plMetadataMask label < 2 ^ plMemberCount label
  data_lt : plDataMask label < 2 ^ plMemberCount label
  log_lt : plLogMask label < 2 ^ plMemberCount label
  capacity : ∀ i, i < plMemberCount label → pmDataBlocks label i + 8 ≤ pmTotalBlocks label i

theorem labelOk_of_validate {label : PoolLabel} (h : poolLabelValidate label = .ok ()) :
    LabelOk label := by
  simp only [poolLabelValidate, failIf_bind_ok, not_or, not_not, forEach_eq_ok,
    poolLabelValidateMember, failIf_eq_ok, maxDevices, poolProfileTiered, dataStartBlock,
    bootstrapBlocks] at h
  obtain ⟨-, -, -, ⟨hc0, hc8⟩, -, hprof, hstripe, hlog, -, ⟨hm, hd, hl, -⟩, hmem⟩ := h
  have lt32 : ∀ off, le32 label off < 2 ^ 32 := fun off => le32_lt label off
  refine ⟨by omega, by omega, by omega, by omega, by omega, ?_, ?_, ?_, ?_⟩
  · exact lt_of_and_compl_eq_zero (lt32 32) hm
  · exact lt_of_and_compl_eq_zero (lt32 36) hd
  · exact lt_of_and_compl_eq_zero (lt32 40) hl
  · intro i hi
    obtain ⟨-, htot, hdata⟩ := hmem i (List.mem_range.mpr hi)
    omega

/-! ## 4. Masks of an accepted label -/

theorem maskNth_eq (mask ordinal : Nat) : maskNth mask ordinal = (setBits 8 mask)[ordinal]? :=
  nthSet_eq mask _ ordinal

theorem maskCount_eq {mask : Nat} (h : mask < 2 ^ 8) : maskCount mask = (setBits 8 mask).length := by
  rw [maskCount, setBits_of_lt h (by omega)]

theorem maskFirst_eq (mask : Nat) : maskFirst mask = (setBits 8 mask)[0]? := by
  rw [maskFirst, setBits, ← List.head?_filter, List.head?_eq_getElem?]

theorem maskNth_inj {mask k k' m : Nat} (h : maskNth mask k = some m)
    (h' : maskNth mask k' = some m) : k = k' := by
  rw [maskNth_eq] at h h'
  obtain ⟨hk, h⟩ := List.getElem?_eq_some_iff.mp h
  obtain ⟨hk', h'⟩ := List.getElem?_eq_some_iff.mp h'
  exact (List.Nodup.getElem_inj_iff (setBits_nodup 8 mask)).mp (h.trans h'.symm)

theorem maskNth_isSome {mask k : Nat} (hm : mask < 2 ^ 8) (hk : k < maskCount mask) :
    ∃ m, maskNth mask k = some m ∧ m ∈ setBits 8 mask := by
  rw [maskCount_eq hm] at hk
  exact ⟨_, by rw [maskNth_eq, List.getElem?_eq_getElem hk], List.getElem_mem hk⟩

theorem maskNth_mem {mask k m : Nat} (h : maskNth mask k = some m) : m ∈ setBits 8 mask := by
  rw [maskNth_eq] at h
  exact List.mem_of_getElem? h

/-- The ordinals below the count enumerate the members of the mask. -/
theorem map_maskNth {mask : Nat} (h : mask < 2 ^ 8) :
    (List.range (maskCount mask)).map (maskNth mask) = (setBits 8 mask).map some := by
  refine List.ext_getElem? fun k => ?_
  rw [List.getElem?_map, List.getElem?_map, maskCount_eq h]
  by_cases hk : k < (setBits 8 mask).length
  · rw [List.getElem?_range hk, Option.map_some, maskNth_eq, List.getElem?_eq_getElem hk,
      Option.map_some]
  · rw [List.getElem?_eq_none (by simpa using hk), List.getElem?_eq_none (by simpa using hk)]
    rfl

theorem maskMembers_eq {mask : Nat} (h : mask < 2 ^ 8) : maskMembers mask = setBits 8 mask := by
  rw [maskMembers, map_maskNth h]
  induction setBits 8 mask with
  | nil => rfl
  | cons m ms ih => simpa using ih

variable {img : Image δ}

private theorem and_lt_of_lt {a b n : Nat} (h : a < 2 ^ n) : a &&& b < 2 ^ n :=
  Nat.lt_of_le_of_lt Nat.and_le_left h

/-- The data mask of an accepted label names members the label has. -/
theorem poolDataMask_lt (h : LabelOk img.poolLabel) :
    poolDataMask img < 2 ^ plMemberCount img.poolLabel := by
  have h1 : 1 < 2 ^ plMemberCount img.poolLabel :=
    Nat.one_lt_two_pow (by have := h.count_pos; omega)
  unfold poolDataMask
  simp only
  split
  · exact h1
  · exact and_lt_of_lt h.data_lt

theorem poolMetadataMask_lt (h : LabelOk img.poolLabel) :
    poolMetadataMask img < 2 ^ plMemberCount img.poolLabel := by
  have h1 : 1 < 2 ^ plMemberCount img.poolLabel :=
    Nat.one_lt_two_pow (by have := h.count_pos; omega)
  unfold poolMetadataMask
  simp only
  split
  · exact h1
  · exact and_lt_of_lt h.metadata_lt

theorem poolLogMask_lt (h : LabelOk img.poolLabel) :
    poolLogMask img < 2 ^ plMemberCount img.poolLabel := by
  unfold poolLogMask
  simp only
  split
  · exact poolMetadataMask_lt h
  · exact and_lt_of_lt h.log_lt

theorem poolRoleMask_lt (h : LabelOk img.poolLabel) (block : Nat) :
    poolRoleMaskForBootstrapBlock img block < 2 ^ plMemberCount img.poolLabel := by
  unfold poolRoleMaskForBootstrapBlock
  split
  · exact poolLogMask_lt h
  · exact poolMetadataMask_lt h

/-- The limit mask, and with it every mask, names members the image has open. -/
theorem poolMemberLimitMask_lt (img : Image δ) :
    poolMemberLimitMask img < 2 ^ img.memberCount := by
  have hpos : 0 < 2 ^ img.memberCount := Nat.two_pow_pos _
  unfold poolMemberLimitMask
  split
  · have := Nat.pow_le_pow_right (show 0 < 2 by omega) (show 32 ≤ img.memberCount by omega)
    omega
  · split <;> omega

theorem poolDataMask_lt_open (img : Image δ) : poolDataMask img < 2 ^ img.memberCount := by
  unfold poolDataMask
  simp only
  split
  · rename_i h
    exact Nat.one_lt_two_pow (by omega)
  · exact Nat.lt_of_le_of_lt Nat.and_le_right (poolMemberLimitMask_lt img)

theorem poolMetadataMask_lt_open (img : Image δ) :
    poolMetadataMask img < 2 ^ img.memberCount := by
  unfold poolMetadataMask
  simp only
  split
  · rename_i h
    exact Nat.one_lt_two_pow (by omega)
  · exact Nat.lt_of_le_of_lt Nat.and_le_right (poolMemberLimitMask_lt img)

theorem poolRoleMask_lt_open (img : Image δ) (block : Nat) :
    poolRoleMaskForBootstrapBlock img block < 2 ^ img.memberCount := by
  unfold poolRoleMaskForBootstrapBlock poolLogMask
  simp only
  split
  · split
    · exact poolMetadataMask_lt_open img
    · exact Nat.lt_of_le_of_lt Nat.and_le_right (poolMemberLimitMask_lt img)
  · exact poolMetadataMask_lt_open img

theorem LabelOk.lt_256 (h : LabelOk img.poolLabel) {mask : Nat}
    (hm : mask < 2 ^ plMemberCount img.poolLabel) : mask < 2 ^ 8 :=
  Nat.lt_of_lt_of_le hm (Nat.pow_le_pow_right (by omega) h.count_le)

theorem mem_setBits_lt {mask n m : Nat} (hm : mask < 2 ^ n) (h : m ∈ setBits 8 mask) : m < n := by
  by_contra hge
  have hb := (mem_setBits.mp h).2
  rw [Nat.testBit_lt_two_pow
    (Nat.lt_of_lt_of_le hm (Nat.pow_le_pow_right (by omega) (by omega)))] at hb
  exact absurd hb (by simp)

/-- The capacity the code works with never reaches past the member's own block count. -/
theorem poolMemberDataBlocks_le (h : LabelOk img.poolLabel) {i : Nat}
    (hi : i < plMemberCount img.poolLabel) :
    poolMemberDataBlocks img i + 8 ≤ pmTotalBlocks img.poolLabel i := by
  have hcap := h.capacity i hi
  have htot : poolMemberTotalBlocks img i = pmTotalBlocks img.poolLabel i := by
    unfold poolMemberTotalBlocks
    simp only
    rw [if_neg (by omega)]
  unfold poolMemberDataBlocks
  simp only [htot, dataStartBlock]
  split <;> omega

end Label

end AetherFs
