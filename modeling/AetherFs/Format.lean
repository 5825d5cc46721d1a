/-
# The on-disk format

`kernel/include/uapi/linux/aetherfs_format.h`, version 5, as the userspace tools compile it on
a little-endian machine: every structure is packed, so a structure IS its bytes and a field is
a little-endian number at a fixed offset.  The accessors below carry the header's field names;
the offsets are those of the packed declarations.

The header's checksums all have one shape -- zero the checksum field of a copy, run
`aetherfs_crc32c_data` over the whole of it -- except the journal's, which covers the bytes in
front of its checksum field.  They keep their own names here, each as `zeroedChecksum` applied
to the structure's own offset.
-/
import AetherFs.Lib.Bytes
import AetherFs.Lib.Crc

namespace AetherFs

open Lib

/-! ## 1. Constants -/

/-- One block of `AETHERFS_DEF_BLOCK_SIZE` bytes. -/
abbrev Block := Bytes 4096

abbrev defBlockSize : Nat := 4096
abbrev aetherfsMagic : Nat := 0x41455448
abbrev aetherfsVersion : Nat := 5
abbrev maxNamelen : Nat := 255
abbrev extentLogMax : Nat := 102
abbrev bitmapBytes : Nat := 4080
abbrev blocksPerAg : Nat := 2097152
abbrev maxInodes : Nat := 32640
abbrev maxDevices : Nat := 8
abbrev poolMagic : Nat := 0x504F4F4C
abbrev poolVersion : Nat := 1
abbrev checkpointRootMagic : Nat := 0x43505254
abbrev checkpointRootVersion : Nat := 1

abbrev poolProfileSingle : Nat := 0
abbrev poolProfileMirror : Nat := 1
abbrev poolProfileStripe : Nat := 2
abbrev poolProfileParity : Nat := 3
abbrev poolProfileTiered : Nat := 4

abbrev poolLabelBlock : Nat := 0
abbrev superblockBlock : Nat := 1
abbrev rootInodeBlock : Nat := 2
abbrev rootDirBlock : Nat := 3
abbrev journalBlock : Nat := 4
abbrev inodeBitmapBlock : Nat := 5
abbrev freeExtentBlock : Nat := 6
abbrev checkpointRootBlock : Nat := 7
abbrev dataStartBlock : Nat := 8
abbrev bootstrapBlocks : Nat := dataStartBlock

abbrev rootIno : Nat := 16
abbrev dirEntryBaseSize : Nat := 14
abbrev ftDir : Nat := 2
abbrev checksumsPerBlock : Nat := 1020

abbrev overwriteMode : Nat := 1
abbrev appendMode : Nat := 2
abbrev fCow : Nat := 0x0001
abbrev fAppend : Nat := 0x0020

/-- `AETHERFS_DIR_REC_LEN`. -/
def dirRecLen (nameLen : Nat) : Nat := (dirEntryBaseSize + nameLen + 3) / 4 * 4

/-! ## 2. Machine arithmetic

`uint64_t` values are natural numbers below `2 ^ 64`; the operations that can leave that range
wrap explicitly. -/

abbrev addU64 (a b : Nat) : Nat := (a + b) % 2 ^ 64
abbrev subU64 (a b : Nat) : Nat := (a + (2 ^ 64 - b)) % 2 ^ 64
abbrev mulU64 (a b : Nat) : Nat := a * b % 2 ^ 64

abbrev le16 {n : Nat} (b : Bytes n) (off : Nat) : Nat := getLE (byteAt b) off 2
abbrev le32 {n : Nat} (b : Bytes n) (off : Nat) : Nat := getLE (byteAt b) off 4
abbrev le64 {n : Nat} (b : Bytes n) (off : Nat) : Nat := getLE (byteAt b) off 8
abbrev put16 {n : Nat} (b : Bytes n) (off v : Nat) : Bytes n := putLE b off 2 v
abbrev put32 {n : Nat} (b : Bytes n) (off v : Nat) : Bytes n := putLE b off 4 v
abbrev put64 {n : Nat} (b : Bytes n) (off v : Nat) : Bytes n := putLE b off 8 v

theorem le32_lt {n : Nat} (b : Bytes n) (off : Nat) : le32 b off < 2 ^ 32 := by
  simpa using getLE_lt (byteAt b) 4 off

theorem le64_lt {n : Nat} (b : Bytes n) (off : Nat) : le64 b off < 2 ^ 64 := by
  simpa using getLE_lt (byteAt b) 8 off

/-! ## 3. Structures -/

/-- `struct aetherfs_super`. -/
abbrev Super := Bytes 256
/-- `struct aetherfs_inode`. -/
abbrev Inode := Bytes 512
/-- `struct aetherfs_extent`. -/
abbrev Extent := Bytes 40
/-- `struct aetherfs_extent_node`: a whole block. -/
abbrev ExtentNode := Block
/-- `struct aetherfs_checksum_block`: a whole block. -/
abbrev ChecksumBlock := Block
/-- `struct aetherfs_intent_log`. -/
abbrev IntentLog := Bytes 48
/-- `struct aetherfs_bitmap_block`: a whole block. -/
abbrev BitmapBlock := Block
/-- `struct aetherfs_pool_label`. -/
abbrev PoolLabel := Bytes 824
/-- `struct aetherfs_checkpoint_root`: a whole block. -/
abbrev CheckpointRoot := Block

section Super
variable (s : Super)
def sMagic : Nat := le32 s 0
def sVersion : Nat := le32 s 4
def sBlocksize : Nat := le32 s 8
def sBlocksCount : Nat := le64 s 12
def sFreeBlocks : Nat := le64 s 20
def sAgCount : Nat := le32 s 32
def sDeviceCount : Nat := le32 s 36
def sChecksum : Nat := le32 s 44
def sCheckpoint0 : Nat := le64 s 72
def sJournalAddr : Nat := le64 s 136
def sRootInode : Nat := le64 s 144
def sGeneration : Nat := le32 s 152
def sInodesCount : Nat := le32 s 156
def sMetaTree : Nat := le64 s 160
def sExtentTree : Nat := le64 s 168
def sFreeTree : Nat := le64 s 176
def sSnapTree : Nat := le64 s 184
def sScrubJournal : Nat := le64 s 192
def sHealthJournal : Nat := le64 s 200
end Super

section Inode
variable (i : Inode)
def iMode : Nat := le16 i 0
def iSize : Nat := le64 i 12
def iBlocks : Nat := le64 i 20
def iExtentRoot : Nat := le64 i 52
def iChecksum : Nat := le32 i 100
end Inode

section Extent
variable (e : Extent)
def eLstart : Nat := le64 e 0
def ePstart : Nat := le64 e 8
def eCsumStart : Nat := le64 e 16
def eLen : Nat := le64 e 24
end Extent

section ExtentNode
variable (n : ExtentNode)
def enNext : Nat := le64 n 0
def enCount : Nat := le32 n 8
def enChecksum : Nat := le32 n 12
/-- `en_extents[index]`. -/
def enExtent (index : Nat) : Extent := slice n (16 + 40 * index) 40
/-- The extents a loop over `en_count` visits, in order. -/
def enExtents : List Extent := (List.range (enCount n)).map (enExtent n)
end ExtentNode

section ChecksumBlock
variable (b : ChecksumBlock)
def cbNext : Nat := le64 b 0
def cbEntries : Nat := le32 b 8
def cbChecksum : Nat := le32 b 12
/-- `cb_sums[index]`. -/
def cbSum (index : Nat) : Nat := le32 b (16 + 4 * index)
end ChecksumBlock

section IntentLog
variable (j : IntentLog)
def ilOutstanding : Nat := le32 j 36
def ilChecksum : Nat := le32 j 40
end IntentLog

section BitmapBlock
variable (b : BitmapBlock)
def bbChecksum : Nat := le32 b 0
def bbTotalBits : Nat := le32 b 4
def bbSetBits : Nat := le32 b 8
/-- `bb_bits[index]`. -/
def bbBits (index : Nat) : UInt8 := byteAt b (16 + index)
end BitmapBlock

section PoolLabel
variable (l : PoolLabel)
def plMagic : Nat := le32 l 0
def plVersion : Nat := le32 l 4
def plChecksum : Nat := le32 l 8
def plProfile : Nat := le32 l 12
def plMemberCount : Nat := le32 l 16
def plMemberIndex : Nat := le32 l 20
def plStripeBlocks : Nat := le32 l 24
def plMetadataMask : Nat := le32 l 32
def plDataMask : Nat := le32 l 36
def plLogMask : Nat := le32 l 40
def plCacheMask : Nat := le32 l 44
def plLogicalBlocks : Nat := le64 l 48
def plLogicalDataBlocks : Nat := le64 l 56
/-- `pl_members[index].pm_total_blocks`. -/
def pmTotalBlocks (index : Nat) : Nat := le64 l (80 + 48 * index + 16)
/-- `pl_members[index].pm_data_blocks`. -/
def pmDataBlocks (index : Nat) : Nat := le64 l (80 + 48 * index + 24)
/-- `pl_members[index].pm_class_mask`. -/
def pmClassMask (index : Nat) : Nat := le32 l (80 + 48 * index + 32)
/-- `pl_members[index].pm_role_mask`. -/
def pmRoleMask (index : Nat) : Nat := le32 l (80 + 48 * index + 36)
/-- `pl_members[index].pm_index`. -/
def pmIndex (index : Nat) : Nat := le32 l (80 + 48 * index + 40)
end PoolLabel

section CheckpointRoot
variable (r : CheckpointRoot)
def crMagic : Nat := le32 r 0
def crVersion : Nat := le32 r 4
def crChecksum : Nat := le32 r 8
def crGeneration : Nat := le32 r 12
def crAgCount : Nat := le32 r 16
def crRegionCount : Nat := le32 r 20
def crSuperBlock : Nat := le64 r 24
def crRootInodeBlock : Nat := le64 r 32
def crRootDirBlock : Nat := le64 r 40
def crJournalBlock : Nat := le64 r 48
def crInodeBitmapBlock : Nat := le64 r 56
def crFreeSpaceRoot : Nat := le64 r 64
def crMetadataTreeRoot : Nat := le64 r 72
def crExtentTreeRoot : Nat := le64 r 80
def crSnapshotRoot : Nat := le64 r 88
def crScrubJournal : Nat := le64 r 96
def crHealthJournal : Nat := le64 r 104
def crMetadataRegionStart : Nat := le64 r 112
def crMetadataRegionEnd : Nat := le64 r 120
def crDataRegionStart : Nat := le64 r 128
def crDataRegionEnd : Nat := le64 r 136
def crSpecialMetadataRoot : Nat := le64 r 144
def crCacheRoot : Nat := le64 r 152
def crParityRoot : Nat := le64 r 160
end CheckpointRoot

/-- `S_ISDIR`. -/
def sIsDir (mode : Nat) : Prop := mode &&& 0o170000 = 0o040000

/-- `S_ISREG`. -/
def sIsReg (mode : Nat) : Prop := mode &&& 0o170000 = 0o100000

instance (mode : Nat) : Decidable (sIsDir mode) := inferInstanceAs (Decidable (_ = _))
instance (mode : Nat) : Decidable (sIsReg mode) := inferInstanceAs (Decidable (_ = _))

theorem sIsReg.not_dir {mode : Nat} (h : sIsReg mode) : ¬ sIsDir mode := fun h' => by
  rw [sIsReg] at h
  rw [sIsDir, h] at h'
  exact absurd h' (by norm_num)

/-! ## 4. Checksums -/

/-- The polynomial `aetherfs_crc32c` shifts in. -/
def crcPoly : BitVec 32 := 0xEDB88320#32

/-- `aetherfs_crc32c`. -/
def crc32c (crc : BitVec 32) (buf : List UInt8) : BitVec 32 :=
  feed crcPoly (crc ^^^ 0xFFFFFFFF#32) buf ^^^ 0xFFFFFFFF#32

/-- `aetherfs_crc32c_data`: seeded with `AETHERFS_CRC_SEED`. -/
def crc32cData (data : List UInt8) : Nat := (crc32c 0xFFFFFFFF#32 data).toNat

theorem crc32cData_lt (data : List UInt8) : crc32cData data < 2 ^ 32 := BitVec.isLt _

/-- The shape of the header's structure checksums: the 4-byte field at `off` counts as zero. -/
def zeroedChecksum {n : Nat} (b : Bytes n) (off : Nat) : Nat :=
  crc32cData (toList (put32 b off 0))

def superChecksum (s : Super) : Nat := zeroedChecksum s 44
def inodeChecksum (i : Inode) : Nat := zeroedChecksum i 100
def bitmapChecksum (b : BitmapBlock) : Nat := zeroedChecksum b 0
def extentNodeChecksum (n : ExtentNode) : Nat := zeroedChecksum n 12
def checksumBlockChecksum (b : ChecksumBlock) : Nat := zeroedChecksum b 12
def poolLabelChecksum (l : PoolLabel) : Nat := zeroedChecksum l 8
def checkpointRootChecksum (r : CheckpointRoot) : Nat := zeroedChecksum r 8

/-- `aetherfs_journal_checksum`: the bytes in front of `il_checksum`. -/
def journalChecksum (j : IntentLog) : Nat := crc32cData (toList (slice j 0 40))

theorem zeroedChecksum_lt {n : Nat} (b : Bytes n) (off : Nat) : zeroedChecksum b off < 2 ^ 32 :=
  crc32cData_lt _

/-- **What a structure checksum does not read.**  Storing anything in the checksum field leaves
the checksum what it was; this is what makes storing it and then verifying it succeed. -/
@[simp] theorem zeroedChecksum_put32 {n : Nat} (b : Bytes n) (off v : Nat) :
    zeroedChecksum (put32 b off v) off = zeroedChecksum b off := by
  simp [zeroedChecksum]

/-- Store the structure's own checksum in the field at `off`. -/
def sealAt {n : Nat} (b : Bytes n) (off : Nat) : Bytes n := put32 b off (zeroedChecksum b off)

theorem sealAt_congr {n : Nat} {a b : Bytes n} {off : Nat} (h : put32 a off 0 = put32 b off 0) :
    sealAt a off = sealAt b off := by
  have hcut : ∀ x : Bytes n, sealAt x off = put32 (put32 x off 0) off (zeroedChecksum x off) :=
    fun x => (putLE_putLE x off 4 0 _).symm
  rw [hcut a, hcut b, h, zeroedChecksum, zeroedChecksum, h]

theorem sealAt_sealAt {n : Nat} (b : Bytes n) (off : Nat) :
    sealAt (sealAt b off) off = sealAt b off := sealAt_congr (putLE_putLE b off 4 _ 0)

/-- **A sealed structure carries its own checksum.** -/
theorem le32_sealAt {n : Nat} (b : Bytes n) {off : Nat} (h : off + 4 ≤ n) :
    le32 (sealAt b off) off = zeroedChecksum (sealAt b off) off := by
  rw [sealAt, zeroedChecksum_put32, le32, put32, getLE_putLE_self _ _ _ _ h]
  exact Nat.mod_eq_of_lt (zeroedChecksum_lt b off)

@[simp] theorem getLE_sealAt {n : Nat} (b : Bytes n) (off off' w : Nat)
    (h : off' + w ≤ off ∨ off + 4 ≤ off') :
    getLE (byteAt (sealAt b off)) off' w = getLE (byteAt b) off' w :=
  getLE_putLE_of_disjoint b off 4 _ off' w h

theorem differsOnly_sealAt {n : Nat} {holes : List (Nat × Nat)} (b : Bytes n) {off : Nat}
    (h : (off, 4) ∈ holes) : DiffersOnly holes (sealAt b off) b := differsOnly_putLE b _ h

theorem super_sealed (s : Super) : sChecksum (sealAt s 44) = superChecksum (sealAt s 44) :=
  le32_sealAt s (by norm_num)

theorem inode_sealed (i : Inode) : iChecksum (sealAt i 100) = inodeChecksum (sealAt i 100) :=
  le32_sealAt i (by norm_num)

theorem bitmap_sealed (b : BitmapBlock) :
    bbChecksum (sealAt b 0) = bitmapChecksum (sealAt b 0) := le32_sealAt b (by norm_num)

theorem extentNode_sealed (n : ExtentNode) :
    enChecksum (sealAt n 12) = extentNodeChecksum (sealAt n 12) := le32_sealAt n (by norm_num)

theorem checksumBlock_sealed (b : ChecksumBlock) :
    cbChecksum (sealAt b 12) = checksumBlockChecksum (sealAt b 12) := le32_sealAt b (by norm_num)

theorem checkpointRoot_sealed (r : CheckpointRoot) :
    crChecksum (sealAt r 8) = checkpointRootChecksum (sealAt r 8) := le32_sealAt r (by norm_num)

/-- Store the journal's checksum. -/
def sealJournal (j : IntentLog) : IntentLog := put32 j 40 (journalChecksum j)

theorem journalChecksum_put32 (j : IntentLog) (v : Nat) :
    journalChecksum (put32 j 40 v) = journalChecksum j := by
  have hfront : slice (put32 j 40 v) 0 40 = slice j 0 40 := bytes_ext fun i hi => by
    rw [byteAt_slice _ hi, byteAt_slice _ hi, put32, byteAt_putLE_of_out _ _ (by omega)]
  rw [journalChecksum, journalChecksum, hfront]

theorem sealJournal_put32 (j : IntentLog) (v : Nat) :
    sealJournal (put32 j 40 v) = sealJournal j := by
  rw [sealJournal, sealJournal, journalChecksum_put32, put32, put32, put32, putLE_putLE]

theorem ilChecksum_sealJournal (j : IntentLog) :
    ilChecksum (sealJournal j) = journalChecksum (sealJournal j) := by
  have hread : ilChecksum (sealJournal j) = journalChecksum j % 256 ^ 4 :=
    getLE_putLE_self _ _ _ _ (by norm_num)
  rw [hread, sealJournal, journalChecksum_put32]
  exact Nat.mod_eq_of_lt (crc32cData_lt _)

/-- The one-byte checksum `aetherfs_dirent_checksum` computes for the record at `off`: the CRC
of its header and name, with the checksum byte (offset 13) zero.  The bytes come from memory
`m`, which reaches past the directory block when the record does. -/
def direntChecksum (m : Nat → UInt8) (off : Nat) : Nat :=
  let nameLen := getLE m (off + 10) 2
  if nameLen > maxNamelen then 0
  else crc32cData ((List.range (dirEntryBaseSize + nameLen)).map
    (fun i => if i = 13 then 0 else m (off + i))) % 256

/-! ## 5. The format checksum tells bursts apart -/

theorem crcPoly_msb : crcPoly.msb = true := by decide

/-- Two inputs of equal length that agree outside a window of at most four bytes, and differ
inside it, have different checksums. -/
theorem crc32c_burst_ne (crc : BitVec 32) (pre post l l' : List UInt8)
    (hlen : l.length = l'.length) (hw : l.length ≤ 4) (hne : l ≠ l') :
    crc32c crc (pre ++ l ++ post) ≠ crc32c crc (pre ++ l' ++ post) := by
  intro h
  have hf := feed_burst_ne crcPoly_msb (crc ^^^ 0xFFFFFFFF#32) pre post l l' hlen (by omega) hne
  exact hf ((BitVec.xor_left_inj _).mp h)

/-- **Every burst of four bytes is detected**, whatever the seed, the length, and the place of the
window. -/
theorem crc32c_detects_bursts (crc : BitVec 32) {buf buf' : List UInt8}
    (hlen : buf.length = buf'.length) (hne : buf ≠ buf') {p : Nat}
    (hsame : ∀ i, i < p ∨ p + 4 ≤ i → buf[i]? = buf'[i]?) : crc32c crc buf ≠ crc32c crc buf' := by
  obtain ⟨pre, mid, mid', post, rfl, rfl, hmid, hfour⟩ := exists_window hlen hsame
  refine crc32c_burst_ne crc pre post mid mid' hmid hfour ?_
  rintro rfl
  exact hne rfl

theorem two_bytes_detected :
    crc32c 0 [1, 2, 3, 4, 5, 6] ≠ crc32c 0 [1, 255, 3, 4, 0, 6] := by
  refine crc32c_detects_bursts 0 rfl (by decide) (p := 1) ?_
  intro i hi
  match i with
  | 0 | 5 => rfl
  | i + 6 => rfl
  | 1 | 2 | 3 | 4 => omega

end AetherFs
