/-
# The checksum pairs of `invariants.c`

Eight structures have a function that stores a checksum and one that verifies it.  Six of the
pairs have one shape or the other: the field is zeroed, the structure is hashed, the sum is
stored; and the verifier either zeroes the field again before it hashes, or relies on the field
lying behind the hashed bytes.  Those agree on every content.

Two do not.

* An extent node is verified WITHOUT zeroing `en_reserved`, which lies inside the hashed bytes.
  The stored sum then hashes itself, and verification succeeds only when feeding its own four
  bytes to a zero register leaves zero (`verifyInPlace_inside`).
* A directory entry keeps one byte of the sum and is compared with all four.

The superblock's two functions ask for different pointers first: storing needs `s_es`, verifying
needs `s_sbh`.
-/
import AetherFs.Device
import AetherFs.Kernel.Crc
import AetherFs.Kernel.Layout

namespace AetherFs

open Lib

/-! ## 1. The structures -/

/-- `struct aetherfs_inode` of `kernel/aetherfs.h`, up to its checksum. -/
inductive InodeField
  | mode | linksCount | uid | gid | size | blocks | atime | ctime | mtime | extentRoot | nlink
  | flags | xattr | reflink | parent | snapshotId | checksum
deriving DecidableEq

def kernelInodeDecl : Decl InodeField :=
  [(.mode, .u16), (.linksCount, .u16), (.uid, .u32), (.gid, .u32), (.size, .u64), (.blocks, .u64),
    (.atime, .u64), (.ctime, .u64), (.mtime, .u64), (.extentRoot, .u64), (.nlink, .u32),
    (.flags, .u32), (.xattr, .u64), (.reflink, .u64), (.parent, .u64), (.snapshotId, .u64),
    (.checksum, .u32)]

/-- `struct aetherfs_checksummed_block`. -/
inductive ChecksummedField
  | checksum | blocknr | level | reserved | llog | data
deriving DecidableEq

def checksummedBlockDecl : Decl ChecksummedField :=
  [(.checksum, .u32), (.blocknr, .u32), (.level, .u16), (.reserved, .u16), (.llog, .u64),
    (.data, CType.u8.array 0)]

/-- `struct aetherfs_dir_entry`. -/
inductive DirEntryField
  | ino | recLen | nameLen | fileType | checksum | name
deriving DecidableEq

def dirEntryDecl : Decl DirEntryField :=
  [(.ino, .u64), (.recLen, .u16), (.nameLen, .u16), (.fileType, .u8), (.checksum, .u8),
    (.name, CType.u8.array 0)]

/-- `struct aetherfs_extent_node` of `kernel/aetherfs.h`. -/
inductive ExtentNodeField
  | next | count | reserved | extents
deriving DecidableEq

def kernelExtentNodeDecl : Decl ExtentNodeField :=
  [(.next, .u64), (.count, .u32), (.reserved, .u32),
    (.extents, ⟨naturalSize kernelExtentDecl, 8, 128⟩)]

/-- `struct aetherfs_snapshot_ref`; the checksum is `sr_reserved[3]`. -/
inductive SnapshotField
  | id | genTime | rootInode | extentTree | metaTree | refcount | flags | reserved | checksum
deriving DecidableEq

def snapshotRefDecl : Decl SnapshotField :=
  [(.id, .u64), (.genTime, .u64), (.rootInode, .u64), (.extentTree, .u64), (.metaTree, .u64),
    (.refcount, .u32), (.flags, .u32), (.reserved, CType.u32.array 3), (.checksum, .u32)]

/-- `struct aetherfs_journal_header`. -/
inductive JournalHeaderField
  | blocknr | fsGen | entries | checkpoint | tail | checksum
deriving DecidableEq

def journalHeaderDecl : Decl JournalHeaderField :=
  [(.blocknr, .u64), (.fsGen, .u32), (.entries, .u32), (.checkpoint, .u32), (.tail, .u32),
    (.checksum, .u32)]

/-- `struct aetherfs_btree_node`. -/
inductive BtreeNodeField
  | next | level | count | checksum | reserved | data
deriving DecidableEq

def btreeNodeDecl : Decl BtreeNodeField :=
  [(.next, .u64), (.level, .u32), (.count, .u32), (.checksum, .u32), (.reserved, .u32),
    (.data, CType.u8.array 0)]

/-! ## 2. The functions -/

/-- The bytes a pointer points to. -/
abbrev Memory := Nat → UInt8

/-- `aetherfs_crc32c(AETHERFS_CRC_SEED, p + start, len)`. -/
def hashed (m : Memory) (start len : Nat) : Nat :=
  (kernelCrc32c 0xFFFFFFFF#32 (bytesFrom m start len)).toNat

section Shapes

variable (off len : Nat) (m : Memory)

/-- Zero the field, hash, store. -/
def storeChecksum : Except Errno Unit × Memory :=
  (.ok (), setLE (setLE m off 4 0) off 4 (hashed (setLE m off 4 0) 0 len))

/-- Zero the field, hash, put the stored sum back, compare. -/
def verifyZeroed (e : Errno) : Except Errno Unit × Memory :=
  let stored := getLE m off 4
  let computed := hashed (setLE m off 4 0) 0 len
  (if stored = computed then .ok () else .error e, setLE (setLE m off 4 0) off 4 stored)

/-- Hash the structure as it stands, and compare. -/
def verifyInPlace (e : Errno) : Except Errno Unit × Memory :=
  (if getLE m off 4 = hashed m 0 len then .ok () else .error e, m)

end Shapes

/-- `struct aetherfs_sb_info`: whether `s_sbh` and `s_es` are set, and what `s_es` points to. -/
structure SbInfo where
  sbh : Bool
  hasEs : Bool
  es : Memory

/-- `aetherfs_compute_superblock_checksum`. -/
def computeSuperblockChecksum (info : SbInfo) : Except Errno Unit × SbInfo :=
  if info.hasEs = false then (.error .EINVAL, info)
  else
    let (rc, es) := storeChecksum (offsetOf kernelSuper .checksum) 72 info.es
    (rc, { info with es := es })

/-- `aetherfs_verify_superblock_checksum`. -/
def verifySuperblockChecksum (info : SbInfo) : Except Errno Unit × SbInfo :=
  if info.sbh = false then (.error .EINVAL, info)
  else
    let (rc, es) := verifyZeroed (offsetOf kernelSuper .checksum) 72 info.es .EINVAL
    (rc, { info with es := es })

/-- `AETHERFS_INODE_SIZE` of `kernel/aetherfs.h`. -/
def kernelInodeSize : Nat := 512

/-- `aetherfs_compute_inode_checksum`. -/
def computeInodeChecksum : Memory → Except Errno Unit × Memory :=
  storeChecksum (offsetOf (natural kernelInodeDecl) .checksum) (kernelInodeSize - 4)

/-- `aetherfs_verify_inode_checksum`. -/
def verifyInodeChecksum (raw : Memory) : Except Errno Unit × Memory :=
  verifyZeroed (offsetOf (natural kernelInodeDecl) .checksum) (kernelInodeSize - 4) raw .EUCLEAN

/-- The hash of `cb_data`, in a block of `blocksize` bytes. -/
def dataHash (blocksize : Nat) (cb : Memory) : Nat :=
  hashed cb (offsetOf (natural checksummedBlockDecl) .data)
    (subU64 blocksize (naturalSize checksummedBlockDecl))

/-- `aetherfs_compute_data_checksum`.  `cb_blocknr` has four bytes. -/
def computeDataChecksum (blocksize blocknr : Nat) (cb : Memory) : Except Errno Unit × Memory :=
  let L := natural checksummedBlockDecl
  let cb := setLE cb (offsetOf L .blocknr) 4 blocknr
  let cb := setLE cb (offsetOf L .level) 2 0
  let cb := setLE cb (offsetOf L .checksum) 4 0
  (.ok (), setLE cb (offsetOf L .checksum) 4 (dataHash blocksize cb))

/-- `aetherfs_verify_data_checksum`: a zero sum is no sum. -/
def verifyDataChecksum (blocksize : Nat) (cb : Memory) : Except Errno Unit × Memory :=
  let off := offsetOf (natural checksummedBlockDecl) .checksum
  let stored := getLE cb off 4
  if stored = 0 then (.ok (), cb)
  else
    (if stored = dataHash blocksize (setLE cb off 4 0) then .ok () else .error .EUCLEAN,
      setLE (setLE cb off 4 0) off 4 stored)

/-- `aetherfs_compute_directory_entry_checksum`: the field has one byte. -/
def computeDirectoryEntryChecksum (de : Memory) : Except Errno Unit × Memory :=
  let off := offsetOf (natural dirEntryDecl) .checksum
  let de := setLE de off 1 0
  (.ok (), setLE de off 1 (hashed de 0 (naturalSize dirEntryDecl - 4)))

/-- `aetherfs_verify_directory_entry_checksum`: a copy is hashed. -/
def verifyDirectoryEntryChecksum (de : Memory) : Except Errno Unit × Memory :=
  let off := offsetOf (natural dirEntryDecl) .checksum
  let stored := getLE de off 1
  let computed := hashed (setLE de off 1 0) 0 (naturalSize dirEntryDecl - 4)
  (if stored = computed then .ok () else .error .EUCLEAN, de)

/-- `aetherfs_compute_extent_checksum`. -/
def computeExtentChecksum : Memory → Except Errno Unit × Memory :=
  storeChecksum (offsetOf (natural kernelExtentNodeDecl) .reserved)
    (naturalSize kernelExtentNodeDecl - 4)

/-- `aetherfs_verify_extent_checksum`. -/
def verifyExtentChecksum (node : Memory) : Except Errno Unit × Memory :=
  verifyInPlace (offsetOf (natural kernelExtentNodeDecl) .reserved)
    (naturalSize kernelExtentNodeDecl - 4) node .EUCLEAN

/-- `aetherfs_compute_snapshot_checksum`. -/
def computeSnapshotChecksum : Memory → Except Errno Unit × Memory :=
  storeChecksum (offsetOf (natural snapshotRefDecl) .checksum) (naturalSize snapshotRefDecl - 4)

/-- `aetherfs_verify_snapshot_checksum`. -/
def verifySnapshotChecksum (snap : Memory) : Except Errno Unit × Memory :=
  verifyInPlace (offsetOf (natural snapshotRefDecl) .checksum) (naturalSize snapshotRefDecl - 4)
    snap .EUCLEAN

/-- `aetherfs_compute_journal_checksum`. -/
def computeJournalChecksum : Memory → Except Errno Unit × Memory :=
  storeChecksum (offsetOf (natural journalHeaderDecl) .checksum)
    (naturalSize journalHeaderDecl - 4)

/-- `aetherfs_verify_journal_checksum`. -/
def verifyJournalChecksum (jh : Memory) : Except Errno Unit × Memory :=
  verifyZeroed (offsetOf (natural journalHeaderDecl) .checksum) (naturalSize journalHeaderDecl - 4)
    jh .EUCLEAN

/-- `aetherfs_compute_btree_node_checksum`. -/
def computeBtreeNodeChecksum (size : Nat) : Memory → Except Errno Unit × Memory :=
  storeChecksum (offsetOf (natural btreeNodeDecl) .checksum) (subU64 size 4)

/-- `aetherfs_verify_btree_node_checksum`. -/
def verifyBtreeNodeChecksum (size : Nat) (node : Memory) : Except Errno Unit × Memory :=
  verifyZeroed (offsetOf (natural btreeNodeDecl) .checksum) (subU64 size 4) node .EUCLEAN

/-! ## 3. The two shapes -/

/-- Storing and then verifying succeeds, and verifying changes nothing. -/
def Agrees {σ : Type} (compute verify : σ → Except Errno Unit × σ) (s : σ) : Prop :=
  (compute s).1 = .ok () ∧ verify (compute s).2 = (.ok (), (compute s).2)

theorem hashed_lt (m : Memory) (start len : Nat) : hashed m start len < 256 ^ 4 := BitVec.isLt _

variable {off len : Nat}

/-- The field holds the sum of the structure with a zero in it. -/
theorem getLE_stored (off len : Nat) (m : Memory) :
    getLE (storeChecksum off len m).2 off 4 = hashed (setLE m off 4 0) 0 len := by
  rw [storeChecksum, getLE_setLE_self]
  exact Nat.mod_eq_of_lt (hashed_lt _ _ _)

theorem setLE_stored (off len : Nat) (m : Memory) :
    setLE (storeChecksum off len m).2 off 4 0 = setLE m off 4 0 := by
  rw [storeChecksum, setLE_setLE, setLE_setLE]

/-- **A verifier that zeroes the field agrees**, wherever the field is. -/
theorem verifyZeroed_agrees (off len : Nat) (e : Errno) (m : Memory) :
    Agrees (storeChecksum off len) (verifyZeroed off len · e) m := by
  refine ⟨rfl, ?_⟩
  change verifyZeroed off len (storeChecksum off len m).2 e = _
  rw [verifyZeroed, getLE_stored, setLE_stored]
  exact Prod.ext (if_pos rfl) rfl

/-- **A verifier that hashes in place agrees when the field lies behind what is hashed.** -/
theorem verifyInPlace_behind (h : len ≤ off) (e : Errno) (m : Memory) :
    Agrees (storeChecksum off len) (verifyInPlace off len · e) m := by
  have hsame : hashed (storeChecksum off len m).2 0 len = hashed (setLE m off 4 0) 0 len := by
    rw [hashed, hashed, bytesFrom_congr fun i hi => ?_]
    exact setLE_of_out _ _ (by omega)
  refine ⟨rfl, ?_⟩
  change verifyInPlace off len (storeChecksum off len m).2 e = _
  rw [verifyInPlace, getLE_stored, hsame, if_pos rfl]

theorem zipWith_xor_zeros : ∀ l : List UInt8,
    List.zipWith (· ^^^ ·) l (List.replicate l.length 0) = l
  | [] => rfl
  | b :: l => by
    rw [List.length_cons, List.replicate_succ, List.zipWith_cons_cons, UInt8.xor_zero,
      zipWith_xor_zeros l]

/-- **Two contents that differ in a window hash alike** exactly when the difference, fed to a zero
register, leaves zero. -/
theorem hashed_window_iff {m m' : Memory} {start k w len : Nat} (h : k + w ≤ len)
    (hout : ∀ i, i < len → i < k ∨ k + w ≤ i → m (start + i) = m' (start + i)) :
    hashed m start len = hashed m' start len ↔ kernelRegister 0#32
      (List.zipWith (· ^^^ ·) (bytesFrom m (start + k) w) (bytesFrom m' (start + k) w)) = 0#32 := by
  -- the hashed bytes are those in front of the window, the window, and those behind it
  have hcut : ∀ x : Memory, bytesFrom x start len = bytesFrom x start k ++
      bytesFrom x (start + k) w ++ bytesFrom x (start + (k + w)) (len - (k + w)) := by
    intro x
    conv_lhs => rw [show len = k + w + (len - (k + w)) by omega]
    rw [bytesFrom_append, bytesFrom_append]
  have hpre : bytesFrom m start k = bytesFrom m' start k :=
    bytesFrom_congr fun i hi => hout i (by omega) (Or.inl hi)
  have hpost : bytesFrom m (start + (k + w)) (len - (k + w))
      = bytesFrom m' (start + (k + w)) (len - (k + w)) := by
    refine bytesFrom_congr fun i hi => ?_
    rw [Nat.add_assoc]
    exact hout _ (by omega) (Or.inr (Nat.le_add_right _ _))
  rw [hashed, hashed, BitVec.toNat_inj, kernelCrc32c, kernelCrc32c, BitVec.not_inj,
    kernelRegister_eq_feedBy, kernelRegister_eq_feedBy, hcut, hcut m', hpre, hpost,
    feedBy_window_eq_iff crcPoly_msb 1 _ _ _ (by rw [bytesFrom_length, bytesFrom_length])]
  rfl

/-- **Zeroing a field** at `off` changes the sum unless the part of it that is hashed, fed to a zero
register, leaves zero. -/
theorem hashed_zeroed_iff {m : Memory} {start off len : Nat} (h : off ≤ len) :
    hashed m start len = hashed (setLE m (start + off) 4 0) start len ↔
      kernelRegister 0#32 (bytesFrom m (start + off) (min 4 (len - off))) = 0#32 := by
  have hzero : bytesFrom (setLE m (start + off) 4 0) (start + off) (min 4 (len - off))
      = List.replicate (min 4 (len - off)) 0 := by
    rw [List.eq_replicate_iff, bytesFrom_length]
    refine ⟨rfl, fun b hb => ?_⟩
    obtain ⟨i, hi, rfl⟩ := List.mem_map.mp hb
    have hi := List.mem_range.mp hi
    rw [setLE, if_pos (by omega), Nat.zero_div]
    rfl
  have hsum := zipWith_xor_zeros (bytesFrom m (start + off) (min 4 (len - off)))
  rw [bytesFrom_length] at hsum
  rw [hashed_window_iff (k := off) (w := min 4 (len - off)) (by omega), hzero, hsum]
  exact fun i hi hout => (setLE_of_out m 0 (by omega)).symm

/-- **When the field lies inside**, it must hash to nothing. -/
theorem verifyInPlace_inside (h : off + 4 ≤ len) (e : Errno) (m : Memory) :
    Agrees (storeChecksum off len) (verifyInPlace off len · e) m ↔
      kernelRegister 0#32 (bytesFrom (storeChecksum off len m).2 off 4) = 0#32 := by
  have hagree : Agrees (storeChecksum off len) (verifyInPlace off len · e) m ↔
      hashed (storeChecksum off len m).2 0 len = hashed (setLE m off 4 0) 0 len := by
    change _ ∧ verifyInPlace off len (storeChecksum off len m).2 e = _ ↔ _
    rw [verifyInPlace, getLE_stored]
    constructor
    · rintro ⟨-, h⟩
      have := (Prod.mk.inj h).1
      split at this
      · rename_i heq
        exact heq.symm
      · exact absurd this (by simp)
    · intro h
      exact ⟨rfl, by rw [if_pos h.symm]⟩
  have hwindow := @hashed_zeroed_iff (storeChecksum off len m).2 0 off len (by omega)
  rw [Nat.zero_add, setLE_stored, show min 4 (len - off) = 4 by omega] at hwindow
  exact hagree.trans hwindow

/-! ## 4. The eight pairs -/

theorem superblock_agrees_iff (info : SbInfo) :
    Agrees computeSuperblockChecksum verifySuperblockChecksum info ↔
      info.hasEs = true ∧ info.sbh = true := by
  obtain ⟨sbh, hasEs, es⟩ := info
  have hpair : verifyZeroed (offsetOf kernelSuper .checksum) 72
      (storeChecksum (offsetOf kernelSuper .checksum) 72 es).2 .EINVAL = (.ok (), _) :=
    (verifyZeroed_agrees (offsetOf kernelSuper .checksum) 72 .EINVAL es).2
  cases hasEs with
  | false => simp [Agrees, computeSuperblockChecksum]
  | true =>
    cases sbh with
    | false => simp [Agrees, computeSuperblockChecksum, verifySuperblockChecksum, storeChecksum]
    | true =>
      refine ⟨fun _ => ⟨rfl, rfl⟩, fun _ => ⟨rfl, ?_⟩⟩
      simp only [computeSuperblockChecksum, verifySuperblockChecksum, Bool.true_eq_false, if_false,
        hpair]

theorem data_agrees (blocksize blocknr : Nat) (cb : Memory) :
    Agrees (computeDataChecksum blocksize blocknr) (verifyDataChecksum blocksize) cb := by
  have hwide : ∀ x, dataHash blocksize x % 256 ^ 4 = dataHash blocksize x :=
    fun x => Nat.mod_eq_of_lt (hashed_lt _ _ _)
  refine ⟨rfl, ?_⟩
  simp only [computeDataChecksum, verifyDataChecksum, getLE_setLE_self, setLE_setLE, hwide,
    if_true, ite_self]

/-- What the directory entry's verifier compares: the low byte of the sum with all of it. -/
theorem directoryEntry_verify (de : Memory) :
    verifyDirectoryEntryChecksum (computeDirectoryEntryChecksum de).2
      = (if hashed de 0 12 % 256 = hashed de 0 12 then .ok () else .error .EUCLEAN,
        (computeDirectoryEntryChecksum de).2) := by
  have hoff : offsetOf (natural dirEntryDecl) .checksum = 13 := by decide
  have hsize : naturalSize dirEntryDecl = 16 := by decide
  -- the field lies behind the twelve bytes that are hashed
  have hsame : hashed (setLE de 13 1 0) 0 12 = hashed de 0 12 := by
    rw [hashed, hashed, bytesFrom_congr fun i hi => setLE_of_out _ _ (by omega)]
  simp only [computeDirectoryEntryChecksum, verifyDirectoryEntryChecksum, hoff, hsize,
    getLE_setLE_self, setLE_setLE, hsame, Nat.pow_one]

theorem directoryEntry_agrees_iff (de : Memory) :
    Agrees computeDirectoryEntryChecksum verifyDirectoryEntryChecksum de ↔
      hashed de 0 12 < 256 := by
  rw [Agrees, directoryEntry_verify]
  constructor
  · rintro ⟨-, h⟩
    have := (Prod.mk.inj h).1
    split at this
    · omega
    · exact absurd this (by simp)
  · intro h
    exact ⟨rfl, by rw [if_pos (Nat.mod_eq_of_lt h)]⟩

theorem extent_agrees_iff (node : Memory) :
    Agrees computeExtentChecksum verifyExtentChecksum node ↔
      kernelRegister 0#32 ((List.range 4).map fun k =>
        UInt8.ofNat (hashed (setLE node 12 4 0) 0 3084 / 256 ^ k)) = 0#32 := by
  have hstored : bytesFrom (computeExtentChecksum node).2 12 4 = (List.range 4).map fun k =>
      UInt8.ofNat (hashed (setLE node 12 4 0) 0 3084 / 256 ^ k) := by
    refine List.map_congr_left fun k hk => ?_
    change setLE (setLE node 12 4 0) 12 4 (hashed (setLE node 12 4 0) 0 3084) (12 + k) = _
    have hk := List.mem_range.mp hk
    rw [setLE, if_pos (by omega), Nat.add_sub_cancel_left]
  rw [← hstored]
  exact verifyInPlace_inside (by decide) .EUCLEAN node

/-- **Which pairs agree.**  Inodes, data blocks, snapshot references, journal headers and btree
nodes: always.  The superblock: when both pointers are set.  A directory entry: when the sum fits
the byte it is kept in.  An extent node: when the four bytes of its sum hash to nothing. -/
theorem checksum_pairs_agree_iff (info : SbInfo) (raw cb de node snap jh btree : Memory)
    (blocksize blocknr size : Nat) :
    (Agrees computeSuperblockChecksum verifySuperblockChecksum info ↔
      info.hasEs = true ∧ info.sbh = true) ∧
    Agrees computeInodeChecksum verifyInodeChecksum raw ∧
    Agrees (computeDataChecksum blocksize blocknr) (verifyDataChecksum blocksize) cb ∧
    (Agrees computeDirectoryEntryChecksum verifyDirectoryEntryChecksum de ↔
      hashed de 0 12 < 256) ∧
    (Agrees computeExtentChecksum verifyExtentChecksum node ↔
      kernelRegister 0#32 ((List.range 4).map fun k =>
        UInt8.ofNat (hashed (setLE node 12 4 0) 0 3084 / 256 ^ k)) = 0#32) ∧
    Agrees computeSnapshotChecksum verifySnapshotChecksum snap ∧
    Agrees computeJournalChecksum verifyJournalChecksum jh ∧
    Agrees (computeBtreeNodeChecksum size) (verifyBtreeNodeChecksum size) btree :=
  ⟨superblock_agrees_iff info, verifyZeroed_agrees _ _ .EUCLEAN raw,
    data_agrees blocksize blocknr cb, directoryEntry_agrees_iff de, extent_agrees_iff node,
    verifyInPlace_behind (by decide) .EUCLEAN snap, verifyZeroed_agrees _ _ .EUCLEAN jh,
    verifyZeroed_agrees _ (subU64 size 4) .EUCLEAN btree⟩

/-- An entry of zeros fails right after its sum was stored. -/
theorem zeroEntry_rejected :
    (computeDirectoryEntryChecksum fun _ => 0).1 = .ok () ∧
      (verifyDirectoryEntryChecksum (computeDirectoryEntryChecksum fun _ => 0).2).1
        = .error .EUCLEAN := by
  have hsum : ¬ hashed (fun _ => 0) 0 12 % 256 = hashed (fun _ => 0) 0 12 := by decide
  rw [directoryEntry_verify, if_neg hsum]
  exact ⟨rfl, rfl⟩

end AetherFs
