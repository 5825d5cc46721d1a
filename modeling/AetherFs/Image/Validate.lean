/-
# Scrub: `aetherfs_image_validate`

The validator of `image.c`, function by function.  Every read goes through a block reader
`rd : Nat → Except Fail Block`, which is `imageReadBlock img`; what a run returns is therefore a
function of what it reads, and two images can be compared by comparing their readers.

Each loop of the source is a recursion here and hands its accumulators on: the chain walk
(`csumWalk`) returns the checksum blocks it visited, the extent walk the intervals it appended
to `used`, the inode loop one `Tally` per inode.  `imageValidate_iff` collects what a successful run
has established, in the order in which it does.
-/
import AetherFs.Image.Open

namespace AetherFs

open Lib

/-! ## 1. The root directory -/

section Dir

/-- `dir_refs`, as the list of the indices that are set, and the two flags. -/
structure DirScan where
  refs : List Nat
  sawDot : Bool
  sawDotdot : Bool
deriving DecidableEq, Repr

variable (m : Nat → UInt8) (offset : Nat)

def dirIno : Nat := getLE m offset 8
def dirRec : Nat := getLE m (offset + 8) 2
def dirNameLen : Nat := getLE m (offset + 10) 2
def dirChecksum : Nat := (m (offset + 13)).toNat

/-- The record is named ".". -/
def isDot : Prop := dirNameLen m offset = 1 ∧ m (offset + 14) = 46

/-- The record is named "..". -/
def isDotdot : Prop := dirNameLen m offset = 2 ∧ m (offset + 14) = 46 ∧ m (offset + 15) = 46

instance : Decidable (isDot m offset) := inferInstanceAs (Decidable (_ ∧ _))
instance : Decidable (isDotdot m offset) := inferInstanceAs (Decidable (_ ∧ _))

/-- The first check of the record loop. -/
def dirBadLength : Prop :=
  dirRec m offset = 0 ∨ dirRec m offset &&& 3 ≠ 0 ∨ offset + dirRec m offset > defBlockSize

instance : Decidable (dirBadLength m offset) := inferInstanceAs (Decidable (_ ∨ _))

/-- The rest of the loop's body.  `rec_len - AETHERFS_DIR_ENTRY_BASE_SIZE` is unsigned, so a
record shorter than its own header passes. -/
def dirEntry (s : DirScan) : Except Fail DirScan := do
  let ino := dirIno m offset
  failIf (dirNameLen m offset > (dirRec m offset + (2 ^ 32 - dirEntryBaseSize)) % 2 ^ 32 ∨
    dirNameLen m offset > maxNamelen) .EINVAL
  failIf (ino ≠ 0 ∧ dirChecksum m offset ≠ direntChecksum m offset) .EILSEQ
  if ino = 0 then .ok s
  else if isDot m offset then do
    failIf (ino ≠ rootIno) .EINVAL
    .ok { s with sawDot := true }
  else if isDotdot m offset then do
    failIf (ino ≠ rootIno) .EINVAL
    .ok { s with sawDotdot := true }
  else do
    failIf (ino < rootIno ∨ ino ≥ rootIno + maxInodes) .EINVAL
    failIf (ino - rootIno ∈ s.refs) .EEXIST
    .ok { s with refs := s.refs ++ [ino - rootIno] }

end Dir

/-- The record loop of `aetherfs_image_validate_root_dir`. -/
def dirWalk (m : Nat → UInt8) (offset : Nat) (s : DirScan) : Except Fail DirScan :=
  if offset < defBlockSize then
    if dirBadLength m offset then .error (.check .EINVAL)
    else do
      let s ← dirEntry m offset s
      dirWalk m (offset + dirRec m offset) s
  else .ok s
termination_by defBlockSize - offset
decreasing_by
  rename_i hlt hok
  simp only [dirBadLength, not_or, defBlockSize] at hok hlt ⊢
  omega

section Validate

variable {δ : Type}

/-- The memory the directory walk sees: the block, and what lies behind it. -/
def dirMemory (img : Image δ) (i : Nat) : UInt8 :=
  if i < defBlockSize then byteAt img.rootDir i else img.beyond (i - defBlockSize)

/-- `aetherfs_image_validate_root_dir`, returning `dir_refs`. -/
def imageValidateRootDir (img : Image δ) : Except Fail (List Nat) := do
  let s ← dirWalk (dirMemory img) 0 ⟨[], false, false⟩
  failIf (¬ (s.sawDot = true ∧ s.sawDotdot = true)) .EINVAL
  .ok s.refs

/-! ## 2. Files -/

section Reader

variable (rd : Nat → Except Fail Block)

/-- `aetherfs_read_checksum_block`. -/
def readChecksumBlock (blocknr : Nat) : Except Fail ChecksumBlock := do
  let sums ← rd blocknr
  failIf (cbChecksum sums ≠ checksumBlockChecksum sums) .EILSEQ
  failIf (cbEntries sums > checksumsPerBlock) .EINVAL
  .ok sums

/-- One data block against its sum. -/
def checkSum (sums : ChecksumBlock) (dataStart sumIndex : Nat) : Except Fail Unit := do
  let block ← rd (addU64 dataStart sumIndex)
  failIf (crc32cData (toList block) ≠ cbSum sums sumIndex) .EILSEQ

/-- The checksum-chain loop over one extent: the blocks of the chain, in order. -/
def csumWalk (blocks pstart len validated csumBlock : Nat) : Except Fail (List Nat) :=
  if validated < len then do
    let sums ← readChecksumBlock rd csumBlock
    if cbEntries sums = 0 ∨ cbEntries sums > checksumsPerBlock ∨
        cbEntries sums > len - validated then .error (.check .EINVAL)
    else do
      forEach (checkSum rd sums (addU64 pstart validated)) (List.range (cbEntries sums))
      if validated + cbEntries sums < len then do
        failIf (cbNext sums < dataStartBlock ∨ cbNext sums ≥ blocks) .EINVAL
        let rest ← csumWalk blocks pstart len (validated + cbEntries sums) (cbNext sums)
        .ok (csumBlock :: rest)
      else do
        failIf (cbNext sums ≠ 0) .EINVAL
        .ok [csumBlock]
  else .ok []
termination_by len - validated

/-- One extent: the intervals it appends to `used`. -/
def checkExtent (blocks logicalCursor : Nat) (e : Extent) : Except Fail (List Interval) := do
  failIf (eLen e = 0 ∨ eLstart e ≠ logicalCursor ∨ ePstart e < dataStartBlock ∨
    addU64 (ePstart e) (eLen e) > blocks ∨ eCsumStart e < dataStartBlock ∨
    eCsumStart e ≥ blocks) .EINVAL
  let chain ← csumWalk rd blocks (ePstart e) (eLen e) 0 (eCsumStart e)
  .ok (⟨ePstart e, eLen e⟩ :: chain.map fun c => ⟨c, 1⟩)

/-- The extent loop.  `logical_cursor` and `file_blocks` are one sum. -/
def walkExtents (blocks : Nat) : List Extent → Nat → Except Fail (Nat × List Interval)
  | [], cursor => .ok (cursor, [])
  | e :: es, cursor => do
    let used ← checkExtent rd blocks cursor e
    let (total, rest) ← walkExtents blocks es (addU64 cursor (eLen e))
    .ok (total, used ++ rest)

/-- The size of a file must end in its last block. -/
def badSize (fileBlocks size : Nat) : Prop :=
  (fileBlocks = 0 ∧ size ≠ 0) ∨ (fileBlocks ≠ 0 ∧ (size > mulU64 fileBlocks defBlockSize ∨
    size ≤ mulU64 (fileBlocks - 1) defBlockSize))

instance (fileBlocks size : Nat) : Decidable (badSize fileBlocks size) :=
  inferInstanceAs (Decidable (_ ∨ _))

/-- The checks on one regular file: its block count and what it appends to `used`. -/
def checkFile (blocks : Nat) (inode : Inode) : Except Fail (Nat × List Interval) := do
  failIf (iExtentRoot inode < dataStartBlock ∨ iExtentRoot inode ≥ blocks) .EINVAL
  let node ← readExtentNode rd (iExtentRoot inode)
  failIf (enNext node ≠ 0) .EOPNOTSUPP
  let (fileBlocks, used) ← walkExtents rd blocks (enExtents node) 0
  failIf (fileBlocks ≠ iBlocks inode) .EINVAL
  failIf (badSize fileBlocks (iSize inode)) .EINVAL
  .ok (fileBlocks, ⟨iExtentRoot inode, 1⟩ :: used)

/-! ## 3. Inodes -/

/-- What one inode adds to the accumulators of the inode loop. -/
structure Tally where
  used : List Interval
  files : Nat
  directories : Nat
  dataBlocks : Nat

def Tally.none : Tally := ⟨[], 0, 0, 0⟩

def Tally.add (a b : Tally) : Tally where
  used := a.used ++ b.used
  files := a.files + b.files
  directories := a.directories + b.directories
  dataBlocks := addU64 a.dataBlocks b.dataBlocks

/-- One turn of the inode loop. -/
def checkInode (img : Image δ) (refs : List Nat) (index : Nat) : Except Fail Tally :=
  let inode := img.inodeTable index
  if imageBitmapTest img.inodeBitmap index = false then do
    failIf (iMode inode ≠ 0) .EINVAL
    .ok .none
  else do
    failIf (iMode inode = 0) .EINVAL
    failIf (iChecksum inode ≠ inodeChecksum inode) .EILSEQ
    if sIsDir (iMode inode) then do
      failIf (index ≠ 0 ∨ iExtentRoot inode ≠ crRootDirBlock img.checkpointRoot) .EINVAL
      .ok { Tally.none with directories := 1 }
    else do
      failIf (¬ sIsReg (iMode inode) ∨ index ∉ refs) .EINVAL
      let (fileBlocks, used) ← checkFile rd img.blocks inode
      .ok { used := used, files := 1, directories := 0, dataBlocks := fileBlocks }

/-- Of the image, the turn reads the table, the bitmap, the size and one address. -/
theorem checkInode_congr {img img' : Image δ} {index : Nat}
    (ht : img'.inodeTable index = img.inodeTable index)
    (hm : img'.inodeBitmap = img.inodeBitmap) (hb : img'.blocks = img.blocks)
    (hr : crRootDirBlock img'.checkpointRoot = crRootDirBlock img.checkpointRoot)
    (refs : List Nat) : checkInode rd img' refs index = checkInode rd img refs index := by
  unfold checkInode
  rw [ht, hm, hb, hr]

/-- The inode loop. -/
def walkInodes (img : Image δ) (refs : List Nat) : Except Fail Tally :=
  (List.range maxInodes).foldlM
    (fun acc index => (checkInode rd img refs index).map acc.add) .none

end Reader

/-! ## 4. Free space, coverage, report -/

/-- The loop over the free extents: they come in ascending order. -/
def walkFree (blocks : Nat) : List Extent → Nat → Except Fail (List Interval)
  | [], _ => .ok []
  | e :: es, lastEnd => do
    failIf (eLen e = 0 ∨ ePstart e < lastEnd ∨ addU64 (ePstart e) (eLen e) > blocks) .EINVAL
    let rest ← walkFree blocks es (addU64 (ePstart e) (eLen e))
    .ok (⟨ePstart e, eLen e⟩ :: rest)

def checkFree (img : Image δ) : Except Fail (List Interval) := do
  failIf (enNext img.freeExtents ≠ 0 ∨ enCount img.freeExtents > extentLogMax) .EINVAL
  walkFree img.blocks (enExtents img.freeExtents) dataStartBlock

/-- `struct aetherfs_scrub_report`. -/
structure ScrubReport where
  files : Nat
  directories : Nat
  inodesUsed : Nat
  dataBlocks : Nat
  freeBlocks : Nat
deriving DecidableEq, Repr

variable [BlockDev δ]

/-- `aetherfs_image_validate`. -/
def imageValidate (img : Image δ) : Except Fail ScrubReport := do
  failIf (ilOutstanding img.journal ≠ 0) .EUCLEAN
  failIf (imageBitmapTest img.inodeBitmap 0 = false) .EINVAL
  let refs ← imageValidateRootDir img
  let tally ← walkInodes (imageReadBlock img) img refs
  let free ← checkFree img
  let used := sortIntervals (⟨crRootDirBlock img.checkpointRoot, 1⟩ :: tally.used)
  let coverage := sortIntervals (free ++ used.filter fun iv => dataStartBlock ≤ iv.start)
  failIf (sweep (2 ^ 64) dataStartBlock coverage ≠ some img.blocks) .EINVAL
  failIf (sFreeBlocks img.super ≠ totalLen free % 2 ^ 64) .EINVAL
  validatePoolRedundancy img used
  .ok { files := tally.files, directories := tally.directories,
        inodesUsed := bbSetBits img.inodeBitmap, dataBlocks := tally.dataBlocks,
        freeBlocks := totalLen free % 2 ^ 64 }

end Validate

/-! ## 5. What each success means -/

section Success

variable {rd : Nat → Except Fail Block}

theorem readExtentNode_iff {b : Nat} {node : ExtentNode} : readExtentNode rd b = .ok node ↔
    rd b = .ok node ∧ enChecksum node = extentNodeChecksum node ∧ enCount node ≤ 102 := by
  simp only [readExtentNode, bind_eq_ok, failIf_eq_ok, not_not, extentLogMax, Nat.not_lt]
  constructor
  · rintro ⟨x, hx, _, h1, _, h2, h⟩
    obtain rfl := Except.ok.inj h
    exact ⟨hx, h1, h2⟩
  · rintro ⟨hx, h1, h2⟩
    exact ⟨node, hx, (), h1, (), h2, rfl⟩

theorem readChecksumBlock_iff {b : Nat} {sums : ChecksumBlock} :
    readChecksumBlock rd b = .ok sums ↔ rd b = .ok sums ∧
      cbChecksum sums = checksumBlockChecksum sums ∧ cbEntries sums ≤ 1020 := by
  simp only [readChecksumBlock, bind_eq_ok, failIf_eq_ok, not_not, checksumsPerBlock, Nat.not_lt]
  constructor
  · rintro ⟨x, hx, _, h1, _, h2, h⟩
    obtain rfl := Except.ok.inj h
    exact ⟨hx, h1, h2⟩
  · rintro ⟨hx, h1, h2⟩
    exact ⟨sums, hx, (), h1, (), h2, rfl⟩

theorem checkSum_iff {sums : ChecksumBlock} {start i : Nat} : checkSum rd sums start i = .ok () ↔
    ∃ block, rd (addU64 start i) = .ok block ∧ crc32cData (toList block) = cbSum sums i := by
  simp only [checkSum, bind_eq_ok, failIf_eq_ok, not_not]

/-- **One checksum block of a chain.**  `n` data blocks are still to be verified when the walk
arrives at `c`. -/
structure LinkOk (rd : Nat → Except Fail Block) (start n c : Nat) (sums : ChecksumBlock) : Prop where
  read : rd c = .ok sums
  sealed : cbChecksum sums = checksumBlockChecksum sums
  entries_pos : 0 < cbEntries sums
  entries_le : cbEntries sums ≤ 1020
  entries_fit : cbEntries sums ≤ n
  sums_match : ∀ i, i < cbEntries sums → ∃ block, rd (addU64 start i) = .ok block ∧
    crc32cData (toList block) = cbSum sums i

theorem csumWalk_iff {blocks pstart len validated c : Nat} {chain : List Nat}
    (hv : validated < len) : csumWalk rd blocks pstart len validated c = .ok chain ↔
      ∃ sums, LinkOk rd (addU64 pstart validated) (len - validated) c sums ∧
        ((validated + cbEntries sums < len ∧ 8 ≤ cbNext sums ∧ cbNext sums < blocks ∧
            ∃ rest, csumWalk rd blocks pstart len (validated + cbEntries sums) (cbNext sums)
              = .ok rest ∧ chain = c :: rest) ∨
          (validated + cbEntries sums = len ∧ cbNext sums = 0 ∧ chain = [c])) := by
  rw [csumWalk, if_pos hv, bind_eq_ok]
  refine exists_congr fun sums => ?_
  rw [readChecksumBlock_iff]
  constructor
  · rintro ⟨⟨hread, hseal, h1020⟩, h⟩
    split at h
    · exact absurd h (by simp)
    · rename_i hentries
      simp only [checksumsPerBlock, not_or, Nat.not_lt] at hentries
      obtain ⟨_, hsums, h⟩ := bind_eq_ok.mp h
      refine ⟨⟨hread, hseal, by omega, h1020, by omega, fun i hi =>
        checkSum_iff.mp (forEach_eq_ok.mp hsums i (List.mem_range.mpr hi))⟩, ?_⟩
      split at h
      · rename_i hlt
        obtain ⟨hnext, h⟩ := failIf_bind_ok.mp h
        obtain ⟨rest, hrest, h⟩ := bind_eq_ok.mp h
        simp only [dataStartBlock, not_or, Nat.not_lt, ge_iff_le, Nat.not_le] at hnext
        exact Or.inl ⟨hlt, hnext.1, hnext.2, rest, hrest, (Except.ok.inj h).symm⟩
      · rename_i hge
        obtain ⟨hnext, h⟩ := failIf_bind_ok.mp h
        exact Or.inr ⟨by omega, not_not.mp hnext, (Except.ok.inj h).symm⟩
  · rintro ⟨hlink, htail⟩
    refine ⟨⟨hlink.read, hlink.sealed, hlink.entries_le⟩, ?_⟩
    have h1 := hlink.entries_pos
    have h2 := hlink.entries_le
    have h3 := hlink.entries_fit
    rw [if_neg (by simp only [checksumsPerBlock]; omega)]
    refine bind_eq_ok.mpr ⟨(), forEach_eq_ok.mpr fun i hi => checkSum_iff.mpr
      (hlink.sums_match i (List.mem_range.mp hi)), ?_⟩
    rcases htail with ⟨hlt, h8, hb, rest, hrest, rfl⟩ | ⟨heq, h0, rfl⟩
    · rw [if_pos hlt]
      exact failIf_bind_ok.mpr ⟨by simp only [dataStartBlock]; omega,
        bind_eq_ok.mpr ⟨rest, hrest, rfl⟩⟩
    · rw [if_neg (by omega)]
      exact failIf_bind_ok.mpr ⟨not_not.mpr h0, rfl⟩

/-- The bounds an extent of a file is held to; the end is computed in 64 bits. -/
structure ExtentOk (blocks cursor : Nat) (e : Extent) : Prop where
  len_pos : 0 < eLen e
  lstart : eLstart e = cursor
  pstart_ge : 8 ≤ ePstart e
  end_le : addU64 (ePstart e) (eLen e) ≤ blocks
  csum_ge : 8 ≤ eCsumStart e
  csum_lt : eCsumStart e < blocks

theorem checkExtent_iff {blocks cursor : Nat} {e : Extent} {used : List Interval} :
    checkExtent rd blocks cursor e = .ok used ↔ ExtentOk blocks cursor e ∧
      ∃ chain, csumWalk rd blocks (ePstart e) (eLen e) 0 (eCsumStart e) = .ok chain ∧
        used = ⟨ePstart e, eLen e⟩ :: chain.map fun c => ⟨c, 1⟩ := by
  rw [checkExtent, failIf_bind_ok, bind_eq_ok]
  simp only [dataStartBlock, not_or, not_not, Nat.not_lt, ge_iff_le, Nat.not_le, gt_iff_lt]
  constructor
  · rintro ⟨⟨h1, h2, h3, h4, h5, h6⟩, chain, hchain, h⟩
    exact ⟨⟨by omega, h2, h3, h4, h5, h6⟩, chain, hchain, (Except.ok.inj h).symm⟩
  · rintro ⟨⟨h1, h2, h3, h4, h5, h6⟩, chain, hchain, rfl⟩
    exact ⟨⟨by omega, h2, h3, h4, h5, h6⟩, chain, hchain, rfl⟩

theorem walkExtents_cons_iff {blocks cursor : Nat} {e : Extent} {es : List Extent} {total : Nat}
    {used : List Interval} : walkExtents rd blocks (e :: es) cursor = .ok (total, used) ↔
      ∃ first rest, checkExtent rd blocks cursor e = .ok first ∧
        walkExtents rd blocks es (addU64 cursor (eLen e)) = .ok (total, rest) ∧
        used = first ++ rest := by
  rw [walkExtents, bind_eq_ok]
  constructor
  · rintro ⟨first, hfirst, h⟩
    obtain ⟨⟨total', rest⟩, hrest, h⟩ := bind_eq_ok.mp h
    obtain ⟨rfl, rfl⟩ := Prod.mk.inj (Except.ok.inj h)
    exact ⟨first, rest, hfirst, hrest, rfl⟩
  · rintro ⟨first, rest, hfirst, hrest, rfl⟩
    exact ⟨first, hfirst, bind_eq_ok.mpr ⟨(total, rest), hrest, rfl⟩⟩

theorem checkFile_iff {blocks fileBlocks : Nat} {inode : Inode} {used : List Interval} :
    checkFile rd blocks inode = .ok (fileBlocks, used) ↔
      8 ≤ iExtentRoot inode ∧ iExtentRoot inode < blocks ∧ ∃ node rest,
        readExtentNode rd (iExtentRoot inode) = .ok node ∧ enNext node = 0 ∧
        walkExtents rd blocks (enExtents node) 0 = .ok (fileBlocks, rest) ∧
        fileBlocks = iBlocks inode ∧ ¬ badSize fileBlocks (iSize inode) ∧
        used = ⟨iExtentRoot inode, 1⟩ :: rest := by
  rw [checkFile, failIf_bind_ok, bind_eq_ok]
  simp only [dataStartBlock, not_or, Nat.not_lt, ge_iff_le, Nat.not_le]
  constructor
  · rintro ⟨⟨h1, h2⟩, node, hnode, h⟩
    obtain ⟨hnext, h⟩ := failIf_bind_ok.mp h
    obtain ⟨⟨total, rest⟩, hrest, h⟩ := bind_eq_ok.mp h
    obtain ⟨hblocks, h⟩ := failIf_bind_ok.mp h
    obtain ⟨hsize, h⟩ := failIf_bind_ok.mp h
    obtain ⟨rfl, rfl⟩ := Prod.mk.inj (Except.ok.inj h)
    exact ⟨h1, h2, node, rest, hnode, not_not.mp hnext, hrest, not_not.mp hblocks, hsize, rfl⟩
  · rintro ⟨h1, h2, node, rest, hnode, hnext, hrest, hblocks, hsize, rfl⟩
    exact ⟨⟨h1, h2⟩, node, hnode, failIf_bind_ok.mpr ⟨not_not.mpr hnext, bind_eq_ok.mpr
      ⟨_, hrest, failIf_bind_ok.mpr ⟨not_not.mpr hblocks, failIf_bind_ok.mpr ⟨hsize, rfl⟩⟩⟩⟩⟩

section Inodes

variable {δ : Type} {img : Image δ} {refs : List Nat}

/-- **The three inodes that pass**: a free one, the root directory, a regular file. -/
theorem checkInode_iff {index : Nat} {t : Tally} : checkInode rd img refs index = .ok t ↔
    (imageBitmapTest img.inodeBitmap index = false ∧ iMode (img.inodeTable index) = 0 ∧
      t = .none) ∨
    (imageBitmapTest img.inodeBitmap index = true ∧
      iChecksum (img.inodeTable index) = inodeChecksum (img.inodeTable index) ∧
      ((sIsDir (iMode (img.inodeTable index)) ∧ index = 0 ∧
          iExtentRoot (img.inodeTable index) = crRootDirBlock img.checkpointRoot ∧
          t = { Tally.none with directories := 1 }) ∨
        (sIsReg (iMode (img.inodeTable index)) ∧ index ∈ refs ∧
          ∃ fileBlocks used, checkFile rd img.blocks (img.inodeTable index)
            = .ok (fileBlocks, used) ∧ t = ⟨used, 1, 0, fileBlocks⟩))) := by
  have hdir : ¬ sIsDir 0 := by decide
  have hreg : ¬ sIsReg 0 := by decide
  rw [checkInode]
  simp only
  cases hbit : imageBitmapTest img.inodeBitmap index with
  | false =>
    rw [if_pos rfl, failIf_bind_ok]
    simp only [not_not, Except.ok.injEq, true_and, Bool.false_eq_true, false_and, or_false, eq_comm]
  | true =>
    rw [if_neg (by simp), failIf_bind_ok, failIf_bind_ok]
    simp only [Bool.true_eq_false, false_and, false_or, true_and, not_not]
    constructor
    · rintro ⟨hmode, hsum, h⟩
      refine ⟨hsum, ?_⟩
      split at h
      · rename_i hd
        obtain ⟨hroot, h⟩ := failIf_bind_ok.mp h
        simp only [not_or, not_not] at hroot
        exact Or.inl ⟨hd, hroot.1, hroot.2, (Except.ok.inj h).symm⟩
      · obtain ⟨href, h⟩ := failIf_bind_ok.mp h
        simp only [not_or, not_not] at href
        obtain ⟨⟨fb, used⟩, hfile, h⟩ := bind_eq_ok.mp h
        exact Or.inr ⟨href.1, href.2, fb, used, hfile, (Except.ok.inj h).symm⟩
    · rintro ⟨hsum, ⟨hd, h0, hroot, rfl⟩ | ⟨hr, href, fb, used, hfile, rfl⟩⟩
      · refine ⟨fun h => hdir (h ▸ hd), hsum, ?_⟩
        rw [if_pos hd]
        exact failIf_bind_ok.mpr ⟨not_or.mpr ⟨not_not.mpr h0, not_not.mpr hroot⟩, rfl⟩
      · refine ⟨fun h => hreg (h ▸ hr), hsum, ?_⟩
        rw [if_neg hr.not_dir]
        exact failIf_bind_ok.mpr ⟨not_or.mpr ⟨not_not.mpr hr, not_not.mpr href⟩,
          bind_eq_ok.mpr ⟨_, hfile, rfl⟩⟩

theorem walkInodes_iff {tally : Tally} : walkInodes rd img refs = .ok tally ↔
    ∃ ts, List.Forall₂ (fun i t => checkInode rd img refs i = .ok t) (List.range maxInodes) ts ∧
      tally = ts.foldl Tally.add .none := by
  rw [walkInodes, foldlM_accumulate]
  constructor
  · intro h
    cases hts : (List.range maxInodes).mapM (checkInode rd img refs) with
    | error e => rw [hts] at h; exact absurd h (by simp [Except.map])
    | ok ts =>
      rw [hts] at h
      exact ⟨ts, mapM_eq_ok.mp hts, (Except.ok.inj h).symm⟩
  · rintro ⟨ts, hts, rfl⟩
    rw [mapM_eq_ok.mpr hts]
    rfl

theorem walkFree_cons_iff {blocks lastEnd : Nat} {e : Extent} {es : List Extent}
    {free : List Interval} : walkFree blocks (e :: es) lastEnd = .ok free ↔
      0 < eLen e ∧ lastEnd ≤ ePstart e ∧ addU64 (ePstart e) (eLen e) ≤ blocks ∧
        ∃ rest, walkFree blocks es (addU64 (ePstart e) (eLen e)) = .ok rest ∧
          free = ⟨ePstart e, eLen e⟩ :: rest := by
  rw [walkFree, failIf_bind_ok, bind_eq_ok]
  simp only [not_or, Nat.not_lt, gt_iff_lt]
  constructor
  · rintro ⟨⟨h1, h2, h3⟩, rest, hrest, h⟩
    exact ⟨by omega, h2, h3, rest, hrest, (Except.ok.inj h).symm⟩
  · rintro ⟨h1, h2, h3, rest, hrest, rfl⟩
    exact ⟨⟨by omega, h2, h3⟩, rest, hrest, rfl⟩

theorem checkFree_iff {free : List Interval} : checkFree img = .ok free ↔
    enNext img.freeExtents = 0 ∧ enCount img.freeExtents ≤ 102 ∧
      walkFree img.blocks (enExtents img.freeExtents) 8 = .ok free := by
  rw [checkFree, failIf_bind_ok]
  simp only [not_or, not_not, Nat.not_lt, extentLogMax, and_assoc, gt_iff_lt]

theorem imageValidateRootDir_iff : imageValidateRootDir img = .ok refs ↔
    dirWalk (dirMemory img) 0 ⟨[], false, false⟩ = .ok ⟨refs, true, true⟩ := by
  rw [imageValidateRootDir, bind_eq_ok]
  constructor
  · rintro ⟨⟨r, d, dd⟩, hs, h⟩
    obtain ⟨⟨rfl, rfl⟩, h⟩ := (failIf_bind_ok.mp h).imp_left not_not.mp
    rw [hs, show r = refs from Except.ok.inj h]
  · intro h
    exact ⟨_, h, failIf_bind_ok.mpr ⟨by simp, rfl⟩⟩

end Inodes

section Whole

variable {δ : Type} [BlockDev δ] {img : Image δ} {rep : ScrubReport}

/-- The intervals the sweep is run over, before sorting. -/
def coverageOf (root : Nat) (free used : List Interval) : List Interval :=
  free ++ (sortIntervals (⟨root, 1⟩ :: used)).filter fun iv => dataStartBlock ≤ iv.start

/-- The root directory's own block lies in front of the swept region; the others are all swept. -/
theorem coverageOf_perm {root : Nat} {free used : List Interval} (hroot : root < 8)
    (hused : ∀ iv ∈ used, 8 ≤ iv.start) : (coverageOf root free used).Perm (free ++ used) := by
  have hp := (sortIntervals_perm (⟨root, 1⟩ :: used)).filter
    fun iv => decide (dataStartBlock ≤ iv.start)
  have hself : used.filter (fun iv => decide (dataStartBlock ≤ iv.start)) = used :=
    List.filter_eq_self.mpr fun iv hiv => decide_eq_true (hused iv hiv)
  rw [List.filter_cons_of_neg (by simp only [dataStartBlock, decide_eq_true_eq]; omega),
    hself] at hp
  exact hp.append_left free

/-- Intervals that tile the region, in any order, are accepted. -/
theorem coverage_accepted {root blocks : Nat} {free used tiles : List Interval} (hroot : root < 8)
    (ht : Tiles 8 blocks tiles) (hp : (free ++ used).Perm tiles) (hb : blocks < 2 ^ 64) :
    sweep (2 ^ 64) 8 (sortIntervals (coverageOf root free used)) = some blocks := by
  refine sweep_sort_of_perm hb ht ((coverageOf_perm hroot fun iv hiv => ?_).trans hp)
  exact (ht.within iv (hp.mem_iff.mp (List.mem_append_right _ hiv))).1

/-- **What a successful scrub has established.** -/
structure Scrubbed (img : Image δ) (refs : List Nat) (ts : List Tally) (free : List Interval) :
    Prop where
  clean : ilOutstanding img.journal = 0
  rootBit : imageBitmapTest img.inodeBitmap 0 = true
  dir : dirWalk (dirMemory img) 0 ⟨[], false, false⟩ = .ok ⟨refs, true, true⟩
  inodes : List.Forall₂ (fun i t => checkInode (imageReadBlock img) img refs i = .ok t)
    (List.range maxInodes) ts
  freeList : checkFree img = .ok free
  covered : sweep (2 ^ 64) 8 (sortIntervals
    (coverageOf (crRootDirBlock img.checkpointRoot) free (ts.flatMap Tally.used)))
      = some img.blocks
  freeCount : sFreeBlocks img.super = totalLen free % 2 ^ 64
  redundant : validatePoolRedundancy img
    (sortIntervals (⟨crRootDirBlock img.checkpointRoot, 1⟩ :: ts.flatMap Tally.used)) = .ok ()

/-- The report of a scrub. -/
def reportOf (img : Image δ) (ts : List Tally) (free : List Interval) : ScrubReport where
  files := (ts.map Tally.files).sum
  directories := (ts.map Tally.directories).sum
  inodesUsed := bbSetBits img.inodeBitmap
  dataBlocks := (ts.map Tally.dataBlocks).sum % 2 ^ 64
  freeBlocks := totalLen free % 2 ^ 64

omit [BlockDev δ] in
theorem foldl_add_tally : ∀ (ts : List Tally) (acc : Tally), acc.dataBlocks < 2 ^ 64 →
    ts.foldl Tally.add acc = ⟨acc.used ++ ts.flatMap Tally.used,
      acc.files + (ts.map Tally.files).sum, acc.directories + (ts.map Tally.directories).sum,
      (acc.dataBlocks + (ts.map Tally.dataBlocks).sum) % 2 ^ 64⟩
  | [], ⟨used, files, dirs, data⟩, h => by
    simp [Nat.mod_eq_of_lt (show data < 18446744073709551616 from h)]
  | t :: ts, acc, h => by
    rw [List.foldl_cons, foldl_add_tally ts _ (Nat.mod_lt _ (by norm_num))]
    simp only [Tally.add, List.flatMap_cons, List.map_cons, List.sum_cons, List.append_assoc,
      Nat.add_assoc, addU64, Tally.mk.injEq, true_and]
    omega

theorem imageValidate_iff : imageValidate img = .ok rep ↔
    ∃ refs ts free, Scrubbed img refs ts free ∧ rep = reportOf img ts free := by
  rw [imageValidate, failIf_bind_ok, failIf_bind_ok, bind_eq_ok]
  constructor
  · rintro ⟨hclean, hbit, refs, hdir, h⟩
    obtain ⟨tally, htally, h⟩ := bind_eq_ok.mp h
    obtain ⟨free, hfree, h⟩ := bind_eq_ok.mp h
    obtain ⟨hsweep, h⟩ := failIf_bind_ok.mp h
    obtain ⟨hcount, h⟩ := failIf_bind_ok.mp h
    obtain ⟨_, hred, h⟩ := bind_eq_ok.mp h
    obtain ⟨ts, hts, rfl⟩ := walkInodes_iff.mp htally
    rw [foldl_add_tally ts .none (by norm_num [Tally.none])] at hsweep hred h
    simp only [Tally.none, List.nil_append, Nat.zero_add] at hsweep hred h
    exact ⟨refs, ts, free, ⟨not_not.mp hclean, by simpa using hbit,
      imageValidateRootDir_iff.mp hdir, hts, hfree, not_not.mp hsweep, not_not.mp hcount, hred⟩,
      (Except.ok.inj h).symm⟩
  · rintro ⟨refs, ts, free, h, rfl⟩
    refine ⟨not_not.mpr h.clean, by simp [h.rootBit], refs, imageValidateRootDir_iff.mpr h.dir,
      bind_eq_ok.mpr ⟨_, walkInodes_iff.mpr ⟨ts, h.inodes, rfl⟩, bind_eq_ok.mpr
        ⟨free, h.freeList, ?_⟩⟩⟩
    rw [foldl_add_tally ts .none (by norm_num [Tally.none])]
    simp only [Tally.none, List.nil_append, Nat.zero_add]
    exact failIf_bind_ok.mpr ⟨not_not.mpr h.covered, failIf_bind_ok.mpr
      ⟨not_not.mpr h.freeCount, bind_eq_ok.mpr ⟨(), h.redundant, rfl⟩⟩⟩

end Whole

end Success

end AetherFs
