/-
# `mkfs`

`aetherfs_run_mkfs` on an open file: size the target, write the eight bootstrap blocks, read
each of them back through a validator of its own.  The file is the state of the run, and a run
that fails leaves it as it then is.

On a regular file the writes cannot fail, so everything a run does to the file is in
`writeBootstrap_ends`, and `mkfsValidate_ok` shows that the seven validators of `mkfs.c` accept
what was written.  The image loader and `scrub` are a second, independent description of the
same format; the last theorem is that the two agree.  Where the file has the length that was
asked for, what `mkfs` accepts is opened, loaded and scrubbed clean.
-/
import AetherFs.Mkfs.Init

namespace AetherFs

open Lib

/-! ## 1. The target -/

/-- `if (p) return -e;` in a run that writes. -/
def refuseIf {σ : Type} (p : Prop) [Decidable p] (e : Errno) : EStateM Fail σ Unit :=
  liftRead fun _ => failIf p e

/-- `aetherfs_write_all` of one block. -/
def putBlock (block : Nat) (buf : Block) : EStateM Fail ByteFile Unit := fun f =>
  match BlockDev.write f block buf with
  | (.ok _, f') => .ok () f'
  | (.error e, f') => .error e f'

/-- `aetherfs_probe_magic`: a file too short to hold a superblock has none. -/
def probeMagic (f : ByteFile) : Except Fail Bool :=
  match BlockDev.read f superblockBlock with
  | .ok block => .ok (sMagic (slice block 0 256) = aetherfsMagic)
  | .error (.check .EIOERR) => .ok false
  | .error (.sys .EIOERR) => .ok false
  | .error e => .error e

/-- How many blocks to format: the number asked for, to which a regular file is then cut, or as
many as there are. -/
def sizeTarget (options : MkfsOptions) : EStateM Fail ByteFile Nat := fun f =>
  if options.blocks > 0 then
    if f.kind = .regular then
      if h : mulU64 options.blocks options.blockSize < 2 ^ 63 then
        .ok options.blocks (f.truncate (mulU64 options.blocks options.blockSize) h)
      else .error (.sys .EINVAL) f
    else .ok options.blocks f
  else if f.kind = .blockDevice then .ok (f.size / options.blockSize) f
  else if f.size > 0 then
    if f.size % options.blockSize ≠ 0 then .error (.check .EINVAL) f
    else .ok (f.size / options.blockSize) f
  else .error (.check .EINVAL) f

/-- What is looked at before anything is written: the kind of the file, and whether a file that
was there before holds a file system already. -/
def inspectTarget (options : MkfsOptions) (env : MkfsEnv) (f : ByteFile) : Except Fail Unit := do
  failIf (f.kind = .other) .EINVAL
  if env.existed then do
    let hasMagic ← probeMagic f
    failIf (hasMagic = true ∧ options.force = false) .EEXIST
  else .ok ()

/-- `aetherfs_prepare_target`. -/
def prepareTarget (options : MkfsOptions) (env : MkfsEnv) : EStateM Fail ByteFile Nat := do
  liftRead (inspectTarget options env)
  let blocks ← sizeTarget options
  refuseIf (blocks < bootstrapBlocks) .ENOSPC
  pure blocks

/-! ## 2. Writing -/

/-- What ends up in the eight bootstrap blocks. -/
def bootBlocks (options : MkfsOptions) (env : MkfsEnv) (blocks : Nat) (uuid : Bytes 16) :
    Nat → Block
  | 1 => overlay (zeros 4096) 0 (bootstrapSuper options blocks uuid)
  | 2 => overlay (zeros 4096) 0 (initRootInode env)
  | 3 => initRootDir
  | 4 => overlay (zeros 4096) 0 initJournal
  | 5 => initInodeBitmap
  | 6 => initFreeExtents blocks
  | 7 => initCheckpointRoot (bootstrapSuper options blocks uuid) blocks
  | _ => zeros 4096

/-- `aetherfs_write_bootstrap`. -/
def writeBootstrap (options : MkfsOptions) (env : MkfsEnv) (blocks : Nat) :
    EStateM Fail ByteFile Unit := do
  (List.range bootstrapBlocks).foldlM (fun _ reserved => putBlock reserved (zeros 4096)) ()
  let uuid ← liftRead fun _ => env.urandom
  let super := bootstrapSuper options blocks uuid
  putBlock superblockBlock (overlay (zeros 4096) 0 super)
  putBlock rootInodeBlock (overlay (zeros 4096) 0 (initRootInode env))
  putBlock rootDirBlock initRootDir
  putBlock journalBlock (overlay (zeros 4096) 0 initJournal)
  putBlock inodeBitmapBlock initInodeBitmap
  putBlock freeExtentBlock (initFreeExtents blocks)
  putBlock checkpointRootBlock (initCheckpointRoot super blocks)

/-! ## 3. Reading back -/

section Validators

variable (f : ByteFile) (blocks : Nat)

/-- `aetherfs_validate_super`. -/
def validateSuper : Except Fail Unit := do
  let block ← BlockDev.read f superblockBlock
  let super : Super := slice block 0 256
  failIf (sMagic super ≠ aetherfsMagic) .EINVAL
  failIf (sVersion super ≠ aetherfsVersion) .EINVAL
  failIf (sBlocksize super ≠ defBlockSize) .EINVAL
  failIf (sBlocksCount super ≠ blocks) .EINVAL
  failIf (sFreeBlocks super ≠ subU64 blocks dataStartBlock) .EINVAL
  failIf (sCheckpoint0 super ≠ checkpointRootBlock) .EINVAL
  failIf (sInodesCount super ≠ maxInodes) .EINVAL
  failIf (sMetaTree super ≠ inodeBitmapBlock) .EINVAL
  failIf (sExtentTree super ≠ 0) .EINVAL
  failIf (sFreeTree super ≠ freeExtentBlock) .EINVAL
  failIf (sSnapTree super ≠ 0) .EINVAL
  failIf (sChecksum super ≠ superChecksum super) .EBADE

/-- `aetherfs_validate_root_inode`. -/
def validateRootInode : Except Fail Unit := do
  let block ← BlockDev.read f rootInodeBlock
  let inode : Inode := slice block 0 512
  failIf (iChecksum inode ≠ inodeChecksum inode) .EBADE
  failIf (iMode inode ≠ 0o040755) .EINVAL
  failIf (iExtentRoot inode ≠ rootDirBlock) .EINVAL

/-- `aetherfs_validate_root_dir`. -/
def validateRootDir : Except Fail Unit := do
  let block ← BlockDev.read f rootDirBlock
  let m := byteAt block
  failIf (dirIno m 0 ≠ rootIno) .EINVAL
  failIf (¬ isDot m 0) .EINVAL
  failIf (dirChecksum m 0 ≠ direntChecksum m 0) .EBADE
  let dotdot := dirRec m 0
  failIf (dirIno m dotdot ≠ rootIno) .EINVAL
  failIf (¬ isDotdot m dotdot) .EINVAL
  failIf (dirChecksum m dotdot ≠ direntChecksum m dotdot) .EBADE

/-- `aetherfs_validate_journal`. -/
def validateJournal : Except Fail Unit := do
  let block ← BlockDev.read f journalBlock
  let journal : IntentLog := slice block 0 48
  failIf (ilChecksum journal ≠ journalChecksum journal) .EBADE
  failIf (ilOutstanding journal ≠ 0) .EUCLEAN

/-- `aetherfs_validate_bitmap` of the inode bitmap. -/
def validateBitmap (expectedBits expectedSetBits : Nat) : Except Fail Unit := do
  let bitmap ← BlockDev.read f inodeBitmapBlock
  failIf (bbTotalBits bitmap ≠ expectedBits) .EINVAL
  failIf (bbSetBits bitmap ≠ imageBitmapCountSet bitmap) .EBADE
  failIf (imageBitmapCountSet bitmap ≠ expectedSetBits) .EINVAL
  failIf (bbChecksum bitmap ≠ bitmapChecksum bitmap) .EBADE

/-- The extent loop of `aetherfs_validate_free_extents`: the free blocks counted. -/
def countFree : List Extent → Nat → Nat → Except Fail Nat
  | [], _, freeBlocks => .ok freeBlocks
  | e :: es, lastEnd, freeBlocks => do
    failIf (eLen e = 0) .EINVAL
    failIf (ePstart e < dataStartBlock ∨ ePstart e < lastEnd) .EINVAL
    failIf (addU64 (ePstart e) (eLen e) > blocks) .EINVAL
    countFree es (addU64 (ePstart e) (eLen e)) (addU64 freeBlocks (eLen e))

/-- `aetherfs_validate_free_extents`. -/
def validateFreeExtents : Except Fail Unit := do
  let node ← BlockDev.read f freeExtentBlock
  failIf (enChecksum node ≠ extentNodeChecksum node) .EBADE
  failIf (enNext node ≠ 0) .EINVAL
  failIf (enCount node = 0 ∨ enCount node > extentLogMax) .EINVAL
  let freeBlocks ← countFree blocks (enExtents node) dataStartBlock 0
  failIf (freeBlocks ≠ subU64 blocks dataStartBlock) .EINVAL

/-- `aetherfs_validate_checkpoint_root`. -/
def validateCheckpointRoot : Except Fail Unit := do
  let root ← BlockDev.read f checkpointRootBlock
  failIf (crMagic root ≠ checkpointRootMagic) .EINVAL
  failIf (crVersion root ≠ checkpointRootVersion) .EINVAL
  failIf (crGeneration root ≠ 1) .EINVAL
  failIf (crAgCount root ≠ agCount blocks) .EINVAL
  failIf (crRegionCount root ≠ 2) .EINVAL
  failIf (crSuperBlock root ≠ superblockBlock) .EINVAL
  failIf (crRootInodeBlock root ≠ rootInodeBlock) .EINVAL
  failIf (crRootDirBlock root ≠ rootDirBlock) .EINVAL
  failIf (crJournalBlock root ≠ journalBlock) .EINVAL
  failIf (crInodeBitmapBlock root ≠ inodeBitmapBlock) .EINVAL
  failIf (crFreeSpaceRoot root ≠ freeExtentBlock) .EINVAL
  failIf (crMetadataTreeRoot root ≠ inodeBitmapBlock) .EINVAL
  failIf (crExtentTreeRoot root ≠ 0) .EINVAL
  failIf (crSnapshotRoot root ≠ 0) .EINVAL
  failIf (crMetadataRegionStart root ≠ superblockBlock) .EINVAL
  failIf (crMetadataRegionEnd root ≠ checkpointRootBlock) .EINVAL
  failIf (crDataRegionStart root ≠ dataStartBlock) .EINVAL
  failIf (crDataRegionEnd root ≠ blocks) .EINVAL
  failIf (crSpecialMetadataRoot root ≠ 0 ∨ crCacheRoot root ≠ 0 ∨ crParityRoot root ≠ 0) .EINVAL
  failIf (crChecksum root ≠ checkpointRootChecksum root) .EBADE

/-- The validators, in the order `aetherfs_run_mkfs` calls them. -/
def mkfsValidate : Except Fail Unit := do
  validateSuper f blocks
  validateRootInode f
  validateRootDir f
  validateJournal f
  validateBitmap f maxInodes 1
  validateFreeExtents f blocks
  validateCheckpointRoot f blocks

end Validators

/-- `aetherfs_run_mkfs` on the file the path names, empty if it was just created. -/
def runMkfs (options : MkfsOptions) (env : MkfsEnv) : EStateM Fail ByteFile Unit := do
  refuseIf (options.blockSize ≠ defBlockSize) .EOPNOTSUPP
  let blocks ← prepareTarget options env
  writeBootstrap options env blocks
  liftRead fun f => mkfsValidate f blocks

/-! ## 4. What a run does to a regular file -/

section Run

variable {options : MkfsOptions} {env : MkfsEnv} {f f' : ByteFile} {blocks : Nat}
  {uuid : Bytes 16}

/-- A regular file whose first eight blocks are `c`; `n` is its size once they are there. -/
structure Holding (n : Nat) (c : Nat → Block) (f : ByteFile) : Prop where
  kind : f.kind = .regular
  size : max f.size 32768 = n
  block : ∀ k, k < 8 → f.blockAt (k * 4096) = c k

theorem putBlock_of_write {k : Nat} {buf : Block}
    (h : f.writeAll (ByteFile.offsetOf k) buf = (.ok (), f')) : putBlock k buf f = .ok () f' := by
  unfold putBlock
  simp only [ByteFile.write_def, h]

theorem putBlock_ends {n k : Nat} {c : Nat → Block} (h : Holding n c f) (hk : k < 8)
    (buf : Block) : Ends (fun _ => False) (putBlock k buf f)
      (fun _ f' => Holding n (Function.update c k buf) f') := by
  have hoff : ByteFile.offsetOf k = k * 4096 := ByteFile.offsetOf_of_lt (by omega)
  obtain ⟨f', hw⟩ := ByteFile.writeAll_total h.kind (o := k * 4096) (by omega) buf
  have hwrote := ByteFile.writeAll_eq_ok hw
  rw [putBlock_of_write (hoff.symm ▸ hw)]
  refine Ends.ok (Holding.mk (hwrote.2.1.trans h.kind) ?_ fun j hj => ?_)
  · rw [hwrote.2.2.1, ← h.size]
    omega
  · by_cases hjk : j = k
    · rw [hjk, Function.update_self, ByteFile.blockAt_write_self hw]
    · rw [Function.update_of_ne hjk, ByteFile.blockAt_write_ne hw (by omega), h.block j hj]

theorem zeroBlocks_ends (hk : f.kind = .regular) : Ends (fun _ => False)
    ((List.range bootstrapBlocks).foldlM (fun _ reserved => putBlock reserved (zeros 4096)) () f)
    (fun _ f' => Holding (max f.size 32768) (fun _ => zeros 4096) f') := by
  generalize hn : max f.size 32768 = n
  -- what is not left to do is zero
  refine (Ends.foldlM (fun l _ g => ∃ c, Holding n c g ∧ (∀ k ∈ l, k < 8) ∧
    ∀ k, k < 8 → k ∉ l → c k = zeros 4096) ?_ ?_).mono ?_
  · rintro k l _ g ⟨c, hg, hl, hdone⟩
    refine (putBlock_ends hg (hl k List.mem_cons_self) (zeros 4096)).mono fun _ g' hg' =>
      ⟨_, hg', fun j hj => hl j (List.mem_cons_of_mem _ hj), fun j hj hjl => ?_⟩
    by_cases hjk : j = k
    · rw [hjk, Function.update_self]
    · rw [Function.update_of_ne hjk]
      exact hdone j hj (by simp [hjk, hjl])
  · exact ⟨_, Holding.mk hk hn fun _ _ => rfl, fun k hk => List.mem_range.mp hk,
      fun k hk hkl => absurd (List.mem_range.mpr hk) hkl⟩
  · rintro _ g ⟨c, hg, -, hdone⟩
    exact Holding.mk hg.kind hg.size fun k hk =>
      (hg.block k hk).trans (hdone k hk List.not_mem_nil)

/-- **The eight blocks are written**, and nothing can stop it. -/
theorem writeBootstrap_ends (options : MkfsOptions) (blocks : Nat) (hk : f.kind = .regular)
    (hu : env.urandom = .ok uuid) :
    Ends (fun _ => False) (writeBootstrap options env blocks f)
      (fun _ f' => Holding (max f.size 32768) (bootBlocks options env blocks uuid) f') := by
  refine (zeroBlocks_ends hk).bind fun _ g0 h0 => ?_
  refine (Ends.liftRead (x := fun _ => env.urandom) (s := g0) hu ⟨rfl, rfl⟩).bind
    (Q := fun u g => u = uuid ∧ g = g0) fun u g hug => ?_
  obtain ⟨rfl, rfl⟩ := hug
  refine (putBlock_ends h0 (k := 1) (by norm_num) _).bind fun _ g1 h1 => ?_
  refine (putBlock_ends h1 (k := 2) (by norm_num) _).bind fun _ g2 h2 => ?_
  refine (putBlock_ends h2 (k := 3) (by norm_num) _).bind fun _ g3 h3 => ?_
  refine (putBlock_ends h3 (k := 4) (by norm_num) _).bind fun _ g4 h4 => ?_
  refine (putBlock_ends h4 (k := 5) (by norm_num) _).bind fun _ g5 h5 => ?_
  refine (putBlock_ends h5 (k := 6) (by norm_num) _).bind fun _ g6 h6 => ?_
  refine (putBlock_ends h6 (k := 7) (by norm_num) _).mono fun _ g7 h7 => ?_
  refine ⟨h7.kind, h7.size, fun k hk => (h7.block k hk).trans ?_⟩
  interval_cases k <;> rfl

/-- **What was written is what the validators want**, provided there is a data block. -/
theorem mkfsValidate_ok {n : Nat} (h : Holding n (bootBlocks options env blocks uuid) f)
    (hlong : 32768 ≤ f.size) (hsize : options.blockSize = 4096) (h9 : 9 ≤ blocks)
    (hb : blocks < 2 ^ 64) : mkfsValidate f blocks = .ok () := by
  have hread : ∀ {k}, k < 8 →
      BlockDev.read f k = .ok (bootBlocks options env blocks uuid k) := fun {k} hk => by
    rw [ByteFile.read_def, ByteFile.offsetOf_of_lt (by omega), ← h.block k hk]
    exact ByteFile.readAll_eq_ok.mpr ⟨by omega, rfl⟩
  obtain ⟨s1, s2, s3, s4, s5, s6, -, s8, s9, s10, s11, s12, s13, s14, s15, s16, -, -⟩ :=
    bootstrapSuper_fields options uuid hsize hb
  have hsuper : validateSuper f blocks = .ok () := by
    unfold validateSuper
    rw [hread (k := 1) (by norm_num), ok_bind, bootBlocks]
    simp only [slice_overlay_self _ _ _ (show 0 + 256 ≤ 4096 by norm_num), failIf_bind_ok,
      failIf_eq_ok, not_not]
    exact ⟨s1, s2, s3, s4, s5, s8, s12, s13, s14, s15, s16, super_sealed _⟩
  have hinode : validateRootInode f = .ok () := by
    unfold validateRootInode
    rw [hread (k := 2) (by norm_num), ok_bind, bootBlocks]
    simp only [slice_overlay_self _ _ _ (show 0 + 512 ≤ 4096 by norm_num), failIf_bind_ok,
      failIf_eq_ok, not_not]
    exact ⟨inode_sealed _, initRootInode_fields env⟩
  have hdir : validateRootDir f = .ok () := by
    obtain ⟨hdot, hdotdot⟩ := initRootDir_entries (m := byteAt initRootDir) fun _ _ => rfl
    unfold validateRootDir
    rw [hread (k := 3) (by norm_num), ok_bind, bootBlocks]
    simp only [failIf_bind_ok, failIf_eq_ok, not_not, hdot.recLen]
    exact ⟨hdot.ino, hdot.isDot_iff.mpr rfl, hdot.sum, hdotdot.ino, hdotdot.isDotdot_iff.mpr rfl,
      hdotdot.sum⟩
  have hjournal : validateJournal f = .ok () := by
    unfold validateJournal
    rw [hread (k := 4) (by norm_num), ok_bind, bootBlocks]
    simp only [slice_overlay_self _ _ _ (show 0 + 48 ≤ 4096 by norm_num), failIf_bind_ok,
      failIf_eq_ok, not_not]
    exact ⟨ilChecksum_sealJournal _, initJournal_outstanding⟩
  have hbitmap : validateBitmap f maxInodes 1 = .ok () := by
    have hcount : imageBitmapCountSet initInodeBitmap = 1 := by
      rw [initInodeBitmap_firstByte.count]
      decide
    unfold validateBitmap
    rw [hread (k := 5) (by norm_num), ok_bind, bootBlocks]
    simp only [failIf_bind_ok, failIf_eq_ok, not_not]
    exact ⟨initInodeBitmap_fields.1, initInodeBitmap_fields.2.trans hcount.symm, hcount,
      bitmap_sealed _⟩
  have hfree : validateFreeExtents f blocks = .ok () := by
    obtain ⟨e1, e2, e3, e4⟩ := initFreeExtents_fields blocks (by omega) hb
    unfold validateFreeExtents
    rw [hread (k := 6) (by norm_num), ok_bind, bootBlocks]
    simp only [failIf_eq_ok, not_not, bind_eq_ok, enExtents_one e2, countFree, e2, e3, e4,
      extentLogMax, dataStartBlock, addU64, subU64]
    exact ⟨(), extentNode_sealed _, (), e1, (), by norm_num, _,
      ⟨(), by omega, (), by omega, (), by omega, rfl⟩, by omega⟩
  have hroot : validateCheckpointRoot f blocks = .ok () := by
    obtain ⟨r1, r2, r3, r4, r5, r6, r7, r8, r9, r10, r11, r12, r13, r14, -, -, r17, r18, r19, r20,
      r21, r22, r23⟩ := initCheckpointRoot_fields (bootstrapSuper options blocks uuid) hb
    unfold validateCheckpointRoot
    rw [hread (k := 7) (by norm_num), ok_bind, bootBlocks]
    simp only [failIf_bind_ok, failIf_eq_ok, not_not, not_or]
    exact ⟨r1, r2, r3.trans s11, r4.trans s6, r5, r6, r7.trans s10, r8, r9.trans s9,
      r10.trans s13, r11.trans s15, r12.trans s13, r13.trans s14, r14.trans s16, r17, r18, r19, r20,
      ⟨r21, r22, r23⟩, checkpointRoot_sealed _⟩
  rw [mkfsValidate, hsuper, ok_bind, hinode, ok_bind, hdir, ok_bind, hjournal, ok_bind, hbitmap,
    ok_bind, hfree, ok_bind, hroot]

theorem refuseIf_ok {σ : Type} {p : Prop} [Decidable p] {e : Errno} {s s' : σ} {u : Unit} :
    refuseIf p e s = .ok u s' ↔ ¬ p ∧ s' = s := by
  rw [refuseIf, liftRead_ok, failIf_eq_ok]

/-- A prepared regular file: sized as asked for, or left as it was. -/
theorem prepareTarget_ok (hk : f.kind = .regular)
    (h : prepareTarget options env f = .ok blocks f') :
    f'.kind = .regular ∧ 8 ≤ blocks ∧ (options.blocks = blocks ∨
      options.blocks = 0 ∧ f'.size = blocks * options.blockSize) := by
  obtain ⟨_, f1, hinspect, h1⟩ := estate_bind_ok.mp h
  obtain rfl := (liftRead_ok.mp hinspect).2
  obtain ⟨b, f2, hsized, h2⟩ := estate_bind_ok.mp h1
  obtain ⟨_, f3, hroom, h3⟩ := estate_bind_ok.mp h2
  obtain rfl := (refuseIf_ok.mp hroom).2
  obtain ⟨rfl, rfl⟩ := EStateM.Result.ok.inj h3
  have h8 : 8 ≤ b := Nat.not_lt.mp (refuseIf_ok.mp hroom).1
  unfold sizeTarget at hsized
  split at hsized
  · split at hsized
    · obtain ⟨rfl, rfl⟩ := EStateM.Result.ok.inj hsized
      exact ⟨hk, h8, Or.inl rfl⟩
    · exact absurd hsized (by simp)
  · rename_i hzero
    rw [if_neg (by simp [hk])] at hsized
    split at hsized
    · split at hsized
      · exact absurd hsized (by simp)
      · rename_i hrem
        obtain ⟨rfl, rfl⟩ := EStateM.Result.ok.inj hsized
        exact ⟨hk, h8, Or.inr ⟨by omega, (Nat.div_mul_cancel
          (Nat.dvd_of_mod_eq_zero (not_not.mp hrem))).symm⟩⟩
    · exact absurd hsized (by simp)

/-- **What a successful run leaves behind.** -/
theorem runMkfs_ok (hk : f.kind = .regular) (h : runMkfs options env f = .ok () f') :
    ∃ blocks uuid n, options.blockSize = 4096 ∧ 8 ≤ blocks ∧
      Holding n (bootBlocks options env blocks uuid) f' ∧ mkfsValidate f' blocks = .ok () ∧
      (options.blocks = blocks ∨ options.blocks = 0 ∧ n = blocks * 4096) := by
  obtain ⟨_, f1, hrefuse, h1⟩ := estate_bind_ok.mp h
  obtain rfl := (refuseIf_ok.mp hrefuse).2
  have hsize : options.blockSize = 4096 := not_not.mp (refuseIf_ok.mp hrefuse).1
  obtain ⟨blocks, f2, hprep, h2⟩ := estate_bind_ok.mp h1
  obtain ⟨_, f3, hwrite, h3⟩ := estate_bind_ok.mp h2
  obtain ⟨hvalid, rfl⟩ := liftRead_ok.mp h3
  obtain ⟨hk2, h8, hblocks⟩ := prepareTarget_ok hk hprep
  cases hu : env.urandom with
  | error e =>
    obtain ⟨_, f4, -, h⟩ := estate_bind_ok.mp hwrite
    obtain ⟨u, f5, hu', -⟩ := estate_bind_ok.mp h
    rw [(liftRead_ok.mp hu').1] at hu
    exact absurd hu (by simp)
  | ok uuid =>
    refine ⟨blocks, uuid, _, hsize, h8, (writeBootstrap_ends _ _ hk2 hu).of_ok hwrite, hvalid, ?_⟩
    rcases hblocks with h | ⟨h0, hlen⟩
    · exact Or.inl h
    · refine Or.inr ⟨h0, ?_⟩
      rw [hlen, hsize]
      omega

/-- **A run that is asked for a size succeeds** on any regular file that it may overwrite. -/
theorem runMkfs_succeeds (hk : f.kind = .regular) (hsize : options.blockSize = 4096)
    (hinspect : inspectTarget options env f = .ok ()) (hu : env.urandom = .ok uuid)
    (h9 : 9 ≤ options.blocks) (hb : options.blocks < 2 ^ 51) :
    ∃ f', runMkfs options env f = .ok () f' ∧ f'.size = options.blocks * 4096 := by
  have hbytes : mulU64 options.blocks options.blockSize = options.blocks * 4096 := by
    rw [mulU64, hsize]
    omega
  have hlt : mulU64 options.blocks options.blockSize < 2 ^ 63 := by omega
  have hprep : ∃ g, prepareTarget options env f = .ok options.blocks g ∧ g.kind = .regular ∧
      g.size = options.blocks * 4096 := by
    refine ⟨f.truncate _ hlt, ?_, hk, hbytes⟩
    refine estate_bind_ok.mpr ⟨(), f, liftRead_ok.mpr ⟨hinspect, rfl⟩, ?_⟩
    refine estate_bind_ok.mpr ⟨options.blocks, f.truncate _ hlt, ?_, ?_⟩
    · rw [sizeTarget, if_pos (by omega), if_pos hk, dif_pos hlt]
    · refine estate_bind_ok.mpr ⟨(), _, refuseIf_ok.mpr ⟨?_, rfl⟩, rfl⟩
      simp only [bootstrapBlocks, dataStartBlock]
      omega
  obtain ⟨g, hprep, hg, hgsize⟩ := hprep
  obtain ⟨_, f', hwrite, hold⟩ :=
    (writeBootstrap_ends options options.blocks hg hu).total
  have hf' : f'.size = options.blocks * 4096 := by
    have := hold.size
    omega
  refine ⟨f', ?_, hf'⟩
  refine estate_bind_ok.mpr ⟨(), f, refuseIf_ok.mpr ⟨not_not.mpr hsize, rfl⟩, ?_⟩
  refine estate_bind_ok.mpr ⟨_, g, hprep, estate_bind_ok.mpr ⟨(), f', hwrite, ?_⟩⟩
  exact liftRead_ok.mpr ⟨mkfsValidate_ok hold (by omega) hsize h9 (by omega), rfl⟩

/-! ## 5. The loader's view -/

/-- **The loader accepts the eight blocks.** -/
theorem bootBlocks_ok {img : Image ByteFile} (hc : img.memberCount = 1)
    (hl : plLogicalBlocks img.poolLabel = blocks) (hsize : options.blockSize = 4096)
    (h8 : 8 ≤ blocks) (hb : blocks < 2 ^ 64) :
    BootOk img (bootBlocks options env blocks uuid) := by
  obtain ⟨s1, s2, s3, s4, -, -, s7, s8, s9, s10, -, s12, s13, s14, s15, s16, -, -⟩ :=
    bootstrapSuper_fields options uuid hsize hb
  obtain ⟨r1, r2, r3, r4, r5, r6, r7, r8, r9, r10, r11, r12, r13, r14, r15, r16, r17, r18, r19,
    r20, r21, r22, r23⟩ :=
      initCheckpointRoot_fields (bootstrapSuper options blocks uuid) hb
  have hsuper : slice (bootBlocks options env blocks uuid 1) 0 256
      = bootstrapSuper options blocks uuid := slice_overlay_self _ _ _ (by norm_num)
  have hjournal : slice (bootBlocks options env blocks uuid 4) 0 48 = initJournal :=
    slice_overlay_self _ _ _ (by norm_num)
  refine ⟨?_, ?_, ?_, ?_, ?_, ?_, extentNode_sealed _, ?_⟩
  · simp only [imageValidateSuper, loadedImage, hsuper, failIf_bind_ok, failIf_eq_ok, not_not]
    exact ⟨s1, s2, s3, super_sealed _, by rw [s4]; exact Nat.not_lt.mpr h8, s4.trans hl.symm,
      s7.trans hc.symm, s8, s12, s13, s14, s15, s16⟩
  · rw [hsuper]
    exact s10
  · rw [hsuper]
    exact s9
  · simp only [imageValidateCheckpointRoot, loadedImage, hsuper, failIf_bind_ok, failIf_eq_ok,
      not_not, not_or]
    exact ⟨r1, r2, checkpointRoot_sealed _, r3, r4, r5, r6, r7, r8, r9, r10, r11, r12, r13, r14,
      r15, r16, r17, r18, r19, r20.trans s4.symm, r21, r22, r23⟩
  · rw [hjournal]
    exact ilChecksum_sealJournal _
  · simp only [imageValidateBitmap, failIf_bind_ok, failIf_eq_ok, not_not]
    refine ⟨initInodeBitmap_fields.1, bitmap_sealed _, initInodeBitmap_fields.2.trans ?_⟩
    change 1 = imageBitmapCountSet initInodeBitmap
    rw [initInodeBitmap_firstByte.count]
    decide
  · change enCount (initFreeExtents blocks) ≤ 102
    rw [(initFreeExtents_fields blocks h8 hb).2.1]
    norm_num

/-- `mkfs` refuses its own work when there is no data block: the free extent would be empty. -/
theorem validateFreeExtents_ne_eight {n : Nat}
    (hold : Holding n (bootBlocks options env blocks uuid) f)
    (h : validateFreeExtents f blocks = .ok ()) : blocks ≠ 8 := by
  rintro rfl
  obtain ⟨node, hread, h⟩ := bind_eq_ok.mp h
  rw [ByteFile.read_def, ByteFile.offsetOf_of_lt (by norm_num), ByteFile.readAll_eq_ok] at hread
  obtain rfl : node = initFreeExtents 8 := hread.2.trans (hold.block 6 (by norm_num))
  obtain ⟨-, e2, -, e4⟩ := initFreeExtents_fields 8 (by norm_num) (by norm_num)
  obtain ⟨-, h⟩ := failIf_bind_ok.mp h
  obtain ⟨-, h⟩ := failIf_bind_ok.mp h
  obtain ⟨-, h⟩ := failIf_bind_ok.mp h
  obtain ⟨count, h, -⟩ := bind_eq_ok.mp h
  rw [enExtents_one e2, countFree] at h
  exact (failIf_bind_ok.mp h).1 e4

/-- The inode loop over a new file system: the root directory, and nothing else. -/
theorem bootBlocks_inodes {img : Image ByteFile} {rd : Nat → Except Fail Block} {refs : List Nat}
    (htable : ∀ i, iMode (img.inodeTable i) = 0) (hb : blocks < 2 ^ 64) :
    List.Forall₂ (fun i t => checkInode rd
        (loadedImage img (bootBlocks options env blocks uuid)) refs i = .ok t)
      (List.range maxInodes) (fewTallies 1 fun _ => { Tally.none with directories := 1 }) := by
  obtain ⟨i1, i2⟩ := initRootInode_fields env
  have hblock : ∀ i, 0 < i → iMode (slice (overlay (zeros 4096) 0 (initRootInode env))
      (512 * i) 512) = 0 := fun i hi => by
    rw [slice_overlay_of_disjoint _ _ _ _ _ (by norm_num) (by omega), slice_zeros]
    exact getLE_zeros _ _ _
  have hroot : crRootDirBlock (initCheckpointRoot (bootstrapSuper options blocks uuid) blocks)
      = 3 := by
    obtain ⟨-, -, -, -, -, -, -, h, -⟩ :=
      initCheckpointRoot_fields (bootstrapSuper options blocks uuid) hb
    exact h
  refine few_inodes (by norm_num) (fun i hi => ?_) fun i hi => ⟨?_, ?_⟩
  · obtain rfl : i = 0 := by omega
    have hzero : (loadedImage img (bootBlocks options env blocks uuid)).inodeTable 0
        = initRootInode env := slice_overlay_self _ _ _ (by norm_num)
    refine checkInode_iff.mpr (Or.inr ⟨?_, ?_⟩)
    · exact initInodeBitmap_firstByte.test 0
    · rw [hzero]
      exact ⟨inode_sealed _, Or.inl ⟨by rw [i1]; decide, rfl, i2.trans hroot.symm, rfl⟩⟩
  · change imageBitmapTest initInodeBitmap i = false
    rw [initInodeBitmap_firstByte.test, Nat.testBit_lt_two_pow (Nat.one_lt_two_pow (by omega)),
      Bool.and_false]
  · change iMode (tableOf (overlay (zeros 4096) 0 (initRootInode env)) img.inodeTable i) = 0
    rw [tableOf]
    split
    · exact hblock i hi
    · exact htable i

/-- **Scrub finds nothing wrong with the eight blocks**, and nothing in them. -/
theorem bootBlocks_validate {img : Image ByteFile} (hc : img.memberCount = 1)
    (hp : poolProfile img ≠ poolProfileParity) (htable : ∀ i, iMode (img.inodeTable i) = 0)
    (hsize : options.blockSize = 4096) (h9 : 9 ≤ blocks) (hb : blocks < 2 ^ 64) :
    imageValidate (loadedImage img (bootBlocks options env blocks uuid))
      = .ok ⟨0, 1, 1, 0, blocks - 8⟩ := by
  obtain ⟨-, -, -, s4, s5, -⟩ := bootstrapSuper_fields options uuid hsize hb
  obtain ⟨e1, e2, e3, e4⟩ := initFreeExtents_fields blocks (by omega) hb
  obtain ⟨-, -, -, -, -, -, -, r8, -⟩ :=
    initCheckpointRoot_fields (bootstrapSuper options blocks uuid) hb
  have hsuper : slice (bootBlocks options env blocks uuid 1) 0 256
      = bootstrapSuper options blocks uuid := slice_overlay_self _ _ _ (by norm_num)
  have hjournal : slice (bootBlocks options env blocks uuid 4) 0 48 = initJournal :=
    slice_overlay_self _ _ _ (by norm_num)
  generalize himg : loadedImage img (bootBlocks options env blocks uuid) = img'
  have hblocks : img'.blocks = blocks := by
    rw [← himg, loadedImage_blocks, hsuper, s4]
  have hused : (fewTallies 1 fun _ => { Tally.none with directories := 1 }).flatMap Tally.used
      = [] := by
    rw [fewTallies_used]
    rfl
  have hroot : crRootDirBlock img'.checkpointRoot = 3 := by
    rw [← himg, loadedImage_checkpointRoot, bootBlocks, r8]
  have hfreeCount : sFreeBlocks img'.super = blocks - 8 := by
    have : img'.super = bootstrapSuper options blocks uuid := by
      rw [← himg, loadedImage_super, hsuper]
    rw [this, s5]
    simp only [subU64, dataStartBlock]
    omega
  have hbits : img'.inodeBitmap = initInodeBitmap := by
    rw [← himg, loadedImage_inodeBitmap, bootBlocks]
  have htail : FreeTail img' 8 := by
    have hnode : img'.freeExtents = initFreeExtents blocks := by
      rw [← himg, loadedImage_freeExtents, bootBlocks]
    refine ⟨Nat.le_refl _, by omega, by omega, ?_, fun _ => ?_, fun h => by omega, ?_⟩
    · rw [hnode, e1]
    · rw [hnode, hblocks]
      exact ⟨e2, e3, e4⟩
    · rw [hfreeCount, hblocks]
  have hscrub : Scrubbed img' [] (fewTallies 1 fun _ => { Tally.none with directories := 1 })
      (tailOf 8 img'.blocks) := by
    refine scrubbed_of_tiles ?_ ?_ hroot ?_ ?_ ?_ ?_ (by rw [hused]; rfl) htail
    · rw [← himg, loadedImage_memberCount, hc]
    · rw [← himg, loadedImage_poolProfile]
      exact hp
    · have : img'.journal = initJournal := by
        rw [← himg, loadedImage_journal, hjournal]
      rw [this, initJournal_outstanding]
    · rw [hbits, initInodeBitmap_firstByte.test]
      rfl
    · refine initRootDir_walk fun i hi => ?_
      rw [← himg]
      exact if_pos hi
    · rw [← himg]
      exact bootBlocks_inodes htable hb
  refine imageValidate_iff.mpr ⟨_, _, _, hscrub, ?_⟩
  rw [reportOf, fewTallies_sum _ _ (g := Tally.files) rfl,
    fewTallies_sum _ _ (g := Tally.directories) rfl, fewTallies_sum _ _ (g := Tally.dataBlocks) rfl,
    hbits, initInodeBitmap_fields.2, totalLen_tailOf (by omega), hblocks,
    Nat.mod_eq_of_lt (show blocks - 8 < 2 ^ 64 by omega)]
  rfl

/-- **`mkfs` and `scrub` agree on the format.**  A regular file that `mkfs` formats as `b` blocks,
and that then has that length, is opened, loaded and found clean and empty. -/
theorem mkfs_scrubs_clean {b : Nat} (hk : f.kind = .regular)
    (hrun : runMkfs options env f = .ok () f') (hb : options.blocks = b ∨ options.blocks = 0)
    (hlen : f'.size = b * 4096) (writable : Bool) (beyond : Nat → UInt8) :
    ∃ img img', imageOpen f' writable beyond = .ok img ∧ imageLoad img = .ok img' ∧
      imageValidate img' = .ok ⟨0, 1, 1, 0, b - 8⟩ := by
  obtain ⟨blocks, uuid, n, hsize, h8, hold, hvalid, hblocks⟩ := runMkfs_ok hk hrun
  have hb51 : b < 2 ^ 51 := by
    have := f'.size_lt
    omega
  -- the formatted number is the one the file has
  obtain ⟨rfl, h9⟩ : blocks = b ∧ 9 ≤ b := by
    obtain ⟨_, -, h⟩ := bind_eq_ok.mp hvalid
    obtain ⟨_, -, h⟩ := bind_eq_ok.mp h
    obtain ⟨_, -, h⟩ := bind_eq_ok.mp h
    obtain ⟨_, -, h⟩ := bind_eq_ok.mp h
    obtain ⟨_, -, h⟩ := bind_eq_ok.mp h
    obtain ⟨_, hfree, -⟩ := bind_eq_ok.mp h
    have hne := validateFreeExtents_ne_eight hold hfree
    have := hold.size
    omega
  have hplain : PlainFile f' blocks := by
    refine ⟨by rw [hold.kind]; simp, hlen, h8, ?_⟩
    have hzero : labelOf f' = zeros 824 := by
      have : f'.blockAt 0 = zeros 4096 := hold.block 0 (by norm_num)
      rw [labelOf, this, slice_zeros]
    rw [hzero, plMagic, le32, getLE_zeros]
    decide
  have hlabel : plLogicalBlocks (plainImage f' blocks writable beyond).poolLabel = blocks := by
    obtain ⟨-, -, -, -, -, -, -, -, -, -, h, -⟩ := singleLabel_fields blocks (by omega)
    exact h
  have hread : ∀ k, 1 ≤ k → k < 8 → imageReadBlock (plainImage f' blocks writable beyond) k
      = .ok (bootBlocks options env blocks uuid k) := fun k _ hk => by
    rw [plainImage_read hplain writable beyond (by omega), hold.block k hk]
  obtain ⟨hload, -⟩ := (imageLoad_boot hread).mp
    ⟨bootBlocks_ok rfl hlabel hsize h8 (by omega), rfl⟩
  refine ⟨_, _, plainFile_open hplain writable beyond, hload, ?_⟩
  refine bootBlocks_validate rfl ?_ (fun i => getLE_zeros _ _ _) hsize h9 (by omega)
  obtain ⟨-, -, h, -⟩ := singleLabel_fields blocks (by omega)
  change plProfile (singleLabel blocks) ≠ 3
  rw [h]
  norm_num

theorem mkfs_sixteen_scrubs_clean : ∃ f' img img',
    runMkfs ⟨16, 4096, 0, false⟩ ⟨false, .ok (zeros 16), 0, 0, 0⟩ .empty = .ok () f' ∧
      imageOpen f' false (fun _ => 0) = .ok img ∧ imageLoad img = .ok img' ∧
      imageValidate img' = .ok ⟨0, 1, 1, 0, 8⟩ := by
  have hinspect : inspectTarget ⟨16, 4096, 0, false⟩ ⟨false, .ok (zeros 16), 0, 0, 0⟩ .empty
      = .ok () := by decide
  obtain ⟨f', hrun, hsize⟩ := runMkfs_succeeds rfl rfl hinspect rfl (by norm_num) (by norm_num)
  obtain ⟨img, img', h⟩ := mkfs_scrubs_clean (b := 16) rfl hrun (Or.inl rfl) hsize false
    (fun _ => 0)
  exact ⟨f', img, img', hrun, h⟩

end Run

end AetherFs
