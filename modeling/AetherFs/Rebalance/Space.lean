/-
# There is always room

The inode loop of `aetherfs_run_rebalance` gives up with `-ENOSPC` when its cursor `next_block` has
passed the end of the target.  It never does.  The results about whole runs (`Build`) have this for
volumes as `mkfs` lays them out; here it is shown for every source that opens, loads and validates,
whatever kind of file it is in, wherever its superblock puts the inode table, and whatever the host
refuses.

What makes it work is little.  The target is a copy of the eight blocks in front, so it has the
block count and the inode bitmap of the source, and no regular file that the source has not
(`Follows`); the loop keeps it that way (`plan`), even in a turn that fails.  A turn moves the cursor
by the blocks the file takes in one piece, and these are no more than it takes now
(`Clean.span_le_slots`).  And all files together take no more than there is
(`Clean.totalLen_usedBy_le`).
-/
import AetherFs.Rebalance.Results

namespace AetherFs

open Lib

/-! ## 1. The run up to the loop -/

/-- `aetherfs_run_rebalance` inside the loop over the inodes: when `count` of them are done. -/
def compactFirst (host : Host) (source : Image ByteFile) (count : Nat) :
    EStateM Fail (Image ByteFile) Nat := do
  modify fun target => { target with freeExtents := zeros 4096 }
  (List.range' 1 count).foldlM (compactInode host source) dataStartBlock

/-- `aetherfs_run_rebalance` behind the loop. -/
def completeTarget (host : Host) (next : Nat) :
    EStateM Fail (Image ByteFile) (Nat × ScrubReport) := do
  modify (finishTarget next)
  writeTarget host
  let report ← checkTarget host
  pure (next, report)

theorem buildTarget_eq (host : Host) : buildTarget host = (do
    let begun ← beginTarget host
    let (out, target) ← onTarget begun.2
      (compactFirst host begun.1 (maxInodes - 1) >>= completeTarget host)
    pure ⟨begun.1, target, out.1, out.2⟩) := by
  have hfill : ∀ source, fillTarget host source
      = compactFirst host source (maxInodes - 1) >>= completeTarget host := by
    intro source
    rw [compactFirst, bind_assoc]
    rfl
  simp only [buildTarget, hfill]

section Begin

variable {host : Host} {α : Type}

theorem makeTempPath_ok {disk disk' : Disk} (h : makeTempPath host disk = .ok () disk') :
    disk' = { disk with temp := some .empty } := by
  obtain ⟨kind, d1, h1, hmake⟩ := estate_bind_ok.mp h
  obtain ⟨-, rfl⟩ := Host.read_ok h1
  cases hfind : (tempDirs kind).find? host.hasSpace with
  | none =>
    rw [hfind] at hmake
    exact absurd hmake (by simp [throw, throwThe, MonadExceptOf.throw, EStateM.throw])
  | some dir =>
    rw [hfind] at hmake
    have hset : (modify fun disk : Disk => { disk with temp := some .empty } : EStateM Fail Disk _) d1
        = .ok () disk' := Host.call_ok hmake
    exact (EStateM.Result.ok.inj hset).2.symm

theorem onTemp_ok {x : EStateM Fail ByteFile α} {path g : ByteFile} {disk' : Disk} {a : α}
    (h : onTemp x ⟨path, some g⟩ = .ok a disk') :
    ∃ g', x g = .ok a g' ∧ disk' = ⟨path, some g'⟩ := by
  unfold onTemp at h
  simp only at h
  cases hx : x g with
  | ok b g' =>
    rw [hx] at h
    obtain ⟨rfl, rfl⟩ := EStateM.Result.ok.inj h
    exact ⟨g', rfl, rfl⟩
  | error e g' =>
    rw [hx] at h
    exact absurd h (by simp)

theorem truncateFile_ok {size : Nat} {g g' : ByteFile} (h : truncateFile size g = .ok () g') :
    ∃ hs, g' = g.truncate size hs := by
  unfold truncateFile at h
  split at h
  · rename_i hs
    exact ⟨hs, (EStateM.Result.ok.inj h).2.symm⟩
  · exact absurd h (by simp)

/-- The blocks in front of a loaded image are those of its file. -/
theorem loaded_front {f : ByteFile} {writable : Bool} {beyond : Nat → UInt8}
    {opened img : Image ByteFile} (hopen : imageOpen f writable beyond = .ok opened)
    (hload : imageLoad opened = .ok img) {b : Nat} (hb : b < 8) :
    imageReadBlock img b = .ok (f.blocksOf b) := by
  obtain ⟨hc, hm, -⟩ := loaded_file hopen hload
  have hsize := loaded_size hopen hload
  refine (single_read_file hc (by omega)).mpr ⟨Or.inl hb, ?_, ?_⟩
  · rw [hm, Nat.mod_eq_of_lt (by omega)]
    change b * 4096 + 4096 ≤ f.size
    omega
  · rw [hm, Nat.mod_eq_of_lt (by omega)]
    rfl

/-- **What a run has when it comes to the loop**: a source that is loaded and valid, and a target
loaded from a file with nothing in it but the eight blocks in front. -/
theorem beginTarget_ok {f : ByteFile} {temp : Option ByteFile} {source target : Image ByteFile}
    {disk' : Disk} (h : beginTarget host ⟨f, temp⟩ = .ok (source, target) disk') :
    ∃ opened rep g opened', imageOpen f false host.beyond = .ok opened ∧
      imageLoad opened = .ok source ∧ imageValidate source = .ok rep ∧
      g.blocksOf = reserved f.blocksOf ∧ imageOpen g true host.beyond = .ok opened' ∧
      imageLoad opened' = .ok target := by
  obtain ⟨opened, rep, _, _, _, g', opened', hopen, hload, hval, h6, h7, h8, h9, hg, hopen', hload'⟩ :=
    beginTarget_inv h
  obtain rfl := makeTempPath_ok h6
  obtain ⟨g1, h7', rfl⟩ := onTemp_ok h7
  obtain ⟨-, rfl⟩ := EStateM.Result.ok.inj h7'
  obtain ⟨g2, h8', rfl⟩ := onTemp_ok h8
  obtain ⟨hs, rfl⟩ := truncateFile_ok h8'
  obtain ⟨g, hcopy, rfl⟩ := onTemp_ok h9
  obtain rfl := Option.some.inj hg
  simp only at hopen hload hval hload'
  have hbytes : source.sizeBytes = f.size := by
    rw [(imageLoad_iff.mp hload).frame]
    obtain ⟨-, -, -, rfl⟩ := imageOpen_iff.mp hopen
    rfl
  have hlarge : 32768 ≤ (ByteFile.zeroed source.sizeBytes hs).size := by
    change 32768 ≤ source.sizeBytes
    rw [hbytes]
    exact loaded_size hopen hload
  have hallowed : Allowed (fun _ => True) host 0 :=
    ⟨fun _ _ _ => trivial, fun _ => trivial, fun _ => trivial⟩
  have hfront := (copyReservedBlocks_ends hallowed (fun b hb => loaded_front hopen hload hb) rfl
    hlarge (blocksOf_zeroed hs)).of_ok hcopy
  exact ⟨opened, rep, g, opened', hopen, hload, hval, hfront.2.2, hopen', hload'⟩

end Begin

/-! ## 2. The target follows the source -/

/-- What the loop goes by: the bitmap it tests, the end it compares with, the modes it asks for. -/
def plan (img : Image ByteFile) : BitmapBlock × Nat × (Nat → Nat) :=
  (img.inodeBitmap, img.blocks, fun index => iMode (img.inodeTable index))

/-- The target has the inodes and the size of the source, and no file of its own. -/
structure Follows (source target : Image ByteFile) : Prop where
  bitmap : target.inodeBitmap = source.inodeBitmap
  blocks : target.blocks = source.blocks
  files : ∀ index, sIsReg (iMode (target.inodeTable index)) →
    sIsReg (iMode (source.inodeTable index))

theorem Follows.congr {source target target' : Image ByteFile} (h : Follows source target)
    (hplan : plan target' = plan target) : Follows source target' := by
  obtain ⟨hbit, hrest⟩ := Prod.mk.inj hplan
  obtain ⟨hblocks, hmodes⟩ := Prod.mk.inj hrest
  refine ⟨hbit.trans h.bitmap, hblocks.trans h.blocks, fun index hreg => h.files index ?_⟩
  rwa [← congrFun hmodes index]

/-- What can be read through an image that has just been opened is a block of the file. -/
theorem opened_read {f : ByteFile} {writable : Bool} {beyond : Nat → UInt8}
    {opened : Image ByteFile} (hopen : imageOpen f writable beyond = .ok opened) {b : Nat}
    {x : Block} (hb : b < 2 ^ 64) (h : imageReadBlock opened b = .ok x) :
    x = f.blocksOf (b % 2 ^ 52) := by
  obtain ⟨-, -, -, rfl⟩ := imageOpen_iff.mp hopen
  exact ((single_read_file rfl hb).mp h).2.2

theorem opened_inodeTable {f : ByteFile} {writable : Bool} {beyond : Nat → UInt8}
    {opened : Image ByteFile} (hopen : imageOpen f writable beyond = .ok opened) (index : Nat) :
    opened.inodeTable index = zeros 512 := by
  obtain ⟨-, -, -, rfl⟩ := imageOpen_iff.mp hopen
  rfl

theorem not_sIsReg_zeros {n off : Nat} : ¬ sIsReg (iMode (slice (zeros n) off 512)) := by
  have hmode : iMode (slice (zeros n) off 512) = 0 := by
    simp only [iMode, le16, slice_zeros, getLE_zeros]
  rw [hmode]
  decide

/-- **A copy of the eight blocks in front follows the volume they are from**, wherever its inode
table is: a table that has not been copied reads as zeros. -/
theorem follows_of_front {f g : ByteFile} {beyond : Nat → UInt8}
    {opened opened' source target : Image ByteFile}
    (hopen : imageOpen f false beyond = .ok opened) (hload : imageLoad opened = .ok source)
    (hg : g.blocksOf = reserved f.blocksOf) (hopen' : imageOpen g true beyond = .ok opened')
    (hload' : imageLoad opened' = .ok target) : Follows source target := by
  have hS := imageLoad_iff.mp hload
  have hT := imageLoad_iff.mp hload'
  have hfront : ∀ b, b < 8 → g.blocksOf b = f.blocksOf b := fun b hb => by
    rw [hg, reserved, if_pos hb]
  have hsuper : target.super = source.super := by
    obtain ⟨b, hread, hb⟩ := hS.readSuper
    obtain ⟨b', hread', hb'⟩ := hT.readSuper
    rw [hb, hb', opened_read hopen (by norm_num) hread, opened_read hopen' (by norm_num) hread',
      hfront _ (by norm_num)]
  obtain ⟨-, -, hbitS, -, hrootS, -⟩ := boot_places hS.superOk hS.rootOk
  obtain ⟨-, -, hbitT, -, hrootT, -⟩ := boot_places hT.superOk hT.rootOk
  refine ⟨?_, ?_, fun index hreg => ?_⟩
  · have hread := hS.readBitmap
    have hread' := hT.readBitmap
    rw [hbitS] at hread
    rw [hbitT] at hread'
    rw [opened_read hopen (by norm_num) hread, opened_read hopen' (by norm_num) hread',
      hfront _ (by norm_num)]
  · rw [hT.kept.2.2.2, hS.kept.2.2.2, hsuper]
  · obtain ⟨b, hread, htable⟩ := hS.readTable
    obtain ⟨b', hread', htable'⟩ := hT.readTable
    rw [hrootS] at hread
    rw [hrootT, hsuper] at hread'
    have hb := opened_read hopen (le64_lt _ _) hread
    have hb' := opened_read hopen' (le64_lt _ _) hread'
    rw [htable', tableOf] at hreg
    rw [htable, tableOf]
    by_cases hi : index < 8
    · rw [if_pos hi] at hreg ⊢
      rw [hb', hg, reserved] at hreg
      split at hreg
      · rw [hb]
        exact hreg
      · exact absurd hreg not_sIsReg_zeros
    · rw [if_neg hi, opened_inodeTable hopen' index] at hreg
      exact absurd hreg (by simp [iMode, le16, sIsReg])

/-! ## 3. What else can fail in the loop

Every block goes through the pool map, and no map answers `-ENOSPC`; what a device answers is a
system call's failure, and has another name. -/

/-- The failure is not that of the comparison with the end. -/
def NotFull (e : Fail) : Prop := e ≠ .check .ENOSPC

theorem notFull_of_ne {α : Type} {x : Except Fail α} (hx : x ≠ .error (.check .ENOSPC)) {e : Fail}
    (h : x = .error e) : NotFull e := by
  rintro rfl
  exact hx h

section Errors

variable {img : Image ByteFile}

theorem linearScan_ne_full : ∀ (ms : List Nat) (remaining : Nat),
    linearScan img ms remaining ≠ .error (.check .ENOSPC)
  | [], _ => by simp [linearScan]
  | m :: ms, remaining => by
    rw [linearScan]
    split
    · simp
    · exact linearScan_ne_full ms _

theorem poolMapDataBlock_ne_full (b : Nat) :
    poolMapDataBlock img b ≠ .error (.check .ENOSPC) := by
  unfold poolMapDataBlock
  split
  · exact linearScan_ne_full _ _
  split
  · unfold poolMapMirror
    split <;> simp
  split
  · unfold poolMapStripe
    simp only
    repeat' split
    all_goals simp
  split
  · unfold poolMapParity
    simp only
    repeat' split
    all_goals simp
  · simp

theorem imageReadPhysicalMember_ne_full (m b : Nat) :
    imageReadPhysicalMember img m b ≠ .error (.check .ENOSPC) := by
  unfold imageReadPhysicalMember
  split
  · simp
  · rw [ByteFile.read_def, ByteFile.readAll]
    repeat' split
    all_goals simp

theorem readReplicas_ne_full (b : Nat) : ∀ ms : List Nat,
    readReplicas img b ms ≠ .error (.check .ENOSPC)
  | [] => by simp [readReplicas]
  | m :: ms => by
    rw [readReplicas]
    split
    · simp
    · exact readReplicas_ne_full b ms

theorem imageReadBlock_ne_full (b : Nat) : imageReadBlock img b ≠ .error (.check .ENOSPC) := by
  unfold imageReadBlock
  split
  · exact readReplicas_ne_full b _
  · intro h
    cases hmap : poolMapDataBlock img b with
    | error e =>
      rw [hmap, error_bind] at h
      obtain rfl := Except.error.inj h
      exact poolMapDataBlock_ne_full b hmap
    | ok mapping =>
      rw [hmap, ok_bind] at h
      exact imageReadPhysicalMember_ne_full _ _ h

theorem readOnlyNode_ne_full (b : Nat) :
    readOnlyNode (imageReadBlock img) b ≠ .error (.check .ENOSPC) := by
  unfold readOnlyNode
  intro h
  cases hread : imageReadBlock img b with
  | error e =>
    rw [hread, error_bind] at h
    exact imageReadBlock_ne_full b (hread.trans h)
  | ok node =>
    rw [hread, ok_bind, failIf, failIf] at h
    split at h
    · exact absurd h (by simp)
    · rw [ok_bind] at h
      split at h <;> exact absurd h (by simp)

end Errors

/-! ## 4. The parts of a turn -/

section Steady

variable {host : Host} {source : Image ByteFile}

theorem imageWritePhysicalMember_steady (m b : Nat) (buf : Block) :
    Steady NotFull plan (imageWritePhysicalMember m b buf) := by
  intro img
  unfold imageWritePhysicalMember
  split
  · exact Ends.error (by simp [NotFull])
  · split
    · exact Ends.ok rfl
    · rename_i e d hwrite
      refine Ends.error ?_
      rw [ByteFile.write_def, ByteFile.writeAll] at hwrite
      split at hwrite
      · obtain ⟨h, -⟩ := Prod.mk.inj hwrite
        simp [NotFull, ← Except.error.inj h]
      · split at hwrite
        · obtain ⟨h, -⟩ := Prod.mk.inj hwrite
          simp [NotFull, ← Except.error.inj h]
        · exact absurd (Prod.mk.inj hwrite).1 (by simp)

theorem writeMembers_steady (b : Nat) (buf : Block) : ∀ ms : List Nat,
    Steady NotFull plan (writeMembers b buf ms)
  | [] => Steady.pure ()
  | m :: ms => (imageWritePhysicalMember_steady m b buf).bind fun _ => writeMembers_steady b buf ms

theorem writeParity_steady (mapping : PoolMapping) (buf : Block) :
    Steady NotFull plan (writeParity mapping buf) := by
  have hread : ∀ m b, Steady NotFull plan
      (liftRead fun img : Image ByteFile => imageReadPhysicalMember img m b) := fun m b =>
    Steady.liftRead fun _ _ => notFull_of_ne (imageReadPhysicalMember_ne_full m b)
  refine (hread _ _).bind fun _ => (hread _ _).bind fun _ => ?_
  exact (imageWritePhysicalMember_steady _ _ _).bind fun _ => imageWritePhysicalMember_steady _ _ _

theorem imageWriteBlock_steady (b : Nat) (buf : Block) :
    Steady NotFull plan (imageWriteBlock b buf) := by
  intro img
  unfold imageWriteBlock
  split
  · exact Ends.error (by simp [NotFull])
  split
  · simp only
    split
    · exact Ends.error (by simp [NotFull])
    · exact writeMembers_steady _ _ _ img
  split
  · rename_i e hmap
    exact Ends.error (notFull_of_ne (poolMapDataBlock_ne_full b) hmap)
  split
  · exact imageWritePhysicalMember_steady _ _ _ img
  split
  · exact writeMembers_steady _ _ _ img
  split
  · exact writeParity_steady _ _ img
  · exact Ends.error (by simp [NotFull])

variable (hdeny : ∀ c, host.deny c ≠ some (.check .ENOSPC))

include hdeny

theorem denied_notFull (c : Call) (e : Fail) (h : host.deny c = some e) : NotFull e := by
  rintro rfl
  exact hdeny c h

theorem writeImage_steady (c : Call) (b : Nat) (buf : Block) :
    Steady NotFull plan (host.writeImage c (imageWriteBlock b buf)) := fun img =>
  Host.call_ends (denied_notFull hdeny c) (imageWriteBlock_steady b buf img)

theorem read_steady {α : Type} (c : Call) {x : Image ByteFile → Except Fail α}
    (hx : ∀ img, x img ≠ .error (.check .ENOSPC)) : Steady NotFull plan (host.read c x) := fun img =>
  Host.read_cases (denied_notFull hdeny c) (fun _ => notFull_of_ne (hx img)) fun _ _ => rfl

theorem copyFileData_steady (node : ExtentNode) (dst : Nat) :
    Steady NotFull plan (copyFileData host source node dst) := by
  refine Steady.foldlM (fun dst e => Steady.foldlM (fun dst i => ?_) _ _) _ _
  refine (read_steady hdeny _ fun _ => imageReadBlock_ne_full _).bind fun block => ?_
  exact (writeImage_steady hdeny _ _ _).bind fun _ => Steady.pure _

theorem writeChecksumChain_steady (remaining : Nat) : ∀ dataBlock csumBlock : Nat,
    Steady NotFull plan (writeChecksumChain host remaining dataBlock csumBlock) := by
  induction remaining using Nat.strong_induction_on with
  | _ remaining ih =>
    intro dataBlock csumBlock
    rw [writeChecksumChain]
    split
    · exact Steady.pure ()
    · rename_i hne
      have hless : remaining - min checksumsPerBlock remaining < remaining := by
        simp only [checksumsPerBlock]
        omega
      have hsum : ∀ index, Steady NotFull plan (readSum host (addU64 dataBlock index)) :=
        fun index => (read_steady hdeny _ fun _ => imageReadBlock_ne_full _).bind fun _ =>
          Steady.pure _
      refine (Steady.mapM hsum _).bind fun sums => ?_
      exact (writeImage_steady hdeny _ _ _).bind fun _ => ih _ hless _ _

end Steady

/-- The inode of a file that has been moved still has its mode. -/
theorem plan_rootInode (index root : Nat) (img : Image ByteFile) :
    plan (rootInode index root img) = plan img := by
  have hmode : ∀ inode : Inode, iMode (setExtentRoot inode root) = iMode inode := fun inode =>
    setExtentRoot_differs inode root 0 2 (by decide)
  refine Prod.ext rfl (Prod.ext rfl (funext fun i => ?_))
  change iMode (Function.update img.inodeTable index _ i) = iMode (img.inodeTable i)
  by_cases hi : i = index
  · rw [hi, Function.update_self, hmode]
  · rw [Function.update_of_ne hi]

/-! ## 5. The cursor -/

/-- The blocks a file takes in an image. -/
def takes (img : Image ByteFile) (index : Nat) : Nat :=
  totalLen ((fileSlots img index).map Prod.snd)

section Cursor

variable {host : Host} {source : Image ByteFile}

/-- **The new layout of a file takes no more blocks than the old one**: an extent root, the data,
and a checksum block for every 1020 blocks of it. -/
theorem Clean.span_le_takes (h : Clean source) {index : Nat} (hr : RegularAt source index) :
    span (iBlocks (source.inodeTable index)) ≤ takes source index := by
  obtain ⟨data, hdata, hlen, -⟩ := h.data hr
  rw [← hlen]
  exact h.span_le_slots hr hdata

/-- **One turn**: where the file fits, the turn does not stop for want of room, and the cursor moves
by no more than the file takes in the source. -/
theorem compactInode_room (h : Clean source) (hdeny : ∀ c, host.deny c ≠ some (.check .ENOSPC))
    {img : Image ByteFile} (hF : Follows source img) {next index : Nat} (hindex : index < maxInodes)
    (hroom : next + takes source index ≤ source.blocks) :
    Ends NotFull (compactInode host source next index img) fun next' img' =>
      next' ≤ next + takes source index ∧ plan img' = plan img := by
  have hlt := h.lt
  rw [compactInode]
  refine Ends.bind (Q := fun t s => t = img ∧ s = img) (Ends.ok ⟨rfl, rfl⟩) ?_
  intro t s hts
  rw [hts.1, hts.2]
  split
  · exact Ends.pure ⟨Nat.le_add_right _ _, rfl⟩
  rename_i hbit
  split
  · exact Ends.pure ⟨Nat.le_add_right _ _, rfl⟩
  rename_i hreg
  split
  · refine Ends.bind (Q := fun _ s => plan s = plan img) (Ends.ok (plan_rootInode _ _ _)) ?_
    intro _ s hs
    exact Ends.pure ⟨Nat.le_add_right _ _, hs⟩
  -- the target has a file here, so the source has it
  have hr : RegularAt source index := by
    refine ⟨hindex, ?_, hF.files index (not_not.mp hreg)⟩
    rw [← hF.bitmap]
    simpa using hbit
  have hspan := h.span_le_takes hr
  obtain ⟨hstart, hcsum, hcount, hnext⟩ :=
    @span_addresses next (iBlocks (source.inodeTable index)) (by omega)
  simp only [hstart, hcsum, hcount, hnext]
  refine (read_steady hdeny _ (fun _ => readOnlyNode_ne_full _) img).bind fun node s1 hs1 => ?_
  refine refuseIf_bind ?_ ?_
  · rw [hstart, hcsum, hcount, hnext, hF.blocks]
    omega
  refine (copyFileData_steady hdeny node _ s1).bind fun _ s2 hs2 => ?_
  refine (writeChecksumChain_steady hdeny _ _ _ s2).bind fun _ s3 hs3 => ?_
  refine (writeImage_steady hdeny _ _ _ s3).bind fun _ s4 hs4 => ?_
  refine Ends.bind (Q := fun _ s => plan s = plan s4) (Ends.ok (plan_rootInode _ _ _)) ?_
  intro _ s5 hs5
  refine Ends.pure ⟨Nat.add_le_add_left hspan next, ?_⟩
  rw [hs5, hs4, hs3, hs2, hs1]

theorem takes_succ (k : Nat) : totalLen (Clean.usedBy source (List.range' 1 (k + 1)))
    = totalLen (Clean.usedBy source (List.range' 1 k)) + takes source (k + 1) := by
  rw [Clean.usedBy_succ, totalLen_append]
  rfl

theorem Clean.takes_fit (h : Clean source) {k : Nat} (hk : k < maxInodes) :
    8 + totalLen (usedBy source (List.range' 1 k)) ≤ source.blocks := by
  have hused := h.totalLen_usedBy_le (named_sublist hk)
  have hroom : room source ≤ source.blocks := Nat.min_le_left _ _
  have hge := h.ge
  omega

/-- **The loop**: the cursor never passes the end. -/
theorem compactFirst_room (h : Clean source) (hdeny : ∀ c, host.deny c ≠ some (.check .ENOSPC))
    {target : Image ByteFile} (hF : Follows source target) {count : Nat} (hcount : count < maxInodes) :
    Ends NotFull (compactFirst host source count target) fun next _ => next ≤ target.blocks := by
  let I : List Nat → Nat → Image ByteFile → Prop := fun l next img => ∃ k m, k + m = count ∧
    l = List.range' (k + 1) m ∧ next ≤ 8 + totalLen (Clean.usedBy source (List.range' 1 k)) ∧
    Follows source img
  have hstep : ∀ index l next img, I (index :: l) next img →
      Ends NotFull (compactInode host source next index img) fun next' img' => I l next' img' := by
    rintro index l next img ⟨k, m, hkm, hl, hnext, hfollows⟩
    cases m with
    | zero => exact absurd hl (by simp)
    | succ m =>
      rw [List.range'_succ] at hl
      obtain ⟨rfl, rfl⟩ := List.cons.inj hl
      have hk : k + 1 < maxInodes := by omega
      have hfit := h.takes_fit hk
      rw [takes_succ] at hfit
      refine (compactInode_room h hdeny hfollows hk (by omega)).mono ?_
      rintro next' img' ⟨hnext', hplan⟩
      refine ⟨k + 1, m, by omega, rfl, ?_, hfollows.congr hplan⟩
      rw [takes_succ]
      omega
  refine Ends.bind (Q := fun _ s => plan s = plan target) (Ends.ok rfl) ?_
  intro _ img himg
  have hinit : I (List.range' 1 count) 8 img :=
    ⟨0, count, Nat.zero_add count, rfl, Nat.le_refl _, hF.congr himg⟩
  refine (Ends.foldlM I hstep hinit).mono ?_
  rintro next img' ⟨k, m, hkm, -, hnext, -⟩
  have hfit := h.takes_fit (show k < maxInodes by omega)
  rw [hF.blocks]
  omega

end Cursor

/-- **Compaction never runs out of space.**  Whatever volume the run has opened, loaded and found
valid: every file takes at most as many blocks in one piece as it takes now; after any number of
files the cursor is inside the target; and the loop never ends with its `-ENOSPC`. -/
theorem compaction_never_full {host : Host} (hdeny : ∀ c, host.deny c ≠ some (.check .ENOSPC))
    {disk disk' : Disk} {source target : Image ByteFile}
    (h : beginTarget host disk = .ok (source, target) disk') :
    (∀ index, RegularAt source index →
      1 + iBlocks (source.inodeTable index) + (iBlocks (source.inodeTable index) + 1019) / 1020 ≤
        totalLen ((fileSlots source index).map Prod.snd)) ∧
    ∀ count, count < maxInodes →
      (∀ next img, compactFirst host source count target = .ok next img → next ≤ target.blocks) ∧
      ∀ img, compactFirst host source count target ≠ .error (.check .ENOSPC) img := by
  obtain ⟨opened, rep, g, opened', hopen, hload, hval, hg, hopen', hload'⟩ := beginTarget_ok h
  have hclean := clean_of_validate hopen hload hval
  have hfollows := follows_of_front hopen hload hg hopen' hload'
  refine ⟨fun index hr => hclean.span_le_takes hr, fun count hcount => ?_⟩
  have hloop := compactFirst_room hclean hdeny hfollows hcount
  exact ⟨fun next img hok => hloop.of_ok hok, fun img herr => hloop.of_error herr rfl⟩

/-- A volume with one file comes to the loop, and there is room for it. -/
theorem oneFile_never_full : ∃ source target disk',
    beginTarget calmHost ⟨oneFile 16 1 (fun _ => zeros 4096) (by norm_num), none⟩
      = .ok (source, target) disk' ∧
    ∀ img, compactFirst calmHost source (maxInodes - 1) target ≠ .error (.check .ENOSPC) img := by
  obtain ⟨report, disk1, hrun⟩ :=
    @oneFile_succeeds 16 1 (fun _ => zeros 4096) (by norm_num) (by norm_num) (by decide)
  have hbuild : ∃ built d, buildTarget calmHost
      ⟨oneFile 16 1 (fun _ => zeros 4096) (by norm_num), none⟩ = .ok built d := by
    rcases runRebalance_regular calmHost (f := oneFile 16 1 (fun _ => zeros 4096) (by norm_num)) rfl
      with ⟨e, d, herr, -⟩ | ⟨built, d, hb, -⟩
    · rw [herr] at hrun
      exact absurd hrun (by simp)
    · exact ⟨built, d, hb⟩
  obtain ⟨built, d, hb⟩ := hbuild
  rw [buildTarget_eq] at hb
  obtain ⟨⟨source, target⟩, d1, hbegin, -⟩ := estate_bind_ok.mp hb
  exact ⟨source, target, d1, hbegin,
    ((compaction_never_full (fun _ => by simp [calmHost]) hbegin).2 (maxInodes - 1) (by norm_num)).2⟩

end AetherFs
