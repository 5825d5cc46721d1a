/-
# `aetherfs_run_rebalance`

The whole run, call by call.  A `Disk` is the file at `path` and the temporary file beside it.
The source image is read from the former; the target image IS the latter, so the programs that
fill it work on an `Image ByteFile` whose device is written as they go.

Every call that can fail has a name (`Call`), and a `Host` says which of them fail and how.  A
transfer moves its whole block or fails; a write that fails may leave anything in the file it was
meant for (`Host.torn`).  One `pwrite` can also be cut short without an error, and then ends the copy of
the reserved blocks with success (`copyReserved`); hosts on which it is are left out
(`Host.neverShort`).  So a statement about all hosts is a statement about every point at
which the run can be cut short.

The last section is what such a cut can do to a regular file at `path`: nothing.  Until the final
`rename` the run does not touch it (`buildTarget_keeps`), and `rename` either replaces it by the
target that has just been loaded and validated, or fails and leaves it.
-/
import AetherFs.Image.Write
import AetherFs.Rebalance.Encode

namespace AetherFs

open Lib

/-! ## 1. The host -/

/-- The directories `aetherfs_image_make_temp_path` tries, in this order. -/
inductive TempDir
  | source
  | varTmp
  | home
  | root
  | tmp
deriving DecidableEq, Repr

/-- The calls of a run that can fail, each with what tells its occurrences apart. -/
inductive Call
  | alloc
  | openSource
  | loadSource
  | validateSource
  | statSource
  | mkstemp (dir : TempDir)
  | openTemp
  | truncateTemp
  | readReserved (block : Nat)
  | writeReserved (block : Nat)
  | openTarget
  | loadTarget
  | readNode (index : Nat)
  | readData (dst : Nat)
  | writeData (dst : Nat)
  | readSum (block : Nat)
  | writeSum (block : Nat)
  | writeNode (block : Nat)
  | writeTable
  | writeFree
  | writeSuper
  | writeJournal
  | reloadTarget
  | validateTarget
  | openDevice
  | readPrefix (block : Nat)
  | writePrefix (block : Nat)
  | syncDevice
  | openRewritten
  | loadRewritten
  | validateRewritten
  | rename
  | unlink
deriving DecidableEq, Repr

/-- What the run depends on outside the files: which calls fail, what a failed write leaves
behind, which directories have room, and what lies behind an image in memory.  A `pwrite` of a reserved
block that is `short` leaves `errno` at 0. -/
structure Host where
  deny : Call → Option Fail
  torn : Call → ByteFile → ByteFile
  short : Nat → Bool
  neverShort : ∀ blocknr, short blocknr = false
  hasSpace : TempDir → Bool
  beyond : Nat → UInt8

namespace Host

variable (host : Host) {σ α : Type}

/-- One call: it does what it does, or it fails and leaves `spoil` of the state. -/
def call (c : Call) (spoil : σ → σ) (x : EStateM Fail σ α) : EStateM Fail σ α := fun s =>
  match host.deny c with
  | none => x s
  | some e => .error e (spoil s)

/-- A call that only reads. -/
def read (c : Call) (x : σ → Except Fail α) : EStateM Fail σ α := host.call c id (liftRead x)

/-- A call that writes a file. -/
def writeFile (c : Call) (x : EStateM Fail ByteFile α) : EStateM Fail ByteFile α :=
  host.call c (host.torn c) x

/-- A call that writes the file of an image. -/
def writeImage (c : Call) (x : EStateM Fail (Image ByteFile) α) :
    EStateM Fail (Image ByteFile) α :=
  host.call c (fun img => img.setDev 0 (host.torn c (img.members 0).dev)) x

end Host

/-! ## 2. Filling the target -/

section Fill

variable (host : Host) (source : Image ByteFile)

/-- `aetherfs_read_extent_node` of `rebalance.c`: the node must also be the only one. -/
def readOnlyNode (rd : Nat → Except Fail Block) (blocknr : Nat) : Except Fail ExtentNode := do
  let node ← rd blocknr
  failIf (enChecksum node ≠ extentNodeChecksum node) .EILSEQ
  failIf (enNext node ≠ 0 ∨ enCount node > extentLogMax) .EINVAL
  .ok node

/-- The body of the loops of `aetherfs_copy_file_data`. -/
def copyBlock (e : Extent) (dst i : Nat) : EStateM Fail (Image ByteFile) Nat := do
  let block ← host.read (.readData dst) fun _ => imageReadBlock source (addU64 (ePstart e) i)
  host.writeImage (.writeData dst) (imageWriteBlock dst block)
  pure (addU64 dst 1)

/-- `aetherfs_copy_file_data`: the next block to be written. -/
def copyFileData (node : ExtentNode) (dstStart : Nat) : EStateM Fail (Image ByteFile) Nat :=
  (enExtents node).foldlM
    (fun dst e => (List.range (eLen e)).foldlM (copyBlock host source e) dst) dstStart

/-- The sum of one data block of the target. -/
def readSum (block : Nat) : EStateM Fail (Image ByteFile) Nat := do
  let data ← host.read (.readSum block) fun target => imageReadBlock target block
  pure (crc32cData (toList data))

/-- `aetherfs_write_checksum_chain`. -/
def writeChecksumChain (remaining dataBlock csumBlock : Nat) :
    EStateM Fail (Image ByteFile) Unit :=
  if remaining = 0 then pure ()
  else do
    let entries := min checksumsPerBlock remaining
    let sums ← (List.range entries).mapM fun index => readSum host (addU64 dataBlock index)
    host.writeImage (.writeSum csumBlock) (imageWriteBlock csumBlock
      (sumsBlock sums (if remaining > entries then addU64 csumBlock 1 else 0)))
    writeChecksumChain (remaining - entries) (addU64 dataBlock entries) (addU64 csumBlock 1)
termination_by remaining
decreasing_by
  simp only [checksumsPerBlock]
  omega

/-- `inode->i_extent_root = root`, sealed again. -/
def setExtentRoot (inode : Inode) (root : Nat) : Inode := sealAt (put64 inode 52 root) 100

/-- The same in the table of an image. -/
def rootInode (index root : Nat) (img : Image ByteFile) : Image ByteFile :=
  { img with
    inodeTable := Function.update img.inodeTable index (setExtentRoot (img.inodeTable index) root) }

/-- One turn of the inode loop: `next_block`. -/
def compactInode (next index : Nat) : EStateM Fail (Image ByteFile) Nat := do
  let target ← get
  if imageBitmapTest target.inodeBitmap index = false then pure next
  else if ¬ sIsReg (iMode (target.inodeTable index)) then pure next
  else if iBlocks (source.inodeTable index) = 0 then do
    modify (rootInode index 0)
    pure next
  else do
    let fileBlocks := iBlocks (source.inodeTable index)
    let node ← host.read (.readNode index) fun _ =>
      readOnlyNode (imageReadBlock source) (iExtentRoot (source.inodeTable index))
    let extentRoot := next
    let dataStart := addU64 next 1
    let csumStart := addU64 dataStart fileBlocks
    let next := addU64 csumStart (addU64 fileBlocks (checksumsPerBlock - 1) / checksumsPerBlock)
    refuseIf (next > target.blocks) .ENOSPC
    let _ ← copyFileData host source node dataStart
    writeChecksumChain host fileBlocks dataStart csumStart
    host.writeImage (.writeNode extentRoot)
      (imageWriteBlock extentRoot (newExtents dataStart csumStart fileBlocks))
    modify (rootInode index extentRoot)
    pure next

/-- What is set after the loop. -/
def finishTarget (next : Nat) (target : Image ByteFile) : Image ByteFile :=
  { target with
    freeExtents := if next < target.blocks then
        put64 (put64 (put32 target.freeExtents 8 1) 24 next) 40 (target.blocks - next)
      else put32 target.freeExtents 8 0
    super := setFreeBlocks target.super (subU64 target.blocks next)
    journal := sealJournal (put32 target.journal 36 0) }

/-- The metadata goes out. -/
def writeTarget : EStateM Fail (Image ByteFile) Unit := do
  host.writeImage .writeTable imageWriteInodeTable
  host.writeImage .writeFree imageWriteFreeExtents
  host.writeImage .writeSuper imageWriteSuper
  host.writeImage .writeJournal imageWriteJournal

/-- The target is loaded again and validated. -/
def checkTarget : EStateM Fail (Image ByteFile) ScrubReport := do
  let target ← host.read .reloadTarget imageLoad
  set target
  host.read .validateTarget imageValidate

/-- The target from the loop to its validation: `next_block` and the report. -/
def fillTarget : EStateM Fail (Image ByteFile) (Nat × ScrubReport) := do
  modify fun target => { target with freeExtents := zeros 4096 }
  let next ← (List.range' 1 (maxInodes - 1)).foldlM (compactInode host source) dataStartBlock
  modify (finishTarget next)
  writeTarget host
  let report ← checkTarget host
  pure (next, report)

end Fill

/-! ## 3. The disk -/

/-- The file at `path`, and the temporary file while there is one. -/
structure Disk where
  path : ByteFile
  temp : Option ByteFile

section Disk

variable {α : Type}

/-- Work on the temporary file. -/
def onTemp (x : EStateM Fail ByteFile α) : EStateM Fail Disk α := fun d =>
  match d.temp with
  | none => .error (.sys .ENOENT) d
  | some f =>
    match x f with
    | .ok a f' => .ok a { d with temp := some f' }
    | .error e f' => .error e { d with temp := some f' }

/-- Work on the target image, whose device is the temporary file. -/
def onTarget (target : Image ByteFile) (x : EStateM Fail (Image ByteFile) α) :
    EStateM Fail Disk (α × Image ByteFile) := fun d =>
  match x target with
  | .ok a target' => .ok (a, target') { d with temp := some (target'.members 0).dev }
  | .error e target' => .error e { d with temp := some (target'.members 0).dev }

/-- Work on the file at `path`. -/
def onPath (x : EStateM Fail ByteFile α) : EStateM Fail Disk α := fun d =>
  match x d.path with
  | .ok a f => .ok a { d with path := f }
  | .error e f => .error e { d with path := f }

variable (host : Host)

/-- The candidates of `aetherfs_image_make_temp_path`: beside a device there is no place. -/
def tempDirs (kind : FileKind) : List TempDir :=
  if kind = .blockDevice then [.varTmp, .home, .root, .tmp]
  else [.source, .varTmp, .home, .root, .tmp]

/-- `aetherfs_image_make_temp_path`: a new file in the first directory that has room for it.  That
none has is what `statvfs` answers, so it counts as a failure of the host. -/
def makeTempPath : EStateM Fail Disk Unit := do
  let kind ← host.read .statSource fun disk => .ok disk.path.kind
  match (tempDirs kind).find? host.hasSpace with
  | none => throw (.sys .ENOSPC)
  | some dir =>
    host.call (.mkstemp dir) id (modify fun disk => { disk with temp := some .empty })

/-- `ftruncate`. -/
def truncateFile (size : Nat) : EStateM Fail ByteFile Unit := fun f =>
  if h : size < 2 ^ 63 then .ok () (f.truncate size h) else .error (.sys .EINVAL) f

/-- One turn of `aetherfs_copy_reserved_blocks`: whether it has returned. -/
def copyReserved (source : Image ByteFile) (returned : Bool) (blocknr : Nat) :
    EStateM Fail ByteFile Bool :=
  if returned then pure true
  else do
    let block ← host.read (.readReserved blocknr) fun _ => imageReadBlock source blocknr
    if host.short blocknr then do
      -- `return -errno`, which is 0
      modify (host.torn (.writeReserved blocknr))
      pure true
    else do
      host.writeFile (.writeReserved blocknr) (putBlock blocknr block)
      pure false

/-- `aetherfs_copy_reserved_blocks`. -/
def copyReservedBlocks (source : Image ByteFile) : EStateM Fail ByteFile Unit := do
  let _ ← (List.range dataStartBlock).foldlM (copyReserved host source) false

/-- What the first part of a run hands to the second. -/
structure Built where
  source : Image ByteFile
  target : Image ByteFile
  next : Nat
  report : ScrubReport

/-- `aetherfs_run_rebalance` up to the loaded target: the source and the target. -/
def beginTarget : EStateM Fail Disk (Image ByteFile × Image ByteFile) := do
  host.read .alloc fun _ => .ok ()
  let source ← host.read .openSource fun disk => imageOpen disk.path false host.beyond
  refuseIf (source.sizeBytes = 0) .EOPNOTSUPP
  let source ← host.read .loadSource fun _ => imageLoad source
  let _ ← host.read .validateSource fun _ => imageValidate source
  makeTempPath host
  host.call .openTemp id (onTemp (set ByteFile.empty))
  host.call .truncateTemp id (onTemp (truncateFile source.sizeBytes))
  onTemp (copyReservedBlocks host source)
  let target ← host.read .openTarget fun disk =>
    match disk.temp with
    | none => .error (.sys .ENOENT)
    | some f => imageOpen f true host.beyond
  let target ← host.read .loadTarget fun _ => imageLoad target
  pure (source, target)

/-- The run up to the validated target. -/
def buildTarget : EStateM Fail Disk Built := do
  let begun ← beginTarget host
  let (out, target) ← onTarget begun.2 (fillTarget host begun.1)
  pure ⟨begun.1, target, out.1, out.2⟩

/-- `aetherfs_copy_prefix_to_device`. -/
def copyPrefixToDevice (target : Image ByteFile) (blocks : Nat) :
    EStateM Fail ByteFile Unit := do
  (List.range blocks).foldlM (fun _ blocknr => do
    let block ← host.read (.readPrefix blocknr) fun _ => imageReadBlock target blocknr
    host.writeFile (.writePrefix blocknr) (putBlock blocknr block)) ()
  host.read .syncDevice fun _ => .ok ()

/-- A block device is overwritten in place and read back. -/
def installDevice (built : Built) : EStateM Fail Disk ScrubReport := do
  host.read .openDevice fun _ => .ok ()
  onPath (copyPrefixToDevice host built.target built.next)
  let rewritten ← host.read .openRewritten fun disk => imageOpen disk.path false host.beyond
  let rewritten ← host.read .loadRewritten fun _ => imageLoad rewritten
  host.read .validateRewritten fun _ => imageValidate rewritten

/-- `rename(temp_path, path)`. -/
def renameTemp : EStateM Fail Disk Unit := fun disk =>
  match disk.temp with
  | none => .error (.sys .ENOENT) disk
  | some f => .ok () ⟨f, none⟩

/-- The last part of a run. -/
def installTarget (built : Built) : EStateM Fail Disk ScrubReport :=
  if built.source.isBlockDevice then installDevice host built
  else do
    host.call .rename id renameTemp
    pure built.report

/-- `unlink(temp_path)`, whose own failure is ignored. -/
def unlinkTemp (disk : Disk) : Disk :=
  match host.deny .unlink with
  | none => { disk with temp := none }
  | some _ => disk

/-- `aetherfs_run_rebalance`, with the report it prints.  Both ways out unlink the temporary
file. -/
def runRebalance : EStateM Fail Disk ScrubReport := fun disk =>
  match (buildTarget host >>= installTarget host) disk with
  | .ok report disk' => .ok report (unlinkTemp host disk')
  | .error e disk' => .error e (unlinkTemp host disk')

end Disk

/-! ## 4. What a failure leaves behind -/

section Atomic

variable {host : Host} {α : Type}

theorem Host.call_keeps {σ τ : Type} {π : σ → τ} {c : Call} {spoil : σ → σ}
    {x : EStateM Fail σ α} (hs : ∀ s, π (spoil s) = π s) (hx : Keeps π x) :
    Keeps π (host.call c spoil x) := by
  intro s
  unfold Host.call
  cases host.deny c with
  | none => exact hx s
  | some e => exact hs s

theorem Host.read_keeps {σ τ : Type} {π : σ → τ} (c : Call) (x : σ → Except Fail α) :
    Keeps π (host.read c x) := Host.call_keeps (fun _ => rfl) (Keeps.liftRead x)

theorem Host.call_ok {σ : Type} {c : Call} {spoil : σ → σ} {x : EStateM Fail σ α} {s s' : σ}
    {a : α} (h : host.call c spoil x s = .ok a s') : x s = .ok a s' := by
  unfold Host.call at h
  cases hd : host.deny c with
  | none => rwa [hd] at h
  | some e =>
    rw [hd] at h
    exact absurd h (by simp)

theorem Host.read_ok {σ : Type} {c : Call} {x : σ → Except Fail α} {s s' : σ} {a : α}
    (h : host.read c x s = .ok a s') : x s = .ok a ∧ s' = s := liftRead_ok.mp (Host.call_ok h)

theorem onTemp_keeps (x : EStateM Fail ByteFile α) : Keeps Disk.path (onTemp x) := by
  intro d
  unfold onTemp
  split
  · rfl
  · split <;> rfl

theorem onTarget_keeps (target : Image ByteFile) (x : EStateM Fail (Image ByteFile) α) :
    Keeps Disk.path (onTarget target x) := by
  intro d
  unfold onTarget
  split <;> rfl

theorem makeTempPath_keeps : Keeps Disk.path (makeTempPath host) := by
  refine (Host.read_keeps _ _).bind fun kind => ?_
  split
  · exact fun _ => rfl
  · exact Host.call_keeps (fun _ => rfl) fun _ => rfl

theorem beginTarget_keeps : Keeps Disk.path (beginTarget host) := by
  refine (Host.read_keeps _ _).bind fun _ => (Host.read_keeps _ _).bind fun source => ?_
  refine (Keeps.liftRead _).bind fun _ => (Host.read_keeps _ _).bind fun source => ?_
  refine (Host.read_keeps _ _).bind fun _ => makeTempPath_keeps.bind fun _ => ?_
  refine (Host.call_keeps (fun _ => rfl) (onTemp_keeps _)).bind fun _ => ?_
  refine (Host.call_keeps (fun _ => rfl) (onTemp_keeps _)).bind fun _ => ?_
  refine (onTemp_keeps _).bind fun _ => (Host.read_keeps _ _).bind fun target => ?_
  exact (Host.read_keeps _ _).bind fun target => Keeps.pure _

/-- **The build does not touch the file at `path`.** -/
theorem buildTarget_keeps : Keeps Disk.path (buildTarget host) :=
  beginTarget_keeps.bind fun _ => (onTarget_keeps _ _).bind fun _ => Keeps.pure _

/-- What a finished build hands over has just been loaded and validated, and it is what the
temporary file holds. -/
theorem checkTarget_ok {target target' : Image ByteFile} {report : ScrubReport}
    (h : checkTarget host target = .ok report target') :
    imageLoad target = .ok target' ∧ imageValidate target' = .ok report := by
  obtain ⟨loaded, t1, h1, h⟩ := estate_bind_ok.mp h
  obtain ⟨_, t2, h2, h3⟩ := estate_bind_ok.mp h
  obtain ⟨hload, -⟩ := Host.read_ok h1
  obtain ⟨-, rfl⟩ := EStateM.Result.ok.inj h2
  obtain ⟨hval, rfl⟩ := Host.read_ok h3
  exact ⟨hload, hval⟩

theorem fillTarget_validated {source target target' : Image ByteFile} {out : Nat × ScrubReport}
    (h : fillTarget host source target = .ok out target') :
    ∃ written, imageLoad written = .ok target' ∧ imageValidate target' = .ok out.2 ∧
      (written.members 0).dev = (target'.members 0).dev := by
  obtain ⟨_, t1, -, h⟩ := estate_bind_ok.mp h
  obtain ⟨next, t2, -, h⟩ := estate_bind_ok.mp h
  obtain ⟨_, t3, -, h⟩ := estate_bind_ok.mp h
  obtain ⟨_, t4, -, h⟩ := estate_bind_ok.mp h
  obtain ⟨report, t5, hcheck, h⟩ := estate_bind_ok.mp h
  obtain ⟨rfl, rfl⟩ := EStateM.Result.ok.inj h
  obtain ⟨hload, hval⟩ := checkTarget_ok hcheck
  exact ⟨_, hload, hval, by rw [(imageLoad_iff.mp hload).kept.2.2.1]⟩

theorem onTarget_ok {target target' : Image ByteFile} {x : EStateM Fail (Image ByteFile) α}
    {disk disk' : Disk} {a : α} (h : onTarget target x disk = .ok (a, target') disk') :
    x target = .ok a target' ∧ disk'.temp = some (target'.members 0).dev := by
  unfold onTarget at h
  cases hx : x target with
  | ok b t =>
    rw [hx] at h
    obtain ⟨hb, rfl⟩ := EStateM.Result.ok.inj h
    obtain ⟨rfl, rfl⟩ := Prod.mk.inj hb
    exact ⟨rfl, rfl⟩
  | error e t =>
    rw [hx] at h
    exact absurd h (by simp)

/-- What a run has done when it comes to the loop. -/
theorem beginTarget_inv {disk disk' : Disk} {begun : Image ByteFile × Image ByteFile}
    (h : beginTarget host disk = .ok begun disk') : ∃ opened rep d1 d2 d3 g opened',
      imageOpen disk.path false host.beyond = .ok opened ∧ imageLoad opened = .ok begun.1 ∧
      imageValidate begun.1 = .ok rep ∧ makeTempPath host disk = .ok () d1 ∧
      onTemp (set ByteFile.empty) d1 = .ok () d2 ∧
      onTemp (truncateFile begun.1.sizeBytes) d2 = .ok () d3 ∧
      onTemp (copyReservedBlocks host begun.1) d3 = .ok () disk' ∧ disk'.temp = some g ∧
      imageOpen g true host.beyond = .ok opened' ∧ imageLoad opened' = .ok begun.2 := by
  obtain ⟨_, _, h1, h⟩ := estate_bind_ok.mp h
  obtain ⟨opened, _, h2, h⟩ := estate_bind_ok.mp h
  obtain ⟨_, _, h3, h⟩ := estate_bind_ok.mp h
  obtain ⟨source, _, h4, h⟩ := estate_bind_ok.mp h
  obtain ⟨rep, _, h5, h⟩ := estate_bind_ok.mp h
  obtain ⟨_, d1, htemp, h⟩ := estate_bind_ok.mp h
  obtain ⟨_, d2, h7, h⟩ := estate_bind_ok.mp h
  obtain ⟨_, d3, h8, h⟩ := estate_bind_ok.mp h
  obtain ⟨_, d4, hcopy, h⟩ := estate_bind_ok.mp h
  obtain ⟨opened', _, h10, h⟩ := estate_bind_ok.mp h
  obtain ⟨target, _, h11, h⟩ := estate_bind_ok.mp h
  obtain ⟨rfl, rfl⟩ := EStateM.Result.ok.inj h
  obtain ⟨-, rfl⟩ := Host.read_ok h1
  obtain ⟨hopen, rfl⟩ := Host.read_ok h2
  obtain ⟨-, rfl⟩ := liftRead_ok.mp h3
  obtain ⟨hload, rfl⟩ := Host.read_ok h4
  obtain ⟨hval, rfl⟩ := Host.read_ok h5
  obtain ⟨hopen', rfl⟩ := Host.read_ok h10
  obtain ⟨hload', rfl⟩ := Host.read_ok h11
  split at hopen'
  · cases hopen'
  · next g hg =>
    exact ⟨opened, rep, d1, d2, d3, g, opened', hopen, hload, hval, htemp, Host.call_ok h7,
      Host.call_ok h8, hcopy, hg, hopen', hload'⟩

theorem buildTarget_validated {disk disk' : Disk} {built : Built}
    (h : buildTarget host disk = .ok built disk') :
    ∃ written, imageLoad written = .ok built.target ∧ imageValidate built.target = .ok built.report ∧
      (written.members 0).dev = (built.target.members 0).dev ∧
      disk'.temp = some (built.target.members 0).dev ∧
      built.source.isBlockDevice = decide (disk.path.kind = .blockDevice) := by
  obtain ⟨begun, d11, hbegin, h⟩ := estate_bind_ok.mp h
  obtain ⟨out, d12, h12, h⟩ := estate_bind_ok.mp h
  obtain ⟨rfl, rfl⟩ := EStateM.Result.ok.inj h
  obtain ⟨opened, -, -, -, -, -, -, hopen, hload, -⟩ := beginTarget_inv hbegin
  obtain ⟨hfill, htemp⟩ := onTarget_ok h12
  obtain ⟨written, hl, hv, hdev⟩ := fillTarget_validated hfill
  refine ⟨written, hl, hv, hdev, htemp, ?_⟩
  obtain ⟨-, -, -, rfl⟩ := imageOpen_iff.mp hopen
  change begun.1.isBlockDevice = _
  rw [(imageLoad_iff.mp hload).frame]
  rfl

theorem unlinkTemp_path (host : Host) (disk : Disk) : (unlinkTemp host disk).path = disk.path := by
  unfold unlinkTemp
  split <;> rfl

/-- For a file that is no device the last part is one `rename`: it takes place, or nothing does. -/
theorem installTarget_regular (host : Host) {built : Built} (hblk : built.source.isBlockDevice = false)
    {disk : Disk} {f : ByteFile} (htemp : disk.temp = some f) :
    (host.deny .rename = none ∧ installTarget host built disk = .ok built.report ⟨f, none⟩) ∨
      ∃ e, installTarget host built disk = .error e disk := by
  have hrename : renameTemp disk = .ok () ⟨f, none⟩ := by rw [renameTemp, htemp]
  rw [installTarget, if_neg (by simp [hblk])]
  cases hd : host.deny .rename with
  | none =>
    refine Or.inl ⟨rfl, estate_bind_ok.mpr ⟨(), _, ?_, rfl⟩⟩
    rw [Host.call, hd]
    exact hrename
  | some e =>
    refine Or.inr ⟨e, ?_⟩
    change EStateM.bind _ _ disk = _
    simp only [EStateM.bind, Host.call, hd, id_eq]

/-- The two ways a run on a regular file can end. -/
theorem runRebalance_regular (host : Host) {f : ByteFile} (hreg : f.kind = .regular) :
    (∃ e disk', runRebalance host ⟨f, none⟩ = .error e disk' ∧ disk'.path = f) ∨
    ∃ built disk1, buildTarget host ⟨f, none⟩ = .ok built disk1 ∧ host.deny .rename = none ∧
      runRebalance host ⟨f, none⟩
        = .ok built.report (unlinkTemp host ⟨(built.target.members 0).dev, none⟩) := by
  have hrun : ∀ r, (buildTarget host >>= installTarget host) ⟨f, none⟩ = r →
      runRebalance host ⟨f, none⟩ = match r with
        | .ok report disk' => .ok report (unlinkTemp host disk')
        | .error e disk' => .error e (unlinkTemp host disk') := by
    rintro r rfl
    rfl
  have hkeeps : (finalState (buildTarget host ⟨f, none⟩)).path = f := buildTarget_keeps _
  cases hb : buildTarget host ⟨f, none⟩ with
  | error e disk1 =>
    rw [hb] at hkeeps
    refine Or.inl ⟨e, _, hrun (.error e disk1) ?_, (unlinkTemp_path host disk1).trans hkeeps⟩
    change EStateM.bind _ _ _ = _
    simp only [EStateM.bind, hb]
  | ok built disk1 =>
    rw [hb] at hkeeps
    obtain ⟨written, -, -, -, htemp, hblk⟩ := buildTarget_validated hb
    rw [hreg] at hblk
    have hbind : (buildTarget host >>= installTarget host) ⟨f, none⟩
        = installTarget host built disk1 := by
      change EStateM.bind _ _ _ = _
      simp only [EStateM.bind, hb]
    rcases installTarget_regular host hblk htemp with ⟨hd, hok⟩ | ⟨e, herr⟩
    · exact Or.inr ⟨built, disk1, rfl, hd, hrun _ (hbind.trans hok)⟩
    · exact Or.inl ⟨e, _, hrun _ (hbind.trans herr), (unlinkTemp_path host disk1).trans hkeeps⟩

/-- **All or nothing.**  Whatever fails, the file at `path` is what it was; and if nothing does, it
is the target the run has built, loaded and validated. -/
theorem rebalance_atomic (host : Host) (f : ByteFile) (hreg : f.kind = .regular) :
    (∀ e disk', runRebalance host ⟨f, none⟩ = .error e disk' → disk'.path = f) ∧
    (∀ report disk', runRebalance host ⟨f, none⟩ = .ok report disk' →
      ∃ built written disk1, buildTarget host ⟨f, none⟩ = .ok built disk1 ∧
        disk'.path = (built.target.members 0).dev ∧
        (written.members 0).dev = (built.target.members 0).dev ∧
        imageLoad written = .ok built.target ∧ imageValidate built.target = .ok report) := by
  rcases runRebalance_regular host hreg with ⟨e, disk', hrun, hpath⟩ | ⟨built, disk1, hb, -, hrun⟩
  · rw [hrun]
    refine ⟨fun e' disk'' h => ?_, fun _ _ h => absurd h (by simp)⟩
    obtain ⟨-, rfl⟩ := EStateM.Result.error.inj h
    exact hpath
  · rw [hrun]
    refine ⟨fun _ _ h => absurd h (by simp), fun report disk' h => ?_⟩
    obtain ⟨rfl, rfl⟩ := EStateM.Result.ok.inj h
    obtain ⟨written, hl, hv, hdev, -⟩ := buildTarget_validated hb
    exact ⟨built, written, disk1, hb, unlinkTemp_path _ _, hdev, hl, hv⟩

/-- A host on which `rename` finds the two names on different file systems. -/
def crossDevice : Host where
  deny c := if c = .rename then some (.sys .EXDEV) else none
  torn _ f := f
  short _ := false
  neverShort _ := rfl
  hasSpace _ := true
  beyond _ := 0

/-- There no run succeeds, and a volume with one file stays what it is. -/
theorem oneFile_survives : ∃ e disk',
    runRebalance crossDevice ⟨oneFile 16 1 (fun _ => zeros 4096) (by norm_num), none⟩
      = .error e disk' ∧ disk'.path = oneFile 16 1 (fun _ => zeros 4096) (by norm_num) := by
  have hatomic := rebalance_atomic crossDevice (oneFile 16 1 (fun _ => zeros 4096) (by norm_num)) rfl
  cases hrun : runRebalance crossDevice ⟨oneFile 16 1 (fun _ => zeros 4096) (by norm_num), none⟩ with
  | error e disk' => exact ⟨e, disk', rfl, hatomic.1 e disk' hrun⟩
  | ok report disk' =>
    rcases runRebalance_regular crossDevice (f := oneFile 16 1 (fun _ => zeros 4096) (by norm_num))
      rfl with ⟨e, d, h, -⟩ | ⟨built, d, -, hd, -⟩
    · rw [h] at hrun
      exact absurd hrun (by simp)
    · exact absurd hd (by simp [crossDevice])

end Atomic

end AetherFs
