/-
# Mounting: the checks before the kernel is asked

`aetherfs_run_mount` looks at the image first.  There are two checks.  STRICT is open, load and
validate, through the pool map of `image.c`.  LENIENT (`validateImage`) is written out again in
`mount.c`: it reads the label, the superblock and the checkpoint root at raw byte offsets, one
after the other into one buffer, and compares a handful of fields.

The lenient check asks for less than the LOADER does (`validateImage_of_loads`): an image that
merely loads passes it.  So the three behaviours are ordered, `--strict` inside `--degraded-ro`
inside what `--rescue` takes, and the only thing a degraded mount adds to the strict one is the
read-only flag (`preflight_degraded_iff`).
-/
import AetherFs.Image.Volume

namespace AetherFs

open Lib

/-! ## 1. The two checks -/

/-- The label test of `aetherfs_validate_image`: a block without the magic is let through. -/
def validateLabel (label : PoolLabel) : Except Fail Unit :=
  if plMagic label = poolMagic then do
    failIf (poolLabelChecksum label ≠ plChecksum label) .EILSEQ
    failIf (plMemberCount label ≠ 1) .EOPNOTSUPP
  else .ok ()

/-- `aetherfs_validate_image`: the lenient check. -/
def validateImage (f : ByteFile) : Except Fail Unit := do
  failIf (f.kind = .other) .EINVAL
  let block ← f.readAll (mulU64 poolLabelBlock defBlockSize)
  validateLabel (slice block 0 824)
  let block ← f.readAll (mulU64 superblockBlock defBlockSize)
  let super : Super := slice block 0 256
  failIf (sMagic super ≠ aetherfsMagic) .EINVAL
  failIf (sVersion super ≠ aetherfsVersion) .EINVAL
  failIf (sBlocksize super ≠ defBlockSize) .EINVAL
  failIf (sDeviceCount super ≠ 1) .EOPNOTSUPP
  failIf (sCheckpoint0 super ≠ checkpointRootBlock) .EINVAL
  failIf (sChecksum super ≠ superChecksum super) .EILSEQ
  let root ← f.readAll (mulU64 (sCheckpoint0 super) defBlockSize)
  failIf (crMagic root ≠ checkpointRootMagic) .EINVAL
  failIf (crVersion root ≠ checkpointRootVersion) .EINVAL
  failIf (crChecksum root ≠ checkpointRootChecksum root) .EILSEQ

/-- `aetherfs_validate_strict_image`. -/
def validateStrictImage (f : ByteFile) (beyond : Nat → UInt8) : Except Fail Unit := do
  let image ← imageOpen f false beyond
  let image ← imageLoad image
  let _ ← imageValidate image
  .ok ()

/-! ## 2. The run -/

/-- `enum aetherfs_mount_behavior`. -/
inductive MountBehavior
  | strict
  | degradedRo
  | rescue
deriving DecidableEq, Repr

/-- The `switch` of `aetherfs_run_mount`: `force_read_only`, or a refusal. -/
def preflight (f : ByteFile) (beyond : Nat → UInt8) : MountBehavior → Except Fail Bool
  | .strict => do
    validateStrictImage f beyond
    .ok false
  | .degradedRo =>
    match validateStrictImage f beyond with
    | .ok () => .ok false
    | .error _ => do
      validateImage f
      .ok true
  | .rescue => do
    validateImage f
    .ok true

/-- `struct aetherfs_mount_options`. -/
structure MountOptions where
  imagePath : String
  mountPath : String
  modulePath : Option String
  createMountpoint : Bool
  behavior : MountBehavior

/-- What `waitpid` reports of a child. -/
inductive WaitStatus
  | exited (code : Nat)
  | signaled
  | other
deriving DecidableEq, Repr

/-- The host: what its files are, and what its commands do.  `spawn` is `fork`, `execvp` and
`waitpid` on the arguments the child ends up with. -/
structure MountHost where
  isDirectory : Option Bool
  mkdir : Except Fail Unit
  isRoot : Bool
  registered : Bool
  readable : String → Bool
  spawn : List String → Except Fail WaitStatus

/-- `aetherfs_ensure_mountpoint`. -/
def ensureMountpoint (host : MountHost) (options : MountOptions) : Except Fail Unit :=
  match host.isDirectory with
  | some dir => failIf (dir = false) .ENOTDIR
  | none => do
    failIf (options.createMountpoint = false) .ENOENT
    host.mkdir

/-- `aetherfs_exec_wait` with `require_root`: `doas` in front when the caller is not root. -/
def execWait (host : MountHost) (argv : List String) : Except Fail Unit := do
  let status ← host.spawn (if host.isRoot then argv else "doas" :: argv)
  match status with
  | .exited 0 => .ok ()
  | .exited _ => .error (.check .EPERM)
  | .signaled => .error (.check .EINTR)
  | .other => .error (.check .EIOERR)

/-- `aetherfs_try_load_module`. -/
def tryLoadModule (host : MountHost) (modulePath : Option String) : Except Fail Unit :=
  match execWait host ["modprobe", "-q", "aetherfs"], modulePath with
  | .ok (), _ => .ok ()
  | .error e, none => .error e
  | .error e, some path =>
    if host.readable path then execWait host ["insmod", path] else .error e

/-- The four argument vectors of `aetherfs_run_mount`. -/
def mountArgs (options : MountOptions) (isBlock forceReadOnly : Bool) : List String :=
  let flags := match isBlock, forceReadOnly with
    | true, true => ["-o", "ro"]
    | true, false => []
    | false, true => ["-o", "loop,ro"]
    | false, false => ["-o", "loop"]
  ["mount", "-t", "aetherfs"] ++ flags ++ [options.imagePath, options.mountPath]

/-- `aetherfs_run_mount` on an image that exists: the command it ran. -/
def runMount (host : MountHost) (options : MountOptions) (f : ByteFile) (beyond : Nat → UInt8) :
    Except Fail (List String) := do
  let forceReadOnly ← preflight f beyond options.behavior
  ensureMountpoint host options
  (if host.registered then .ok () else tryLoadModule host options.modulePath)
  let args := mountArgs options (f.kind = .blockDevice) forceReadOnly
  execWait host args
  .ok args

/-! ## 3. The loader asks for more -/

theorem validateLabel_iff {label : PoolLabel} : validateLabel label = .ok () ↔
    (plMagic label = poolMagic →
      poolLabelChecksum label = plChecksum label ∧ plMemberCount label = 1) := by
  unfold validateLabel
  split
  · rename_i h
    simp only [failIf_bind_ok, failIf_eq_ok, not_not]
    exact ⟨fun h' _ => h', fun h' => h' h⟩
  · rename_i h
    exact ⟨fun _ h' => absurd h' h, fun _ => rfl⟩

theorem poolLabelValidate_checksum {label : PoolLabel} (h : poolLabelValidate label = .ok ()) :
    plChecksum label = poolLabelChecksum label := by
  simp only [poolLabelValidate, failIf_bind_ok, not_not] at h
  exact h.2.2.1

/-- Bootstrap blocks of an opened file are read at the offset `mount.c` computes itself. -/
theorem readAll_of_read {f : ByteFile} {writable : Bool} {beyond : Nat → UInt8} {b : Nat}
    {x : Block} (hb : b < 2 ^ 64)
    (h : imageReadBlock (openedFile f writable beyond) b = .ok x) :
    f.readAll (mulU64 b defBlockSize) = .ok x :=
  ((single_read_eq_ok rfl hb).mp h).2

/-- **What loads passes the lenient check.** -/
theorem validateImage_of_loads {f : ByteFile} {writable : Bool} {beyond : Nat → UInt8}
    {img0 img : Image ByteFile} (hopen : imageOpen f writable beyond = .ok img0)
    (hload : imageLoad img0 = .ok img) : validateImage f = .ok () := by
  have hcount := (loaded_file hopen hload).1
  obtain ⟨hkind, hsize, hlabel, rfl⟩ := imageOpen_iff.mp hopen
  have hl := imageLoad_iff.mp hload
  obtain ⟨sb, hsb, hsuper⟩ := hl.readSuper
  have hs := hl.superOk
  have hr := hl.rootOk
  simp only [imageValidateSuper, failIf_bind_ok, failIf_eq_ok, not_not] at hs
  simp only [imageValidateCheckpointRoot, failIf_bind_ok, not_not] at hr
  obtain ⟨s1, s2, s3, s4, -, -, s7, s8, -⟩ := hs
  obtain ⟨r1, r2, r3, -⟩ := hr
  have hread0 : f.readAll (mulU64 poolLabelBlock defBlockSize) = .ok (f.blockAt 0) :=
    ByteFile.readAll_eq_ok.mpr ⟨hsize, rfl⟩
  have hread1 := readAll_of_read (by norm_num) hsb
  have hread7 : f.readAll (mulU64 (sCheckpoint0 img.super) defBlockSize) = .ok img.checkpointRoot :=
    readAll_of_read (le64_lt _ _) hl.readRoot
  have hlabel' : validateLabel (slice (f.blockAt 0) 0 824) = .ok () :=
    validateLabel_iff.mpr fun hm =>
      ⟨(poolLabelValidate_checksum (hlabel hm).1).symm, (hlabel hm).2⟩
  simp only [hsuper] at s1 s2 s3 s4 s7 s8 hread7
  unfold validateImage
  rw [failIf_of_not hkind, ok_bind, hread0, ok_bind, hlabel', ok_bind, hread1, ok_bind]
  simp only [failIf_bind_ok, not_not]
  refine ⟨s1, s2, s3, s7.trans hcount, s8, s4, ?_⟩
  rw [hread7, ok_bind]
  simp only [failIf_bind_ok, failIf_eq_ok, not_not]
  exact ⟨r1, r2, r3⟩

theorem validateStrictImage_iff {f : ByteFile} {beyond : Nat → UInt8} :
    validateStrictImage f beyond = .ok () ↔ ∃ img0 img rep, imageOpen f false beyond = .ok img0 ∧
      imageLoad img0 = .ok img ∧ imageValidate img = .ok rep := by
  simp only [validateStrictImage, bind_eq_ok, and_true]
  constructor
  · rintro ⟨img0, h0, img, h, rep, hrep⟩
    exact ⟨img0, img, rep, h0, h, hrep⟩
  · rintro ⟨img0, img, rep, h0, h, hrep⟩
    exact ⟨img0, h0, img, h, rep, hrep⟩

theorem validateImage_of_strict {f : ByteFile} {beyond : Nat → UInt8}
    (h : validateStrictImage f beyond = .ok ()) : validateImage f = .ok () := by
  obtain ⟨img0, img, -, hopen, hload, -⟩ := validateStrictImage_iff.mp h
  exact validateImage_of_loads hopen hload

/-! ## 4. The three behaviours -/

section Preflight

variable {f : ByteFile} {beyond : Nat → UInt8}

theorem preflight_strict_iff {ro : Bool} : preflight f beyond .strict = .ok ro ↔
    validateStrictImage f beyond = .ok () ∧ ro = false := by
  rw [preflight, bind_eq_ok]
  exact ⟨fun ⟨_, h, hro⟩ => ⟨h, (Except.ok.inj hro).symm⟩, fun ⟨h, hro⟩ => ⟨(), h, hro ▸ rfl⟩⟩

theorem preflight_rescue_iff {ro : Bool} : preflight f beyond .rescue = .ok ro ↔
    validateImage f = .ok () ∧ ro = true := by
  rw [preflight, bind_eq_ok]
  exact ⟨fun ⟨_, h, hro⟩ => ⟨h, (Except.ok.inj hro).symm⟩, fun ⟨h, hro⟩ => ⟨(), h, hro ▸ rfl⟩⟩

/-- **A degraded mount is a strict one, or a rescue.**  It takes whatever the lenient check
takes, and drops write access exactly when the strict check fails. -/
theorem preflight_degraded_iff {ro : Bool} : preflight f beyond .degradedRo = .ok ro ↔
    validateImage f = .ok () ∧ (ro = true ↔ validateStrictImage f beyond ≠ .ok ()) := by
  rw [preflight]
  cases hstrict : validateStrictImage f beyond with
  | ok u =>
    have hlenient : validateImage f = .ok () := validateImage_of_strict hstrict
    cases ro with
    | false => simp [hlenient]
    | true => simp
  | error e =>
    simp only [bind_eq_ok, Except.ok.injEq, ne_eq, reduceCtorEq, not_false_eq_true, iff_true]
    exact ⟨fun ⟨_, h, hro⟩ => ⟨h, hro.symm⟩, fun ⟨h, hro⟩ => ⟨(), h, hro.symm⟩⟩

end Preflight

/-- **Containment of the three checks.**  What loads is not refused by the lenient check, so a
strict mount could have been a degraded or a rescue mount, a degraded mount is read-only exactly
when the strict check fails, and whatever loads can at least be mounted degraded. -/
theorem preflight_containment (f : ByteFile) (beyond : Nat → UInt8) :
    (∀ writable img0 img, imageOpen f writable beyond = .ok img0 → imageLoad img0 = .ok img →
      validateImage f = .ok () ∧ ∃ ro, preflight f beyond .degradedRo = .ok ro) ∧
    ((∃ ro, preflight f beyond .strict = .ok ro) →
      (∃ ro, preflight f beyond .degradedRo = .ok ro) ∧
      ∃ ro, preflight f beyond .rescue = .ok ro) ∧
    (∀ ro, preflight f beyond .degradedRo = .ok ro →
      (ro = true ↔ validateStrictImage f beyond ≠ .ok ())) := by
  have hdegraded : validateImage f = .ok () → ∃ ro, preflight f beyond .degradedRo = .ok ro := by
    intro h
    by_cases hs : validateStrictImage f beyond = .ok ()
    · exact ⟨false, preflight_degraded_iff.mpr ⟨h, by simp [hs]⟩⟩
    · exact ⟨true, preflight_degraded_iff.mpr ⟨h, by simp [hs]⟩⟩
  refine ⟨fun writable img0 img hopen hload => ?_, ?_, fun ro h =>
    (preflight_degraded_iff.mp h).2⟩
  · have h := validateImage_of_loads hopen hload
    exact ⟨h, hdegraded h⟩
  · rintro ⟨ro, h⟩
    have h := validateImage_of_strict (preflight_strict_iff.mp h).1
    exact ⟨hdegraded h, true, preflight_rescue_iff.mpr ⟨h, rfl⟩⟩

/-- A volume with one file of three blocks passes all of them, and keeps its write access. -/
theorem oneFile_preflight :
    preflight (oneFile 32 3 (fun _ => zeros 4096) (by norm_num)) (fun _ => 0) .strict = .ok false ∧
    preflight (oneFile 32 3 (fun _ => zeros 4096) (by norm_num)) (fun _ => 0) .degradedRo
      = .ok false ∧
    ∃ ro, preflight (oneFile 32 3 (fun _ => zeros 4096) (by norm_num)) (fun _ => 0) .rescue
      = .ok ro := by
  obtain ⟨hopen, hload, -, rep, hrep⟩ := @oneFile_validates 32 3 false (fun _ => 0)
    (fun _ => zeros 4096) (by norm_num) (by norm_num) (by decide)
  have hstrict := validateStrictImage_iff.mpr ⟨_, _, rep, hopen, hload, hrep⟩
  have h := preflight_containment (oneFile 32 3 (fun _ => zeros 4096) (by norm_num)) fun _ => 0
  have hs := preflight_strict_iff.mpr ⟨hstrict, rfl⟩
  obtain ⟨⟨ro, hro⟩, hrescue⟩ := h.2.1 ⟨_, hs⟩
  have hno := h.2.2 ro hro
  refine ⟨hs, ?_, hrescue⟩
  cases ro with
  | false => exact hro
  | true => exact absurd hstrict (hno.mp rfl)

/-! ## 5. The whole run -/

theorem runMount_iff {host : MountHost} {options : MountOptions} {f : ByteFile}
    {beyond : Nat → UInt8} {args : List String} : runMount host options f beyond = .ok args ↔
      ∃ ro, preflight f beyond options.behavior = .ok ro ∧ ensureMountpoint host options = .ok () ∧
        (host.registered = false → tryLoadModule host options.modulePath = .ok ()) ∧
        args = mountArgs options (f.kind = .blockDevice) ro ∧ execWait host args = .ok () := by
  simp only [runMount, bind_eq_ok]
  constructor
  · rintro ⟨ro, hpre, _, hdir, _, hmod, _, hexec, hargs⟩
    obtain rfl := Except.ok.inj hargs
    refine ⟨ro, hpre, hdir, fun hreg => ?_, rfl, hexec⟩
    rw [hreg] at hmod
    exact hmod
  · rintro ⟨ro, hpre, hdir, hmod, rfl, hexec⟩
    refine ⟨ro, hpre, (), hdir, (), ?_, (), hexec, rfl⟩
    cases hreg : host.registered with
    | false => exact hmod hreg
    | true => rfl

/-- **`--degraded-ro` never costs a clean image anything**: where a strict mount succeeds, the
degraded one runs the same command. -/
theorem runMount_degraded_of_strict {host : MountHost} {options : MountOptions} {f : ByteFile}
    {beyond : Nat → UInt8} {args : List String}
    (h : runMount host { options with behavior := .strict } f beyond = .ok args) :
    runMount host { options with behavior := .degradedRo } f beyond = .ok args := by
  obtain ⟨ro, hpre, hdir, hmod, hargs, hexec⟩ := runMount_iff.mp h
  obtain ⟨hstrict, rfl⟩ := preflight_strict_iff.mp hpre
  refine runMount_iff.mpr ⟨false, ?_, hdir, hmod, hargs, hexec⟩
  exact preflight_degraded_iff.mpr ⟨validateImage_of_strict hstrict, by simp [hstrict]⟩

end AetherFs
