/-
# The health report and its advice

`aetherfs_run_health` opens an image, loads it and validates it, and names the mount it recommends:
strict if all of that succeeds, degraded if the image loads, rescue if it does not.  What
`aetherfs_run_mount` asks of an image before a rescue mount is the lenient check of `mount.c`, and
health never makes it.

* An image that loads passes the lenient check, so the first two recommendations can be followed.
* An image that does NOT load may fail the lenient check as well, for the same reason: then the
  rescue mount that is recommended is refused.

Both programs read `root_dir` through a structure of their own, so what lies behind it (`beyond`)
need not be the same.
-/
import AetherFs.Mount

namespace AetherFs

open Lib

/-! ## 1. The source -/

/-- `aetherfs_profile_name`. -/
def profileName : Nat → String
  | 0 => "single"
  | 1 => "mirror"
  | 2 => "stripe"
  | 3 => "parity"
  | 4 => "tiered"
  | _ => "unknown"

/-- `aetherfs_mount_recommendation`, on the results of the load and of the validation. -/
def mountRecommendation (load validate : Except Fail Unit) : MountBehavior :=
  match load, validate with
  | .ok _, .ok _ => .strict
  | .ok _, .error _ => .degradedRo
  | .error _, _ => .rescue

/-- The text of a recommendation. -/
def MountBehavior.advice : MountBehavior → String
  | .strict => "strict"
  | .degradedRo => "degraded-read-only"
  | .rescue => "rescue"

/-- What `aetherfs_run_health` prints, the mount it recommends and what it returns. -/
structure HealthRun where
  lines : List String
  recommended : MountBehavior
  result : Except Fail Unit

section Health

variable (strerror : Fail → String)

/-- The lines about an image that was loaded. -/
def healthLines (image : Image ByteFile) (scrub : Except Fail ScrubReport) : List String :=
  ["health: " ++ (match scrub with
      | .ok _ => "clean"
      | .error _ => "damaged"),
    "profile: " ++ profileName (plProfile image.poolLabel),
    "members: " ++ toString image.memberCount,
    "checkpoint root: " ++ toString (sCheckpoint0 image.super),
    "logical blocks: " ++ toString (plLogicalBlocks image.poolLabel),
    "data region: " ++ toString (crDataRegionStart image.checkpointRoot) ++ "-" ++
      toString (crDataRegionEnd image.checkpointRoot),
    "free blocks: " ++ toString (sFreeBlocks image.super),
    match scrub with
    | .ok report =>
      "scrub: clean (files=" ++ toString report.files ++ " directories=" ++
        toString report.directories ++ " data_blocks=" ++ toString report.dataBlocks ++ ")"
    | .error e => "scrub: " ++ strerror e]

/-- `aetherfs_run_health` on a single image; an error is that of the open, and nothing is printed
then. -/
def runHealth (f : ByteFile) (beyond : Nat → UInt8) : Except Fail HealthRun := do
  let image ← imageOpen f false beyond
  match imageLoad image with
  | .ok image =>
    let scrub := imageValidate image
    let validate := scrub.map fun _ => ()
    let recommended := mountRecommendation (.ok ()) validate
    .ok ⟨healthLines strerror image scrub ++ ["recommended mount: " ++ recommended.advice],
      recommended, validate⟩
  | .error e =>
    let recommended := mountRecommendation (.error e) (.error e)
    .ok ⟨["health: unreadable", "load: " ++ strerror e,
      "recommended mount: " ++ recommended.advice], recommended, .error e⟩

/-! ## 2. What is recommended when -/

variable {strerror} {f : ByteFile} {beyond : Nat → UInt8} {run : HealthRun}

theorem runHealth_prints {img0 : Image ByteFile} (hopen : imageOpen f false beyond = .ok img0) :
    ∃ run, runHealth strerror f beyond = .ok run := by
  rw [runHealth, hopen, ok_bind]
  cases imageLoad img0 with
  | ok img => exact ⟨_, rfl⟩
  | error e => exact ⟨_, rfl⟩

/-- The three ways in which a health run that prints anything ends. -/
theorem runHealth_cases (h : runHealth strerror f beyond = .ok run) :
    (run.recommended = .strict ∧ validateStrictImage f beyond = .ok ()) ∨
    (run.recommended = .degradedRo ∧ validateStrictImage f beyond ≠ .ok () ∧
      ∃ img0 img, imageOpen f false beyond = .ok img0 ∧ imageLoad img0 = .ok img) ∨
    (run.recommended = .rescue ∧
      ∃ img0, imageOpen f false beyond = .ok img0 ∧ ∀ img, imageLoad img0 ≠ .ok img) := by
  rw [runHealth, bind_eq_ok] at h
  obtain ⟨img0, hopen, h⟩ := h
  cases hload : imageLoad img0 with
  | error e =>
    rw [hload] at h
    obtain rfl := Except.ok.inj h
    refine Or.inr (Or.inr ⟨rfl, img0, hopen, fun img himg => ?_⟩)
    rw [hload] at himg
    cases himg
  | ok img =>
    cases hscrub : imageValidate img with
    | ok rep =>
      simp only [hload, hscrub] at h
      obtain rfl := Except.ok.inj h
      exact Or.inl ⟨rfl, validateStrictImage_iff.mpr ⟨img0, img, rep, hopen, hload, hscrub⟩⟩
    | error e =>
      simp only [hload, hscrub] at h
      obtain rfl := Except.ok.inj h
      refine Or.inr (Or.inl ⟨rfl, fun hstrict => ?_, img0, img, hopen, hload⟩)
      obtain ⟨img0', img', rep, hopen', hload', hrep⟩ := validateStrictImage_iff.mp hstrict
      obtain rfl := Except.ok.inj (hopen.symm.trans hopen')
      obtain rfl := Except.ok.inj (hload.symm.trans hload')
      rw [hscrub] at hrep
      cases hrep

end Health

theorem Loads.behind {δ : Type} [BlockDev δ] {img img' : Image δ} (h : Loads img img')
    (beyond : Nat → UInt8) : Loads { img with beyond := beyond } { img' with beyond := beyond } := by
  have hread : ∀ block, imageReadBlock { img with beyond := beyond } block = imageReadBlock img block :=
    imageReadBlock_congr img _ rfl rfl rfl
  have hreads : imageReadBlock { img with beyond := beyond } = imageReadBlock img := funext hread
  constructor
  · rw [h.frame]
  · rw [hread]
    exact h.readSuper
  · exact h.superOk
  · rw [hread]
    exact h.readRoot
  · exact h.rootOk
  · rw [hread]
    exact h.readJournal
  · exact h.journalOk
  · rw [hread]
    exact h.readBitmap
  · exact h.bitmapOk
  · rw [hreads]
    exact h.readFree
  · rw [hread]
    exact h.readTable
  · rw [hread]
    exact h.readDir

/-- What passes the strict check in one program loads in another. -/
theorem loads_of_strict {f : ByteFile} {beyond beyond' : Nat → UInt8} {img0 : Image ByteFile}
    (h : validateStrictImage f beyond' = .ok ()) (hopen : imageOpen f false beyond = .ok img0) :
    ∃ img, imageLoad img0 = .ok img := by
  obtain ⟨img0', img', -, hopen', hload', -⟩ := validateStrictImage_iff.mp h
  obtain ⟨-, -, -, rfl⟩ := imageOpen_iff.mp hopen
  obtain ⟨-, -, -, rfl⟩ := imageOpen_iff.mp hopen'
  exact ⟨_, imageLoad_iff.mpr ((imageLoad_iff.mp hload').behind beyond)⟩

/-! ## 3. Following the advice -/

/-- The recommended mount is not refused, and is read-only unless it is a strict one. -/
def Actionable (f : ByteFile) (beyond : Nat → UInt8) (recommended : MountBehavior) : Prop :=
  ∃ ro, preflight f beyond recommended = .ok ro ∧ (recommended ≠ .strict → ro = true)

/-- What the lenient check asks of the superblock. -/
structure LenientSuper (super : Super) : Prop where
  magic : sMagic super = aetherfsMagic
  version : sVersion super = aetherfsVersion
  blocksize : sBlocksize super = defBlockSize
  devices : sDeviceCount super = 1
  checkpoint : sCheckpoint0 super = checkpointRootBlock
  checksum : sChecksum super = superChecksum super

/-- What it asks of the file, the label and the checkpoint root. -/
structure LenientRest (f : ByteFile) : Prop where
  kind : f.kind ≠ .other
  size : 32768 ≤ f.size
  label : plMagic (slice (f.blockAt 0) 0 824) = poolMagic →
    poolLabelChecksum (slice (f.blockAt 0) 0 824) = plChecksum (slice (f.blockAt 0) 0 824) ∧
      plMemberCount (slice (f.blockAt 0) 0 824) = 1
  rootMagic : crMagic (f.blockAt 28672) = checkpointRootMagic
  rootVersion : crVersion (f.blockAt 28672) = checkpointRootVersion
  rootChecksum : crChecksum (f.blockAt 28672) = checkpointRootChecksum (f.blockAt 28672)

/-- **What the lenient check asks.** -/
theorem validateImage_iff {f : ByteFile} : validateImage f = .ok () ↔
    LenientRest f ∧ LenientSuper (slice (f.blockAt 4096) 0 256) := by
  rw [validateImage, failIf_bind_ok]
  simp only [bind_eq_ok, failIf_eq_ok, ByteFile.readAll_eq_ok, not_not, exists_const]
  constructor
  · rintro ⟨hkind, _, ⟨-, rfl⟩, _, hlabel, _, ⟨-, rfl⟩, h1, h2, h3, h4, h5, h6, _, ⟨hsize, rfl⟩, hroot⟩
    rw [h5] at hsize hroot
    exact ⟨⟨hkind, hsize, validateLabel_iff.mp hlabel, hroot.1, hroot.2.1, hroot.2.2⟩,
      h1, h2, h3, h4, h5, h6⟩
  · rintro ⟨⟨hkind, hsize, hlabel, h7, h8, h9⟩, h1, h2, h3, h4, h5, h6⟩
    have h5' : sCheckpoint0 (slice (f.blockAt (mulU64 superblockBlock defBlockSize)) 0 256)
      = checkpointRootBlock := h5
    refine ⟨hkind, _, ⟨Nat.le_trans (by decide) hsize, rfl⟩, (), validateLabel_iff.mpr hlabel, _,
      ⟨Nat.le_trans (by decide) hsize, rfl⟩, h1, h2, h3, h4, h5, h6, _, ⟨?_, rfl⟩, ?_⟩
    · rw [h5']
      exact hsize
    · rw [h5']
      exact ⟨h7, h8, h9⟩

/-- **Health's advice, exactly.**  What `aetherfs_run_health` recommends can be followed exactly if
the lenient check takes the image and the strict check does not change its mind. -/
theorem health_advice_actionable_iff {strerror : Fail → String} {f : ByteFile}
    {beyond : Nat → UInt8} {run : HealthRun} (h : runHealth strerror f beyond = .ok run)
    (beyond' : Nat → UInt8) :
    Actionable f beyond' run.recommended ↔
      (LenientRest f ∧ LenientSuper (slice (f.blockAt 4096) 0 256)) ∧
      (validateStrictImage f beyond = .ok () ↔ validateStrictImage f beyond' = .ok ()) := by
  rw [← validateImage_iff]
  rcases runHealth_cases h with ⟨hrec, hstrict⟩ | ⟨hrec, hstrict, img0, img, hopen, hload⟩ |
    ⟨hrec, img0, hopen, hload⟩
  · rw [hrec]
    constructor
    · rintro ⟨ro, hpre, -⟩
      exact ⟨validateImage_of_strict hstrict, iff_of_true hstrict (preflight_strict_iff.mp hpre).1⟩
    · rintro ⟨-, hsame⟩
      exact ⟨false, preflight_strict_iff.mpr ⟨hsame.mp hstrict, rfl⟩, fun hne => absurd rfl hne⟩
  · rw [hrec]
    have hlenient := validateImage_of_loads hopen hload
    constructor
    · rintro ⟨ro, hpre, hro⟩
      have hro := hro (by decide)
      exact ⟨hlenient, iff_of_false hstrict ((preflight_degraded_iff.mp hpre).2.mp hro)⟩
    · rintro ⟨-, hsame⟩
      have hstrict' : validateStrictImage f beyond' ≠ .ok () := fun hs => hstrict (hsame.mpr hs)
      exact ⟨true, preflight_degraded_iff.mpr ⟨hlenient, iff_of_true rfl hstrict'⟩, fun _ => rfl⟩
  · rw [hrec]
    -- what does not load here passes the strict check nowhere
    have hnever : ∀ b, validateStrictImage f b ≠ .ok () := by
      intro b hs
      obtain ⟨img, himg⟩ := loads_of_strict hs hopen
      exact hload img himg
    constructor
    · rintro ⟨ro, hpre, -⟩
      exact ⟨(preflight_rescue_iff.mp hpre).1, iff_of_false (hnever _) (hnever _)⟩
    · rintro ⟨hlenient, -⟩
      exact ⟨true, preflight_rescue_iff.mpr ⟨hlenient, rfl⟩, fun _ => rfl⟩

/-- A volume with one file of three blocks. -/
def smallVolume : ByteFile := oneFile 32 3 (fun _ => zeros 4096) (by norm_num)

theorem smallVolume_strict (beyond : Nat → UInt8) :
    validateStrictImage smallVolume beyond = .ok () := by
  obtain ⟨hopen, hload, -, rep, hrep⟩ := @oneFile_validates 32 3 false beyond
    (fun _ => zeros 4096) (by norm_num) (by norm_num) (by decide)
  exact validateStrictImage_iff.mpr ⟨_, _, rep, hopen, hload, hrep⟩

theorem health_advice_smallVolume :
    ∃ run, runHealth (fun _ => "") smallVolume (fun _ => 0) = .ok run ∧
      Actionable smallVolume (fun _ => 0) run.recommended := by
  have hstrict := smallVolume_strict fun _ => 0
  obtain ⟨img0, -, -, hopen, -, -⟩ := validateStrictImage_iff.mp hstrict
  obtain ⟨run, hrun⟩ := @runHealth_prints (fun _ => "") _ _ _ hopen
  exact ⟨run, hrun, (health_advice_actionable_iff hrun _).mpr
    ⟨validateImage_iff.mp (validateImage_of_strict hstrict), Iff.rfl⟩⟩

/-- A file of sixteen blocks with nothing in them. -/
def blankFile : ByteFile := ByteFile.zeroed (16 * 4096) (by norm_num)

theorem blankFile_label : plMagic (slice (blankFile.blockAt 0) 0 824) ≠ poolMagic := by
  rw [blankFile, ByteFile.blockAt_zeroed, slice_zeros, plMagic, le32, getLE_zeros]
  decide

theorem blankFile_super (offset : Nat) :
    sMagic (slice (blankFile.blockAt offset) 0 256) ≠ aetherfsMagic := by
  rw [blankFile, ByteFile.blockAt_zeroed, slice_zeros, sMagic, le32, getLE_zeros]
  decide

theorem blankFile_plain : PlainFile blankFile 16 :=
  ⟨by decide, rfl, by norm_num, blankFile_label⟩

theorem blankFile_unloadable (beyond : Nat → UInt8) (img : Image ByteFile) :
    imageLoad (plainImage blankFile 16 false beyond) ≠ .ok img := by
  intro hload
  have hl := imageLoad_iff.mp hload
  obtain ⟨b, hb, hsuper⟩ := hl.readSuper
  rw [plainImage_read blankFile_plain false beyond (by norm_num)] at hb
  have hs := hl.superOk
  simp only [imageValidateSuper, failIf_bind_ok, not_not] at hs
  rw [hsuper, ← Except.ok.inj hb] at hs
  exact blankFile_super _ hs.1

theorem blankFile_lenient : validateImage blankFile = .error (.check .EINVAL) := by
  have hread0 : blankFile.readAll (mulU64 poolLabelBlock defBlockSize) = .ok (blankFile.blockAt 0) :=
    ByteFile.readAll_eq_ok.mpr ⟨by decide, rfl⟩
  have hread1 : blankFile.readAll (mulU64 superblockBlock defBlockSize)
      = .ok (blankFile.blockAt 4096) := ByteFile.readAll_eq_ok.mpr ⟨by decide, rfl⟩
  have hlabel : validateLabel (slice (blankFile.blockAt 0) 0 824) = .ok () :=
    validateLabel_iff.mpr fun h => absurd h blankFile_label
  rw [validateImage, failIf_of_not blankFile_plain.kind, ok_bind, hread0, ok_bind, hlabel, ok_bind,
    hread1, ok_bind]
  simp only [failIf_of (blankFile_super _), error_bind]

theorem blankFile_rescue_refused :
    ∃ run, runHealth (fun _ => "") blankFile (fun _ => 0) = .ok run ∧
      run.recommended = .rescue ∧
      preflight blankFile (fun _ => 0) .rescue = .error (.check .EINVAL) := by
  have hopen := plainFile_open blankFile_plain false fun _ => 0
  obtain ⟨run, hrun⟩ := @runHealth_prints (fun _ => "") _ _ _ hopen
  refine ⟨run, hrun, ?_, ?_⟩
  · rcases runHealth_cases hrun with ⟨-, hstrict⟩ | ⟨-, -, img0, img, hopen', hload⟩ | ⟨hrec, -⟩
    · obtain ⟨img, hload⟩ := loads_of_strict hstrict hopen
      exact absurd hload (blankFile_unloadable _ img)
    · obtain rfl := Except.ok.inj (hopen.symm.trans hopen')
      exact absurd hload (blankFile_unloadable _ img)
    · exact hrec
  · rw [preflight, blankFile_lenient]
    rfl

end AetherFs
