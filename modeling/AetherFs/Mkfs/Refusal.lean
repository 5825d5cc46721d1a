/-
# A refused format

What `aetherfs_run_mkfs` does to an existing regular file when it returns an error of its own, no
system call having failed.  The tests and the destructive steps are interleaved:

1. the block size, and the magic of a file that is not to be overwritten -- nothing has happened;
2. `ftruncate` to the size that was asked for;
3. the test for room for the bootstrap blocks;
4. the bootstrap blocks;
5. the seven validators, one of which wants at least one data block.

So there are three ways to be refused (`Refusal`): before step 2; at step 3, with the file cut or
extended to fewer than eight blocks; and at step 5, which happens for eight blocks exactly, with a
bootstrap written over the file.
-/
import AetherFs.Mkfs.Run

namespace AetherFs

open Lib

/-! ## 1. The ways to be refused -/

section Refused

variable {options : MkfsOptions} {env : MkfsEnv} {f f' : ByteFile} {uuid : Bytes 16} {e : Errno}

/-- The tests that come before anything is done to the file. -/
def RefusedEarly (options : MkfsOptions) (env : MkfsEnv) (f : ByteFile) : Prop :=
  options.blockSize ≠ defBlockSize ∨ inspectTarget options env f ≠ .ok () ∨
    (options.blocks = 0 ∧ f.size ≠ 8 * defBlockSize)

/-- How a run is refused, and what it leaves behind. -/
inductive Refusal (options : MkfsOptions) (env : MkfsEnv) (uuid : Bytes 16) (f f' : ByteFile) : Prop
  | early (htest : RefusedEarly options env f) (hsame : f' = f)
  | short (htest : ¬ RefusedEarly options env f) (hpos : 0 < options.blocks)
      (hlt : options.blocks < 8) (hs : options.blocks * 4096 < 2 ^ 63)
      (hcut : f' = f.truncate (options.blocks * 4096) hs)
  | eight (htest : ¬ RefusedEarly options env f) (hblocks : options.blocks = 0 ∨ options.blocks = 8)
      (hsize : f'.size = 32768) (hold : Holding 32768 (bootBlocks options env 8 uuid) f')

theorem refuseIf_error {σ : Type} {p : Prop} [Decidable p] {e : Errno} {x : Fail} {s s' : σ} :
    refuseIf p e s = .error x s' ↔ p ∧ x = .check e ∧ s' = s := by
  rw [refuseIf, liftRead_error, failIf]
  split
  · rename_i hp
    simp [hp, eq_comm]
  · rename_i hp
    simp [hp]

/-- The size of a regular target that no test has refused so far. -/
theorem sizeTarget_cases (hk : f.kind = .regular) (hsize : options.blockSize = 4096) :
    (options.blocks > 0 ∧ ∃ hs, sizeTarget options f
        = .ok options.blocks (f.truncate (mulU64 options.blocks options.blockSize) hs)) ∨
      (options.blocks > 0 ∧ sizeTarget options f = .error (.sys .EINVAL) f) ∨
      (options.blocks = 0 ∧ f.size % 4096 = 0 ∧ sizeTarget options f = .ok (f.size / 4096) f) ∨
      (options.blocks = 0 ∧ f.size ≠ 8 * 4096 ∧ sizeTarget options f = .error (.check .EINVAL) f) := by
  unfold sizeTarget
  by_cases hpos : options.blocks > 0
  · rw [if_pos hpos, if_pos hk]
    by_cases hs : mulU64 options.blocks options.blockSize < 2 ^ 63
    · rw [dif_pos hs]
      exact Or.inl ⟨hpos, hs, rfl⟩
    · rw [dif_neg hs]
      exact Or.inr (Or.inl ⟨hpos, rfl⟩)
  · have hzero : options.blocks = 0 := Nat.eq_zero_of_not_pos hpos
    rw [if_neg hpos, if_neg (by simp [hk]), hsize]
    by_cases hempty : f.size > 0
    · rw [if_pos hempty]
      by_cases hrem : f.size % 4096 = 0
      · rw [if_neg (not_not.mpr hrem)]
        exact Or.inr (Or.inr (Or.inl ⟨hzero, hrem, rfl⟩))
      · rw [if_pos hrem]
        refine Or.inr (Or.inr (Or.inr ⟨hzero, fun h => hrem ?_, rfl⟩))
        rw [h]
    · rw [if_neg hempty]
      refine Or.inr (Or.inr (Or.inr ⟨hzero, fun h => hempty ?_, rfl⟩))
      rw [h]
      norm_num

theorem prepareTarget_refused (hk : f.kind = .regular) (hsize : options.blockSize = 4096)
    (h : prepareTarget options env f = .error (.check e) f') : Refusal options env uuid f f' := by
  rcases estate_bind_error.mp h with hinspect | ⟨_, f1, hinspect, h1⟩
  · obtain ⟨hinspect, rfl⟩ := liftRead_error.mp hinspect
    refine .early (Or.inr (Or.inl fun hok => ?_)) rfl
    rw [hok] at hinspect
    exact absurd hinspect (by simp)
  obtain ⟨hinspect, rfl⟩ := liftRead_ok.mp hinspect
  rcases sizeTarget_cases hk hsize with ⟨hpos, hs, hok⟩ | ⟨-, herr⟩ | ⟨hzero, hrem, hok⟩ |
    ⟨hzero, hne, herr⟩
  · -- the file is cut before the test for room
    rcases estate_bind_error.mp h1 with hsized | ⟨blocks, g, hg, h2⟩
    · exact absurd (hsized.symm.trans hok) (by simp)
    obtain ⟨rfl, rfl⟩ := EStateM.Result.ok.inj (hok.symm.trans hg)
    rcases estate_bind_error.mp h2 with hroom | ⟨_, _, -, h3⟩
    · obtain ⟨hlt, -, rfl⟩ := refuseIf_error.mp hroom
      have hlt : options.blocks < 8 := hlt
      have hbytes : mulU64 options.blocks options.blockSize = options.blocks * 4096 := by
        rw [hsize]
        exact Nat.mod_eq_of_lt (by omega)
      refine .short ?_ hpos hlt (by omega) (by simp only [hbytes])
      rintro (hne | hne | ⟨hzero, -⟩)
      · exact hne hsize
      · exact hne hinspect
      · omega
    · exact absurd h3 (by simp [pure, EStateM.pure])
  · rcases estate_bind_error.mp h1 with hsized | ⟨blocks, g, hg, -⟩
    · exact absurd (hsized.symm.trans herr) (by simp)
    · exact absurd (hg.symm.trans herr) (by simp)
  · rcases estate_bind_error.mp h1 with hsized | ⟨blocks, g, hg, h2⟩
    · exact absurd (hsized.symm.trans hok) (by simp)
    obtain ⟨rfl, rfl⟩ := EStateM.Result.ok.inj (hok.symm.trans hg)
    rcases estate_bind_error.mp h2 with hroom | ⟨_, _, -, h3⟩
    · obtain ⟨hlt, -, rfl⟩ := refuseIf_error.mp hroom
      refine .early (Or.inr (Or.inr ⟨hzero, fun h8 => ?_⟩)) rfl
      rw [h8] at hlt
      exact absurd hlt (by decide)
    · exact absurd h3 (by simp [pure, EStateM.pure])
  · rcases estate_bind_error.mp h1 with hsized | ⟨blocks, g, hg, -⟩
    · obtain ⟨-, rfl⟩ := EStateM.Result.error.inj (herr.symm.trans hsized)
      exact .early (Or.inr (Or.inr ⟨hzero, hne⟩)) rfl
    · exact absurd (hg.symm.trans herr) (by simp)

theorem prepareTarget_sized (hk : f.kind = .regular) (hsize : options.blockSize = 4096) {blocks : Nat}
    {g : ByteFile} (h : prepareTarget options env f = .ok blocks g) :
    inspectTarget options env f = .ok () ∧ 8 ≤ blocks ∧ g.kind = .regular ∧
      ((blocks = options.blocks ∧ g.size = mulU64 blocks 4096) ∨
        (options.blocks = 0 ∧ g.size = blocks * 4096 ∧ f.size = blocks * 4096)) := by
  obtain ⟨_, f1, hinspect, h1⟩ := estate_bind_ok.mp h
  obtain ⟨hinspect, rfl⟩ := liftRead_ok.mp hinspect
  obtain ⟨b, f2, hsized, h2⟩ := estate_bind_ok.mp h1
  obtain ⟨_, f3, hroom, h3⟩ := estate_bind_ok.mp h2
  obtain ⟨hbig, rfl⟩ := refuseIf_ok.mp hroom
  obtain ⟨rfl, rfl⟩ := EStateM.Result.ok.inj h3
  rcases sizeTarget_cases hk hsize with ⟨-, hs, hok⟩ | ⟨-, herr⟩ | ⟨hzero, hrem, hok⟩ | ⟨-, -, herr⟩
  · obtain ⟨rfl, rfl⟩ := EStateM.Result.ok.inj (hok.symm.trans hsized)
    refine ⟨hinspect, Nat.not_lt.mp hbig, hk, Or.inl ⟨rfl, ?_⟩⟩
    rw [← hsize]
    rfl
  · exact absurd (hsized.symm.trans herr) (by simp)
  · obtain ⟨rfl, rfl⟩ := EStateM.Result.ok.inj (hok.symm.trans hsized)
    have hlen := (Nat.div_mul_cancel (Nat.dvd_of_mod_eq_zero hrem)).symm
    exact ⟨hinspect, Nat.not_lt.mp hbig, hk, Or.inr ⟨hzero, hlen, hlen⟩⟩
  · exact absurd (hsized.symm.trans herr) (by simp)

/-- The last bootstrap block is number 7. -/
theorem writeBootstrap_long {blocks : Nat} (h : writeBootstrap options env blocks f = .ok () f') :
    32768 ≤ f'.size := by
  obtain ⟨_, f1, -, h⟩ := estate_bind_ok.mp h
  obtain ⟨_, f2, -, h⟩ := estate_bind_ok.mp h
  obtain ⟨_, f3, -, h⟩ := estate_bind_ok.mp h
  obtain ⟨_, f4, -, h⟩ := estate_bind_ok.mp h
  obtain ⟨_, f5, -, h⟩ := estate_bind_ok.mp h
  obtain ⟨_, f6, -, h⟩ := estate_bind_ok.mp h
  obtain ⟨_, f7, -, h⟩ := estate_bind_ok.mp h
  obtain ⟨_, f8, -, h⟩ := estate_bind_ok.mp h
  unfold putBlock at h
  split at h
  · rename_i g hw
    obtain ⟨-, rfl⟩ := EStateM.Result.ok.inj h
    rw [ByteFile.write_def] at hw
    rw [(ByteFile.writeAll_eq_ok hw).2.2.1, ByteFile.offsetOf_of_lt (by decide)]
    exact Nat.le_max_right _ _
  · exact absurd h (by simp)

/-- **The ways to be refused.** -/
theorem runMkfs_refused (hk : f.kind = .regular) (hu : env.urandom = .ok uuid)
    (hb : options.blocks < 2 ^ 64) (h : runMkfs options env f = .error (.check e) f') :
    Refusal options env uuid f f' := by
  rcases estate_bind_error.mp h with hblock | ⟨_, f1, hblock, h1⟩
  · obtain ⟨hne, -, rfl⟩ := refuseIf_error.mp hblock
    exact .early (Or.inl hne) rfl
  obtain ⟨hsize, rfl⟩ := refuseIf_ok.mp hblock
  have hsize : options.blockSize = 4096 := not_not.mp hsize
  rcases estate_bind_error.mp h1 with hprep | ⟨blocks, g, hprep, h2⟩
  · exact prepareTarget_refused hk hsize hprep
  obtain ⟨hinspect, h8, hg, hblocks⟩ := prepareTarget_sized hk hsize hprep
  have hends := writeBootstrap_ends options blocks hg hu
  rcases estate_bind_error.mp h2 with hwrite | ⟨_, f2, hwrite, h3⟩
  · exact absurd (hends.of_error hwrite) not_false
  obtain ⟨hinvalid, rfl⟩ := liftRead_error.mp h3
  have hold := hends.of_ok hwrite
  have hlong := writeBootstrap_long hwrite
  -- nine blocks or more validate
  have height : blocks = 8 := by
    by_contra hne
    have hlt : blocks < 2 ^ 64 := by
      rcases hblocks with ⟨rfl, -⟩ | ⟨-, -, hlen⟩
      · exact hb
      · have hmax := f1.size_lt
        omega
    rw [mkfsValidate_ok hold hlong hsize (by omega) hlt] at hinvalid
    exact absurd hinvalid (by simp)
  subst height
  have hgsize : g.size = 32768 := by
    rcases hblocks with ⟨-, hlen⟩ | ⟨-, hlen, -⟩
    · rw [hlen]
      decide
    · exact hlen
  rw [hgsize] at hold
  have hcap := hold.size
  refine .eight ?_ ?_ (by omega) hold
  · rintro (hne | hne | ⟨hzero, hne⟩)
    · exact hne hsize
    · exact hne hinspect
    · rcases hblocks with ⟨heq, -⟩ | ⟨-, -, hlen⟩
      · omega
      · exact hne hlen
  · rcases hblocks with ⟨heq, -⟩ | ⟨hzero, -⟩
    · exact Or.inr heq.symm
    · exact Or.inl hzero

/-! ## 2. When the file is left alone -/

theorem truncate_eq_self_iff {n : Nat} (hn : n < 2 ^ 63) : f.truncate n hn = f ↔ f.size = n := by
  constructor
  · intro h
    exact (congrArg ByteFile.size h).symm
  · intro h
    refine ByteFile.ext rfl h.symm fun i hi => ?_
    exact if_pos hi

theorem holding_eq_iff {c : Nat → Block} (hk : f.kind = .regular) (hsize : f'.size = 32768)
    (hold : Holding 32768 c f') :
    f' = f ↔ f.size = 32768 ∧ ∀ k, k < 8 → f.blockAt (k * 4096) = c k := by
  constructor
  · rintro rfl
    exact ⟨hsize, hold.block⟩
  · rintro ⟨hfsize, hblocks⟩
    refine ByteFile.ext_blocks (hold.kind.trans hk.symm) (hsize.trans hfsize.symm) ?_
    funext k
    by_cases hlt : k < 8
    · rw [ByteFile.blocksOf, ByteFile.blocksOf, hold.block k hlt, hblocks k hlt]
    · have hpast : ∀ g : ByteFile, g.size = 32768 → g.blocksOf k = zeros 4096 := by
        intro g hg
        funext i
        exact g.zero_past _ (by omega)
      rw [hpast f' hsize, hpast f hfsize]

/-- **When a refused format leaves the target alone.**  An existing regular file, and no system call
that fails.  The file is as it was exactly when the refusal came before any change, or the file had
the size it was cut to, or it held that very bootstrap already. -/
theorem refused_mkfs_untouched_iff (hk : f.kind = .regular)
    (hu : env.urandom = .ok uuid) (hb : options.blocks < 2 ^ 64)
    (h : runMkfs options env f = .error (.check e) f') :
    f' = f ↔ RefusedEarly options env f ∨
      (0 < options.blocks ∧ options.blocks < 8 ∧ f.size = options.blocks * defBlockSize) ∨
      ((options.blocks = 0 ∨ options.blocks = 8) ∧ f.size = 8 * defBlockSize ∧
        ∀ k, k < 8 → f.blockAt (k * defBlockSize) = bootBlocks options env 8 uuid k) := by
  cases runMkfs_refused hk hu hb h with
  | early htest hsame => exact iff_of_true hsame (Or.inl htest)
  | short htest hpos hlt hs hcut =>
    rw [hcut, truncate_eq_self_iff]
    constructor
    · intro hsize
      exact Or.inr (Or.inl ⟨hpos, hlt, hsize⟩)
    · rintro (hearly | ⟨-, -, hsize⟩ | ⟨hblocks, -, -⟩)
      · exact absurd hearly htest
      · exact hsize
      · omega
  | eight htest hblocks hsize hold =>
    rw [holding_eq_iff hk hsize hold]
    constructor
    · intro hboot
      exact Or.inr (Or.inr ⟨hblocks, hboot⟩)
    · rintro (hearly | ⟨hpos, hlt, -⟩ | ⟨-, hboot⟩)
      · exact absurd hearly htest
      · omega
      · exact hboot

end Refused

/-- A regular file of 5000 bytes, every one of them 7. -/
def sevens : ByteFile where
  kind := .regular
  size := 5000
  byte i := if i < 5000 then 7 else 0
  size_lt := by norm_num
  zero_past _ hi := if_neg (Nat.not_lt.mpr hi)

/-- Formatted with the size it has, the file is refused for its size and left alone. -/
theorem sevens_untouched : ∃ f',
    runMkfs ⟨0, 4096, 0, false⟩ ⟨true, .ok (zeros 16), 0, 0, 0⟩ sevens
      = .error (.check .EINVAL) f' ∧ f' = sevens := by
  have hrun : runMkfs ⟨0, 4096, 0, false⟩ ⟨true, .ok (zeros 16), 0, 0, 0⟩ sevens
      = .error (.check .EINVAL) sevens := rfl
  refine ⟨sevens, hrun, (refused_mkfs_untouched_iff rfl rfl (by norm_num) hrun).mpr ?_⟩
  exact Or.inl (Or.inr (Or.inr ⟨rfl, by decide⟩))

/-- **A refused format that cuts the file.**  One block is asked for.  The run refuses with
`ENOSPC`, after `ftruncate` has taken the last 904 bytes away. -/
theorem sevens_cut : ∃ f',
    runMkfs ⟨1, 4096, 0, false⟩ ⟨true, .ok (zeros 16), 0, 0, 0⟩ sevens
      = .error (.check .ENOSPC) f' ∧ f'.size = 4096 ∧ f' ≠ sevens := by
  refine ⟨sevens.truncate 4096 (by norm_num), rfl, rfl, fun h => ?_⟩
  have hsize : (4096 : Nat) = 5000 := congrArg ByteFile.size h
  exact absurd hsize (by norm_num)

end AetherFs
