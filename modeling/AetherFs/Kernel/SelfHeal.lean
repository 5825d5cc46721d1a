/-
# What self-healing passes on

`aetherfs_self_heal_repair_on_read` verifies a buffer, and where that fails and the mode asks for a
repair it copies the buffer over the buffer that `sb_getblk` gives FOR THE SAME BLOCK, writes it
out, counts a repair and returns 0.  There is no other copy of the block that the bytes could come
from: what is written is what has just failed.

* `repairOnRead_copied` is that case, and it is the only one in which the caller is handed, as good,
  a block that does not verify.
* Along any sequence of reads, `sh_repair_count` counts exactly the corrupt blocks that have been
  passed on (`heal_counts`).
-/
import AetherFs.Kernel.Private

namespace AetherFs.Private

open Lib

/-! ## 1. Reads -/

/-- What a read brings: the buffer, whether it is up to date, and whether `sb_getblk` gives one. -/
structure HealRead where
  bh : Memory
  uptodate : Bool
  getblk : Bool

/-- `aetherfs_self_heal_repair_on_read`, on a read. -/
def HealRead.repair (blocksize : Nat) (sh : SelfHealInfo) (r : HealRead) :
    Except Errno Unit × SelfHealInfo × Option Memory :=
  repairOnRead blocksize sh r.bh r.uptodate r.getblk

/-- The block passes `aetherfs_verify_data_checksum`. -/
def Passes (blocksize : Nat) (block : Memory) : Prop :=
  (verifyDataChecksum blocksize block).1 = .ok ()

instance (blocksize : Nat) (block : Memory) : Decidable (Passes blocksize block) :=
  inferInstanceAs (Decidable (_ = _))

/-- The block as it stands after the call: what has been written over it, or else the buffer as
verification has left it. -/
def blockAfter (blocksize : Nat) (sh : SelfHealInfo) (r : HealRead) : Memory :=
  ((r.repair blocksize sh).2.2).getD (verifyDataChecksum blocksize r.bh).2

/-- What a read with healing should do: pass on what verifies, and count what it has repaired. -/
structure HealRight (blocksize : Nat) (sh : SelfHealInfo) (r : HealRead) : Prop where
  passed : (r.repair blocksize sh).1 = .ok () → Passes blocksize (blockAfter blocksize sh r)
  counted : (r.repair blocksize sh).2.1.repairCount ≠ sh.repairCount →
    ¬ Passes blocksize r.bh ∧ Passes blocksize (blockAfter blocksize sh r)

/-- The read finds a block that does not verify, and all it takes to write it back. -/
def CopiesCorrupt (blocksize : Nat) (mode : SelfHealMode) (r : HealRead) : Prop :=
  ¬ Passes blocksize r.bh ∧ mode ≠ .quarantine ∧ r.getblk = true ∧ r.uptodate = true

instance (blocksize : Nat) (mode : SelfHealMode) (r : HealRead) :
    Decidable (CopiesCorrupt blocksize mode r) := inferInstanceAs (Decidable (_ ∧ _))

/-! ## 2. The outcomes -/

theorem verifyDataChecksum_kept (blocksize : Nat) (block : Memory) :
    (verifyDataChecksum blocksize block).2 = block := by
  simp only [verifyDataChecksum]
  split
  · rfl
  · rw [setLE_setLE, setLE_getLE]

section Outcomes

variable {blocksize : Nat} {sh : SelfHealInfo} {r : HealRead}

theorem verify_of_passes (h : Passes blocksize r.bh) :
    verifyDataChecksum blocksize r.bh = (.ok (), r.bh) :=
  Prod.ext h (verifyDataChecksum_kept _ _)

theorem verify_of_fails (h : ¬ Passes blocksize r.bh) :
    ∃ e, verifyDataChecksum blocksize r.bh = (.error e, r.bh) := by
  cases hv : (verifyDataChecksum blocksize r.bh).1 with
  | ok u => exact absurd hv h
  | error e => exact ⟨e, Prod.ext hv (verifyDataChecksum_kept _ _)⟩

theorem repair_of_passes (h : Passes blocksize r.bh) : r.repair blocksize sh = (.ok (), sh, none) := by
  rw [HealRead.repair, repairOnRead, verify_of_passes h]
  split <;> rfl

/-- A corrupt block that is not written back is refused, and counted as corrupt. -/
theorem repair_refused (hmode : sh.mode ≠ .disabled) (h : ¬ Passes blocksize r.bh)
    (hcopy : ¬ CopiesCorrupt blocksize sh.mode r) : ∃ e, r.repair blocksize sh
      = (.error e, { sh with corruptionCount := (sh.corruptionCount + 1) % 2 ^ 32 }, none) := by
  obtain ⟨e, hv⟩ := verify_of_fails h
  rw [HealRead.repair, repairOnRead, if_neg hmode, hv]
  simp only
  split
  · exact ⟨_, rfl⟩
  rename_i hquarantine
  split
  · exact ⟨_, rfl⟩
  rename_i hgetblk
  rw [if_neg fun huptodate => hcopy ⟨h, hquarantine, by simpa using hgetblk, huptodate⟩]
  exact ⟨_, rfl⟩

/-- **A corrupt block that is written back is passed on**: it is counted as repaired, and what is
written is the block itself. -/
theorem repairOnRead_copied (hmode : sh.mode ≠ .disabled) (h : CopiesCorrupt blocksize sh.mode r) :
    r.repair blocksize sh = (.ok (), { sh with
      corruptionCount := (sh.corruptionCount + 1) % 2 ^ 32
      repairCount := (sh.repairCount + 1) % 2 ^ 32 }, some r.bh) := by
  obtain ⟨hcorrupt, hquarantine, hgetblk, huptodate⟩ := h
  obtain ⟨e, hv⟩ := verify_of_fails hcorrupt
  rw [HealRead.repair, repairOnRead, if_neg hmode, hv, hgetblk, huptodate]
  simp only [if_true, Bool.true_eq_false, if_false, if_neg hquarantine]

/-- Whatever the call does, the bytes of the block are what they were. -/
theorem blockAfter_eq : blockAfter blocksize sh r = r.bh := by
  have hkept := verifyDataChecksum_kept blocksize r.bh
  by_cases hmode : sh.mode = .disabled
  · rw [blockAfter, HealRead.repair, repairOnRead, if_pos hmode]
    exact hkept
  by_cases hpass : Passes blocksize r.bh
  · rw [blockAfter, repair_of_passes hpass]
    exact hkept
  by_cases hcopy : CopiesCorrupt blocksize sh.mode r
  · rw [blockAfter, repairOnRead_copied hmode hcopy]
    rfl
  · obtain ⟨e, hrefused⟩ := repair_refused hmode hpass hcopy
    rw [blockAfter, hrefused]
    exact hkept

end Outcomes

/-- **When self-healing passes on no corrupt data**, with healing enabled: exactly when the read
does not find a corrupt block that is up to date, with a buffer to copy it to, in a mode other than
quarantine. -/
theorem self_heal_right_iff (blocksize : Nat) {sh : SelfHealInfo} (r : HealRead)
    (hmode : sh.mode ≠ .disabled) :
    HealRight blocksize sh r ↔ Passes blocksize r.bh ∨ sh.mode = .quarantine ∨
      r.getblk = false ∨ r.uptodate = false := by
  constructor
  · intro h
    by_contra hnone
    simp only [not_or, Bool.not_eq_false] at hnone
    obtain ⟨hcorrupt, hquarantine, hgetblk, huptodate⟩ := hnone
    have hcopied := repairOnRead_copied hmode
      (⟨hcorrupt, hquarantine, hgetblk, huptodate⟩ : CopiesCorrupt blocksize sh.mode r)
    have hpass := h.passed (by rw [hcopied])
    rw [blockAfter_eq] at hpass
    exact hcorrupt hpass
  · intro h
    by_cases hpass : Passes blocksize r.bh
    · refine ⟨fun _ => by rwa [blockAfter_eq], fun hcount => ?_⟩
      rw [repair_of_passes hpass] at hcount
      exact absurd rfl hcount
    · have hcopy : ¬ CopiesCorrupt blocksize sh.mode r := by
        rintro ⟨-, hquarantine, hgetblk, huptodate⟩
        rcases h with h | h | h | h
        · exact hpass h
        · exact hquarantine h
        · exact absurd (hgetblk.symm.trans h) (by simp)
        · exact absurd (huptodate.symm.trans h) (by simp)
      obtain ⟨e, hrefused⟩ := repair_refused hmode hpass hcopy
      refine ⟨fun hok => ?_, fun hcount => ?_⟩
      · rw [hrefused] at hok
        exact absurd hok (by simp)
      · rw [hrefused] at hcount
        exact absurd rfl hcount

/-- Block 7, of ones, as `aetherfs_compute_data_checksum` leaves it. -/
def summedBlock : Memory := (computeDataChecksum 4096 7 fun _ => 1).2

/-- A block with its sum is passed on, and nothing is counted. -/
theorem summed_block_right : getLE summedBlock 0 4 ≠ 0 ∧
    HealRight 4096 newSelfHealInfo ⟨summedBlock, true, true⟩ := by
  have hpass : Passes 4096 summedBlock := congrArg Prod.fst (data_agrees 4096 7 _).2
  exact ⟨by decide +kernel, (self_heal_right_iff 4096 _ (by decide)).mpr (Or.inl hpass)⟩

/-- A block of zeros but for its sum, 1. -/
def corruptBlock : Memory := setLE (fun _ => 0) 0 4 1

/-- **A corrupt block is passed on as repaired**: it does not verify, the call returns 0 and counts a
repair, and it does not verify afterwards. -/
theorem corrupt_block_passed : ¬ HealRight 4096 newSelfHealInfo ⟨corruptBlock, true, true⟩ ∧
    ¬ Passes 4096 corruptBlock ∧
    (HealRead.repair 4096 newSelfHealInfo ⟨corruptBlock, true, true⟩).1 = .ok () ∧
    (HealRead.repair 4096 newSelfHealInfo ⟨corruptBlock, true, true⟩).2.1.repairCount = 1 ∧
    ¬ Passes 4096 (blockAfter 4096 newSelfHealInfo ⟨corruptBlock, true, true⟩) := by
  have hcorrupt : ¬ Passes 4096 corruptBlock := by decide +kernel
  have hafter : ¬ Passes 4096 (blockAfter 4096 newSelfHealInfo ⟨corruptBlock, true, true⟩) := by
    rwa [blockAfter_eq]
  have hcopied := repairOnRead_copied (by decide : newSelfHealInfo.mode ≠ .disabled)
    (⟨hcorrupt, by decide, rfl, rfl⟩ : CopiesCorrupt 4096 _ ⟨corruptBlock, true, true⟩)
  rw [hcopied]
  exact ⟨fun hright => hafter (hright.passed (by rw [hcopied])), hcorrupt, rfl, rfl, hafter⟩

/-! ## 3. What the counters count -/

/-- The counters after a read. -/
def healStep (blocksize : Nat) (sh : SelfHealInfo) (r : HealRead) : SelfHealInfo :=
  (r.repair blocksize sh).2.1

theorem healStep_counts (blocksize : Nat) {sh : SelfHealInfo} (r : HealRead)
    (hmode : sh.mode ≠ .disabled) : (healStep blocksize sh r).mode = sh.mode ∧
      (healStep blocksize sh r).corruptionCount ≡
        sh.corruptionCount + (if Passes blocksize r.bh then 0 else 1) [MOD 2 ^ 32] ∧
      (healStep blocksize sh r).repairCount ≡
        sh.repairCount + (if CopiesCorrupt blocksize sh.mode r then 1 else 0) [MOD 2 ^ 32] := by
  by_cases hpass : Passes blocksize r.bh
  · rw [healStep, repair_of_passes hpass, if_pos hpass, if_neg fun hcopy => hcopy.1 hpass]
    exact ⟨rfl, rfl, rfl⟩
  by_cases hcopy : CopiesCorrupt blocksize sh.mode r
  · rw [healStep, repairOnRead_copied hmode hcopy, if_neg hpass, if_pos hcopy]
    exact ⟨rfl, Nat.mod_modEq _ _, Nat.mod_modEq _ _⟩
  · obtain ⟨e, hrefused⟩ := repair_refused hmode hpass hcopy
    rw [healStep, hrefused, if_neg hpass, if_neg hcopy]
    exact ⟨rfl, Nat.mod_modEq _ _, rfl⟩

/-- **Along any reads**, the counters of 32 bits count the corrupt blocks that have been met and,
as repairs, those of them that have been passed on. -/
theorem heal_counts (blocksize : Nat) (reads : List HealRead) : ∀ {sh : SelfHealInfo},
    sh.mode ≠ .disabled → (reads.foldl (healStep blocksize) sh).mode = sh.mode ∧
      (reads.foldl (healStep blocksize) sh).corruptionCount ≡ sh.corruptionCount +
        reads.countP (fun r => ¬ Passes blocksize r.bh) [MOD 2 ^ 32] ∧
      (reads.foldl (healStep blocksize) sh).repairCount ≡ sh.repairCount +
        reads.countP (fun r => CopiesCorrupt blocksize sh.mode r) [MOD 2 ^ 32] := by
  induction reads with
  | nil =>
    intro sh _
    exact ⟨rfl, rfl, rfl⟩
  | cons r reads ih =>
    intro sh hmode
    obtain ⟨hm, hcorrupt, hrepair⟩ := healStep_counts blocksize r hmode
    obtain ⟨hm', hcorrupt', hrepair'⟩ := ih (hm ▸ hmode)
    rw [hm] at hrepair'
    refine ⟨hm'.trans hm, hcorrupt'.trans ?_, hrepair'.trans ?_⟩
    · rw [List.countP_cons, Nat.add_comm (List.countP _ _), ← Nat.add_assoc]
      refine Nat.ModEq.add_right _ (hcorrupt.trans ?_)
      by_cases hpass : Passes blocksize r.bh
      · simp [hpass, Nat.ModEq.refl]
      · simp [hpass, Nat.ModEq.refl]
    · rw [List.countP_cons, Nat.add_comm (List.countP _ _), ← Nat.add_assoc]
      refine Nat.ModEq.add_right _ (hrepair.trans ?_)
      simp [Nat.ModEq.refl]

end AetherFs.Private
