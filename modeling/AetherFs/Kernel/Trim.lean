/-
# What `aetherfs_trim_all_free` asks to discard

The function is to tell the device which blocks are free.  It looks at no bitmap: it asks to discard
the whole range of every allocation group.  And it hands BLOCK numbers to `blkdev_issue_discard`,
which takes sectors of 512 bytes, an eighth of a block.  So it asks for one stretch of the device
from sector 7 on, an eighth of what the groups cover (`discarded_iff`).

What that means for what is live (`trim_discards_iff`): after any run in which the group allocator
works as it should, every range it has handed out is asked for from its first sector to its last, if
its group is in the first eighth, and left alone otherwise.  The bootstrap blocks from the superblock
on are always asked for.  What the device does about a request is not modelled.
-/
import AetherFs.Kernel.Balloc

namespace AetherFs

open Lib

/-! ## 1. The source -/

/-- Sectors in a block. -/
abbrev sectorsPerBlock : Nat := 8

/-- What `aetherfs_trim_device` asks the device to discard, in sectors; `supported` is
`blk_queue_discard`. -/
def trimDevice (supported : Bool) (start len : Nat) : List Interval :=
  if len = 0 then [] else if supported = false then [] else [⟨start, len⟩]

/-- `aetherfs_trim_all_free`: the requests it makes.  The start is computed in 32 bits, and what a
request returns is not looked at. -/
def trimAllFree (supported : Bool) (fsi : FreeSpaceInfo) : List Interval :=
  (List.range fsi.agCount).flatMap fun ag =>
    trimDevice supported ((kernelDataStart + ag * blocksPerGroup) % 2 ^ 32) blocksPerGroup

/-- The function asks to discard the sector. -/
def Discarded (fsi : FreeSpaceInfo) (sector : Nat) : Prop :=
  ∃ iv ∈ trimAllFree true fsi, iv.Has sector

/-- A sector of the blocks of a range. -/
def SectorOf (iv : Interval) (sector : Nat) : Prop :=
  sectorsPerBlock * iv.start ≤ sector ∧ sector < sectorsPerBlock * (iv.start + iv.len)

/-- The group a block number stands for. -/
def groupOf (block : Nat) : Nat := (block - kernelDataStart) / blocksPerGroup

/-! ## 2. One trim -/

section Trim

variable {fsi : FreeSpaceInfo} {sector : Nat}

/-- **What is asked for is one stretch of the device**, whatever the bitmaps say. -/
theorem discarded_iff (hfew : fsi.agCount ≤ 2048) :
    Discarded fsi sector ↔ 7 ≤ sector ∧ sector < 7 + fsi.agCount * 2097152 := by
  have hreq : ∀ iv, iv ∈ trimAllFree true fsi ↔
      ∃ ag, ag < fsi.agCount ∧ iv = ⟨7 + ag * 2097152, 2097152⟩ := by
    intro iv
    rw [trimAllFree, List.mem_flatMap]
    refine exists_congr fun ag => ?_
    rw [List.mem_range]
    refine and_congr_right fun hag => ?_
    have hsmall : (kernelDataStart + ag * blocksPerGroup) % 2 ^ 32 = 7 + ag * 2097152 :=
      Nat.mod_eq_of_lt (by simp only [kernelDataStart, blocksPerGroup]; omega)
    rw [hsmall, trimDevice, if_neg (by norm_num), if_neg (by simp), List.mem_singleton]
  rw [Discarded]
  constructor
  · rintro ⟨iv, hiv, hhas⟩
    obtain ⟨ag, hag, rfl⟩ := (hreq iv).mp hiv
    simp only [Interval.Has] at hhas
    omega
  · rintro ⟨hlo, hhi⟩
    refine ⟨⟨7 + (sector - 7) / 2097152 * 2097152, 2097152⟩, (hreq _).mpr ⟨_, by omega, rfl⟩, ?_⟩
    simp only [Interval.Has]
    omega

/-- A range of a group goes as a whole or stays as a whole. -/
theorem Holds.discarded_iff {g pos : Nat} {iv : Interval} (hfew : fsi.agCount ≤ 2048)
    (h : Holds fsi g pos iv) (hsector : SectorOf iv sector) :
    Discarded fsi sector ↔ 8 * groupOf iv.start < fsi.agCount := by
  have hgroup := h.group
  have hinside := h.inside
  have hpos := h.len_pos
  have hstart : iv.start = pos + g * 2097152 + 7 := by
    rw [h.start, blockOf_eq (by omega), Nat.mod_eq_of_lt (by omega)]
  have hg : groupOf iv.start = g := by
    rw [groupOf, hstart]
    simp only [blocksPerGroup, kernelDataStart]
    omega
  obtain ⟨hlo, hhi⟩ := hsector
  simp only [sectorsPerBlock, hstart] at hlo hhi
  rw [AetherFs.discarded_iff hfew, hg]
  constructor
  · rintro ⟨-, hlt⟩
    omega
  · intro hlt
    omega

end Trim

/-! ## 3. After a run of the allocator -/

section Runs

variable {m : AgMachine}

theorem agStep_agCount (m : AgMachine) (c : AgCall) :
    (agStep m c).info.fsi.agCount = m.info.fsi.agCount := by
  cases c with
  | alloc count cls hint =>
    rw [agStep, allocBlocksExtended_eq]
    cases chosen m.info count hint with
    | none => rfl
    | some c => rfl
  | free start count =>
    rw [agStep, freeBlocksExtended_fsi]
    cases freedBit m.info start count with
    | none => rfl
    | some c => rfl

/-- **A trim after a run that has gone well.**  It asks to discard every sector of a live range
exactly if the range is in the first eighth of the groups; and of the bootstrap blocks, everything
from sector 7 on. -/
theorem trim_discards_iff {info : AllocInfo} {agCount : Nat}
    (hinit : freeSpaceInit agCount = .ok info.fsi) (hpos : 0 < agCount) (hfew : agCount ≤ 2048)
    {calls : List AgCall}
    (hgood : Along agStep (fun m c => AgValid m c ∧ AgFits m c) ⟨info, []⟩ calls) {m : AgMachine}
    (hm : m ∈ states agStep ⟨info, []⟩ calls) :
    (∀ iv ∈ m.live, ∀ sector, SectorOf iv sector →
      (Discarded m.info.fsi sector ↔ 8 * groupOf iv.start < agCount)) ∧
    ∀ sector, 7 ≤ sector → sector < sectorsPerBlock * kernelDataStart →
      Discarded m.info.fsi sector := by
  have hinv : AgInv m ∧ m.info.fsi.agCount = agCount := by
    refine @along_inv _ _ agStep (fun m => AgInv m ∧ m.info.fsi.agCount = agCount) _
      (fun m c hinv hc => ?_) calls _ _ ⟨agInv_init hinit, ?_⟩ hgood hm
    · refine ⟨?_, (agStep_agCount m c).trans hinv.2⟩
      cases c with
      | alloc count cls hint => exact agInv_alloc hinv.1 hc.2
      | free start count => exact agInv_free hinv.1 hc.1 hc.2
    · rw [← Except.ok.inj hinit]
  obtain ⟨hinv, rfl⟩ := hinv
  refine ⟨fun iv hiv sector hsector => ?_, fun sector hlo hhi => ?_⟩
  · obtain ⟨g, pos, hholds⟩ := hinv.held hfew iv hiv
    exact hholds.discarded_iff hfew hsector
  · rw [discarded_iff hfew]
    simp only [sectorsPerBlock, kernelDataStart] at hhi
    omega

/-- Sixteen groups, nothing allocated. -/
def sixteenGroups : AllocInfo := { freshAlloc with fsi := { freshAlloc.fsi with agCount := 16 } }

/-- Five blocks of the first group, and three of the ninth. -/
def farRanges : List AgCall := [.alloc 5 .hot 0, .alloc 3 .hot 8]

/-- A trim asks for the first of them and not for the second. -/
theorem trim_discards_first_eighth :
    (farRanges.foldl agStep ⟨sixteenGroups, []⟩).live = [⟨16777223, 3⟩, ⟨7, 5⟩] ∧
    ∀ m ∈ states agStep ⟨sixteenGroups, []⟩ farRanges, ∀ iv ∈ m.live,
      ∀ sector, SectorOf iv sector → (Discarded m.info.fsi sector ↔ 8 * groupOf iv.start < 16) := by
  have hgood : Along agStep (fun m c => AgValid m c ∧ AgFits m c) ⟨sixteenGroups, []⟩ farRanges := by
    refine ⟨⟨⟨by norm_num, by norm_num⟩, ?_⟩, ⟨⟨by norm_num, by norm_num⟩, ?_⟩, trivial⟩
    · exact agFits_of_clear 0 0 (by decide) rfl ⟨by decide, by decide⟩
    · exact agFits_of_clear 8 0 (by decide) rfl ⟨by decide, by decide⟩
  refine ⟨rfl, fun m hm => ?_⟩
  exact (trim_discards_iff rfl (by norm_num) (by norm_num) hgood hm).1

end Runs

end AetherFs
