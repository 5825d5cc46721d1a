/-
# The allocation-group allocator of `balloc.c`

Each allocation group has a bitmap, and a block number is made of a group and a bit: `blockOf`.
An allocation takes the FIRST clear bit of a group and sets `count` bits from there; it compares
`count` with the number of clear bits of the group, never with the number of clear bits in a row.
So a group with a hole hands out what lies behind the hole a second time.

* `chosen` says which group and bit a call picks, and `allocBlocksExtended_eq` that the loop over
  the groups does nothing else.
* Over every run of calls, live ranges stay disjoint and the counters right exactly as long as each
  call finds its whole range clear (`AgFits`).
* Freeing gives back what was taken exactly when the range was clear, was not at bit 0
  (`ag_bitmap_free` takes a zero for a missing argument) and the group survives the 32-bit products
  that encode and decode it (`Undone`).
-/
import AetherFs.Device
import AetherFs.Lib.Bitmap
import AetherFs.Lib.Interval
import AetherFs.Lib.Machine

namespace AetherFs

open Lib

/-! ## 1. The source -/

/-- `AETHERFS_BLOCKS_PER_GROUP`. -/
abbrev blocksPerGroup : Nat := 2097152

/-- `AETHERFS_DATA_START_BLOCK` of `kernel/aetherfs.h`.  The format's is 8. -/
abbrev kernelDataStart : Nat := 7

/-- `AETHERFS_BITMAP_BITS`. -/
abbrev groupBits : Nat := 4096 * 8

/-- `enum aetherfs_allocation_class`. -/
inductive AllocClass
  | hot
  | warm
  | cold
deriving DecidableEq, Repr

/-- `struct aetherfs_ag_bitmap`.  Nothing keeps a bit behind `bits` from being set. -/
structure AgBitmap where
  bitmap : Nat → Bool
  bits : Nat
  free : Nat

/-- `struct aetherfs_free_space_info`. -/
structure FreeSpaceInfo where
  agCount : Nat
  bitmaps : Nat → AgBitmap

/-- Another bitmap for one group. -/
def FreeSpaceInfo.put (fsi : FreeSpaceInfo) (group : Nat) (agb : AgBitmap) : FreeSpaceInfo :=
  { fsi with bitmaps := Function.update fsi.bitmaps group agb }

theorem FreeSpaceInfo.put_bitmaps (fsi : FreeSpaceInfo) (group : Nat) (agb : AgBitmap) (g : Nat) :
    (fsi.put group agb).bitmaps g = if g = group then agb else fsi.bitmaps g :=
  Function.update_apply _ _ _ _

theorem FreeSpaceInfo.put_self (fsi : FreeSpaceInfo) (group : Nat) :
    fsi.put group (fsi.bitmaps group) = fsi := by
  rw [FreeSpaceInfo.put, Function.update_eq_self]

/-- What the allocators use of `struct aetherfs_sb_info`; `blocksCount` is `s_es->s_blocks_count`. -/
structure AllocInfo where
  blocksCount : Nat
  freeBlocks : Nat
  nextIno : Nat
  dirty : Bool
  fsi : FreeSpaceInfo

/-- `find_next_zero_bit_wrap`. -/
def findNextZeroBitWrap (bitmap : Nat → Bool) (size offset : Nat) : Nat :=
  let pos := firstZeroFrom bitmap size offset
  if pos ≥ size then firstZeroFrom bitmap size 0 else pos

/-- `ag_bitmap_init`. -/
def agBitmapInit (bits : Nat) : Except Errno AgBitmap :=
  if bits = 0 then .error .EINVAL else .ok ⟨fun _ => false, bits, bits⟩

/-- `ag_bitmap_alloc`: the bit, and the group afterwards. -/
def agBitmapAlloc (agb : AgBitmap) (count : Nat) : Except Errno (Nat × AgBitmap) :=
  if count = 0 then .error .EINVAL
  else if agb.free < count then .error .ENOSPC
  else
    let pos := findNextZeroBitWrap agb.bitmap agb.bits 0
    if pos ≥ agb.bits then .error .ENOSPC
    else .ok (pos, { agb with bitmap := setRun agb.bitmap pos count, free := agb.free - count })

/-- `ag_bitmap_free`. -/
def agBitmapFree (agb : AgBitmap) (block count : Nat) : AgBitmap :=
  if block = 0 ∨ count = 0 then agb
  else { agb with
    bitmap := clearRun agb.bitmap block count, free := (agb.free + count) % 2 ^ 32 }

/-- `aetherfs_free_space_init`. -/
def freeSpaceInit (agCount : Nat) : Except Errno FreeSpaceInfo := do
  let agb ← agBitmapInit groupBits
  .ok ⟨agCount, fun _ => agb⟩

/-- The block number of a bit: `try_ag * AETHERFS_BLOCKS_PER_GROUP` is a 32-bit product. -/
def blockOf (group pos : Nat) : Nat :=
  addU64 (addU64 pos (group * blocksPerGroup % 2 ^ 32)) kernelDataStart

/-- The state after bit `pos` of a group has been handed out. -/
def AllocInfo.take (info : AllocInfo) (group : Nat) (agb : AgBitmap) (count : Nat) : AllocInfo :=
  { info with
    freeBlocks := subU64 info.freeBlocks count
    fsi := info.fsi.put group agb }

/-- The state after `count` blocks of a group have been given back. -/
def AllocInfo.giveBack (info : AllocInfo) (group : Nat) (agb : AgBitmap) (count : Nat) :
    AllocInfo :=
  { info with
    freeBlocks := addU64 info.freeBlocks count
    fsi := info.fsi.put group agb }

/-- The loop of `aetherfs_alloc_blocks_extended` over the groups. -/
def tryGroups (info : AllocInfo) (count hint : Nat) : List Nat → Nat × AllocInfo
  | [] => (0, info)
  | ag :: ags =>
    let tryAg := (hint + ag) % 2 ^ 32 % info.fsi.agCount
    match agBitmapAlloc (info.fsi.bitmaps tryAg) count with
    | .ok (pos, agb) => (blockOf tryAg pos, info.take tryAg agb count)
    | .error _ => tryGroups info count hint ags

/-- `aetherfs_alloc_blocks_extended`.  The class is looked up and not used. -/
def allocBlocksExtended (info : AllocInfo) (count : Nat) (_class : AllocClass) (agHint : Nat) :
    Nat × AllocInfo :=
  if count = 0 then (0, info)
  else
    let hint := if agHint ≥ info.fsi.agCount then 0 else agHint
    tryGroups info count hint (List.range info.fsi.agCount)

/-- `aetherfs_free_blocks_extended`. -/
def freeBlocksExtended (info : AllocInfo) (start count : Nat) : AllocInfo :=
  if start = 0 ∨ count = 0 then info
  else
    let agOffset := subU64 start kernelDataStart
    if agOffset ≥ info.fsi.agCount * blocksPerGroup % 2 ^ 32 then info
    else
      let ag := agOffset / blocksPerGroup % 2 ^ 32
      let blockInAg := agOffset % blocksPerGroup
      if ag < info.fsi.agCount then
        info.giveBack ag (agBitmapFree (info.fsi.bitmaps ag) blockInAg count) count
      else info

/-! ## 2. What a call picks -/

section Choice

variable {info : AllocInfo} {count hint : Nat}

/-- The first group, in the order of the loop, that takes the request, and the bit it gives. -/
def firstGroup (info : AllocInfo) (count hint : Nat) : List Nat → Option (Nat × Nat)
  | [] => none
  | ag :: ags =>
    let tryAg := (hint + ag) % 2 ^ 32 % info.fsi.agCount
    match agBitmapAlloc (info.fsi.bitmaps tryAg) count with
    | .ok (pos, _) => some (tryAg, pos)
    | .error _ => firstGroup info count hint ags

/-- The group and the bit a call picks. -/
def chosen (info : AllocInfo) (count agHint : Nat) : Option (Nat × Nat) :=
  if count = 0 then none
  else firstGroup info count (if agHint ≥ info.fsi.agCount then 0 else agHint)
    (List.range info.fsi.agCount)

/-- The group after its bits from `pos` on have been handed out. -/
def AgBitmap.taken (agb : AgBitmap) (pos count : Nat) : AgBitmap :=
  { agb with bitmap := setRun agb.bitmap pos count, free := agb.free - count }

/-- The group after its bits from `pos` on have been given back. -/
def AgBitmap.cleared (agb : AgBitmap) (pos count : Nat) : AgBitmap :=
  { agb with bitmap := clearRun agb.bitmap pos count, free := (agb.free + count) % 2 ^ 32 }

/-- The group and the bit from which a call of `aetherfs_free_blocks_extended` clears. -/
def freedBit (info : AllocInfo) (start count : Nat) : Option (Nat × Nat) :=
  let agOffset := subU64 start kernelDataStart
  let ag := agOffset / blocksPerGroup % 2 ^ 32
  if start ≠ 0 ∧ count ≠ 0 ∧ agOffset < info.fsi.agCount * blocksPerGroup % 2 ^ 32 ∧
      ag < info.fsi.agCount ∧ agOffset % blocksPerGroup ≠ 0 then
    some (ag, agOffset % blocksPerGroup)
  else none

/-- Bit `pos` is what a group gives for a request of `count`. -/
structure Gives (agb : AgBitmap) (count pos : Nat) : Prop where
  count_pos : 0 < count
  room : count ≤ agb.free
  inside : pos < agb.bits
  clear : agb.bitmap pos = false
  first : ∀ j, j < pos → agb.bitmap j = true

theorem agBitmapAlloc_ok {agb agb' : AgBitmap} {pos : Nat}
    (h : agBitmapAlloc agb count = .ok (pos, agb')) :
    Gives agb count pos ∧ agb' = agb.taken pos count := by
  obtain ⟨-, -, hset, hclear⟩ := firstZeroFrom_spec agb.bitmap (Nat.zero_le agb.bits)
  have hwrap : findNextZeroBitWrap agb.bitmap agb.bits 0 = firstZeroFrom agb.bitmap agb.bits 0 := by
    unfold findNextZeroBitWrap
    exact ite_self _
  rw [agBitmapAlloc, hwrap, ite_error_eq_ok, ite_error_eq_ok] at h
  obtain ⟨hcount, hroom, h⟩ := h
  obtain ⟨hin, h⟩ := ite_error_eq_ok.mp h
  obtain ⟨rfl, rfl⟩ := Prod.mk.inj (Except.ok.inj h)
  exact ⟨⟨Nat.pos_of_ne_zero hcount, Nat.not_lt.mp hroom, Nat.not_le.mp hin,
    hclear (Nat.not_le.mp hin), fun j hj => hset j (Nat.zero_le j) hj⟩, rfl⟩

/-- **The loop hands out what it chooses.** -/
theorem tryGroups_eq (ags : List Nat) : tryGroups info count hint ags =
    match firstGroup info count hint ags with
    | none => (0, info)
    | some (g, pos) =>
      (blockOf g pos, info.take g ((info.fsi.bitmaps g).taken pos count) count) := by
  induction ags with
  | nil => rfl
  | cons ag ags ih =>
    rw [tryGroups, firstGroup]
    cases hd : agBitmapAlloc (info.fsi.bitmaps ((hint + ag) % 2 ^ 32 % info.fsi.agCount)) count with
    | error e => exact ih
    | ok r =>
      obtain ⟨pos, agb⟩ := r
      obtain ⟨-, rfl⟩ := agBitmapAlloc_ok hd
      rfl

theorem allocBlocksExtended_eq (info : AllocInfo) (count : Nat) (cls : AllocClass) (agHint : Nat) :
    allocBlocksExtended info count cls agHint = match chosen info count agHint with
    | none => (0, info)
    | some (g, pos) =>
      (blockOf g pos, info.take g ((info.fsi.bitmaps g).taken pos count) count) := by
  rw [allocBlocksExtended, chosen]
  split
  · rfl
  · exact tryGroups_eq _

/-- **A free clears what it decodes**, and a bit 0 it does not clear. -/
theorem freeBlocksExtended_fsi (info : AllocInfo) (start count : Nat) :
    (freeBlocksExtended info start count).fsi = match freedBit info start count with
    | none => info.fsi
    | some (g, pos) => info.fsi.put g ((info.fsi.bitmaps g).cleared pos count) := by
  rw [freeBlocksExtended, freedBit]
  split
  · rw [if_neg (by omega)]
  · rename_i hargs
    simp only
    split
    · rw [if_neg (by omega)]
    · rename_i hoff
      split
      · rename_i hag
        rw [AllocInfo.giveBack, agBitmapFree]
        split
        · rw [if_neg (by omega)]
          exact info.fsi.put_self _
        · rw [if_pos (by omega)]
          rfl
      · rw [if_neg (by omega)]

theorem firstGroup_spec {g pos : Nat} (ags : List Nat) (hpos : 0 < info.fsi.agCount)
    (h : firstGroup info count hint ags = some (g, pos)) :
    g < info.fsi.agCount ∧ Gives (info.fsi.bitmaps g) count pos := by
  induction ags with
  | nil => exact absurd h (by simp [firstGroup])
  | cons ag ags ih =>
    rw [firstGroup] at h
    cases hd : agBitmapAlloc (info.fsi.bitmaps ((hint + ag) % 2 ^ 32 % info.fsi.agCount)) count with
    | error e =>
      rw [hd] at h
      exact ih h
    | ok r =>
      obtain ⟨p, agb⟩ := r
      rw [hd] at h
      obtain ⟨rfl, rfl⟩ := Prod.mk.inj (Option.some.inj h)
      exact ⟨Nat.mod_lt _ hpos, (agBitmapAlloc_ok hd).1⟩

theorem chosen_spec {agHint g pos : Nat} (h : chosen info count agHint = some (g, pos)) :
    g < info.fsi.agCount ∧ Gives (info.fsi.bitmaps g) count pos := by
  rw [chosen] at h
  split at h
  · exact absurd h (by simp)
  · rcases Nat.eq_zero_or_pos info.fsi.agCount with hzero | hpos
    · rw [hzero] at h
      exact absurd h (by simp [firstGroup])
    · exact firstGroup_spec _ hpos h

end Choice

/-! ## 3. Groups and block numbers -/

/-- Only eleven bits of the group survive the product. -/
theorem groupBase_eq (g : Nat) : g * blocksPerGroup % 2 ^ 32 = g % 2048 * blocksPerGroup := by
  have h : (2 : Nat) ^ 32 = 2048 * blocksPerGroup := by norm_num
  rw [h, Nat.mul_mod_mul_right]

theorem blockOf_eq {g pos : Nat} (hpos : pos < 2 ^ 32) :
    blockOf g pos = pos + g % 2048 * 2097152 + 7 := by
  rw [blockOf, groupBase_eq]
  simp only [addU64, blocksPerGroup, kernelDataStart]
  omega

/-- **What freeing a block number of the allocator does.** -/
theorem freeBlocksExtended_blockOf (info : AllocInfo) {g pos count : Nat} (hpos : pos < 2 ^ 32)
    (hcount : 0 < count) : freeBlocksExtended info (blockOf g pos) count =
      let ag := (pos + g % 2048 * 2097152) / 2097152
      if ag < info.fsi.agCount % 2048 then
        info.giveBack ag (agBitmapFree (info.fsi.bitmaps ag) (pos % 2097152) count) count
      else info := by
  have hoff : subU64 (blockOf g pos) kernelDataStart = pos + g % 2048 * 2097152 := by
    rw [blockOf_eq hpos]
    simp only [subU64, kernelDataStart]
    omega
  have hbit : (pos + g % 2048 * 2097152) % blocksPerGroup = pos % 2097152 := by
    simp only [blocksPerGroup]
    omega
  have hag : (pos + g % 2048 * 2097152) / blocksPerGroup % 2 ^ 32
      = (pos + g % 2048 * 2097152) / 2097152 := by
    simp only [blocksPerGroup]
    omega
  have hne : ¬ (blockOf g pos = 0 ∨ count = 0) := by
    rw [blockOf_eq hpos]
    omega
  rw [freeBlocksExtended, if_neg hne]
  simp only [hoff, hbit, hag, groupBase_eq]
  by_cases hlt : (pos + g % 2048 * 2097152) / 2097152 < info.fsi.agCount % 2048
  · rw [if_neg (by simp only [blocksPerGroup]; omega), if_pos (by omega), if_pos hlt]
  · rw [if_pos (by simp only [blocksPerGroup]; omega), if_neg hlt]

/-! ## 4. Runs -/

/-- The allocator, and the ranges it has handed out and not been given back. -/
structure AgMachine where
  info : AllocInfo
  live : List Interval

inductive AgCall
  | alloc (count : Nat) (cls : AllocClass) (hint : Nat)
  | free (start count : Nat)

def agStep (m : AgMachine) : AgCall → AgMachine
  | .alloc count cls hint =>
    let r := allocBlocksExtended m.info count cls hint
    ⟨r.2, if r.1 = 0 then m.live else ⟨r.1, count⟩ :: m.live⟩
  | .free start count => ⟨freeBlocksExtended m.info start count, m.live.erase ⟨start, count⟩⟩

/-- The arguments are 32 bits wide, and only what was handed out is freed. -/
def AgValid (m : AgMachine) : AgCall → Prop
  | .alloc count _ hint => count < 2 ^ 32 ∧ hint < 2 ^ 32
  | .free start count => ⟨start, count⟩ ∈ m.live

/-- A group's counter is right, and no bit behind its end is set. -/
structure GroupSound (agb : AgBitmap) : Prop where
  counted : agb.free = zeroCount agb.bitmap agb.bits
  inside : ∀ i, agb.bits ≤ i → agb.bitmap i = false

/-- Live ranges are disjoint, and every group is sound. -/
structure AgSound (m : AgMachine) : Prop where
  disjoint : m.live.Pairwise Interval.Apart
  groups : ∀ g, g < m.info.fsi.agCount → GroupSound (m.info.fsi.bitmaps g)

/-- All of the range lies in the group and is clear. -/
def RangeClear (agb : AgBitmap) (pos count : Nat) : Prop :=
  pos + count ≤ agb.bits ∧ ∀ i, i < count → agb.bitmap (pos + i) = false

/-- All of the range lies in the group and is set. -/
def RangeSet (agb : AgBitmap) (pos count : Nat) : Prop :=
  pos + count ≤ agb.bits ∧ ∀ i, i < count → agb.bitmap (pos + i) = true

/-- The call finds its whole range clear.  Beyond 2048 groups two groups share their block numbers,
so there what is handed out must not be live under the other group's name, and what is freed must
be set in the group it is taken for. -/
def AgFits (m : AgMachine) : AgCall → Prop
  | .alloc count _ hint => ∀ g pos, chosen m.info count hint = some (g, pos) →
      RangeClear (m.info.fsi.bitmaps g) pos count ∧
        (2048 < m.info.fsi.agCount → ∀ iv ∈ m.live, Interval.Apart ⟨blockOf g pos, count⟩ iv)
  | .free start count => 2048 < m.info.fsi.agCount → ∀ g pos,
      freedBit m.info start count = some (g, pos) → RangeSet (m.info.fsi.bitmaps g) pos count

section Group

variable {agb : AgBitmap} {pos count : Nat}

theorem GroupSound.free_le (h : GroupSound agb) : agb.free ≤ agb.bits := by
  have hle := runZeros_le agb.bitmap 0 agb.bits
  simp only [runZeros, Nat.zero_add] at hle
  rw [h.counted]
  exact hle

/-- **A group stays sound exactly when the range was clear.** -/
theorem taken_sound_iff (h : GroupSound agb) (hg : Gives agb count pos) :
    GroupSound (agb.taken pos count) ↔ RangeClear agb pos count := by
  have hroom := hg.room
  constructor
  · intro hs
    have hend : pos + count ≤ agb.bits := by
      by_contra hlt
      have hlast := hs.inside (pos + count - 1) (by simp only [AgBitmap.taken]; omega)
      simp only [AgBitmap.taken] at hlast
      rw [setRun_in _ (by have := hg.count_pos; omega)] at hlast
      exact absurd hlast (by simp)
    have hcount := zeroCount_setRun agb.bitmap hend
    have hfree : agb.free - count = zeroCount (setRun agb.bitmap pos count) agb.bits := hs.counted
    have hle := runZeros_le agb.bitmap pos count
    refine ⟨hend, (runZeros_eq_iff agb.bitmap).mp ?_⟩
    have := h.counted
    omega
  · intro ⟨hend, hclear⟩
    have hcount := zeroCount_setRun agb.bitmap hend
    rw [(runZeros_eq_iff agb.bitmap).mpr hclear] at hcount
    refine ⟨?_, fun i hi => ?_⟩
    · simp only [AgBitmap.taken]
      rw [h.counted]
      omega
    · simp only [AgBitmap.taken] at hi ⊢
      rw [setRun_out _ (by omega)]
      exact h.inside i hi

/-- **A group stays sound exactly when what it is given back was set.** -/
theorem cleared_sound_iff (h : GroupSound agb) (hcount : 0 < count)
    (hsmall : agb.bits + count < 2 ^ 32) :
    GroupSound (agb.cleared pos count) ↔ RangeSet agb pos count := by
  have hfree := h.free_le
  have hmod : (agb.free + count) % 2 ^ 32 = agb.free + count := Nat.mod_eq_of_lt (by omega)
  constructor
  · intro hs
    have hcounted : zeroCount (clearRun agb.bitmap pos count) agb.bits
        = zeroCount agb.bitmap agb.bits + count := by
      rw [← h.counted, ← hmod]
      exact hs.counted.symm
    exact (zeroCount_clearRun_iff agb.bitmap hcount).mp hcounted
  · intro hset
    refine ⟨?_, fun i hi => ?_⟩
    · simp only [AgBitmap.cleared]
      rw [hmod, h.counted, (zeroCount_clearRun_iff agb.bitmap hcount).mpr hset]
    · simp only [AgBitmap.cleared] at hi ⊢
      have hend := hset.1
      rw [clearRun_out _ (by omega)]
      exact h.inside i hi

end Group

section Keep

variable {m : AgMachine}

/-- The range is `len` set bits of a group. -/
structure Holds (fsi : FreeSpaceInfo) (g pos : Nat) (iv : Interval) : Prop where
  group : g < fsi.agCount
  start : iv.start = blockOf g pos
  len_pos : 0 < iv.len
  inside : pos + iv.len ≤ 32768
  set : ∀ i, i < iv.len → (fsi.bitmaps g).bitmap (pos + i) = true

/-- The invariant of a run that has gone well.  Only up to 2048 groups do block numbers say which
bits are behind them. -/
structure AgInv (m : AgMachine) : Prop where
  bits : ∀ g, (m.info.fsi.bitmaps g).bits = 32768
  sound : AgSound m
  short : ∀ iv ∈ m.live, 0 < iv.len ∧ iv.len ≤ 32768
  held : m.info.fsi.agCount ≤ 2048 → ∀ iv ∈ m.live, ∃ g pos, Holds m.info.fsi g pos iv

/-- Bits that are apart, or in different groups, are blocks that are apart. -/
theorem apart_of_bits {fsi : FreeSpaceInfo} (hfew : fsi.agCount ≤ 2048) {g g' pos pos' : Nat}
    {iv iv' : Interval} (h : Holds fsi g pos iv) (hg' : g' < fsi.agCount)
    (hstart' : iv'.start = blockOf g' pos') (hin' : pos' + iv'.len ≤ 32768)
    (hbits : g = g' → pos + iv.len ≤ pos' ∨ pos' + iv'.len ≤ pos) : Interval.Apart iv' iv := by
  have hg := h.group
  have hin := h.inside
  intro x hx' hx
  rw [Interval.Has, hstart', blockOf_eq (by omega), Nat.mod_eq_of_lt (by omega)] at hx'
  rw [Interval.Has, h.start, blockOf_eq (by omega), Nat.mod_eq_of_lt (by omega)] at hx
  by_cases hgg : g = g'
  · have := hbits hgg
    subst hgg
    omega
  · omega

/-- The invariant after one group and the live ranges have changed. -/
theorem AgInv.put (h : AgInv m) {g : Nat} {agb : AgBitmap} {info' : AllocInfo}
    {live' : List Interval} (hinfo : info'.fsi = m.info.fsi.put g agb) (hbits : agb.bits = 32768)
    (hsound : GroupSound agb) (hdisjoint : live'.Pairwise Interval.Apart)
    (hshort : ∀ iv ∈ live', 0 < iv.len ∧ iv.len ≤ 32768)
    (hheld : m.info.fsi.agCount ≤ 2048 →
      ∀ iv ∈ live', ∃ g' pos, Holds (m.info.fsi.put g agb) g' pos iv) :
    AgInv ⟨info', live'⟩ := by
  refine ⟨fun g' => ?_, ⟨hdisjoint, fun g' hg' => ?_⟩, hshort, fun hfew iv hiv => ?_⟩
  · rw [hinfo, FreeSpaceInfo.put_bitmaps]
    split
    · exact hbits
    · exact h.bits g'
  · rw [hinfo] at hg' ⊢
    rw [FreeSpaceInfo.put_bitmaps]
    split
    · exact hsound
    · exact h.sound.groups g' hg'
  · rw [hinfo] at hfew ⊢
    exact hheld hfew iv hiv

theorem AgInv.of_fsi (h : AgInv m) {info' : AllocInfo} (hinfo : info'.fsi = m.info.fsi) :
    AgInv ⟨info', m.live⟩ := by
  obtain ⟨hbits, hsound, hshort, hheld⟩ := h
  refine ⟨?_, ⟨hsound.disjoint, ?_⟩, hshort, ?_⟩
  · rw [hinfo]
    exact hbits
  · rw [hinfo]
    exact hsound.groups
  · rw [hinfo]
    exact hheld

theorem Holds.put {fsi : FreeSpaceInfo} {g g' pos : Nat} {agb : AgBitmap} {iv : Interval}
    (h : Holds fsi g' pos iv)
    (hset : g' = g → ∀ i, i < iv.len → agb.bitmap (pos + i) = true) :
    Holds (fsi.put g agb) g' pos iv := by
  refine ⟨h.group, h.start, h.len_pos, h.inside, fun i hi => ?_⟩
  rw [FreeSpaceInfo.put_bitmaps]
  split
  · rename_i hg
    exact hset hg i hi
  · exact h.set i hi

/-- What the allocator hands out is apart from what is live, if the call fits. -/
theorem AgInv.apart_new (h : AgInv m) {count hint g pos : Nat} {cls : AllocClass}
    (hfits : AgFits m (.alloc count cls hint)) (hc : chosen m.info count hint = some (g, pos)) :
    ∀ iv ∈ m.live, Interval.Apart ⟨blockOf g pos, count⟩ iv := by
  intro iv hiv
  obtain ⟨hg, hgives⟩ := chosen_spec hc
  obtain ⟨hclear, hother⟩ := hfits g pos hc
  have hend := hclear.1
  rw [h.bits g] at hend
  by_cases hfew : m.info.fsi.agCount ≤ 2048
  · obtain ⟨g', pos', hold⟩ := h.held hfew iv hiv
    refine apart_of_bits hfew hold hg rfl hend fun hgg => ?_
    -- a bit of both ranges would be set and clear
    subst hgg
    by_contra hover
    have hlen := hold.len_pos
    have hcount := hgives.count_pos
    have hboth := hold.set (max pos pos' - pos') (by simp only at hover ⊢; omega)
    rw [show pos' + (max pos pos' - pos') = pos + (max pos pos' - pos) by omega,
      hclear.2 (max pos pos' - pos) (by simp only at hover ⊢; omega)] at hboth
    exact absurd hboth (by simp)
  · exact hother (Nat.not_le.mp hfew) iv hiv

/-- A block number of the allocator is never the zero it answers when it is full. -/
theorem blockOf_ne_zero {g pos : Nat} (hpos : pos < 2 ^ 32) : blockOf g pos ≠ 0 := by
  rw [blockOf_eq hpos]
  exact Nat.succ_ne_zero _

/-- **The step: an allocation that finds its range clear.** -/
theorem agInv_alloc (h : AgInv m) {count hint : Nat} {cls : AllocClass}
    (hfits : AgFits m (.alloc count cls hint)) : AgInv (agStep m (.alloc count cls hint)) := by
  rw [agStep, allocBlocksExtended_eq]
  cases hc : chosen m.info count hint with
  | none => exact h
  | some gp =>
    obtain ⟨g, pos⟩ := gp
    obtain ⟨hg, hgives⟩ := chosen_spec hc
    have hclear := (hfits g pos hc).1
    have hend := hclear.1
    rw [h.bits g] at hend
    simp only [if_neg (blockOf_ne_zero (g := g) (show pos < 2 ^ 32 by omega))]
    refine h.put rfl (h.bits g) ((taken_sound_iff (h.sound.groups g hg) hgives).mpr hclear)
      (List.pairwise_cons.mpr ⟨h.apart_new hfits hc, h.sound.disjoint⟩) ?_ fun hfew iv hiv => ?_
    · intro iv hiv
      rcases List.mem_cons.mp hiv with rfl | hiv
      · exact ⟨hgives.count_pos, (Nat.le_add_left _ _).trans hend⟩
      · exact h.short iv hiv
    · rcases List.mem_cons.mp hiv with rfl | hiv
      · refine ⟨g, pos, hg, rfl, hgives.count_pos, hend, fun i hi => ?_⟩
        rw [FreeSpaceInfo.put_bitmaps, if_pos rfl]
        exact setRun_in _ ⟨Nat.le_add_right _ _, Nat.add_lt_add_left hi _⟩
      · obtain ⟨g', pos', hold⟩ := h.held hfew iv hiv
        refine ⟨g', pos', hold.put fun hgg i hi => ?_⟩
        subst hgg
        have := hold.set i hi
        simp only [AgBitmap.taken, setRun, this, ite_self]

theorem AgInv.erase (h : AgInv m) (iv : Interval) : AgInv ⟨m.info, m.live.erase iv⟩ :=
  ⟨h.bits, ⟨h.sound.disjoint.sublist (List.erase_sublist ..), h.sound.groups⟩,
    fun iv' hiv' => h.short iv' (List.mem_of_mem_erase hiv'),
    fun hfew iv' hiv' => h.held hfew iv' (List.mem_of_mem_erase hiv')⟩

theorem AgInv.apart (h : AgInv m) {iv iv' : Interval} (hiv : iv ∈ m.live)
    (hiv' : iv' ∈ m.live.erase iv) : Interval.Apart iv iv' := by
  have hperm := List.perm_cons_erase hiv
  have hpair := (hperm.pairwise_iff fun hab => Interval.Apart.symm hab).mp h.sound.disjoint
  exact (List.pairwise_cons.mp hpair).1 iv' hiv'

/-- Up to 2048 groups a free decodes what the allocation has encoded. -/
theorem freedBit_blockOf {info : AllocInfo} {g pos g' pos' count : Nat} (hpos : pos < 2097152)
    (hg : g < 2048) (h : freedBit info (blockOf g pos) count = some (g', pos')) :
    g' = g ∧ pos' = pos := by
  rw [freedBit] at h
  split at h
  · obtain ⟨rfl, rfl⟩ := Prod.mk.inj (Option.some.inj h)
    rw [blockOf_eq (by omega)]
    simp only [subU64, kernelDataStart, blocksPerGroup]
    omega
  · exact absurd h (by simp)

theorem AgInv.freed_set (h : AgInv m) {start count g pos : Nat} (hlive : ⟨start, count⟩ ∈ m.live)
    (hfits : AgFits m (.free start count)) (hf : freedBit m.info start count = some (g, pos)) :
    RangeSet (m.info.fsi.bitmaps g) pos count := by
  by_cases hfew : m.info.fsi.agCount ≤ 2048
  · obtain ⟨g', pos', hold⟩ := h.held hfew _ hlive
    have hin : pos' + count ≤ 32768 := hold.inside
    have hgroup := hold.group
    have hstart : start = blockOf g' pos' := hold.start
    rw [hstart] at hf
    obtain ⟨rfl, rfl⟩ := freedBit_blockOf (by omega) (by omega) hf
    refine ⟨?_, hold.set⟩
    rw [h.bits g]
    exact hin
  · exact hfits (Nat.not_le.mp hfew) g pos hf

theorem freedBit_lt {info : AllocInfo} {start count g pos : Nat}
    (h : freedBit info start count = some (g, pos)) : g < info.fsi.agCount := by
  rw [freedBit] at h
  split at h
  · rename_i hcond
    obtain ⟨rfl, rfl⟩ := Prod.mk.inj (Option.some.inj h)
    exact hcond.2.2.2.1
  · exact absurd h (by simp)

/-- A free after which all is well has found its range set, and the other way round. -/
theorem AgInv.cleared_iff (h : AgInv m) {start count g pos : Nat} (hlive : ⟨start, count⟩ ∈ m.live)
    (hf : freedBit m.info start count = some (g, pos)) :
    GroupSound ((m.info.fsi.bitmaps g).cleared pos count) ↔
      RangeSet (m.info.fsi.bitmaps g) pos count := by
  obtain ⟨hlen, hshort⟩ := h.short _ hlive
  refine cleared_sound_iff (h.sound.groups g (freedBit_lt hf)) hlen ?_
  rw [h.bits g]
  simp only at hshort
  omega

theorem AgInv.held_freed (h : AgInv m) (hfew : m.info.fsi.agCount ≤ 2048) {start count g pos : Nat}
    (hlive : ⟨start, count⟩ ∈ m.live) (hf : freedBit m.info start count = some (g, pos))
    {iv : Interval} (hiv : iv ∈ m.live.erase ⟨start, count⟩) : ∃ g' pos', Holds
      (m.info.fsi.put g ((m.info.fsi.bitmaps g).cleared pos count)) g' pos' iv := by
  obtain ⟨g₀, pos₀, hold⟩ := h.held hfew _ hlive
  obtain ⟨g', pos', hkeep⟩ := h.held hfew iv (List.mem_of_mem_erase hiv)
  have hin₀ : pos₀ + count ≤ 32768 := hold.inside
  have hin := hkeep.inside
  have hgroup := hold.group
  have hstart : start = blockOf g₀ pos₀ := hold.start
  have hf' := hf
  rw [hstart] at hf'
  obtain ⟨rfl, rfl⟩ := freedBit_blockOf (by omega) (by omega) hf'
  refine ⟨g', pos', hkeep.put fun hgg i hi => ?_⟩
  subst hgg
  -- the bit belongs to a range that is apart from the freed one
  have hapart := h.apart hlive hiv (blockOf g' (pos' + i))
  simp only [Interval.Has, hkeep.start, hstart, blockOf_eq (show pos' + i < 2 ^ 32 by omega),
    blockOf_eq (show pos < 2 ^ 32 by omega), blockOf_eq (show pos' < 2 ^ 32 by omega)] at hapart
  have hout : ¬ (pos ≤ pos' + i ∧ pos' + i < pos + count) := by omega
  exact (clearRun_out _ hout).trans (hkeep.set i hi)

/-- **The step: a range is given back.**  At bit 0, and where there are 2048 groups, nothing is. -/
theorem agInv_free (h : AgInv m) {start count : Nat} (hlive : ⟨start, count⟩ ∈ m.live)
    (hfits : AgFits m (.free start count)) : AgInv (agStep m (.free start count)) := by
  have hless := h.erase ⟨start, count⟩
  have hfsi := freeBlocksExtended_fsi m.info start count
  rw [agStep]
  cases hf : freedBit m.info start count with
  | none =>
    rw [hf] at hfsi
    exact hless.of_fsi hfsi
  | some gp =>
    obtain ⟨g, pos⟩ := gp
    rw [hf] at hfsi
    exact h.put hfsi (h.bits g) ((h.cleared_iff hlive hf).mpr (h.freed_set hlive hfits hf))
      hless.sound.disjoint hless.short fun hfew iv hiv => h.held_freed hfew hlive hf hiv

/-- **The step back: an allocation after which all is well has found its range clear.** -/
theorem agFits_alloc_of_sound (h : AgInv m) {count hint : Nat} {cls : AllocClass}
    (hs : AgSound (agStep m (.alloc count cls hint))) : AgFits m (.alloc count cls hint) := by
  intro g pos hc
  obtain ⟨hg, hgives⟩ := chosen_spec hc
  rw [agStep, allocBlocksExtended_eq, hc] at hs
  have hafter := hs.groups g hg
  have hapart := hs.disjoint
  simp only [AllocInfo.take, FreeSpaceInfo.put_bitmaps, if_true] at hafter
  have hclear := (taken_sound_iff (h.sound.groups g hg) hgives).mp hafter
  refine ⟨hclear, fun _ => ?_⟩
  have hin := hgives.inside
  rw [h.bits g] at hin
  simp only [if_neg (blockOf_ne_zero (g := g) (show pos < 2 ^ 32 by omega))] at hapart
  exact (List.pairwise_cons.mp hapart).1

theorem agFits_free_of_sound (h : AgInv m) {start count : Nat} (hlive : ⟨start, count⟩ ∈ m.live)
    (hs : AgSound (agStep m (.free start count))) : AgFits m (.free start count) := by
  intro _ g pos hf
  have hfsi := freeBlocksExtended_fsi m.info start count
  rw [hf] at hfsi
  have hg : g < (agStep m (.free start count)).info.fsi.agCount := by
    rw [agStep, hfsi]
    exact freedBit_lt hf
  have hafter := hs.groups g hg
  rw [agStep, hfsi, FreeSpaceInfo.put_bitmaps, if_pos rfl] at hafter
  exact (h.cleared_iff hlive hf).mp hafter

end Keep

theorem agInv_init {info : AllocInfo} {agCount : Nat}
    (hinit : freeSpaceInit agCount = .ok info.fsi) : AgInv ⟨info, []⟩ := by
  have hfsi : info.fsi = ⟨agCount, fun _ => ⟨fun _ => false, 32768, 32768⟩⟩ :=
    (Except.ok.inj hinit).symm
  refine ⟨fun g => ?_, ⟨List.Pairwise.nil, fun g _ => ?_⟩, fun iv hiv => ?_, fun _ iv hiv => ?_⟩
  · simp only [hfsi]
  · simp only [hfsi]
    exact ⟨(zeroCount_clear _).symm, fun _ _ => rfl⟩
  · exact absurd hiv List.not_mem_nil
  · exact absurd hiv List.not_mem_nil

/-- **Double allocation, exactly.**  A run of allocations and frees keeps live ranges disjoint and
the groups' counters right as long as, and only as long as, every allocation finds its whole range
clear (and, beyond 2048 groups, no block number is used for two groups). -/
theorem group_allocator_sound_iff {info : AllocInfo} {agCount : Nat}
    (hinit : freeSpaceInit agCount = .ok info.fsi) (calls : List AgCall)
    (hvalid : Along agStep AgValid ⟨info, []⟩ calls) :
    (∀ m ∈ states agStep ⟨info, []⟩ calls, AgSound m) ↔ Along agStep AgFits ⟨info, []⟩ calls := by
  refine states_good_iff (fun m hm => hm.sound) (fun m c hm hv hok => ?_) (fun m c hm hv hs => ?_)
    calls _ (agInv_init hinit) hvalid
  · cases c with
    | alloc count cls hint => exact agInv_alloc hm hok
    | free start count => exact agInv_free hm hv hok
  · cases c with
    | alloc count cls hint => exact agFits_alloc_of_sound hm hs
    | free start count => exact agFits_free_of_sound hm hv hs

/-- One group, nothing allocated. -/
def freshAlloc : AllocInfo :=
  ⟨4096, 4088, 0, false, ⟨1, fun _ => ⟨fun _ => false, 32768, 32768⟩⟩⟩

/-- On few groups, a call fits when the range it takes is clear. -/
theorem agFits_of_clear {m : AgMachine} {count hint : Nat} {cls : AllocClass} (g pos : Nat)
    (hfew : m.info.fsi.agCount ≤ 2048) (hc : chosen m.info count hint = some (g, pos))
    (hclear : RangeClear (m.info.fsi.bitmaps g) pos count) : AgFits m (.alloc count cls hint) := by
  intro g' pos' hc'
  obtain ⟨rfl, rfl⟩ := Prod.mk.inj (Option.some.inj (hc.symm.trans hc'))
  exact ⟨hclear, fun hmany => absurd hmany (Nat.not_lt.mpr hfew)⟩

/-- Five blocks, and the three behind them. -/
def twoRanges : List AgCall := [.alloc 5 .hot 0, .alloc 3 .hot 0]

theorem group_allocator_sound_two :
    (twoRanges.foldl agStep ⟨freshAlloc, []⟩).live = [⟨12, 3⟩, ⟨7, 5⟩] ∧
      ∀ m ∈ states agStep ⟨freshAlloc, []⟩ twoRanges, AgSound m := by
  have hvalid : Along agStep AgValid ⟨freshAlloc, []⟩ twoRanges :=
    ⟨⟨by norm_num, by norm_num⟩, ⟨by norm_num, by norm_num⟩, trivial⟩
  have hinit : freeSpaceInit 1 = .ok freshAlloc.fsi := rfl
  refine ⟨rfl, (group_allocator_sound_iff hinit _ hvalid).mpr ⟨?_, ?_, trivial⟩⟩
  · exact agFits_of_clear 0 0 (by decide) rfl ⟨by decide, by decide⟩
  · exact agFits_of_clear 0 5 (by decide) rfl ⟨by decide, by decide⟩

/-- Three single blocks, the middle one given back, and two blocks from the hole on. -/
def holeCalls : List AgCall :=
  [.alloc 1 .hot 0, .alloc 1 .hot 0, .alloc 1 .hot 0, .free 8 1, .alloc 2 .hot 0]

theorem hole_handed_out_twice : freeSpaceInit 1 = .ok freshAlloc.fsi ∧
    Along agStep AgValid ⟨freshAlloc, []⟩ holeCalls ∧
      ¬ ∀ m ∈ states agStep ⟨freshAlloc, []⟩ holeCalls, AgSound m := by
  refine ⟨rfl, ?_, fun hsound => ?_⟩
  · have hlive : ⟨8, 1⟩ ∈ ((holeCalls.take 3).foldl agStep ⟨freshAlloc, []⟩).live := by
      decide +kernel
    exact ⟨⟨by norm_num, by norm_num⟩, ⟨by norm_num, by norm_num⟩, ⟨by norm_num, by norm_num⟩,
      hlive, ⟨by norm_num, by norm_num⟩, trivial⟩
  · have hlive : (holeCalls.foldl agStep ⟨freshAlloc, []⟩).live = [⟨8, 2⟩, ⟨9, 1⟩, ⟨7, 1⟩] := rfl
    have hapart := (hsound _ (foldl_mem_states _ _)).disjoint
    rw [hlive] at hapart
    exact (List.pairwise_cons.mp hapart).1 ⟨9, 1⟩ (by simp) 9 (by decide) (by decide)

/-! ## 5. Allocate, then free -/

/-- What the fields of the state can hold; `ab_bits` is what `ag_bitmap_init` was given. -/
structure AllocInfo.Wf (info : AllocInfo) : Prop where
  freeBlocks : info.freeBlocks < 2 ^ 64
  bits : ∀ g, g < info.fsi.agCount → (info.fsi.bitmaps g).bits = groupBits
  free : ∀ g, g < info.fsi.agCount → (info.fsi.bitmaps g).free < 2 ^ 32

/-- Every group and `s_free_blocks` are as before. -/
def Restored (info info' : AllocInfo) : Prop :=
  info'.freeBlocks = info.freeBlocks ∧
    ∀ g, g < info.fsi.agCount → info'.fsi.bitmaps g = info.fsi.bitmaps g

/-- A range that was just handed out, freed at once, leaves everything as it was. -/
def Undone (info : AllocInfo) (count : Nat) (cls : AllocClass) (hint : Nat) : Prop :=
  let r := allocBlocksExtended info count cls hint
  r.1 ≠ 0 → Restored info (freeBlocksExtended r.2 r.1 count)

/-- No two groups of `agCount` ever answer the same block. -/
def NoAlias (agCount : Nat) : Prop :=
  ∀ info info' : AllocInfo, info.Wf → info'.Wf → info.fsi.agCount = agCount →
    info'.fsi.agCount = agCount → ∀ count count' cls cls' hint hint' g g' pos pos',
      chosen info count hint = some (g, pos) → chosen info' count' hint' = some (g', pos') → g ≠ g' →
        (allocBlocksExtended info count cls hint).1 ≠ (allocBlocksExtended info' count' cls' hint').1

section Undo

variable {info : AllocInfo} {count hint g pos : Nat}

theorem AllocInfo.Wf.pos_lt (h : info.Wf) (hc : chosen info count hint = some (g, pos)) :
    pos < 32768 := by
  obtain ⟨hg, hgives⟩ := chosen_spec hc
  have hin := hgives.inside
  rw [h.bits g hg] at hin
  exact hin

/-- What freeing the chosen range does to the state after the allocation. -/
theorem undo_eq (h : info.Wf) (hc : chosen info count hint = some (g, pos)) :
    let after := info.take g ((info.fsi.bitmaps g).taken pos count) count
    freeBlocksExtended after (blockOf g pos) count =
      if g % 2048 < info.fsi.agCount % 2048 then
        after.giveBack (g % 2048) (agBitmapFree (after.fsi.bitmaps (g % 2048)) pos count) count
      else after := by
  have hpos := h.pos_lt hc
  have hgroup : (pos + g % 2048 * 2097152) / 2097152 = g % 2048 := by omega
  intro after
  rw [freeBlocksExtended_blockOf _ (by omega) (chosen_spec hc).2.count_pos]
  simp only [hgroup, Nat.mod_eq_of_lt (show pos < 2097152 by omega)]
  rfl

theorem undo_group (h : info.Wf) (hc : chosen info count hint = some (g, pos)) :
    (freeBlocksExtended (info.take g ((info.fsi.bitmaps g).taken pos count) count)
        (blockOf g pos) count).fsi.bitmaps g =
      if g < info.fsi.agCount % 2048 ∧ 0 < pos then
        ((info.fsi.bitmaps g).taken pos count).cleared pos count
      else (info.fsi.bitmaps g).taken pos count := by
  have hcount := (chosen_spec hc).2.count_pos
  rw [undo_eq h hc]
  split
  · rename_i hlow
    simp only [AllocInfo.giveBack, AllocInfo.take, FreeSpaceInfo.put_bitmaps, if_true]
    by_cases hg : g = g % 2048
    · rw [if_pos hg, if_pos hg.symm, agBitmapFree]
      by_cases hpos : pos = 0
      · rw [if_pos (Or.inl hpos), if_neg (by omega)]
      · rw [if_neg (by omega), if_pos ⟨by omega, by omega⟩]
        rfl
    · rw [if_neg hg, if_neg (by omega)]
  · rw [if_neg (by omega)]
    simp only [AllocInfo.take, FreeSpaceInfo.put_bitmaps, if_true]

/-- **Where it is undone**: the range was clear, not at bit 0, and in a group that is decoded. -/
theorem restored_iff (h : info.Wf) (hc : chosen info count hint = some (g, pos)) :
    Restored info (freeBlocksExtended (info.take g ((info.fsi.bitmaps g).taken pos count) count)
        (blockOf g pos) count) ↔
      0 < pos ∧ g < info.fsi.agCount % 2048 ∧
        ∀ i, i < count → (info.fsi.bitmaps g).bitmap (pos + i) = false := by
  obtain ⟨hg, hgives⟩ := chosen_spec hc
  have hroom := hgives.room
  have hfree := h.free g hg
  have hgroup := undo_group h hc
  constructor
  · intro hr
    rw [hr.2 g hg] at hgroup
    split at hgroup
    · rename_i hcond
      refine ⟨hcond.2, hcond.1, fun i hi => ?_⟩
      rw [hgroup]
      exact clearRun_in _ ⟨Nat.le_add_right _ _, Nat.add_lt_add_left hi _⟩
    · -- bit `pos` was clear, and is set now
      have hset : (info.fsi.bitmaps g).bitmap pos = true := by
        rw [hgroup]
        exact setRun_in _ ⟨le_refl pos, Nat.lt_add_of_pos_right hgives.count_pos⟩
      rw [hgives.clear] at hset
      exact absurd hset (by simp)
  · intro ⟨hpos, hlow, hclear⟩
    have hback : ((info.fsi.bitmaps g).taken pos count).cleared pos count = info.fsi.bitmaps g := by
      rw [AgBitmap.taken, AgBitmap.cleared]
      simp only [clearRun_setRun _ hclear, Nat.sub_add_cancel hroom, Nat.mod_eq_of_lt hfree]
    rw [if_pos ⟨hlow, hpos⟩, hback] at hgroup
    have hmod : g % 2048 = g := Nat.mod_eq_of_lt (by omega)
    refine ⟨?_, fun g' hg' => ?_⟩
    · have hwide := h.freeBlocks
      rw [undo_eq h hc, hmod, if_pos hlow]
      simp only [AllocInfo.giveBack, AllocInfo.take, addU64, subU64]
      omega
    · by_cases hgg : g' = g
      · rw [hgg, hgroup]
      · rw [undo_eq h hc, hmod, if_pos hlow]
        simp only [AllocInfo.giveBack, AllocInfo.take, FreeSpaceInfo.put_bitmaps, if_neg hgg]

theorem undone_iff (h : info.Wf) (cls : AllocClass) : Undone info count cls hint ↔
    ∀ g pos, chosen info count hint = some (g, pos) → 0 < pos ∧ g < info.fsi.agCount % 2048 ∧
      ∀ i, i < count → (info.fsi.bitmaps g).bitmap (pos + i) = false := by
  rw [Undone, allocBlocksExtended_eq]
  cases hc : chosen info count hint with
  | none =>
    refine iff_of_true (fun hzero => absurd rfl hzero) fun g pos hsome => ?_
    exact absurd hsome (by simp)
  | some gp =>
    obtain ⟨g, pos⟩ := gp
    have hpos := h.pos_lt hc
    have hblock := blockOf_ne_zero (g := g) (show pos < 2 ^ 32 by omega)
    constructor
    · intro hr g' pos' hsome
      obtain ⟨rfl, rfl⟩ := Prod.mk.inj (Option.some.inj hsome)
      exact (restored_iff h hc).mp (hr hblock)
    · intro hcond _
      exact (restored_iff h hc).mpr (hcond g pos rfl)

end Undo

/-! ## 6. Two groups of one name -/

/-- `agCount` groups, nothing allocated. -/
def emptyGroups (agCount : Nat) : AllocInfo :=
  ⟨0, 0, 0, false, ⟨agCount, fun _ => ⟨fun _ => false, 32768, 32768⟩⟩⟩

theorem emptyGroups_wf (agCount : Nat) : (emptyGroups agCount).Wf :=
  ⟨by norm_num [emptyGroups], fun _ _ => rfl, fun _ _ => by norm_num [emptyGroups]⟩

theorem chosen_emptyGroups {agCount hint : Nat} (h : hint < agCount) (hwide : hint < 2 ^ 32) :
    chosen (emptyGroups agCount) 1 hint = some (hint, 0) := by
  obtain ⟨n, rfl⟩ : ∃ n, agCount = n + 1 := ⟨agCount - 1, by omega⟩
  have hcount : (emptyGroups (n + 1)).fsi.agCount = n + 1 := rfl
  have hfirst : (hint + 0) % 2 ^ 32 % (n + 1) = hint := by
    rw [Nat.add_zero, Nat.mod_eq_of_lt hwide, Nat.mod_eq_of_lt h]
  rw [chosen, if_neg Nat.one_ne_zero, hcount, if_neg (Nat.not_le.mpr h), List.range_succ_eq_map,
    firstGroup, hcount, hfirst]
  rfl

/-- **Block numbers tell groups apart up to 2048 of them**, and no further. -/
theorem noAlias_iff (agCount : Nat) : NoAlias agCount ↔ agCount ≤ 2048 := by
  constructor
  · intro h
    by_contra hmany
    have h0 := chosen_emptyGroups (show 0 < agCount by omega) (by norm_num)
    have h2048 := chosen_emptyGroups (show 2048 < agCount by omega) (by norm_num)
    refine h _ _ (emptyGroups_wf agCount) (emptyGroups_wf agCount) rfl rfl 1 1 .hot .hot 0 2048
      0 2048 0 0 h0 h2048 (by norm_num) ?_
    rw [allocBlocksExtended_eq, allocBlocksExtended_eq, h0, h2048]
    rfl
  · intro hfew info info' h h' hn hn' count count' cls cls' hint hint' g g' pos pos' hc hc' hne
    have hpos := h.pos_lt hc
    have hpos' := h'.pos_lt hc'
    have hg := (chosen_spec hc).1
    have hg' := (chosen_spec hc').1
    rw [allocBlocksExtended_eq, allocBlocksExtended_eq, hc, hc']
    simp only
    rw [blockOf_eq (by omega), blockOf_eq (by omega)]
    omega

/-- **Free after allocate, exactly.**  One call is undone when its range was clear, does not start
at bit 0 and lies in a group that 32-bit products can name; and groups never answer the same
block when there are at most 2048 of them. -/
theorem free_undoes_alloc_iff (info : AllocInfo) (h : info.Wf) (count : Nat) (cls : AllocClass)
    (hint : Nat) : (Undone info count cls hint ↔
      ∀ g pos, chosen info count hint = some (g, pos) → 0 < pos ∧ g < info.fsi.agCount % 2048 ∧
        ∀ i, i < count → (info.fsi.bitmaps g).bitmap (pos + i) = false) ∧
    (NoAlias info.fsi.agCount ↔ info.fsi.agCount ≤ 2048) :=
  ⟨undone_iff h cls, noAlias_iff _⟩

/-- One group, of which block 7 is taken. -/
def firstTaken : AllocInfo := (allocBlocksExtended freshAlloc 1 .hot 0).2

theorem free_undoes_alloc_second : firstTaken.Wf ∧ Undone firstTaken 1 .hot 0 ∧ NoAlias 1 := by
  have hwf : firstTaken.Wf := by
    refine ⟨by decide +kernel, fun g hg => ?_, fun g hg => ?_⟩
    · obtain rfl : g = 0 := Nat.lt_one_iff.mp hg
      rfl
    · obtain rfl : g = 0 := Nat.lt_one_iff.mp hg
      decide +kernel
  have hboth := free_undoes_alloc_iff firstTaken hwf 1 .hot 0
  refine ⟨hwf, hboth.1.mpr fun g pos hc => ?_, hboth.2.mpr (by decide)⟩
  have hsecond : chosen firstTaken 1 0 = some (0, 1) := rfl
  obtain ⟨rfl, rfl⟩ := Prod.mk.inj (Option.some.inj (hsecond.symm.trans hc))
  refine ⟨Nat.one_pos, by decide, fun i hi => ?_⟩
  obtain rfl : i = 0 := Nat.lt_one_iff.mp hi
  rfl

theorem first_block_not_given_back : freshAlloc.Wf ∧ ¬ Undone freshAlloc 1 .hot 0 := by
  refine ⟨⟨by norm_num [freshAlloc], fun _ _ => rfl, fun _ _ => by norm_num [freshAlloc]⟩, ?_⟩
  intro h
  have hbit : ((freeBlocksExtended (allocBlocksExtended freshAlloc 1 .hot 0).2 7 1).fsi.bitmaps
      0).bitmap 0 = true := rfl
  have hback := (h (by decide +kernel)).2 0 (by decide)
  rw [show (allocBlocksExtended freshAlloc 1 .hot 0).1 = 7 from rfl] at hback
  rw [hback] at hbit
  exact absurd hbit (by decide)

end AetherFs
