/-
# The default allocator of `balloc.c`, and where allocations fall

`aetherfs_alloc_blocks` has no map of what is in use.  It turns `s_next_ino`, the counter inode
numbers come from as well, into a block number (`slot`), moves it on by ONE whatever the length of
the request, and subtracts the length from `s_free_blocks` without comparing the two.

* Ranges stay apart exactly as long as each call happens to find its slot beyond what is live
  (`CursorFits`); requests for single blocks do, until the counter comes round.
* On a freshly mounted file system the first block of either allocator is 7, the checkpoint root:
  what is handed out lies in the data region exactly as long as `aetherfs_alloc_blocks` answers
  nothing and the group allocator keeps out of bit 0 of group 0 and of the device's end
  (`RegionFits`).
-/
import AetherFs.Format
import AetherFs.Kernel.Balloc

namespace AetherFs

open Lib

/-! ## 1. The source -/

/-- The block a counter stands for, and the first one at the end of the device. -/
def slot (blocksCount nextIno : Nat) : Nat :=
  let block := nextIno % blocksPerGroup + kernelDataStart
  if block ≥ blocksCount then kernelDataStart else block

/-- `aetherfs_alloc_blocks`. -/
def allocBlocks (info : AllocInfo) (_start len : Nat) : Nat × AllocInfo :=
  if info.freeBlocks = 0 then (0, info)
  else (slot info.blocksCount info.nextIno, { info with
    nextIno := addU64 info.nextIno 1, freeBlocks := subU64 info.freeBlocks len, dirty := true })

/-- `aetherfs_free_blocks`. -/
def freeBlocks (info : AllocInfo) (start len : Nat) : AllocInfo :=
  if start = 0 ∨ len = 0 then info
  else { info with freeBlocks := addU64 info.freeBlocks len, dirty := true }

/-- The kinds of file `aetherfs_new_inode` makes: regular, directory, symbolic link, device. -/
def newInodeMode (mode : Nat) : Prop :=
  sIsReg mode ∨ sIsDir mode ∨ mode &&& 0o170000 = 0o120000 ∨ mode &&& 0o170000 = 0o020000 ∨
    mode &&& 0o170000 = 0o060000

instance (mode : Nat) : Decidable (newInodeMode mode) :=
  inferInstanceAs (Decidable (_ ∨ _ ∨ _ ∨ _ ∨ _))

/-- The number `aetherfs_new_inode` gives; `new_inode` may find no memory for it. -/
def newInode (info : AllocInfo) (mode : Nat) (memory : Bool) : Except Errno Nat × AllocInfo :=
  if ¬ newInodeMode mode then (.error .EINVAL, info)
  else
    let ino := if info.nextIno < rootIno + 1 then rootIno + 1 else info.nextIno
    (if memory then .ok ino else .error .ENOMEM, { info with nextIno := addU64 info.nextIno 1 })

/-- What `aetherfs_fill_super` takes from the superblock.  The counter starts at zero: nothing of
`struct aetherfs_sb_info` is read from anywhere else. -/
def mounted (blocksCount free : Nat) (fsi : FreeSpaceInfo) : AllocInfo :=
  ⟨blocksCount, free, 0, false, fsi⟩

/-! ## 2. Runs of the default allocator -/

/-- The allocator, the ranges it has handed out and not been given back, and whether
`s_free_blocks` has ever gone below zero. -/
structure CursorMachine where
  info : AllocInfo
  live : List Interval
  wrapped : Bool

inductive CursorCall
  | alloc (start len : Nat)
  | free (start len : Nat)
  | newInode (mode : Nat) (memory : Bool)

def cursorStep (m : CursorMachine) : CursorCall → CursorMachine
  | .alloc start len =>
    let r := allocBlocks m.info start len
    if r.1 = 0 then { m with info := r.2 }
    else ⟨r.2, ⟨r.1, len⟩ :: m.live, m.wrapped || decide (m.info.freeBlocks < len)⟩
  | .free start len =>
    { m with info := freeBlocks m.info start len, live := m.live.erase ⟨start, len⟩ }
  | .newInode mode memory => { m with info := (newInode m.info mode memory).2 }

/-- At least one block is asked for. -/
def CursorValid (_m : CursorMachine) : CursorCall → Prop
  | .alloc _ len => 1 ≤ len
  | .free _ _ => True
  | .newInode _ _ => True

/-- Nothing is handed out twice, and the counter of free blocks is not negative. -/
structure CursorSound (m : CursorMachine) : Prop where
  disjoint : m.live.Pairwise Interval.Apart
  not_wrapped : m.wrapped = false

/-- The allocator has that many blocks, and everything live lies in front of the slot or behind the
range from it. -/
def CursorFits (m : CursorMachine) : CursorCall → Prop
  | .alloc _ len => m.info.freeBlocks = 0 ∨
      (len ≤ m.info.freeBlocks ∧ ∀ iv ∈ m.live,
        iv.start + iv.len ≤ slot m.info.blocksCount m.info.nextIno ∨
          slot m.info.blocksCount m.info.nextIno + len ≤ iv.start)
  | .free _ _ => True
  | .newInode _ _ => True

theorem slot_pos (blocksCount nextIno : Nat) : slot blocksCount nextIno ≠ 0 := by
  rw [slot]
  split
  · exact Nat.succ_ne_zero _
  · exact Nat.succ_ne_zero _

theorem apart_iff {start len : Nat} {iv : Interval} (hlen : 1 ≤ len) (hiv : 0 < iv.len) :
    Interval.Apart ⟨start, len⟩ iv ↔ iv.start + iv.len ≤ start ∨ start + len ≤ iv.start := by
  constructor
  · intro h
    have hmax := h (max start iv.start)
    simp only [Interval.Has] at hmax
    omega
  · intro h x hx hx'
    simp only [Interval.Has] at hx hx'
    omega

theorem cursorStep_alloc (m : CursorMachine) (start len : Nat) : cursorStep m (.alloc start len) =
    if m.info.freeBlocks = 0 then m
    else ⟨(allocBlocks m.info start len).2,
      ⟨slot m.info.blocksCount m.info.nextIno, len⟩ :: m.live,
      m.wrapped || decide (m.info.freeBlocks < len)⟩ := by
  rw [cursorStep, allocBlocks]
  by_cases hfree : m.info.freeBlocks = 0
  · rw [if_pos hfree, if_pos hfree]
    rfl
  · rw [if_neg hfree, if_neg hfree]
    simp only [if_neg (slot_pos m.info.blocksCount m.info.nextIno)]

section Keep

variable {m : CursorMachine}

/-- The invariant of a run that has gone well. -/
structure CursorInv (m : CursorMachine) : Prop where
  sound : CursorSound m
  filled : ∀ iv ∈ m.live, 0 < iv.len

/-- **An allocation keeps the ranges apart exactly when it finds its slot beyond them.** -/
theorem cursor_alloc_iff (h : CursorInv m) {start len : Nat} (hlen : 1 ≤ len) :
    CursorSound (cursorStep m (.alloc start len)) ↔ CursorFits m (.alloc start len) := by
  have hlive := h.sound.disjoint
  have hflag := h.sound.not_wrapped
  rw [cursorStep_alloc, CursorFits]
  by_cases hfree : m.info.freeBlocks = 0
  · rw [if_pos hfree]
    exact iff_of_true h.sound (Or.inl hfree)
  · rw [if_neg hfree]
    constructor
    · intro hs
      have hapart := (List.pairwise_cons.mp hs.disjoint).1
      have hroom := hs.not_wrapped
      simp only [hflag, Bool.false_or, decide_eq_false_iff_not, Nat.not_lt] at hroom
      exact Or.inr ⟨hroom, fun iv hiv => (apart_iff hlen (h.filled iv hiv)).mp (hapart iv hiv)⟩
    · rintro (hzero | ⟨hroom, hbeyond⟩)
      · exact absurd hzero hfree
      · refine ⟨List.pairwise_cons.mpr ⟨fun iv hiv => ?_, hlive⟩, ?_⟩
        · exact (apart_iff hlen (h.filled iv hiv)).mpr (hbeyond iv hiv)
        · simp only [hflag, Bool.false_or, decide_eq_false_iff_not, Nat.not_lt]
          exact hroom

theorem cursorInv_step (h : CursorInv m) {c : CursorCall} (hvalid : CursorValid m c)
    (hfits : CursorFits m c) : CursorInv (cursorStep m c) := by
  cases c with
  | alloc start len =>
    refine ⟨(cursor_alloc_iff h hvalid).mpr hfits, ?_⟩
    rw [cursorStep_alloc]
    split
    · exact h.filled
    · intro iv hiv
      rcases List.mem_cons.mp hiv with rfl | hiv
      · exact hvalid
      · exact h.filled iv hiv
  | free start len =>
    exact ⟨⟨h.sound.disjoint.sublist (List.erase_sublist ..), h.sound.not_wrapped⟩,
      fun iv hiv => h.filled iv (List.mem_of_mem_erase hiv)⟩
  | newInode mode memory => exact ⟨⟨h.sound.disjoint, h.sound.not_wrapped⟩, h.filled⟩

end Keep

/-- Allocations are of one block each. -/
def CursorCall.Single : CursorCall → Prop
  | .alloc _ len => len = 1
  | .free _ _ => True
  | .newInode _ _ => True

theorem cursor_moves (m : CursorMachine) (c : CursorCall) :
    (cursorStep m c).info.blocksCount = m.info.blocksCount ∧
      ((cursorStep m c).info.nextIno = m.info.nextIno ∨
        (cursorStep m c).info.nextIno = addU64 m.info.nextIno 1) := by
  cases c with
  | alloc start len =>
    rw [cursorStep_alloc, allocBlocks]
    split
    · exact ⟨rfl, Or.inl rfl⟩
    · exact ⟨rfl, Or.inr rfl⟩
  | free start len =>
    rw [cursorStep, freeBlocks]
    split
    · exact ⟨rfl, Or.inl rfl⟩
    · exact ⟨rfl, Or.inl rfl⟩
  | newInode mode memory =>
    rw [cursorStep, newInode]
    split
    · exact ⟨rfl, Or.inl rfl⟩
    · exact ⟨rfl, Or.inr rfl⟩

theorem single_live {m : CursorMachine} {c : CursorCall} (hc : c.Single)
    (hwindow : m.info.nextIno % blocksPerGroup + 1 < blocksPerGroup)
    (hend : m.info.nextIno % blocksPerGroup + kernelDataStart < m.info.blocksCount)
    (hlive : ∀ iv ∈ m.live,
      iv.start + iv.len ≤ m.info.nextIno % blocksPerGroup + kernelDataStart) :
    ∀ iv ∈ (cursorStep m c).live, iv.start + iv.len ≤
      (cursorStep m c).info.nextIno % blocksPerGroup + kernelDataStart := by
  have hmove : addU64 m.info.nextIno 1 % blocksPerGroup = m.info.nextIno % blocksPerGroup + 1 := by
    simp only [addU64, blocksPerGroup] at hwindow ⊢
    omega
  intro iv hiv
  have hnext : m.info.nextIno % blocksPerGroup
      ≤ (cursorStep m c).info.nextIno % blocksPerGroup := by
    rcases (cursor_moves m c).2 with hsame | hone
    · rw [hsame]
    · rw [hone, hmove]
      exact Nat.le_succ _
  cases c with
  | alloc start len =>
    rw [cursorStep_alloc] at hiv hnext ⊢
    split at hiv
    · rename_i hfree
      rw [if_pos hfree]
      exact hlive iv hiv
    · rename_i hfree
      rw [if_neg hfree] at hnext ⊢
      rcases List.mem_cons.mp hiv with rfl | hiv
      · obtain rfl : len = 1 := hc
        simp only [allocBlocks, if_neg hfree, hmove, slot]
        rw [if_neg (Nat.not_le.mpr hend)]
        exact le_of_eq (Nat.add_right_comm _ _ _)
      · exact (hlive iv hiv).trans (Nat.add_le_add_right hnext _)
  | free start len =>
    exact (hlive iv (List.mem_of_mem_erase hiv)).trans (Nat.add_le_add_right hnext _)
  | newInode mode memory => exact (hlive iv hiv).trans (Nat.add_le_add_right hnext _)

/-- **Single blocks fit until the counter comes round** or reaches the end of the device. -/
theorem single_blocks_fit (calls : List CursorCall) : ∀ m : CursorMachine,
    (∀ c ∈ calls, c.Single) →
    m.info.nextIno % blocksPerGroup + calls.length < blocksPerGroup →
    m.info.nextIno % blocksPerGroup + kernelDataStart + calls.length ≤ m.info.blocksCount →
    (∀ iv ∈ m.live, iv.start + iv.len ≤ m.info.nextIno % blocksPerGroup + kernelDataStart) →
    Along cursorStep CursorFits m calls := by
  induction calls with
  | nil =>
    intro m _ _ _ _
    trivial
  | cons c calls ih =>
    intro m hsingle hwindow hend hlive
    rw [List.length_cons] at hwindow hend
    have hc := hsingle c List.mem_cons_self
    have hnext : (cursorStep m c).info.nextIno % blocksPerGroup
        ≤ m.info.nextIno % blocksPerGroup + 1 := by
      rcases (cursor_moves m c).2 with hsame | hone
      · rw [hsame]
        exact Nat.le_succ _
      · rw [hone]
        simp only [addU64, blocksPerGroup]
        omega
    refine ⟨?_, ih _ (fun c' hc' => hsingle c' (List.mem_cons_of_mem _ hc')) (by omega) ?_
      (single_live hc (by omega) (by omega) hlive)⟩
    · cases c with
      | alloc start len =>
        obtain rfl : len = 1 := hc
        rcases Nat.eq_zero_or_pos m.info.freeBlocks with hzero | hpos
        · exact Or.inl hzero
        · refine Or.inr ⟨hpos, fun iv hiv => Or.inl ?_⟩
          rw [slot, if_neg (by omega)]
          exact hlive iv hiv
      | free start len => trivial
      | newInode mode memory => trivial
    · rw [(cursor_moves m c).1]
      omega

/-- **The default allocator, exactly.**  A run of allocations, frees and new inodes hands nothing
out twice and keeps `s_free_blocks` from wrapping exactly when each allocation finds enough blocks
and its slot beyond what is live; single blocks do, until the counter comes round. -/
theorem default_allocator_sound_iff (info : AllocInfo) (calls : List CursorCall)
    (hvalid : Along cursorStep CursorValid ⟨info, [], false⟩ calls) :
    ((∀ m ∈ states cursorStep ⟨info, [], false⟩ calls, CursorSound m) ↔
      Along cursorStep CursorFits ⟨info, [], false⟩ calls) ∧
    ((∀ c ∈ calls, c.Single) → info.nextIno % blocksPerGroup + calls.length < blocksPerGroup →
      info.nextIno % blocksPerGroup + kernelDataStart + calls.length ≤ info.blocksCount →
      ∀ m ∈ states cursorStep ⟨info, [], false⟩ calls, CursorSound m) := by
  have hstart : CursorInv ⟨info, [], false⟩ :=
    ⟨⟨List.Pairwise.nil, rfl⟩, fun iv hiv => absurd hiv List.not_mem_nil⟩
  have hiff : (∀ m ∈ states cursorStep ⟨info, [], false⟩ calls, CursorSound m) ↔
      Along cursorStep CursorFits ⟨info, [], false⟩ calls := by
    refine states_good_iff (fun m hm => hm.sound) (fun m c hm hv hok => cursorInv_step hm hv hok)
      (fun m c hm hv hs => ?_) calls _ hstart hvalid
    cases c with
    | alloc start len => exact (cursor_alloc_iff hm hv).mp hs
    | free start len => trivial
    | newInode mode memory => trivial
  refine ⟨hiff, fun hsingle hwindow hend => hiff.mpr ?_⟩
  exact single_blocks_fit calls _ hsingle hwindow hend fun iv hiv => absurd hiv List.not_mem_nil

/-- A volume of 4096 blocks, just formatted and mounted. -/
def mountedSmall : AllocInfo := mounted 4096 4088 ⟨1, fun _ => ⟨fun _ => false, 32768, 32768⟩⟩

theorem default_allocator_sound_single :
    Along cursorStep CursorValid ⟨mountedSmall, [], false⟩ [.alloc 0 1, .alloc 0 1, .free 7 1] ∧
      ∀ m ∈ states cursorStep ⟨mountedSmall, [], false⟩ [.alloc 0 1, .alloc 0 1, .free 7 1],
        CursorSound m := by
  have hvalid : Along cursorStep CursorValid ⟨mountedSmall, [], false⟩
      [.alloc 0 1, .alloc 0 1, .free 7 1] := ⟨le_refl 1, le_refl 1, trivial, trivial⟩
  refine ⟨hvalid, (default_allocator_sound_iff mountedSmall _ hvalid).2 ?_ (by decide) (by decide)⟩
  intro c hc
  simp only [List.mem_cons, List.not_mem_nil, or_false] at hc
  rcases hc with rfl | rfl | rfl
  · rfl
  · rfl
  · trivial

theorem two_blocks_then_one_overlap :
    Along cursorStep CursorValid ⟨mountedSmall, [], false⟩ [.alloc 0 2, .alloc 0 1] ∧
      ¬ ∀ m ∈ states cursorStep ⟨mountedSmall, [], false⟩ [.alloc 0 2, .alloc 0 1],
        CursorSound m := by
  refine ⟨⟨Nat.le_succ 1, le_refl 1, trivial⟩, fun hsound => ?_⟩
  have hlive : (List.foldl cursorStep ⟨mountedSmall, [], false⟩ [.alloc 0 2, .alloc 0 1]).live
      = [⟨8, 1⟩, ⟨7, 2⟩] := rfl
  have hapart := (hsound _ (foldl_mem_states _ _)).disjoint
  rw [hlive] at hapart
  exact (List.pairwise_cons.mp hapart).1 ⟨7, 2⟩ (by simp) 8 (by decide) (by decide)

/-! ## 3. The data region -/

/-- Both allocators on one file system, and the ranges they have answered. -/
structure RegionMachine where
  info : AllocInfo
  answers : List Interval

inductive RegionCall
  | alloc (start len : Nat)
  | extended (count : Nat) (cls : AllocClass) (hint : Nat)

/-- What a call answers. -/
def RegionCall.answer (info : AllocInfo) : RegionCall → Nat × AllocInfo
  | .alloc start len => allocBlocks info start len
  | .extended count cls hint => allocBlocksExtended info count cls hint

/-- How many blocks it asks for. -/
def RegionCall.request : RegionCall → Nat
  | .alloc _ len => len
  | .extended count _ _ => count

def regionStep (m : RegionMachine) (c : RegionCall) : RegionMachine :=
  let r := c.answer m.info
  ⟨r.2, if r.1 = 0 then m.answers else ⟨r.1, c.request⟩ :: m.answers⟩

/-- The arguments are as wide as the source's. -/
def RegionValid (_m : RegionMachine) : RegionCall → Prop
  | .alloc _ len => len < 2 ^ 64
  | .extended count _ hint => count < 2 ^ 32 ∧ hint < 2 ^ 32

/-- The range lies behind the bootstrap blocks and in front of the device's end. -/
def InRegion (blocksCount : Nat) (iv : Interval) : Prop :=
  dataStartBlock ≤ iv.start ∧ iv.start + iv.len ≤ blocksCount

/-- The default allocator is out of blocks; the group allocator picks a bit that is not the first
of group 0 (nor of a group with its number) and a range that ends on the device. -/
def RegionFits (m : RegionMachine) : RegionCall → Prop
  | .alloc _ _ => m.info.freeBlocks = 0
  | .extended count _ hint => ∀ g pos, chosen m.info count hint = some (g, pos) →
      (0 < pos ∨ 0 < g % 2048) ∧ blockOf g pos + count ≤ m.info.blocksCount

/-- The same without the end: the request fits a group. -/
def StartsBehind (m : RegionMachine) : RegionCall → Prop
  | .alloc _ _ => m.info.freeBlocks = 0
  | .extended count _ hint => count ≤ groupBits ∧
      ∀ g pos, chosen m.info count hint = some (g, pos) → 0 < pos ∨ 0 < g % 2048

/-- The invariant: the counter has not moved. -/
structure RegionInv (m : RegionMachine) : Prop where
  unmoved : m.info.nextIno = 0
  bits : ∀ g, (m.info.fsi.bitmaps g).bits = groupBits
  inside : ∀ iv ∈ m.answers, InRegion m.info.blocksCount iv

section Region

variable {m : RegionMachine}

theorem region_blocksCount (m : RegionMachine) (c : RegionCall) :
    (regionStep m c).info.blocksCount = m.info.blocksCount := by
  cases c with
  | alloc start len =>
    simp only [regionStep, RegionCall.answer, allocBlocks]
    split
    · rfl
    · rfl
  | extended count cls hint =>
    simp only [regionStep, RegionCall.answer, allocBlocksExtended_eq]
    split
    · rfl
    · rfl

/-- **The first answer of the default allocator is block 7.** -/
theorem slot_unmoved (blocksCount : Nat) : slot blocksCount 0 = kernelDataStart := by
  rw [slot]
  exact ite_self _

theorem region_alloc_iff (h : RegionInv m) (start len : Nat) :
    (∀ iv ∈ (regionStep m (.alloc start len)).answers, InRegion m.info.blocksCount iv) ↔
      m.info.freeBlocks = 0 := by
  simp only [regionStep, RegionCall.answer, allocBlocks, h.unmoved, slot_unmoved]
  by_cases hfree : m.info.freeBlocks = 0
  · rw [if_pos hfree]
    exact iff_of_true h.inside hfree
  · rw [if_neg hfree]
    refine iff_of_false (fun hin => ?_) hfree
    have hlow : dataStartBlock ≤ kernelDataStart :=
      (hin ⟨kernelDataStart, len⟩ List.mem_cons_self).1
    exact absurd hlow (by decide)

theorem region_extended_iff (h : RegionInv m) (count : Nat) (cls : AllocClass) (hint : Nat) :
    (∀ iv ∈ (regionStep m (.extended count cls hint)).answers, InRegion m.info.blocksCount iv) ↔
      RegionFits m (.extended count cls hint) := by
  simp only [regionStep, RegionCall.answer, allocBlocksExtended_eq, RegionFits]
  cases hc : chosen m.info count hint with
  | none => exact iff_of_true h.inside fun g pos hsome => absurd hsome (by simp)
  | some gp =>
    obtain ⟨g, pos⟩ := gp
    have hin := (chosen_spec hc).2.inside
    rw [h.bits g] at hin
    have hpos : pos < 2 ^ 32 := hin.trans (by norm_num)
    have hblock := blockOf_eq (g := g) hpos
    have hlow : dataStartBlock ≤ blockOf g pos ↔ 0 < pos ∨ 0 < g % 2048 := by
      rw [hblock]
      simp only [dataStartBlock]
      omega
    simp only [if_neg (blockOf_ne_zero (g := g) hpos)]
    constructor
    · intro hin g' pos' hsome
      obtain ⟨rfl, rfl⟩ := Prod.mk.inj (Option.some.inj hsome)
      obtain ⟨hstart, hend⟩ := hin _ List.mem_cons_self
      exact ⟨hlow.mp hstart, hend⟩
    · intro hfits iv hiv
      rcases List.mem_cons.mp hiv with rfl | hiv
      · obtain ⟨hstart, hend⟩ := hfits g pos rfl
        exact ⟨hlow.mpr hstart, hend⟩
      · exact h.inside iv hiv

/-- **The step**: a call that fits leaves the counter where it was. -/
theorem regionInv_step (h : RegionInv m) {c : RegionCall} (hfits : RegionFits m c) :
    RegionInv (regionStep m c) := by
  have hcount := region_blocksCount m c
  cases c with
  | alloc start len =>
    have hsame : (regionStep m (.alloc start len)).info = m.info := by
      have hfree : m.info.freeBlocks = 0 := hfits
      simp only [regionStep, RegionCall.answer, allocBlocks, if_pos hfree]
    refine ⟨by rw [hsame, h.unmoved], fun g => by rw [hsame, h.bits g], ?_⟩
    rw [hcount]
    exact (region_alloc_iff h start len).mpr hfits
  | extended count cls hint =>
    refine ⟨?_, fun g => ?_, ?_⟩
    · simp only [regionStep, RegionCall.answer, allocBlocksExtended_eq]
      split
      · exact h.unmoved
      · exact h.unmoved
    · simp only [regionStep, RegionCall.answer, allocBlocksExtended_eq]
      split
      · exact h.bits g
      · simp only [AllocInfo.take, FreeSpaceInfo.put_bitmaps]
        split
        · exact h.bits _
        · exact h.bits g
    · rw [hcount]
      exact (region_extended_iff h count cls hint).mpr hfits

/-- Where the groups end on the device, the ranges do. -/
theorem StartsBehind.fits (h : RegionInv m) {c : RegionCall} (hstart : StartsBehind m c)
    (hgroups : ∀ g, g < m.info.fsi.agCount → blockOf g 0 + 2 * groupBits ≤ m.info.blocksCount) :
    RegionFits m c := by
  cases c with
  | alloc start len => exact hstart
  | extended count cls hint =>
    intro g pos hc
    refine ⟨hstart.2 g pos hc, ?_⟩
    obtain ⟨hg, hgives⟩ := chosen_spec hc
    have hpos := hgives.inside
    rw [h.bits g] at hpos
    have hend := hgroups g hg
    have hcount := hstart.1
    rw [blockOf_eq (by norm_num)] at hend
    rw [blockOf_eq (hpos.trans (by norm_num))]
    omega

theorem region_agCount (m : RegionMachine) (c : RegionCall) :
    (regionStep m c).info.fsi.agCount = m.info.fsi.agCount := by
  cases c with
  | alloc start len =>
    simp only [regionStep, RegionCall.answer, allocBlocks]
    split <;> rfl
  | extended count cls hint =>
    simp only [regionStep, RegionCall.answer, allocBlocksExtended_eq]
    split <;> rfl

end Region

/-- **The data region, exactly.**  On a mounted file system every answer of a run of allocations
lies in the data region as long as, and only as long as, the default allocator answers nothing and
every range of the group allocator starts beyond bit 0 of group 0 and ends on the device.  The end is
no condition where all groups end on the device and no request is larger than a group. -/
theorem allocations_in_region_iff (blocksCount free : Nat) {agCount : Nat} {fsi : FreeSpaceInfo}
    (hinit : freeSpaceInit agCount = .ok fsi) (calls : List RegionCall)
    (hvalid : Along regionStep RegionValid ⟨mounted blocksCount free fsi, []⟩ calls) :
    ((∀ m ∈ states regionStep ⟨mounted blocksCount free fsi, []⟩ calls,
        ∀ iv ∈ m.answers, InRegion m.info.blocksCount iv) ↔
      Along regionStep RegionFits ⟨mounted blocksCount free fsi, []⟩ calls) ∧
    ((∀ g, g < agCount → blockOf g 0 + 2 * groupBits ≤ blocksCount) →
      Along regionStep StartsBehind ⟨mounted blocksCount free fsi, []⟩ calls →
      ∀ m ∈ states regionStep ⟨mounted blocksCount free fsi, []⟩ calls,
        ∀ iv ∈ m.answers, InRegion m.info.blocksCount iv) := by
  have hfsi : fsi = ⟨agCount, fun _ => ⟨fun _ => false, 32768, 32768⟩⟩ :=
    (Except.ok.inj hinit).symm
  have hstart : RegionInv ⟨mounted blocksCount free fsi, []⟩ := by
    refine ⟨rfl, fun g => ?_, fun iv hiv => absurd hiv List.not_mem_nil⟩
    rw [mounted, hfsi]
  constructor
  · refine states_good_iff (fun m hm => hm.inside) (fun m c hm _ hok => regionInv_step hm hok)
      (fun m c hm _ hs => ?_) calls _ hstart hvalid
    rw [region_blocksCount] at hs
    cases c with
    | alloc start len => exact (region_alloc_iff hm start len).mp hs
    | extended count cls hint => exact (region_extended_iff hm count cls hint).mp hs
  · intro hgroups hbehind m hm
    have hinv := @along_inv _ _ regionStep (fun m => RegionInv m ∧ m.info.blocksCount = blocksCount ∧
      m.info.fsi.agCount = agCount) StartsBehind (fun m c hm hc => ?_) calls _ m
      ⟨hstart, rfl, by rw [mounted, hfsi]⟩ hbehind hm
    · exact hinv.1.inside
    · obtain ⟨hinv, hblocks, hcount⟩ := hm
      refine ⟨regionInv_step hinv (hc.fits hinv ?_), (region_blocksCount m c).trans hblocks,
        (region_agCount m c).trans hcount⟩
      rw [hblocks, hcount]
      exact hgroups

/-- A file system of three groups, just formatted and mounted. -/
def mountedLarge : AllocInfo :=
  mounted 6291456 6291448 ⟨3, fun _ => ⟨fun _ => false, 32768, 32768⟩⟩

theorem allocations_in_region_second_group :
    Along regionStep RegionValid ⟨mountedLarge, []⟩ [.extended 4 .hot 1, .extended 9 .warm 1] ∧
      ∀ m ∈ states regionStep ⟨mountedLarge, []⟩ [.extended 4 .hot 1, .extended 9 .warm 1],
        ∀ iv ∈ m.answers, InRegion m.info.blocksCount iv := by
  have hvalid : Along regionStep RegionValid ⟨mountedLarge, []⟩
      [.extended 4 .hot 1, .extended 9 .warm 1] :=
    ⟨⟨by norm_num, by norm_num⟩, ⟨by norm_num, by norm_num⟩, trivial⟩
  have hinit : freeSpaceInit 3 = .ok mountedLarge.fsi := rfl
  refine ⟨hvalid, (allocations_in_region_iff 6291456 6291448 hinit _ hvalid).2 (by decide)
    ⟨⟨by decide, fun g pos hc => ?_⟩, ⟨by decide, fun g pos hc => ?_⟩, trivial⟩⟩
  · have hfirst : chosen mountedLarge 4 1 = some (1, 0) := rfl
    obtain ⟨rfl, rfl⟩ := Prod.mk.inj (Option.some.inj (hfirst.symm.trans hc))
    exact Or.inr (by decide)
  · have hsecond : chosen (regionStep ⟨mountedLarge, []⟩ (.extended 4 .hot 1)).info 9 1
        = some (1, 4) := by decide +kernel
    obtain ⟨rfl, rfl⟩ := Prod.mk.inj (Option.some.inj (hsecond.symm.trans hc))
    exact Or.inl (by decide)

theorem checkpoint_root_handed_out :
    Along regionStep RegionValid ⟨mountedSmall, []⟩ [.alloc 0 1] ∧
      (⟨checkpointRootBlock, 1⟩ : Interval) ∈ (regionStep ⟨mountedSmall, []⟩ (.alloc 0 1)).answers ∧
      ¬ InRegion 4096 ⟨checkpointRootBlock, 1⟩ :=
  ⟨⟨by norm_num [RegionValid], trivial⟩, by decide, fun h => absurd h.1 (by decide)⟩

end AetherFs
