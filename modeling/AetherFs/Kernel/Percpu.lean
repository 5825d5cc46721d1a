/-
# The per-CPU block cache of `percpu.c`

Each CPU keeps up to 64 free blocks in `pd_free_list`, the top one at `pd_free_count - 1`.  When
the cache is empty, `aetherfs_percpu_alloc_block` takes a run of 64 blocks from the allocator, hands
out the first and sets the counter to 63; the other 63 blocks are NOT written to the list.  The
allocations that follow hand out whatever the slots were left with: zero, or a block that was handed
out before.

The machine of section 2 keeps, beside the cache, the runs it was given, the blocks that were freed
into it and those that are handed out.  `stale` is the number of slots, from the bottom, that a
refill has counted and no free has written since; it is a number and not a set because the list is
a stack.

* The counter never exceeds the 64 slots (`percpuInv_step`).
* No block is invented or handed out twice exactly as long as what is on top, where it is left
  over, happens to be a known block, and no block on top is handed out already.
* That is so where callers free what they hold and never come to a left-over slot
  (`percpu_careful`).
-/
import AetherFs.Device
import AetherFs.Lib.Machine

namespace AetherFs

open Lib

/-! ## 1. The source -/

/-- `struct aetherfs_percpu_data`. -/
structure PercpuData where
  pdFreeCount : Nat
  pdFreeList : Nat → Nat
  pdAllocationCount : BitVec 32

/-- The slots of `pd_free_list`. -/
abbrev percpuSlots : Nat := 64

/-- What `aetherfs_percpu_init` leaves of the statically allocated, zeroed data. -/
def percpuInit : PercpuData := ⟨0, fun _ => 0, 0⟩

/-- `aetherfs_percpu_alloc_block`; `blk` is what `aetherfs_alloc_blocks(NULL, 0, 64)` gives, if it
comes to that.  The error is `(int)blk`. -/
def percpuAllocBlock (p : PercpuData) (blk : Nat) : Except Int Nat × PercpuData :=
  if p.pdFreeCount > 0 then
    (.ok (p.pdFreeList (p.pdFreeCount - 1)),
      { p with
        pdFreeCount := p.pdFreeCount - 1
        pdAllocationCount := p.pdAllocationCount - 1 })
  else if blk ≥ 2 ^ 63 then (.error (BitVec.ofNat 32 blk).toInt, p)
  else (.ok blk, { p with pdFreeCount := 63, pdAllocationCount := p.pdAllocationCount - 1 })

/-- `aetherfs_percpu_free_block`: the cache, and the block that goes to `aetherfs_free_blocks`. -/
def percpuFreeBlock (p : PercpuData) (block : Nat) : PercpuData × Option Nat :=
  if p.pdFreeCount < percpuSlots then
    ({ p with
      pdFreeList := Function.update p.pdFreeList p.pdFreeCount block
      pdFreeCount := p.pdFreeCount + 1 }, none)
  else (p, some block)

/-- `aetherfs_percpu_flush` on one CPU: the blocks that go to `aetherfs_free_blocks`, in order. -/
def percpuFlush (p : PercpuData) : PercpuData × List Nat :=
  ({ p with pdFreeCount := 0 }, (List.range p.pdFreeCount).reverse.map p.pdFreeList)

/-! ## 2. Runs -/

/-- The cache of a CPU and its past. -/
structure PercpuMachine where
  data : PercpuData
  /-- the first blocks of the runs obtained from the allocator -/
  runs : List Nat
  /-- the blocks that were freed into the cache -/
  freed : List Nat
  /-- the blocks that were handed out, and those of them that have not been freed since -/
  handed : List Nat
  out : List Nat
  stale : Nat

inductive PercpuCall
  | alloc (blk : Nat)
  | free (block : Nat)

/-- The block on top of the list. -/
def PercpuData.top (p : PercpuData) : Nat := p.pdFreeList (p.pdFreeCount - 1)

def percpuStep (m : PercpuMachine) : PercpuCall → PercpuMachine
  | .alloc blk =>
    match percpuAllocBlock m.data blk with
    | (.ok block, data) =>
      { m with
        data := data
        runs := if m.data.pdFreeCount = 0 then blk :: m.runs else m.runs
        handed := block :: m.handed
        out := block :: m.out
        stale := if m.data.pdFreeCount = 0 then 63 else min m.stale (m.data.pdFreeCount - 1) }
    | (.error _, data) => { m with data := data }
  | .free block =>
    match percpuFreeBlock m.data block with
    | (data, none) =>
      { m with data := data, freed := block :: m.freed, out := m.out.filter (· ≠ block) }
    | (data, some _) => { m with data := data, out := m.out.filter (· ≠ block) }

def percpuStart : PercpuMachine := ⟨percpuInit, [], [], [], [], 0⟩

/-- The block is in a run that was obtained, or was freed into the cache. -/
def PercpuMachine.Known (m : PercpuMachine) (block : Nat) : Prop :=
  (∃ blk ∈ m.runs, blk ≤ block ∧ block < blk + 64) ∨ block ∈ m.freed

/-- Nothing is invented, nothing handed out twice, and the counter is within the list. -/
structure PercpuSound (m : PercpuMachine) : Prop where
  known : ∀ block ∈ m.handed, m.Known block
  distinct : m.out.Nodup
  count : m.data.pdFreeCount ≤ percpuSlots

/-- The allocator answers with a run none of whose blocks is handed out. -/
def PercpuValid (m : PercpuMachine) : PercpuCall → Prop
  | .alloc blk => m.data.pdFreeCount = 0 →
      blk + 64 ≤ 2 ^ 63 ∧ ∀ block, blk ≤ block → block < blk + 64 → block ∉ m.out
  | .free _ => True

/-- The block on top is not handed out; where it is left over it is known all the same. -/
def PercpuFits (m : PercpuMachine) : PercpuCall → Prop
  | .alloc _ => 0 < m.data.pdFreeCount →
      m.data.top ∉ m.out ∧ (m.stale = m.data.pdFreeCount → m.Known m.data.top)
  | .free _ => True

/-- A caller frees what it was handed, and none comes to a slot that is left over. -/
def PercpuCareful (m : PercpuMachine) : PercpuCall → Prop
  | .alloc _ => m.data.pdFreeCount = 0 ∨ m.stale < m.data.pdFreeCount
  | .free block => block ∈ m.out

/-! ## 3. What a call can do -/

section Step

variable {m : PercpuMachine} {blk : Nat}

/-- **An allocation** pops the top, or refills. -/
theorem percpuStep_alloc (hv : PercpuValid m (.alloc blk)) :
    (0 < m.data.pdFreeCount ∧ percpuStep m (.alloc blk) =
      { m with
        data := { m.data with
          pdFreeCount := m.data.pdFreeCount - 1
          pdAllocationCount := m.data.pdAllocationCount - 1 }
        handed := m.data.top :: m.handed
        out := m.data.top :: m.out
        stale := min m.stale (m.data.pdFreeCount - 1) }) ∨
    (m.data.pdFreeCount = 0 ∧ blk ∉ m.out ∧ percpuStep m (.alloc blk) =
      { m with
        data := { m.data with
          pdFreeCount := 63
          pdAllocationCount := m.data.pdAllocationCount - 1 }
        runs := blk :: m.runs
        handed := blk :: m.handed
        out := blk :: m.out
        stale := 63 }) := by
  rcases Nat.eq_zero_or_pos m.data.pdFreeCount with hzero | hpos
  · obtain ⟨hfit, hfresh⟩ := hv hzero
    refine Or.inr ⟨hzero, hfresh blk (Nat.le_refl _) (by omega), ?_⟩
    have hsmall : ¬ blk ≥ 2 ^ 63 := by omega
    simp only [percpuStep, percpuAllocBlock, hzero, gt_iff_lt, Nat.lt_irrefl, if_false, if_true,
      if_neg hsmall]
  · refine Or.inl ⟨hpos, ?_⟩
    simp only [percpuStep, percpuAllocBlock, gt_iff_lt, if_pos hpos, if_neg hpos.ne',
      PercpuData.top]

/-- **A free** pushes, or hands on to the allocator. -/
theorem percpuStep_free (m : PercpuMachine) (block : Nat) :
    (m.data.pdFreeCount < percpuSlots ∧ percpuStep m (.free block) =
      { m with
        data := { m.data with
          pdFreeList := Function.update m.data.pdFreeList m.data.pdFreeCount block
          pdFreeCount := m.data.pdFreeCount + 1 }
        freed := block :: m.freed
        out := m.out.filter (· ≠ block) }) ∨
    (percpuSlots ≤ m.data.pdFreeCount ∧
      percpuStep m (.free block) = { m with out := m.out.filter (· ≠ block) }) := by
  rcases Nat.lt_or_ge m.data.pdFreeCount percpuSlots with hroom | hfull
  · refine Or.inl ⟨hroom, ?_⟩
    simp only [percpuStep, percpuFreeBlock, if_pos hroom]
  · refine Or.inr ⟨hfull, ?_⟩
    simp only [percpuStep, percpuFreeBlock, if_neg (Nat.not_lt.mpr hfull)]

/-- **The counter stays within the list**, whatever is called. -/
theorem percpu_count_step (h : m.data.pdFreeCount ≤ percpuSlots) (c : PercpuCall) :
    (percpuStep m c).data.pdFreeCount ≤ percpuSlots := by
  cases c with
  | alloc blk =>
    have hdata : (percpuStep m (.alloc blk)).data = (percpuAllocBlock m.data blk).2 := by
      rw [percpuStep]
      cases percpuAllocBlock m.data blk with
      | mk r data =>
        cases r with
        | error e => rfl
        | ok block => rfl
    rw [hdata, percpuAllocBlock]
    split
    · exact (Nat.sub_le _ _).trans h
    · split
      · exact h
      · exact Nat.le_succ 63
  | free block =>
    rcases percpuStep_free m block with ⟨hroom, hstep⟩ | ⟨-, hstep⟩
    · rw [hstep]
      exact hroom
    · rw [hstep]
      exact h

/-- A slot above the left-over ones once the top is popped was above them before. -/
theorem above_stale {stale count i : Nat} (hlow : min stale (count - 1) ≤ i) (hi : i < count - 1) :
    stale ≤ i ∧ i < count := by
  omega

theorem PercpuMachine.Known.mono {m m' : PercpuMachine} {block : Nat} (h : m.Known block)
    (hruns : m.runs ⊆ m'.runs) (hfreed : m.freed ⊆ m'.freed) : m'.Known block := by
  rcases h with ⟨blk, hblk, hin⟩ | hblock
  · exact Or.inl ⟨blk, hruns hblk, hin⟩
  · exact Or.inr (hfreed hblock)

/-- The invariant of a run whose calls fit: above the left-over slots the list holds blocks that
were freed into it. -/
structure PercpuInv (m : PercpuMachine) : Prop where
  sound : PercpuSound m
  stale : m.stale ≤ m.data.pdFreeCount
  written : ∀ i, m.stale ≤ i → i < m.data.pdFreeCount → m.data.pdFreeList i ∈ m.freed

/-- **The step**: a call that fits keeps the invariant. -/
theorem percpuInv_step (h : PercpuInv m) {c : PercpuCall} (hv : PercpuValid m c)
    (hfits : PercpuFits m c) : PercpuInv (percpuStep m c) := by
  obtain ⟨⟨hknown, hdistinct, hcount⟩, hstale, hwritten⟩ := h
  cases c with
  | alloc blk =>
    rcases percpuStep_alloc hv with ⟨hpos, hstep⟩ | ⟨-, hfresh, hstep⟩
    · rw [hstep]
      obtain ⟨hout, hleft⟩ := hfits hpos
      have htop : m.Known m.data.top := by
        rcases Nat.eq_or_lt_of_le hstale with heq | hlt
        · exact hleft heq
        · exact Or.inr (hwritten _ (by omega) (by omega))
      refine ⟨⟨fun block hblock => ?_, List.nodup_cons.mpr ⟨hout, hdistinct⟩, ?_⟩,
        Nat.min_le_right _ _, fun i hlow hi => ?_⟩
      · rcases List.mem_cons.mp hblock with rfl | hblock
        · exact htop
        · exact hknown block hblock
      · exact (Nat.sub_le _ _).trans hcount
      · obtain ⟨hlow, hi⟩ := above_stale hlow hi
        exact hwritten i hlow hi
    · rw [hstep]
      refine ⟨⟨fun block hblock => ?_, List.nodup_cons.mpr ⟨hfresh, hdistinct⟩, Nat.le_succ 63⟩,
        Nat.le_refl _, fun i hlow hi => absurd hi (Nat.not_lt.mpr hlow)⟩
      rcases List.mem_cons.mp hblock with rfl | hblock
      · exact Or.inl ⟨block, List.mem_cons_self, Nat.le_refl _, by omega⟩
      · exact (hknown block hblock).mono (List.subset_cons_self _ _) (List.Subset.refl _)
  | free block =>
    rcases percpuStep_free m block with ⟨hroom, hstep⟩ | ⟨-, hstep⟩
    · rw [hstep]
      refine ⟨⟨fun b hb => ?_, hdistinct.filter _, hroom⟩, hstale.trans (Nat.le_succ _),
        fun i hlow hi => ?_⟩
      · exact (hknown b hb).mono (List.Subset.refl _) (List.subset_cons_self _ _)
      · rcases Nat.eq_or_lt_of_le (Nat.lt_succ_iff.mp hi) with rfl | hi
        · exact List.mem_cons.mpr (Or.inl (Function.update_self _ _ _))
        · refine List.mem_cons_of_mem _ ?_
          simp only [Function.update_of_ne hi.ne]
          exact hwritten i hlow hi
    · rw [hstep]
      exact ⟨⟨hknown, hdistinct.filter _, hcount⟩, hstale, hwritten⟩

/-- **A flush** gives back blocks that were freed into the cache, and what was left over in the
slots below. -/
theorem percpuFlush_gives (h : PercpuInv m) {block : Nat} (hblock : block ∈ (percpuFlush m.data).2) :
    block ∈ m.freed ∨ ∃ i < m.stale, m.data.pdFreeList i = block := by
  obtain ⟨i, hi, rfl⟩ := List.mem_map.mp hblock
  have hcount : i < m.data.pdFreeCount := List.mem_range.mp (List.mem_reverse.mp hi)
  rcases Nat.lt_or_ge i m.stale with hstale | hstale
  · exact Or.inr ⟨i, hstale, rfl⟩
  · exact Or.inl (h.written i hstale hcount)

theorem percpuFits_of_sound {c : PercpuCall} (hv : PercpuValid m c)
    (hs : PercpuSound (percpuStep m c)) : PercpuFits m c := by
  cases c with
  | alloc blk =>
    intro hpos
    rcases percpuStep_alloc hv with ⟨-, hstep⟩ | ⟨hzero, -, -⟩
    · rw [hstep] at hs
      exact ⟨(List.nodup_cons.mp hs.distinct).1, fun _ => hs.known _ List.mem_cons_self⟩
    · exact absurd hzero hpos.ne'
  | free block => trivial

/-! ## 4. Careful callers -/

/-- The invariant of a run of careful calls: above the left-over slots the list holds different
blocks, none of them handed out. -/
structure CarefulInv (m : PercpuMachine) : Prop where
  stale : m.stale ≤ m.data.pdFreeCount
  apart : ∀ i, m.stale ≤ i → i < m.data.pdFreeCount → m.data.pdFreeList i ∉ m.out
  distinct : ∀ i j, m.stale ≤ i → i < j → j < m.data.pdFreeCount →
    m.data.pdFreeList i ≠ m.data.pdFreeList j

theorem CarefulInv.fits (h : CarefulInv m) {c : PercpuCall} (hc : PercpuCareful m c) :
    PercpuFits m c := by
  cases c with
  | alloc blk =>
    intro hpos
    rcases hc with hzero | hlt
    · exact absurd hzero hpos.ne'
    · exact ⟨h.apart _ (by omega) (by omega), fun heq => absurd heq hlt.ne⟩
  | free block => trivial

theorem careful_step (h : CarefulInv m) {c : PercpuCall} (hv : PercpuValid m c)
    (hc : PercpuCareful m c) : CarefulInv (percpuStep m c) := by
  obtain ⟨hstale, hapart, hdistinct⟩ := h
  cases c with
  | alloc blk =>
    rcases percpuStep_alloc hv with ⟨hpos, hstep⟩ | ⟨-, -, hstep⟩
    · rw [hstep]
      refine ⟨Nat.min_le_right _ _, fun i hlow hi => ?_, fun i j hlow hij hj => ?_⟩
      · obtain ⟨hlow', hi'⟩ := above_stale hlow hi
        intro hmem
        rcases List.mem_cons.mp hmem with htop | hmem
        · exact hdistinct i _ hlow' hi (Nat.sub_lt hpos Nat.one_pos) htop
        · exact hapart i hlow' hi' hmem
      · obtain ⟨hlow', -⟩ := above_stale hlow (hij.trans hj)
        exact hdistinct i j hlow' hij (Nat.lt_of_lt_of_le hj (Nat.sub_le _ _))
    · rw [hstep]
      exact ⟨Nat.le_refl _, fun i hlow hi => absurd hi (Nat.not_lt.mpr hlow),
        fun i j hlow hij hj => absurd (hij.trans hj) (Nat.not_lt.mpr hlow)⟩
  | free block =>
    have hblock : block ∈ m.out := hc
    have hkept : ∀ b, b ∉ m.out → b ∉ m.out.filter (· ≠ block) :=
      fun b hb hmem => hb (List.mem_filter.mp hmem).1
    rcases percpuStep_free m block with ⟨-, hstep⟩ | ⟨-, hstep⟩
    · rw [hstep]
      refine ⟨hstale.trans (Nat.le_succ _), fun i hlow hi => ?_, fun i j hlow hij hj => ?_⟩
      · rcases Nat.eq_or_lt_of_le (Nat.lt_succ_iff.mp hi) with rfl | hi
        · simp only [Function.update_self]
          exact fun hmem => of_decide_eq_true (List.mem_filter.mp hmem).2 rfl
        · simp only [Function.update_of_ne hi.ne]
          exact hkept _ (hapart i hlow hi)
      · have hi : i < m.data.pdFreeCount := hij.trans_le (Nat.lt_succ_iff.mp hj)
        simp only [Function.update_of_ne hi.ne]
        rcases Nat.eq_or_lt_of_le (Nat.lt_succ_iff.mp hj) with rfl | hj
        · rw [Function.update_self]
          exact fun heq => hapart i hlow hi (heq ▸ hblock)
        · rw [Function.update_of_ne hj.ne]
          exact hdistinct i j hlow hij hj
    · rw [hstep]
      exact ⟨hstale, fun i hlow hi => hkept _ (hapart i hlow hi), hdistinct⟩

/-- **Careful calls fit**, to the end of the run. -/
theorem percpu_careful (calls : List PercpuCall) : ∀ m : PercpuMachine, CarefulInv m →
    Along percpuStep PercpuValid m calls → Along percpuStep PercpuCareful m calls →
    Along percpuStep PercpuFits m calls := by
  induction calls with
  | nil =>
    intro m _ _ _
    trivial
  | cons c calls ih =>
    rintro m h ⟨hv, hvs⟩ ⟨hc, hcs⟩
    exact ⟨h.fits hc, ih _ (careful_step h hv hc) hvs hcs⟩

end Step

/-! ## 5. Whole runs -/

/-- **The per-CPU cache, exactly.**  Where the allocator answers fresh runs, a run of allocations
and frees invents no block and hands none out twice exactly when each block it pops is not handed
out, and is known where the refill has left it over; careful calls meet this.  The counter stays
within the list in any case. -/
theorem percpu_cache_sound_iff (calls : List PercpuCall)
    (hvalid : Along percpuStep PercpuValid percpuStart calls) :
    ((∀ m ∈ states percpuStep percpuStart calls, PercpuSound m) ↔
      Along percpuStep PercpuFits percpuStart calls) ∧
    (Along percpuStep PercpuCareful percpuStart calls →
      ∀ m ∈ states percpuStep percpuStart calls, PercpuSound m) ∧
    ∀ m ∈ states percpuStep percpuStart calls, m.data.pdFreeCount ≤ percpuSlots := by
  have hstart : PercpuInv percpuStart :=
    ⟨⟨fun block hblock => absurd hblock List.not_mem_nil, List.nodup_nil, Nat.zero_le _⟩,
      Nat.le_refl _, fun i _ hi => absurd hi (Nat.not_lt_zero i)⟩
  have hcareful : CarefulInv percpuStart :=
    ⟨Nat.le_refl _, fun i _ hi => absurd hi (Nat.not_lt_zero i),
      fun i j _ _ hj => absurd hj (Nat.not_lt_zero j)⟩
  have hiff : (∀ m ∈ states percpuStep percpuStart calls, PercpuSound m) ↔
      Along percpuStep PercpuFits percpuStart calls :=
    states_good_iff (fun m hm => hm.sound) (fun m c hm hv hfits => percpuInv_step hm hv hfits)
      (fun m c _ hv hs => percpuFits_of_sound hv hs) calls _ hstart hvalid
  refine ⟨hiff, fun hc => hiff.mpr (percpu_careful calls _ hcareful hvalid hc), fun m hm => ?_⟩
  exact @run_inv _ _ percpuStep (fun m => m.data.pdFreeCount ≤ percpuSlots)
    (fun h c => percpu_count_step h c) calls _ _ hstart.sound.count hm

theorem percpu_cache_sound_returned :
    Along percpuStep PercpuValid percpuStart [.alloc 128, .free 128, .alloc 0] ∧
      ∀ m ∈ states percpuStep percpuStart [.alloc 128, .free 128, .alloc 0], PercpuSound m := by
  have hvalid : Along percpuStep PercpuValid percpuStart [.alloc 128, .free 128, .alloc 0] := by
    refine ⟨fun _ => ⟨by decide, fun block _ _ => List.not_mem_nil⟩, trivial, ?_, trivial⟩
    intro hzero
    exact absurd hzero (by decide)
  refine ⟨hvalid, (percpu_cache_sound_iff _ hvalid).2.1 ⟨Or.inl rfl, ?_, Or.inr ?_, trivial⟩⟩
  · exact List.mem_singleton.mpr rfl
  · decide

theorem second_block_invented :
    Along percpuStep PercpuValid percpuStart [.alloc 128, .alloc 0] ∧
      ([.alloc 128, .alloc 0].foldl percpuStep percpuStart).handed = [0, 128] ∧
      ¬ ([.alloc 128, .alloc 0].foldl percpuStep percpuStart).Known 0 := by
  refine ⟨⟨fun _ => ⟨by decide, fun block _ _ => List.not_mem_nil⟩, ?_, trivial⟩, rfl, ?_⟩
  · intro hzero
    exact absurd hzero (by decide)
  · rintro (⟨blk, hblk, hle, -⟩ | hfreed)
    · obtain rfl : blk = 128 := List.mem_singleton.mp hblk
      exact absurd hle (by decide)
    · exact absurd hfreed List.not_mem_nil

end AetherFs
