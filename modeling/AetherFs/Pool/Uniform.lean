/-
# Uniform pools lose no space

The stripe and the parity map on a pool whose `n` data members all keep the same number `D` of
data blocks, `D` a multiple of the stripe.  Inside the data region neither map ever refuses, and
every block of every data member is used.

* Stripe: the map IS the striped layout over `n` lanes (`UniformPool.stripe_map`), so it is a
  bijection from `[8, 8 + n * D)` onto the pairs (data member, block).
* Parity: the map is the layout over `n - 1` lanes, renamed row by row around the lane that holds
  the row's parity (`UniformPool.parity_map`).  A pair whose ordinal is its row's parity ordinal is a
  parity slot; any other pair is the data slot of one logical block.

The members need not be neighbours: an ordinal is turned into a member by `maskNth`, which is
injective on any mask.  No accepted label is assumed; only that no more members are open than
`struct aetherfs_image` has room for.
-/
import AetherFs.Lib.Stripe
import AetherFs.Pool.Map
import Mathlib.Data.Set.Function

namespace AetherFs

open Lib

section Pool

variable {δ : Type} {img : Image δ} {n s D : Nat}

/-! ## 1. The pool and its pairs -/

/-- `n` data members of `D` data blocks each, in stripes of `s`. -/
structure UniformPool (img : Image δ) (n s D : Nat) : Prop where
  opened : img.memberCount ≤ maxDevices
  count : maskCount (poolDataMask img) = n
  stripe : plStripeBlocks img.poolLabel = s
  stripe_pos : 0 < s
  multiple : s ∣ D
  capacity : ∀ m, (poolDataMask img).testBit m = true → poolMemberDataBlocks img m = D
  fits : n * D < 2 ^ 63

/-- The pairs (data member, block of its data region). -/
def poolPairs (img : Image δ) (D : Nat) : Set (Nat × Nat) :=
  {x | (poolDataMask img).testBit x.1 = true ∧ 8 ≤ x.2 ∧ x.2 < 8 + D}

/-- Where a mapping keeps the data. -/
def PoolMapping.dataSlot (p : PoolMapping) : Nat × Nat := (p.memberIndex, p.memberBlock)

/-- Where it keeps the parity of the row. -/
def PoolMapping.paritySlot (p : PoolMapping) : Nat × Nat := (p.parityMemberIndex, p.memberBlock)

theorem UniformPool.mask_lt (h : UniformPool img n s D) : poolDataMask img < 2 ^ 8 :=
  Nat.lt_of_lt_of_le (poolDataMask_lt_open img) (Nat.pow_le_pow_right (by norm_num) h.opened)

theorem UniformPool.member (h : UniformPool img n s D) {k : Nat} (hk : k < n) :
    ∃ m, maskNth (poolDataMask img) k = some m ∧ (poolDataMask img).testBit m = true ∧
      poolMemberDataBlocks img m = D := by
  obtain ⟨m, hm, hmem⟩ := maskNth_isSome h.mask_lt (h.count.symm ▸ hk)
  have hbit := (mem_setBits.mp hmem).2
  exact ⟨m, hm, hbit, h.capacity m hbit⟩

theorem UniformPool.ordinal (h : UniformPool img n s D) {m : Nat}
    (hm : (poolDataMask img).testBit m = true) :
    ∃ k, k < n ∧ maskNth (poolDataMask img) k = some m := by
  have h8 : m < 8 := by
    by_contra hge
    have := Nat.testBit_lt_two_pow (Nat.lt_of_lt_of_le h.mask_lt
      (Nat.pow_le_pow_right (by norm_num) (Nat.not_lt.mp hge)))
    rw [this] at hm
    exact absurd hm (by simp)
  obtain ⟨k, hk⟩ := List.getElem?_of_mem (mem_setBits.mpr ⟨h8, hm⟩)
  refine ⟨k, ?_, by rw [maskNth_eq, hk]⟩
  rw [← h.count, maskCount_eq h.mask_lt]
  exact (List.getElem?_eq_some_iff.mp hk).1

theorem UniformPool.coordinates (h : UniformPool img n s D) {x : Nat × Nat} (hx : x ∈ poolPairs img D) :
    ∃ k c, k < n ∧ c < D ∧ maskNth (poolDataMask img) k = some x.1 ∧ x.2 = 8 + c := by
  obtain ⟨hm, h8, hlt⟩ := hx
  obtain ⟨k, hk, hnth⟩ := h.ordinal hm
  exact ⟨k, x.2 - 8, hk, by omega, hnth, by omega⟩

/-- A logical block of the data region, counted from its start. -/
theorem mem_region {l len : Nat} (hl : l ∈ Set.Ico 8 (8 + len)) : ∃ r, r < len ∧ l = 8 + r := by
  obtain ⟨h8, hlt⟩ := hl
  exact ⟨l - 8, by omega, by omega⟩

/-- Neither the member block nor the end of the member's data region wraps. -/
theorem memberBlock_eq {q w s D : Nat} (h : q * s + w < D) (hD : D < 2 ^ 63) :
    addU64 (addU64 dataStartBlock (mulU64 q s)) w = 8 + (q * s + w) ∧
      addU64 dataStartBlock D = 8 + D := by
  simp only [addU64, mulU64, dataStartBlock]
  omega

/-! ## 2. Stripe -/

/-- **The stripe map is the striped layout.** -/
theorem UniformPool.stripe_map (h : UniformPool img n s D) {r : Nat} (hr : r < n * D) :
    ∃ m, maskNth (poolDataMask img) (Stripe.lane s n r) = some m ∧
      poolMapStripe img (8 + r) = .ok ⟨m, 2 ^ 32 - 1, 8 + Stripe.offset s n r⟩ ∧
      (m, 8 + Stripe.offset s n r) ∈ poolPairs img D := by
  have hfits := h.fits
  have hs := h.stripe_pos
  have hn : 0 < n := Nat.pos_of_ne_zero fun h0 => by simp [h0] at hr
  have hlt := Stripe.offset_lt hs h.multiple hr
  have hD : D ≤ n * D := Nat.le_mul_of_pos_left D hn
  obtain ⟨m, hm, hbit, hcap⟩ := h.member (Stripe.lane_lt (s := s) hn r)
  refine ⟨m, hm, ?_, hbit, Nat.le_add_right _ _, by simp only; omega⟩
  rw [Stripe.lane] at hm
  rw [Stripe.offset] at hlt ⊢
  obtain ⟨hblock, hend⟩ := memberBlock_eq hlt (by omega)
  simp only [poolMapStripe, h.count, h.stripe, subU64_dataStart (Nat.le_add_right 8 r) (by omega),
    Nat.add_sub_cancel_left, hm, hcap, hblock, hend]
  rw [if_neg (by omega), if_neg (by omega)]

/-- **Stripe**: a bijection onto all pairs. -/
theorem UniformPool.stripe_bijOn (h : UniformPool img n s D) :
    Set.BijOn (fun l => (poolMapStripe img l).map PoolMapping.dataSlot) (Set.Ico 8 (8 + n * D))
      (Except.ok '' poolPairs img D) := by
  have hs := h.stripe_pos
  refine ⟨fun l hl => ?_, fun l hl l' hl' heq => ?_, ?_⟩
  · obtain ⟨r, hr, rfl⟩ := mem_region hl
    obtain ⟨m, -, hmap, hmem⟩ := h.stripe_map hr
    refine ⟨_, hmem, ?_⟩
    simp only [hmap]
    rfl
  · obtain ⟨r, hr, rfl⟩ := mem_region hl
    obtain ⟨r', hr', rfl⟩ := mem_region hl'
    obtain ⟨m, hm, hmap, -⟩ := h.stripe_map hr
    obtain ⟨m', hm', hmap', -⟩ := h.stripe_map hr'
    simp only [hmap, hmap'] at heq
    obtain ⟨rfl, hoff⟩ := Prod.mk.inj (Except.ok.inj heq)
    have hlane := maskNth_inj hm hm'
    rw [← Stripe.address_lane_offset (n := n) hs r, hlane, Nat.add_left_cancel hoff,
      Stripe.address_lane_offset hs r']
  · rintro _ ⟨x, hx, rfl⟩
    obtain ⟨k, c, hk, hc, hnth, hblock⟩ := h.coordinates hx
    have hr := Stripe.address_lt hs h.multiple hk hc
    obtain ⟨m, hm, hmap, -⟩ := h.stripe_map hr
    rw [Stripe.lane_address hs hk, hnth] at hm
    obtain rfl := Option.some.inj hm
    refine ⟨8 + Stripe.address s n k c, ⟨by omega, by omega⟩, ?_⟩
    simp only [hmap, Stripe.offset_address hs hk, ← hblock]
    rfl

/-! ## 3. Parity -/

/-- The parity ordinal of the row that place `c` of a lane belongs to. -/
def parityOrdinal (n s c : Nat) : Nat := c / s % n

/-- **The parity map is the layout over `n - 1` lanes, renamed row by row.** -/
theorem UniformPool.parity_map (h : UniformPool img n s D) (h3 : 3 ≤ n) {r : Nat}
    (hr : r < (n - 1) * D) :
    ∃ m pm, maskNth (poolDataMask img) (Stripe.skip
        (parityOrdinal n s (Stripe.offset s (n - 1) r)) (Stripe.lane s (n - 1) r)) = some m ∧
      maskNth (poolDataMask img) (parityOrdinal n s (Stripe.offset s (n - 1) r)) = some pm ∧
      poolMapParity img (8 + r) = .ok ⟨m, pm, 8 + Stripe.offset s (n - 1) r⟩ ∧
      (m, 8 + Stripe.offset s (n - 1) r) ∈ poolPairs img D ∧
      (pm, 8 + Stripe.offset s (n - 1) r) ∈ poolPairs img D := by
  have hfits := h.fits
  have hs := h.stripe_pos
  have hlt := Stripe.offset_lt hs h.multiple hr
  have hD : D ≤ n * D := Nat.le_mul_of_pos_left D (by omega)
  have hregion : (n - 1) * D ≤ n * D := Nat.mul_le_mul_right D (by omega)
  obtain ⟨m, hm, hbit, hcap⟩ := h.member (Stripe.skip_lt (p := parityOrdinal n s
    (Stripe.offset s (n - 1) r)) (Stripe.lane_lt (s := s) (show 0 < n - 1 by omega) r))
  obtain ⟨pm, hpm, hpbit, hpcap⟩ := h.member (k := parityOrdinal n s
    (Stripe.offset s (n - 1) r)) (Nat.mod_lt _ (by omega))
  refine ⟨m, pm, hm, hpm, ?_, ⟨hbit, Nat.le_add_right _ _, by simp only; omega⟩,
    hpbit, Nat.le_add_right _ _, by simp only; omega⟩
  -- the source takes the row first and the stripe second; the layout counts stripes throughout
  have hrow : r / ((n - 1) * s) = r / s / (n - 1) := by
    rw [Nat.mul_comm, Nat.div_div_eq_div_mul]
  have hordinal : r % ((n - 1) * s) / s = r / s % (n - 1) := Nat.mod_mul_left_div_self r s (n - 1)
  have hwithin : r % ((n - 1) * s) % s = r % s := Nat.mod_mul_left_mod r (n - 1) s
  have hwidth : mulU64 (n - 1) s = (n - 1) * s := by
    have := parity_width img
    rwa [h.count, h.stripe] at this
  rw [parityOrdinal, Stripe.offset_div hs] at hm hpm
  rw [Stripe.lane, Stripe.skip] at hm
  rw [Stripe.offset] at hlt ⊢
  obtain ⟨hblock, hend⟩ := memberBlock_eq hlt (by omega)
  simp only [poolMapParity, h.count, h.stripe, hwidth,
    subU64_dataStart (Nat.le_add_right 8 r) (by omega), Nat.add_sub_cancel_left, hrow, hordinal,
    hwithin, ge_iff_le, hm, hpm, hcap, hpcap, hblock, hend]
  rw [if_neg (by omega), if_neg (by omega)]

/-- The pair is where the data of logical block `l` is kept. -/
def IsDataSlot (img : Image δ) (l : Nat) (x : Nat × Nat) : Prop :=
  (poolMapParity img l).map PoolMapping.dataSlot = .ok x

/-- The pair is where the parity of its row is kept. -/
def IsParitySlot (img : Image δ) (l : Nat) (x : Nat × Nat) : Prop :=
  (poolMapParity img l).map PoolMapping.paritySlot = .ok x

section Slots

variable {r k c : Nat} {x : Nat × Nat}

/-- A slot is the pair with ordinal `k` and place `c` exactly when it has that place and, at it, that
ordinal; `ordinal` says which ordinal the layout gives it there. -/
theorem slot_eq_iff {ordinal : Nat → Nat} {offset m : Nat}
    (hm : maskNth (poolDataMask img) (ordinal offset) = some m)
    (hk : maskNth (poolDataMask img) k = some x.1) (hc : x.2 = 8 + c) :
    (Except.ok (m, 8 + offset) : Except Fail (Nat × Nat)) = .ok x ↔ offset = c ∧ ordinal c = k := by
  constructor
  · intro heq
    obtain rfl := Except.ok.inj heq
    have hoff : offset = c := Nat.add_left_cancel hc
    rw [hoff] at hm
    exact ⟨hoff, maskNth_inj hm hk⟩
  · rintro ⟨rfl, hordinal⟩
    rw [hordinal, hk] at hm
    rw [← Option.some.inj hm]
    exact congrArg Except.ok (Prod.ext rfl hc.symm)

/-- Which logical blocks have their data in the pair with ordinal `k` and place `c`. -/
theorem UniformPool.isDataSlot_iff (h : UniformPool img n s D) (h3 : 3 ≤ n) (hr : r < (n - 1) * D)
    (hk : maskNth (poolDataMask img) k = some x.1) (hc : x.2 = 8 + c) :
    IsDataSlot img (8 + r) x ↔ Stripe.offset s (n - 1) r = c ∧
      Stripe.skip (parityOrdinal n s c) (Stripe.lane s (n - 1) r) = k := by
  obtain ⟨m, pm, hm, -, hmap, -, -⟩ := h.parity_map h3 hr
  rw [IsDataSlot, hmap]
  let ordinal (o : Nat) := Stripe.skip (parityOrdinal n s o) (Stripe.lane s (n - 1) r)
  exact @slot_eq_iff _ _ k c x ordinal _ _ hm hk hc

/-- And which have their parity there. -/
theorem UniformPool.isParitySlot_iff (h : UniformPool img n s D) (h3 : 3 ≤ n) (hr : r < (n - 1) * D)
    (hk : maskNth (poolDataMask img) k = some x.1) (hc : x.2 = 8 + c) :
    IsParitySlot img (8 + r) x ↔ Stripe.offset s (n - 1) r = c ∧ parityOrdinal n s c = k := by
  obtain ⟨m, pm, -, hpm, hmap, -, -⟩ := h.parity_map h3 hr
  rw [IsParitySlot, hmap]
  exact @slot_eq_iff _ _ k c x (parityOrdinal n s) _ _ hpm hk hc

end Slots

/-- **Parity**: every pair is a data slot of one logical block, or a parity slot, never both. -/
theorem UniformPool.parity_cover (h : UniformPool img n s D) (h3 : 3 ≤ n) {x : Nat × Nat}
    (hx : x ∈ poolPairs img D) :
    ((∃! l, l ∈ Set.Ico 8 (8 + (n - 1) * D) ∧ IsDataSlot img l x) ∧
        ¬ ∃ l ∈ Set.Ico 8 (8 + (n - 1) * D), IsParitySlot img l x) ∨
      ((¬ ∃ l ∈ Set.Ico 8 (8 + (n - 1) * D), IsDataSlot img l x) ∧
        ∃ l ∈ Set.Ico 8 (8 + (n - 1) * D), IsParitySlot img l x) := by
  have hs := h.stripe_pos
  obtain ⟨k, c, hk, hc, hnth, hblock⟩ := h.coordinates hx
  have hp : parityOrdinal n s c < n := Nat.mod_lt _ (by omega)
  -- the address of place `c` in lane `j` of the layout
  have hplace : ∀ {j}, j < n - 1 → 8 + Stripe.address s (n - 1) j c ∈
      Set.Ico 8 (8 + (n - 1) * D) ∧ Stripe.address s (n - 1) j c < (n - 1) * D := fun hj =>
    have hlt := Stripe.address_lt hs h.multiple hj hc
    ⟨⟨Nat.le_add_right _ _, Nat.add_lt_add_left hlt 8⟩, hlt⟩
  by_cases hkp : k = parityOrdinal n s c
  · refine Or.inr ⟨?_, ?_⟩
    · rintro ⟨l, hl, hdata⟩
      obtain ⟨r, hr, rfl⟩ := mem_region hl
      obtain ⟨-, hskip⟩ := (h.isDataSlot_iff h3 hr hnth hblock).mp hdata
      exact Stripe.skip_ne _ _ (hskip.trans hkp)
    · obtain ⟨hmem, hlt⟩ := hplace (show 0 < n - 1 by omega)
      exact ⟨_, hmem, (h.isParitySlot_iff h3 hlt hnth hblock).mpr
        ⟨Stripe.offset_address hs (by omega) c, hkp.symm⟩⟩
  · have hj := Stripe.unskip_lt hp hk hkp
    obtain ⟨hmem, hlt⟩ := hplace hj
    refine Or.inl ⟨⟨_, ⟨hmem, (h.isDataSlot_iff h3 hlt hnth hblock).mpr
      ⟨Stripe.offset_address hs hj c, ?_⟩⟩, ?_⟩, ?_⟩
    · rw [Stripe.lane_address hs hj, Stripe.skip_unskip hkp]
    · rintro l ⟨hl, hdata⟩
      obtain ⟨r, hr, rfl⟩ := mem_region hl
      obtain ⟨hoff, hskip⟩ := (h.isDataSlot_iff h3 hr hnth hblock).mp hdata
      rw [← hskip, Stripe.unskip_skip, ← hoff, Stripe.address_lane_offset hs]
    · rintro ⟨l, hl, hpar⟩
      obtain ⟨r, hr, rfl⟩ := mem_region hl
      exact hkp ((h.isParitySlot_iff h3 hr hnth hblock).mp hpar).2.symm

/-- **No lost space.**  Both layouts, on every uniform pool. -/
theorem uniform_pool_loses_no_space (h : UniformPool img n s D) :
    Set.BijOn (fun l => (poolMapStripe img l).map PoolMapping.dataSlot) (Set.Ico 8 (8 + n * D))
        (Except.ok '' poolPairs img D) ∧
      (3 ≤ n →
        (∀ l ∈ Set.Ico 8 (8 + (n - 1) * D), ∃ p, poolMapParity img l = .ok p ∧
          p.dataSlot ∈ poolPairs img D ∧ p.paritySlot ∈ poolPairs img D) ∧
        ∀ x ∈ poolPairs img D,
          ((∃! l, l ∈ Set.Ico 8 (8 + (n - 1) * D) ∧ IsDataSlot img l x) ∧
              ¬ ∃ l ∈ Set.Ico 8 (8 + (n - 1) * D), IsParitySlot img l x) ∨
            ((¬ ∃ l ∈ Set.Ico 8 (8 + (n - 1) * D), IsDataSlot img l x) ∧
              ∃ l ∈ Set.Ico 8 (8 + (n - 1) * D), IsParitySlot img l x)) := by
  refine ⟨h.stripe_bijOn, fun h3 => ⟨fun l hl => ?_, fun x hx => h.parity_cover h3 hx⟩⟩
  obtain ⟨r, hr, rfl⟩ := mem_region hl
  obtain ⟨m, pm, -, -, hmap, hdata, hparity⟩ := h.parity_map h3 hr
  exact ⟨_, hmap, hdata, hparity⟩

end Pool

/-- Three members of twenty-four blocks in stripes of two. -/
theorem threeMembers_uniform (profile logical : Nat) (hp : profile < 2 ^ 32)
    (hl : logical < 2 ^ 64) : UniformPool (uniformPool profile 3 7 7 7 logical 24 fun _ => ()) 3 2 16 := by
  obtain ⟨-, -, -, -, -, hstripe, -⟩ := uniformLabel_fields profile 3 7 7 7 logical 24 hp
    (by norm_num) (by norm_num) (by norm_num) (by norm_num) hl
  obtain ⟨-, hmask, -⟩ := uniformPool_masks profile 3 7 7 7 logical 24 (fun _ => ()) (by norm_num)
    (by norm_num) hp (by norm_num) (by norm_num) (by norm_num) (by norm_num) (by norm_num)
    (by norm_num) hl
  refine ⟨(by decide : 3 ≤ maxDevices), by rw [hmask]; decide, hstripe, by norm_num, by norm_num, fun m hm => ?_,
    by norm_num⟩
  rw [hmask] at hm
  have h3 : m < 3 := by
    by_contra hge
    rw [Nat.testBit_lt_two_pow (Nat.lt_of_lt_of_le (show 7 < 2 ^ 3 by norm_num)
      (Nat.pow_le_pow_right (by norm_num) (Nat.not_lt.mp hge)))] at hm
    exact absurd hm (by simp)
  exact uniformPool_capacity profile 3 7 7 7 logical 24 _ (by norm_num) (by norm_num) h3

theorem threeMembers_lose_no_space :
    Set.BijOn (fun l => (poolMapStripe (uniformPool 2 3 7 7 7 56 24 fun _ => ()) l).map
        PoolMapping.dataSlot) (Set.Ico 8 56)
        (Except.ok '' poolPairs (uniformPool 2 3 7 7 7 56 24 fun _ => ()) 16) ∧
      ∃ p, poolMapParity (uniformPool 3 3 7 7 7 40 24 fun _ => ()) 8 = .ok p := by
  have hparity := (uniform_pool_loses_no_space (threeMembers_uniform 3 40 (by norm_num)
    (by norm_num))).2 (by norm_num)
  obtain ⟨p, hp, -⟩ := hparity.1 8 ⟨by norm_num, by norm_num⟩
  exact ⟨(uniform_pool_loses_no_space (threeMembers_uniform 2 56 (by norm_num)
    (by norm_num))).1, p, hp⟩

end AetherFs
