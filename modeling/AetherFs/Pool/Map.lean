/-
# Where a logical block lives

The five layouts of `image.c`: `aetherfs_pool_map_linear` (single and tiered pools), `_mirror`,
`_stripe` and `_parity`, dispatched by `aetherfs_pool_map_data_block`.

Each map gets one specification lemma (`poolMapLinear_spec` and its siblings) that says, for an
accepted label, which ordinal and which member block a logical block is sent to, in plain
natural arithmetic: none of the 64-bit sums can wrap, because the member block never exceeds
the logical block or the label's own block count.  The results need nothing else.

* `poolMapDataBlock_inj`: two logical blocks never share a data slot.  Stripe and parity are
  mixed-radix numbers read in a different digit order; the member is recovered from the ordinal
  because `maskNth` is injective, and the digits from the quotient and remainder.
* `poolMapParity_data_ne_parity`: a row's parity member is skipped by every data ordinal of
  that row, and the member block determines the row, so no data slot is a parity slot.
* The last section asks whether a slot is inside the members it will be written to.  Linear,
  stripe and parity compare with the capacity before they answer.  The mirror does not: it hands
  the logical number on, so its slots are in range exactly where the number is.
-/
import AetherFs.Pool.Label

namespace AetherFs

open Lib

/-- `struct aetherfs_pool_mapping`.  Outside the parity layout the parity member is
`UINT32_MAX`. -/
structure PoolMapping where
  memberIndex : Nat
  parityMemberIndex : Nat
  memberBlock : Nat
deriving DecidableEq, Repr

section Map

variable {δ : Type}

/-! ## 1. The maps -/

/-- The member loop of `aetherfs_pool_map_linear`. -/
def linearScan (img : Image δ) : List Nat → Nat → Except Fail PoolMapping
  | [], _ => .error (.check .ERANGE)
  | memberIndex :: rest, remaining =>
    let blocks := poolMemberDataBlocks img memberIndex
    if remaining < blocks then
      .ok ⟨memberIndex, 2 ^ 32 - 1, addU64 dataStartBlock remaining⟩
    else linearScan img rest (remaining - blocks)

/-- `aetherfs_pool_map_linear`. -/
def poolMapLinear (img : Image δ) (logicalBlock : Nat) : Except Fail PoolMapping :=
  linearScan img (maskMembers (poolDataMask img)) (subU64 logicalBlock dataStartBlock)

/-- `aetherfs_pool_map_mirror`: the one map without a range check. -/
def poolMapMirror (img : Image δ) (logicalBlock : Nat) : Except Fail PoolMapping :=
  match maskFirst (poolDataMask img) with
  | none => .error (.check .EINVAL)
  | some memberIndex => .ok ⟨memberIndex, 2 ^ 32 - 1, logicalBlock⟩

/-- `aetherfs_pool_map_stripe`. -/
def poolMapStripe (img : Image δ) (logicalBlock : Nat) : Except Fail PoolMapping :=
  let mask := poolDataMask img
  let dataMembers := maskCount mask
  let stripeBlocks := plStripeBlocks img.poolLabel
  let relative := subU64 logicalBlock dataStartBlock
  if dataMembers = 0 ∨ stripeBlocks = 0 then .error (.check .EINVAL)
  else
    let stripeNumber := relative / stripeBlocks
    let memberOrdinal := stripeNumber % dataMembers
    let memberStripe := stripeNumber / dataMembers
    let withinStripe := relative % stripeBlocks
    match maskNth mask memberOrdinal with
    | none => .error (.check .EINVAL)
    | some memberIndex =>
      let memberBlock :=
        addU64 (addU64 dataStartBlock (mulU64 memberStripe stripeBlocks)) withinStripe
      if memberBlock ≥ addU64 dataStartBlock (poolMemberDataBlocks img memberIndex) then
        .error (.check .ERANGE)
      else .ok ⟨memberIndex, 2 ^ 32 - 1, memberBlock⟩

/-- `aetherfs_pool_map_parity`. -/
def poolMapParity (img : Image δ) (logicalBlock : Nat) : Except Fail PoolMapping :=
  let mask := poolDataMask img
  let dataMembers := maskCount mask
  let stripeBlocks := plStripeBlocks img.poolLabel
  let relative := subU64 logicalBlock dataStartBlock
  if dataMembers < 3 ∨ stripeBlocks = 0 then .error (.check .EINVAL)
  else
    let row := relative / mulU64 (dataMembers - 1) stripeBlocks
    let position := relative % mulU64 (dataMembers - 1) stripeBlocks
    let parityOrdinal := row % dataMembers
    let dataOrdinal := position / stripeBlocks
    let actualOrdinal := if dataOrdinal ≥ parityOrdinal then dataOrdinal + 1 else dataOrdinal
    let withinStripe := position % stripeBlocks
    match maskNth mask actualOrdinal, maskNth mask parityOrdinal with
    | some memberIndex, some parityMemberIndex =>
      let memberBlock := addU64 (addU64 dataStartBlock (mulU64 row stripeBlocks)) withinStripe
      if memberBlock ≥ addU64 dataStartBlock (poolMemberDataBlocks img memberIndex) ∨
          memberBlock ≥ addU64 dataStartBlock (poolMemberDataBlocks img parityMemberIndex) then
        .error (.check .ERANGE)
      else .ok ⟨memberIndex, parityMemberIndex, memberBlock⟩
    | _, _ => .error (.check .EINVAL)

/-- `aetherfs_pool_map_data_block`. -/
def poolMapDataBlock (img : Image δ) (logicalBlock : Nat) : Except Fail PoolMapping :=
  if poolProfile img = poolProfileSingle ∨ poolProfile img = poolProfileTiered then
    poolMapLinear img logicalBlock
  else if poolProfile img = poolProfileMirror then poolMapMirror img logicalBlock
  else if poolProfile img = poolProfileStripe then poolMapStripe img logicalBlock
  else if poolProfile img = poolProfileParity then poolMapParity img logicalBlock
  else .error (.check .EINVAL)

theorem poolMapDataBlock_mirror {img : Image δ} (h : poolProfile img = 1) (l : Nat) :
    poolMapDataBlock img l = poolMapMirror img l := by
  simp [poolMapDataBlock, h]

theorem poolMapDataBlock_parity {img : Image δ} (h : poolProfile img = 3) (l : Nat) :
    poolMapDataBlock img l = poolMapParity img l := by
  simp [poolMapDataBlock, h]

/-- No address depends on anything but the label, the member count and the members' block
counts. -/
theorem poolMapDataBlock_congr (img img' : Image δ) (hl : img'.poolLabel = img.poolLabel)
    (hc : img'.memberCount = img.memberCount)
    (hb : ∀ i, (img'.members i).blocks = (img.members i).blocks) (l : Nat) :
    poolMapDataBlock img' l = poolMapDataBlock img l := by
  have hcap : poolMemberDataBlocks img' = poolMemberDataBlocks img := by
    funext i
    unfold poolMemberDataBlocks poolMemberTotalBlocks
    rw [hl, hb]
  have hmask : poolDataMask img' = poolDataMask img := by
    unfold poolDataMask poolMemberLimitMask
    rw [hl, hc]
  have hscan : ∀ (ms : List Nat) (r : Nat), linearScan img' ms r = linearScan img ms r :=
    fun ms => by
      induction ms with
      | nil => exact fun _ => rfl
      | cons m ms ih =>
        intro r
        rw [linearScan, linearScan, hcap]
        simp only [ih]
  have hlinear : poolMapLinear img' l = poolMapLinear img l := by
    rw [poolMapLinear, poolMapLinear, hmask, hscan]
  have hmirror : poolMapMirror img' l = poolMapMirror img l := by
    rw [poolMapMirror, poolMapMirror, hmask]
  have hstripe : poolMapStripe img' l = poolMapStripe img l := by
    rw [poolMapStripe, poolMapStripe, hmask, hl, hcap]
  have hparity : poolMapParity img' l = poolMapParity img l := by
    rw [poolMapParity, poolMapParity, hmask, hl, hcap]
  unfold poolMapDataBlock poolProfile
  rw [hl, hlinear, hmirror, hstripe, hparity]

/-! ## 2. Arithmetic -/

theorem subU64_dataStart {l : Nat} (h8 : 8 ≤ l) (h : l < 2 ^ 64) :
    subU64 l dataStartBlock = l - 8 := by
  simp only [subU64, dataStartBlock]
  omega

theorem eq_of_div_mod {a a' s : Nat} (hd : a / s = a' / s) (hm : a % s = a' % s) : a = a' := by
  rw [← Nat.div_add_mod a s, ← Nat.div_add_mod a' s, hd, hm]

theorem digits_inj {s q q' r r' : Nat} (hr : r < s) (hr' : r' < s)
    (h : q * s + r = q' * s + r') : q = q' ∧ r = r' := by
  have hs : 0 < s := by omega
  obtain ⟨h1, h2⟩ := (Nat.div_mod_unique hs).mpr ⟨Nat.add_comm r (s * q), hr⟩
  obtain ⟨h3, h4⟩ := (Nat.div_mod_unique hs).mpr ⟨Nat.add_comm r' (s * q'), hr'⟩
  have heq : s * q + r = s * q' + r' := by rw [Nat.mul_comm s q, Nat.mul_comm s q', h]
  rw [heq] at h1 h2
  exact ⟨h1.symm.trans h3, h2.symm.trans h4⟩

theorem stripe_le (rel s n : Nat) : rel / s / n * s + rel % s ≤ rel := by
  have h1 : rel / s / n * s ≤ rel / s * s := Nat.mul_le_mul_right s (Nat.div_le_self _ _)
  have h2 := Nat.div_add_mod rel s
  rw [Nat.mul_comm] at h2
  omega

theorem parity_le {rel s n : Nat} (hn : 3 ≤ n) :
    rel / ((n - 1) * s) * s + rel % ((n - 1) * s) % s ≤ rel := by
  have h1 : rel / ((n - 1) * s) * s ≤ rel / ((n - 1) * s) * ((n - 1) * s) :=
    Nat.mul_le_mul_left _ (Nat.le_mul_of_pos_left s (by omega))
  have h2 := Nat.div_add_mod rel ((n - 1) * s)
  have h3 := Nat.mod_le (rel % ((n - 1) * s)) s
  rw [Nat.mul_comm] at h2
  omega

/-! ## 3. What each map does, for an accepted label -/

variable {img : Image δ}

theorem poolMemberDataBlocks_lt (h : LabelOk img.poolLabel) {m : Nat}
    (hm : m ∈ setBits 8 (poolDataMask img)) : poolMemberDataBlocks img m + 8 < 2 ^ 64 := by
  have hle := poolMemberDataBlocks_le h (mem_setBits_lt (poolDataMask_lt h) hm)
  exact Nat.lt_of_le_of_lt hle (le64_lt _ _)

/-- **Linear.**  The scan ends at a data member with room for what remains. -/
theorem linearScan_spec (h : LabelOk img.poolLabel) {p : PoolMapping} (ms : List Nat) :
    ∀ r, (∀ m ∈ ms, m ∈ setBits 8 (poolDataMask img)) → linearScan img ms r = .ok p →
      p.memberIndex ∈ ms ∧ 8 ≤ p.memberBlock ∧
        p.memberBlock < 8 + poolMemberDataBlocks img p.memberIndex := by
  induction ms with
  | nil => intro r _ hs; exact absurd hs (by simp [linearScan])
  | cons m ms ih =>
    intro r hms hs
    have hcap := poolMemberDataBlocks_lt h (hms m List.mem_cons_self)
    simp only [linearScan] at hs
    split at hs
    · obtain rfl := Except.ok.inj hs
      simp only [addU64, dataStartBlock]
      rw [Nat.mod_eq_of_lt (by omega)]
      exact ⟨List.mem_cons_self, by omega, by omega⟩
    · obtain ⟨h1, h2⟩ := ih _ (fun x hx => hms x (List.mem_cons_of_mem _ hx)) hs
      exact ⟨List.mem_cons_of_mem _ h1, h2⟩

/-- Two scans that end in the same slot started with the same remainder. -/
theorem linearScan_inj (h : LabelOk img.poolLabel) {p p' : PoolMapping}
    (hi : p.memberIndex = p'.memberIndex) (hb : p.memberBlock = p'.memberBlock) (ms : List Nat) :
    ∀ r r', ms.Nodup → (∀ m ∈ ms, m ∈ setBits 8 (poolDataMask img)) →
      linearScan img ms r = .ok p → linearScan img ms r' = .ok p' → r = r' := by
  induction ms with
  | nil => intro r r' _ _ hs; exact absurd hs (by simp [linearScan])
  | cons m ms ih =>
    intro r r' hnd hms hs hs'
    obtain ⟨hm, hnd'⟩ := List.nodup_cons.mp hnd
    have hcap := poolMemberDataBlocks_lt h (hms m List.mem_cons_self)
    have hms' : ∀ x ∈ ms, x ∈ setBits 8 (poolDataMask img) :=
      fun x hx => hms x (List.mem_cons_of_mem _ hx)
    simp only [linearScan] at hs hs'
    split at hs
    · obtain rfl := Except.ok.inj hs
      split at hs'
      · -- both stop at the first member
        obtain rfl := Except.ok.inj hs'
        simp only [addU64, dataStartBlock] at hb
        rw [Nat.mod_eq_of_lt (by omega), Nat.mod_eq_of_lt (by omega)] at hb
        omega
      · have := (linearScan_spec h ms _ hms' hs').1
        rw [← hi] at this
        exact absurd this hm
    · split at hs'
      · obtain rfl := Except.ok.inj hs'
        have := (linearScan_spec h ms _ hms' hs).1
        rw [hi] at this
        exact absurd this hm
      · have := ih _ _ hnd' hms' hs hs'
        omega

theorem poolMapLinear_spec (h : LabelOk img.poolLabel) {l : Nat} {p : PoolMapping}
    (hmap : poolMapLinear img l = .ok p) :
    p.memberIndex ∈ setBits 8 (poolDataMask img) ∧ 8 ≤ p.memberBlock ∧
      p.memberBlock < 8 + poolMemberDataBlocks img p.memberIndex := by
  rw [poolMapLinear, maskMembers_eq (h.lt_256 (poolDataMask_lt h))] at hmap
  exact linearScan_spec h _ _ (fun _ hm => hm) hmap

/-- **Mirror.**  The first data member, at the logical block number itself. -/
theorem poolMapMirror_spec {l : Nat} {p : PoolMapping} (hmap : poolMapMirror img l = .ok p) :
    maskFirst (poolDataMask img) = some p.memberIndex ∧ p.memberBlock = l := by
  unfold poolMapMirror at hmap
  split at hmap
  · exact absurd hmap (by simp)
  · rename_i m hm
    obtain rfl := Except.ok.inj hmap
    exact ⟨hm, rfl⟩

/-- **Stripe.**  The digits of the relative block in base `(dataMembers, stripeBlocks)`. -/
theorem poolMapStripe_spec (h : LabelOk img.poolLabel) {l : Nat} {p : PoolMapping} (h8 : 8 ≤ l)
    (hl : l < 2 ^ 64) (hmap : poolMapStripe img l = .ok p) :
    maskNth (poolDataMask img) ((l - 8) / plStripeBlocks img.poolLabel %
        maskCount (poolDataMask img)) = some p.memberIndex ∧
      p.memberBlock = 8 + ((l - 8) / plStripeBlocks img.poolLabel / maskCount (poolDataMask img) *
        plStripeBlocks img.poolLabel + (l - 8) % plStripeBlocks img.poolLabel) ∧
      p.memberBlock < 8 + poolMemberDataBlocks img p.memberIndex := by
  simp only [poolMapStripe, subU64_dataStart h8 hl] at hmap
  have hle := stripe_le (l - 8) (plStripeBlocks img.poolLabel) (maskCount (poolDataMask img))
  split at hmap
  · exact absurd hmap (by simp)
  · split at hmap
    · exact absurd hmap (by simp)
    · rename_i m hm
      split at hmap
      · exact absurd hmap (by simp)
      · rename_i hin
        obtain rfl := Except.ok.inj hmap
        have hcap := poolMemberDataBlocks_lt h (maskNth_mem hm)
        simp only [addU64, mulU64, dataStartBlock] at hin ⊢
        refine ⟨hm, ?_, ?_⟩ <;> omega

/-- The row width fits in 64 bits: at most 31 data members and a 32-bit stripe. -/
theorem parity_width (img : Image δ) :
    mulU64 (maskCount (poolDataMask img) - 1) (plStripeBlocks img.poolLabel)
      = (maskCount (poolDataMask img) - 1) * plStripeBlocks img.poolLabel := by
  have hcount : maskCount (poolDataMask img) ≤ 32 := by
    rw [maskCount]
    exact Nat.le_trans (List.length_filter_le _ _) (by simp)
  have hs32 : plStripeBlocks img.poolLabel < 2 ^ 32 := le32_lt _ _
  refine Nat.mod_eq_of_lt ?_
  calc (maskCount (poolDataMask img) - 1) * plStripeBlocks img.poolLabel
      ≤ 31 * plStripeBlocks img.poolLabel := Nat.mul_le_mul_right _ (by omega)
    _ < 2 ^ 64 := by omega

/-- **Parity.**  The row decides the parity ordinal, the data ordinals skip it, and the member
block is the row's stripe. -/
theorem poolMapParity_spec (h : LabelOk img.poolLabel) {l : Nat} {p : PoolMapping} (h8 : 8 ≤ l)
    (hl : l < 2 ^ 64) (hmap : poolMapParity img l = .ok p) :
    ∃ row pos, 3 ≤ maskCount (poolDataMask img) ∧
      row = (l - 8) / ((maskCount (poolDataMask img) - 1) * plStripeBlocks img.poolLabel) ∧
      pos = (l - 8) % ((maskCount (poolDataMask img) - 1) * plStripeBlocks img.poolLabel) ∧
      maskNth (poolDataMask img)
        (if pos / plStripeBlocks img.poolLabel ≥ row % maskCount (poolDataMask img)
          then pos / plStripeBlocks img.poolLabel + 1 else pos / plStripeBlocks img.poolLabel)
        = some p.memberIndex ∧
      maskNth (poolDataMask img) (row % maskCount (poolDataMask img))
        = some p.parityMemberIndex ∧
      p.memberBlock = 8 + (row * plStripeBlocks img.poolLabel +
        pos % plStripeBlocks img.poolLabel) ∧
      p.memberBlock < 8 + poolMemberDataBlocks img p.memberIndex ∧
      p.memberBlock < 8 + poolMemberDataBlocks img p.parityMemberIndex := by
  simp only [poolMapParity, subU64_dataStart h8 hl, parity_width] at hmap
  split at hmap
  · exact absurd hmap (by simp)
  · rename_i hmin
    have hle := @parity_le (l - 8) (plStripeBlocks img.poolLabel)
      (maskCount (poolDataMask img)) (by omega)
    split at hmap
    · rename_i m pm hm hpm
      split at hmap
      · exact absurd hmap (by simp)
      · rename_i hin
        obtain rfl := Except.ok.inj hmap
        have hcap := poolMemberDataBlocks_lt h (maskNth_mem hm)
        have hcapP := poolMemberDataBlocks_lt h (maskNth_mem hpm)
        simp only [addU64, mulU64, dataStartBlock] at hin ⊢
        refine ⟨_, _, by omega, rfl, rfl, hm, hpm, ?_, ?_, ?_⟩ <;> omega
    · exact absurd hmap (by simp)

/-- A parity slot lies past the bootstrap blocks for every 64-bit number, wrapped ones
included: half the range at most is left for the row. -/
theorem poolMapParity_ge {l : Nat} {p : PoolMapping} (hmap : poolMapParity img l = .ok p) :
    8 ≤ p.memberBlock := by
  have hs32 : plStripeBlocks img.poolLabel < 2 ^ 32 := le32_lt _ _
  simp only [poolMapParity, parity_width] at hmap
  split at hmap
  · exact absurd hmap (by simp)
  · rename_i hmin
    have hrel : subU64 l dataStartBlock < 2 ^ 64 := Nat.mod_lt _ (by norm_num)
    generalize subU64 l dataStartBlock = rel at hmap hrel
    have hrow : rel / ((maskCount (poolDataMask img) - 1) * plStripeBlocks img.poolLabel) *
        plStripeBlocks img.poolLabel * 2 ≤ rel := by
      calc rel / ((maskCount (poolDataMask img) - 1) * plStripeBlocks img.poolLabel) *
            plStripeBlocks img.poolLabel * 2
          = rel / ((maskCount (poolDataMask img) - 1) * plStripeBlocks img.poolLabel) *
            (2 * plStripeBlocks img.poolLabel) := by rw [Nat.mul_assoc, Nat.mul_comm 2]
        _ ≤ rel / ((maskCount (poolDataMask img) - 1) * plStripeBlocks img.poolLabel) *
            ((maskCount (poolDataMask img) - 1) * plStripeBlocks img.poolLabel) :=
          Nat.mul_le_mul_left _ (Nat.mul_le_mul_right _ (by omega))
        _ ≤ rel := Nat.div_mul_le_self _ _
    have hwithin := Nat.mod_lt
      (rel % ((maskCount (poolDataMask img) - 1) * plStripeBlocks img.poolLabel))
      (show 0 < plStripeBlocks img.poolLabel by omega)
    split at hmap
    · split at hmap
      · exact absurd hmap (by simp)
      · obtain rfl := Except.ok.inj hmap
        simp only [addU64, mulU64, dataStartBlock]
        omega
    · exact absurd hmap (by simp)

/-! ## 4. Every map lands past the bootstrap blocks, on a data member -/

/-- **A data block is never a bootstrap block, and it is on a data member.** -/
theorem poolMapDataBlock_slot (h : LabelOk img.poolLabel) {l : Nat} {p : PoolMapping}
    (h8 : 8 ≤ l) (hl : l < 2 ^ 64) (hmap : poolMapDataBlock img l = .ok p) :
    p.memberIndex ∈ setBits 8 (poolDataMask img) ∧ 8 ≤ p.memberBlock := by
  unfold poolMapDataBlock at hmap
  split at hmap
  · exact ⟨(poolMapLinear_spec h hmap).1, (poolMapLinear_spec h hmap).2.1⟩
  · split at hmap
    · obtain ⟨hm, hb⟩ := poolMapMirror_spec hmap
      rw [maskFirst_eq] at hm
      exact ⟨List.mem_of_getElem? hm, by omega⟩
    · split at hmap
      · obtain ⟨hm, hb, -⟩ := poolMapStripe_spec h h8 hl hmap
        exact ⟨maskNth_mem hm, by omega⟩
      · split at hmap
        · obtain ⟨_, _, -, -, -, hm, -, hb, -⟩ := poolMapParity_spec h h8 hl hmap
          exact ⟨maskNth_mem hm, by omega⟩
        · exact absurd hmap (by simp)

/-! ## 5. No two logical blocks share a slot -/

theorem poolMapLinear_inj (h : LabelOk img.poolLabel) {l l' : Nat} {p p' : PoolMapping}
    (h8 : 8 ≤ l) (hl : l < 2 ^ 64) (h8' : 8 ≤ l') (hl' : l' < 2 ^ 64)
    (hmap : poolMapLinear img l = .ok p) (hmap' : poolMapLinear img l' = .ok p')
    (hi : p.memberIndex = p'.memberIndex) (hb : p.memberBlock = p'.memberBlock) : l = l' := by
  rw [poolMapLinear, maskMembers_eq (h.lt_256 (poolDataMask_lt h)), subU64_dataStart h8 hl] at hmap
  rw [poolMapLinear, maskMembers_eq (h.lt_256 (poolDataMask_lt h)),
    subU64_dataStart h8' hl'] at hmap'
  have := linearScan_inj h hi hb _ _ _ (setBits_nodup 8 _) (fun _ hm => hm) hmap hmap'
  omega

theorem poolMapStripe_inj (h : LabelOk img.poolLabel) {l l' : Nat} {p p' : PoolMapping}
    (h8 : 8 ≤ l) (hl : l < 2 ^ 64) (h8' : 8 ≤ l') (hl' : l' < 2 ^ 64)
    (hmap : poolMapStripe img l = .ok p) (hmap' : poolMapStripe img l' = .ok p')
    (hi : p.memberIndex = p'.memberIndex) (hb : p.memberBlock = p'.memberBlock) : l = l' := by
  obtain ⟨hm, hblk, -⟩ := poolMapStripe_spec h h8 hl hmap
  obtain ⟨hm', hblk', -⟩ := poolMapStripe_spec h h8' hl' hmap'
  rw [hi] at hm
  have hord := maskNth_inj hm hm'
  have hs := h.stripe_pos
  rw [hb, hblk', Nat.add_right_inj] at hblk
  obtain ⟨hq, hr⟩ := digits_inj (Nat.mod_lt (l' - 8) hs) (Nat.mod_lt (l - 8) hs) hblk
  have hrel := eq_of_div_mod (eq_of_div_mod hq hord.symm) hr
  omega

theorem poolMapParity_inj (h : LabelOk img.poolLabel) {l l' : Nat} {p p' : PoolMapping}
    (h8 : 8 ≤ l) (hl : l < 2 ^ 64) (h8' : 8 ≤ l') (hl' : l' < 2 ^ 64)
    (hmap : poolMapParity img l = .ok p) (hmap' : poolMapParity img l' = .ok p')
    (hi : p.memberIndex = p'.memberIndex) (hb : p.memberBlock = p'.memberBlock) : l = l' := by
  obtain ⟨row, pos, -, hrow, hpos, hm, -, hblk, -⟩ := poolMapParity_spec h h8 hl hmap
  obtain ⟨row', pos', -, hrow', hpos', hm', -, hblk', -⟩ := poolMapParity_spec h h8' hl' hmap'
  have hs := h.stripe_pos
  obtain ⟨rfl, hwithin⟩ := digits_inj (Nat.mod_lt pos hs) (Nat.mod_lt pos' hs)
    (show row * _ + _ = row' * _ + _ by omega)
  rw [hi] at hm
  have hord := maskNth_inj hm hm'
  -- the skip is monotone, so equal actual ordinals come from equal data ordinals
  have hdata : pos / plStripeBlocks img.poolLabel = pos' / plStripeBlocks img.poolLabel := by
    split at hord <;> split at hord <;> omega
  have hposeq := eq_of_div_mod hdata hwithin
  have hrel := eq_of_div_mod (hrow.symm.trans hrow') ((hpos.symm.trans hposeq).trans hpos')
  omega

/-- **Injectivity**, whatever the profile. -/
theorem poolMapDataBlock_inj (h : LabelOk img.poolLabel) {l l' : Nat} {p p' : PoolMapping}
    (h8 : 8 ≤ l) (hl : l < 2 ^ 64) (h8' : 8 ≤ l') (hl' : l' < 2 ^ 64)
    (hmap : poolMapDataBlock img l = .ok p) (hmap' : poolMapDataBlock img l' = .ok p')
    (hi : p.memberIndex = p'.memberIndex) (hb : p.memberBlock = p'.memberBlock) : l = l' := by
  unfold poolMapDataBlock at hmap hmap'
  split at hmap
  · rename_i hp
    rw [if_pos hp] at hmap'
    exact poolMapLinear_inj h h8 hl h8' hl' hmap hmap' hi hb
  · rename_i hp
    rw [if_neg hp] at hmap'
    split at hmap
    · rename_i hp
      rw [if_pos hp] at hmap'
      rw [← (poolMapMirror_spec hmap).2, ← (poolMapMirror_spec hmap').2, hb]
    · rename_i hp
      rw [if_neg hp] at hmap'
      split at hmap
      · rename_i hp
        rw [if_pos hp] at hmap'
        exact poolMapStripe_inj h h8 hl h8' hl' hmap hmap' hi hb
      · rename_i hp
        rw [if_neg hp] at hmap'
        split at hmap
        · rename_i hp
          rw [if_pos hp] at hmap'
          exact poolMapParity_inj h h8 hl h8' hl' hmap hmap' hi hb
        · exact absurd hmap (by simp)

/-- **Parity slots are not data slots**, of any row. -/
theorem poolMapParity_data_ne_parity (h : LabelOk img.poolLabel) {l l' : Nat}
    {p p' : PoolMapping} (h8 : 8 ≤ l) (hl : l < 2 ^ 64) (h8' : 8 ≤ l') (hl' : l' < 2 ^ 64)
    (hmap : poolMapParity img l = .ok p) (hmap' : poolMapParity img l' = .ok p')
    (hb : p.memberBlock = p'.memberBlock) : p.memberIndex ≠ p'.parityMemberIndex := by
  intro hi
  obtain ⟨row, pos, -, -, -, hm, -, hblk, -⟩ := poolMapParity_spec h h8 hl hmap
  obtain ⟨row', pos', -, -, -, -, hpm', hblk', -⟩ := poolMapParity_spec h h8' hl' hmap'
  have hs := h.stripe_pos
  obtain ⟨rfl, -⟩ := digits_inj (Nat.mod_lt pos hs) (Nat.mod_lt pos' hs)
    (show row * _ + _ = row' * _ + _ by omega)
  rw [hi] at hm
  have hord := maskNth_inj hm hpm'
  split at hord <;> omega

end Map

/-- Three members of sixteen blocks with rotating parity. -/
def parityPool {δ : Type} (dev : Nat → δ) : Image δ := uniformPool 3 3 7 7 7 24 16 dev

theorem parityPool_label {δ : Type} (dev : Nat → δ) :
    poolLabelValidate (parityPool dev).poolLabel = .ok () ∧ poolProfile (parityPool dev) = 3 :=
  ⟨uniformLabel_validate 3 3 7 7 7 24 16 (by norm_num) (by norm_num) (by norm_num) (by norm_num)
      (by norm_num) (by norm_num) (by norm_num) (by norm_num) (by norm_num) (by norm_num),
    (uniformLabel_fields 3 3 7 7 7 24 16 (by norm_num) (by norm_num) (by norm_num) (by norm_num)
      (by norm_num) (by norm_num)).2.2.1⟩

/-- Blocks 8 and 12 lie in different rows, and the second row's parity is on the member that
holds the first row's data. -/
theorem parityPool_map {δ : Type} (dev : Nat → δ) :
    poolMapDataBlock (parityPool dev) 8 = .ok ⟨1, 0, 8⟩ ∧
      poolMapDataBlock (parityPool dev) 12 = .ok ⟨0, 1, 10⟩ := by
  have hstripe : plStripeBlocks (parityPool dev).poolLabel = 2 :=
    (uniformLabel_fields 3 3 7 7 7 24 16 (by norm_num) (by norm_num) (by norm_num) (by norm_num)
      (by norm_num) (by norm_num)).2.2.2.2.2.1
  have hmask : poolDataMask (parityPool dev) = 7 := (uniformPool_masks 3 3 7 7 7 24 16 dev
    (by norm_num) (by norm_num) (by norm_num) (by norm_num) (by norm_num) (by norm_num)
    (by norm_num) (by norm_num) (by norm_num) (by norm_num)).2.1
  have hcap : ∀ i, i < 3 → poolMemberDataBlocks (parityPool dev) i = 8 := fun i hi =>
    uniformPool_capacity 3 3 7 7 7 24 16 dev (by norm_num) (by norm_num) hi
  have hcount : maskCount 7 = 3 := by decide
  have hnth : maskNth 7 0 = some 0 ∧ maskNth 7 1 = some 1 := by decide
  rw [poolMapDataBlock_parity (parityPool_label dev).2, poolMapDataBlock_parity
    (parityPool_label dev).2]
  constructor <;>
    simp [poolMapParity, hstripe, hmask, hcap, addU64, subU64, mulU64, dataStartBlock, hcount,
      hnth.1, hnth.2]

section Distinct

variable {δ : Type} {img : Image δ}

/-- **Slots are never shared.**  Under an accepted label two different data blocks never get the
same slot; and under the parity profile no data slot is the parity slot of any row. -/
theorem poolMapDataBlock_slots_distinct (hlabel : poolLabelValidate img.poolLabel = .ok ())
    {l l' : Nat} {p p' : PoolMapping} (h8 : 8 ≤ l) (hl : l < 2 ^ 64) (h8' : 8 ≤ l')
    (hl' : l' < 2 ^ 64) (hmap : poolMapDataBlock img l = .ok p)
    (hmap' : poolMapDataBlock img l' = .ok p') :
    (l ≠ l' → (p.memberIndex, p.memberBlock) ≠ (p'.memberIndex, p'.memberBlock)) ∧
      (poolProfile img = poolProfileParity →
        (p.memberIndex, p.memberBlock) ≠ (p'.parityMemberIndex, p'.memberBlock)) := by
  have h := labelOk_of_validate hlabel
  refine ⟨fun hne heq => ?_, fun hprof heq => ?_⟩
  · obtain ⟨hi, hb⟩ := Prod.mk.inj heq
    exact hne (poolMapDataBlock_inj h h8 hl h8' hl' hmap hmap' hi hb)
  · obtain ⟨hi, hb⟩ := Prod.mk.inj heq
    rw [poolMapDataBlock_parity hprof] at hmap hmap'
    exact poolMapParity_data_ne_parity h h8 hl h8' hl' hmap hmap' hb hi

end Distinct

theorem parityPool_slots_distinct :
    let img : Image BlockArray := parityPool (fun _ _ => zeros 4096)
    poolMapDataBlock img 8 = .ok ⟨1, 0, 8⟩ ∧ poolMapDataBlock img 12 = .ok ⟨0, 1, 10⟩ ∧
      ((1, 8) : Nat × Nat) ≠ (0, 10) ∧ ((1, 8) : Nat × Nat) ≠ (1, 10) := by
  intro img
  obtain ⟨hmap, hmap'⟩ := parityPool_map (fun _ _ => zeros 4096 : Nat → BlockArray)
  obtain ⟨hlabel, hprof⟩ := parityPool_label (fun _ _ => zeros 4096 : Nat → BlockArray)
  obtain ⟨h1, h2⟩ := poolMapDataBlock_slots_distinct hlabel (by norm_num) (by norm_num)
    (by norm_num) (by norm_num) hmap hmap'
  exact ⟨hmap, hmap', h1 (by norm_num), h2 hprof⟩

/-! ## 6. Slots and capacities -/

section Range

variable {δ : Type} {img : Image δ}

/-- The block lies in the data region of the member. -/
def Inside (img : Image δ) (member block : Nat) : Prop :=
  dataStartBlock ≤ block ∧ block < dataStartBlock + poolMemberDataBlocks img member

/-- The slot lies in the data region of every member that a write will touch. -/
structure SlotInside (img : Image δ) (p : PoolMapping) : Prop where
  data : Inside img p.memberIndex p.memberBlock
  parity : poolProfile img = poolProfileParity → Inside img p.parityMemberIndex p.memberBlock
  mirror : poolProfile img = poolProfileMirror →
    ∀ m ∈ maskMembers (poolDataMask img), Inside img m p.memberBlock

/-- Outside the mirror, the slot has been compared with the capacities. -/
theorem poolMapDataBlock_inside (h : LabelOk img.poolLabel) {l : Nat} {p : PoolMapping}
    (h8 : 8 ≤ l) (hl : l < 2 ^ 64) (hmap : poolMapDataBlock img l = .ok p)
    (hprof : poolProfile img ≠ 1) : SlotInside img p := by
  have hge := (poolMapDataBlock_slot h h8 hl hmap).2
  unfold poolMapDataBlock at hmap
  split at hmap
  · rename_i hlinear
    refine ⟨⟨hge, (poolMapLinear_spec h hmap).2.2⟩, fun hparity => ?_, fun h1 => absurd h1 hprof⟩
    simp only [poolProfileSingle, poolProfileTiered, poolProfileParity] at hlinear hparity
    omega
  · split at hmap
    · rename_i hstripe
      refine ⟨⟨hge, (poolMapStripe_spec h h8 hl hmap).2.2⟩, fun hparity => ?_,
        fun h1 => absurd h1 hprof⟩
      exact absurd (hstripe.symm.trans hparity) (by decide)
    · split at hmap
      · obtain ⟨_, _, -, -, -, -, -, -, hdata, hparity⟩ := poolMapParity_spec h h8 hl hmap
        exact ⟨⟨hge, hdata⟩, fun _ => ⟨hge, hparity⟩, fun h1 => absurd h1 hprof⟩
      · exact absurd hmap (by simp)

/-- **Which slots are in range.**  Under an accepted label every slot that is handed out lies in the
data region of the members a write will touch, except that under the mirror profile that is so
exactly when the logical number is below the end of every data member. -/
theorem mapped_slots_inside_iff (hlabel : poolLabelValidate img.poolLabel = .ok ()) {l : Nat}
    {p : PoolMapping} (h8 : 8 ≤ l) (hl : l < 2 ^ 64) (hmap : poolMapDataBlock img l = .ok p) :
    SlotInside img p ↔ (poolProfile img = poolProfileMirror →
      ∀ m ∈ maskMembers (poolDataMask img), l < dataStartBlock + poolMemberDataBlocks img m) := by
  have h := labelOk_of_validate hlabel
  by_cases hprof : poolProfile img = 1
  · have hmirror := hmap
    rw [poolMapDataBlock_mirror hprof] at hmirror
    obtain ⟨hfirst, hblock⟩ := poolMapMirror_spec hmirror
    constructor
    · intro hin _ m hm
      rw [← hblock]
      exact (hin.mirror hprof m hm).2
    · intro hall
      have hmem : p.memberIndex ∈ maskMembers (poolDataMask img) := by
        rw [maskMembers_eq (h.lt_256 (poolDataMask_lt h))]
        exact (poolMapDataBlock_slot h h8 hl hmap).1
      have hin : ∀ m ∈ maskMembers (poolDataMask img), Inside img m p.memberBlock := by
        intro m hm
        rw [hblock]
        exact ⟨h8, hall hprof m hm⟩
      exact ⟨hin _ hmem, fun hparity => absurd (hprof.symm.trans hparity) (by decide),
        fun _ => hin⟩
  · exact iff_of_true (poolMapDataBlock_inside h h8 hl hmap hprof) fun h1 => absurd h1 hprof

end Range

theorem parityPool_slot_inside :
    poolMapDataBlock (parityPool fun _ => (zeros 4096 : Block)) 8 = .ok ⟨1, 0, 8⟩ ∧
      SlotInside (parityPool fun _ => (zeros 4096 : Block)) ⟨1, 0, 8⟩ := by
  obtain ⟨hlabel, hprof⟩ := parityPool_label fun _ => (zeros 4096 : Block)
  obtain ⟨hmap, -⟩ := parityPool_map fun _ => (zeros 4096 : Block)
  refine ⟨hmap, (mapped_slots_inside_iff hlabel (by norm_num) (by norm_num) hmap).mpr fun h1 => ?_⟩
  exact absurd (hprof.symm.trans h1) (by decide)

/-- **A mirror answers with a block its members do not have.**  Two members of sixteen blocks, and a
label that promises twenty-four: block 20 is accepted. -/
theorem mirror_slot_outside :
    let img : Image Block := uniformPool 1 2 3 3 3 24 16 fun _ => zeros 4096
    poolLabelValidate img.poolLabel = .ok () ∧
      poolMapDataBlock img 20 = .ok ⟨0, 2 ^ 32 - 1, 20⟩ ∧
      ¬ SlotInside img ⟨0, 2 ^ 32 - 1, 20⟩ := by
  intro img
  have hlabel : poolLabelValidate img.poolLabel = .ok () :=
    uniformLabel_validate 1 2 3 3 3 24 16 (by norm_num) (by norm_num) (by norm_num) (by norm_num)
      (by norm_num) (by norm_num) (by norm_num) (by norm_num) (by norm_num) (by norm_num)
  have hprof : poolProfile img = 1 :=
    (uniformLabel_fields 1 2 3 3 3 24 16 (by norm_num) (by norm_num) (by norm_num) (by norm_num)
      (by norm_num) (by norm_num)).2.2.1
  have hmask : poolDataMask img = 3 := (uniformPool_masks 1 2 3 3 3 24 16 (fun _ => zeros 4096)
    (by norm_num) (by norm_num) (by norm_num) (by norm_num) (by norm_num) (by norm_num)
    (by norm_num) (by norm_num) (by norm_num) (by norm_num)).2.1
  have hcap : poolMemberDataBlocks img 0 = 8 :=
    uniformPool_capacity 1 2 3 3 3 24 16 (fun _ => zeros 4096) (by norm_num) (by norm_num)
      (by norm_num)
  refine ⟨hlabel, ?_, fun hin => ?_⟩
  · rw [poolMapDataBlock_mirror hprof, poolMapMirror, hmask]
    rfl
  · have hlt := hin.data.2
    rw [hcap] at hlt
    exact absurd hlt (by decide)

end AetherFs
