/-
# Images with one member

`mkfs`, `rebalance` and `aetherfs_image_open` only ever deal with one file.  On one member the
layouts collapse: whatever the label says, member 0 carries every role, and a data block is
either refused or kept at its own number.  `singleBound img` is the first number that is
refused, so an image with one member IS the initial segment of its file
(`single_map_of_lt`, `single_map_of_ok`), and reading or writing a block of it is reading or
writing that block of the device (`single_read_eq_ok`, `single_write`).

No accepted label is needed for any of this: the label an open synthesises for a file of fewer
than eight blocks would not pass the check.
-/
import AetherFs.Pool.Block

namespace AetherFs

open Lib

section Single

variable {δ : Type} {img : Image δ}

/-! ## 1. Roles and addresses -/

theorem limitMask_single (hc : img.memberCount = 1) : poolMemberLimitMask img = 1 := by
  rw [poolMemberLimitMask, hc]
  decide

theorem and_one_eq (n : Nat) : n &&& 1 = 0 ∨ n &&& 1 = 1 := by
  rw [Nat.and_one_is_mod]
  omega

theorem poolDataMask_single (hc : img.memberCount = 1) : poolDataMask img = 1 := by
  unfold poolDataMask
  simp only [limitMask_single hc, hc]
  rcases and_one_eq (plDataMask img.poolLabel) with h | h <;> rw [h] <;> decide

theorem poolMetadataMask_single (hc : img.memberCount = 1) : poolMetadataMask img = 1 := by
  unfold poolMetadataMask
  simp only [limitMask_single hc, hc]
  rcases and_one_eq (plMetadataMask img.poolLabel) with h | h <;> rw [h] <;> decide

theorem poolRoleMask_single (hc : img.memberCount = 1) (b : Nat) :
    poolRoleMaskForBootstrapBlock img b = 1 := by
  unfold poolRoleMaskForBootstrapBlock poolLogMask
  simp only [limitMask_single hc, poolMetadataMask_single hc]
  rcases and_one_eq (plLogMask img.poolLabel) with h | h <;> rw [h] <;> simp

theorem maskMembers_one : maskMembers 1 = [0] := by decide

/-- The first data block the label refuses. -/
def singleBound (img : Image δ) : Nat :=
  if poolProfile img = poolProfileSingle ∨ poolProfile img = poolProfileTiered then
    8 + poolMemberDataBlocks img 0
  else if poolProfile img = poolProfileMirror then 2 ^ 64
  else if poolProfile img = poolProfileStripe then
    if plStripeBlocks img.poolLabel = 0 then 0
    else addU64 dataStartBlock (poolMemberDataBlocks img 0)
  else 0

theorem stripe_single (rel s : Nat) : rel / s / 1 * s + rel % s = rel := by
  rw [Nat.div_one, Nat.mul_comm]
  exact Nat.div_add_mod rel s

theorem single_map (hc : img.memberCount = 1) {b : Nat} (h8 : 8 ≤ b) (hb : b < 2 ^ 64) :
    (b < singleBound img ∧ poolMapDataBlock img b = .ok ⟨0, 2 ^ 32 - 1, b⟩) ∨
      (singleBound img ≤ b ∧ ∃ e, poolMapDataBlock img b = .error (.check e)) := by
  have hmask := poolDataMask_single hc
  have hcount : maskCount 1 = 1 := by decide
  unfold poolMapDataBlock singleBound
  split
  · -- linear: one member to scan
    simp only [poolMapLinear, hmask, maskMembers_one, linearScan, subU64_dataStart h8 hb]
    by_cases hlt : b < 8 + poolMemberDataBlocks img 0
    · refine Or.inl ⟨hlt, ?_⟩
      rw [if_pos (by omega)]
      simp only [addU64, dataStartBlock]
      rw [Nat.add_sub_cancel' h8, Nat.mod_eq_of_lt hb]
    · refine Or.inr ⟨Nat.not_lt.mp hlt, .ERANGE, ?_⟩
      rw [if_neg (by omega)]
  · split
    · refine Or.inl ⟨hb, ?_⟩
      rw [poolMapMirror, hmask]
      rfl
    · split
      · -- stripe: one member holds every stripe, in order
        simp only [poolMapStripe, hmask, hcount, subU64_dataStart h8 hb]
        by_cases hs : plStripeBlocks img.poolLabel = 0
        · refine Or.inr ⟨by rw [if_pos hs]; omega, .EINVAL, ?_⟩
          rw [if_pos (Or.inr hs)]
        · rw [if_neg hs, if_neg (show ¬ (1 = 0 ∨ plStripeBlocks img.poolLabel = 0) by omega)]
          have hnth : maskNth 1 ((b - 8) / plStripeBlocks img.poolLabel % 1) = some 0 := by
            rw [Nat.mod_one]
            decide
          have hblock : addU64 (addU64 dataStartBlock (mulU64 ((b - 8) /
              plStripeBlocks img.poolLabel / 1) (plStripeBlocks img.poolLabel)))
                ((b - 8) % plStripeBlocks img.poolLabel) = b := by
            have := stripe_single (b - 8) (plStripeBlocks img.poolLabel)
            simp only [addU64, mulU64, dataStartBlock]
            omega
          rw [hnth]
          simp only [hblock]
          by_cases hlt : b < addU64 dataStartBlock (poolMemberDataBlocks img 0)
          · exact Or.inl ⟨hlt, if_neg (Nat.not_le.mpr hlt)⟩
          · exact Or.inr ⟨Nat.not_lt.mp hlt, .ERANGE, if_pos (Nat.not_lt.mp hlt)⟩
      · refine Or.inr ⟨Nat.zero_le _, .EINVAL, ?_⟩
        split
        · simp only [poolMapParity, hmask, hcount]
          rfl
        · rfl

theorem single_map_of_lt (hc : img.memberCount = 1) {b : Nat} (h8 : 8 ≤ b) (hb : b < 2 ^ 64)
    (hlt : b < singleBound img) : poolMapDataBlock img b = .ok ⟨0, 2 ^ 32 - 1, b⟩ := by
  rcases single_map hc h8 hb with ⟨-, h⟩ | ⟨hge, -⟩
  · exact h
  · omega

theorem single_map_of_ok (hc : img.memberCount = 1) {b : Nat} (h8 : 8 ≤ b) (hb : b < 2 ^ 64)
    {p : PoolMapping} (hp : poolMapDataBlock img b = .ok p) :
    b < singleBound img ∧ p.memberBlock = b := by
  rcases single_map hc h8 hb with ⟨hlt, h⟩ | ⟨-, e, h⟩
  · rw [h] at hp
    obtain rfl := Except.ok.inj hp
    exact ⟨hlt, rfl⟩
  · rw [h] at hp
    exact absurd hp (by simp)

/-- The blocks an image with one member serves: the bootstrap blocks and those below its
bound. -/
def Served (img : Image δ) (b : Nat) : Prop := b < 8 ∨ b < singleBound img

theorem served_withDevs {devs : Nat → δ} {b : Nat} :
    Served (img.withDevs devs) b ↔ Served img b := Iff.rfl

/-- It is decided by the label, and by the size of the member where the label gives none. -/
theorem served_congr {img' : Image δ} (hl : img'.poolLabel = img.poolLabel)
    (hm : pmTotalBlocks img.poolLabel 0 = 0 → (img'.members 0).blocks = (img.members 0).blocks)
    {b : Nat} : Served img' b ↔ Served img b := by
  have htotal : poolMemberTotalBlocks img' 0 = poolMemberTotalBlocks img 0 := by
    simp only [poolMemberTotalBlocks, hl]
    split
    · rename_i hzero
      exact hm hzero
    · rfl
  have hdata : poolMemberDataBlocks img' 0 = poolMemberDataBlocks img 0 := by
    unfold poolMemberDataBlocks
    rw [hl, htotal]
  have hbound : singleBound img' = singleBound img := by
    unfold singleBound poolProfile
    rw [hl, hdata]
  rw [Served, Served, hbound]

theorem home_single (hc : img.memberCount = 1) {b : Nat} (hb : b < 2 ^ 64) :
    (Served img b ∧ home img b = .ok (0, b)) ∨
      (¬ Served img b ∧ ∃ e, home img b = .error (.check e)) := by
  unfold home Served
  by_cases h8 : b < 8
  · refine Or.inl ⟨Or.inl h8, ?_⟩
    rw [if_pos h8, poolRoleMask_single hc, maskMembers_one]
    rfl
  · rw [if_neg h8]
    rcases single_map hc (Nat.not_lt.mp h8) hb with ⟨hlt, h⟩ | ⟨hge, e, h⟩
    · exact Or.inl ⟨Or.inr hlt, by rw [h]; rfl⟩
    · exact Or.inr ⟨by omega, e, by rw [h]; rfl⟩

/-! ## 2. Reading and writing -/

variable [BlockDev δ]

/-- **Reading is reading the device.** -/
theorem single_read_eq_ok (hc : img.memberCount = 1) {b : Nat} (hb : b < 2 ^ 64) {x : Block} :
    imageReadBlock img b = .ok x ↔ Served img b ∧ BlockDev.read (img.members 0).dev b = .ok x := by
  have hphys : ∀ c, imageReadPhysicalMember img 0 c = BlockDev.read (img.members 0).dev c :=
    imageReadPhysicalMember_of_lt (by omega)
  unfold imageReadBlock Served
  by_cases h8 : b < 8
  · rw [if_pos h8, poolRoleMask_single hc, maskMembers_one, readReplicas, readReplicas, hphys]
    cases BlockDev.read (img.members 0).dev b with
    | ok y => exact ⟨fun h => ⟨Or.inl h8, h⟩, fun h => h.2⟩
    | error e => exact ⟨fun h => absurd h (by simp), fun h => absurd h.2 (by simp)⟩
  · rw [if_neg h8]
    rcases single_map hc (Nat.not_lt.mp h8) hb with ⟨hlt, h⟩ | ⟨hge, e, h⟩
    · rw [h, ok_bind, hphys]
      exact ⟨fun hx => ⟨Or.inr hlt, hx⟩, fun hx => hx.2⟩
    · rw [h, error_bind]
      exact ⟨fun hx => absurd hx (by simp), fun hx => by omega⟩

/-- Over another device with the same block in place `b`, block `b` reads the same. -/
theorem single_read_withDevs (hc : img.memberCount = 1) {b : Nat} (hb : b < 2 ^ 64)
    {devs : Nat → δ} (h : BlockDev.read (devs 0) b = BlockDev.read (img.members 0).dev b) :
    imageReadBlock (img.withDevs devs) b = imageReadBlock img b := by
  have hc' : (img.withDevs devs).memberCount = 1 := hc
  have hphys : imageReadPhysicalMember (img.withDevs devs) 0 b = imageReadPhysicalMember img 0 b := by
    rw [imageReadPhysicalMember_of_lt (by omega), imageReadPhysicalMember_of_lt (by omega)]
    exact h
  unfold imageReadBlock
  by_cases h8 : b < 8
  · rw [if_pos h8, if_pos h8, poolRoleMask_single hc, poolRoleMask_single hc', maskMembers_one]
    simp only [readReplicas, hphys]
  · rw [if_neg h8, if_neg h8, poolMapDataBlock_withDevs]
    rcases single_map hc (Nat.not_lt.mp h8) hb with ⟨-, h⟩ | ⟨-, e, h⟩
    · rw [h, ok_bind, ok_bind, hphys]
    · rw [h, error_bind, error_bind]

/-- **Writing is writing the device.** -/
theorem single_write (hc : img.memberCount = 1) (hw : img.writable = true) {b : Nat}
    (hb : b < 2 ^ 64) (hs : Served img b) (buf : Block) :
    imageWriteBlock b buf img = imageWritePhysicalMember 0 b buf img := by
  have hone : ∀ c, writeMembers c buf [0] img = imageWritePhysicalMember 0 c buf img := by
    intro c
    change EStateM.bind (imageWritePhysicalMember 0 c buf) (fun _ => writeMembers c buf []) img = _
    unfold EStateM.bind
    cases imageWritePhysicalMember 0 c buf img with
    | ok u img' => rfl
    | error e img' => rfl
  unfold imageWriteBlock
  rw [if_neg (by simp [hw])]
  by_cases h8 : b < 8
  · simp only
    rw [if_pos h8, poolRoleMask_single hc, if_neg (by decide), maskMembers_one, hone]
  · have hlt : b < singleBound img := hs.resolve_left h8
    rw [if_neg h8, single_map_of_lt hc (Nat.not_lt.mp h8) hb hlt]
    simp only [poolDataMask_single hc, maskMembers_one, hone]
    have hprof : poolProfile img = 0 ∨ poolProfile img = 4 ∨ poolProfile img = 2 ∨
        poolProfile img = 1 := by
      unfold singleBound at hlt
      simp only [poolProfileSingle, poolProfileTiered, poolProfileMirror,
        poolProfileStripe] at hlt
      by_contra hne
      rw [if_neg (by omega), if_neg (by omega), if_neg (by omega)] at hlt
      omega
    split
    · rfl
    · split
      · rfl
      · rename_i h1 h2
        simp only [poolProfileSingle, poolProfileTiered, poolProfileMirror,
          poolProfileStripe] at h1 h2
        omega

end Single

/-! ## 3. One file -/

section File

variable {img img' : Image ByteFile} {b : Nat} {buf : Block}

@[simp] theorem setDev_dev (img : Image ByteFile) (f : ByteFile) :
    ((img.setDev 0 f).members 0).dev = f := by
  simp only [Image.setDev, Function.update_self]

theorem single_write_ok (hc : img.memberCount = 1) (hb : b < 2 ^ 64) (hs : Served img b)
    (h : imageWriteBlock b buf img = .ok () img') :
    ∃ f', (img.members 0).dev.writeAll (b % 2 ^ 52 * 4096) buf = (.ok (), f') ∧
      img' = img.setDev 0 f' := by
  have hw : img.writable = true := by
    by_contra hw
    rw [imageWriteBlock, if_pos (by simpa using hw)] at h
    exact absurd h (by simp)
  rw [single_write hc hw hb hs, imageWritePhysicalMember, if_neg (by omega), ByteFile.write_def,
    ByteFile.offsetOf_eq] at h
  cases hwr : (img.members 0).dev.writeAll (b % 2 ^ 52 * 4096) buf with
  | mk r f' =>
    rw [hwr] at h
    cases r with
    | ok u => exact ⟨f', rfl, (EStateM.Result.ok.inj h).2.symm⟩
    | error e => exact absurd h (by simp)

theorem single_read_file (hc : img.memberCount = 1) (hb : b < 2 ^ 64) {x : Block} :
    imageReadBlock img b = .ok x ↔ Served img b ∧
      b % 2 ^ 52 * 4096 + 4096 ≤ (img.members 0).dev.size ∧
      x = (img.members 0).dev.blocksOf (b % 2 ^ 52) := by
  rw [single_read_eq_ok hc hb, ByteFile.read_def, ByteFile.readAll_eq_ok, ByteFile.offsetOf_eq]
  rfl

end File

end AetherFs
