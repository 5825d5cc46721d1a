/-
# Redundancy

`aetherfs_image_validate_pool_redundancy` re-reads what the writer keeps redundant: bootstrap
replicas, mirrored data, parity rows.  The writer and the checker share no code.  The writer
updates parity from the old data and the old parity of one row; the checker xors the whole row.

`Redundant img used` says what the checker tests, in terms of the members' blocks
(`validatePoolRedundancy_iff`), and `Redundant.write` shows that one successful write keeps it.
A write happens at one physical block number (`Wrote`): either that is the number a test looks
at, and then the write has put the same buffer on every replica, or balanced the row; or it is
another number, and the test reads what it read before.

The second half of that argument is about DEVICE slots, not numbers.  A file takes the number
modulo `2 ^ 52`, so the run theorem needs the physical numbers of the data blocks below `2 ^ 52`.
That is not idle: a mirror maps every logical number to itself, and writing block `2 ^ 52 + 1`
of a mirror overwrites one replica of the superblock.
-/
import AetherFs.Pool.Block
import AetherFs.Lib.Interval

namespace AetherFs

open Lib

section Redundancy

variable {δ : Type} [BlockDev δ]

/-! ## 1. The checker -/

/-- `if (member_index < 0) return -EINVAL;`. -/
def orEinval {α : Type} : Option Nat → (Nat → Except Fail α) → Except Fail α
  | none, _ => .error (.check .EINVAL)
  | some memberIndex, k => k memberIndex

/-- The candidate loop shared by the replica and the mirror check: every further member of the
mask must hold what the first one holds. -/
def replicasMatch (img : Image δ) (mask first block : Nat) : Except Fail Unit := do
  let baseline ← imageReadPhysicalMember img first block
  forEach (fun ordinal => orEinval (maskNth mask ordinal) fun m => do
    let candidate ← imageReadPhysicalMember img m block
    failIf (baseline ≠ candidate) .EILSEQ) (List.range' 1 (maskCount mask - 1))

/-- `aetherfs_image_validate_bootstrap_replicas`: blocks 1 to 7; the label block is not
compared. -/
def validateBootstrapReplicas (img : Image δ) : Except Fail Unit :=
  forEach (fun block =>
    let mask := poolRoleMaskForBootstrapBlock img block
    if maskCount mask ≤ 1 then .ok ()
    else orEinval (maskFirst mask) fun first => replicasMatch img mask first block)
    (List.range' superblockBlock (dataStartBlock - superblockBlock))

/-- The blocks of an interval, in the order of the source's offset loop. -/
def intervalBlocks (iv : Interval) : List Nat := (List.range iv.len).map (addU64 iv.start)

/-- The interval loop shared by the mirror and the parity check. -/
def forUsed (used : List Interval) (g : Nat → Except Fail Unit) : Except Fail Unit :=
  forEach (fun iv => if iv.start < dataStartBlock then .ok () else forEach g (intervalBlocks iv))
    used

/-- `aetherfs_image_validate_mirror_data`. -/
def validateMirrorData (img : Image δ) (used : List Interval) : Except Fail Unit :=
  let mask := poolDataMask img
  if maskCount mask ≤ 1 then .ok ()
  else orEinval (maskFirst mask) fun first => forUsed used (replicasMatch img mask first)

/-- The xor `aetherfs_image_validate_parity` forms over one row. -/
def rowParity (img : Image δ) (mask memberBlock : Nat) : Except Fail Block :=
  (List.range (maskCount mask)).foldlM (fun parity ordinal =>
    orEinval (maskNth mask ordinal) fun m => do
      let block ← imageReadPhysicalMember img m memberBlock
      .ok (xorBytes parity block)) (zeros 4096)

/-- `aetherfs_image_validate_parity`. -/
def validateParity (img : Image δ) (used : List Interval) : Except Fail Unit :=
  let mask := poolDataMask img
  if maskCount mask < 3 then .error (.check .EINVAL)
  else forUsed used fun block => do
    let mapping ← poolMapParity img block
    let parity ← rowParity img mask mapping.memberBlock
    failIf (parity ≠ zeros 4096) .EILSEQ

/-- `aetherfs_image_validate_pool_redundancy`. -/
def validatePoolRedundancy (img : Image δ) (used : List Interval) : Except Fail Unit := do
  validateBootstrapReplicas img
  if poolProfile img = poolProfileMirror then validateMirrorData img used
  else if poolProfile img = poolProfileParity then validateParity img used
  else .ok ()

/-! ## 2. What the checker tests -/

/-- The members hold one and the same block at `c`. -/
def Uniform (img : Image δ) (ms : List Nat) (c : Nat) : Prop :=
  ∃ x, ∀ m ∈ ms, imageReadPhysicalMember img m c = .ok x

/-- The members' blocks at `c` xor to zero. -/
def Balanced (img : Image δ) (ms : List Nat) (c : Nat) : Prop :=
  ∃ f : Nat → Block, (∀ m ∈ ms, imageReadPhysicalMember img m c = .ok (f m)) ∧
    xorAll (ms.map f) = zeros 4096

/-- The blocks the interval loop visits. -/
def checkedBlocks (used : List Interval) : List Nat :=
  (used.filter fun iv => dataStartBlock ≤ iv.start).flatMap intervalBlocks

theorem forUsed_eq_ok {used : List Interval} {g : Nat → Except Fail Unit} :
    forUsed used g = .ok () ↔ ∀ b ∈ checkedBlocks used, g b = .ok () := by
  simp only [forUsed, forEach_eq_ok, checkedBlocks, List.mem_flatMap, List.mem_filter,
    decide_eq_true_eq]
  constructor
  · rintro h b ⟨iv, ⟨hiv, hge⟩, hb⟩
    have := h iv hiv
    rw [if_neg (Nat.not_lt.mpr hge), forEach_eq_ok] at this
    exact this b hb
  · intro h iv hiv
    split
    · rfl
    · rename_i hge
      exact forEach_eq_ok.mpr fun b hb => h b ⟨iv, ⟨hiv, Nat.not_lt.mp hge⟩, hb⟩

theorem replicasMatch_eq_ok {img : Image δ} {mask first : Nat} {rest : List Nat}
    (hm : mask < 2 ^ 8) (hms : setBits 8 mask = first :: rest) (c : Nat) :
    replicasMatch img mask first c = .ok () ↔ Uniform img (setBits 8 mask) c := by
  have hloop : ∀ g : Nat → Except Fail Unit,
      forEach (fun ordinal => orEinval (maskNth mask ordinal) g)
        (List.range' 1 (maskCount mask - 1)) = .ok () ↔ ∀ m ∈ rest, g m = .ok () := by
    intro g
    have htail : (List.range' 1 (maskCount mask - 1)).map (maskNth mask) = rest.map some := by
      have := congrArg List.tail (map_maskNth hm)
      rwa [hms, List.map_cons, List.tail_cons, ← List.map_tail, List.range_eq_range',
        List.tail_range'] at this
    rw [forEach_map (g := fun o => orEinval o g), htail, ← forEach_map, forEach_eq_ok]
    rfl
  unfold replicasMatch Uniform
  rw [bind_eq_ok, hms]
  simp only [hloop, bind_eq_ok, failIf_eq_ok, not_not]
  constructor
  · rintro ⟨x, hx, hrest⟩
    refine ⟨x, fun m hmem => ?_⟩
    rcases List.mem_cons.mp hmem with rfl | hmem
    · exact hx
    · obtain ⟨y, hy, rfl⟩ := hrest m hmem
      exact hy
  · rintro ⟨x, hx⟩
    exact ⟨x, hx first List.mem_cons_self, fun m hmem =>
      ⟨x, hx m (List.mem_cons_of_mem _ hmem), rfl⟩⟩

theorem xorLoop_of_reads {g : Nat → Except Fail Block} {f : Nat → Block} :
    ∀ {ms : List Nat} {acc : Block}, (∀ m ∈ ms, g m = .ok (f m)) →
      ms.foldlM (fun parity m => g m >>= fun block => .ok (xorBytes parity block)) acc
        = .ok ((ms.map f).foldl xorBytes acc)
  | [], _, _ => rfl
  | m :: ms, acc, h => by
    rw [List.foldlM_cons, h m List.mem_cons_self]
    exact xorLoop_of_reads fun i hi => h i (List.mem_cons_of_mem _ hi)

/-- ... and only on readable members. -/
theorem reads_of_xorLoop {g : Nat → Except Fail Block} {x : Block} :
    ∀ {ms : List Nat} {acc : Block},
      ms.foldlM (fun parity m => g m >>= fun block => .ok (xorBytes parity block)) acc = .ok x →
        ∀ m ∈ ms, ∃ y, g m = .ok y
  | m :: ms, acc, h, i, hi => by
    rw [List.foldlM_cons, bind_eq_ok] at h
    obtain ⟨acc', h1, h2⟩ := h
    obtain ⟨y, hy, -⟩ := bind_eq_ok.mp h1
    rcases List.mem_cons.mp hi with rfl | hi
    · exact ⟨y, hy⟩
    · exact reads_of_xorLoop h2 i hi

theorem rowParity_eq_zeros {img : Image δ} {mask : Nat} (hm : mask < 2 ^ 8) (c : Nat) :
    rowParity img mask c = .ok (zeros 4096) ↔ Balanced img (setBits 8 mask) c := by
  have hrow : rowParity img mask c = (setBits 8 mask).foldlM (fun parity m =>
      imageReadPhysicalMember img m c >>= fun block => .ok (xorBytes parity block))
      (zeros 4096) := by
    have hord : ((List.range (maskCount mask)).map (maskNth mask)).foldlM (fun parity o =>
        orEinval o fun m => imageReadPhysicalMember img m c >>= fun block =>
          .ok (xorBytes parity block)) (zeros 4096) = rowParity img mask c := List.foldlM_map
    rw [← hord, map_maskNth hm, List.foldlM_map]
    rfl
  rw [hrow]
  constructor
  · intro h
    have hreads := reads_of_xorLoop h
    have hval : ∀ m, ∃ y, m ∈ setBits 8 mask → imageReadPhysicalMember img m c = .ok y :=
      fun m => by
        by_cases hmem : m ∈ setBits 8 mask
        · obtain ⟨y, hy⟩ := hreads m hmem
          exact ⟨y, fun _ => hy⟩
        · exact ⟨zeros 4096, fun h => absurd h hmem⟩
    choose f hf using hval
    rw [xorLoop_of_reads hf] at h
    exact ⟨f, hf, Except.ok.inj h⟩
  · rintro ⟨f, hf, hzero⟩
    rw [xorLoop_of_reads hf]
    exact congrArg Except.ok hzero

/-- Everything the checker tests, said of the members' blocks. -/
structure Redundant (img : Image δ) (used : List Interval) : Prop where
  bootstrap : ∀ b, 1 ≤ b → b < 8 → 1 < maskCount (poolRoleMaskForBootstrapBlock img b) →
    Uniform img (setBits 8 (poolRoleMaskForBootstrapBlock img b)) b
  mirror : poolProfile img = 1 → 1 < maskCount (poolDataMask img) →
    ∀ b ∈ checkedBlocks used, Uniform img (setBits 8 (poolDataMask img)) b
  parity : poolProfile img = 3 → 3 ≤ maskCount (poolDataMask img) ∧
    ∀ b ∈ checkedBlocks used, ∃ p, poolMapParity img b = .ok p ∧
      Balanced img (setBits 8 (poolDataMask img)) p.memberBlock

theorem exists_maskFirst {mask : Nat} (hm : mask < 2 ^ 8) (h1 : 1 < maskCount mask) :
    ∃ first rest, setBits 8 mask = first :: rest ∧ maskFirst mask = some first := by
  rw [maskCount_eq hm] at h1
  rw [maskFirst_eq]
  cases hms : setBits 8 mask with
  | nil => rw [hms] at h1; exact absurd h1 (by simp)
  | cons first rest => exact ⟨first, rest, rfl, rfl⟩

theorem validateBootstrapReplicas_iff {img : Image δ} (h : LabelOk img.poolLabel) :
    validateBootstrapReplicas img = .ok () ↔ ∀ b, 1 ≤ b → b < 8 →
      1 < maskCount (poolRoleMaskForBootstrapBlock img b) →
        Uniform img (setBits 8 (poolRoleMaskForBootstrapBlock img b)) b := by
  have hblock : ∀ b, (let mask := poolRoleMaskForBootstrapBlock img b
      if maskCount mask ≤ 1 then .ok ()
      else orEinval (maskFirst mask) fun first => replicasMatch img mask first b) = .ok () ↔
        (1 < maskCount (poolRoleMaskForBootstrapBlock img b) →
          Uniform img (setBits 8 (poolRoleMaskForBootstrapBlock img b)) b) := by
    intro b
    have hm := h.lt_256 (poolRoleMask_lt h b)
    simp only
    split
    · exact iff_of_true rfl fun h1 => by omega
    · rename_i h1
      obtain ⟨first, rest, hms, hfirst⟩ := exists_maskFirst hm (Nat.not_le.mp h1)
      rw [hfirst, orEinval, replicasMatch_eq_ok hm hms]
      exact ⟨fun hu _ => hu, fun hu => hu (Nat.not_le.mp h1)⟩
  unfold validateBootstrapReplicas
  rw [forEach_eq_ok]
  simp only [hblock, List.mem_range'_1, superblockBlock, dataStartBlock]
  exact ⟨fun hall b h1 h8 => hall b ⟨h1, by omega⟩, fun hall b hb => hall b hb.1 (by omega)⟩

theorem validateMirrorData_iff {img : Image δ} (h : LabelOk img.poolLabel)
    (used : List Interval) :
    validateMirrorData img used = .ok () ↔ (1 < maskCount (poolDataMask img) →
      ∀ b ∈ checkedBlocks used, Uniform img (setBits 8 (poolDataMask img)) b) := by
  have hm := h.lt_256 (poolDataMask_lt h)
  unfold validateMirrorData
  simp only
  split
  · exact iff_of_true rfl fun h1 => by omega
  · rename_i h1
    obtain ⟨first, rest, hms, hfirst⟩ := exists_maskFirst hm (Nat.not_le.mp h1)
    rw [hfirst, orEinval, forUsed_eq_ok]
    simp only [replicasMatch_eq_ok hm hms]
    exact ⟨fun hu _ => hu, fun hu => hu (Nat.not_le.mp h1)⟩

theorem validateParity_iff {img : Image δ} (h : LabelOk img.poolLabel) (used : List Interval) :
    validateParity img used = .ok () ↔ 3 ≤ maskCount (poolDataMask img) ∧
      ∀ b ∈ checkedBlocks used, ∃ p, poolMapParity img b = .ok p ∧
        Balanced img (setBits 8 (poolDataMask img)) p.memberBlock := by
  have hm := h.lt_256 (poolDataMask_lt h)
  unfold validateParity
  simp only
  split
  · exact iff_of_false (by simp) fun h3 => by omega
  · rename_i h3
    rw [forUsed_eq_ok]
    simp only [bind_eq_ok, failIf_eq_ok, not_not]
    refine Iff.trans ?_ (and_iff_right (Nat.not_lt.mp h3)).symm
    refine forall₂_congr fun b _ => exists_congr fun p => and_congr_right fun _ => ?_
    rw [← rowParity_eq_zeros hm]
    exact ⟨fun ⟨x, hx, hz⟩ => hz ▸ hx, fun hx => ⟨_, hx, rfl⟩⟩

/-- **The checker tests `Redundant`.** -/
theorem validatePoolRedundancy_iff {img : Image δ} (h : LabelOk img.poolLabel)
    (used : List Interval) : validatePoolRedundancy img used = .ok () ↔ Redundant img used := by
  unfold validatePoolRedundancy
  rw [bind_eq_ok]
  constructor
  · rintro ⟨u, hboot, hdata⟩
    refine ⟨(validateBootstrapReplicas_iff h).mp hboot, fun hp => ?_, fun hp => ?_⟩
    · rw [if_pos hp] at hdata
      exact (validateMirrorData_iff h used).mp hdata
    · rw [if_neg (by simp [hp]), if_pos hp] at hdata
      exact (validateParity_iff h used).mp hdata
  · rintro ⟨hboot, hmirror, hparity⟩
    refine ⟨(), (validateBootstrapReplicas_iff h).mpr hboot, ?_⟩
    split
    · rename_i hp
      exact (validateMirrorData_iff h used).mpr (hmirror hp)
    · split
      · rename_i hp
        exact (validateParity_iff h used).mpr (hparity hp)
      · rfl

/-! ## 3. What one write does to the tests -/

variable [LawfulBlockDev δ] {img img' : Image δ}

omit [LawfulBlockDev δ] in
theorem imageReadPhysicalMember_ok {m c : Nat} {x : Block}
    (h : imageReadPhysicalMember img m c = .ok x) :
    m < img.memberCount ∧ BlockDev.read (img.members m).dev c = .ok x := by
  unfold imageReadPhysicalMember at h
  split at h
  · exact absurd h (by simp)
  · rename_i hm
    exact ⟨Nat.not_le.mp hm, h⟩

theorem Wrote.memberCount_eq {c : Nat} {put : Nat → Option Block} (hw : Wrote img img' c put) :
    img'.memberCount = img.memberCount := by
  obtain ⟨devs, rfl⟩ := hw.frame
  rfl

theorem Wrote.read_hit {c b m : Nat} {put : Nat → Option Block} {x : Block}
    (hw : Wrote img img' c put) (hm : m < img.memberCount) (hput : put m = some x)
    (hb : LawfulBlockDev.slot δ b = LawfulBlockDev.slot δ c) :
    imageReadPhysicalMember img' m b = .ok x := by
  rw [imageReadPhysicalMember_of_lt (by rwa [hw.memberCount_eq])]
  exact hw.hit hput hb

theorem Wrote.read_miss {c b m : Nat} {put : Nat → Option Block} {x : Block}
    (hw : Wrote img img' c put)
    (hmiss : put m = none ∨ LawfulBlockDev.slot δ b ≠ LawfulBlockDev.slot δ c)
    (hx : imageReadPhysicalMember img m b = .ok x) : imageReadPhysicalMember img' m b = .ok x := by
  obtain ⟨hm, hread⟩ := imageReadPhysicalMember_ok hx
  rw [imageReadPhysicalMember_of_lt (by rwa [hw.memberCount_eq])]
  exact hw.miss hmiss hread

theorem Uniform.of_miss {c b : Nat} {put : Nat → Option Block} {ms : List Nat}
    (hw : Wrote img img' c put) (hne : LawfulBlockDev.slot δ b ≠ LawfulBlockDev.slot δ c)
    (hu : Uniform img ms b) : Uniform img' ms b := by
  obtain ⟨x, hx⟩ := hu
  exact ⟨x, fun m hm => hw.read_miss (Or.inr hne) (hx m hm)⟩

theorem Uniform.of_hit {c : Nat} {buf : Block} {ms : List Nat}
    (hw : Wrote img img' c (fun m => if m ∈ ms then some buf else none))
    (hms : ∀ m ∈ ms, m < img.memberCount) : Uniform img' ms c :=
  ⟨buf, fun m hm => hw.read_hit (hms m hm) (if_pos hm) rfl⟩

theorem Balanced.of_miss {c b : Nat} {put : Nat → Option Block} {ms : List Nat}
    (hw : Wrote img img' c put) (hne : LawfulBlockDev.slot δ b ≠ LawfulBlockDev.slot δ c)
    (hu : Balanced img ms b) : Balanced img' ms b := by
  obtain ⟨f, hf, hz⟩ := hu
  exact ⟨f, fun m hm => hw.read_miss (Or.inr hne) (hf m hm), hz⟩

/-- **The incremental parity update balances the whole row.**  Pull the two written members to
the front of the row; the rest of it is unchanged and the two new summands cancel the two old
ones (`xorAll_update`). -/
theorem Balanced.of_parity_write {c i p : Nat} {buf oldData oldParity : Block} {ms : List Nat}
    (hnd : ms.Nodup) (hi : i ∈ ms) (hp : p ∈ ms) (hip : i ≠ p)
    (hdata : imageReadPhysicalMember img i c = .ok oldData)
    (hpar : imageReadPhysicalMember img p c = .ok oldParity)
    (hw : Wrote img img' c (fun m => if m = i then some buf
      else if m = p then some (xorBytes (xorBytes oldParity oldData) buf) else none))
    (hu : Balanced img ms c) : Balanced img' ms c := by
  obtain ⟨f, hf, hz⟩ := hu
  have hfi : f i = oldData := Except.ok.inj ((hf i hi).symm.trans hdata)
  have hfp : f p = oldParity := Except.ok.inj ((hf p hp).symm.trans hpar)
  let f' : Nat → Block := fun m => if m = i then buf
    else if m = p then xorBytes (xorBytes oldParity oldData) buf else f m
  have hf' : ∀ m ∈ ms, imageReadPhysicalMember img' m c = .ok (f' m) := by
    intro m hm
    have hlt := (imageReadPhysicalMember_ok (hf m hm)).1
    by_cases hmi : m = i
    · simp only [f', if_pos hmi]
      exact hw.read_hit hlt (if_pos hmi) rfl
    · by_cases hmp : m = p
      · simp only [f', if_neg hmi, if_pos hmp]
        exact hw.read_hit hlt (by rw [if_neg hmi, if_pos hmp]) rfl
      · simp only [f', if_neg hmi, if_neg hmp]
        exact hw.read_miss (Or.inl (by rw [if_neg hmi, if_neg hmp])) (hf m hm)
  refine ⟨f', hf', ?_⟩
  have hfront : ms.Perm (i :: p :: (ms.erase i).erase p) :=
    (List.perm_cons_erase hi).trans
      ((List.perm_cons_erase (hnd.mem_erase_iff.mpr ⟨hip.symm, hp⟩)).cons i)
  have hrest : ((ms.erase i).erase p).map f' = ((ms.erase i).erase p).map f := by
    refine List.map_congr_left fun m hm => ?_
    obtain ⟨hmp, hm⟩ := (hnd.erase i).mem_erase_iff.mp hm
    obtain ⟨hmi, -⟩ := hnd.mem_erase_iff.mp hm
    simp only [f', if_neg hmi, if_neg hmp]
  have hf'i : f' i = buf := if_pos rfl
  have hf'p : f' p = xorBytes (xorBytes (f p) (f i)) buf := by
    simp only [f', if_neg hip.symm, if_true, hfi, hfp]
  calc xorAll (ms.map f')
      = xorAll (f' i :: f' p :: ((ms.erase i).erase p).map f') := xorAll_perm (hfront.map f')
    _ = xorAll (f i :: f p :: ((ms.erase i).erase p).map f) := by
        rw [hrest, hf'i, hf'p, xorAll_update]
    _ = xorAll (ms.map f) := (xorAll_perm (hfront.map f)).symm
    _ = zeros 4096 := hz

omit [LawfulBlockDev δ] in
/-- The physical block number of the tests for logical block `b`. -/
theorem checked_slot {used : List Interval} (h : LabelOk img.poolLabel) (hR : Redundant img used)
    {b : Nat} (hb : b ∈ checkedBlocks used) :
    (poolProfile img = 1 → 1 < maskCount (poolDataMask img) →
      ∃ p, poolMapDataBlock img b = .ok p ∧ p.memberBlock = b) ∧
    (poolProfile img = 3 → ∃ p, poolMapDataBlock img b = .ok p ∧
      Balanced img (setBits 8 (poolDataMask img)) p.memberBlock) := by
  refine ⟨fun hprof h1 => ?_, fun hprof => ?_⟩
  · obtain ⟨first, _, -, hfirst⟩ := exists_maskFirst (h.lt_256 (poolDataMask_lt h)) h1
    rw [poolMapDataBlock_mirror hprof, poolMapMirror, hfirst]
    exact ⟨_, rfl, rfl⟩
  · rw [poolMapDataBlock_parity hprof]
    exact (hR.parity hprof).2 b hb

omit [LawfulBlockDev δ] in
/-- The tests of the written image ask the same members about the same physical blocks. -/
theorem Redundant.of_tests {used : List Interval} {devs : Nat → δ}
    (hboot : ∀ b, 1 ≤ b → b < 8 → 1 < maskCount (poolRoleMaskForBootstrapBlock img b) →
      Uniform (img.withDevs devs) (setBits 8 (poolRoleMaskForBootstrapBlock img b)) b)
    (hmirror : poolProfile img = 1 → 1 < maskCount (poolDataMask img) →
      ∀ b ∈ checkedBlocks used, Uniform (img.withDevs devs) (setBits 8 (poolDataMask img)) b)
    (hparity : poolProfile img = 3 → 3 ≤ maskCount (poolDataMask img) ∧
      ∀ b ∈ checkedBlocks used, ∃ p, poolMapDataBlock img b = .ok p ∧
        Balanced (img.withDevs devs) (setBits 8 (poolDataMask img)) p.memberBlock) :
    Redundant (img.withDevs devs) used where
  bootstrap := hboot
  mirror := hmirror
  parity hprof := by
    refine ⟨(hparity hprof).1, fun b hb => ?_⟩
    rw [← poolMapDataBlock_parity hprof, poolMapDataBlock_withDevs]
    exact (hparity hprof).2 b hb

/-- The profiles for which the check comes to data blocks. -/
def VisitsData {δ : Type} (img : Image δ) : Prop :=
  (poolProfile img = 1 ∧ 1 < maskCount (poolDataMask img)) ∨ poolProfile img = 3

/-- **The step.**  `S` is a set of physical block numbers that the device tells apart; the
write and the tests keep to it. -/
theorem Redundant.write {S : Nat → Prop} (hS8 : ∀ c, c < 8 → S c)
    (hinj : ∀ c c', S c → S c' → LawfulBlockDev.slot δ c = LawfulBlockDev.slot δ c' → c = c')
    (h : LabelOk img.poolLabel) {used : List Interval} {block : Nat} {buf : Block}
    (hb : block < 2 ^ 64)
    (hwS : 8 ≤ block → ∀ p, poolMapDataBlock img block = .ok p → S p.memberBlock)
    (husedS : VisitsData img → ∀ b ∈ checkedBlocks used,
      ∀ p, poolMapDataBlock img b = .ok p → S p.memberBlock ∧ 8 ≤ p.memberBlock)
    (hR : Redundant img used) (hw : imageWriteBlock block buf img = .ok () img') :
    Redundant img' used := by
  obtain ⟨devs, rfl⟩ := imageWriteBlock_label hw
  have hmem : ∀ {mask}, mask < 2 ^ img.memberCount → ∀ i ∈ setBits 8 mask, i < img.memberCount :=
    fun hm i hi => mem_setBits_lt hm hi
  rcases imageWriteBlock_cases hw with ⟨hlt, -, hwr⟩ | ⟨h8, p, hp, hshape⟩
  · -- a bootstrap write: its own replicas agree again, nothing else looks at this number
    have hmiss : ∀ c, S c → c ≠ block → LawfulBlockDev.slot δ c ≠ LawfulBlockDev.slot δ block :=
      fun c hc hne heq => hne (hinj c block hc (hS8 block hlt) heq)
    refine Redundant.of_tests (fun b hb1 hb8 h1 => ?_) (fun hprof h1 b hbu => ?_) fun hprof => ?_
    · by_cases hbb : b = block
      · subst hbb
        rw [maskMembers_eq (h.lt_256 (poolRoleMask_lt h b))] at hwr
        exact Uniform.of_hit hwr (hmem (poolRoleMask_lt_open img b))
      · exact (hR.bootstrap b hb1 hb8 h1).of_miss hwr (hmiss b (hS8 b hb8) hbb)
    · obtain ⟨q, hq, hqb⟩ := (checked_slot h hR hbu).1 hprof h1
      obtain ⟨hSq, hq8⟩ := husedS (Or.inl ⟨hprof, h1⟩) b hbu q hq
      rw [hqb] at hSq hq8
      exact (hR.mirror hprof h1 b hbu).of_miss hwr (hmiss b hSq (by omega))
    · refine ⟨(hR.parity hprof).1, fun b hbu => ?_⟩
      obtain ⟨q, hq, hbal⟩ := (checked_slot h hR hbu).2 hprof
      obtain ⟨hSq, hq8⟩ := husedS (Or.inr hprof) b hbu q hq
      exact ⟨q, hq, hbal.of_miss hwr (hmiss _ hSq (by omega))⟩
  · obtain ⟨-, hc8⟩ := poolMapDataBlock_slot h h8 hb hp
    have hmiss : ∀ c, S c → c ≠ p.memberBlock →
        LawfulBlockDev.slot δ c ≠ LawfulBlockDev.slot δ p.memberBlock :=
      fun c hc hne heq => hne (hinj c p.memberBlock hc (hwS h8 p hp) heq)
    have hboot : ∀ put, Wrote img (img.withDevs devs) p.memberBlock put → ∀ b, 1 ≤ b → b < 8 →
        1 < maskCount (poolRoleMaskForBootstrapBlock img b) →
          Uniform (img.withDevs devs) (setBits 8 (poolRoleMaskForBootstrapBlock img b)) b :=
      fun put hwr b hb1 hb8 h1 =>
        (hR.bootstrap b hb1 hb8 h1).of_miss hwr (hmiss b (hS8 b hb8) (by omega))
    rcases hshape with ⟨hprof, hwr⟩ | ⟨hprof, hwr⟩ | ⟨hprof, oldData, oldParity, hd, hpar, hwr⟩
    · exact Redundant.of_tests (hboot _ hwr) (fun h1 => by omega) (fun h3 => by omega)
    · refine Redundant.of_tests (hboot _ hwr) (fun _ h1 b hbu => ?_) (fun h3 => by omega)
      rw [maskMembers_eq (h.lt_256 (poolDataMask_lt h))] at hwr
      by_cases hbc : b = p.memberBlock
      · rw [hbc]
        exact Uniform.of_hit hwr (hmem (poolDataMask_lt_open img))
      · obtain ⟨q, hq, hqb⟩ := (checked_slot h hR hbu).1 hprof h1
        have hSq := (husedS (Or.inl ⟨hprof, h1⟩) b hbu q hq).1
        rw [hqb] at hSq
        exact (hR.mirror hprof h1 b hbu).of_miss hwr (hmiss b hSq hbc)
    · refine Redundant.of_tests (hboot _ hwr) (fun h1 => by omega)
        fun _ => ⟨(hR.parity hprof).1, fun b hbu => ?_⟩
      obtain ⟨q, hq, hbal⟩ := (checked_slot h hR hbu).2 hprof
      refine ⟨q, hq, ?_⟩
      by_cases hqc : q.memberBlock = p.memberBlock
      · rw [hqc] at hbal ⊢
        rw [poolMapDataBlock_parity hprof] at hp
        obtain ⟨_, _, -, -, -, hi, hpi, -⟩ := poolMapParity_spec h h8 hb hp
        exact Balanced.of_parity_write (setBits_nodup 8 _) (maskNth_mem hi) (maskNth_mem hpi)
          (poolMapParity_data_ne_parity h h8 hb h8 hb hp hp rfl) hd hpar hwr hbal
      · exact hbal.of_miss hwr (hmiss _ (husedS (Or.inr hprof) b hbu q hq).1 hqc)

end Redundancy

/-! ## 4. Two mirrors -/

/-- Two zeroed files of sixteen blocks, labelled as a mirror that keeps its metadata on both
members and its data on those of `dm`. -/
def mirrorPool (dm : Nat) : Image ByteFile :=
  uniformPool 1 2 3 dm 3 (2 ^ 52 + 16) 16 fun _ =>
    ByteFile.zeroed 65536 ByteFile.sixteenBlocks_lt

section Mirror

variable (dm : Nat)

theorem mirrorPool_label (hlt : dm < 4) :
    poolLabelValidate (mirrorPool dm).poolLabel = .ok () ∧ poolProfile (mirrorPool dm) = 1 :=
  ⟨uniformLabel_validate 1 2 3 dm 3 (2 ^ 52 + 16) 16 (by norm_num) (by norm_num) (by norm_num)
      (by norm_num) (by omega) (by norm_num) (by norm_num) (by norm_num) (by norm_num)
      (by norm_num),
    (uniformLabel_fields 1 2 3 dm 3 (2 ^ 52 + 16) 16 (by norm_num) (by norm_num) (by norm_num)
      (by omega) (by norm_num) (by norm_num)).2.2.1⟩

theorem mirrorPool_masks (h0 : dm ≠ 0) (hlt : dm < 4) :
    (∀ b, poolRoleMaskForBootstrapBlock (mirrorPool dm) b = 3) ∧
      poolDataMask (mirrorPool dm) = dm := by
  obtain ⟨h1, h2, h3⟩ := uniformPool_masks 1 2 3 dm 3 (2 ^ 52 + 16) 16
    (fun _ => ByteFile.zeroed 65536 ByteFile.sixteenBlocks_lt) (by norm_num) (by norm_num) (by norm_num)
    (by norm_num) (by omega) (by norm_num) (by norm_num) h0 (by norm_num) (by norm_num)
  refine ⟨fun b => ?_, h2⟩
  unfold poolRoleMaskForBootstrapBlock
  split
  · exact h3
  · exact h1

theorem mirrorPool_read {m c : Nat} (hm : m < 2) (hc : c < 16) :
    imageReadPhysicalMember (mirrorPool dm) m c = .ok (zeros 4096) := by
  have hcount : m < (mirrorPool dm).memberCount := hm
  rw [imageReadPhysicalMember_of_lt hcount]
  refine ByteFile.readAll_eq_ok.mpr ⟨?_, (ByteFile.blockAt_zeroed _ _).symm⟩
  rw [ByteFile.offsetOf_of_lt (by omega)]
  change c * 4096 + 4096 ≤ 65536
  omega

theorem mirrorPool_uniform {mask c : Nat} (hmask : mask < 4) (hc : c < 16) :
    Uniform (mirrorPool dm) (setBits 8 mask) c :=
  ⟨zeros 4096, fun _ hm => mirrorPool_read dm (mem_setBits_lt (n := 2) hmask hm) hc⟩

/-- Before any write the two replicas agree, and so do the mirrored blocks 8 and 9. -/
theorem mirrorPool_redundant (h0 : dm ≠ 0) (hlt : dm < 4) :
    validatePoolRedundancy (mirrorPool dm) [⟨8, 2⟩] = .ok () := by
  obtain ⟨hlabel, hprof⟩ := mirrorPool_label dm hlt
  obtain ⟨hrole, hdata⟩ := mirrorPool_masks dm h0 hlt
  refine (validatePoolRedundancy_iff (labelOk_of_validate hlabel) _).mpr ⟨?_, ?_, ?_⟩
  · intro b _ hb _
    rw [hrole]
    exact mirrorPool_uniform dm (by norm_num) (by omega)
  · intro _ _ b hb
    rw [hdata]
    have hb : b = 8 ∨ b = 9 := by simpa [checkedBlocks, intervalBlocks, List.range_succ, addU64] using hb
    exact mirrorPool_uniform dm hlt (by omega)
  · intro h3
    exact absurd (hprof.symm.trans h3) (by norm_num)

theorem mirrorPool_map (h0 : dm ≠ 0) (hlt : dm < 4) (b : Nat) :
    ∃ m, poolMapDataBlock (mirrorPool dm) b = .ok ⟨m, 2 ^ 32 - 1, b⟩ := by
  have hfirst : ∃ m, maskFirst dm = some m := by
    interval_cases dm
    · exact absurd rfl h0
    · exact ⟨0, by decide⟩
    · exact ⟨1, by decide⟩
    · exact ⟨0, by decide⟩
  obtain ⟨m, hm⟩ := hfirst
  rw [poolMapDataBlock_mirror (mirrorPool_label dm hlt).2, poolMapMirror, (mirrorPool_masks dm h0 hlt).2,
    hm]
  exact ⟨m, rfl⟩

theorem mirrorPool_write (h0 : dm ≠ 0) (hlt : dm < 4) {b : Nat} (h8 : 8 ≤ b)
    (ho : ByteFile.offsetOf b + 4096 < 2 ^ 63) (buf : Block) :
    ∃ img', writeBlocks [(b, buf)] (mirrorPool dm) = .ok () img' ∧
      Wrote (mirrorPool dm) img' b (fun m => if m ∈ setBits 8 dm then some buf else none) := by
  obtain ⟨m, hmap⟩ := mirrorPool_map dm h0 hlt b
  have hmask := (mirrorPool_masks dm h0 hlt).2
  have hms : maskMembers dm = setBits 8 dm := maskMembers_eq (by omega)
  obtain ⟨img', hw, -⟩ := writeMembers_file ho buf
    (show Regular (mirrorPool dm) from fun _ => rfl)
    (show ∀ i ∈ maskMembers dm, i < 2 from fun i hi => by
      rw [hms] at hi
      exact mem_setBits_lt (n := 2) hlt hi)
  have hblock : imageWriteBlock b buf (mirrorPool dm) = .ok () img' := by
    unfold imageWriteBlock
    have hwrit : (mirrorPool dm).writable = true := rfl
    rw [if_neg (by simp [hwrit]), if_neg (Nat.not_lt.mpr h8), hmap]
    simp only [(mirrorPool_label dm hlt).2, hmask]
    simpa using hw
  have hwr := writeMembers_wrote hw
  rw [hms] at hwr
  exact ⟨img', estate_bind_ok.mpr ⟨(), img', hblock, rfl⟩, hwr⟩

end Mirror

/-! ## 5. Redundancy of files -/

section Files

variable {img img' : Image ByteFile}

/-- The byte offset of the slot the block is mapped to does not wrap. -/
def OffsetFits {δ : Type} (img : Image δ) (b : Nat) : Prop :=
  ∀ p, poolMapDataBlock img b = .ok p → p.memberBlock < 2 ^ 52

/-- An interval that wraps contains the last block number, and a mirror maps that to itself. -/
theorem mirror_checked_ge {used : List Interval} (hused : ∀ iv ∈ used, iv.start < 2 ^ 64)
    (hprof : poolProfile img = 1) (hfit : ∀ b ∈ checkedBlocks used, OffsetFits img b) {b : Nat}
    (hb : b ∈ checkedBlocks used) {p : PoolMapping} (hp : poolMapDataBlock img b = .ok p) :
    8 ≤ b := by
  obtain ⟨iv, hiv, hmem⟩ := List.mem_flatMap.mp hb
  obtain ⟨hmemu, hge⟩ := List.mem_filter.mp hiv
  obtain ⟨o, ho, rfl⟩ := List.mem_map.mp hmem
  have hstart := hused iv hmemu
  have hge : 8 ≤ iv.start := of_decide_eq_true hge
  have holt := List.mem_range.mp ho
  by_contra hlt
  simp only [addU64] at hlt
  have hlast : 2 ^ 64 - 1 ∈ checkedBlocks used := by
    refine List.mem_flatMap.mpr ⟨iv, hiv, List.mem_map.mpr ⟨2 ^ 64 - 1 - iv.start, ?_, ?_⟩⟩
    · exact List.mem_range.mpr (by omega)
    · simp only [addU64]
      omega
  rw [poolMapDataBlock_mirror hprof] at hp
  have hfirst := (poolMapMirror_spec hp).1
  have hmap : poolMapDataBlock img (2 ^ 64 - 1) = .ok ⟨p.memberIndex, 2 ^ 32 - 1, 2 ^ 64 - 1⟩ := by
    rw [poolMapDataBlock_mirror hprof, poolMapMirror, hfirst]
  exact absurd (hfit _ hlast _ hmap) (by norm_num)

/-- **Redundancy is kept by writes whose offsets fit.** -/
theorem redundancy_kept (hlabel : poolLabelValidate img.poolLabel = .ok ())
    {used : List Interval} (hused : ∀ iv ∈ used, iv.start < 2 ^ 64) {ws : List (Nat × Block)}
    (hws : ∀ w ∈ ws, w.1 < 2 ^ 64) (hfitW : ∀ w ∈ ws, 8 ≤ w.1 → OffsetFits img w.1)
    (hfitU : VisitsData img → ∀ b ∈ checkedBlocks used, OffsetFits img b)
    (hok : validatePoolRedundancy img used = .ok ()) (hrun : writeBlocks ws img = .ok () img') :
    validatePoolRedundancy img' used = .ok () := by
  induction ws generalizing img with
  | nil =>
    obtain ⟨-, rfl⟩ := EStateM.Result.ok.inj hrun
    exact hok
  | cons w ws ih =>
    rw [writeBlocks, estate_bind_ok] at hrun
    obtain ⟨_, img1, h1, h2⟩ := hrun
    have h := labelOk_of_validate hlabel
    have hslots : ∀ c c', c < 2 ^ 52 → c' < 2 ^ 52 → LawfulBlockDev.slot ByteFile c
        = LawfulBlockDev.slot ByteFile c' → c = c' := fun c c' hc hc' heq => by
      have heq : c % 2 ^ 52 = c' % 2 ^ 52 := heq
      rwa [Nat.mod_eq_of_lt hc, Nat.mod_eq_of_lt hc'] at heq
    have hchecked : VisitsData img → ∀ b ∈ checkedBlocks used,
        ∀ p, poolMapDataBlock img b = .ok p → p.memberBlock < 2 ^ 52 ∧ 8 ≤ p.memberBlock := by
      intro hvisits b hb p hp
      refine ⟨hfitU hvisits b hb p hp, ?_⟩
      rcases id hvisits with ⟨hprof, -⟩ | hprof
      · have h8 := mirror_checked_ge hused hprof (hfitU hvisits) hb hp
        rw [poolMapDataBlock_mirror hprof] at hp
        rwa [(poolMapMirror_spec hp).2]
      · rw [poolMapDataBlock_parity hprof] at hp
        exact poolMapParity_ge hp
    have hred := Redundant.write (S := fun c => c < 2 ^ 52) (fun c hc => by omega) hslots h
      (hws w List.mem_cons_self) (hfitW w List.mem_cons_self) hchecked
      ((validatePoolRedundancy_iff h used).mp hok) h1
    obtain ⟨devs, rfl⟩ := imageWriteBlock_label h1
    have hmaps : ∀ b, OffsetFits img b → OffsetFits (img.withDevs devs) b := fun b hb p hp =>
      hb p ((poolMapDataBlock_withDevs img devs b).symm.trans hp)
    have hlabel' : poolLabelValidate (img.withDevs devs).poolLabel = .ok () := hlabel
    exact ih hlabel' (fun w' hw' => hws w' (List.mem_cons_of_mem _ hw'))
      (fun w' hw' h8 => hmaps _ (hfitW w' (List.mem_cons_of_mem _ hw') h8))
      (fun hvisits b hb => hmaps b (hfitU hvisits b hb))
      ((validatePoolRedundancy_iff (labelOk_of_validate hlabel') used).mpr hred) h2

end Files

/-- Writing one of two mirrored blocks. -/
theorem mirrorPool_redundancy_kept : ∃ img',
    writeBlocks [(8, fun _ => 1)] (mirrorPool 3) = .ok () img' ∧
      validatePoolRedundancy img' [⟨8, 2⟩] = .ok () := by
  have hfit : ∀ b, b < 16 → OffsetFits (mirrorPool 3) b := fun b hb p hp => by
    obtain ⟨m, hmap⟩ := mirrorPool_map 3 (by norm_num) (by norm_num) b
    rw [hmap] at hp
    obtain rfl := Except.ok.inj hp
    change b < 2 ^ 52
    omega
  obtain ⟨img', hrun, -⟩ := mirrorPool_write 3 (b := 8) (by norm_num) (by norm_num)
    (by norm_num) (by norm_num [ByteFile.offsetOf]) (fun _ => 1)
  refine ⟨img', hrun, redundancy_kept (mirrorPool_label 3 (by norm_num)).1 (by simp) (by simp) ?_ ?_
    (mirrorPool_redundant 3 (by norm_num) (by norm_num)) hrun⟩
  · intro w hw _
    rw [List.mem_singleton.mp hw]
    exact hfit 8 (by norm_num)
  · intro _ b hb
    have hb : b = 8 ∨ b = 9 := by
      simpa [checkedBlocks, intervalBlocks, List.range_succ, addU64] using hb
    exact hfit b (by omega)

/-- **A write that breaks the replicas.**  Block `2 ^ 52 + 1` of a mirror whose data lives on the
first member only: the mirror map sends it to that member's block `2 ^ 52 + 1`, whose byte
offset is, in 64 bits, that of block 1. -/
theorem mirrorPool_redundancy_lost :
    validatePoolRedundancy (mirrorPool 1) [⟨8, 2⟩] = .ok () ∧ ∃ img',
      writeBlocks [(2 ^ 52 + 1, fun _ => 1)] (mirrorPool 1) = .ok () img' ∧
        validatePoolRedundancy img' [⟨8, 2⟩] = .error (.check .EILSEQ) := by
  refine ⟨mirrorPool_redundant 1 (by norm_num) (by norm_num), ?_⟩
  obtain ⟨img', hrun, hwr⟩ := mirrorPool_write 1 (b := 2 ^ 52 + 1) (by norm_num)
    (by norm_num) (by norm_num) (by norm_num [ByteFile.offsetOf]) (fun _ => 1)
  refine ⟨img', hrun, ?_⟩
  have hzero : imageReadPhysicalMember img' 0 1 = .ok (fun _ => 1) :=
    hwr.read_hit (by decide) (if_pos (by decide)) (show 1 % 2 ^ 52 = (2 ^ 52 + 1) % 2 ^ 52 by norm_num)
  have hone : imageReadPhysicalMember img' 1 1 = .ok (zeros 4096) :=
    hwr.read_miss (Or.inl (if_neg (by decide))) (mirrorPool_read 1 (by norm_num) (by norm_num))
  have hmask : poolRoleMaskForBootstrapBlock img' 1 = 3 := by
    obtain ⟨devs, rfl⟩ := hwr.frame
    exact (mirrorPool_masks 1 (by norm_num) (by norm_num)).1 1
  have hne : (fun _ => 1 : Block) ≠ zeros 4096 := fun h => absurd (congrFun h 0) (by decide)
  have hmatch : replicasMatch img' 3 0 1 = .error (.check .EILSEQ) := by
    simp only [replicasMatch, hzero, ok_bind, show maskCount 3 = 2 by decide]
    simp only [List.range', forEach, show maskNth 3 1 = some 1 by decide, orEinval, hone, ok_bind,
      failIf_of hne, error_bind]
  have hboot : validateBootstrapReplicas img' = .error (.check .EILSEQ) := by
    refine forEach_error (l := []) (a := 1) (by simp) ?_
    simp only [hmask, show maskCount 3 = 2 by decide, show maskFirst 3 = some 0 by decide,
      orEinval, hmatch]
    rfl
  rw [validatePoolRedundancy, hboot, error_bind]


end AetherFs
