/-
# Reading and writing a pool

`aetherfs_image_read_block` and `aetherfs_image_write_block`.  A write can touch several
members -- every replica of a bootstrap block, every data member of a mirror, the data and the
parity member of a parity row -- but always at ONE physical block number.  `Wrote img img' b put`
says exactly that: member `m` received `put m` at physical block `b`, and nothing else changed.
`imageWriteBlock_cases` sorts a successful write into the four shapes it can have; no later
proof unfolds the writer again.

The refinement is then a step and a run.  `imageReadBlock_write` is the step: on members that
are arrays of blocks, a write changes the reads of its own logical block and of no other.  It
rests on `home`, the slot a logical block is read from: a write fills its own block's home and
puts nothing into another's (`imageWriteBlock_home`).  The last theorem runs it over a sequence
of writes.
-/
import AetherFs.Pool.Map

namespace AetherFs

open Lib

section Frame

variable {δ : Type}

/-! ## 1. Contents and addresses

The members' contents are one thing, where the label sends a block is another: no address
depends on what a device holds. -/

/-- Replace the device of one member. -/
def Image.setDev (img : Image δ) (i : Nat) (d : δ) : Image δ :=
  { img with members := Function.update img.members i { img.members i with dev := d } }

/-- The image over other devices: everything but the members' contents stays. -/
def Image.withDevs (img : Image δ) (devs : Nat → δ) : Image δ :=
  { img with members := fun m => { img.members m with dev := devs m } }

/-- The slot a logical block is read from: of a bootstrap block, its first replica. -/
def home (img : Image δ) (block : Nat) : Except Fail (Nat × Nat) :=
  if block < dataStartBlock then
    match (maskMembers (poolRoleMaskForBootstrapBlock img block)).head? with
    | some m => .ok (m, block)
    | none => .error (.check .EIOERR)
  else (poolMapDataBlock img block).map fun p => (p.memberIndex, p.memberBlock)

theorem poolMapDataBlock_withDevs (img : Image δ) (devs : Nat → δ) (block : Nat) :
    poolMapDataBlock (img.withDevs devs) block = poolMapDataBlock img block :=
  poolMapDataBlock_congr img (img.withDevs devs) rfl rfl (fun _ => rfl) block

theorem home_withDevs (img : Image δ) (devs : Nat → δ) (block : Nat) :
    home (img.withDevs devs) block = home img block := by
  unfold home
  rw [poolMapDataBlock_withDevs]
  rfl

end Frame

section Transfer

variable {δ : Type} [BlockDev δ]

/-! ## 2. The source functions -/

/-- `aetherfs_image_read_physical_member`. -/
def imageReadPhysicalMember (img : Image δ) (memberIndex block : Nat) : Except Fail Block :=
  if memberIndex ≥ img.memberCount then .error (.check .EINVAL)
  else BlockDev.read (img.members memberIndex).dev block

/-- `aetherfs_image_write_physical_member`. -/
def imageWritePhysicalMember (memberIndex block : Nat) (buf : Block) :
    EStateM Fail (Image δ) Unit := fun img =>
  if memberIndex ≥ img.memberCount then .error (.check .EINVAL) img
  else
    match BlockDev.write (img.members memberIndex).dev block buf with
    | (.ok _, d) => .ok () (img.setDev memberIndex d)
    | (.error e, d) => .error e (img.setDev memberIndex d)

/-- The replica loop of `aetherfs_image_read_block`: the first member that can be read wins. -/
def readReplicas (img : Image δ) (block : Nat) : List Nat → Except Fail Block
  | [] => .error (.check .EIOERR)
  | m :: ms =>
    match imageReadPhysicalMember img m block with
    | .ok buf => .ok buf
    | .error _ => readReplicas img block ms

/-- The member loops of `aetherfs_image_write_block`: the first failure ends them. -/
def writeMembers (block : Nat) (buf : Block) : List Nat → EStateM Fail (Image δ) Unit
  | [] => pure ()
  | m :: ms => do
    imageWritePhysicalMember m block buf
    writeMembers block buf ms

/-- `aetherfs_image_read_block`. -/
def imageReadBlock (img : Image δ) (block : Nat) : Except Fail Block :=
  if block < dataStartBlock then
    readReplicas img block (maskMembers (poolRoleMaskForBootstrapBlock img block))
  else do
    let mapping ← poolMapDataBlock img block
    imageReadPhysicalMember img mapping.memberIndex mapping.memberBlock

/-- Reads depend on the label, the member count and the members. -/
theorem imageReadBlock_congr (img img' : Image δ) (hl : img'.poolLabel = img.poolLabel)
    (hc : img'.memberCount = img.memberCount) (hm : img'.members = img.members) (block : Nat) :
    imageReadBlock img' block = imageReadBlock img block := by
  have hphys : imageReadPhysicalMember img' = imageReadPhysicalMember img := by
    funext m c
    rw [imageReadPhysicalMember, imageReadPhysicalMember, hc, hm]
  have hrole : poolRoleMaskForBootstrapBlock img' block
      = poolRoleMaskForBootstrapBlock img block := by
    unfold poolRoleMaskForBootstrapBlock poolLogMask poolMetadataMask poolMemberLimitMask
    rw [hl, hc]
  have hreplicas : ∀ ms, readReplicas img' block ms = readReplicas img block ms := fun ms => by
    induction ms with
    | nil => rfl
    | cons m ms ih => rw [readReplicas, readReplicas, hphys, ih]
  unfold imageReadBlock
  rw [hrole, hreplicas, hphys, poolMapDataBlock_congr img img' hl hc (fun i => by rw [hm])]

/-- The parity branch of `aetherfs_image_write_block`: the parity block is updated from the old
data and the old parity, before the data is. -/
def writeParity (mapping : PoolMapping) (buf : Block) : EStateM Fail (Image δ) Unit := do
  let oldData ← liftRead fun img =>
    imageReadPhysicalMember img mapping.memberIndex mapping.memberBlock
  let oldParity ← liftRead fun img =>
    imageReadPhysicalMember img mapping.parityMemberIndex mapping.memberBlock
  imageWritePhysicalMember mapping.parityMemberIndex mapping.memberBlock
    (xorBytes (xorBytes oldParity oldData) buf)
  imageWritePhysicalMember mapping.memberIndex mapping.memberBlock buf

/-- `aetherfs_image_write_block`. -/
def imageWriteBlock (block : Nat) (buf : Block) : EStateM Fail (Image δ) Unit := fun img =>
  if img.writable = false then .error (.check .EBADF) img
  else if block < dataStartBlock then
    let mask := poolRoleMaskForBootstrapBlock img block
    if mask = 0 then .error (.check .EINVAL) img
    else writeMembers block buf (maskMembers mask) img
  else
    match poolMapDataBlock img block with
    | .error e => .error e img
    | .ok mapping =>
      if poolProfile img = poolProfileSingle ∨ poolProfile img = poolProfileTiered ∨
          poolProfile img = poolProfileStripe then
        imageWritePhysicalMember mapping.memberIndex mapping.memberBlock buf img
      else if poolProfile img = poolProfileMirror then
        writeMembers mapping.memberBlock buf (maskMembers (poolDataMask img)) img
      else if poolProfile img = poolProfileParity then writeParity mapping buf img
      else .error (.check .EINVAL) img

theorem imageReadPhysicalMember_of_lt {img : Image δ} {m : Nat} (hm : m < img.memberCount)
    (c : Nat) : imageReadPhysicalMember img m c = BlockDev.read (img.members m).dev c := by
  rw [imageReadPhysicalMember, if_neg (by omega)]

/-- A sequence of `aetherfs_image_write_block` calls. -/
def writeBlocks : List (Nat × Block) → EStateM Fail (Image δ) Unit
  | [] => pure ()
  | w :: ws => do
    imageWriteBlock w.1 w.2
    writeBlocks ws

/-! ## 3. What a write changes -/

variable [LawfulBlockDev δ]

/-- Member `m` received `put m` at physical block `block`; nothing else changed. -/
structure Wrote (img img' : Image δ) (block : Nat) (put : Nat → Option Block) : Prop where
  frame : ∃ devs, img' = img.withDevs devs
  hit : ∀ {m b x}, put m = some x → LawfulBlockDev.slot δ b = LawfulBlockDev.slot δ block →
    BlockDev.read (img'.members m).dev b = .ok x
  miss : ∀ {m b x}, put m = none ∨ LawfulBlockDev.slot δ b ≠ LawfulBlockDev.slot δ block →
    BlockDev.read (img.members m).dev b = .ok x → BlockDev.read (img'.members m).dev b = .ok x

theorem Wrote.refl (img : Image δ) (block : Nat) : Wrote img img block (fun _ => none) where
  frame := ⟨fun m => (img.members m).dev, rfl⟩
  hit h _ := absurd h (by simp)
  miss _ h := h

/-- Two writes at one physical block: the later one wins where both put something. -/
theorem Wrote.trans {img img' img'' : Image δ} {block : Nat} {put put' : Nat → Option Block}
    (h : Wrote img img' block put) (h' : Wrote img' img'' block put') :
    Wrote img img'' block (fun m => (put' m).or (put m)) where
  frame := by
    obtain ⟨devs, rfl⟩ := h.frame
    obtain ⟨devs', rfl⟩ := h'.frame
    exact ⟨devs', rfl⟩
  hit := by
    intro m b x hput hslot
    cases hp : put' m with
    | some y =>
      rw [hp, Option.some_or, Option.some.injEq] at hput
      exact h'.hit (hp.trans (congrArg some hput)) hslot
    | none =>
      rw [hp, Option.none_or] at hput
      exact h'.miss (Or.inl hp) (h.hit hput hslot)
  miss := by
    intro m b x hput hread
    rcases hput with hput | hslot
    · obtain ⟨h1, h2⟩ := Option.or_eq_none_iff.mp hput
      exact h'.miss (Or.inl h1) (h.miss (Or.inl h2) hread)
    · exact h'.miss (Or.inr hslot) (h.miss (Or.inr hslot) hread)

theorem imageWritePhysicalMember_wrote {img img' : Image δ} {m block : Nat} {buf : Block}
    (h : imageWritePhysicalMember m block buf img = .ok () img') :
    Wrote img img' block (fun i => if i = m then some buf else none) := by
  unfold imageWritePhysicalMember at h
  split at h
  · exact absurd h (by simp)
  · split at h
    · rename_i d hw
      obtain ⟨-, rfl⟩ := EStateM.Result.ok.inj h
      have hdev : ∀ i, ((img.setDev m d).members i).dev = if i = m then d else (img.members i).dev :=
        fun i => by
          unfold Image.setDev
          by_cases hi : i = m
          · subst hi; simp
          · simp [hi]
      refine ⟨⟨fun i => ((img.setDev m d).members i).dev, ?_⟩, ?_, ?_⟩
      · unfold Image.setDev Image.withDevs
        congr 1
        funext i
        by_cases hi : i = m
        · subst hi; simp
        · simp [hi]
      · intro i b x hput hslot
        split at hput
        · rename_i hi
          rw [hdev, if_pos hi, ← Option.some.inj hput]
          exact LawfulBlockDev.read_write_self hw hslot
        · exact absurd hput (by simp)
      · intro i b x hput hread
        rw [hdev]
        split at hput
        · rename_i hi
          rw [if_pos hi]
          subst hi
          exact LawfulBlockDev.read_write_ne hw (hput.resolve_left (by simp)) hread
        · rename_i hi
          rwa [if_neg hi]
    · exact absurd h (by simp)

theorem writeMembers_wrote {block : Nat} {buf : Block} : ∀ {ms : List Nat} {img img' : Image δ},
    writeMembers block buf ms img = .ok () img' →
      Wrote img img' block (fun m => if m ∈ ms then some buf else none)
  | [], img, img', h => by
    obtain ⟨-, rfl⟩ := EStateM.Result.ok.inj h
    simpa using Wrote.refl img block
  | m :: ms, img, img', h => by
    rw [writeMembers, estate_bind_ok] at h
    obtain ⟨_, img1, h1, h2⟩ := h
    have hw := (imageWritePhysicalMember_wrote h1).trans (writeMembers_wrote h2)
    have hput : (fun i => (if i ∈ ms then some buf else none).or (if i = m then some buf else none))
        = fun i => if i ∈ m :: ms then some buf else none := by
      funext i
      by_cases hi : i ∈ ms
      · rw [if_pos hi, if_pos (List.mem_cons_of_mem _ hi), Option.some_or]
      · rw [if_neg hi, Option.none_or]
        simp [hi]
    rwa [hput] at hw

theorem writeParity_wrote {mapping : PoolMapping} {buf : Block} {img img' : Image δ}
    (h : writeParity mapping buf img = .ok () img') :
    ∃ oldData oldParity,
      imageReadPhysicalMember img mapping.memberIndex mapping.memberBlock = .ok oldData ∧
      imageReadPhysicalMember img mapping.parityMemberIndex mapping.memberBlock = .ok oldParity ∧
      Wrote img img' mapping.memberBlock (fun m =>
        if m = mapping.memberIndex then some buf
        else if m = mapping.parityMemberIndex then
          some (xorBytes (xorBytes oldParity oldData) buf)
        else none) := by
  rw [writeParity, estate_bind_ok] at h
  obtain ⟨oldData, _, h1, h⟩ := h
  obtain ⟨h1, rfl⟩ := liftRead_ok.mp h1
  rw [estate_bind_ok] at h
  obtain ⟨oldParity, _, h2, h⟩ := h
  obtain ⟨h2, rfl⟩ := liftRead_ok.mp h2
  rw [estate_bind_ok] at h
  obtain ⟨_, img1, h3, h4⟩ := h
  refine ⟨oldData, oldParity, h1, h2, ?_⟩
  have hw := (imageWritePhysicalMember_wrote h3).trans (imageWritePhysicalMember_wrote h4)
  have hput : ∀ m, ((if m = mapping.memberIndex then some buf else none : Option Block).or
      (if m = mapping.parityMemberIndex then some (xorBytes (xorBytes oldParity oldData) buf)
        else none)) = if m = mapping.memberIndex then some buf
          else if m = mapping.parityMemberIndex then
            some (xorBytes (xorBytes oldParity oldData) buf) else none := fun m => by
    by_cases hm : m = mapping.memberIndex
    · rw [if_pos hm, if_pos hm, Option.some_or]
    · rw [if_neg hm, if_neg hm, Option.none_or]
  simpa only [hput] using hw

/-- **The shapes of a successful write.** -/
theorem imageWriteBlock_cases {block : Nat} {buf : Block} {img img' : Image δ}
    (h : imageWriteBlock block buf img = .ok () img') :
    (block < 8 ∧ poolRoleMaskForBootstrapBlock img block ≠ 0 ∧ Wrote img img' block (fun m =>
      if m ∈ maskMembers (poolRoleMaskForBootstrapBlock img block) then some buf else none)) ∨
    (8 ≤ block ∧ ∃ p, poolMapDataBlock img block = .ok p ∧
      (((poolProfile img = 0 ∨ poolProfile img = 4 ∨ poolProfile img = 2) ∧
          Wrote img img' p.memberBlock (fun m => if m = p.memberIndex then some buf else none)) ∨
        (poolProfile img = 1 ∧ Wrote img img' p.memberBlock (fun m =>
          if m ∈ maskMembers (poolDataMask img) then some buf else none)) ∨
        (poolProfile img = 3 ∧ ∃ oldData oldParity,
          imageReadPhysicalMember img p.memberIndex p.memberBlock = .ok oldData ∧
          imageReadPhysicalMember img p.parityMemberIndex p.memberBlock = .ok oldParity ∧
          Wrote img img' p.memberBlock (fun m =>
            if m = p.memberIndex then some buf
            else if m = p.parityMemberIndex then
              some (xorBytes (xorBytes oldParity oldData) buf)
            else none)))) := by
  unfold imageWriteBlock at h
  split at h
  · exact absurd h (by simp)
  · split at h
    · rename_i hb
      simp only at h
      split at h
      · exact absurd h (by simp)
      · rename_i hmask
        exact Or.inl ⟨hb, hmask, writeMembers_wrote h⟩
    · rename_i hb
      split at h
      · exact absurd h (by simp)
      · rename_i p hp
        refine Or.inr ⟨Nat.not_lt.mp hb, p, hp, ?_⟩
        split at h
        · rename_i hprof
          exact Or.inl ⟨hprof, imageWritePhysicalMember_wrote h⟩
        · split at h
          · rename_i hprof
            exact Or.inr (Or.inl ⟨hprof, writeMembers_wrote h⟩)
          · split at h
            · rename_i hprof
              exact Or.inr (Or.inr ⟨hprof, writeParity_wrote h⟩)
            · exact absurd h (by simp)

/-! ## 4. Reading a home -/

omit [LawfulBlockDev δ] in
/-- A readable home is what the block reads as. -/
theorem imageReadBlock_of_home {img : Image δ} {b m c : Nat} {x : Block}
    (hh : home img b = .ok (m, c)) (hx : imageReadPhysicalMember img m c = .ok x) :
    imageReadBlock img b = .ok x := by
  unfold home at hh
  unfold imageReadBlock
  split at hh
  · rename_i hb
    rw [if_pos hb]
    cases hms : maskMembers (poolRoleMaskForBootstrapBlock img b) with
    | nil => rw [hms] at hh; exact absurd hh (by simp)
    | cons m' ms =>
      rw [hms] at hh
      obtain ⟨rfl, rfl⟩ := Prod.mk.inj (Except.ok.inj hh)
      rw [readReplicas, hx]
  · rename_i hb
    rw [if_neg hb]
    cases hp : poolMapDataBlock img b with
    | error e => rw [hp] at hh; exact absurd hh (by simp [Except.map])
    | ok p =>
      rw [hp] at hh
      obtain ⟨rfl, rfl⟩ := Prod.mk.inj (Except.ok.inj hh)
      exact hx

omit [LawfulBlockDev δ] in
/-- A block without a home cannot be read, whatever the members hold. -/
theorem imageReadBlock_of_no_home {img : Image δ} {b : Nat} {e : Fail}
    (hh : home img b = .error e) : imageReadBlock img b = .error e := by
  unfold home at hh
  unfold imageReadBlock
  split at hh
  · rename_i hb
    rw [if_pos hb]
    cases hms : maskMembers (poolRoleMaskForBootstrapBlock img b) with
    | nil =>
      rw [hms] at hh
      rw [readReplicas, Except.error.inj hh]
    | cons m' ms => rw [hms] at hh; exact absurd hh (by simp)
  · rename_i hb
    rw [if_neg hb]
    cases hp : poolMapDataBlock img b with
    | error e' =>
      rw [hp] at hh
      rw [error_bind, Except.error.inj hh]
    | ok p => rw [hp] at hh; exact absurd hh (by simp [Except.map])

/-! ## 5. Writes and homes -/

omit [BlockDev δ] [LawfulBlockDev δ] in
theorem home_data {img : Image δ} {b : Nat} {p : PoolMapping} (h8 : 8 ≤ b)
    (hp : poolMapDataBlock img b = .ok p) : home img b = .ok (p.memberIndex, p.memberBlock) := by
  rw [home, if_neg (Nat.not_lt.mpr h8), hp]
  rfl

omit [BlockDev δ] [LawfulBlockDev δ] in
/-- **Homes keep to their side of the bootstrap boundary.** -/
theorem home_cases {img : Image δ} (h : LabelOk img.poolLabel) {b m c : Nat} (hb : b < 2 ^ 64)
    (hh : home img b = .ok (m, c)) :
    (b < 8 ∧ c = b ∧ m ∈ maskMembers (poolRoleMaskForBootstrapBlock img b)) ∨
      (8 ≤ b ∧ 8 ≤ c ∧ ∃ p, poolMapDataBlock img b = .ok p ∧ p.memberIndex = m ∧
        p.memberBlock = c) := by
  unfold home at hh
  split at hh
  · rename_i hlt
    split at hh
    · rename_i m' hm
      obtain ⟨rfl, rfl⟩ := Prod.mk.inj (Except.ok.inj hh)
      exact Or.inl ⟨hlt, rfl, List.mem_of_head? hm⟩
    · exact absurd hh (by simp)
  · rename_i hge
    cases hp : poolMapDataBlock img b with
    | error e => rw [hp] at hh; exact absurd hh (by simp [Except.map])
    | ok p =>
      rw [hp] at hh
      obtain ⟨rfl, rfl⟩ := Prod.mk.inj (Except.ok.inj hh)
      have h8 : 8 ≤ b := Nat.not_lt.mp hge
      exact Or.inr ⟨h8, (poolMapDataBlock_slot h h8 hb hp).2, p, rfl, rfl, rfl⟩

/-- **What a write puts, and where it does not.**  The write reaches its own block's home, and
it puts nothing into the home of any other logical block. -/
theorem imageWriteBlock_home {img img' : Image δ} (h : LabelOk img.poolLabel) {block : Nat}
    (hb : block < 2 ^ 64) {buf : Block} (hw : imageWriteBlock block buf img = .ok () img') :
    ∃ m c put, home img block = .ok (m, c) ∧ Wrote img img' c put ∧ put m = some buf ∧
      ∀ b' m' c', b' < 2 ^ 64 → b' ≠ block → home img b' = .ok (m', c') →
        put m' = none ∨ c' ≠ c := by
  rcases imageWriteBlock_cases hw with ⟨hlt, hmask, hwr⟩ | ⟨h8, p, hp, hshape⟩
  · -- a bootstrap block: its physical number is its logical one
    have hlt256 := h.lt_256 (poolRoleMask_lt h block)
    cases hms : maskMembers (poolRoleMaskForBootstrapBlock img block) with
    | nil =>
      rw [maskMembers_eq hlt256] at hms
      exact absurd hms (setBits_ne_nil hlt256 hmask)
    | cons m ms =>
      refine ⟨m, block, _, ?_, hwr, ?_, ?_⟩
      · rw [home, if_pos hlt, hms]
        rfl
      · rw [hms, if_pos List.mem_cons_self]
      · intro b' m' c' hb' hne hh
        rcases home_cases h hb' hh with ⟨-, rfl, -⟩ | ⟨-, hc, -⟩
        · exact Or.inr hne
        · exact Or.inr (by omega)
  · obtain ⟨-, hc8⟩ := poolMapDataBlock_slot h h8 hb hp
    have hother : ∀ b' m' c', b' < 2 ^ 64 → b' ≠ block → home img b' = .ok (m', c') →
        c' = p.memberBlock → ∃ p', 8 ≤ b' ∧ poolMapDataBlock img b' = .ok p' ∧
          p'.memberIndex = m' ∧ p'.memberBlock = p.memberBlock ∧ m' ≠ p.memberIndex := by
      intro b' m' c' hb' hne hh hc
      rcases home_cases h hb' hh with ⟨hlt, rfl, -⟩ | ⟨h8', -, p', hp', rfl, hpc⟩
      · omega
      · exact ⟨p', h8', hp', rfl, hpc.trans hc, fun hi =>
          hne (poolMapDataBlock_inj h h8' hb' h8 hb hp' hp hi (hpc.trans hc))⟩
    rcases hshape with ⟨-, hwr⟩ | ⟨hprof, hwr⟩ | ⟨hprof, oldData, oldParity, -, -, hwr⟩
    · refine ⟨_, _, _, home_data h8 hp, hwr, if_pos rfl, fun b' m' c' hb' hne hh => ?_⟩
      by_cases hc : c' = p.memberBlock
      · obtain ⟨-, -, -, -, -, hm⟩ := hother b' m' c' hb' hne hh hc
        exact Or.inl (if_neg hm)
      · exact Or.inr hc
    · -- a mirror keeps the logical number on every member
      have hmem := (poolMapDataBlock_slot h h8 hb hp).1
      rw [← maskMembers_eq (h.lt_256 (poolDataMask_lt h))] at hmem
      refine ⟨_, _, _, home_data h8 hp, hwr, if_pos hmem, fun b' m' c' hb' hne hh => ?_⟩
      refine Or.inr fun hc => ?_
      obtain ⟨p', -, hp', -, hpc, -⟩ := hother b' m' c' hb' hne hh hc
      rw [poolMapDataBlock_mirror hprof] at hp hp'
      rw [(poolMapMirror_spec hp).2, (poolMapMirror_spec hp').2] at hpc
      exact hne hpc
    · refine ⟨_, _, _, home_data h8 hp, hwr, if_pos rfl, fun b' m' c' hb' hne hh => ?_⟩
      by_cases hc : c' = p.memberBlock
      · obtain ⟨p', h8', hp', rfl, hpc, hm⟩ := hother b' m' c' hb' hne hh hc
        rw [poolMapDataBlock_parity hprof] at hp hp'
        refine Or.inl ?_
        rw [if_neg hm, if_neg (poolMapParity_data_ne_parity h h8' hb' h8 hb hp' hp hpc)]
      · exact Or.inr hc

omit [BlockDev δ] [LawfulBlockDev δ] in
theorem home_member_lt {img : Image δ} (h : LabelOk img.poolLabel) {b m c : Nat}
    (hb : b < 2 ^ 64) (hh : home img b = .ok (m, c)) : m < img.memberCount := by
  rcases home_cases h hb hh with ⟨-, -, hm⟩ | ⟨h8, -, p, hp, rfl, -⟩
  · rw [maskMembers_eq (h.lt_256 (poolRoleMask_lt h b))] at hm
    exact mem_setBits_lt (poolRoleMask_lt_open img b) hm
  · exact mem_setBits_lt (poolDataMask_lt_open img) (poolMapDataBlock_slot h h8 hb hp).1

omit [LawfulBlockDev δ] in
/-- A data block that can be read has a home, and is read there. -/
theorem exists_home_of_read {img : Image δ} {b : Nat} {x : Block} (h8 : 8 ≤ b)
    (hread : imageReadBlock img b = .ok x) : ∃ m c, home img b = .ok (m, c) ∧
      imageReadPhysicalMember img m c = .ok x := by
  unfold imageReadBlock at hread
  rw [if_neg (Nat.not_lt.mpr h8)] at hread
  obtain ⟨p, hp, hread⟩ := bind_eq_ok.mp hread
  exact ⟨p.memberIndex, p.memberBlock, home_data h8 hp, hread⟩

/-- **What is read after a write**: the buffer, and every data block that is stored apart from it
as before. -/
theorem imageWriteBlock_reads {img img' : Image δ} (h : LabelOk img.poolLabel) {block : Nat}
    (hb : block < 2 ^ 64) {buf : Block} (hw : imageWriteBlock block buf img = .ok () img') :
    imageReadBlock img' block = .ok buf ∧ ∀ {b' x}, 8 ≤ b' → b' < 2 ^ 64 → b' ≠ block →
      (∀ m c m' c', home img block = .ok (m, c) → home img b' = .ok (m', c') →
        LawfulBlockDev.slot δ c' = LawfulBlockDev.slot δ c → c' = c) →
      imageReadBlock img b' = .ok x → imageReadBlock img' b' = .ok x := by
  obtain ⟨m, c, put, hh, hwr, hput, hmiss⟩ := imageWriteBlock_home h hb hw
  obtain ⟨devs, rfl⟩ := hwr.frame
  constructor
  · refine imageReadBlock_of_home ((home_withDevs img devs block).trans hh) ?_
    have hm : m < (img.withDevs devs).memberCount := home_member_lt h hb hh
    rw [imageReadPhysicalMember_of_lt hm]
    exact hwr.hit hput rfl
  · intro b' x h8 hb' hne hapart hread
    obtain ⟨m', c', hh', hold⟩ := exists_home_of_read h8 hread
    have hm' := home_member_lt h hb' hh'
    have hm'' : m' < (img.withDevs devs).memberCount := hm'
    rw [imageReadPhysicalMember_of_lt hm'] at hold
    refine imageReadBlock_of_home ((home_withDevs img devs b').trans hh') ?_
    rw [imageReadPhysicalMember_of_lt hm'']
    refine hwr.miss ?_ hold
    rcases hmiss b' m' c' hb' hne hh' with hnone | hc
    · exact Or.inl hnone
    · exact Or.inr fun hslot => hc (hapart m c m' c' hh hh' hslot)

end Transfer

/-! ## 6. The refinement: one flat array of blocks

From here on a member is an array of blocks, and the reads of the pool are compared with the
history of its writes. -/

section Flat

variable {img img' : Image BlockArray}

/-- The buffer of the last write to `b`. -/
def lastWrite : List (Nat × Block) → Nat → Option Block
  | [], _ => none
  | w :: ws, b => (lastWrite ws b).or (if w.1 = b then some w.2 else none)

/-- **The step.**  A write is seen by the reads of its own block, and by no others. -/
theorem imageReadBlock_write (h : LabelOk img.poolLabel) {block : Nat} (hb : block < 2 ^ 64)
    {buf : Block} (hw : imageWriteBlock block buf img = .ok () img') {b' : Nat}
    (hb' : b' < 2 ^ 64) :
    imageReadBlock img' b' = if b' = block then .ok buf else imageReadBlock img b' := by
  obtain ⟨m, c, put, hh, hwr, hput, hmiss⟩ := imageWriteBlock_home h hb hw
  obtain ⟨devs, rfl⟩ := hwr.frame
  split
  · rename_i heq
    subst heq
    refine imageReadBlock_of_home ((home_withDevs img devs b').trans hh) ?_
    have hm : m < (img.withDevs devs).memberCount := home_member_lt h hb hh
    rw [imageReadPhysicalMember_of_lt hm]
    exact hwr.hit hput rfl
  · rename_i hne
    cases hh' : home img b' with
    | error e =>
      rw [imageReadBlock_of_no_home hh',
        imageReadBlock_of_no_home ((home_withDevs img devs b').trans hh')]
    | ok mc =>
      obtain ⟨m', c'⟩ := mc
      have hm' := home_member_lt h hb' hh'
      have hold : imageReadPhysicalMember img m' c' = .ok ((img.members m').dev c') :=
        imageReadPhysicalMember_of_lt hm' c'
      rw [imageReadBlock_of_home hh' hold]
      refine imageReadBlock_of_home ((home_withDevs img devs b').trans hh') ?_
      have hm'' : m' < (img.withDevs devs).memberCount := hm'
      rw [imageReadPhysicalMember_of_lt hm'']
      exact hwr.miss (hmiss b' m' c' hb' hne hh') rfl

theorem imageWriteBlock_label {δ : Type} [BlockDev δ] [LawfulBlockDev δ] {img img' : Image δ}
    {block : Nat} {buf : Block} (hw : imageWriteBlock block buf img = .ok () img') :
    ∃ devs, img' = img.withDevs devs := by
  rcases imageWriteBlock_cases hw with ⟨-, -, h⟩ | ⟨-, _, -, ⟨-, h⟩ | ⟨-, h⟩ | ⟨-, _, _, -, -, h⟩⟩
  all_goals exact h.frame

theorem imageWritePhysicalMember_array {m : Nat} (hm : m < img.memberCount) (block : Nat)
    (buf : Block) : imageWritePhysicalMember m block buf img =
      .ok () (img.setDev m (Function.update (img.members m).dev block buf)) :=
  if_neg (Nat.not_le.mpr hm)

theorem writeMembers_array {block : Nat} {buf : Block} {ms : List Nat} :
    (∀ m ∈ ms, m < img.memberCount) → ∃ img', writeMembers block buf ms img = .ok () img' := by
  induction ms generalizing img with
  | nil => exact fun _ => ⟨img, rfl⟩
  | cons m ms ih =>
    intro hms
    have h1 := imageWritePhysicalMember_array (hms m List.mem_cons_self) block buf
    obtain ⟨img', h2⟩ := @ih (img.setDev m (Function.update (img.members m).dev block buf))
      fun i hi => hms i (List.mem_cons_of_mem _ hi)
    exact ⟨img', estate_bind_ok.mpr ⟨(), _, h1, h2⟩⟩

theorem writeParity_array {p : PoolMapping} (hm : p.memberIndex < img.memberCount)
    (hpm : p.parityMemberIndex < img.memberCount) (buf : Block) :
    ∃ img', writeParity p buf img = .ok () img' := by
  have hread : ∀ i, i < img.memberCount → imageReadPhysicalMember img i p.memberBlock
      = .ok ((img.members i).dev p.memberBlock) := fun i hi => imageReadPhysicalMember_of_lt hi _
  have h1 := imageWritePhysicalMember_array hpm p.memberBlock
    (xorBytes (xorBytes ((img.members p.parityMemberIndex).dev p.memberBlock)
      ((img.members p.memberIndex).dev p.memberBlock)) buf)
  have h2 := fun d => @imageWritePhysicalMember_array (img.setDev p.parityMemberIndex d) _ hm
    p.memberBlock buf
  exact ⟨_, estate_bind_ok.mpr ⟨_, _, liftRead_ok.mpr ⟨hread _ hm, rfl⟩, estate_bind_ok.mpr
    ⟨_, _, liftRead_ok.mpr ⟨hread _ hpm, rfl⟩, estate_bind_ok.mpr ⟨(), _, h1, h2 _⟩⟩⟩⟩

theorem imageWriteBlock_array (h : LabelOk img.poolLabel) (hwrit : img.writable = true)
    {block m c : Nat} (hb : block < 2 ^ 64) (hh : home img block = .ok (m, c)) (buf : Block) :
    ∃ img', imageWriteBlock block buf img = .ok () img' := by
  have hmem : ∀ {mask}, mask < 2 ^ plMemberCount img.poolLabel → mask < 2 ^ img.memberCount →
      ∀ i ∈ maskMembers mask, i < img.memberCount := fun h1 h2 i hi => by
    rw [maskMembers_eq (h.lt_256 h1)] at hi
    exact mem_setBits_lt h2 hi
  unfold imageWriteBlock
  rw [if_neg (by simp [hwrit])]
  rcases home_cases h hb hh with ⟨hlt, -, hm⟩ | ⟨h8, -, p, hp, -, -⟩
  · have hne : poolRoleMaskForBootstrapBlock img block ≠ 0 := fun h0 => by
      rw [h0] at hm
      exact absurd hm (by simp [maskMembers_eq, setBits])
    simp only
    rw [if_pos hlt, if_neg hne]
    exact writeMembers_array (hmem (poolRoleMask_lt h block) (poolRoleMask_lt_open img block))
  · have hlt := mem_setBits_lt (poolDataMask_lt_open img) (poolMapDataBlock_slot h h8 hb hp).1
    rw [if_neg (Nat.not_lt.mpr h8), hp]
    simp only
    split
    · exact ⟨_, imageWritePhysicalMember_array hlt _ _⟩
    · split
      · exact writeMembers_array (hmem (poolDataMask_lt h) (poolDataMask_lt_open img))
      · rename_i hns hnm
        have hle : poolProfile img ≤ 4 := h.profile_le
        simp only [poolProfileSingle, poolProfileTiered, poolProfileStripe, poolProfileMirror]
          at hns hnm
        have hpar : poolProfile img = 3 := by omega
        rw [if_pos hpar]
        rw [poolMapDataBlock_parity hpar] at hp
        obtain ⟨_, _, -, -, -, -, hpm, -⟩ := poolMapParity_spec h h8 hb hp
        exact writeParity_array hlt (mem_setBits_lt (poolDataMask_lt_open img) (maskNth_mem hpm)) buf

/-- **A pool is one flat array of blocks.**  After any sequence of successful writes a block
reads as the last buffer written to it, or as it did at the start. -/
theorem writeBlocks_flat (hlabel : poolLabelValidate img.poolLabel = .ok ())
    {ws : List (Nat × Block)} (hws : ∀ w ∈ ws, w.1 < 2 ^ 64)
    (hrun : writeBlocks ws img = .ok () img') {b : Nat} (hb : b < 2 ^ 64) :
    imageReadBlock img' b =
      match lastWrite ws b with
      | some buf => .ok buf
      | none => imageReadBlock img b := by
  induction ws generalizing img with
  | nil =>
    obtain ⟨-, rfl⟩ := EStateM.Result.ok.inj hrun
    rfl
  | cons w ws ih =>
    rw [writeBlocks, estate_bind_ok] at hrun
    obtain ⟨_, img1, h1, h2⟩ := hrun
    obtain ⟨devs, hframe⟩ := imageWriteBlock_label h1
    have hlabel1 : poolLabelValidate img1.poolLabel = .ok () := by rw [hframe]; exact hlabel
    rw [ih hlabel1 (fun w' hw' => hws w' (List.mem_cons_of_mem _ hw')) h2, lastWrite]
    cases lastWrite ws b with
    | some buf => rfl
    | none =>
      rw [Option.none_or, imageReadBlock_write (labelOk_of_validate hlabel)
        (hws w List.mem_cons_self) h1 hb]
      by_cases hwb : b = w.1
      · rw [if_pos hwb, if_pos hwb.symm]
      · rw [if_neg hwb, if_neg (Ne.symm hwb)]

end Flat

/-- A write to block 8 of the parity pool updates a parity block on another member; block 12,
whose row has its parity on the member just written, reads as before. -/
theorem parityPool_flat : let img : Image BlockArray := parityPool (fun _ _ => zeros 4096)
    ∃ img', writeBlocks [(8, fun _ => 1)] img = .ok () img' ∧
      imageReadBlock img' 8 = .ok (fun _ => 1) ∧
      imageReadBlock img' 12 = imageReadBlock img 12 := by
  intro img
  obtain ⟨hmap, -⟩ := parityPool_map (fun _ _ => zeros 4096 : Nat → BlockArray)
  obtain ⟨hlabel, -⟩ := parityPool_label (fun _ _ => zeros 4096 : Nat → BlockArray)
  obtain ⟨img', hw⟩ := imageWriteBlock_array (labelOk_of_validate hlabel) rfl (by norm_num)
    (home_data (by norm_num) hmap) (fun _ => 1)
  have hrun : writeBlocks [(8, fun _ => 1)] img = .ok () img' :=
    estate_bind_ok.mpr ⟨(), img', hw, rfl⟩
  have hws : ∀ w ∈ [((8, fun _ => 1) : Nat × Block)], w.1 < 2 ^ 64 := by simp
  exact ⟨img', hrun, writeBlocks_flat hlabel hws hrun (by norm_num),
    writeBlocks_flat hlabel hws hrun (by norm_num)⟩

/-! ## 7. Writes to regular files

A regular file takes every block whose offset is an `off_t`. -/

section Files

variable {img : Image ByteFile}

/-- Every member is a regular file. -/
def Regular (img : Image ByteFile) : Prop := ∀ m, (img.members m).dev.kind = .regular

theorem imageWritePhysicalMember_file (hk : Regular img) {m : Nat} (hm : m < img.memberCount)
    {block : Nat} (ho : ByteFile.offsetOf block + 4096 < 2 ^ 63) (buf : Block) :
    ∃ d, imageWritePhysicalMember m block buf img = .ok () (img.setDev m d) ∧
      Regular (img.setDev m d) := by
  obtain ⟨d, hd⟩ := ByteFile.writeAll_total (hk m) ho buf
  have hw : BlockDev.write (img.members m).dev block buf = (.ok (), d) := hd
  refine ⟨d, ?_, fun i => ?_⟩
  · rw [imageWritePhysicalMember, if_neg (Nat.not_le.mpr hm), hw]
  · by_cases hi : i = m
    · subst hi
      simpa [Image.setDev] using (ByteFile.writeAll_eq_ok hd).2.1.trans (hk i)
    · simpa [Image.setDev, hi] using hk i

theorem writeMembers_file {block : Nat} (ho : ByteFile.offsetOf block + 4096 < 2 ^ 63)
    (buf : Block) {ms : List Nat} : Regular img → (∀ m ∈ ms, m < img.memberCount) →
      ∃ img', writeMembers block buf ms img = .ok () img' ∧ Regular img' := by
  induction ms generalizing img with
  | nil => exact fun hk _ => ⟨img, rfl, hk⟩
  | cons m ms ih =>
    intro hk hms
    obtain ⟨d, h1, hk1⟩ := imageWritePhysicalMember_file hk (hms m List.mem_cons_self) ho buf
    obtain ⟨img', h2, hk2⟩ := ih hk1 fun i hi => hms i (List.mem_cons_of_mem _ hi)
    exact ⟨img', estate_bind_ok.mpr ⟨(), _, h1, h2⟩, hk2⟩

end Files

end AetherFs
