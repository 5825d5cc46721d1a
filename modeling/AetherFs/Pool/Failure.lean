/-
# Writes that fail

`aetherfs_image_write_block` is a sequence of physical writes with a return after each: every
replica of a bootstrap block, every data member of a mirror, the parity member and then the data
member of a parity row.  Nothing is undone when one of them fails.  This module asks what a failed
call leaves behind on devices whose failed writes have no effect (`AtomicBlockDev`).

* `Intact` is the redundancy of the whole image: its bootstrap replicas, its mirrored blocks, its
  parity rows.  `Kept img img'` says that `img'` is intact and that every logical block reads as in
  `img`.
* `firstWrite` is the first physical write a call attempts.  A call that fails before it or at it
  has changed nothing (`FailedWrite.unwritten`); a call that fails later has already changed
  what its block reads as (replicas, mirrors) or the xor of its row (parity), unless the buffer was
  the block's content to begin with.

So the redundancy of the image survives a failed call exactly when the first write failed or the
call was writing what was there.
-/
import AetherFs.Pool.Redundancy

namespace AetherFs

open Lib

/-! ## 1. Devices whose failed writes have no effect -/

/-- A failed write changes nothing, and neither does writing what can be read. -/
class AtomicBlockDev (δ : Type) [BlockDev δ] : Prop where
  write_error : ∀ {d d' : δ} {b : Nat} {buf : Block} {e : Fail},
    BlockDev.write d b buf = (.error e, d') → d' = d
  write_same : ∀ {d d' : δ} {b : Nat} {buf : Block},
    BlockDev.read d b = .ok buf → BlockDev.write d b buf = (.ok (), d') → d' = d

/-- A file some of whose writes are refused, by block number, with the error they are refused
with. -/
structure FlakyFile where
  file : ByteFile
  refuses : Nat → Option Errno

namespace FlakyFile

/-- A write that is refused, or that the file cannot take, leaves the file as it was. -/
def write (d : FlakyFile) (block : Nat) (buf : Block) : Except Fail Unit × FlakyFile :=
  match d.refuses block with
  | some e => (.error (.sys e), d)
  | none =>
    match BlockDev.write d.file block buf with
    | (.ok _, file) => (.ok (), { d with file := file })
    | (.error e, _) => (.error e, d)

instance : BlockDev FlakyFile where
  read d block := BlockDev.read d.file block
  write := write

theorem write_eq_ok {d d' : FlakyFile} {b : Nat} {buf : Block} :
    BlockDev.write d b buf = (.ok (), d') ↔
      d.refuses b = none ∧ ∃ file, BlockDev.write d.file b buf = (.ok (), file) ∧
        d' = { d with file := file } := by
  change write d b buf = (.ok (), d') ↔ _
  unfold write
  cases d.refuses b with
  | some e => simp
  | none =>
    rcases BlockDev.write d.file b buf with ⟨_ | _, file⟩
    · simp
    · simp [eq_comm]

theorem write_refused {d : FlakyFile} {b : Nat} {e : Errno} (h : d.refuses b = some e)
    (buf : Block) : BlockDev.write d b buf = (.error (.sys e), d) := by
  change write d b buf = _
  rw [write, h]

instance : LawfulBlockDev FlakyFile where
  slot b := LawfulBlockDev.slot ByteFile b
  read_write_self := by
    intro d d' b b' buf h hslot
    obtain ⟨-, file, hw, rfl⟩ := write_eq_ok.mp h
    have hslot : LawfulBlockDev.slot ByteFile b' = LawfulBlockDev.slot ByteFile b := hslot
    have hread := LawfulBlockDev.read_write_self hw hslot
    exact hread
  read_write_ne := by
    intro d d' b b' buf x h hne hx
    obtain ⟨-, file, hw, rfl⟩ := write_eq_ok.mp h
    have hne : LawfulBlockDev.slot ByteFile b' ≠ LawfulBlockDev.slot ByteFile b := hne
    have hread := LawfulBlockDev.read_write_ne hw hne hx
    exact hread

instance : AtomicBlockDev FlakyFile where
  write_error := by
    intro d d' b buf e h
    change write d b buf = _ at h
    unfold write at h
    split at h
    · exact (Prod.mk.inj h).2.symm
    · split at h
      · exact absurd (Prod.mk.inj h).1 (by simp)
      · exact (Prod.mk.inj h).2.symm
  write_same := by
    intro d d' b buf hread h
    obtain ⟨-, file, hw, rfl⟩ := write_eq_ok.mp h
    obtain ⟨hin, rfl⟩ := ByteFile.readAll_eq_ok.mp hread
    obtain ⟨-, hkind, hsize, hbyte⟩ := ByteFile.writeAll_eq_ok hw
    have hfile : file = d.file := by
      refine ByteFile.ext hkind (by rw [hsize, Nat.max_eq_left hin]) fun i _ => ?_
      rw [hbyte i]
      split
      · rename_i hi
        have hlt : i - ByteFile.offsetOf b < 4096 := by omega
        rw [byteAt_lt _ hlt, ByteFile.blockAt]
        exact congrArg d.file.byte (Nat.add_sub_of_le hi.1)
      · rfl
    rw [hfile]

end FlakyFile

section Failure

variable {δ : Type} [BlockDev δ]

/-! ## 2. What a failed call should keep -/

/-- The redundancy of the whole image, below `image->blocks`.  As for the checker, the label block
is not compared: its replicas name their own member. -/
structure Intact (img : Image δ) : Prop where
  bootstrap : ∀ b, 1 ≤ b → b < 8 → 1 < maskCount (poolRoleMaskForBootstrapBlock img b) →
    Uniform img (setBits 8 (poolRoleMaskForBootstrapBlock img b)) b
  mirror : poolProfile img = poolProfileMirror → 1 < maskCount (poolDataMask img) →
    ∀ b, 8 ≤ b → b < img.blocks → Uniform img (setBits 8 (poolDataMask img)) b
  parity : poolProfile img = poolProfileParity → ∀ b p, 8 ≤ b → b < img.blocks →
    poolMapParity img b = .ok p → Balanced img (setBits 8 (poolDataMask img)) p.memberBlock

/-- `img'` is intact, and every logical block reads as it does in `img`. -/
structure Kept (img img' : Image δ) : Prop where
  intact : Intact img'
  reads : ∀ b, b < img.blocks → imageReadBlock img' b = imageReadBlock img b

/-- The first physical write of a call: member, physical block and contents.  A call that ends
before any physical write has none. -/
def firstWrite (img : Image δ) (block : Nat) (buf : Block) : Except Fail (Nat × Nat × Block) :=
  if img.writable = false then .error (.check .EBADF)
  else if block < dataStartBlock then
    match (maskMembers (poolRoleMaskForBootstrapBlock img block)).head? with
    | some m => .ok (m, block, buf)
    | none => .error (.check .EINVAL)
  else do
    let mapping ← poolMapDataBlock img block
    if poolProfile img = poolProfileParity then do
      let oldData ← imageReadPhysicalMember img mapping.memberIndex mapping.memberBlock
      let oldParity ← imageReadPhysicalMember img mapping.parityMemberIndex mapping.memberBlock
      .ok (mapping.parityMemberIndex, mapping.memberBlock,
        xorBytes (xorBytes oldParity oldData) buf)
    else .ok (mapping.memberIndex, mapping.memberBlock, buf)

/-- The first physical write is reached, and succeeds. -/
def FirstWritten (img : Image δ) (block : Nat) (buf : Block) : Prop :=
  ∃ m c x img1, firstWrite img block buf = .ok (m, c, x) ∧
    imageWritePhysicalMember m c x img = .ok () img1

theorem not_firstWritten_of_none {img : Image δ} {block : Nat} {buf : Block} {e : Fail}
    (h : firstWrite img block buf = .error e) : ¬ FirstWritten img block buf := by
  rintro ⟨m, c, x, img1, hf, -⟩
  rw [h] at hf
  exact absurd hf (by simp)

theorem not_firstWritten_of_error {img img' : Image δ} {block m c : Nat} {buf x : Block} {e : Fail}
    (h : firstWrite img block buf = .ok (m, c, x))
    (hw : imageWritePhysicalMember m c x img = .error e img') : ¬ FirstWritten img block buf := by
  rintro ⟨m', c', x', img1, hf, hok⟩
  rw [h] at hf
  obtain ⟨rfl, hcx⟩ := Prod.mk.inj (Except.ok.inj hf)
  obtain ⟨rfl, rfl⟩ := Prod.mk.inj hcx
  rw [hw] at hok
  exact absurd hok (by simp)

/-! ## 3. One physical write -/

variable [AtomicBlockDev δ] {img img' : Image δ}

omit [BlockDev δ] [AtomicBlockDev δ] in
theorem Image.setDev_self (img : Image δ) (m : Nat) : img.setDev m (img.members m).dev = img := by
  unfold Image.setDev
  rw [Function.update_eq_self]

theorem imageWritePhysicalMember_error {m c : Nat} {buf : Block} {e : Fail}
    (h : imageWritePhysicalMember m c buf img = .error e img') : img' = img := by
  unfold imageWritePhysicalMember at h
  split at h
  · exact (EStateM.Result.error.inj h).2.symm
  · split at h
    · exact absurd h (by simp)
    · rename_i d hd
      obtain ⟨-, rfl⟩ := EStateM.Result.error.inj h
      rw [AtomicBlockDev.write_error hd, Image.setDev_self]

theorem imageWritePhysicalMember_same {m c : Nat} {buf : Block}
    (hread : imageReadPhysicalMember img m c = .ok buf)
    (h : imageWritePhysicalMember m c buf img = .ok () img') : img' = img := by
  obtain ⟨hm, hread⟩ := imageReadPhysicalMember_ok hread
  unfold imageWritePhysicalMember at h
  rw [if_neg (Nat.not_le.mpr hm)] at h
  split at h
  · rename_i d hd
    obtain ⟨-, rfl⟩ := EStateM.Result.ok.inj h
    rw [AtomicBlockDev.write_same hread hd, Image.setDev_self]
  · exact absurd h (by simp)

/-! ## 4. The member loop, cut short -/

/-- Which write of the loop failed: the first, or one after it. -/
theorem writeMembers_error_cases {c : Nat} {buf : Block} {ms : List Nat} {e : Fail}
    (h : writeMembers c buf ms img = .error e img') :
    ∃ m rest, ms = m :: rest ∧ ((imageWritePhysicalMember m c buf img = .error e img' ∧ img' = img) ∨
      ∃ img1, imageWritePhysicalMember m c buf img = .ok () img1 ∧
        writeMembers c buf rest img1 = .error e img') := by
  cases ms with
  | nil => exact absurd h (by simp [writeMembers, pure, EStateM.pure])
  | cons m rest =>
    refine ⟨m, rest, rfl, ?_⟩
    rw [writeMembers, estate_bind_error] at h
    rcases h with h | ⟨_, img1, h1, h2⟩
    · exact Or.inl ⟨h, imageWritePhysicalMember_error h⟩
    · exact Or.inr ⟨img1, h1, h2⟩

/-- Members that hold the buffer already are not changed by receiving it. -/
theorem writeMembers_same {c : Nat} {buf : Block} {e : Fail} : ∀ {ms : List Nat},
    (∀ m ∈ ms, imageReadPhysicalMember img m c = .ok buf) →
      writeMembers c buf ms img = .error e img' → img' = img := by
  intro ms
  induction ms with
  | nil =>
    intro _ h
    exact absurd h (by simp [writeMembers, pure, EStateM.pure])
  | cons m ms ih =>
    intro hread h
    obtain ⟨hm, hms⟩ := List.forall_mem_cons.mp hread
    rw [writeMembers, estate_bind_error] at h
    rcases h with h | ⟨_, img1, h1, h2⟩
    · exact imageWritePhysicalMember_error h
    · rw [imageWritePhysicalMember_same hm h1] at h2
      exact ih hms h2

variable [LawfulBlockDev δ]

/-- A loop over one physical block does not take the buffer away from a member that has it. -/
theorem writeMembers_error_read {c m : Nat} {buf : Block} {e : Fail} {ms : List Nat}
    (hread : imageReadPhysicalMember img m c = .ok buf)
    (h : writeMembers c buf ms img = .error e img') :
    (∃ devs, img' = img.withDevs devs) ∧ imageReadPhysicalMember img' m c = .ok buf := by
  induction ms generalizing img with
  | nil => exact absurd h (by simp [writeMembers, pure, EStateM.pure])
  | cons i ms ih =>
    rw [writeMembers, estate_bind_error] at h
    rcases h with h | ⟨_, img1, h1, h2⟩
    · obtain rfl := imageWritePhysicalMember_error h
      exact ⟨⟨fun k => (img'.members k).dev, rfl⟩, hread⟩
    · have hwr := imageWritePhysicalMember_wrote h1
      have hread1 : imageReadPhysicalMember img1 m c = .ok buf := by
        by_cases hi : m = i
        · exact hwr.read_hit (imageReadPhysicalMember_ok hread).1 (if_pos hi) rfl
        · exact hwr.read_miss (Or.inl (if_neg hi)) hread
      obtain ⟨⟨devs', rfl⟩, hfinal⟩ := ih hread1 h2
      obtain ⟨devs, rfl⟩ := hwr.frame
      exact ⟨⟨devs', rfl⟩, hfinal⟩

/-- A loop that got past its first member: that member holds the buffer. -/
theorem writeMembers_partial {c m : Nat} {buf : Block} {e : Fail} {ms : List Nat} {img1 : Image δ}
    (hm : m < img.memberCount) (h1 : imageWritePhysicalMember m c buf img = .ok () img1)
    (h2 : writeMembers c buf ms img1 = .error e img') :
    (∃ devs, img' = img.withDevs devs) ∧ imageReadPhysicalMember img' m c = .ok buf := by
  have hwr := imageWritePhysicalMember_wrote h1
  obtain ⟨⟨devs', rfl⟩, hread⟩ := writeMembers_error_read (hwr.read_hit hm (if_pos rfl) rfl) h2
  obtain ⟨devs, rfl⟩ := hwr.frame
  exact ⟨⟨devs', rfl⟩, hread⟩

/-- **Replicas, cut short.**  `m` is the home of the block and the replicas agreed.  What is left
is kept if and only if the block held the buffer. -/
theorem replicas_kept_iff {block c m : Nat} {buf : Block} {e : Fail} {ms : List Nat}
    {img1 : Image δ} (hI : Intact img) (hin : block < img.blocks)
    (hhome : home img block = .ok (m, c)) (hu : Uniform img (m :: ms) c)
    (h1 : imageWritePhysicalMember m c buf img = .ok () img1)
    (h2 : writeMembers c buf ms img1 = .error e img') :
    Kept img img' ↔ imageReadBlock img block = .ok buf := by
  obtain ⟨x, hx⟩ := hu
  have hm := hx m List.mem_cons_self
  have hold : imageReadBlock img block = .ok x := imageReadBlock_of_home hhome hm
  constructor
  · intro hkept
    obtain ⟨⟨devs, rfl⟩, hread⟩ := writeMembers_partial (imageReadPhysicalMember_ok hm).1 h1 h2
    have hnew := imageReadBlock_of_home ((home_withDevs img devs block).trans hhome) hread
    rw [← hkept.reads block hin, hnew]
  · intro hbuf
    obtain rfl : x = buf := Except.ok.inj (hold.symm.trans hbuf)
    have hsame : img1 = img := imageWritePhysicalMember_same hm h1
    subst hsame
    obtain rfl := writeMembers_same (fun i hi => hx i (List.mem_cons_of_mem _ hi)) h2
    exact ⟨hI, fun _ _ => rfl⟩

/-! ## 5. A parity row, cut short -/

omit [AtomicBlockDev δ] in
/-- A row whose parity block alone was replaced is balanced if and only if the new block is the
old one. -/
theorem Balanced.parity_eq {c p : Nat} {old new : Block} {ms : List Nat} (hp : p ∈ ms)
    (hold : imageReadPhysicalMember img p c = .ok old)
    (hwr : Wrote img img' c (fun m => if m = p then some new else none))
    (hu : Balanced img ms c) (hnd : ms.Nodup) (hu' : Balanced img' ms c) : new = old := by
  obtain ⟨f, hf, hz⟩ := hu
  obtain ⟨f', hf', hz'⟩ := hu'
  have hfp : f p = old := Except.ok.inj ((hf p hp).symm.trans hold)
  have hfp' : f' p = new := by
    have hlt := (imageReadPhysicalMember_ok hold).1
    exact Except.ok.inj ((hf' p hp).symm.trans (hwr.read_hit hlt (if_pos rfl) rfl))
  have hrest : (ms.erase p).map f' = (ms.erase p).map f := by
    refine List.map_congr_left fun m hm => ?_
    obtain ⟨hne, hmem⟩ := hnd.mem_erase_iff.mp hm
    exact Except.ok.inj ((hf' m hmem).symm.trans
      (hwr.read_miss (Or.inl (if_neg hne)) (hf m hmem)))
  have hsum : ∀ g : Nat → Block, xorAll (ms.map g) = zeros 4096 →
      g p = xorAll ((ms.erase p).map g) := by
    intro g hg
    rw [xorAll_perm ((List.perm_cons_erase hp).map g), List.map_cons, xorAll_cons] at hg
    calc g p = xorBytes (g p) (xorBytes (xorAll ((ms.erase p).map g))
            (xorAll ((ms.erase p).map g))) := by rw [xorBytes_self, xorBytes_zeros]
      _ = xorAll ((ms.erase p).map g) := by rw [← xorBytes_assoc, hg, zeros_xorBytes]
  rw [← hfp', ← hfp, hsum f' hz', hsum f hz, hrest]

omit [BlockDev δ] [AtomicBlockDev δ] [LawfulBlockDev δ] in
/-- The update formula leaves a parity block alone exactly for the old data. -/
theorem parity_update_eq_iff {parity data buf : Block} :
    xorBytes (xorBytes parity data) buf = parity ↔ data = buf := by
  constructor
  · intro h
    calc data = xorBytes (xorBytes parity parity) data := by rw [xorBytes_self, zeros_xorBytes]
      _ = xorBytes (xorBytes (xorBytes (xorBytes parity data) buf) parity) data := by rw [h]
      _ = xorBytes (xorBytes (xorBytes parity data) (xorBytes parity data)) buf := by
        rw [xorBytes_assoc _ parity data, xorBytes_assoc _ buf, xorBytes_comm buf,
          ← xorBytes_assoc]
      _ = buf := by rw [xorBytes_self, zeros_xorBytes]
  · rintro rfl
    rw [xorBytes_assoc, xorBytes_self, xorBytes_zeros]

/-- **A parity row, cut short** after its parity block was replaced. -/
theorem parity_kept_iff (h : LabelOk img.poolLabel) {block : Nat} {p : PoolMapping}
    {buf oldData oldParity : Block} (hI : Intact img) (hb : block < 2 ^ 64) (h8 : 8 ≤ block)
    (hin : block < img.blocks) (hprof : poolProfile img = 3)
    (hp : poolMapDataBlock img block = .ok p)
    (hd : imageReadPhysicalMember img p.memberIndex p.memberBlock = .ok oldData)
    (hpar : imageReadPhysicalMember img p.parityMemberIndex p.memberBlock = .ok oldParity)
    (hw : imageWritePhysicalMember p.parityMemberIndex p.memberBlock
      (xorBytes (xorBytes oldParity oldData) buf) img = .ok () img') :
    Kept img img' ↔ imageReadBlock img block = .ok buf := by
  have hold : imageReadBlock img block = .ok oldData :=
    imageReadBlock_of_home (home_data h8 hp) hd
  rw [hold, Except.ok.injEq]
  have hrow := hp
  rw [poolMapDataBlock_parity hprof] at hrow
  constructor
  · intro hkept
    have hwr := imageWritePhysicalMember_wrote hw
    obtain ⟨_, _, -, -, -, -, hpi, -⟩ := poolMapParity_spec h h8 hb hrow
    have hnew : Balanced img' (setBits 8 (poolDataMask img)) p.memberBlock := by
      obtain ⟨devs, rfl⟩ := hwr.frame
      have hprof' : poolProfile (img.withDevs devs) = 3 := hprof
      refine hkept.intact.parity hprof block p h8 hin ?_
      rw [← poolMapDataBlock_parity hprof', poolMapDataBlock_withDevs, hp]
    exact parity_update_eq_iff.mp (Balanced.parity_eq (maskNth_mem hpi) hpar hwr
      (hI.parity hprof block p h8 hin hrow) (setBits_nodup 8 _) hnew)
  · intro hbuf
    rw [parity_update_eq_iff.mpr hbuf] at hw
    obtain rfl := imageWritePhysicalMember_same hpar hw
    exact ⟨hI, fun _ _ => rfl⟩

/-! ## 6. The whole call -/

/-- How a call fails: nothing was written; or a loop over replicas got past its first member, the
block's home; or a parity block was replaced and its data block was not. -/
inductive FailedWrite (img img' : Image δ) (block : Nat) (buf : Block) : Prop
  | unwritten (hfirst : ¬ FirstWritten img block buf) (hsame : img' = img)
  | replicas (hfirst : FirstWritten img block buf) {mask m c : Nat} {ms : List Nat} {img1 : Image δ} {e : Fail}
      (hms : maskMembers mask = m :: ms) (hhome : home img block = .ok (m, c)) (hc : c = block)
      (hmask : (block < 8 ∧ mask = poolRoleMaskForBootstrapBlock img block) ∨
        (8 ≤ block ∧ poolProfile img = 1 ∧ mask = poolDataMask img))
      (h1 : imageWritePhysicalMember m c buf img = .ok () img1)
      (h2 : writeMembers c buf ms img1 = .error e img')
  | parity (hfirst : FirstWritten img block buf) {p : PoolMapping} {oldData oldParity : Block}
      (h8 : 8 ≤ block) (hprof : poolProfile img = 3) (hp : poolMapDataBlock img block = .ok p)
      (hd : imageReadPhysicalMember img p.memberIndex p.memberBlock = .ok oldData)
      (hpar : imageReadPhysicalMember img p.parityMemberIndex p.memberBlock = .ok oldParity)
      (hw : imageWritePhysicalMember p.parityMemberIndex p.memberBlock
        (xorBytes (xorBytes oldParity oldData) buf) img = .ok () img')

section Cases

variable {block : Nat} {buf : Block} {e : Fail}

omit [LawfulBlockDev δ] in
theorem failedWrite_bootstrap (hro : ¬ img.writable = false) (hb : block < 8)
    (hw : writeMembers block buf (maskMembers (poolRoleMaskForBootstrapBlock img block)) img
      = .error e img') : FailedWrite img img' block buf := by
  obtain ⟨m, ms, hms, hcase⟩ := writeMembers_error_cases hw
  have hfirst : firstWrite img block buf = .ok (m, block, buf) := by
    rw [firstWrite, if_neg hro, if_pos hb, hms]
    rfl
  rcases hcase with ⟨hm, rfl⟩ | ⟨img1, h1, h2⟩
  · exact .unwritten (not_firstWritten_of_error hfirst hm) rfl
  · refine .replicas ⟨_, _, _, _, hfirst, h1⟩ hms ?_ rfl (Or.inl ⟨hb, rfl⟩) h1 h2
    rw [home, if_pos hb, hms]
    rfl

omit [AtomicBlockDev δ] [LawfulBlockDev δ] in
/-- Outside the parity profile a data block's first write is to its home. -/
theorem firstWrite_data {p : PoolMapping} (hro : ¬ img.writable = false) (h8 : 8 ≤ block)
    (hp : poolMapDataBlock img block = .ok p) (hprof : ¬ poolProfile img = 3) :
    firstWrite img block buf = .ok (p.memberIndex, p.memberBlock, buf) := by
  rw [firstWrite, if_neg hro, if_neg (Nat.not_lt.mpr h8), hp, ok_bind, if_neg hprof]

omit [LawfulBlockDev δ] in
theorem failedWrite_mirror (h : LabelOk img.poolLabel) {p : PoolMapping}
    (hro : ¬ img.writable = false) (h8 : 8 ≤ block) (hp : poolMapDataBlock img block = .ok p)
    (hprof : poolProfile img = 1)
    (hw : writeMembers p.memberBlock buf (maskMembers (poolDataMask img)) img = .error e img') :
    FailedWrite img img' block buf := by
  have hmirror := hp
  rw [poolMapDataBlock_mirror hprof] at hmirror
  obtain ⟨hfirst, hblock⟩ := poolMapMirror_spec hmirror
  obtain ⟨m, ms, hms, hcase⟩ := writeMembers_error_cases hw
  have hm : m = p.memberIndex := by
    rw [maskFirst_eq, ← maskMembers_eq (h.lt_256 (poolDataMask_lt h)), hms] at hfirst
    exact Option.some.inj hfirst
  subst hm
  have hne : ¬ poolProfile img = 3 := by
    rw [hprof]
    decide
  have hfirst : firstWrite img block buf = .ok (p.memberIndex, p.memberBlock, buf) :=
    firstWrite_data hro h8 hp hne
  rcases hcase with ⟨hm, rfl⟩ | ⟨img1, h1, h2⟩
  · exact .unwritten (not_firstWritten_of_error hfirst hm) rfl
  · exact .replicas ⟨_, _, _, _, hfirst, h1⟩ hms (home_data h8 hp) hblock
      (Or.inr ⟨h8, hprof, rfl⟩) h1 h2

omit [LawfulBlockDev δ] in
theorem failedWrite_parity {p : PoolMapping} (hro : ¬ img.writable = false) (h8 : 8 ≤ block)
    (hp : poolMapDataBlock img block = .ok p) (hprof : poolProfile img = 3)
    (hw : writeParity p buf img = .error e img') : FailedWrite img img' block buf := by
  have hfirst : firstWrite img block buf = (do
      let oldData ← imageReadPhysicalMember img p.memberIndex p.memberBlock
      let oldParity ← imageReadPhysicalMember img p.parityMemberIndex p.memberBlock
      .ok (p.parityMemberIndex, p.memberBlock, xorBytes (xorBytes oldParity oldData) buf)) := by
    rw [firstWrite, if_neg hro, if_neg (Nat.not_lt.mpr h8), hp, ok_bind, if_pos hprof]
  rw [writeParity, estate_bind_error] at hw
  rcases hw with hw | ⟨oldData, _, hd, hw⟩
  · obtain ⟨hd, rfl⟩ := liftRead_error.mp hw
    rw [hd, error_bind] at hfirst
    exact .unwritten (not_firstWritten_of_none hfirst) rfl
  obtain ⟨hd, rfl⟩ := liftRead_ok.mp hd
  rw [hd, ok_bind] at hfirst
  rw [estate_bind_error] at hw
  rcases hw with hw | ⟨oldParity, _, hpar, hw⟩
  · obtain ⟨hpar, rfl⟩ := liftRead_error.mp hw
    rw [hpar, error_bind] at hfirst
    exact .unwritten (not_firstWritten_of_none hfirst) rfl
  obtain ⟨hpar, rfl⟩ := liftRead_ok.mp hpar
  rw [hpar, ok_bind] at hfirst
  rw [estate_bind_error] at hw
  rcases hw with hw | ⟨_, img1, h1, h2⟩
  · exact .unwritten (not_firstWritten_of_error hfirst hw) (imageWritePhysicalMember_error hw)
  · obtain rfl := imageWritePhysicalMember_error h2
    exact .parity ⟨_, _, _, _, hfirst, h1⟩ h8 hprof hp hd hpar h1

omit [LawfulBlockDev δ] in
/-- **The shapes of a failed write.** -/
theorem imageWriteBlock_error_cases (h : LabelOk img.poolLabel)
    (hw : imageWriteBlock block buf img = .error e img') : FailedWrite img img' block buf := by
  unfold imageWriteBlock at hw
  split at hw
  · rename_i hro
    have hfirst : firstWrite img block buf = .error (.check .EBADF) := by
      rw [firstWrite, if_pos hro]
    exact .unwritten (not_firstWritten_of_none hfirst) (EStateM.Result.error.inj hw).2.symm
  rename_i hro
  split at hw
  · rename_i hb
    simp only at hw
    split at hw
    · rename_i hmask
      have hfirst : firstWrite img block buf = .error (.check .EINVAL) := by
        rw [firstWrite, if_neg hro, if_pos hb, hmask]
        rfl
      exact .unwritten (not_firstWritten_of_none hfirst) (EStateM.Result.error.inj hw).2.symm
    · exact failedWrite_bootstrap hro hb hw
  rename_i hb
  have h8 : 8 ≤ block := Nat.not_lt.mp hb
  split at hw
  · rename_i e' hp
    have hfirst : firstWrite img block buf = .error e' := by
      rw [firstWrite, if_neg hro, if_neg hb, hp, error_bind]
    exact .unwritten (not_firstWritten_of_none hfirst) (EStateM.Result.error.inj hw).2.symm
  rename_i p hp
  split at hw
  · -- one physical write
    rename_i hprof
    have hne : ¬ poolProfile img = 3 := by
      simp only [poolProfileSingle, poolProfileTiered, poolProfileStripe] at hprof
      omega
    exact .unwritten (not_firstWritten_of_error (firstWrite_data hro h8 hp hne) hw)
      (imageWritePhysicalMember_error hw)
  · rename_i hone
    split at hw
    · rename_i hprof
      exact failedWrite_mirror h hro h8 hp hprof hw
    · rename_i hmirror
      split at hw
      · rename_i hprof
        exact failedWrite_parity hro h8 hp hprof hw
      · -- a validated label has no other profile
        rename_i hparity
        have hle : poolProfile img ≤ 4 := h.profile_le
        simp only [poolProfileSingle, poolProfileTiered, poolProfileStripe,
          poolProfileMirror, poolProfileParity] at hone hmirror hparity
        omega

end Cases

/-- **When redundancy survives a failed write.**  A call that fails before its first physical write
took effect keeps everything.  A call for block 1 or above that fails after it keeps redundancy and
reads exactly when it was writing what the block held. -/
theorem failed_write_kept_iff (hlabel : poolLabelValidate img.poolLabel = .ok ()) {block : Nat}
    (hb : block < 2 ^ 64) {buf : Block} {e : Fail} (hI : Intact img)
    (hw : imageWriteBlock block buf img = .error e img') :
    (¬ FirstWritten img block buf → Kept img img') ∧
      (1 ≤ block → block < img.blocks →
        (Kept img img' ↔ (FirstWritten img block buf → imageReadBlock img block = .ok buf))) := by
  have h := labelOk_of_validate hlabel
  cases imageWriteBlock_error_cases h hw with
  | unwritten hfirst hsame =>
    have hkept : Kept img img' := by
      rw [hsame]
      exact ⟨hI, fun _ _ => rfl⟩
    exact ⟨fun _ => hkept, fun _ _ => iff_of_true hkept fun hf => absurd hf hfirst⟩
  | @replicas hfirst mask m c ms img1 e hms hhome hc hmask h1 h2 =>
    refine ⟨fun hnot => absurd hfirst hnot, fun hge hin => ?_⟩
    rw [imp_iff_right hfirst]
    subst hc
    have hrest : ms ≠ [] := by
      rintro rfl
      exact absurd h2 (by simp [writeMembers, pure, EStateM.pure])
    have hlen : 1 < (maskMembers mask).length := by
      rw [hms, List.length_cons]
      exact Nat.succ_lt_succ (List.length_pos_iff.mpr hrest)
    have hu : Uniform img (m :: ms) c := by
      rw [← hms]
      rcases hmask with ⟨hlt, rfl⟩ | ⟨h8, hprof, rfl⟩
      · have hm8 := h.lt_256 (poolRoleMask_lt h c)
        rw [maskMembers_eq hm8] at hlen ⊢
        exact hI.bootstrap c hge hlt (by rwa [maskCount_eq hm8])
      · have hm8 := h.lt_256 (poolDataMask_lt h)
        rw [maskMembers_eq hm8] at hlen ⊢
        exact hI.mirror hprof (by rwa [maskCount_eq hm8]) c h8 hin
    exact replicas_kept_iff hI hin hhome hu h1 h2
  | parity hfirst h8 hprof hp hd hpar hw =>
    refine ⟨fun hnot => absurd hfirst hnot, fun _ hin => ?_⟩
    rw [imp_iff_right hfirst]
    exact parity_kept_iff h hI hb h8 hin hprof hp hd hpar hw

end Failure

/-! ## 7. A mirror of two files -/

/-- Two zeroed files of sixteen blocks as a mirror; member `i` refuses the writes of `refuses i`. -/
def flakyMirror (refuses : Nat → Nat → Option Errno) : Image FlakyFile :=
  uniformPool 1 2 3 3 3 16 16 fun i => ⟨ByteFile.zeroed 65536 ByteFile.sixteenBlocks_lt, refuses i⟩

section Mirror

variable (refuses : Nat → Nat → Option Errno)

theorem flakyMirror_label : poolLabelValidate (flakyMirror refuses).poolLabel = .ok () ∧
    poolProfile (flakyMirror refuses) = 1 :=
  ⟨uniformLabel_validate 1 2 3 3 3 16 16 (by norm_num) (by norm_num) (by norm_num) (by norm_num)
      (by norm_num) (by norm_num) (by norm_num) (by norm_num) (by norm_num) (by norm_num),
    (uniformLabel_fields 1 2 3 3 3 16 16 (by norm_num) (by norm_num) (by norm_num) (by norm_num)
      (by norm_num) (by norm_num)).2.2.1⟩

theorem flakyMirror_masks : (∀ b, poolRoleMaskForBootstrapBlock (flakyMirror refuses) b = 3) ∧
    poolDataMask (flakyMirror refuses) = 3 := by
  obtain ⟨h1, h2, h3⟩ := uniformPool_masks 1 2 3 3 3 16 16
    (fun i => (⟨ByteFile.zeroed 65536 ByteFile.sixteenBlocks_lt, refuses i⟩ : FlakyFile)) (by norm_num)
    (by norm_num) (by norm_num) (by norm_num) (by norm_num) (by norm_num) (by norm_num)
    (by norm_num) (by norm_num) (by norm_num)
  refine ⟨fun b => ?_, h2⟩
  unfold poolRoleMaskForBootstrapBlock
  split
  · exact h3
  · exact h1

theorem flakyMirror_read {m c : Nat} (hm : m < 2) (hc : c < 16) :
    imageReadPhysicalMember (flakyMirror refuses) m c = .ok (zeros 4096) := by
  have hcount : m < (flakyMirror refuses).memberCount := hm
  rw [imageReadPhysicalMember_of_lt hcount]
  refine ByteFile.readAll_eq_ok.mpr ⟨?_, (ByteFile.blockAt_zeroed _ _).symm⟩
  rw [ByteFile.offsetOf_of_lt (by omega)]
  change c * 4096 + 4096 ≤ 65536
  omega

theorem flakyMirror_intact : Intact (flakyMirror refuses) := by
  obtain ⟨hrole, hdata⟩ := flakyMirror_masks refuses
  have hu : ∀ c, c < 16 → Uniform (flakyMirror refuses) (setBits 8 3) c := by
    intro c hc
    exact ⟨zeros 4096, fun m hm => flakyMirror_read refuses
      (mem_setBits_lt (n := 2) (by norm_num) hm) hc⟩
  refine ⟨fun b _ h8 _ => ?_, fun _ _ b _ hb => ?_, fun h3 => ?_⟩
  · rw [hrole]
    exact hu b (by omega)
  · rw [hdata]
    exact hu b hb
  · exact absurd ((flakyMirror_label refuses).2.symm.trans h3) (by decide)

theorem flakyMirror_writable : ¬ (flakyMirror refuses).writable = false :=
  fun h => Bool.noConfusion h

theorem flakyMirror_map (block : Nat) :
    poolMapDataBlock (flakyMirror refuses) block = .ok ⟨0, 2 ^ 32 - 1, block⟩ := by
  rw [poolMapDataBlock_mirror (flakyMirror_label refuses).2, poolMapMirror,
    (flakyMirror_masks refuses).2]
  rfl

/-- Writing a data block of the mirror is the loop over both members. -/
theorem flakyMirror_writeBlock {block : Nat} (h8 : 8 ≤ block) (buf : Block) :
    imageWriteBlock block buf (flakyMirror refuses)
      = writeMembers block buf [0, 1] (flakyMirror refuses) := by
  unfold imageWriteBlock
  rw [if_neg (flakyMirror_writable refuses), if_neg (Nat.not_lt.mpr h8), flakyMirror_map]
  simp only [(flakyMirror_label refuses).2, (flakyMirror_masks refuses).2]
  rfl

end Mirror

/-- A member that refuses a block is left alone. -/
theorem imageWritePhysicalMember_refused {img : Image FlakyFile} {m b : Nat} {e : Errno}
    (hm : m < img.memberCount) (h : (img.members m).dev.refuses b = some e) (buf : Block) :
    imageWritePhysicalMember m b buf img = .error (.sys e) img := by
  rw [imageWritePhysicalMember, if_neg (Nat.not_le.mpr hm), FlakyFile.write_refused h]
  exact congrArg _ (Image.setDev_self img m)

theorem not_intact_of_replicas {img : Image FlakyFile} {m n b : Nat} {x y : Block}
    (hprof : poolProfile img = poolProfileMirror) (hcount : 1 < maskCount (poolDataMask img))
    (h8 : 8 ≤ b) (hb : b < img.blocks) (hm : m ∈ setBits 8 (poolDataMask img))
    (hn : n ∈ setBits 8 (poolDataMask img)) (hx : imageReadPhysicalMember img m b = .ok x)
    (hy : imageReadPhysicalMember img n b = .ok y) (hne : x ≠ y) : ¬ Intact img := by
  intro hintact
  obtain ⟨z, hz⟩ := hintact.mirror hprof hcount b h8 hb
  have hxz := Except.ok.inj (hx.symm.trans (hz m hm))
  have hyz := Except.ok.inj (hy.symm.trans (hz n hn))
  exact hne (hxz.trans hyz.symm)

/-- The first member refuses block 8: the call fails and nothing has happened. -/
theorem flakyMirror_first_refused :
    let img := flakyMirror fun i b => if i = 0 ∧ b = 8 then some .EIOERR else none
    ∃ img', imageWriteBlock 8 (fun _ => 1) img = .error (.sys .EIOERR) img' ∧ Kept img img' := by
  intro img
  have hphys : imageWritePhysicalMember 0 8 (fun _ => 1) img = .error (.sys .EIOERR) img :=
    imageWritePhysicalMember_refused (by decide) rfl _
  have hw : imageWriteBlock 8 (fun _ => 1) img = .error (.sys .EIOERR) img := by
    rw [flakyMirror_writeBlock _ (by norm_num), writeMembers, estate_bind_error]
    exact Or.inl hphys
  refine ⟨_, hw, (failed_write_kept_iff (flakyMirror_label _).1 (by norm_num)
    (flakyMirror_intact _) hw).1 ?_⟩
  have hne : ¬ poolProfile img = 3 := by
    rw [(flakyMirror_label _).2]
    decide
  exact not_firstWritten_of_error
    (firstWrite_data (flakyMirror_writable _) (by norm_num) (flakyMirror_map _ 8) hne) hphys

/-- **A mirror torn by a failed write.**  The second member refuses block 8.  The call fails after
the first member took the buffer: the replicas differ, and the block reads as the new buffer. -/
theorem flakyMirror_torn :
    let img := flakyMirror fun i b => if i = 1 ∧ b = 8 then some .EIOERR else none
    poolLabelValidate img.poolLabel = .ok () ∧ Intact img ∧
      imageReadBlock img 8 = .ok (zeros 4096) ∧
      ∃ img', imageWriteBlock 8 (fun _ => 1) img = .error (.sys .EIOERR) img' ∧
        ¬ Intact img' ∧ imageReadBlock img' 8 = .ok (fun _ => 1) := by
  intro img
  have hhome : home img 8 = .ok (0, 8) := home_data (by norm_num) (flakyMirror_map _ 8)
  have hold := fun m (hm : m < 2) => flakyMirror_read
    (fun i b => if i = 1 ∧ b = 8 then some .EIOERR else none) (c := 8) hm (by norm_num)
  refine ⟨(flakyMirror_label _).1, flakyMirror_intact _,
    imageReadBlock_of_home hhome (hold 0 (by norm_num)), ?_⟩
  -- the first member takes the buffer
  obtain ⟨file, hfile⟩ : ∃ file, BlockDev.write (img.members 0).dev.file 8 (fun _ => 1)
      = (.ok (), file) :=
    ByteFile.writeAll_total (f := (img.members 0).dev.file) rfl
      (by norm_num [ByteFile.offsetOf, mulU64]) _
  have hdev : BlockDev.write (img.members 0).dev 8 (fun _ => 1)
      = (.ok (), { (img.members 0).dev with file := file }) :=
    FlakyFile.write_eq_ok.mpr ⟨rfl, file, hfile, rfl⟩
  let img1 := img.setDev 0 { (img.members 0).dev with file := file }
  have h1 : imageWritePhysicalMember 0 8 (fun _ => 1) img = .ok () img1 := by
    rw [imageWritePhysicalMember, if_neg (by decide), hdev]
  -- the second refuses it
  have h2 : imageWritePhysicalMember 1 8 (fun _ => 1) img1 = .error (.sys .EIOERR) img1 := by
    have hcount : img1.memberCount = 2 := rfl
    exact imageWritePhysicalMember_refused (by rw [hcount]; norm_num) rfl _
  have hw : imageWriteBlock 8 (fun _ => 1) img = .error (.sys .EIOERR) img1 := by
    rw [flakyMirror_writeBlock _ (by norm_num), writeMembers, estate_bind_error]
    refine Or.inr ⟨(), img1, h1, ?_⟩
    rw [writeMembers, estate_bind_error]
    exact Or.inl h2
  have hwr := imageWritePhysicalMember_wrote h1
  have hnew : imageReadPhysicalMember img1 0 8 = .ok (fun _ => 1) :=
    hwr.read_hit (by decide) (if_pos rfl) rfl
  have hkept : imageReadPhysicalMember img1 1 8 = .ok (zeros 4096) :=
    hwr.read_miss (Or.inl (if_neg (by decide))) (hold 1 (by norm_num))
  obtain ⟨devs, hframe⟩ := hwr.frame
  refine ⟨img1, hw, ?_, ?_⟩
  · have hdata : poolDataMask img = 3 := (flakyMirror_masks _).2
    have hmask : poolDataMask img1 = 3 := by
      rw [hframe]
      exact hdata
    have hmirror : poolProfile img = 1 := (flakyMirror_label _).2
    have hprof : poolProfile img1 = poolProfileMirror := by
      rw [hframe]
      exact hmirror
    have hblocks : img1.blocks = 16 := rfl
    have hdiffer : (fun _ => 1 : Block) ≠ zeros 4096 := fun heq => absurd (congrFun heq 0) (by decide)
    refine not_intact_of_replicas hprof ?_ (le_refl 8) (by rw [hblocks]; norm_num) ?_ ?_ hnew hkept
      hdiffer
    · rw [hmask]
      decide
    · rw [hmask]
      decide
    · rw [hmask]
      decide
  · have hhome1 : home img1 8 = .ok (0, 8) := by rw [hframe, home_withDevs, hhome]
    exact imageReadBlock_of_home hhome1 hnew

end AetherFs
