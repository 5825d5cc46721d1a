/-
# Putting a pool together

`aetherfs_image_open_pool` is given the devices in the order of the `--device` arguments.  It
takes the label of the FIRST one as the base, compares every other label with that one alone,
and seats each device at the index its own label carries, in input order.

None of this lets the order through.  `imageOpenPool_iff` says what a success is in terms of the
devices as a set: all labels alike up to checksum and index, all indices different, and each
device in its own seat (`Assembled`).  The base label is normalised before it is kept, so it does
not show which device was first.  Two orders of the same devices therefore have the same
successes, with equal images.

The last check of the source, that no seat is empty, can never fail: `n` different indices below
`n` are all of them.
-/
import AetherFs.Image.Open

namespace AetherFs

open Lib

/-! ## 1. The assembly -/

/-- The fields of `struct aetherfs_image_member` that are copied out of the label. -/
structure MemberRole where
  classMask : Nat
  roleMask : Nat
  memberIndex : Nat
deriving DecidableEq, Repr

def memberRole (label : PoolLabel) (index : Nat) : MemberRole where
  classMask := pmClassMask label index
  roleMask := pmRoleMask label index
  memberIndex := index

/-- `aetherfs_pool_label_normalize`. -/
def poolLabelNormalize (label : PoolLabel) : PoolLabel := put32 (put32 label 8 0) 20 0

/-- `aetherfs_pool_labels_equivalent`. -/
def poolLabelsEquivalent (left right : PoolLabel) : Prop :=
  poolLabelNormalize left = poolLabelNormalize right

instance (left right : PoolLabel) : Decidable (poolLabelsEquivalent left right) :=
  inferInstanceAs (Decidable (_ = _))

/-- A device after the first loop: the open member and its label. -/
abbrev OpenedDevice := Member ByteFile × PoolLabel

/-- The index the device's own label carries. -/
def OpenedDevice.index (d : OpenedDevice) : Nat := plMemberIndex d.2

/-- One turn of the first loop. -/
def openLabelled (f : ByteFile) : Except Fail OpenedDevice := do
  let member ← memberOpenPath f
  let present ← memberReadPoolLabel member
  match present with
  | none => .error (.check .EINVAL)
  | some label => .ok (member, label)

/-- `image->members` while it is filled; `none` where `seen_indices` is not set. -/
abbrev Seats := Nat → Option (Member ByteFile × MemberRole)

/-- What is stored for a device: its size is taken from the label. -/
def OpenedDevice.seat (d : OpenedDevice) : Member ByteFile × MemberRole :=
  let blocks := pmTotalBlocks d.2 d.index
  ({ d.1 with blocks := blocks, sizeBytes := mulU64 blocks defBlockSize },
    memberRole d.2 d.index)

/-- One turn of the second loop. -/
def placeMember (base : PoolLabel) (count : Nat) (seats : Seats) (d : OpenedDevice) :
    Except Fail Seats := do
  failIf (¬ poolLabelsEquivalent base d.2) .EINVAL
  failIf (d.index ≥ count ∨ (seats d.index).isSome = true) .EINVAL
  .ok (Function.update seats d.index (some d.seat))

/-- The zeroed entry of `image->members`. -/
def zeroMember : Member ByteFile := ⟨.empty, false, 0, 0⟩

/-- The image as it is returned, with the members' roles. -/
def seatedImage (writable : Bool) (beyond : Nat → UInt8) (base : PoolLabel) (count : Nat)
    (seats : Seats) : Image ByteFile × (Nat → MemberRole) :=
  let label := sealLabel (put32 base 20 0)
  (openedImage writable label (plLogicalBlocks label) count
      (fun i => ((seats i).map Prod.fst).getD zeroMember) beyond,
    fun i => ((seats i).map Prod.snd).getD ⟨0, 0, 0⟩)

/-- `aetherfs_image_open_pool` from the base label on. -/
def assembleDevices (opened : List OpenedDevice) (writable : Bool) (beyond : Nat → UInt8) :
    Except Fail (Image ByteFile × (Nat → MemberRole)) :=
  match opened with
  | [] => .error (.check .EINVAL)
  | first :: _ => do
    failIf (plMemberCount first.2 ≠ opened.length) .EINVAL
    let seats ← opened.foldlM (placeMember first.2 opened.length) (fun _ => none)
    failIf (∃ i, i < opened.length ∧ (seats i).isSome = false) .EINVAL
    .ok (seatedImage writable beyond first.2 opened.length seats)

/-- `aetherfs_image_open_pool`. -/
def imageOpenPool (devices : List ByteFile) (writable : Bool) (beyond : Nat → UInt8) :
    Except Fail (Image ByteFile × (Nat → MemberRole)) := do
  failIf (devices.length = 0 ∨ devices.length > maxDevices) .EINVAL
  match devices with
  | [f] => do
    let img ← imageOpen f writable beyond
    .ok (img, fun i => if i = 0 then memberRole img.poolLabel 0 else ⟨0, 0, 0⟩)
  | _ => do
    let opened ← devices.mapM openLabelled
    assembleDevices opened writable beyond

/-! ## 2. Equivalent labels -/

section Labels

variable {a b : PoolLabel}

/-- Labels that are alike agree in every other field. -/
theorem poolLabelsEquivalent.field (h : poolLabelsEquivalent a b) {off w : Nat}
    (h8 : off + w ≤ 8 ∨ 12 ≤ off) (h20 : off + w ≤ 20 ∨ 24 ≤ off) :
    getLE (byteAt a) off w = getLE (byteAt b) off w := by
  have := congrArg (fun l => getLE (byteAt l) off w) h
  simpa only [poolLabelNormalize, put32, getLE_putLE_of_disjoint _ 20 4 _ off w h20,
    getLE_putLE_of_disjoint _ 8 4 _ off w h8] using this

/-- The label that is kept does not show which of them was the base. -/
theorem poolLabelsEquivalent.sealed (h : poolLabelsEquivalent a b) :
    sealLabel (put32 a 20 0) = sealLabel (put32 b 20 0) := by
  have hcomm : ∀ x : PoolLabel, put32 (put32 x 20 0) 8 0 = poolLabelNormalize x :=
    fun x => putLE_comm x 0 0 (by norm_num)
  exact sealAt_congr (by rw [hcomm, hcomm, h])

theorem poolLabelsEquivalent.seated (h : poolLabelsEquivalent a b) (writable : Bool)
    (beyond : Nat → UInt8) (count : Nat) (seats : Seats) :
    seatedImage writable beyond a count seats = seatedImage writable beyond b count seats := by
  rw [seatedImage, seatedImage, h.sealed]

end Labels

/-! ## 3. The loops -/

/-- What the first loop accepts. -/
structure Labelled (f : ByteFile) : Prop where
  kind : f.kind ≠ .other
  size : 4096 ≤ f.size
  magic : plMagic (labelOf f) = poolMagic
  valid : poolLabelValidate (labelOf f) = .ok ()

/-- The device as the first loop leaves it. -/
def openedDevice (f : ByteFile) : OpenedDevice := (fileMember f, labelOf f)

theorem openLabelled_iff {f : ByteFile} {d : OpenedDevice} :
    openLabelled f = .ok d ↔ Labelled f ∧ d = openedDevice f := by
  rw [openLabelled, memberOpenPath, bind_assoc, failIf_bind_ok, ok_bind, bind_eq_ok]
  constructor
  · rintro ⟨hkind, o, ho, h⟩
    obtain ⟨hsize, ⟨-, rfl⟩ | ⟨hmagic, hvalid, rfl⟩⟩ := memberReadPoolLabel_file.mp ho
    · exact absurd h (by simp)
    · exact ⟨⟨hkind, hsize, hmagic, hvalid⟩, (Except.ok.inj h).symm⟩
  · rintro ⟨h, rfl⟩
    exact ⟨h.kind, _, memberReadPoolLabel_file.mpr ⟨h.size, Or.inr ⟨h.magic, h.valid, rfl⟩⟩, rfl⟩

theorem openAll_iff {devices : List ByteFile} {opened : List OpenedDevice} :
    devices.mapM openLabelled = .ok opened ↔
      (∀ f ∈ devices, Labelled f) ∧ opened = devices.map openedDevice := by
  rw [mapM_eq_ok]
  simp only [openLabelled_iff]
  constructor
  · intro h
    induction h with
    | nil => simp
    | cons hd _ ih => exact ⟨List.forall_mem_cons.mpr ⟨hd.1, ih.1⟩, by rw [hd.2, ih.2, List.map_cons]⟩
  · rintro ⟨h, rfl⟩
    rw [List.forall₂_map_right_iff, List.forall₂_same]
    exact fun f hf => ⟨h f hf, rfl⟩

/-- The seats after the second loop. -/
def seatAll (ds : List OpenedDevice) (seats : Seats) : Seats :=
  ds.foldl (fun seats d => Function.update seats d.index (some d.seat)) seats

theorem seatAll_of_not_mem {ds : List OpenedDevice} {seats : Seats} {i : Nat}
    (h : i ∉ ds.map OpenedDevice.index) : seatAll ds seats i = seats i := by
  induction ds generalizing seats with
  | nil => rfl
  | cons d ds ih =>
    rw [List.map_cons, List.mem_cons, not_or] at h
    rw [seatAll, List.foldl_cons]
    exact (ih h.2).trans (Function.update_of_ne h.1 _ _)

theorem seatAll_of_mem {ds : List OpenedDevice} {seats : Seats} {d : OpenedDevice} (hd : d ∈ ds)
    (h : (ds.map OpenedDevice.index).Nodup) : seatAll ds seats d.index = some d.seat := by
  induction ds generalizing seats with
  | nil => simp at hd
  | cons x ds ih =>
    obtain ⟨hx, hds⟩ := List.nodup_cons.mp h
    rw [seatAll, List.foldl_cons]
    rcases List.mem_cons.mp hd with rfl | hd
    · exact (seatAll_of_not_mem hx).trans (Function.update_self _ _ _)
    · exact ih hd hds

/-- **The second loop**: every device in its own seat, or a refusal. -/
theorem placeAll_iff {base : PoolLabel} {count : Nat} {ds : List OpenedDevice}
    {seats seats' : Seats} : ds.foldlM (placeMember base count) seats = .ok seats' ↔
      (∀ d ∈ ds, poolLabelsEquivalent base d.2 ∧ d.index < count ∧ seats d.index = none) ∧
        (ds.map OpenedDevice.index).Nodup ∧ seats' = seatAll ds seats := by
  induction ds generalizing seats with
  | nil => simp [seatAll, eq_comm]
  | cons d ds ih =>
    rw [List.foldlM_cons, placeMember, bind_assoc, failIf_bind_ok, bind_assoc, failIf_bind_ok,
      ok_bind, ih, List.forall_mem_cons, List.map_cons, List.nodup_cons, not_not, not_or,
      Nat.not_le, Bool.not_eq_true, Option.isSome_eq_false_iff, Option.isNone_iff_eq_none]
    constructor
    · rintro ⟨halike, ⟨hlt, hfree⟩, hrest, hnodup, rfl⟩
      have hne : ∀ x ∈ ds, x.index ≠ d.index := fun x hx heq => by
        have := (hrest x hx).2.2
        rw [heq, Function.update_self] at this
        exact absurd this (by simp)
      refine ⟨⟨⟨halike, hlt, hfree⟩, fun x hx => ?_⟩, ⟨fun hmem => ?_, hnodup⟩, rfl⟩
      · obtain ⟨h1, h2, h3⟩ := hrest x hx
        exact ⟨h1, h2, by rwa [Function.update_of_ne (hne x hx)] at h3⟩
      · obtain ⟨x, hx, heq⟩ := List.mem_map.mp hmem
        exact hne x hx heq
    · rintro ⟨⟨⟨halike, hlt, hfree⟩, hrest⟩, ⟨hnot, hnodup⟩, rfl⟩
      refine ⟨halike, ⟨hlt, hfree⟩, fun x hx => ?_, hnodup, rfl⟩
      obtain ⟨h1, h2, h3⟩ := hrest x hx
      refine ⟨h1, h2, ?_⟩
      rw [Function.update_of_ne fun heq => hnot (List.mem_map.mpr ⟨x, hx, heq⟩), h3]

/-! ## 4. What a success is -/

section Assembled

variable {devices devices' : List ByteFile} {writable : Bool} {beyond : Nat → UInt8}
  {out : Image ByteFile × (Nat → MemberRole)}

/-- The index a device's own label carries. -/
def ownIndex (f : ByteFile) : Nat := plMemberIndex (labelOf f)

/-- **What a success is**, in terms of the devices and not of their order. -/
structure Assembled (devices : List ByteFile) (writable : Bool) (beyond : Nat → UInt8)
    (out : Image ByteFile × (Nat → MemberRole)) : Prop where
  few : devices.length ≤ maxDevices
  labelled : ∀ f ∈ devices, Labelled f
  count : ∀ f ∈ devices, plMemberCount (labelOf f) = devices.length
  alike : ∀ f ∈ devices, ∀ g ∈ devices, poolLabelsEquivalent (labelOf f) (labelOf g)
  distinct : (devices.map ownIndex).Nodup
  seated : ∃ seats : Seats, (∀ f ∈ devices, seats (ownIndex f) = some (openedDevice f).seat) ∧
    (∀ i, devices.length ≤ i → seats i = none) ∧
    ∀ f ∈ devices, out = seatedImage writable beyond (labelOf f) devices.length seats

theorem Assembled.index_lt (h : Assembled devices writable beyond out) {f : ByteFile}
    (hf : f ∈ devices) : ownIndex f < devices.length := by
  have := (h.labelled f hf).valid
  simp only [poolLabelValidate, failIf_bind_ok] at this
  rw [← h.count f hf]
  exact Nat.not_le.mp this.2.2.2.2.1

theorem indices_perm (hlt : ∀ f ∈ devices, ownIndex f < devices.length)
    (hd : (devices.map ownIndex).Nodup) :
    (devices.map ownIndex).Perm (List.range devices.length) := by
  refine (hd.subperm fun i hi => ?_).perm_of_length_le (by simp)
  obtain ⟨f, hf, rfl⟩ := List.mem_map.mp hi
  exact List.mem_range.mpr (hlt f hf)

/-- The second and the third loop, over devices the first has accepted. -/
theorem assembleDevices_iff (hlabelled : ∀ f ∈ devices, Labelled f) (hne : devices ≠ [])
    (hfew : devices.length ≤ maxDevices) :
    assembleDevices (devices.map openedDevice) writable beyond = .ok out ↔
      Assembled devices writable beyond out := by
  obtain ⟨first, rest, rfl⟩ := List.exists_cons_of_ne_nil hne
  have hfirst : first ∈ first :: rest := List.mem_cons_self
  have hindex : ((first :: rest).map openedDevice).map OpenedDevice.index
      = (first :: rest).map ownIndex := by
    rw [List.map_map]
    rfl
  have hstart : assembleDevices ((first :: rest).map openedDevice) writable beyond = .ok out ↔
      plMemberCount (labelOf first) = (first :: rest).length ∧ ∃ seats,
        ((first :: rest).map openedDevice).foldlM (placeMember (labelOf first)
          (first :: rest).length) (fun _ => none) = .ok seats ∧
        (∀ i, i < (first :: rest).length → (seats i).isSome = true) ∧
        out = seatedImage writable beyond (labelOf first) (first :: rest).length seats := by
    simp only [List.map_cons, assembleDevices, not_not, bind_eq_ok, failIf_eq_ok, List.length_cons,
      List.length_map, not_exists, not_and, Bool.not_eq_false, Except.ok.injEq]
    constructor
    · rintro ⟨-, hcount, seats, hplace, -, hfull, rfl⟩
      exact ⟨hcount, seats, hplace, hfull, rfl⟩
    · rintro ⟨hcount, seats, hplace, hfull, rfl⟩
      exact ⟨(), hcount, seats, hplace, (), hfull, rfl⟩
  rw [hstart]
  constructor
  · rintro ⟨hcount, seats, hplace, -, rfl⟩
    obtain ⟨hall, hnodup, rfl⟩ := placeAll_iff.mp hplace
    rw [hindex] at hnodup
    have halike : ∀ f ∈ first :: rest, poolLabelsEquivalent (labelOf first) (labelOf f) :=
      fun f hf => (hall (openedDevice f) (List.mem_map_of_mem hf)).1
    refine ⟨hfew, hlabelled, fun f hf => ?_, fun f hf g hg => ?_, hnodup, _, fun f hf => ?_,
      fun i hi => ?_, fun f hf => (halike f hf).seated writable beyond _ _⟩
    · exact ((halike f hf).field (by norm_num) (by norm_num)).symm.trans hcount
    · exact (halike f hf).symm.trans (halike g hg)
    · exact seatAll_of_mem (List.mem_map_of_mem hf) (hindex ▸ hnodup)
    · refine seatAll_of_not_mem fun hmem => ?_
      obtain ⟨d, hd, rfl⟩ := List.mem_map.mp hmem
      exact absurd (hall d hd).2.1 (Nat.not_lt.mpr hi)
  · intro h
    obtain ⟨seats, hseat, hempty, hout⟩ := h.seated
    have hperm := indices_perm (fun f hf => h.index_lt hf) h.distinct
    have hseats : seats = seatAll ((first :: rest).map openedDevice) (fun _ => none) := by
      funext i
      by_cases hi : i < (first :: rest).length
      · obtain ⟨f, hf, rfl⟩ := List.mem_map.mp (hperm.mem_iff.mpr (List.mem_range.mpr hi))
        rw [hseat f hf]
        exact (seatAll_of_mem (List.mem_map_of_mem hf) (hindex ▸ h.distinct)).symm
      · rw [hempty i (Nat.not_lt.mp hi), seatAll_of_not_mem]
        rw [hindex, hperm.mem_iff, List.mem_range]
        exact hi
    refine ⟨h.count first hfirst, seats, placeAll_iff.mpr ⟨fun d hd => ?_, hindex ▸ h.distinct,
      hseats⟩, fun i hi => ?_, hout first hfirst⟩
    · obtain ⟨f, hf, rfl⟩ := List.mem_map.mp hd
      exact ⟨h.alike first hfirst f hf, h.index_lt hf, rfl⟩
    · obtain ⟨f, hf, rfl⟩ := List.mem_map.mp (hperm.mem_iff.mpr (List.mem_range.mpr hi))
      rw [hseat f hf]
      rfl

/-- **Success is `Assembled`**, for two devices or more. -/
theorem imageOpenPool_iff (h2 : 2 ≤ devices.length) :
    imageOpenPool devices writable beyond = .ok out ↔ Assembled devices writable beyond out := by
  have hopen : imageOpenPool devices writable beyond = .ok out ↔ devices.length ≤ maxDevices ∧
      ∃ opened, devices.mapM openLabelled = .ok opened ∧
        assembleDevices opened writable beyond = .ok out := by
    match devices, h2 with
    | f :: g :: rest, _ =>
      rw [imageOpenPool, failIf_bind_ok]
      · rw [bind_eq_ok]
        exact and_congr_left fun _ => by simp
      · simp
  have hne : devices ≠ [] := fun h => by simp [h] at h2
  rw [hopen]
  constructor
  · rintro ⟨hfew, opened, hmap, h⟩
    obtain ⟨hlabelled, rfl⟩ := openAll_iff.mp hmap
    exact (assembleDevices_iff hlabelled hne hfew).mp h
  · intro h
    exact ⟨h.few, _, openAll_iff.mpr ⟨h.labelled, rfl⟩,
      (assembleDevices_iff h.labelled hne h.few).mpr h⟩

/-- Nothing in it depends on the order. -/
theorem Assembled.perm (h : Assembled devices writable beyond out) (hp : devices.Perm devices') :
    Assembled devices' writable beyond out := by
  have hmem : ∀ {f}, f ∈ devices' → f ∈ devices := fun hf => hp.mem_iff.mpr hf
  have hlen := hp.length_eq
  obtain ⟨seats, hseat, hempty, hout⟩ := h.seated
  exact ⟨hlen ▸ h.few, fun f hf => h.labelled f (hmem hf), fun f hf => hlen ▸ h.count f (hmem hf),
    fun f hf g hg => h.alike f (hmem hf) g (hmem hg), (hp.map ownIndex).nodup_iff.mp h.distinct,
    seats, fun f hf => hseat f (hmem hf), hlen ▸ hempty, fun f hf => hlen ▸ hout f (hmem hf)⟩

theorem Assembled.members (h : Assembled devices writable beyond out) (h2 : 2 ≤ devices.length) :
    out.1.memberCount = devices.length ∧
      (∀ i, i < devices.length →
        (out.1.members i).dev ∈ devices ∧ ownIndex (out.1.members i).dev = i) ∧
      ((List.range devices.length).map fun i => (out.1.members i).dev).Perm devices := by
  obtain ⟨seats, hseat, -, hout⟩ := h.seated
  obtain ⟨first, hfirst⟩ : ∃ f, f ∈ devices := List.exists_mem_of_length_pos (by omega)
  have hperm := indices_perm (fun f hf => h.index_lt hf) h.distinct
  have hdev : ∀ f ∈ devices, (out.1.members (ownIndex f)).dev = f := fun f hf => by
    rw [hout first hfirst]
    change (((seats (ownIndex f)).map Prod.fst).getD zeroMember).dev = f
    rw [hseat f hf]
    rfl
  refine ⟨by rw [hout first hfirst]; rfl, fun i hi => ?_, ?_⟩
  · obtain ⟨f, hf, rfl⟩ := List.mem_map.mp (hperm.mem_iff.mpr (List.mem_range.mpr hi))
    rw [hdev f hf]
    exact ⟨hf, rfl⟩
  · refine (hperm.map fun i => (out.1.members i).dev).symm.trans (List.Perm.of_eq ?_)
    rw [List.map_map]
    exact (List.map_congr_left fun f hf => hdev f hf).trans (List.map_id' devices)

/-- **The order of the devices does not matter.**  Two orders of the same devices have the same
results, with equal images (label, block count, members, and with them every mask and the primary
member) and equal roles; and member `i` is the device whose own label says `i`. -/
theorem pool_order_irrelevant (hp : devices.Perm devices') (h2 : 2 ≤ devices.length)
    (writable : Bool) (beyond : Nat → UInt8) :
    (∀ out, imageOpenPool devices writable beyond = .ok out ↔
      imageOpenPool devices' writable beyond = .ok out) ∧
    ∀ img roles, imageOpenPool devices writable beyond = .ok (img, roles) →
      img.memberCount = devices.length ∧
      (∀ i, i < devices.length → (img.members i).dev ∈ devices ∧
        ownIndex (img.members i).dev = i) ∧
      ((List.range devices.length).map fun i => (img.members i).dev).Perm devices := by
  have h2' : 2 ≤ devices'.length := hp.length_eq ▸ h2
  refine ⟨fun out => ?_, fun img roles h => ((imageOpenPool_iff h2).mp h).members h2⟩
  rw [imageOpenPool_iff h2, imageOpenPool_iff h2']
  exact ⟨fun h => h.perm hp, fun h => h.perm hp.symm⟩

end Assembled

/-! ## 5. Two devices -/

/-- The label with another member index, sealed again. -/
def reindex (label : PoolLabel) (index : Nat) : PoolLabel := sealLabel (put32 label 20 index)

theorem getLE_reindex (label : PoolLabel) (index : Nat) {off w : Nat}
    (h8 : off + w ≤ 8 ∨ 12 ≤ off) (h20 : off + w ≤ 20 ∨ 24 ≤ off) :
    getLE (byteAt (reindex label index)) off w = getLE (byteAt label) off w := by
  rw [reindex, sealLabel, getLE_sealAt _ _ _ _ h8, put32,
    getLE_putLE_of_disjoint _ 20 4 _ off w h20]

theorem normalize_reindex (label : PoolLabel) (index : Nat) :
    poolLabelNormalize (reindex label index) = poolLabelNormalize label := by
  rw [poolLabelNormalize, reindex, sealLabel, sealAt, put32, put32, put32, put32, putLE_putLE,
    putLE_comm _ _ _ (by norm_num), putLE_putLE, putLE_comm _ _ _ (by norm_num)]
  rfl

theorem plMemberIndex_reindex (label : PoolLabel) {index : Nat} (hi : index < 2 ^ 32) :
    plMemberIndex (reindex label index) = index := by
  rw [plMemberIndex, reindex, sealLabel, le32, getLE_sealAt _ _ _ _ (by decide), put32,
    getLE_putLE_self _ _ _ _ (by decide)]
  exact Nat.mod_eq_of_lt hi

theorem reindex_validate {label : PoolLabel} (h : poolLabelValidate label = .ok ()) {index : Nat}
    (hi : index < plMemberCount label) : poolLabelValidate (reindex label index) = .ok () := by
  have same : ∀ off w, off + w ≤ 8 ∨ 12 ≤ off → off + w ≤ 20 ∨ 24 ≤ off →
      getLE (byteAt (reindex label index)) off w = getLE (byteAt label) off w :=
    fun _ _ => getLE_reindex label index
  have hcount : plMemberCount (reindex label index) = plMemberCount label :=
    same 16 4 (by decide) (by decide)
  have hlt : plMemberCount label < 2 ^ 32 := le32_lt label 16
  have hindex := plMemberIndex_reindex label (show index < 2 ^ 32 by omega)
  simp only [poolLabelValidate, failIf_bind_ok, forEach_eq_ok, poolLabelValidateMember,
    failIf_eq_ok] at h ⊢
  obtain ⟨h1, h2, -, h4, -, h6, h7, h8, h9, h10, h11⟩ := h
  rw [hcount, hindex]
  refine ⟨?_, ?_, not_not.mpr (plChecksum_sealLabel _), h4, Nat.not_le.mpr hi, ?_, ?_, ?_, ?_, ?_,
    fun i hm => ?_⟩
  · rwa [plMagic, le32, same 0 4 (by decide) (by decide)]
  · rwa [plVersion, le32, same 4 4 (by decide) (by decide)]
  · rwa [plProfile, le32, same 12 4 (by decide) (by decide)]
  · rwa [plStripeBlocks, le32, same 24 4 (by decide) (by decide)]
  · rwa [plLogicalBlocks, le64, same 48 8 (by decide) (by decide)]
  · rwa [plLogicalBlocks, plLogicalDataBlocks, le64, le64, same 48 8 (by decide) (by decide),
      same 56 8 (by decide) (by decide)]
  · simpa only [plMetadataMask, plDataMask, plLogMask, plCacheMask, le32,
      same 32 4 (by decide) (by decide), same 36 4 (by decide) (by decide),
      same 40 4 (by decide) (by decide), same 44 4 (by decide) (by decide)] using h10
  · have hm := h11 i hm
    simpa only [pmIndex, pmTotalBlocks, pmDataBlocks, le32, le64,
      same (80 + 48 * i + 40) 4 (by omega) (by omega),
      same (80 + 48 * i + 16) 8 (by omega) (by omega),
      same (80 + 48 * i + 24) 8 (by omega) (by omega)] using hm

/-- One half of a mirror of two members. -/
def mirrorHalf (index : Nat) : ByteFile :=
  labelledFile (reindex (uniformLabel 1 2 3 3 3 24 24) index)

theorem mirrorHalf_label (index : Nat) :
    labelOf (mirrorHalf index) = reindex (uniformLabel 1 2 3 3 3 24 24) index :=
  labelOf_labelledFile _

/-- Two halves make a pool. -/
theorem mirrorHalves_assembled (writable : Bool) (beyond : Nat → UInt8) :
    ∃ out, Assembled [mirrorHalf 0, mirrorHalf 1] writable beyond out := by
  obtain ⟨hmagic, -, -, hcount, -⟩ := uniformLabel_fields 1 2 3 3 3 24 24 (by norm_num)
    (by norm_num) (by norm_num) (by norm_num) (by norm_num) (by norm_num)
  have hvalid := uniformLabel_validate 1 2 3 3 3 24 24 (by norm_num) (by norm_num) (by norm_num)
    (by norm_num) (by norm_num) (by norm_num) (by norm_num) (by norm_num) (by norm_num)
    (by norm_num)
  have hindex : ∀ {i}, i < 2 → ownIndex (mirrorHalf i) = i := fun {i} hi => by
    rw [ownIndex, mirrorHalf_label, plMemberIndex_reindex _ (by omega)]
  have hmem : ∀ {f}, f ∈ [mirrorHalf 0, mirrorHalf 1] → ∃ i, i < 2 ∧ f = mirrorHalf i := by
    intro f hf
    rcases List.mem_cons.mp hf with rfl | hf
    · exact ⟨0, by norm_num, rfl⟩
    · exact ⟨1, by norm_num, List.mem_singleton.mp hf⟩
  have halike : ∀ i j, poolLabelsEquivalent (labelOf (mirrorHalf i)) (labelOf (mirrorHalf j)) :=
    fun i j => by
      rw [poolLabelsEquivalent, mirrorHalf_label, mirrorHalf_label, normalize_reindex,
        normalize_reindex]
  let seats : Seats := fun i => if i < 2 then some (openedDevice (mirrorHalf i)).seat else none
  refine ⟨seatedImage writable beyond (labelOf (mirrorHalf 0)) 2 seats, (by decide : 2 ≤ 8),
    fun f hf => ?_, fun f hf => ?_, fun f hf g hg => ?_, ?_, seats, fun f hf => ?_, fun i hi => ?_,
    fun f hf => ?_⟩
  · obtain ⟨i, hi, rfl⟩ := hmem hf
    refine ⟨FileKind.noConfusion, (by norm_num : 4096 ≤ 65536), ?_, ?_⟩
    · rw [mirrorHalf_label, plMagic, le32, getLE_reindex _ _ (by decide) (by decide)]
      exact hmagic
    · rw [mirrorHalf_label]
      exact reindex_validate hvalid (by rw [hcount]; exact hi)
  · obtain ⟨i, hi, rfl⟩ := hmem hf
    rw [mirrorHalf_label, plMemberCount, le32, getLE_reindex _ _ (by decide) (by decide)]
    exact hcount
  · obtain ⟨i, -, rfl⟩ := hmem hf
    obtain ⟨j, -, rfl⟩ := hmem hg
    exact halike i j
  · rw [List.map_cons, List.map_cons, hindex (by norm_num), hindex (by norm_num)]
    decide
  · obtain ⟨i, hi, rfl⟩ := hmem hf
    rw [hindex hi]
    exact if_pos hi
  · exact if_neg (Nat.not_lt.mpr hi)
  · obtain ⟨i, -, rfl⟩ := hmem hf
    exact (halike 0 i).seated writable beyond _ _

theorem mirrorHalves_either_order : ∃ out,
    imageOpenPool [mirrorHalf 0, mirrorHalf 1] true (fun _ => 0) = .ok out ∧
      imageOpenPool [mirrorHalf 1, mirrorHalf 0] true (fun _ => 0) = .ok out := by
  obtain ⟨out, hout⟩ := mirrorHalves_assembled true (fun _ => 0)
  have hopen := (imageOpenPool_iff (by decide)).mpr hout
  exact ⟨out, hopen, ((pool_order_irrelevant (List.Perm.swap _ _ _) (by decide) true _).1 out).mp
    hopen⟩

end AetherFs
