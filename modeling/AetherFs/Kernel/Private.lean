/-
# One `s_private` for three subsystems

The free-space allocator of `balloc.c`, and self-healing and the device description of
`recovery.c`, each allocate a structure of their own when a file system is mounted, and each keep
the pointer to it in the SAME field of the super block, `s_private`.  Whoever needs the structure
later takes the pointer back out and believes in its type.

The structures themselves are safe: an initialiser writes to no memory but its own
(`setUp_kept`).  What is lost is the way to them (`setUp_sPrivate`: the last initialiser has it).
An operation of another subsystem then reads and writes the last one's structure as if it were its
own; here that is the fault `confused`.  So the subsystems are isolated exactly when no more than
one of them is initialised.
-/
import AetherFs.Kernel.Balloc
import AetherFs.Kernel.Checksum
import AetherFs.Lib.Chain

namespace AetherFs.Private

open Lib

/-! ## 1. The structures -/

/-- `enum aetherfs_self_heal_mode`. -/
inductive SelfHealMode
  | disabled | repair | quarantine | scrub
deriving DecidableEq, Repr

/-- `struct aetherfs_self_heal_info`; the work item does nothing and is left out. -/
structure SelfHealInfo where
  mode : SelfHealMode
  lastScrub : Nat
  scrubInterval : Nat
  repairCount : Nat
  corruptionCount : Nat
deriving DecidableEq, Repr

/-- `enum aetherfs_device_type`. -/
inductive DeviceType
  | unknown | hdd | sataSsd | nvme | zns | smr
deriving DecidableEq, Repr

/-- `struct aetherfs_device_info`. -/
structure DeviceInfo where
  devType : DeviceType
  physicalSector : Nat
  logicalSector : Nat
  eraseBlock : Nat
  chipId : Nat
  capacity : Nat
  queueDepth : Nat
  streamCount : Nat
  zoned : Bool
  rotational : Bool
deriving DecidableEq, Repr

/-- What is asked of a `struct request_queue`. -/
structure RequestQueue where
  zoned : Bool
  nonrot : Bool
  nvme : Bool
  smr : Bool
  rotational : Bool
  physicalSector : Nat
  logicalSector : Nat
  nrRequests : Nat
deriving DecidableEq, Repr

/-- `struct block_device`: its queue, if it has one, and its sectors. -/
structure BlockDevice where
  queue : Option RequestQueue
  nrSects : Nat
deriving DecidableEq, Repr

/-- `enum aetherfs_allocation_policy`. -/
inductive AllocPolicy
  | default | seqHdd | seqSsd | streamNvme | zoneAware | locality
deriving DecidableEq, Repr

/-- `struct aetherfs_allocation_context`. -/
structure AllocContext where
  policy : AllocPolicy
  preferredAg : Nat
  preferredDevice : Nat
  minExtentSize : Nat
  maxExtentSize : Nat
  hotness : Nat
  snapshotPressure : Nat
deriving DecidableEq, Repr

/-- The subsystems that use `s_private`. -/
inductive Subsystem
  | freeSpace | selfHeal | deviceInfo
deriving DecidableEq, Repr

/-- What an allocated structure is. -/
inductive Object
  | freeSpace (fsi : FreeSpaceInfo)
  | selfHeal (sh : SelfHealInfo)
  | deviceInfo (dev : DeviceInfo)

/-- Whose structure it is. -/
def Object.owner : Object → Subsystem
  | .freeSpace _ => .freeSpace
  | .selfHeal _ => .selfHeal
  | .deviceInfo _ => .deviceInfo

def Object.asFreeSpace : Object → Option FreeSpaceInfo
  | .freeSpace fsi => some fsi
  | _ => none

def Object.asSelfHeal : Object → Option SelfHealInfo
  | .selfHeal sh => some sh
  | _ => none

def Object.asDeviceInfo : Object → Option DeviceInfo
  | .deviceInfo dev => some dev
  | _ => none

/-- What the three subsystems use of a super block and its `struct aetherfs_sb_info`.  `heap` are
the structures that are allocated; `discard` is `blk_queue_discard` of the device. -/
structure Mount where
  sPrivate : Nat
  heap : Heap Object
  blocksize : Nat
  blocksCount : Nat
  freeBlocks : Nat
  nextIno : Nat
  dirty : Bool
  devCount : Nat
  discard : Bool

/-- How an operation goes wrong: `s_private` is not a structure of the type it is taken for, or the
remainder by a zero `s_dev_count` is taken. -/
inductive Fault
  | confused | divide
deriving DecidableEq, Repr

/-- `x = info->s_private`, and the use of `x`; `none` is the null pointer. -/
def Mount.privateAs {α : Type} (m : Mount) (cast : Object → Option α) : Except Fault (Option α) :=
  if m.sPrivate = 0 then .ok none
  else match (m.heap.lookup m.sPrivate).bind cast with
    | some x => .ok (some x)
    | none => .error .confused

/-- Write to the structure `s_private` points to. -/
def Mount.store (m : Mount) (obj : Object) : Mount :=
  { m with heap := m.heap.insert m.sPrivate obj }

/-- A structure is allocated, and `s_private` is set to it. -/
def Mount.install (m : Mount) (addr : Nat) (obj : Object) : Mount :=
  { m with sPrivate := addr, heap := m.heap.insert addr obj }

/-! ## 2. The initialisers

`addr` is what `kzalloc` gives for the structure, zero for nothing. -/

/-- `detect_device_type`. -/
def detectDeviceType (q : RequestQueue) : DeviceType :=
  if q.zoned then .zns
  else if q.nonrot then if q.nvme then .nvme else .sataSsd
  else if q.smr then .smr
  else .hdd

/-- What `aetherfs_self_heal_init` fills in. -/
def newSelfHealInfo : SelfHealInfo := ⟨.repair, 0, 86400, 0, 0⟩

/-- What `aetherfs_device_info_init` fills in.  The queue depth has eight bits. -/
def newDeviceInfo (bdev : BlockDevice) : DeviceInfo :=
  match bdev.queue with
  | none => ⟨.unknown, 0, 0, 0, 0, 0, 0, 0, false, false⟩
  | some q => ⟨detectDeviceType q, q.physicalSector, q.logicalSector, 0, 0, bdev.nrSects,
      q.nrRequests % 256, 0, q.zoned, q.rotational⟩

/-- `aetherfs_free_space_init`. -/
def Mount.freeSpaceInit (m : Mount) (addr agCount : Nat) : Except Errno Unit × Mount :=
  if addr = 0 then (.error .ENOMEM, m)
  else match AetherFs.freeSpaceInit agCount with
    | .error e => (.error e, m)
    | .ok fsi => (.ok (), m.install addr (.freeSpace fsi))

/-- `aetherfs_self_heal_init`. -/
def Mount.selfHealInit (m : Mount) (addr : Nat) : Except Errno Unit × Mount :=
  if addr = 0 then (.error .ENOMEM, m)
  else (.ok (), m.install addr (.selfHeal newSelfHealInfo))

/-- `aetherfs_device_info_init`. -/
def Mount.deviceInfoInit (m : Mount) (addr : Nat) (bdev : BlockDevice) :
    Except Errno Unit × Mount :=
  if addr = 0 then (.error .ENOMEM, m)
  else (.ok (), m.install addr (.deviceInfo (newDeviceInfo bdev)))

/-! ## 3. The operations -/

/-- `aetherfs_alloc_blocks_extended`. -/
def Mount.allocBlocksExtended (m : Mount) (count : Nat) (cls : AllocClass) (agHint : Nat) :
    Except Fault (Nat × Mount) :=
  if count = 0 then .ok (0, m)
  else do
    match ← m.privateAs Object.asFreeSpace with
    | none => .ok (0, m)
    | some fsi =>
      let info : AllocInfo := ⟨m.blocksCount, m.freeBlocks, m.nextIno, m.dirty, fsi⟩
      let (block, info) := AetherFs.allocBlocksExtended info count cls agHint
      .ok (block, { m.store (.freeSpace info.fsi) with freeBlocks := info.freeBlocks })

/-- `aetherfs_trim_all_free`: the ranges that are discarded, with starts in 32 bits. -/
def Mount.trimAllFree (m : Mount) : Except Fault (List (Nat × Nat)) := do
  match ← m.privateAs Object.asFreeSpace with
  | none => .ok []
  | some fsi =>
    if m.discard then
      .ok ((List.range fsi.agCount).map fun ag =>
        ((kernelDataStart + ag * blocksPerGroup) % 2 ^ 32, blocksPerGroup))
    else .ok []

/-- The body of `aetherfs_self_heal_repair_on_read` where there is a structure: what it returns, the
structure, and the block that is written back.  The buffer `bh` is verified, copied over what
`sb_getblk` gives for the same block number, and written as it is. -/
def repairOnRead (blocksize : Nat) (sh : SelfHealInfo) (bh : Memory) (uptodate getblk : Bool) :
    Except Errno Unit × SelfHealInfo × Option Memory :=
  if sh.mode = .disabled then (.ok (), sh, none)
  else match verifyDataChecksum blocksize bh with
    | (.ok (), _) => (.ok (), sh, none)
    | (.error _, bh) =>
      let sh := { sh with corruptionCount := (sh.corruptionCount + 1) % 2 ^ 32 }
      if sh.mode = .quarantine then (.error .EUCLEAN, sh, none)
      else if getblk = false then (.error .EIOERR, sh, none)
      else if uptodate then
        (.ok (), { sh with repairCount := (sh.repairCount + 1) % 2 ^ 32 }, some bh)
      else (.error .EIOERR, sh, none)

/-- `aetherfs_self_heal_repair_on_read`. -/
def Mount.selfHealRepairOnRead (m : Mount) (bh : Memory) (uptodate getblk : Bool) :
    Except Fault ((Except Errno Unit × Option Memory) × Mount) := do
  match ← m.privateAs Object.asSelfHeal with
  | none => .ok ((.ok (), none), m)
  | some sh =>
    let (rc, sh, written) := repairOnRead m.blocksize sh bh uptodate getblk
    .ok ((rc, written), m.store (.selfHeal sh))

/-- `aetherfs_scrub_status`: time of the last scrub, corruptions and repairs. -/
def Mount.scrubStatus (m : Mount) : Except Fault (Except Errno (Nat × Nat × Nat)) := do
  match ← m.privateAs Object.asSelfHeal with
  | none => .ok (.error .EINVAL)
  | some sh => .ok (.ok (sh.lastScrub, sh.corruptionCount, sh.repairCount))

/-- The switch of `aetherfs_alloc_init_context`, on processor `cpu`. -/
def contextFor (devType : DeviceType) (devCount requestedSize cpu : Nat) :
    Except Fault AllocContext :=
  let ctx : AllocContext := ⟨.default, 0, 0, 1, requestedSize, 0, 0⟩
  match devType with
  | .hdd => .ok { ctx with policy := .seqHdd, maxExtentSize := 256 }
  | .sataSsd => .ok { ctx with policy := .seqSsd, maxExtentSize := 128 }
  | .nvme =>
    if devCount = 0 then .error .divide
    else .ok { ctx with
      policy := .streamNvme, maxExtentSize := 64, preferredDevice := cpu % devCount }
  | .zns => .ok { ctx with policy := .zoneAware, maxExtentSize := 32 }
  | .smr => .ok { ctx with policy := .seqHdd, maxExtentSize := 512 }
  | .unknown => .ok ctx

/-- `aetherfs_alloc_init_context`.  Without a structure the device is taken for a hard disk. -/
def Mount.allocInitContext (m : Mount) (requestedSize cpu : Nat) : Except Fault AllocContext := do
  match ← m.privateAs Object.asDeviceInfo with
  | none => contextFor .hdd m.devCount requestedSize cpu
  | some dev => contextFor dev.devType m.devCount requestedSize cpu

/-- `aetherfs_get_device_stats`. -/
def Mount.getDeviceStats (m : Mount) : Except Fault (Except Errno DeviceInfo) := do
  match ← m.privateAs Object.asDeviceInfo with
  | none => .ok (.error .EINVAL)
  | some dev => .ok (.ok dev)

/-! ## 4. Initialisers and operations as calls -/

/-- A call of an initialiser. -/
inductive Init
  | freeSpace (agCount : Nat)
  | selfHeal
  | deviceInfo (bdev : BlockDevice)

def Init.owner : Init → Subsystem
  | .freeSpace _ => .freeSpace
  | .selfHeal => .selfHeal
  | .deviceInfo _ => .deviceInfo

/-- The structure it builds.  `aetherfs_free_space_init` has bitmaps of more than no bits. -/
def Init.built : Init → Object
  | .freeSpace agCount => .freeSpace ⟨agCount, fun _ => ⟨fun _ => false, groupBits, groupBits⟩⟩
  | .selfHeal => .selfHeal newSelfHealInfo
  | .deviceInfo bdev => .deviceInfo (newDeviceInfo bdev)

/-- A call of an initialiser, and the address its structure is given. -/
structure Setup where
  init : Init
  addr : Nat

def Setup.run (m : Mount) (i : Setup) : Mount :=
  match i.init with
  | .freeSpace agCount => (m.freeSpaceInit i.addr agCount).2
  | .selfHeal => (m.selfHealInit i.addr).2
  | .deviceInfo bdev => (m.deviceInfoInit i.addr bdev).2

/-- The initialisers, in the order they are called in. -/
def setUp (m : Mount) (order : List Setup) : Mount := order.foldl Setup.run m

/-- A call of an operation. -/
inductive Op
  | allocBlocksExtended (count : Nat) (cls : AllocClass) (agHint : Nat)
  | trimAllFree
  | selfHealRepairOnRead (bh : Memory) (uptodate getblk : Bool)
  | scrubStatus
  | allocInitContext (requestedSize cpu : Nat)
  | getDeviceStats

def Op.owner : Op → Subsystem
  | .allocBlocksExtended _ _ _ => .freeSpace
  | .trimAllFree => .freeSpace
  | .selfHealRepairOnRead _ _ _ => .selfHeal
  | .scrubStatus => .selfHeal
  | .allocInitContext _ _ => .deviceInfo
  | .getDeviceStats => .deviceInfo

/-- What an operation gives back. -/
inductive Reply
  | block (block : Nat)
  | discarded (ranges : List (Nat × Nat))
  | repaired (rc : Except Errno Unit) (written : Option Memory)
  | status (rc : Except Errno (Nat × Nat × Nat))
  | context (ctx : AllocContext)
  | stats (rc : Except Errno DeviceInfo)

def Op.run (m : Mount) : Op → Except Fault (Reply × Mount)
  | .allocBlocksExtended count cls agHint =>
    (m.allocBlocksExtended count cls agHint).map fun (block, m') => (.block block, m')
  | .trimAllFree => m.trimAllFree.map fun ranges => (.discarded ranges, m)
  | .selfHealRepairOnRead bh uptodate getblk =>
    (m.selfHealRepairOnRead bh uptodate getblk).map fun (r, m') => (.repaired r.1 r.2, m')
  | .scrubStatus => m.scrubStatus.map fun rc => (.status rc, m)
  | .allocInitContext size cpu => (m.allocInitContext size cpu).map fun ctx => (.context ctx, m)
  | .getDeviceStats => m.getDeviceStats.map fun rc => (.stats rc, m)

/-- One operation after another. -/
def perform (m : Mount) : List Op → Except Fault Mount
  | [] => .ok m
  | op :: ops =>
    match op.run m with
    | .error fault => .error fault
    | .ok (_, m') => perform m' ops

/-- What an operation gives back and what it leaves in memory. -/
def Op.outcome (m : Mount) (op : Op) : Except Fault (Reply × Heap Object × Nat) :=
  (op.run m).map fun (reply, m') => (reply, m'.heap, m'.freeBlocks)

/-! ## 5. Isolation -/

/-- The operation acts on the structure at `addr`: all it gives back and leaves in memory is as if
the pointer to that structure were the one it takes, and the type is right. -/
def ActsOn (m : Mount) (addr : Nat) (op : Op) : Prop :=
  op.outcome m = op.outcome { m with sPrivate := addr } ∧ op.outcome m ≠ .error .confused

/-- **Per-mount state is isolated.**  What each initialiser built is there, and whatever operations
of the initialised subsystems are called, the next one acts on its own subsystem's structure. -/
structure Isolated (order : List Setup) (m : Mount) : Prop where
  kept : ∀ i ∈ order, m.heap.lookup i.addr = some i.init.built
  own : ∀ (ops : List Op) (m' : Mount), (∀ op ∈ ops, ∃ i ∈ order, op.owner = i.init.owner) →
    perform m ops = .ok m' → ∀ i ∈ order, ∀ op : Op, op.owner = i.init.owner →
      ActsOn m' i.addr op

/-! ## 6. What the initialisers leave -/

section SetUp

theorem Init.built_owner (init : Init) : init.built.owner = init.owner := by
  cases init with
  | freeSpace agCount => rfl
  | selfHeal => rfl
  | deviceInfo bdev => rfl

/-- Where memory is given, an initialiser installs its structure. -/
theorem Setup.run_eq (m : Mount) {i : Setup} (haddr : i.addr ≠ 0) :
    i.run m = m.install i.addr i.init.built := by
  obtain ⟨init, addr⟩ := i
  cases init with
  | freeSpace agCount =>
    have hbits : AetherFs.freeSpaceInit agCount =
        .ok ⟨agCount, fun _ => ⟨fun _ => false, groupBits, groupBits⟩⟩ := rfl
    simp only [Setup.run, Mount.freeSpaceInit, if_neg haddr, hbits, Init.built]
  | selfHeal => simp only [Setup.run, Mount.selfHealInit, if_neg haddr, Init.built]
  | deviceInfo bdev => simp only [Setup.run, Mount.deviceInfoInit, if_neg haddr, Init.built]

variable {order : List Setup} (m : Mount)

theorem setUp_frame {a : Nat} (hnull : ∀ i ∈ order, i.addr ≠ 0) (ha : ∀ i ∈ order, a ≠ i.addr) :
    (setUp m order).heap.lookup a = m.heap.lookup a := by
  induction order generalizing m with
  | nil => rfl
  | cons i order ih =>
    obtain ⟨hi, hnull⟩ := List.forall_mem_cons.mp hnull
    obtain ⟨hai, ha⟩ := List.forall_mem_cons.mp ha
    have hstep : setUp m (i :: order) = setUp (m.install i.addr i.init.built) order := by
      rw [← Setup.run_eq m hi]
      rfl
    rw [hstep, ih _ hnull ha]
    exact (lookup_insert_ite _ _ _ _).trans (if_neg hai)

/-- **Every structure stays as its initialiser built it.** -/
theorem setUp_kept (hnull : ∀ i ∈ order, i.addr ≠ 0) (hdistinct : (order.map Setup.addr).Nodup) :
    ∀ i ∈ order, (setUp m order).heap.lookup i.addr = some i.init.built := by
  induction order generalizing m with
  | nil =>
    intro i hi
    exact absurd hi List.not_mem_nil
  | cons j order ih =>
    obtain ⟨hj, hrest⟩ := List.forall_mem_cons.mp hnull
    obtain ⟨hout, hdrest⟩ := List.nodup_cons.mp hdistinct
    have hstep : setUp m (j :: order) = setUp (m.install j.addr j.init.built) order := by
      rw [← Setup.run_eq m hj]
      rfl
    intro i hi
    rw [hstep]
    rcases List.mem_cons.mp hi with rfl | hi
    · rw [setUp_frame _ hrest]
      · exact (lookup_insert_ite _ _ _ _).trans (if_pos rfl)
      · intro k hk heq
        exact hout (heq ▸ List.mem_map_of_mem hk)
    · exact ih _ hrest hdrest i hi

/-- **The pointer is the last initialiser's.** -/
theorem setUp_sPrivate {j : Setup} (hj : j.addr ≠ 0) :
    (setUp m (order ++ [j])).sPrivate = j.addr := by
  have hlast : setUp m (order ++ [j]) = j.run (setUp m order) := by
    rw [setUp, List.foldl_append]
    rfl
  rw [hlast, Setup.run_eq _ hj]
  rfl

end SetUp

/-! ## 7. What the operations need -/

section Operations

variable {m : Mount} {obj : Object}

theorem privateAs_eq {α : Type} (cast : Object → Option α) (hne : m.sPrivate ≠ 0)
    (hobj : m.heap.lookup m.sPrivate = some obj) :
    m.privateAs cast = (cast obj).elim (.error .confused) fun x => .ok (some x) := by
  rw [Mount.privateAs, if_neg hne, hobj, Option.bind_some]
  cases cast obj with
  | none => rfl
  | some x => rfl

/-- `s_private` is the pointer to a structure of the subsystem. -/
structure Owned (m : Mount) (owner : Subsystem) : Prop where
  nonnull : m.sPrivate ≠ 0
  typed : ∃ obj, m.heap.lookup m.sPrivate = some obj ∧ obj.owner = owner

theorem Owned.privateAs {α : Type} {owner : Subsystem} (h : Owned m owner)
    {cast : Object → Option α} (hcast : ∀ obj : Object, obj.owner = owner → ∃ x, cast obj = some x) :
    ∃ x, m.privateAs cast = .ok (some x) := by
  obtain ⟨hne, obj, hobj, howner⟩ := h
  obtain ⟨x, hx⟩ := hcast obj howner
  refine ⟨x, ?_⟩
  rw [privateAs_eq cast hne hobj, hx]
  rfl

theorem Owned.freeSpace (h : Owned m .freeSpace) :
    ∃ fsi, m.privateAs Object.asFreeSpace = .ok (some fsi) :=
  h.privateAs fun
    | .freeSpace fsi, _ => ⟨fsi, rfl⟩

theorem Owned.selfHeal (h : Owned m .selfHeal) :
    ∃ sh, m.privateAs Object.asSelfHeal = .ok (some sh) :=
  h.privateAs fun
    | .selfHeal sh, _ => ⟨sh, rfl⟩

theorem Owned.deviceInfo (h : Owned m .deviceInfo) :
    ∃ dev, m.privateAs Object.asDeviceInfo = .ok (some dev) :=
  h.privateAs fun
    | .deviceInfo dev, _ => ⟨dev, rfl⟩

theorem Owned.store {owner : Subsystem} (h : Owned m owner) (hobj : obj.owner = owner) :
    Owned (m.store obj) owner :=
  ⟨h.nonnull, obj, (lookup_insert_ite _ _ _ _).trans (if_pos rfl), hobj⟩

theorem contextFor_not_confused (devType : DeviceType) (devCount requestedSize cpu : Nat) :
    contextFor devType devCount requestedSize cpu ≠ .error .confused := by
  cases devType with
  | nvme =>
    rw [contextFor]
    split
    · simp
    · simp
  | unknown => simp [contextFor]
  | hdd => simp [contextFor]
  | sataSsd => simp [contextFor]
  | zns => simp [contextFor]
  | smr => simp [contextFor]

/-- What is asked of an operation on its own structure: it is not confused, and it leaves the
pointer and the type as they are. -/
def Keeps (m : Mount) (owner : Subsystem) : Except Fault (Reply × Mount) → Prop
  | .ok (_, m') => Owned m' owner ∧ m'.sPrivate = m.sPrivate
  | .error fault => fault ≠ .confused

/-- **An operation keeps its own structure.** -/
theorem Op.run_keeps {op : Op} (h : Owned m op.owner) : Keeps m op.owner (op.run m) := by
  cases op with
  | allocBlocksExtended count cls agHint =>
    obtain ⟨fsi, hfsi⟩ := Owned.freeSpace h
    simp only [Op.run, Mount.allocBlocksExtended, hfsi]
    split
    · exact ⟨h, rfl⟩
    · have hstore : ∀ fsi', Owned (m.store (.freeSpace fsi')) .freeSpace := fun _ => h.store rfl
      exact ⟨⟨h.nonnull, (hstore _).typed⟩, rfl⟩
  | trimAllFree =>
    obtain ⟨fsi, hfsi⟩ := Owned.freeSpace h
    simp only [Op.run, Mount.trimAllFree, hfsi]
    cases m.discard with
    | false => exact ⟨h, rfl⟩
    | true => exact ⟨h, rfl⟩
  | selfHealRepairOnRead bh uptodate getblk =>
    obtain ⟨sh, hsh⟩ := Owned.selfHeal h
    simp only [Op.run, Mount.selfHealRepairOnRead, hsh]
    exact ⟨h.store rfl, rfl⟩
  | scrubStatus =>
    obtain ⟨sh, hsh⟩ := Owned.selfHeal h
    simp only [Op.run, Mount.scrubStatus, hsh]
    exact ⟨h, rfl⟩
  | allocInitContext size cpu =>
    obtain ⟨dev, hdev⟩ := Owned.deviceInfo h
    simp only [Op.run, Mount.allocInitContext, hdev, ok_bind]
    cases hctx : contextFor dev.devType m.devCount size cpu with
    | error fault =>
      have hne := contextFor_not_confused dev.devType m.devCount size cpu
      rw [hctx] at hne
      exact fun heq => hne (congrArg Except.error heq)
    | ok ctx => exact ⟨h, rfl⟩
  | getDeviceStats =>
    obtain ⟨dev, hdev⟩ := Owned.deviceInfo h
    simp only [Op.run, Mount.getDeviceStats, hdev]
    exact ⟨h, rfl⟩

end Operations

section Isolation

/-- An operation that always takes the pointer. -/
def Subsystem.probe : Subsystem → Op
  | .freeSpace => .trimAllFree
  | .selfHeal => .scrubStatus
  | .deviceInfo => .getDeviceStats

theorem Subsystem.probe_owner (owner : Subsystem) : owner.probe.owner = owner := by
  cases owner with
  | freeSpace => rfl
  | selfHeal => rfl
  | deviceInfo => rfl

variable {m : Mount}

/-- **On another subsystem's structure it is confused.** -/
theorem probe_confused {obj : Object} {owner : Subsystem} (hne : m.sPrivate ≠ 0)
    (hobj : m.heap.lookup m.sPrivate = some obj) (howner : obj.owner ≠ owner) :
    owner.probe.outcome m = .error .confused := by
  cases owner with
  | freeSpace =>
    have hcast : m.privateAs Object.asFreeSpace = .error .confused := by
      rw [privateAs_eq _ hne hobj]
      cases obj with
      | freeSpace fsi => exact absurd rfl howner
      | selfHeal sh => rfl
      | deviceInfo dev => rfl
    simp only [Subsystem.probe, Op.outcome, Op.run, Mount.trimAllFree, hcast]
    rfl
  | selfHeal =>
    have hcast : m.privateAs Object.asSelfHeal = .error .confused := by
      rw [privateAs_eq _ hne hobj]
      cases obj with
      | freeSpace fsi => rfl
      | selfHeal sh => exact absurd rfl howner
      | deviceInfo dev => rfl
    simp only [Subsystem.probe, Op.outcome, Op.run, Mount.scrubStatus, hcast]
    rfl
  | deviceInfo =>
    have hcast : m.privateAs Object.asDeviceInfo = .error .confused := by
      rw [privateAs_eq _ hne hobj]
      cases obj with
      | freeSpace fsi => rfl
      | selfHeal sh => rfl
      | deviceInfo dev => exact absurd rfl howner
    simp only [Subsystem.probe, Op.outcome, Op.run, Mount.getDeviceStats, hcast]
    rfl

theorem actsOn_owned {op : Op} (h : Owned m op.owner) : ActsOn m m.sPrivate op := by
  refine ⟨rfl, fun hout => ?_⟩
  have hkeeps := Op.run_keeps h
  rw [Op.outcome] at hout
  cases hrun : op.run m with
  | error fault =>
    rw [hrun] at hout hkeeps
    cases hout
    exact hkeeps rfl
  | ok r =>
    rw [hrun] at hout
    cases hout

/-- Whatever operations of the one subsystem are performed, it keeps its structure. -/
theorem perform_owned {owner : Subsystem} (ops : List Op) : ∀ {m m' : Mount}, Owned m owner →
    (∀ op ∈ ops, op.owner = owner) → perform m ops = .ok m' →
      Owned m' owner ∧ m'.sPrivate = m.sPrivate := by
  induction ops with
  | nil =>
    intro m m' h _ hrun
    obtain rfl : m = m' := Except.ok.inj hrun
    exact ⟨h, rfl⟩
  | cons op ops ih =>
    intro m m' h howner hrun
    obtain ⟨hop, hops⟩ := List.forall_mem_cons.mp howner
    subst hop
    have hkeeps := Op.run_keeps h
    rw [perform] at hrun
    cases hstep : op.run m with
    | error fault =>
      rw [hstep] at hrun
      cases hrun
    | ok r =>
      rw [hstep] at hrun hkeeps
      obtain ⟨hnext, hptr⟩ := hkeeps
      obtain ⟨hend, hptr'⟩ := ih hnext hops hrun
      exact ⟨hend, hptr'.trans hptr⟩

theorem isolated_single (m : Mount) {i : Setup} (haddr : i.addr ≠ 0) :
    Isolated [i] (setUp m [i]) := by
  have hkept : (setUp m [i]).heap.lookup i.addr = some i.init.built := by
    refine @setUp_kept [i] m ?_ (List.nodup_singleton _) i (List.mem_singleton.mpr rfl)
    intro j hj
    rw [List.mem_singleton.mp hj]
    exact haddr
  have hptr : (setUp m [i]).sPrivate = i.addr := @setUp_sPrivate [] m i haddr
  have howned : Owned (setUp m [i]) i.init.owner :=
    ⟨hptr ▸ haddr, i.init.built, hptr ▸ hkept, Init.built_owner _⟩
  refine ⟨fun j hj => ?_, fun ops m' hops hrun j hj op hop => ?_⟩
  · rw [List.mem_singleton.mp hj]
    exact hkept
  · have hall : ∀ op ∈ ops, op.owner = i.init.owner := by
      intro op' hop'
      obtain ⟨k, hk, howner⟩ := hops op' hop'
      rw [List.mem_singleton.mp hk] at howner
      exact howner
    obtain ⟨hend, hsame⟩ := perform_owned ops howned hall hrun
    rw [List.mem_singleton.mp hj] at hop ⊢
    rw [← hptr, ← hsame]
    exact actsOn_owned (hop ▸ hend)

end Isolation

/-- **The subsystems are isolated exactly when at most one is initialised**: for any selection of
the three initialisers, in any order, each given memory of its own. -/
theorem private_state_isolated_iff (m : Mount) (order : List Setup)
    (hnull : ∀ i ∈ order, i.addr ≠ 0) (hdistinct : (order.map Setup.addr).Nodup)
    (honce : (order.map fun i => i.init.owner).Nodup) :
    Isolated order (setUp m order) ↔ order.length ≤ 1 := by
  constructor
  · intro h
    rcases List.eq_nil_or_concat' order with rfl | ⟨front, j, rfl⟩
    · exact Nat.zero_le 1
    · cases front with
      | nil => exact Nat.le_refl 1
      | cons i front =>
        -- `j` has the pointer; `i` takes it for its own
        have hi : i ∈ (i :: front) ++ [j] := List.mem_append_left _ List.mem_cons_self
        have hj : j ∈ (i :: front) ++ [j] := List.mem_append_right _ (List.mem_singleton.mpr rfl)
        have hptr := @setUp_sPrivate (i :: front) m j (hnull j hj)
        have hkept := setUp_kept m hnull hdistinct j hj
        have howner : j.init.built.owner ≠ i.init.owner := by
          intro heq
          rw [Init.built_owner] at heq
          refine (List.nodup_cons.mp honce).1 (List.mem_map.mpr ⟨j, ?_, heq⟩)
          exact List.mem_append_right _ (List.mem_singleton.mpr rfl)
        have hconf := probe_confused (hptr ▸ hnull j hj) (hptr ▸ hkept) howner
        have hacts := h.own [] _ (fun op hop => absurd hop List.not_mem_nil) rfl i hi
          i.init.owner.probe (Subsystem.probe_owner _)
        exact absurd hconf hacts.2
  · intro hlen
    match order with
    | [] =>
      refine ⟨fun i hi => absurd hi List.not_mem_nil, ?_⟩
      intro ops m' _ _ i hi
      exact absurd hi List.not_mem_nil
    | [i] => exact isolated_single m (hnull i (List.mem_singleton.mpr rfl))
    | _ :: _ :: _ => exact absurd hlen (by simp)

/-- A super block before any of the three is initialised. -/
def freshMount : Mount := ⟨0, ∅, 4096, 65536, 65000, 17, false, 1, true⟩

/-- Self-healing alone. -/
theorem private_state_isolated_heal :
    Isolated [⟨.selfHeal, 1⟩] (setUp freshMount [⟨.selfHeal, 1⟩]) := by
  refine (private_state_isolated_iff freshMount [⟨.selfHeal, 1⟩] ?_ ?_ ?_).mpr (Nat.le_refl 1)
  · intro i hi
    rw [List.mem_singleton.mp hi]
    exact Nat.one_ne_zero
  · exact List.nodup_singleton _
  · exact List.nodup_singleton _

/-- Self-healing after the allocator: an allocation takes the healing counters for its bitmaps,
where with its own structure it would have found block 7. -/
theorem allocator_finds_healer :
    let m := setUp freshMount [⟨.freeSpace 4, 1⟩, ⟨.selfHeal, 2⟩]
    (m.allocBlocksExtended 1 .hot 0).map Prod.fst = .error .confused ∧
      (({ m with sPrivate := 1 } : Mount).allocBlocksExtended 1 .hot 0).map Prod.fst = .ok 7 ∧
      ¬ Isolated [⟨.freeSpace 4, 1⟩, ⟨.selfHeal, 2⟩] m := by
  intro m
  have hconf : (m.allocBlocksExtended 1 .hot 0).map Prod.fst = .error .confused := by
    decide +kernel
  refine ⟨hconf, by decide +kernel, fun h => ?_⟩
  have hacts := h.own [] m (fun op hop => absurd hop List.not_mem_nil) rfl ⟨.freeSpace 4, 1⟩
    List.mem_cons_self (.allocBlocksExtended 1 .hot 0) rfl
  refine hacts.2 ?_
  cases hrun : m.allocBlocksExtended 1 .hot 0 with
  | error fault =>
    rw [hrun] at hconf
    cases hconf
    simp only [Op.outcome, Op.run, hrun]
    rfl
  | ok r =>
    rw [hrun] at hconf
    cases hconf

end AetherFs.Private
