/-
# The intent log in memory

`Journal` has the log as a list.  In `journal.c` it is an array of 1024 entries and a count, and the
functions work on it in place: `aetherfs_intent_create` writes the entry behind the last one,
`aetherfs_intent_apply` and `aetherfs_intent_commit` set a flag in the entries they select, and
`aetherfs_intent_clear` deletes entries by moving the rest of the array down, stepping its index
back -- below zero, when it deletes the first -- while the bound of its loop shrinks.

* `clearLoop_records` is that loop: for every array, the entries in front of the index stay, and of
  those behind it the selected ones are gone and the others follow in their order.
* The four functions refine the list functions of `Journal`: `log` of the array after a call is the
  call on the `log` before (`create_log`, `apply_log`, `commit_log`, `clear_log`).  So what is proved
  there about runs is proved of the array.
* A transaction that is committed and then cleared leaves nothing behind, and takes nothing else
  with it (`commit_clear_log`).
-/
import AetherFs.Format
import AetherFs.Lib.Records
import AetherFs.Kernel.Checksum
import AetherFs.Kernel.Journal

namespace AetherFs

open Lib

/-! ## 1. Entries -/

/-- `struct aetherfs_intent_entry`. -/
abbrev IntentEntry := Bytes 64

section Fields

variable (e : IntentEntry)

def ieType : Nat := le32 e 4
def ieFlags : Nat := le32 e 8
def ieTxnId : Nat := le64 e 16
def ieTargetIno : Nat := le64 e 24
def ieTargetBlock : Nat := le64 e 32
def ieNewBlock : Nat := le64 e 40
def ieSize : Nat := le64 e 48

end Fields

/-- `AETHERFS_INTENT_MAGIC`. -/
def intentMagic : Nat := 0x494E5445

/-- The values of `enum aetherfs_intent_state`. -/
def IntentState.code : IntentState → Nat
  | .pending => 0
  | .applied => 1
  | .committed => 2
  | .replayed => 3

/-- The state a value of `ie_flags` stands for; the source writes no value above 3. -/
def IntentState.ofCode : Nat → IntentState
  | 0 => .pending
  | 1 => .applied
  | 2 => .committed
  | _ => .replayed

@[simp] theorem IntentState.ofCode_code (s : IntentState) : ofCode s.code = s := by
  cases s with
  | pending => rfl
  | applied => rfl
  | committed => rfl
  | replayed => rfl

theorem IntentState.ofCode_eq_pending {n : Nat} : ofCode n = .pending ↔ n = 0 := by
  unfold ofCode
  split <;> simp_all

theorem IntentState.ofCode_eq_committed {n : Nat} : ofCode n = .committed ↔ n = 2 := by
  unfold ofCode
  split <;> simp_all

/-- What `Journal` keeps of an entry. -/
def Intent.ofEntry (e : IntentEntry) : Intent where
  type := ieType e
  flags := IntentState.ofCode (ieFlags e)
  txnId := ieTxnId e
  targetIno := ieTargetIno e
  targetBlock := ieTargetBlock e
  newBlock := ieNewBlock e
  size := ieSize e

/-! ## 2. The source -/

/-- `struct aetherfs_intent_runtime`: `il_capacity` entries, of which `il_count` are in use. -/
structure IntentRuntime where
  intents : Memory
  count : Nat
  count_le : count ≤ intentCapacity

/-- The entries in use. -/
def IntentRuntime.entries (rt : IntentRuntime) : List IntentEntry := records rt.intents 0 rt.count

/-- The log as `Journal` has it. -/
def IntentRuntime.log (rt : IntentRuntime) : List Intent := rt.entries.map Intent.ofEntry

/-- The entry `aetherfs_intent_create` writes, over what was there: `ie_state` and `ie_padding` stay
as they were. -/
def storeIntent (m : Memory) (i type targetIno oldBlock newBlock size txnId : Nat) : Memory :=
  let m := setLE m (64 * i + 0) 4 intentMagic
  let m := setLE m (64 * i + 4) 4 type
  let m := setLE m (64 * i + 8) 4 IntentState.pending.code
  let m := setLE m (64 * i + 16) 8 txnId
  let m := setLE m (64 * i + 24) 8 targetIno
  let m := setLE m (64 * i + 32) 8 oldBlock
  let m := setLE m (64 * i + 40) 8 newBlock
  let m := setLE m (64 * i + 48) 8 size
  setLE m (64 * i + 56) 4 (hashed m (64 * i) 60)

/-- The entries of one transaction that are committed. -/
def intentDone (txnId : Nat) (e : IntentEntry) : Bool :=
  ieTxnId e = txnId ∧ ieFlags e = IntentState.committed.code

section Index

variable {i count : UInt64}

theorem toNat_succ (h : i < count) : (i + 1).toNat = i.toNat + 1 := by
  have hlt := UInt64.lt_iff_toNat_lt.mp h
  have hcount := count.toNat_lt
  rw [UInt64.toNat_add]
  simp only [UInt64.toNat_one]
  omega

theorem toNat_pred (h : i < count) : (count - 1).toNat = count.toNat - 1 := by
  have hlt := UInt64.lt_iff_toNat_lt.mp h
  have hcount := count.toNat_lt
  rw [UInt64.toNat_sub]
  simp only [UInt64.toNat_one]
  omega

end Index

/-- The loop of `aetherfs_intent_clear`.  `i--` is undone by the `i++` of the loop, in `size_t`. -/
def clearLoop (txnId : Nat) (m : Memory) (count i : UInt64) (removed : Nat) :
    Memory × UInt64 × Nat :=
  if h : i < count then
    let intent : IntentEntry := recordAt m i.toNat
    if ieTxnId intent ≠ txnId then clearLoop txnId m count (i + 1) removed
    else if ieFlags intent = IntentState.committed.code then
      let m := moveBytes m (64 * i.toNat) (64 * (i.toNat + 1)) ((count - i - 1) * 64).toNat
      clearLoop txnId m (count - 1) (i - 1 + 1) (removed + 1)
    else clearLoop txnId m count (i + 1) removed
  else (m, count, removed)
termination_by count.toNat - i.toNat
decreasing_by
  all_goals have hlt := UInt64.lt_iff_toNat_lt.mp h
  · rw [toNat_succ h]
    omega
  · rw [UInt64.sub_add_cancel, toNat_pred h]
    omega
  · rw [toNat_succ h]
    omega

/-! ## 3. The loop that deletes -/

theorem toNat_moved {i count : UInt64} (h : i < count) (hcap : count.toNat ≤ intentCapacity) :
    ((count - i - 1) * 64).toNat = 64 * (count.toNat - 1 - i.toNat) := by
  have hlt := UInt64.lt_iff_toNat_lt.mp h
  have hi := i.toNat_lt
  simp only [intentCapacity] at hcap
  rw [UInt64.toNat_mul, UInt64.toNat_sub, UInt64.toNat_sub]
  simp only [UInt64.toNat_ofNat]
  omega

/-- What the loop makes of an array, from its index on. -/
structure Cleared (txnId : Nat) (m : Memory) (count i : UInt64) (removed : Nat)
    (out : Memory × UInt64 × Nat) : Prop where
  kept : (records out.1 0 out.2.1.toNat : List IntentEntry) = records m 0 i.toNat ++
    (records m i.toNat (count.toNat - i.toNat)).filter fun e => !intentDone txnId e
  removed : out.2.2 = removed +
    (records m i.toNat (count.toNat - i.toNat) : List IntentEntry).countP (intentDone txnId)

section Turn

variable {txnId removed : Nat} {m : Memory} {count i : UInt64} {out : Memory × UInt64 × Nat}

theorem records_left (h : i < count) :
    (records m i.toNat (count.toNat - i.toNat) : List IntentEntry)
      = recordAt m i.toNat :: records m (i.toNat + 1) (count.toNat - (i.toNat + 1)) := by
  have hlt := UInt64.lt_iff_toNat_lt.mp h
  have hsize : count.toNat - i.toNat = count.toNat - (i.toNat + 1) + 1 := by omega
  rw [hsize, records_succ]

theorem Cleared.keep (h : i < count) (hkeep : intentDone txnId (recordAt m i.toNat) = false)
    (hrest : Cleared txnId m count (i + 1) removed out) : Cleared txnId m count i removed out := by
  obtain ⟨hkept, hremoved⟩ := hrest
  rw [toNat_succ h] at hkept hremoved
  refine ⟨?_, ?_⟩
  · rw [hkept, records_left h, List.filter_cons_of_pos (by simp [hkeep]), records_snoc,
      Nat.zero_add, List.append_assoc, List.singleton_append]
  · rw [hremoved, records_left h, List.countP_cons_of_neg (by simp [hkeep])]

/-- A turn that deletes its entry: the next one is in its place. -/
theorem Cleared.delete (h : i < count) (hcap : count.toNat ≤ intentCapacity)
    (hdone : intentDone txnId (recordAt m i.toNat) = true)
    (hrest : Cleared txnId
      (moveBytes m (64 * i.toNat) (64 * (i.toNat + 1)) ((count - i - 1) * 64).toNat) (count - 1) i
      (removed + 1) out) : Cleared txnId m count i removed out := by
  obtain ⟨hkept, hremoved⟩ := hrest
  obtain ⟨hfront, hbehind⟩ := @records_close 64 m i.toNat (count.toNat - 1 - i.toNat)
  have hsize : count.toNat - (i.toNat + 1) = count.toNat - 1 - i.toNat := by omega
  rw [toNat_moved h hcap, toNat_pred h, hbehind] at hkept hremoved
  rw [hfront] at hkept
  refine ⟨?_, ?_⟩
  · rw [hkept, records_left h, List.filter_cons_of_neg (by simp [hdone]), hsize]
  · rw [hremoved, records_left h, List.countP_cons_of_pos hdone, hsize]
    omega

end Turn

/-- **The loop**: it keeps what is in front of its index, and of what is behind it exactly the
entries that are not to be removed, in their order. -/
theorem clearLoop_records (txnId : Nat) (m : Memory) (count i : UInt64) (removed : Nat)
    (hi : i.toNat ≤ count.toNat) (hcap : count.toNat ≤ intentCapacity) :
    Cleared txnId m count i removed (clearLoop txnId m count i removed) := by
  fun_induction clearLoop txnId m count i removed with
  | case1 m count i removed h intent hother ih =>
    have hlt := UInt64.lt_iff_toNat_lt.mp h
    refine Cleared.keep h ?_ (ih ?_ hcap)
    · simp only [intentDone, decide_eq_false_iff_not]
      exact fun hboth => hother hboth.1
    · rw [toNat_succ h]
      exact hlt
  | case2 m count i removed h intent htxn hflags m' ih =>
    have hlt := UInt64.lt_iff_toNat_lt.mp h
    rw [UInt64.sub_add_cancel] at ih ⊢
    refine Cleared.delete h hcap ?_ (ih ?_ ?_)
    · simp only [intentDone, decide_eq_true_eq]
      exact ⟨not_not.mp htxn, hflags⟩
    · rw [toNat_pred h]
      omega
    · rw [toNat_pred h]
      omega
  | case3 m count i removed h intent htxn hflags ih =>
    have hlt := UInt64.lt_iff_toNat_lt.mp h
    refine Cleared.keep h ?_ (ih ?_ hcap)
    · simp only [intentDone, decide_eq_false_iff_not]
      exact fun hboth => hflags hboth.2
    · rw [toNat_succ h]
      exact hlt
  | case4 m count i removed h =>
    have hge : ¬ i.toNat < count.toNat := fun hlt => h (UInt64.lt_iff_toNat_lt.mpr hlt)
    have hend : count.toNat = i.toNat := by omega
    refine ⟨?_, ?_⟩
    · simp only [hend, Nat.sub_self, records_zero, List.filter_nil, List.append_nil]
    · simp only [hend, Nat.sub_self, records_zero, List.countP_nil, Nat.add_zero]

/-! ## 4. The functions on the array -/

namespace IntentRuntime

variable (rt : IntentRuntime)

/-- `aetherfs_intent_create`. -/
def intentCreate (type targetIno oldBlock newBlock size txnId : Nat) :
    Except Errno IntentRuntime :=
  if type = 0 ∨ txnId = 0 then .error .EINVAL
  else if h : rt.count ≥ intentCapacity then .error .ENOSPC
  else .ok {
    intents := storeIntent rt.intents rt.count type targetIno oldBlock newBlock size txnId
    count := rt.count + 1
    count_le := Nat.not_le.mp h }

/-- `aetherfs_intent_apply`: how many entries it has applied, and the array. -/
def intentApply (txnId : Nat) : Nat × IntentRuntime :=
  let selected := fun e : IntentEntry =>
    decide (ieTxnId e = txnId ∧ ieFlags e = IntentState.pending.code)
  (rt.entries.countP selected,
    { rt with intents := setEach rt.intents selected 8 4 IntentState.applied.code rt.count })

/-- `aetherfs_intent_commit`. -/
def intentCommit (txnId : Nat) : IntentRuntime :=
  let selected := fun e : IntentEntry => decide (ieTxnId e = txnId)
  { rt with intents := setEach rt.intents selected 8 4 IntentState.committed.code rt.count }

theorem toNat_count : (UInt64.ofNat rt.count).toNat = rt.count := by
  have hle := rt.count_le
  simp only [intentCapacity] at hle
  rw [UInt64.toNat_ofNat']
  exact Nat.mod_eq_of_lt (by omega)

theorem cleared (txnId : Nat) : Cleared txnId rt.intents (UInt64.ofNat rt.count) 0 0
    (clearLoop txnId rt.intents (UInt64.ofNat rt.count) 0 0) := by
  refine clearLoop_records _ _ _ _ _ (Nat.zero_le _) ?_
  rw [toNat_count]
  exact rt.count_le

theorem cleared_records (txnId : Nat) :
    (records (clearLoop txnId rt.intents (UInt64.ofNat rt.count) 0 0).1 0
      (clearLoop txnId rt.intents (UInt64.ofNat rt.count) 0 0).2.1.toNat : List IntentEntry)
        = rt.entries.filter fun e => !intentDone txnId e := by
  have hkept := (rt.cleared txnId).kept
  simp only [UInt64.toNat_zero, records_zero, Nat.sub_zero, List.nil_append, toNat_count] at hkept
  exact hkept

theorem cleared_count (txnId : Nat) :
    (clearLoop txnId rt.intents (UInt64.ofNat rt.count) 0 0).2.1.toNat
      = (rt.entries.filter fun e => !intentDone txnId e).length := by
  rw [← rt.cleared_records txnId, records_length]

/-- `aetherfs_intent_clear`: the `int` it returns, and the array. -/
def intentClear (txnId : Nat) : Int × IntentRuntime :=
  let out := clearLoop txnId rt.intents (UInt64.ofNat rt.count) 0 0
  ((BitVec.ofNat 32 out.2.2).toInt,
    { intents := out.1
      count := out.2.1.toNat
      count_le := by
        rw [cleared_count]
        refine (List.length_filter_le _ _).trans ?_
        rw [entries, records_length]
        exact rt.count_le })

theorem intentClear_entries (txnId : Nat) :
    (rt.intentClear txnId).2.entries = rt.entries.filter fun e => !intentDone txnId e :=
  rt.cleared_records txnId

/-- At most the capacity is removed, so the `int` does not wrap. -/
theorem intentClear_returns (txnId : Nat) :
    (rt.intentClear txnId).1 = (rt.entries.countP (intentDone txnId) : Nat) := by
  have hremoved := (rt.cleared txnId).removed
  simp only [UInt64.toNat_zero, Nat.sub_zero, Nat.zero_add, toNat_count] at hremoved
  have hle : rt.entries.countP (intentDone txnId) ≤ 1024 := by
    refine List.countP_le_length.trans ?_
    rw [entries, records_length]
    exact rt.count_le
  rw [intentClear, hremoved]
  change (BitVec.ofNat 32 (rt.entries.countP (intentDone txnId))).toInt = _
  rw [BitVec.toInt_eq_toNat_of_lt, BitVec.toNat_ofNat, Nat.mod_eq_of_lt (by omega)]
  rw [BitVec.toNat_ofNat, Nat.mod_eq_of_lt (by omega)]
  omega

/-- **`aetherfs_intent_clear` removes exactly what it should**: the committed entries of the
transaction, and no other; the rest keep their order and every byte; the count is the new length,
and the return value is the number removed. -/
theorem intent_clear_exact (txnId : Nat) :
    (rt.intentClear txnId).2.entries = (rt.entries.filter fun e =>
      ¬ (ieTxnId e = txnId ∧ ieFlags e = IntentState.committed.code)) ∧
    (rt.intentClear txnId).2.count = (rt.entries.filter fun e =>
      ¬ (ieTxnId e = txnId ∧ ieFlags e = IntentState.committed.code)).length ∧
    (rt.intentClear txnId).1 = ((rt.entries.filter fun e =>
      ieTxnId e = txnId ∧ ieFlags e = IntentState.committed.code).length : Nat) := by
  have hentries : (rt.intentClear txnId).2.entries = rt.entries.filter fun e =>
      ¬ (ieTxnId e = txnId ∧ ieFlags e = IntentState.committed.code) := by
    rw [intentClear_entries]
    refine List.filter_congr fun e _ => ?_
    rw [intentDone, decide_not]
  refine ⟨hentries, ?_, ?_⟩
  · rw [← hentries, entries, records_length]
  · rw [intentClear_returns, List.countP_eq_length_filter]
    rfl

end IntentRuntime

/-! ## 5. The array refines the list -/

/-- A flag that is set changes the state and nothing else. -/
theorem ofEntry_flags (e : IntentEntry) (s : IntentState) :
    Intent.ofEntry (putLE e 8 4 s.code) = { Intent.ofEntry e with flags := s } := by
  have hcode : s.code % 4294967296 = s.code := by
    refine Nat.mod_eq_of_lt ?_
    cases s with
    | pending => decide
    | applied => decide
    | committed => decide
    | replayed => decide
  simp [Intent.ofEntry, ieType, ieFlags, ieTxnId, ieTargetIno, ieTargetBlock, ieNewBlock, ieSize,
    le32, le64, hcode]

section Store

variable {m : Memory} {i type targetIno oldBlock newBlock size txnId : Nat}

theorem recordAt_storeIntent {j : Nat} (hj : j ≠ i) :
    (recordAt (storeIntent m i type targetIno oldBlock newBlock size txnId) j : IntentEntry)
      = recordAt m j := by
  have hset : ∀ (x : Memory) (off w v : Nat), off + w ≤ 64 →
      (recordAt (setLE x (64 * i + off) w v) j : IntentEntry) = recordAt x j := by
    intro x off w v h
    rw [recordAt_setLE x h, if_neg hj]
  simp only [storeIntent]
  rw [hset _ _ _ _ (by norm_num), hset _ _ _ _ (by norm_num), hset _ _ _ _ (by norm_num),
    hset _ _ _ _ (by norm_num), hset _ _ _ _ (by norm_num), hset _ _ _ _ (by norm_num),
    hset _ _ _ _ (by norm_num), hset _ _ _ _ (by norm_num), hset _ _ _ _ (by norm_num)]

/-- The new entry is a pending intent with what the caller gave. -/
theorem ofEntry_storeIntent (htype : type < 2 ^ 32) (hino : targetIno < 2 ^ 64)
    (hold : oldBlock < 2 ^ 64) (hnew : newBlock < 2 ^ 64) (hsize : size < 2 ^ 64)
    (htxn : txnId < 2 ^ 64) :
    Intent.ofEntry (recordAt (storeIntent m i type targetIno oldBlock newBlock size txnId) i)
      = ⟨type, .pending, txnId, targetIno, oldBlock, newBlock, size⟩ := by
  have hset : ∀ (x : Memory) (off w v : Nat), off + w ≤ 64 →
      (recordAt (setLE x (64 * i + off) w v) i : IntentEntry) = putLE (recordAt x i) off w v := by
    intro x off w v h
    rw [recordAt_setLE x h, if_pos rfl]
  have hentry : ∃ e c, (recordAt (storeIntent m i type targetIno oldBlock newBlock size txnId) i
      : IntentEntry) = putLE (putLE (putLE (putLE (putLE (putLE (putLE (putLE e 4 4 type) 8 4
        IntentState.pending.code) 16 8 txnId) 24 8 targetIno) 32 8 oldBlock) 40 8 newBlock)
        48 8 size) 56 4 c := by
    simp only [storeIntent]
    rw [hset _ _ _ _ (by norm_num), hset _ _ _ _ (by norm_num), hset _ _ _ _ (by norm_num),
      hset _ _ _ _ (by norm_num), hset _ _ _ _ (by norm_num), hset _ _ _ _ (by norm_num),
      hset _ _ _ _ (by norm_num), hset _ _ _ _ (by norm_num), hset _ _ _ _ (by norm_num)]
    exact ⟨_, _, rfl⟩
  obtain ⟨e, c, hentry⟩ := hentry
  have hstate : IntentState.ofCode (IntentState.pending.code % 4294967296) = .pending := rfl
  rw [hentry]
  simp [Intent.ofEntry, ieType, ieFlags, ieTxnId, ieTargetIno, ieTargetBlock, ieNewBlock, ieSize,
    le32, le64, hstate]
  exact ⟨htype, htxn, hino, hold, hnew, hsize⟩

end Store

namespace IntentRuntime

variable (rt : IntentRuntime)

@[simp] theorem log_length : rt.log.length = rt.count := by
  rw [log, List.length_map, entries, records_length]

/-- **Creating**: the call on the array is the call on the list. -/
theorem create_log {type targetIno oldBlock newBlock size txnId : Nat} (htype : type < 2 ^ 32)
    (hino : targetIno < 2 ^ 64) (hold : oldBlock < 2 ^ 64) (hnew : newBlock < 2 ^ 64)
    (hsize : size < 2 ^ 64) (htxn : txnId < 2 ^ 64) :
    (rt.intentCreate type targetIno oldBlock newBlock size txnId).map log
      = AetherFs.intentCreate rt.log type targetIno oldBlock newBlock size txnId := by
  rw [intentCreate, AetherFs.intentCreate, log_length]
  split
  · rfl
  · split
    · rfl
    · refine congrArg Except.ok ?_
      simp only [log, entries]
      rw [records_snoc, Nat.zero_add, List.map_append, List.map_singleton,
        ofEntry_storeIntent htype hino hold hnew hsize htxn]
      refine congrArg (· ++ _) (congrArg _ (records_congr fun j _ hj => ?_))
      exact recordAt_storeIntent (by omega)

/-- **Applying**, with the number of entries it returns. -/
theorem apply_log (txnId : Nat) : (rt.intentApply txnId).1 = (AetherFs.intentApply rt.log txnId).1 ∧
    (rt.intentApply txnId).2.log = (AetherFs.intentApply rt.log txnId).2 := by
  have hpending : ∀ e : IntentEntry, (ieTxnId e = txnId ∧ ieFlags e = IntentState.pending.code) ↔
      ((Intent.ofEntry e).txnId = txnId ∧ (Intent.ofEntry e).flags = .pending) := fun e =>
    and_congr Iff.rfl IntentState.ofCode_eq_pending.symm
  constructor
  · rw [intentApply, AetherFs.intentApply, log, List.countP_map]
    refine List.countP_congr fun e _ => ?_
    simp only [Function.comp, decide_eq_true_eq, hpending]
  · simp only [intentApply, AetherFs.intentApply, log, entries]
    rw [records_setEach _ (by norm_num), List.map_map, List.map_map]
    refine List.map_congr_left fun e _ => ?_
    simp only [Function.comp, Intent.apply, decide_eq_true_eq, hpending]
    split
    · exact ofEntry_flags e .applied
    · rfl

/-- **Committing.** -/
theorem commit_log (txnId : Nat) :
    (rt.intentCommit txnId).log = AetherFs.intentCommit rt.log txnId := by
  simp only [intentCommit, AetherFs.intentCommit, log, entries]
  rw [records_setEach _ (by norm_num), List.map_map, List.map_map]
  refine List.map_congr_left fun e _ => ?_
  simp only [Function.comp, Intent.commit, decide_eq_true_eq]
  change Intent.ofEntry (if ieTxnId e = txnId then _ else e)
    = if ieTxnId e = txnId then _ else Intent.ofEntry e
  split
  · exact ofEntry_flags e .committed
  · rfl

theorem intentDone_eq (txnId : Nat) (e : IntentEntry) : intentDone txnId e =
    decide ((Intent.ofEntry e).txnId = txnId ∧ (Intent.ofEntry e).flags = .committed) :=
  decide_eq_decide.mpr (and_congr Iff.rfl IntentState.ofCode_eq_committed.symm)

/-- **Clearing**: the committed intents of the transaction are gone from the list, and counted. -/
theorem clear_log (txnId : Nat) :
    (rt.intentClear txnId).1 = committedUnder rt.log txnId ∧
    (rt.intentClear txnId).2.log = rt.log.filter fun e =>
      ¬ (e.txnId = txnId ∧ e.flags = .committed) := by
  constructor
  · rw [intentClear_returns, committedUnder, log, List.countP_map]
    refine congrArg _ (List.countP_congr fun e _ => ?_)
    rw [intentDone_eq]
    rfl
  · rw [log, intentClear_entries, log, List.filter_map]
    refine congrArg _ (List.filter_congr fun e _ => ?_)
    rw [intentDone_eq, Function.comp, decide_not]

/-- **A transaction that is committed and cleared is gone**, with all its intents and no others; and
what it had in the log is what the call returns. -/
theorem commit_clear_log (txnId : Nat) :
    ((rt.intentCommit txnId).intentClear txnId).1 = countUnder rt.log txnId ∧
    ((rt.intentCommit txnId).intentClear txnId).2.log
      = rt.log.filter fun e => ¬ e.txnId = txnId := by
  obtain ⟨hreturn, hlog⟩ := (rt.intentCommit txnId).clear_log txnId
  rw [commit_log] at hreturn hlog
  refine ⟨hreturn.trans (congrArg _ (committedUnder_commit rt.log txnId)), ?_⟩
  rw [hlog, AetherFs.intentCommit, List.filter_map]
  have hgone : (fun e : Intent => decide ¬ (e.txnId = txnId ∧ e.flags = .committed))
      ∘ Intent.commit txnId = fun e => decide ¬ e.txnId = txnId := by
    funext e
    simp only [Function.comp, Intent.commit_txnId, decide_eq_decide]
    exact ⟨fun h heq => h ⟨heq, Intent.commit_flags heq⟩, fun h hboth => h hboth.1⟩
  rw [hgone]
  refine (List.map_congr_left fun e he => ?_).trans (List.map_id _)
  have hother : ¬ e.txnId = txnId := by simpa using (List.mem_filter.mp he).2
  rw [Intent.commit, if_neg hother, id_eq]

end IntentRuntime

end AetherFs
