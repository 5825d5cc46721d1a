/-
# What `aetherfs_transaction_begin` returns

A transaction has a 64-bit id, counted from 1, and `aetherfs_transaction_begin` returns it as an
`int`; a negative `int` is how the same function reports an error.  Its callers look at the sign
alone.  So a transaction whose id has bit 31 set is begun and reported as an error: nobody commits it
and nobody frees it, and `aetherfs_data_write_with_intent` gives back the block it had allocated for
the data.

* A begun transaction is reported by a number that is its id exactly while that id is below 2^31,
  and the callers act on it exactly while bit 31 of the id is clear, over every run of the callers.
* It is transaction number 2^31 that is the first to be lost.
-/
import AetherFs.Kernel.Journal

namespace AetherFs

open Lib

/-! ## 1. The source -/

/-- The `int` that `aetherfs_transaction_begin` returns for a transaction. -/
def Transaction.handle (txn : Transaction) : Int := (BitVec.ofNat 32 txn.id).toInt

/-- The modes that `aetherfs_data_write_with_intent` tells apart. -/
inductive WriteMode
  | cow
  | overwrite
  | default
  | other
deriving DecidableEq, Repr

/-- `AETHERFS_INTENT_META`. -/
abbrev intentMeta : Nat := 0x10
/-- `AETHERFS_INTENT_DATA`. -/
abbrev intentData : Nat := 0x20
/-- `AETHERFS_INTENT_COW`. -/
abbrev intentCow : Nat := 0x40
/-- `AETHERFS_INTENT_OVERWRITE`. -/
abbrev intentOverwrite : Nat := 0x80

/-- The intent log and `txn_counter`; `begun` counts the transactions that have been allocated. -/
structure TxnState where
  log : List Intent
  counter : Nat
  begun : Nat

/-- How a call ends: what it returns, the transaction it has begun and then left behind, and the
block it has given back. -/
structure TxnOutcome where
  ret : Except Errno Int
  abandoned : Option Transaction
  freed : Option Nat

/-- The common part of the callers: begin, give up if the return value is negative, add one intent,
commit.  `release` is the block to be given back by a call that gives up. -/
def runTransaction (s : TxnState) (dataMode type ino oldBlock newBlock : Nat)
    (release : Option Nat) (memory : Bool) : TxnOutcome × TxnState :=
  match transactionBegin s.counter dataMode memory with
  | .error e => (⟨.error e, none, release⟩, s)
  | .ok (txn, counter) =>
    let s := { s with counter := counter, begun := s.begun + 1 }
    if txn.handle < 0 then (⟨.ok txn.handle, some txn, release⟩, s)
    else
      let (log, txn) := transactionAddIntent s.log txn type ino oldBlock newBlock
      let (log, _) := transactionCommit log txn
      (⟨.ok 0, none, none⟩, { s with log := log })

/-- What `aetherfs_data_write_with_intent` is given, with the answers of `aetherfs_bmap` (`oldBlock`)
and of `aetherfs_alloc_blocks` (`newBlock`). -/
structure DataWrite where
  mode : WriteMode
  len : Nat
  blocksize : Nat
  ino : Nat
  oldBlock : Nat
  newBlock : Nat
  memory : Bool

-- the numbers of the modes are not in the repository
variable (code : WriteMode → Nat)

/-- `aetherfs_metadata_cow_commit`. -/
def metadataCowCommit (s : TxnState) (oldRoot newRoot : Nat) (memory : Bool) :
    TxnOutcome × TxnState :=
  runTransaction s (code .cow) (intentMeta ||| intentCow) 0 oldRoot newRoot none memory

/-- `aetherfs_data_write_with_intent`. -/
def dataWriteWithIntent (s : TxnState) (w : DataWrite) : TxnOutcome × TxnState :=
  if w.len = 0 then (⟨.error .EINVAL, none, none⟩, s)
  else if w.mode = .cow ∨ (w.mode = .default ∧ w.len ≤ mulU64 4 w.blocksize) then
    if w.newBlock = 0 then (⟨.error .ENOSPC, none, none⟩, s)
    else runTransaction s (code .cow) (intentData ||| intentCow) w.ino w.oldBlock w.newBlock
      (some w.newBlock) w.memory
  else if w.mode = .overwrite then
    runTransaction s (code .overwrite) (intentData ||| intentOverwrite) w.ino w.oldBlock w.oldBlock
      none w.memory
  else (⟨.error .EINVAL, none, none⟩, s)

/-! ## 2. Runs -/

inductive TxnCall
  | begin (dataMode : Nat) (memory : Bool)
  | metadata (oldRoot newRoot : Nat) (memory : Bool)
  | data (w : DataWrite)

def txnStep (s : TxnState) : TxnCall → TxnState
  | .begin dataMode memory =>
    match transactionBegin s.counter dataMode memory with
    | .ok (_, counter) => { s with counter := counter, begun := s.begun + 1 }
    | .error _ => s
  | .metadata oldRoot newRoot memory => (metadataCowCommit code s oldRoot newRoot memory).2
  | .data w => (dataWriteWithIntent code s w).2

/-- The log after `aetherfs_intent_init`, and `txn_counter`. -/
def txnStart : TxnState := ⟨[], 1, 0⟩

/-- The id of the transaction that is begun next. -/
def TxnState.nextId (s : TxnState) : Nat := (s.begun + 1) % 2 ^ 64

/-- No caller leaves behind a transaction it has begun, or gives back its block because of it. -/
structure CallersKeep (s : TxnState) : Prop where
  metadata : ∀ oldRoot newRoot,
    (metadataCowCommit code s oldRoot newRoot true).1.abandoned = none
  data : ∀ w : DataWrite, w.memory = true →
    (dataWriteWithIntent code s w).1.abandoned = none ∧
      (dataWriteWithIntent code s w).1.freed = none

/-- A transaction that is begun is reported as such. -/
structure Reported (s : TxnState) : Prop where
  handle : ∀ dataMode txn counter, transactionBegin s.counter dataMode true = .ok (txn, counter) →
    0 ≤ txn.handle ∧ txn.handle = txn.id
  callers : CallersKeep code s

/-! ## 3. The counter -/

/-- The counter follows the number of transactions. -/
def CounterRight (s : TxnState) : Prop := s.counter = s.nextId

theorem counter_succ {n : Nat} : addU64 ((n + 1) % 2 ^ 64) 1 = (n + 1 + 1) % 2 ^ 64 := by
  rw [addU64, Nat.mod_add_mod]

theorem runTransaction_counter {s : TxnState} (h : CounterRight s)
    (dataMode type ino oldBlock newBlock : Nat) (release : Option Nat) (memory : Bool) :
    CounterRight (runTransaction s dataMode type ino oldBlock newBlock release memory).2 := by
  have hnext : addU64 s.counter 1 = (s.begun + 1 + 1) % 2 ^ 64 := by
    rw [h]
    exact counter_succ
  unfold runTransaction transactionBegin
  cases memory with
  | false => exact h
  | true =>
    simp only [if_true]
    split
    · exact hnext
    · exact hnext

theorem txnStep_counter {s : TxnState} (h : CounterRight s) (c : TxnCall) :
    CounterRight (txnStep code s c) := by
  cases c with
  | begin dataMode memory =>
    have hnext : addU64 s.counter 1 = (s.begun + 1 + 1) % 2 ^ 64 := by
      rw [h]
      exact counter_succ
    unfold txnStep transactionBegin
    cases memory with
    | false => exact h
    | true => exact hnext
  | metadata oldRoot newRoot memory => exact runTransaction_counter h _ _ _ _ _ _ _
  | data w =>
    simp only [txnStep, dataWriteWithIntent]
    split
    · exact h
    split
    · split
      · exact h
      · exact runTransaction_counter h _ _ _ _ _ _ _
    split
    · exact runTransaction_counter h _ _ _ _ _ _ _
    · exact h

theorem counter_run (calls : List TxnCall) :
    CounterRight (calls.foldl (txnStep code) txnStart) := by
  have hstart : CounterRight txnStart := rfl
  have hrun : ∀ t ∈ states (txnStep code) txnStart calls, CounterRight t := fun t ht =>
    run_inv (txnStep_counter code) calls hstart ht
  exact hrun _ (foldl_mem_states calls txnStart)

/-! ## 4. The sign -/

/-- The `int` is negative exactly when bit 31 of the id is set. -/
theorem handle_nonneg_iff (txn : Transaction) : 0 ≤ txn.handle ↔ txn.id % 2 ^ 32 < 2 ^ 31 := by
  rw [Transaction.handle, BitVec.toInt_eq_toNat_cond, BitVec.toNat_ofNat]
  split
  · omega
  · omega

/-- And it is the id exactly when the id fits. -/
theorem handle_eq_id_iff (txn : Transaction) : txn.handle = txn.id ↔ txn.id < 2 ^ 31 := by
  rw [Transaction.handle, BitVec.toInt_eq_toNat_cond, BitVec.toNat_ofNat]
  split
  · omega
  · omega

section Calls

variable {s : TxnState} {dataMode type ino oldBlock newBlock : Nat} {release : Option Nat}

/-- A call whose transaction has a negative number gives it up, and its block. -/
theorem runTransaction_lost (h : CounterRight s) (hbit : ¬ s.nextId % 2 ^ 32 < 2 ^ 31) :
    (runTransaction s dataMode type ino oldBlock newBlock release true).1
      = ⟨.ok (⟨s.nextId, 0, 0, dataMode⟩ : Transaction).handle, some ⟨s.nextId, 0, 0, dataMode⟩,
          release⟩ := by
  have hneg : (⟨s.nextId, 0, 0, dataMode⟩ : Transaction).handle < 0 :=
    Int.not_le.mp fun hle => hbit ((handle_nonneg_iff _).mp hle)
  unfold runTransaction transactionBegin
  rw [h]
  simp only [if_true, hneg]

theorem runTransaction_done (h : CounterRight s) (hbit : s.nextId % 2 ^ 32 < 2 ^ 31) :
    (runTransaction s dataMode type ino oldBlock newBlock release true).1 = ⟨.ok 0, none, none⟩ := by
  have hpos : ¬ (⟨s.nextId, 0, 0, dataMode⟩ : Transaction).handle < 0 :=
    Int.not_lt.mpr ((handle_nonneg_iff _).mpr hbit)
  unfold runTransaction transactionBegin
  rw [h]
  simp only [if_true, hpos, if_false]

theorem dataWrite_done (h : CounterRight s) (hbit : s.nextId % 2 ^ 32 < 2 ^ 31) (w : DataWrite)
    (hw : w.memory = true) : (dataWriteWithIntent code s w).1.abandoned = none ∧
      (dataWriteWithIntent code s w).1.freed = none := by
  rw [dataWriteWithIntent, hw]
  split
  · exact ⟨rfl, rfl⟩
  split
  · split
    · exact ⟨rfl, rfl⟩
    · rw [runTransaction_done h hbit]
      exact ⟨rfl, rfl⟩
  split
  · rw [runTransaction_done h hbit]
    exact ⟨rfl, rfl⟩
  · exact ⟨rfl, rfl⟩

/-- **The callers** keep what they have begun exactly when bit 31 of its id is clear. -/
theorem callersKeep_iff (h : CounterRight s) :
    CallersKeep code s ↔ s.nextId % 2 ^ 32 < 2 ^ 31 := by
  constructor
  · intro hkeep
    by_contra hbit
    have hnone := hkeep.metadata 0 0
    rw [metadataCowCommit, runTransaction_lost h hbit] at hnone
    exact absurd hnone (by simp)
  · intro hbit
    refine ⟨fun oldRoot newRoot => ?_, dataWrite_done code h hbit⟩
    rw [metadataCowCommit, runTransaction_done h hbit]

/-- **A transaction is reported as begun** exactly when its id fits. -/
theorem reported_iff (h : CounterRight s) : Reported code s ↔ s.nextId < 2 ^ 31 := by
  constructor
  · intro hreported
    have hbegin : transactionBegin s.counter 0 true
        = .ok (⟨s.counter, 0, 0, 0⟩, addU64 s.counter 1) := rfl
    have hid := (hreported.handle _ _ _ hbegin).2
    rw [handle_eq_id_iff, h] at hid
    exact hid
  · intro hid
    refine ⟨fun dataMode txn counter hbegin => ?_, (callersKeep_iff code h).mpr ?_⟩
    · rw [transactionBegin, if_pos rfl] at hbegin
      obtain ⟨rfl, -⟩ := Prod.mk.inj (Except.ok.inj hbegin)
      rw [h, handle_nonneg_iff, handle_eq_id_iff]
      exact ⟨Nat.lt_of_le_of_lt (Nat.mod_le _ _) hid, hid⟩
    · exact Nat.lt_of_le_of_lt (Nat.mod_le _ _) hid

end Calls

/-! ## 5. Every run -/

/-- **When a begun transaction is reported as such.**  After any run of the callers, with any
answers, the next transaction is returned as a number that is not negative and is its id exactly
when that id -- one more than the transactions begun so far -- is below 2^31; and the callers neither
leave it behind nor give back its block exactly when bit 31 of it is clear. -/
theorem begun_reported_iff (calls : List TxnCall) :
    (Reported code (calls.foldl (txnStep code) txnStart) ↔
      ((calls.foldl (txnStep code) txnStart).begun + 1) % 2 ^ 64 < 2 ^ 31) ∧
    (CallersKeep code (calls.foldl (txnStep code) txnStart) ↔
      ((calls.foldl (txnStep code) txnStart).begun + 1) % 2 ^ 64 % 2 ^ 32 < 2 ^ 31) :=
  ⟨reported_iff code (counter_run code calls), callersKeep_iff code (counter_run code calls)⟩

theorem begun_replicate (n : Nat) (s : TxnState) :
    ((List.replicate n (.begin 0 true)).foldl (txnStep code) s).begun = s.begun + n := by
  induction n generalizing s with
  | zero => rfl
  | succ n ih =>
    rw [List.replicate_succ, List.foldl_cons, ih]
    change s.begun + 1 + n = s.begun + (n + 1)
    omega

/-- **Transaction number 2^31 is lost**: the write that begins it returns -2^31, its block is given
back, and the transaction is left as it was begun. -/
theorem data_write_lost : ∃ calls : List TxnCall,
    (calls.foldl (txnStep fun _ => 0) txnStart).begun = 2 ^ 31 - 1 ∧
    ¬ Reported (fun _ => 0) (calls.foldl (txnStep fun _ => 0) txnStart) ∧
    (dataWriteWithIntent (fun _ => 0) (calls.foldl (txnStep fun _ => 0) txnStart)
        ⟨.cow, 4096, 4096, 17, 8, 9, true⟩).1
      = ⟨.ok (-2 ^ 31), some ⟨2 ^ 31, 0, 0, 0⟩, some 9⟩ := by
  obtain ⟨n, hn⟩ : ∃ n, n = 2 ^ 31 - 1 := ⟨_, rfl⟩
  have hbegun := begun_replicate (fun _ => 0) n txnStart
  have hcounter := counter_run (fun _ => 0) (List.replicate n (.begin 0 true))
  have hid : ((List.replicate n (.begin 0 true)).foldl (txnStep fun _ => 0) txnStart).nextId
      = 2 ^ 31 := by
    rw [TxnState.nextId, hbegun, hn]
    rfl
  refine ⟨List.replicate n (.begin 0 true), ?_, fun hreported => ?_, ?_⟩
  · rw [hbegun, hn]
    rfl
  · have hlt := (reported_iff _ hcounter).mp hreported
    rw [hid] at hlt
    exact Nat.lt_irrefl _ hlt
  · rw [dataWriteWithIntent, if_neg (by norm_num), if_pos (Or.inl rfl), if_neg (by norm_num),
      runTransaction_lost hcounter (by rw [hid]; norm_num), hid]
    rfl

end AetherFs
