/-
# The intent log of `journal.c`

All transactions share one log of 1024 intents.  `aetherfs_transaction_add_intent` calls
`aetherfs_intent_create` and does not look at what it returns: where the log is full, or the type
is zero, no intent is recorded, the transaction counts one all the same, and the caller is told 0.

The machine of section 2 runs any number of transactions over the log.  Beside what the source
keeps, a transaction carries how many of its calls returned 0 (`adds`) and how many of those left
an intent in the log (`kept`).

* `log_count`: along every run, the log holds under an id what the transactions of that id kept.
* At a commit, the committed intents, the calls that returned 0 and `xt_intent_count` are the same
  number exactly when nothing was lost and the calls were fewer than 2^32.
-/
import AetherFs.Device
import AetherFs.Lib.Machine

namespace AetherFs

open Lib

/-! ## 1. The source -/

/-- `enum aetherfs_intent_state`, which the source keeps in `ie_flags`. -/
inductive IntentState
  | pending
  | applied
  | committed
  | replayed
deriving DecidableEq, Repr

/-- `struct aetherfs_intent_entry`. -/
structure Intent where
  type : Nat
  flags : IntentState
  txnId : Nat
  targetIno : Nat
  targetBlock : Nat
  newBlock : Nat
  size : Nat
deriving DecidableEq, Repr

/-- `struct aetherfs_transaction`. -/
structure Transaction where
  id : Nat
  state : Nat
  intentCount : Nat
  dataMode : Nat
deriving DecidableEq, Repr

/-- `il_capacity`. -/
abbrev intentCapacity : Nat := 1024

/-- `aetherfs_intent_create`. -/
def intentCreate (log : List Intent) (type targetIno oldBlock newBlock size txnId : Nat) :
    Except Errno (List Intent) :=
  if type = 0 ∨ txnId = 0 then .error .EINVAL
  else if log.length ≥ intentCapacity then .error .ENOSPC
  else .ok (log ++ [⟨type, .pending, txnId, targetIno, oldBlock, newBlock, size⟩])

/-- `aetherfs_intent_apply` on one entry. -/
def Intent.apply (txnId : Nat) (intent : Intent) : Intent :=
  if intent.txnId = txnId ∧ intent.flags = .pending then { intent with flags := .applied }
  else intent

/-- `aetherfs_intent_apply`: how many entries it has applied, and the log. -/
def intentApply (log : List Intent) (txnId : Nat) : Nat × List Intent :=
  (log.countP fun intent => intent.txnId = txnId ∧ intent.flags = .pending,
    log.map (Intent.apply txnId))

/-- `aetherfs_intent_commit` on one entry. -/
def Intent.commit (txnId : Nat) (intent : Intent) : Intent :=
  if intent.txnId = txnId then { intent with flags := .committed } else intent

/-- `aetherfs_intent_commit`. -/
def intentCommit (log : List Intent) (txnId : Nat) : List Intent := log.map (Intent.commit txnId)

/-- `aetherfs_transaction_begin`: the transaction and the counter behind it. -/
def transactionBegin (counter dataMode : Nat) (memory : Bool) :
    Except Errno (Transaction × Nat) :=
  if memory then .ok (⟨counter, 0, 0, dataMode⟩, addU64 counter 1) else .error .ENOMEM

/-- `aetherfs_transaction_add_intent`: the return value of `aetherfs_intent_create` is dropped. -/
def transactionAddIntent (log : List Intent) (txn : Transaction)
    (type ino oldBlock newBlock : Nat) : List Intent × Transaction :=
  (((intentCreate log type ino oldBlock newBlock 0 txn.id).toOption).getD log,
    { txn with intentCount := (txn.intentCount + 1) % 2 ^ 32 })

/-- `aetherfs_transaction_commit`. -/
def transactionCommit (log : List Intent) (txn : Transaction) : List Intent × Transaction :=
  (intentCommit log txn.id, { txn with state := 1 })

/-! ## 2. Runs -/

/-- A transaction with the number of its `add_intent` calls that returned 0, and of those that left
an intent. -/
structure Tracked where
  txn : Transaction
  adds : Nat
  kept : Nat

structure JournalMachine where
  log : List Intent
  counter : Nat
  txns : List Tracked

/-- A call names its transaction by its place in the order of their `begin`s.  A place that is not
taken is a NULL pointer, for which the source returns EINVAL. -/
inductive JournalCall
  | begin (dataMode : Nat) (memory : Bool)
  | add (i type ino oldBlock newBlock : Nat)
  | commit (i : Nat)
  | apply (txnId : Nat)

/-- One call of `add_intent`, as the ghost counters see it. -/
def Tracked.add (log : List Intent) (type ino oldBlock newBlock : Nat) (t : Tracked) : Tracked :=
  ⟨(transactionAddIntent log t.txn type ino oldBlock newBlock).2, t.adds + 1,
    match intentCreate log type ino oldBlock newBlock 0 t.txn.id with
    | .ok _ => t.kept + 1
    | .error _ => t.kept⟩

def journalStep (m : JournalMachine) : JournalCall → JournalMachine
  | .begin dataMode memory =>
    match transactionBegin m.counter dataMode memory with
    | .ok (txn, counter) => { m with counter := counter, txns := m.txns ++ [⟨txn, 0, 0⟩] }
    | .error _ => m
  | .add i type ino oldBlock newBlock =>
    match m.txns[i]? with
    | some t => { m with
        log := (transactionAddIntent m.log t.txn type ino oldBlock newBlock).1
        txns := m.txns.set i (t.add m.log type ino oldBlock newBlock) }
    | none => m
  | .commit i =>
    match m.txns[i]? with
    | some t => { m with
        log := (transactionCommit m.log t.txn).1
        txns := m.txns.set i { t with txn := (transactionCommit m.log t.txn).2 } }
    | none => m
  | .apply txnId => { m with log := (intentApply m.log txnId).2 }

/-- The log after `aetherfs_intent_init`, and `txn_counter`. -/
def journalStart : JournalMachine := ⟨[], 1, []⟩

/-- Entries of the log under an id. -/
def countUnder (log : List Intent) (id : Nat) : Nat := log.countP fun e => e.txnId = id

/-- Committed entries under an id. -/
def committedUnder (log : List Intent) (id : Nat) : Nat :=
  log.countP fun e => e.txnId = id ∧ e.flags = .committed

/-- What the transactions of an id have left in the log. -/
def keptUnder : List Tracked → Nat → Nat
  | [], _ => 0
  | t :: ts, id => (if t.txn.id = id then t.kept else 0) + keptUnder ts id

/-- The log holds as many committed intents for a transaction as its calls returned 0, and so says
its own counter. -/
def CommitRight (m : JournalMachine) (i : Nat) : Prop :=
  ∀ t, m.txns[i]? = some t →
    committedUnder m.log t.txn.id = t.adds ∧ t.txn.intentCount = t.adds

/-! ## 3. What one call does to the counts -/

theorem Intent.apply_txnId (txnId : Nat) (e : Intent) : (e.apply txnId).txnId = e.txnId := by
  rw [Intent.apply]
  split
  · rfl
  · rfl

theorem Intent.commit_txnId (txnId : Nat) (e : Intent) : (e.commit txnId).txnId = e.txnId := by
  rw [Intent.commit]
  split
  · rfl
  · rfl

theorem Intent.commit_flags {txnId : Nat} {e : Intent} (h : e.txnId = txnId) :
    (e.commit txnId).flags = .committed := by
  rw [Intent.commit, if_pos h]

theorem countUnder_apply (log : List Intent) (txnId id : Nat) :
    countUnder (intentApply log txnId).2 id = countUnder log id := by
  rw [intentApply, countUnder, List.countP_map]
  refine List.countP_congr fun e _ => ?_
  simp only [Function.comp, Intent.apply_txnId]

theorem countUnder_commit (log : List Intent) (txnId id : Nat) :
    countUnder (intentCommit log txnId) id = countUnder log id := by
  rw [intentCommit, countUnder, List.countP_map]
  refine List.countP_congr fun e _ => ?_
  simp only [Function.comp, Intent.commit_txnId]

/-- **A commit commits every entry of its id.** -/
theorem committedUnder_commit (log : List Intent) (id : Nat) :
    committedUnder (intentCommit log id) id = countUnder log id := by
  rw [intentCommit, committedUnder, List.countP_map]
  refine List.countP_congr fun e _ => ?_
  simp only [Function.comp, Intent.commit_txnId, decide_eq_true_eq]
  exact ⟨fun h => h.1, fun h => ⟨h, Intent.commit_flags h⟩⟩

/-- An intent that is created is one more under its id, and one that is refused changes nothing. -/
theorem countUnder_add (log : List Intent) (t : Tracked) (type ino oldBlock newBlock id : Nat) :
    countUnder (transactionAddIntent log t.txn type ino oldBlock newBlock).1 id
        + (if t.txn.id = id then t.kept else 0)
      = countUnder log id
        + (if t.txn.id = id then (t.add log type ino oldBlock newBlock).kept else 0) := by
  simp only [transactionAddIntent, Tracked.add]
  cases hc : intentCreate log type ino oldBlock newBlock 0 t.txn.id with
  | error e => rfl
  | ok log' =>
    rw [intentCreate, ite_error_eq_ok, ite_error_eq_ok] at hc
    obtain rfl := Except.ok.inj hc.2.2
    simp only [Except.toOption, Option.getD_some, countUnder, List.countP_append,
      List.countP_singleton, decide_eq_true_eq]
    split
    · omega
    · omega

theorem keptUnder_append (ts us : List Tracked) (id : Nat) :
    keptUnder (ts ++ us) id = keptUnder ts id + keptUnder us id := by
  induction ts with
  | nil => exact (Nat.zero_add _).symm
  | cons t ts ih => rw [List.cons_append, keptUnder, keptUnder, ih, Nat.add_assoc]

theorem keptUnder_set {ts : List Tracked} {i : Nat} {t u : Tracked} (ht : ts[i]? = some t)
    (hid : u.txn.id = t.txn.id) (id : Nat) :
    keptUnder (ts.set i u) id + (if t.txn.id = id then t.kept else 0)
      = keptUnder ts id + (if t.txn.id = id then u.kept else 0) := by
  induction ts generalizing i with
  | nil => exact absurd ht (by simp)
  | cons t' ts ih =>
    cases i with
    | zero =>
      obtain rfl : t' = t := Option.some.inj ht
      rw [List.set_cons_zero, keptUnder, keptUnder, hid]
      omega
    | succ i =>
      have hrest := ih ht
      rw [List.set_cons_succ, keptUnder, keptUnder]
      omega

theorem keptUnder_none {ts : List Tracked} {id : Nat} (h : ∀ t ∈ ts, t.txn.id ≠ id) :
    keptUnder ts id = 0 := by
  induction ts with
  | nil => rfl
  | cons t ts ih =>
    obtain ⟨ht, hts⟩ := List.forall_mem_cons.mp h
    rw [keptUnder, if_neg ht, ih hts]

/-- Where ids are not shared, what is kept under one is kept by its transaction. -/
theorem keptUnder_single {ts : List Tracked} {i : Nat} {t : Tracked} (ht : ts[i]? = some t)
    (hother : ∀ j u, ts[j]? = some u → u.txn.id = t.txn.id → j = i) :
    keptUnder ts t.txn.id = t.kept := by
  induction ts generalizing i with
  | nil => exact absurd ht (by simp)
  | cons t' ts ih =>
    cases i with
    | zero =>
      obtain rfl : t' = t := Option.some.inj ht
      have hrest : ∀ u ∈ ts, u.txn.id ≠ t'.txn.id := by
        intro u hu hid
        obtain ⟨j, hj⟩ := List.mem_iff_getElem?.mp hu
        exact Nat.succ_ne_zero j (hother (j + 1) u hj hid)
      rw [keptUnder, if_pos rfl, keptUnder_none hrest, Nat.add_zero]
    | succ i =>
      have hhead : t'.txn.id ≠ t.txn.id := fun hid =>
        Nat.succ_ne_zero i (hother 0 t' rfl hid).symm
      rw [keptUnder, if_neg hhead, Nat.zero_add]
      exact ih ht fun j u hj hid => Nat.succ.inj (hother (j + 1) u hj hid)

/-! ## 4. Whole runs -/

/-- What holds along every run: the log against the transactions, and the ids in the order of the
transactions' beginnings. -/
structure JournalInv (m : JournalMachine) : Prop where
  log_count : ∀ id, countUnder m.log id = keptUnder m.txns id
  counted : ∀ t ∈ m.txns, t.txn.intentCount = t.adds % 2 ^ 32
  ids : ∀ i t, m.txns[i]? = some t → t.txn.id = (i + 1) % 2 ^ 64
  counter : m.counter = (m.txns.length + 1) % 2 ^ 64

section Keep

variable {m : JournalMachine}

theorem JournalInv.set (h : JournalInv m) {i : Nat} {t u : Tracked} {log' : List Intent}
    (ht : m.txns[i]? = some t) (hid : u.txn.id = t.txn.id)
    (hlog : ∀ id, countUnder log' id + (if t.txn.id = id then t.kept else 0)
      = countUnder m.log id + (if t.txn.id = id then u.kept else 0))
    (hcount : u.txn.intentCount = u.adds % 2 ^ 32) :
    JournalInv ⟨log', m.counter, m.txns.set i u⟩ := by
  refine ⟨fun id => ?_, fun v hv => ?_, fun j v hj => ?_, ?_⟩
  · have hset := keptUnder_set ht hid id
    have hboth := hlog id
    rw [h.log_count id] at hboth
    simp only
    omega
  · rcases List.mem_or_eq_of_mem_set hv with hv | rfl
    · exact h.counted v hv
    · exact hcount
  · simp only [List.getElem?_set] at hj
    split at hj
    · rename_i hij
      split at hj
      · obtain rfl := Option.some.inj hj
        rw [hid, ← hij]
        exact h.ids i t ht
      · exact absurd hj (by simp)
    · exact h.ids j v hj
  · rw [List.length_set]
    exact h.counter

/-- **One call keeps the counts.** -/
theorem journalInv_step (h : JournalInv m) (c : JournalCall) : JournalInv (journalStep m c) := by
  cases c with
  | begin dataMode memory =>
    rw [journalStep, transactionBegin]
    cases memory with
    | false => exact h
    | true =>
      refine ⟨fun id => ?_, fun t ht => ?_, fun i t ht => ?_, ?_⟩
      · -- a new transaction has kept nothing
        have hnone : keptUnder [⟨⟨m.counter, 0, 0, dataMode⟩, 0, 0⟩] id = 0 := by
          rw [keptUnder, ite_self]
          rfl
        simp only [if_true, keptUnder_append, hnone]
        exact h.log_count id
      · rcases List.mem_append.mp ht with ht | ht
        · exact h.counted t ht
        · rw [List.mem_singleton.mp ht]
          rfl
      · simp only [if_true, List.getElem?_append] at ht
        split at ht
        · exact h.ids i t ht
        · rename_i hlen
          rw [List.getElem?_singleton] at ht
          split at ht
          · obtain rfl := Option.some.inj ht
            simp only
            rw [h.counter, show i = m.txns.length by omega]
          · exact absurd ht (by simp)
      · simp only [if_true, List.length_append, List.length_singleton, h.counter, addU64]
        omega
  | add i type ino oldBlock newBlock =>
    rw [journalStep]
    cases ht : m.txns[i]? with
    | none => exact h
    | some t =>
      refine h.set ht rfl (fun id => countUnder_add m.log t type ino oldBlock newBlock id) ?_
      have hcount := h.counted t (List.mem_of_getElem? ht)
      simp only [Tracked.add, transactionAddIntent, hcount]
      omega
  | commit i =>
    rw [journalStep]
    cases ht : m.txns[i]? with
    | none => exact h
    | some t =>
      refine h.set ht rfl (fun id => ?_) (h.counted t (List.mem_of_getElem? ht))
      rw [transactionCommit, countUnder_commit]
  | apply txnId =>
    refine ⟨fun id => ?_, h.counted, h.ids, h.counter⟩
    exact (countUnder_apply m.log txnId id).trans (h.log_count id)

theorem JournalInv.ids_unshared (h : JournalInv m) (hfew : m.txns.length < 2 ^ 64) {i : Nat}
    {t : Tracked} (ht : m.txns[i]? = some t) :
    ∀ j u, m.txns[j]? = some u → u.txn.id = t.txn.id → j = i := by
  intro j u hu hid
  have hi := (List.getElem?_eq_some_iff.mp ht).1
  have hj := (List.getElem?_eq_some_iff.mp hu).1
  rw [h.ids i t ht, h.ids j u hu, Nat.mod_eq_of_lt (by omega), Nat.mod_eq_of_lt (by omega)] at hid
  exact Nat.succ.inj hid

/-- **What a commit leaves.** -/
theorem JournalInv.commit_iff (h : JournalInv m) {i : Nat} {t : Tracked}
    (ht : m.txns[i]? = some t) : CommitRight (journalStep m (.commit i)) i ↔
      t.adds < 2 ^ 32 ∧ keptUnder m.txns t.txn.id = t.adds := by
  have hlen := (List.getElem?_eq_some_iff.mp ht).1
  have hafter : (journalStep m (.commit i)).txns[i]?
      = some { t with txn := { t.txn with state := 1 } } := by
    simp only [journalStep, ht]
    exact List.getElem?_set_self hlen
  have hlog : committedUnder (journalStep m (.commit i)).log t.txn.id
      = keptUnder m.txns t.txn.id := by
    simp only [journalStep, ht, transactionCommit]
    rw [committedUnder_commit, h.log_count]
  have hcount := h.counted t (List.mem_of_getElem? ht)
  constructor
  · intro hright
    obtain ⟨hboth, hsame⟩ := hright _ hafter
    simp only at hboth hsame
    rw [hlog] at hboth
    exact ⟨by omega, hboth⟩
  · intro ⟨hsmall, hkept⟩ u hu
    obtain rfl := Option.some.inj (hafter.symm.trans hu)
    exact ⟨hlog.trans hkept, hcount.trans (Nat.mod_eq_of_lt hsmall)⟩

end Keep

theorem journalInv_start : JournalInv journalStart := by
  refine ⟨fun _ => rfl, fun _ ht => absurd ht List.not_mem_nil, fun i t ht => ?_, rfl⟩
  exact absurd ht (by simp [journalStart])

/-- **The committed intents, exactly.**  In every run, at every commit: the committed entries of the
transaction's id, the `add_intent` calls on it that returned 0 and `xt_intent_count` are the same
number exactly when those calls were fewer than 2^32 and the log holds that many intents under the
id.  As long as ids are not used again, that is to say that none of the calls lost its intent. -/
theorem committed_intents_iff (calls : List JournalCall) {m : JournalMachine}
    (hm : m ∈ states journalStep journalStart calls) {i : Nat} {t : Tracked}
    (ht : m.txns[i]? = some t) :
    (CommitRight (journalStep m (.commit i)) i ↔
      t.adds < 2 ^ 32 ∧ keptUnder m.txns t.txn.id = t.adds) ∧
    (m.txns.length < 2 ^ 64 → (CommitRight (journalStep m (.commit i)) i ↔
      t.adds < 2 ^ 32 ∧ t.kept = t.adds)) := by
  have h : JournalInv m := run_inv journalInv_step calls journalInv_start hm
  refine ⟨h.commit_iff ht, fun hfew => ?_⟩
  rw [h.commit_iff ht, keptUnder_single ht (h.ids_unshared hfew ht)]

/-- One transaction with one intent. -/
def intentRun : List JournalCall := [.begin 0 true, .add 0 1 17 8 9]

theorem committed_intents_first :
    (intentRun.foldl journalStep journalStart).txns[0]? = some ⟨⟨1, 0, 1, 0⟩, 1, 1⟩ ∧
      CommitRight (journalStep (intentRun.foldl journalStep journalStart) (.commit 0)) 0 :=
  ⟨rfl, ((committed_intents_iff intentRun (foldl_mem_states _ _) rfl).2 (by decide)).mpr
    ⟨by decide, rfl⟩⟩

/-- A second intent, of type 0, is counted and not kept. -/
theorem typeless_intent_lost : ¬ CommitRight (journalStep
    (journalStep (intentRun.foldl journalStep journalStart) (.add 0 0 17 9 10)) (.commit 0)) 0 := by
  intro h
  have hsame := (h ⟨⟨1, 1, 2, 0⟩, 2, 1⟩ rfl).1
  exact absurd hsame (by decide)

end AetherFs
