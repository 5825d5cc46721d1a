/-
# What becomes of an intent

`aetherfs_intent_create` is told what an intent is about; the other functions of the intent log are
told a transaction, or nothing, and run over the whole array.  `aetherfs_intent_replay` takes every
intent that is not committed, counts it, and then empties the log -- of the committed intents too,
which nobody counts.

Here every intent that was accepted is followed on its own (`Life`): which calls came after it, and
where the rules of `Fate.next` take it.  The calls of other transactions do not matter to it.

* The array is what the lives say: its log is the lives that are still held, in the order in which
  they began, each in its state; what the calls of `aetherfs_intent_clear` and
  `aetherfs_intent_replay` have returned is the number of lives that ended there.
* `Life.dropped_iff`: an intent is forgotten when its transaction was committed and not cleared
  before a replay.  The calls account for every intent exactly when there is none of these.
-/
import AetherFs.Kernel.Intents

namespace AetherFs

open Lib

/-! ## 1. The source -/

namespace IntentRuntime

/-- The log that `aetherfs_intent_init` leaves: `kcalloc` zeroes the entries. -/
def intentInit : IntentRuntime := ⟨fun _ => 0, 0, Nat.zero_le _⟩

variable (rt : IntentRuntime)

/-- `aetherfs_intent_replay` on a superblock: the `int` it returns, and the array.  A committed entry
is passed over; `il_count` is zero afterwards in any case. -/
def intentReplay : Int × IntentRuntime :=
  let selected := fun e : IntentEntry => decide (ieFlags e ≠ IntentState.committed.code)
  ((BitVec.ofNat 32 (rt.entries.countP selected)).toInt,
    { intents := setEach rt.intents selected 8 4 IntentState.replayed.code rt.count
      count := 0
      count_le := Nat.zero_le _ })

/-- It returns how many intents it replayed; there are at most 1024, so the `int` does not wrap. -/
theorem replay_returns : (rt.intentReplay).1
    = (rt.log.countP fun e => e.flags ≠ .committed : Nat) := by
  have hcount : rt.entries.countP (fun e => decide (ieFlags e ≠ IntentState.committed.code))
      = rt.log.countP fun e => e.flags ≠ .committed := by
    rw [log, List.countP_map]
    refine List.countP_congr fun e _ => ?_
    simp only [Function.comp, decide_eq_true_eq]
    exact not_congr IntentState.ofCode_eq_committed.symm
  have hle : rt.log.countP (fun e => e.flags ≠ .committed) ≤ intentCapacity := by
    refine List.countP_le_length.trans ?_
    rw [log_length]
    exact rt.count_le
  simp only [intentCapacity] at hle
  rw [intentReplay, hcount, BitVec.toInt_ofNat']
  rw [Int.bmod_def]
  omega

end IntentRuntime

/-! ## 2. Lives -/

inductive IntentCall
  | create (type targetIno oldBlock newBlock size txnId : Nat)
  | apply (txnId : Nat)
  | commit (txnId : Nat)
  | clear (txnId : Nat)
  | replay
deriving DecidableEq

/-- The arguments are values of their types. -/
def IntentCall.InWidth : IntentCall → Prop
  | .create type targetIno oldBlock newBlock size txnId =>
    type < 2 ^ 32 ∧ targetIno < 2 ^ 64 ∧ oldBlock < 2 ^ 64 ∧ newBlock < 2 ^ 64 ∧ size < 2 ^ 64 ∧
      txnId < 2 ^ 64
  | .apply txnId | .commit txnId | .clear txnId => txnId < 2 ^ 64
  | .replay => True

/-- Where an intent is: held in a state, or out of the log. -/
inductive Fate
  | held (s : IntentState)
  | cleared
  | replayed
  | dropped
deriving DecidableEq

/-- What a call does to an intent of transaction `txnId`. -/
def Fate.next (txnId : Nat) : Fate → IntentCall → Fate
  | .held s, .apply t => if txnId = t ∧ s = .pending then .held .applied else .held s
  | .held s, .commit t => if txnId = t then .held .committed else .held s
  | .held s, .clear t => if txnId = t ∧ s = .committed then .cleared else .held s
  | .held s, .replay => if s = .committed then .dropped else .replayed
  | .held s, .create .. => .held s
  | .cleared, _ => .cleared
  | .replayed, _ => .replayed
  | .dropped, _ => .dropped

/-- What is in the log of an intent. -/
def Fate.kept (intent : Intent) : Fate → Option Intent
  | .held s => some { intent with flags := s }
  | _ => none

/-- Some call is `c`, those before it are quiet, and those behind it are as asked. -/
def Reaches (quiet : IntentCall → Prop) (c : IntentCall) (goal : List IntentCall → Prop)
    (calls : List IntentCall) : Prop :=
  ∃ before after, calls = before ++ c :: after ∧ (∀ d ∈ before, quiet d) ∧ goal after

/-- An intent that was accepted, and the calls after it. -/
structure Life where
  intent : Intent
  since : List IntentCall

namespace Life

variable (l : Life)

def fate : Fate := l.since.foldl (Fate.next l.intent.txnId) (.held .pending)

def hear (c : IntentCall) (l : Life) : Life := { l with since := l.since ++ [c] }

/-- The intent as it is in the log, if it is held. -/
def survivor : Option Intent := l.fate.kept l.intent

/-- **The intents nobody hears of again**: the transaction is committed before there is a replay, and
not cleared again before there is one. -/
def Forgotten : Prop :=
  Reaches (fun c => c ≠ .replay ∧ c ≠ .commit l.intent.txnId) (.commit l.intent.txnId)
    (Reaches (fun c => c ≠ .replay ∧ c ≠ .clear l.intent.txnId) .replay fun _ => True) l.since

end Life

/-- The array after a call. -/
def IntentRuntime.after (rt : IntentRuntime) : IntentCall → IntentRuntime
  | .create type targetIno oldBlock newBlock size txnId =>
    ((rt.intentCreate type targetIno oldBlock newBlock size txnId).toOption).getD rt
  | .apply txnId => (rt.intentApply txnId).2
  | .commit txnId => rt.intentCommit txnId
  | .clear txnId => (rt.intentClear txnId).2
  | .replay => rt.intentReplay.2

/-- The intent a call adds, if it is accepted. -/
def IntentRuntime.accepted (rt : IntentRuntime) : IntentCall → List Intent
  | .create type targetIno oldBlock newBlock size txnId =>
    match rt.intentCreate type targetIno oldBlock newBlock size txnId with
    | .ok _ => [⟨type, .pending, txnId, targetIno, oldBlock, newBlock, size⟩]
    | .error _ => []
  | _ => []

/-- The log, what its calls have returned, and the lives. -/
structure IntentMachine where
  rt : IntentRuntime
  cleared : Int
  replayed : Int
  lives : List Life

def IntentMachine.start : IntentMachine := ⟨.intentInit, 0, 0, []⟩

def intentStep (m : IntentMachine) (c : IntentCall) : IntentMachine where
  rt := m.rt.after c
  cleared := m.cleared + match c with
    | .clear txnId => (m.rt.intentClear txnId).1
    | _ => 0
  replayed := m.replayed + match c with
    | .replay => m.rt.intentReplay.1
    | _ => 0
  lives := m.lives.map (Life.hear c) ++ (m.rt.accepted c).map fun intent => ⟨intent, []⟩

/-! ## 3. One intent -/

/-- What a call makes of an intent in the log. -/
def Intent.after (c : IntentCall) (e : Intent) : Option Intent :=
  ((Fate.held e.flags).next e.txnId c).kept e

section Intents

variable {e : Intent} {s : IntentState} {t txnId : Nat} {c : IntentCall}

theorem Intent.after_apply : Intent.after (.apply txnId) e = some (Intent.apply txnId e) := by
  rw [Intent.after, Fate.next, Intent.apply]
  split
  · rfl
  · rfl

theorem Intent.after_commit : Intent.after (.commit txnId) e = some (Intent.commit txnId e) := by
  rw [Intent.after, Fate.next, Intent.commit]
  split
  · rfl
  · rfl

theorem Intent.after_clear : Intent.after (.clear txnId) e
    = if e.txnId = txnId ∧ e.flags = .committed then none else some e := by
  rw [Intent.after, Fate.next]
  split
  · rfl
  · rfl

theorem Intent.after_replay : Intent.after .replay e = none := by
  rw [Intent.after, Fate.next]
  split
  · rfl
  · rfl

/-- Only a clear of its transaction ends a held intent as cleared, and only when it is committed. -/
theorem Fate.next_eq_cleared : (Fate.held s).next t c = .cleared ↔ c = .clear t ∧ s = .committed := by
  cases c with
  | create => simp [Fate.next]
  | apply txnId => simp [Fate.next]; split <;> simp
  | commit txnId => simp [Fate.next]; split <;> simp
  | clear txnId => simp [Fate.next, eq_comm]
  | replay => simp [Fate.next]; split <;> simp

/-- Only a replay ends one as replayed, and only when it is not committed. -/
theorem Fate.next_eq_replayed : (Fate.held s).next t c = .replayed ↔ c = .replay ∧ s ≠ .committed := by
  cases c with
  | create => simp [Fate.next]
  | apply txnId => simp [Fate.next]; split <;> simp
  | commit txnId => simp [Fate.next]; split <;> simp
  | clear txnId => simp [Fate.next]; split <;> simp
  | replay => simp [Fate.next]

/-- **The log goes on intent by intent.** -/
theorem IntentRuntime.log_after (rt : IntentRuntime) (hw : c.InWidth) :
    (rt.after c).log = rt.log.filterMap (Intent.after c) ++ rt.accepted c := by
  cases c with
  | create type targetIno oldBlock newBlock size txnId =>
    obtain ⟨htype, hino, hold, hnew, hsize, htxn⟩ := hw
    have hcreate := rt.create_log htype hino hold hnew hsize htxn
    have hsame : rt.log.filterMap (Intent.after (.create type targetIno oldBlock newBlock size txnId))
        = rt.log := List.filterMap_some
    rw [IntentRuntime.after, IntentRuntime.accepted, hsame]
    cases hc : rt.intentCreate type targetIno oldBlock newBlock size txnId with
    | error e => exact (List.append_nil _).symm
    | ok rt' =>
      rw [hc, AetherFs.intentCreate] at hcreate
      split at hcreate
      · exact absurd hcreate (by simp [Except.map])
      · split at hcreate
        · exact absurd hcreate (by simp [Except.map])
        · exact Except.ok.inj hcreate
  | apply txnId =>
    change (rt.intentApply txnId).2.log = rt.log.filterMap _ ++ []
    rw [(rt.apply_log txnId).2, List.append_nil, List.filterMap_congr fun e _ => Intent.after_apply]
    exact congrFun List.filterMap_eq_map'.symm rt.log
  | commit txnId =>
    change (rt.intentCommit txnId).log = rt.log.filterMap _ ++ []
    rw [rt.commit_log txnId, List.append_nil, List.filterMap_congr fun e _ => Intent.after_commit]
    exact congrFun List.filterMap_eq_map'.symm rt.log
  | clear txnId =>
    change (rt.intentClear txnId).2.log = rt.log.filterMap _ ++ []
    rw [(rt.clear_log txnId).2, List.append_nil, ← List.filterMap_eq_filter]
    refine List.filterMap_congr fun e _ => ?_
    rw [Intent.after_clear]
    by_cases h : e.txnId = txnId ∧ e.flags = .committed
    · simp [h, Option.guard]
    · simp [h, Option.guard]
  | replay =>
    change [] = rt.log.filterMap _ ++ []
    rw [List.append_nil, List.filterMap_congr fun e _ => Intent.after_replay]
    simp

end Intents

/-! ## 4. All lives -/

section Lives

variable {l : Life} {c : IntentCall}

theorem Life.fate_hear : (l.hear c).fate = l.fate.next l.intent.txnId c := by
  rw [fate, hear, List.foldl_append]
  rfl

/-- A life goes on as its intent in the log does. -/
theorem Life.survivor_hear : (l.hear c).survivor = l.survivor.bind (Intent.after c) := by
  rw [survivor, fate_hear, survivor]
  cases l.fate with
  | held s =>
    change ((Fate.held s).next l.intent.txnId c).kept l.intent
      = ((Fate.held s).next l.intent.txnId c).kept { l.intent with flags := s }
    cases (Fate.held s).next l.intent.txnId c with
    | held s' => rfl
    | cleared => rfl
    | replayed => rfl
    | dropped => rfl
  | cleared => rfl
  | replayed => rfl
  | dropped => rfl

/-- A life that ended one way ends so after a call too; and the call ends in that way those the log
shows it. -/
theorem Life.ends_hear {f : Fate} (hf : ∀ s, f ≠ .held s) : (l.hear c).fate = f ↔
    l.fate = f ∨ ∃ e, l.survivor = some e ∧ (Fate.held e.flags).next e.txnId c = f := by
  rw [fate_hear, survivor]
  cases l.fate with
  | held s => simp [Fate.kept, (hf s).symm]
  | cleared => simp [Fate.kept, Fate.next]
  | replayed => simp [Fate.kept, Fate.next]
  | dropped => simp [Fate.kept, Fate.next]

theorem Life.survivor_of_ended {f : Fate} (hf : ∀ s, f ≠ .held s) (h : l.fate = f) :
    l.survivor = none := by
  rw [survivor, h]
  cases f with
  | held s => exact absurd rfl (hf s)
  | cleared => rfl
  | replayed => rfl
  | dropped => rfl

/-- **The lives a call ends one way are the intents in the log that it takes there.** -/
theorem countP_ended {f : Fate} (hf : ∀ s, f ≠ .held s) (lives : List Life) :
    (lives.map (Life.hear c)).countP (fun l => l.fate = f)
      = lives.countP (fun l => l.fate = f)
        + (lives.filterMap Life.survivor).countP fun e =>
            (Fate.held e.flags).next e.txnId c = f := by
  induction lives with
  | nil => rfl
  | cons l lives ih =>
    simp only [List.map_cons, List.countP_cons, List.filterMap_cons, decide_eq_true_eq,
      Life.ends_hear hf, ih]
    by_cases hl : l.fate = f
    · simp only [hl, Life.survivor_of_ended hf hl, true_or, if_true]
      omega
    · cases hs : l.survivor with
      | none => simp [hl]
      | some e =>
        simp only [hl, false_or, Option.some.injEq, exists_eq_left', List.countP_cons,
          decide_eq_true_eq, if_false]
        omega

/-- **The array is what the lives say.** -/
structure IntentMachine.Accounted (m : IntentMachine) : Prop where
  log : m.rt.log = m.lives.filterMap Life.survivor
  cleared : m.cleared = (m.lives.countP fun l => l.fate = .cleared : Nat)
  replayed : m.replayed = (m.lives.countP fun l => l.fate = .replayed : Nat)

theorem countP_born {f : Fate} (hf : ∀ s, f ≠ .held s) (born : List Intent) :
    (born.map fun intent => (⟨intent, []⟩ : Life)).countP (fun l => l.fate = f) = 0 := by
  rw [List.countP_map, List.countP_eq_zero]
  intro intent _ h
  exact hf .pending (of_decide_eq_true h).symm

theorem filterMap_born (rt : IntentRuntime) (c : IntentCall) :
    ((rt.accepted c).map fun intent => (⟨intent, []⟩ : Life)).filterMap Life.survivor
      = rt.accepted c := by
  cases c with
  | create type targetIno oldBlock newBlock size txnId =>
    rw [IntentRuntime.accepted]
    split
    · rfl
    · rfl
  | apply txnId => rfl
  | commit txnId => rfl
  | clear txnId => rfl
  | replay => rfl

variable {m : IntentMachine}

/-- **What one call does**: the array and the lives go on together. -/
theorem accounted_step (h : m.Accounted) (hw : c.InWidth) : (intentStep m c).Accounted := by
  refine ⟨?_, ?_, ?_⟩
  · change (m.rt.after c).log = (m.lives.map (Life.hear c) ++ _).filterMap Life.survivor
    rw [m.rt.log_after hw, List.filterMap_append, filterMap_born, List.filterMap_map, h.log,
      List.filterMap_filterMap]
    refine congrArg (· ++ _) (List.filterMap_congr fun l _ => ?_)
    exact Life.survivor_hear.symm
  · change m.cleared + _ = ((m.lives.map (Life.hear c) ++ _).countP _ : Nat)
    rw [List.countP_append, countP_born (by simp), countP_ended (by simp), Nat.add_zero, Nat.cast_add,
      ← h.cleared, ← h.log]
    simp only [Fate.next_eq_cleared]
    refine congrArg (m.cleared + ·) ?_
    cases c with
    | clear txnId =>
      refine (m.rt.clear_log txnId).1.trans (congrArg _ (List.countP_congr fun e _ => ?_))
      simp only [decide_eq_true_eq, IntentCall.clear.injEq]
      exact and_congr eq_comm Iff.rfl
    | create | apply | commit | replay => simp
  · change m.replayed + _ = ((m.lives.map (Life.hear c) ++ _).countP _ : Nat)
    rw [List.countP_append, countP_born (by simp), countP_ended (by simp), Nat.add_zero, Nat.cast_add,
      ← h.replayed, ← h.log]
    simp only [Fate.next_eq_replayed]
    refine congrArg (m.replayed + ·) ?_
    cases c with
    | replay => simp [m.rt.replay_returns]
    | create | apply | commit | clear => simp

end Lives

/-! ## 5. The forgotten ones -/

section Forgotten

variable {quiet : IntentCall → Prop} {c d : IntentCall} {goal : List IntentCall → Prop}
  {calls : List IntentCall} {t : Nat}

theorem not_reaches_nil : ¬ Reaches quiet c goal [] := by
  rintro ⟨before, after, h, -⟩
  exact absurd h (by simp)

theorem reaches_cons : Reaches quiet c goal (d :: calls) ↔
    (d = c ∧ goal calls) ∨ (quiet d ∧ Reaches quiet c goal calls) := by
  constructor
  · rintro ⟨before, after, h, hquiet, hgoal⟩
    cases before with
    | nil =>
      obtain ⟨rfl, rfl⟩ := List.cons.inj h
      exact Or.inl ⟨rfl, hgoal⟩
    | cons x before =>
      obtain ⟨rfl, rfl⟩ := List.cons.inj h
      exact Or.inr ⟨hquiet _ List.mem_cons_self, before, after, rfl,
        fun y hy => hquiet y (List.mem_cons_of_mem _ hy), hgoal⟩
  · rintro (⟨rfl, hgoal⟩ | ⟨hd, before, after, rfl, hquiet, hgoal⟩)
    · exact ⟨[], calls, rfl, by simp, hgoal⟩
    · exact ⟨d :: before, after, rfl, List.forall_mem_cons.mpr ⟨hd, hquiet⟩, hgoal⟩

theorem foldl_ended {f : Fate} (hf : ∀ s, f ≠ .held s) (calls : List IntentCall) :
    calls.foldl (Fate.next t) f = f := by
  induction calls with
  | nil => rfl
  | cons c calls ih =>
    have hsame : f.next t c = f := by
      cases f with
      | held s => exact absurd rfl (hf s)
      | cleared => rfl
      | replayed => rfl
      | dropped => rfl
    rw [List.foldl_cons, hsame, ih]

/-- A committed intent is dropped when a replay comes before it is cleared. -/
theorem dropped_of_committed : calls.foldl (Fate.next t) (.held .committed) = .dropped ↔
    Reaches (fun c => c ≠ .replay ∧ c ≠ .clear t) .replay (fun _ => True) calls := by
  induction calls with
  | nil => simp [not_reaches_nil]
  | cons c calls ih =>
    rw [List.foldl_cons, reaches_cons]
    cases c with
    | create | apply => simpa [Fate.next] using ih
    | commit u => simpa [Fate.next] using ih
    | clear u =>
      by_cases hu : t = u
      · simp [Fate.next, hu, foldl_ended]
      · simpa [Fate.next, hu, eq_comm] using ih
    | replay => simp [Fate.next, foldl_ended]

/-- One that is not committed has to be committed first. -/
theorem dropped_of_open : ∀ s : IntentState, s ≠ .committed →
    (calls.foldl (Fate.next t) (.held s) = .dropped ↔
      Reaches (fun c => c ≠ .replay ∧ c ≠ .commit t) (.commit t)
        (Reaches (fun c => c ≠ .replay ∧ c ≠ .clear t) .replay fun _ => True) calls) := by
  induction calls with
  | nil => simp [not_reaches_nil]
  | cons c calls ih =>
    intro s hs
    rw [List.foldl_cons, reaches_cons]
    cases c with
    | create => simpa [Fate.next] using ih s hs
    | apply u =>
      simp only [Fate.next]
      split
      · simpa using ih .applied (by simp)
      · simpa using ih s hs
    | commit u =>
      by_cases hu : t = u
      · simp [Fate.next, hu, dropped_of_committed]
      · simpa [Fate.next, hu, eq_comm] using ih s hs
    | clear u => simpa [Fate.next, hs] using ih s hs
    | replay => simp [Fate.next, hs, foldl_ended]

/-- **An intent is dropped exactly when it is forgotten.** -/
theorem Life.dropped_iff (l : Life) : l.fate = .dropped ↔ l.Forgotten :=
  dropped_of_open .pending (by simp)

end Forgotten

/-! ## 6. The account -/

/-- Every life is held, or has ended in one of the three ways. -/
theorem lives_length (lives : List Life) : lives.length = (lives.filterMap Life.survivor).length
    + lives.countP (fun l => l.fate = .cleared) + lives.countP (fun l => l.fate = .replayed)
    + lives.countP fun l => l.fate = .dropped := by
  induction lives with
  | nil => rfl
  | cons l lives ih =>
    simp only [List.length_cons, List.countP_cons, List.filterMap_cons, Life.survivor]
    cases l.fate with
    | held s => simp [Fate.kept, ih]; omega
    | cleared => simp [Fate.kept, ih]; omega
    | replayed => simp [Fate.kept, ih]; omega
    | dropped => simp [Fate.kept, ih]; omega

theorem accounted_run (calls : List IntentCall) : ∀ m : IntentMachine, m.Accounted →
    (∀ c ∈ calls, c.InWidth) → (calls.foldl intentStep m).Accounted := by
  induction calls with
  | nil => exact fun m h _ => h
  | cons c calls ih =>
    intro m h hw
    obtain ⟨hc, hw⟩ := List.forall_mem_cons.mp hw
    exact ih _ (accounted_step h hc) hw

theorem accounted_start : IntentMachine.start.Accounted := ⟨rfl, rfl, rfl⟩

/-- **Whatever calls are made, the log holds the intents that are still held, in the order of their
creation and in the states their own transactions gave them; and the intents in the log, those the
clears returned and those the replays returned are all that were accepted exactly when none of them
was committed and then replayed over before it was cleared.** -/
theorem intents_accounted_iff (calls : List IntentCall) (hw : ∀ c ∈ calls, c.InWidth) :
    (calls.foldl intentStep .start).rt.log
        = (calls.foldl intentStep .start).lives.filterMap Life.survivor ∧
      (((calls.foldl intentStep .start).lives.length : Int)
          = (calls.foldl intentStep .start).rt.count + (calls.foldl intentStep .start).cleared
            + (calls.foldl intentStep .start).replayed ↔
        ∀ l ∈ (calls.foldl intentStep .start).lives, ¬ l.Forgotten) := by
  have h := accounted_run calls _ accounted_start hw
  generalize calls.foldl intentStep .start = m at h
  refine ⟨h.log, ?_⟩
  have hcount : m.rt.count = (m.lives.filterMap Life.survivor).length := by
    rw [← h.log, IntentRuntime.log_length]
  have hnone : m.lives.countP (fun l => l.fate = .dropped) = 0 ↔ ∀ l ∈ m.lives, ¬ l.Forgotten := by
    rw [List.countP_eq_zero]
    refine forall₂_congr fun l _ => ?_
    rw [decide_eq_true_eq, Life.dropped_iff]
  have hlength := lives_length m.lives
  rw [← hnone, hcount, h.cleared, h.replayed]
  omega

/-- One intent, committed and replayed over: nothing is in the log and nothing was returned. -/
theorem intents_accounted_forgotten :
    ¬ ∀ l ∈ ([.create 1 16 2 3 0 7, .commit 7, .replay].foldl intentStep .start).lives,
      ¬ l.Forgotten := by
  refine fun h => absurd ((intents_accounted_iff _ ?_).2.mpr h) (by decide +kernel)
  simp [IntentCall.InWidth]

end AetherFs
