/-
# The journal ring of `log.c`

The log is a ring of blocks.  Its region is `[j_start, j_end)`, but each of the three operations
that advance a position does so modulo `j_end`: what is wrapped goes on at block 0, and not at
`j_start`.

* **Upper end.**  A remainder modulo `j_end` is below `j_end`, so the head and the commit never
  leave the region at that end, and the walk of `aetherfs_journal_replay`, which passes through
  every block below `j_end`, always meets the head (`replayLoop_returns`).
* **Lower end.**  A position that wraps is in FRONT of the region unless the region starts at
  block 0.  `RingFits` says which calls do not wrap, and a run stays in the region exactly when
  each of its calls is one of those.
-/
import AetherFs.Device
import AetherFs.Kernel.Checksum
import AetherFs.Lib.Machine

namespace AetherFs

open Lib

/-! ## 1. The source -/

/-- `struct aetherfs_journal_log`. -/
structure JournalLog where
  jStart : Nat
  jEnd : Nat
  jHead : Nat
  jCommit : Nat
  jFlags : BitVec 32

/-- `AETHERFS_JOURNAL_RECOVERING`. -/
abbrev journalRecovering : BitVec 32 := 1#32

/-- `struct aetherfs_journal_transaction`, as `aetherfs_journal_start` fills it. -/
structure LogTransaction where
  tTxnId : Nat
  tStart : Nat
  tEnd : Nat

/-- The return value of `aetherfs_journal_start`: the transaction id as an `int`. -/
def LogTransaction.handle (txn : LogTransaction) : Int := (BitVec.ofNat 32 txn.tTxnId).toInt

/-- `aetherfs_journal_start`; `memory` says whether `kzalloc` succeeds. -/
def journalTxnStart (log : JournalLog) (nblocks : Int) (memory : Bool) :
    Except Errno LogTransaction × JournalLog :=
  if nblocks ≤ 0 then (.error .EINVAL, log)
  else if memory = false then (.error .ENOMEM, log)
  else
    let tEnd := addU64 log.jHead nblocks.toNat % log.jEnd
    (.ok ⟨addU64 log.jCommit 1, log.jHead, tEnd⟩, { log with jHead := tEnd })

/-- `aetherfs_journal_append`: a `struct aetherfs_journal_entry` at the front of the buffer, with
`je_txn_id` at 0, `je_op` at 8, `je_flags` at 12, `je_blocknr` at 16, `je_checksum` at 24. -/
def journalAppend (log : JournalLog) (bh : Memory) (txnId op flags : Nat) :
    Memory × JournalLog :=
  let bh := setLE (setLE (setLE bh 0 8 txnId) 8 4 op) 12 4 flags
  let bh := setLE bh 16 8 log.jHead
  (setLE bh 24 4 (hashed bh 0 28), { log with jHead := addU64 log.jHead 1 % log.jEnd })

/-- What `sb_bread` gives: nothing, a buffer that is not up to date, or a block. -/
inductive BlockRead
  | failed
  | stale
  | data (block : Memory)

/-- How the loop of a replay ends, and the blocks it has asked for. -/
structure ReplayWalk where
  outcome : Except Errno Nat
  reads : List Nat

/-- One more block in front. -/
def ReplayWalk.after (pos : Nat) (w : ReplayWalk) : ReplayWalk := ⟨w.outcome, pos :: w.reads⟩

/-- The loop of `aetherfs_journal_replay`; `none` says that it is still running after as many
rounds.  The loop goes on alike whether the checksum of the block is zero or not. -/
def replayLoop (disk : Nat → BlockRead) (jEnd head : Nat) : Nat → Nat → Option ReplayWalk
  | 0, _ => none
  | fuel + 1, pos =>
    if pos = head then some ⟨.ok pos, []⟩
    else match disk pos with
      | .failed => some ⟨.error .EIOERR, [pos]⟩
      | .stale => some ⟨.ok pos, [pos]⟩
      | .data _ => (replayLoop disk jEnd head fuel (addU64 pos 1 % jEnd)).map (.after pos)

/-- What a replay makes of the walk; on an error the log stays marked as recovering. -/
def replayDone (log : JournalLog) (w : ReplayWalk) : Except Errno Unit × JournalLog :=
  let log := { log with jFlags := log.jFlags ||| journalRecovering }
  match w.outcome with
  | .error e => (.error e, log)
  | .ok pos =>
    (.ok (), { log with
      jHead := pos
      jCommit := pos
      jFlags := log.jFlags &&& ~~~journalRecovering })

/-- `aetherfs_journal_replay`: the return value, the log and the blocks read; `none` if the loop
does not end.  More than `j_end` rounds bring nothing new. -/
def journalReplay (log : JournalLog) (disk : Nat → BlockRead) :
    Option ((Except Errno Unit × JournalLog) × List Nat) :=
  if log.jHead = log.jCommit then some ((.ok (), log), [])
  else (replayLoop disk log.jEnd log.jHead (log.jEnd + 1) log.jCommit).map fun w =>
    (replayDone log w, w.reads)

/-! ## 2. Runs -/

/-- The log, every block number that was read or recorded as the position of an entry, and whether
a replay did not come back. -/
structure RingMachine where
  log : JournalLog
  seen : List Nat
  hung : Bool

inductive RingCall
  | start (nblocks : Int) (memory : Bool)
  | append (bh : Memory) (txnId op flags : Nat)
  | replay (disk : Nat → BlockRead)

def ringStep (m : RingMachine) : RingCall → RingMachine
  | .start nblocks memory => { m with log := (journalTxnStart m.log nblocks memory).2 }
  | .append bh txnId op flags =>
    let r := journalAppend m.log bh txnId op flags
    { m with log := r.2, seen := getLE r.1 16 8 :: m.seen }
  | .replay disk =>
    match journalReplay m.log disk with
    | some (r, reads) => { m with log := r.2, seen := reads ++ m.seen }
    | none => { m with hung := true }

/-- `nblocks` is an `int`. -/
def RingValid (_m : RingMachine) : RingCall → Prop
  | .start nblocks _ => nblocks < 2 ^ 31
  | .append _ _ _ _ => True
  | .replay _ => True

/-- The block is in the region of the log. -/
def JournalLog.Inside (log : JournalLog) (block : Nat) : Prop :=
  log.jStart ≤ block ∧ block < log.jEnd

/-- The ring is in its region, and so is what has been read and recorded. -/
structure RingSound (m : RingMachine) : Prop where
  head : m.log.Inside m.log.jHead
  commit : m.log.Inside m.log.jCommit
  seen : ∀ block ∈ m.seen, m.log.Inside block
  returns : m.hung = false

/-- The call does not wrap to the front of the region.  A replay does not if it starts at or before
the head, or if it is stopped by a block before it comes to the end. -/
def RingFits (m : RingMachine) : RingCall → Prop
  | .start nblocks memory => 0 < nblocks → memory = true →
      m.log.jStart ≤ addU64 m.log.jHead nblocks.toNat % m.log.jEnd
  | .append _ _ _ _ => m.log.jStart ≤ addU64 m.log.jHead 1 % m.log.jEnd
  | .replay disk => m.log.jStart = 0 ∨ m.log.jCommit ≤ m.log.jHead ∨
      ∃ p, m.log.jCommit ≤ p ∧ p < m.log.jEnd ∧ ∀ block, disk p ≠ .data block

/-! ## 3. The walk of a replay -/

section Walk

variable {disk : Nat → BlockRead} {jEnd head : Nat}

theorem ring_next {pos : Nat} (h64 : jEnd < 2 ^ 64) (hpos : pos < jEnd) :
    addU64 pos 1 % jEnd = if pos + 1 = jEnd then 0 else pos + 1 := by
  have hadd : addU64 pos 1 = pos + 1 := Nat.mod_eq_of_lt (by omega)
  rw [hadd]
  split
  · next hlast => rw [hlast, Nat.mod_self]
  · next hlast => exact Nat.mod_eq_of_lt (by omega)

/-- How many rounds there are until the head is met. -/
def ringDistance (jEnd head pos : Nat) : Nat :=
  if pos ≤ head then head - pos else jEnd - pos + head

theorem ringDistance_next {pos : Nat} (h64 : jEnd < 2 ^ 64) (hpos : pos < jEnd)
    (hhead : head < jEnd) (hne : pos ≠ head) :
    ringDistance jEnd head (addU64 pos 1 % jEnd) + 1 = ringDistance jEnd head pos := by
  rw [ring_next h64 hpos]
  unfold ringDistance
  split <;> split <;> split <;> omega

/-- **The walk meets the head.**  It returns after as many rounds as the ring has blocks between
the two, and what it reads and where it ends is below `j_end`. -/
theorem replayLoop_returns (h64 : jEnd < 2 ^ 64) (hhead : head < jEnd) (fuel : Nat) :
    ∀ pos, pos < jEnd → ringDistance jEnd head pos < fuel →
      ∃ w, replayLoop disk jEnd head fuel pos = some w ∧ (∀ p ∈ w.reads, p < jEnd) ∧
        ∀ p, w.outcome = .ok p → p < jEnd := by
  induction fuel with
  | zero =>
    intro pos _ hfuel
    exact absurd hfuel (Nat.not_lt_zero _)
  | succ fuel ih =>
    intro pos hpos hfuel
    by_cases hmet : pos = head
    · refine ⟨⟨.ok pos, []⟩, by rw [replayLoop, if_pos hmet], fun p hp => ?_, fun p hp => ?_⟩
      · exact absurd hp List.not_mem_nil
      · cases hp
        exact hpos
    · rw [replayLoop, if_neg hmet]
      cases hdisk : disk pos with
      | failed =>
        refine ⟨_, rfl, fun p hp => ?_, fun p hp => ?_⟩
        · rw [List.mem_singleton.mp hp]
          exact hpos
        · cases hp
      | stale =>
        refine ⟨_, rfl, fun p hp => ?_, fun p hp => ?_⟩
        · rw [List.mem_singleton.mp hp]
          exact hpos
        · cases hp
          exact hpos
      | data block =>
        have hnext := ringDistance_next h64 hpos hhead hmet
        have hlt : addU64 pos 1 % jEnd < jEnd := Nat.mod_lt _ (by omega)
        obtain ⟨w, hw, hreads, hout⟩ := ih _ hlt (by omega)
        refine ⟨w.after pos, ?_, ?_, hout⟩
        · simp only [hw, Option.map_some]
        · intro p hp
          rcases List.mem_cons.mp hp with rfl | hp
          · exact hpos
          · exact hreads p hp

/-- **One round**: the head is met, a block stops the walk, or it goes on. -/
theorem replayLoop_turn {fuel pos : Nat} {w : ReplayWalk}
    (h : replayLoop disk jEnd head (fuel + 1) pos = some w) :
    (pos = head ∧ w.reads = [] ∧ w.outcome = .ok pos) ∨
      (pos ≠ head ∧ (∀ block, disk pos ≠ .data block) ∧ w.reads = [pos] ∧
        ∀ p, w.outcome = .ok p → p = pos) ∨
      (pos ≠ head ∧ (∃ block, disk pos = .data block) ∧
        ∃ w', replayLoop disk jEnd head fuel (addU64 pos 1 % jEnd) = some w' ∧ w = w'.after pos) := by
  rw [replayLoop] at h
  split at h
  · next hmet =>
    obtain rfl := Option.some.inj h
    exact Or.inl ⟨hmet, rfl, rfl⟩
  · next hne =>
    refine Or.inr ?_
    cases hdisk : disk pos with
    | failed =>
      rw [hdisk] at h
      obtain rfl := Option.some.inj h
      exact Or.inl ⟨hne, fun block => by simp, rfl, fun p hp => by cases hp⟩
    | stale =>
      rw [hdisk] at h
      obtain rfl := Option.some.inj h
      exact Or.inl ⟨hne, fun block => by simp, rfl, fun p hp => (Except.ok.inj hp).symm⟩
    | data block =>
      rw [hdisk] at h
      obtain ⟨w', hw', rfl⟩ := Option.map_eq_some_iff.mp h
      exact Or.inr ⟨hne, ⟨block, rfl⟩, w', hw', rfl⟩

theorem replayLoop_first {fuel pos : Nat} {w : ReplayWalk} (hne : pos ≠ head)
    (h : replayLoop disk jEnd head fuel pos = some w) : pos ∈ w.reads := by
  cases fuel with
  | zero => exact absurd h (by simp [replayLoop])
  | succ fuel =>
    rcases replayLoop_turn h with ⟨hmet, -⟩ | ⟨-, -, hreads, -⟩ | ⟨-, -, w', -, rfl⟩
    · exact absurd hmet hne
    · rw [hreads]
      exact List.mem_singleton.mpr rfl
    · exact List.mem_cons_self

/-- What is read from the next position on, and this position, is not in front of it. -/
theorem after_ge {pos : Nat} {w : ReplayWalk}
    (h : (∀ p ∈ w.reads, pos + 1 ≤ p) ∧ ∀ p, w.outcome = .ok p → pos + 1 ≤ p) :
    (∀ p ∈ (w.after pos).reads, pos ≤ p) ∧ ∀ p, (w.after pos).outcome = .ok p → pos ≤ p := by
  refine ⟨fun p hp => ?_, fun p hp => (Nat.le_succ pos).trans (h.2 p hp)⟩
  rcases List.mem_cons.mp hp with rfl | hp
  · exact Nat.le_refl _
  · exact (Nat.le_succ pos).trans (h.1 p hp)

/-- From a position that is not behind the head it goes straight there. -/
theorem replayLoop_straight (h64 : jEnd < 2 ^ 64) (hhead : head < jEnd) (fuel : Nat) :
    ∀ pos w, pos ≤ head → replayLoop disk jEnd head fuel pos = some w →
      (∀ p ∈ w.reads, pos ≤ p) ∧ ∀ p, w.outcome = .ok p → pos ≤ p := by
  induction fuel with
  | zero =>
    intro pos w _ hw
    exact absurd hw (by simp [replayLoop])
  | succ fuel ih =>
    intro pos w hpos hw
    rcases replayLoop_turn hw with ⟨-, hreads, hout⟩ | ⟨-, -, hreads, hout⟩ | ⟨hne, -, w', hw', rfl⟩
    · rw [hreads, hout]
      refine ⟨fun p hp => absurd hp List.not_mem_nil, fun p hp => ?_⟩
      exact (Except.ok.inj hp).le
    · rw [hreads]
      exact ⟨fun p hp => (List.mem_singleton.mp hp).ge, fun p hp => (hout p hp).ge⟩
    · rw [ring_next h64 (by omega), if_neg (by omega)] at hw'
      exact after_ge (ih (pos + 1) w' (by omega) hw')

/-- From a position behind the head it comes to the end of the region: a block stops it there, or
it goes on at block 0. -/
theorem replayLoop_wraps (h64 : jEnd < 2 ^ 64) (hzero : 0 < head) (fuel : Nat) :
    ∀ pos w, head < pos → pos < jEnd → replayLoop disk jEnd head fuel pos = some w →
      ((∃ p, pos ≤ p ∧ p < jEnd ∧ ∀ block, disk p ≠ .data block) ∧
        (∀ p ∈ w.reads, pos ≤ p) ∧ ∀ p, w.outcome = .ok p → pos ≤ p) ∨
      ((∀ p, pos ≤ p → p < jEnd → ∃ block, disk p = .data block) ∧ 0 ∈ w.reads) := by
  induction fuel with
  | zero =>
    intro pos w _ _ hw
    exact absurd hw (by simp [replayLoop])
  | succ fuel ih =>
    intro pos w hpos hlt hw
    rcases replayLoop_turn hw with ⟨hmet, -⟩ | ⟨-, hstop, hreads, hout⟩ | ⟨-, hdata, w', hw', rfl⟩
    · exact absurd hmet hpos.ne'
    · refine Or.inl ⟨⟨pos, Nat.le_refl _, hlt, hstop⟩, ?_, fun p hp => (hout p hp).ge⟩
      rw [hreads]
      exact fun p hp => (List.mem_singleton.mp hp).ge
    · rw [ring_next h64 hlt] at hw'
      split at hw'
      · -- the last block of the region: the walk is at block 0 now
        next hlast =>
        refine Or.inr ⟨fun p hp hpe => ?_, List.mem_cons_of_mem _ (replayLoop_first hzero.ne hw')⟩
        obtain rfl : p = pos := by omega
        exact hdata
      · next hlast =>
        rcases ih (pos + 1) w' (by omega) (by omega) hw' with ⟨⟨p, hp, hpe, hstop⟩, hge⟩ |
          ⟨hrest, hzeroMem⟩
        · exact Or.inl ⟨⟨p, by omega, hpe, hstop⟩, after_ge hge⟩
        · refine Or.inr ⟨fun q hq hqe => ?_, List.mem_cons_of_mem _ hzeroMem⟩
          rcases Nat.eq_or_lt_of_le hq with rfl | hq
          · exact hdata
          · exact hrest q hq hqe

end Walk

/-! ## 4. One call -/

section Ring

variable {m : RingMachine}

/-- What holds whether calls wrap or not. -/
structure RingBound (m : RingMachine) : Prop where
  width : m.log.jEnd < 2 ^ 64
  head : m.log.jHead < m.log.jEnd
  commit : m.log.jCommit < m.log.jEnd
  returns : m.hung = false

/-- Every block the walk reads, and the one it ends at, meets `P`. -/
def ReplayWalk.All (w : ReplayWalk) (P : Nat → Prop) : Prop :=
  (∀ p ∈ w.reads, P p) ∧ ∀ p, w.outcome = .ok p → P p

theorem ReplayWalk.All.and {w : ReplayWalk} {P Q : Nat → Prop} (hP : w.All P) (hQ : w.All Q) :
    w.All fun p => P p ∧ Q p :=
  ⟨fun p hp => ⟨hP.1 p hp, hQ.1 p hp⟩, fun p hp => ⟨hP.2 p hp, hQ.2 p hp⟩⟩

/-- The log behind a walk: where it was, or at the block the walk has ended at. -/
theorem replayDone_cases (log : JournalLog) (w : ReplayWalk) :
    (replayDone log w).2.jStart = log.jStart ∧ (replayDone log w).2.jEnd = log.jEnd ∧
    ((∃ e, w.outcome = .error e ∧ (replayDone log w).2.jHead = log.jHead ∧
        (replayDone log w).2.jCommit = log.jCommit) ∨
      ∃ pos, w.outcome = .ok pos ∧ (replayDone log w).2.jHead = pos ∧
        (replayDone log w).2.jCommit = pos) := by
  cases h : w.outcome with
  | error e =>
    rw [replayDone, h]
    exact ⟨rfl, rfl, Or.inl ⟨e, rfl, rfl, rfl⟩⟩
  | ok pos =>
    rw [replayDone, h]
    exact ⟨rfl, rfl, Or.inr ⟨pos, rfl, rfl, rfl⟩⟩

/-- **A replay comes back**: there is nothing to replay, or its walk ends, below `j_end`. -/
theorem ringStep_replay (h : RingBound m) (disk : Nat → BlockRead) :
    (m.log.jHead = m.log.jCommit ∧ ringStep m (.replay disk) = m) ∨
    ∃ w, replayLoop disk m.log.jEnd m.log.jHead (m.log.jEnd + 1) m.log.jCommit = some w ∧
      w.All (· < m.log.jEnd) ∧
      ringStep m (.replay disk) = ⟨(replayDone m.log w).2, w.reads ++ m.seen, m.hung⟩ := by
  by_cases hsame : m.log.jHead = m.log.jCommit
  · refine Or.inl ⟨hsame, ?_⟩
    simp only [ringStep, journalReplay, if_pos hsame]
    rfl
  · have hfuel : ringDistance m.log.jEnd m.log.jHead m.log.jCommit < m.log.jEnd + 1 := by
      have hhead := h.head
      unfold ringDistance
      split <;> omega
    obtain ⟨w, hw, hreads, hout⟩ :=
      @replayLoop_returns disk _ _ h.width h.head _ _ h.commit hfuel
    refine Or.inr ⟨w, hw, ⟨hreads, hout⟩, ?_⟩
    simp only [ringStep, journalReplay, if_neg hsame, hw, Option.map_some]

/-- **The bounds are kept by every call**, and the region does not move. -/
theorem ringBound_step (h : RingBound m) (c : RingCall) :
    RingBound (ringStep m c) ∧ (ringStep m c).log.jStart = m.log.jStart ∧
      (ringStep m c).log.jEnd = m.log.jEnd := by
  have hend : 0 < m.log.jEnd := Nat.zero_lt_of_lt h.head
  cases c with
  | start nblocks memory =>
    simp only [ringStep, journalTxnStart]
    split
    · exact ⟨h, rfl, rfl⟩
    · split
      · exact ⟨h, rfl, rfl⟩
      · exact ⟨⟨h.width, Nat.mod_lt _ hend, h.commit, h.returns⟩, rfl, rfl⟩
  | append bh txnId op flags =>
    exact ⟨⟨h.width, Nat.mod_lt _ hend, h.commit, h.returns⟩, rfl, rfl⟩
  | replay disk =>
    rcases ringStep_replay h disk with ⟨-, hstep⟩ | ⟨w, -, hall, hstep⟩
    · rw [hstep]
      exact ⟨h, rfl, rfl⟩
    · rw [hstep]
      obtain ⟨hs, he, hcases⟩ := replayDone_cases m.log w
      refine ⟨?_, hs, he⟩
      rcases hcases with ⟨e, -, hh, hc⟩ | ⟨pos, hpos, hh, hc⟩
      · exact ⟨he.trans_lt h.width, by rw [hh, he]; exact h.head,
          by rw [hc, he]; exact h.commit, h.returns⟩
      · have hlt := hall.2 pos hpos
        exact ⟨he.trans_lt h.width, by rw [hh, he]; exact hlt, by rw [hc, he]; exact hlt,
          h.returns⟩

/-- What a walk makes of a sound ring is sound exactly if the walk was in the region. -/
theorem replayDone_sound_iff (h : RingSound m) {w : ReplayWalk} (hall : w.All (· < m.log.jEnd)) :
    RingSound ⟨(replayDone m.log w).2, w.reads ++ m.seen, m.hung⟩ ↔
      w.All (m.log.jStart ≤ ·) := by
  obtain ⟨hs, he, hcases⟩ := replayDone_cases m.log w
  have hinside : ∀ p, (replayDone m.log w).2.Inside p ↔ m.log.Inside p := by
    intro p
    rw [JournalLog.Inside, JournalLog.Inside, hs, he]
  constructor
  · rintro ⟨hhead, -, hseen, -⟩
    refine ⟨fun p hp => ((hinside p).mp (hseen p (List.mem_append_left _ hp))).1, fun p hp => ?_⟩
    rcases hcases with ⟨e, herr, -, -⟩ | ⟨pos, hpos, hh, -⟩
    · rw [hp] at herr
      cases herr
    · obtain rfl : p = pos := Except.ok.inj (hp.symm.trans hpos)
      rw [← hh]
      exact ((hinside _).mp hhead).1
  · intro hlow
    obtain ⟨hreads, hout⟩ := hlow.and hall
    have hseen : ∀ p ∈ w.reads ++ m.seen, (replayDone m.log w).2.Inside p := by
      intro p hp
      rw [hinside]
      rcases List.mem_append.mp hp with hp | hp
      · exact hreads p hp
      · exact h.seen p hp
    rcases hcases with ⟨e, -, hh, hc⟩ | ⟨pos, hpos, hh, hc⟩
    · refine ⟨(hinside _).mpr ?_, (hinside _).mpr ?_, hseen, h.returns⟩
      · rw [hh]
        exact h.head
      · rw [hc]
        exact h.commit
    · refine ⟨(hinside _).mpr ?_, (hinside _).mpr ?_, hseen, h.returns⟩
      · rw [hh]
        exact hout pos hpos
      · rw [hc]
        exact hout pos hpos

/-- A replay of a sound ring is in the region exactly if it does not wrap. -/
theorem replay_sound_iff (hb : RingBound m) (h : RingSound m) (disk : Nat → BlockRead) :
    RingSound (ringStep m (.replay disk)) ↔ RingFits m (.replay disk) := by
  rcases ringStep_replay hb disk with ⟨hsame, hstep⟩ | ⟨w, hw, hall, hstep⟩
  · rw [hstep]
    exact iff_of_true h (Or.inr (Or.inl hsame.ge))
  · rw [hstep, replayDone_sound_iff h hall]
    rcases Nat.eq_zero_or_pos m.log.jStart with hzero | hpos
    · refine iff_of_true ?_ (Or.inl hzero)
      rw [hzero]
      exact ⟨fun p _ => Nat.zero_le p, fun p _ => Nat.zero_le p⟩
    · rcases Nat.lt_or_ge m.log.jHead m.log.jCommit with hlt | hle
      · have hhead : 0 < m.log.jHead := hpos.trans_le h.head.1
        rcases replayLoop_wraps hb.width hhead _ _ _ hlt hb.commit hw with
          ⟨hstop, hreads, hout⟩ | ⟨hdata, hfront⟩
        · refine iff_of_true ⟨fun p hp => ?_, fun p hp => ?_⟩ (Or.inr (Or.inr hstop))
          · exact h.commit.1.trans (hreads p hp)
          · exact h.commit.1.trans (hout p hp)
        · refine iff_of_false (fun hlow => ?_) ?_
          · exact absurd (hlow.1 0 hfront) (Nat.not_le.mpr hpos)
          · rintro (hzero | hle | ⟨p, hp, hpe, hstop⟩)
            · exact hpos.ne' hzero
            · exact absurd hlt (Nat.not_lt.mpr hle)
            · obtain ⟨block, hblock⟩ := hdata p hp hpe
              exact hstop block hblock
      · obtain ⟨hreads, hout⟩ := replayLoop_straight hb.width hb.head _ _ _ hle hw
        refine iff_of_true ⟨fun p hp => ?_, fun p hp => ?_⟩ (Or.inr (Or.inl hle))
        · exact h.commit.1.trans (hreads p hp)
        · exact h.commit.1.trans (hout p hp)

/-- A head that was moved to a remainder modulo `j_end`, and what was recorded on the way. -/
theorem moved_sound_iff (h : RingSound m) {n : Nat} {seen : List Nat}
    (hseen : ∀ block ∈ seen, m.log.Inside block) :
    RingSound ⟨{ m.log with jHead := addU64 m.log.jHead n % m.log.jEnd }, seen, m.hung⟩ ↔
      m.log.jStart ≤ addU64 m.log.jHead n % m.log.jEnd := by
  have hend : 0 < m.log.jEnd := Nat.zero_lt_of_lt h.head.2
  constructor
  · intro hs
    exact hs.head.1
  · intro hlow
    exact ⟨⟨hlow, Nat.mod_lt _ hend⟩, h.commit, hseen, h.returns⟩

/-- **A call keeps the ring in its region exactly if it fits.** -/
theorem ring_step_iff (hb : RingBound m) (h : RingSound m) (c : RingCall) :
    RingSound (ringStep m c) ↔ RingFits m c := by
  cases c with
  | start nblocks memory =>
    simp only [ringStep, journalTxnStart, RingFits]
    split
    · next hneg => exact iff_of_true h fun hpos => absurd hpos (not_lt.mpr hneg)
    · next hpos =>
      split
      · next hmem => exact iff_of_true h fun _ hm => absurd (hmem.symm.trans hm) Bool.false_ne_true
      · next hmem =>
        refine (moved_sound_iff h h.seen).trans ⟨fun hlow _ _ => hlow, fun hfits => ?_⟩
        exact hfits (not_le.mp hpos) (eq_true_of_ne_false hmem)
  | append bh txnId op flags =>
    refine moved_sound_iff h fun block hblock => ?_
    rcases List.mem_cons.mp hblock with rfl | hblock
    · -- the position recorded is the head
      have h64 : m.log.jHead < 256 ^ 8 := hb.head.trans (by simpa using hb.width)
      rw [journalAppend, getLE_setLE_of_disjoint _ _ (by decide), getLE_setLE_self,
        Nat.mod_eq_of_lt h64]
      exact h.head
    · exact h.seen block hblock
  | replay disk => exact replay_sound_iff hb h disk

/-- The invariant of a run whose calls fit. -/
structure RingInv (m : RingMachine) : Prop where
  bound : RingBound m
  sound : RingSound m

theorem ringInv_step (h : RingInv m) {c : RingCall} (hfits : RingFits m c) :
    RingInv (ringStep m c) :=
  ⟨(ringBound_step h.bound c).1, (ring_step_iff h.bound h.sound c).mpr hfits⟩

theorem ringFits_of_zero (hzero : m.log.jStart = 0) (c : RingCall) : RingFits m c := by
  cases c with
  | start nblocks memory =>
    intro _ _
    rw [hzero]
    exact Nat.zero_le _
  | append bh txnId op flags =>
    rw [RingFits, hzero]
    exact Nat.zero_le _
  | replay disk => exact Or.inl hzero

theorem along_ringFits_of_zero (calls : List RingCall) : ∀ m : RingMachine, RingBound m →
    m.log.jStart = 0 → Along ringStep RingFits m calls := by
  induction calls with
  | nil =>
    intro m _ _
    trivial
  | cons c calls ih =>
    intro m hb hzero
    obtain ⟨hb', hsame, -⟩ := ringBound_step hb c
    exact ⟨ringFits_of_zero hzero c, ih _ hb' (hsame.trans hzero)⟩

end Ring

/-! ## 5. Whole runs -/

/-- **The journal ring, exactly.**  In a run of starts, appends and replays every replay returns;
the head, the commit and every block number read or recorded stay in the region exactly as long as
no call wraps, so that a region that starts at block 0 is never left. -/
theorem journal_ring_iff (log : JournalLog) (hwidth : log.jEnd < 2 ^ 64)
    (hhead : log.Inside log.jHead) (hcommit : log.Inside log.jCommit) (calls : List RingCall)
    (hvalid : Along ringStep RingValid ⟨log, [], false⟩ calls) :
    ((∀ m ∈ states ringStep ⟨log, [], false⟩ calls, RingSound m) ↔
      Along ringStep RingFits ⟨log, [], false⟩ calls) ∧
    (∀ m ∈ states ringStep ⟨log, [], false⟩ calls, m.hung = false) ∧
    (log.jStart = 0 → ∀ m ∈ states ringStep ⟨log, [], false⟩ calls, RingSound m) := by
  have hbound : RingBound ⟨log, [], false⟩ := ⟨hwidth, hhead.2, hcommit.2, rfl⟩
  have hstart : RingInv ⟨log, [], false⟩ :=
    ⟨hbound, hhead, hcommit, fun block hblock => absurd hblock List.not_mem_nil, rfl⟩
  have hiff : (∀ m ∈ states ringStep ⟨log, [], false⟩ calls, RingSound m) ↔
      Along ringStep RingFits ⟨log, [], false⟩ calls :=
    states_good_iff (fun m hm => hm.sound) (fun m c hm _ hfits => ringInv_step hm hfits)
      (fun m c hm _ hs => (ring_step_iff hm.bound hm.sound c).mp hs) calls _ hstart hvalid
  refine ⟨hiff, fun m hm => ?_, fun hzero => hiff.mpr (along_ringFits_of_zero calls _ hbound hzero)⟩
  exact (@run_inv _ _ ringStep RingBound (fun hs c => (ringBound_step hs c).1) calls _ _ hbound
    hm).returns

/-- A ring of eight blocks in the middle of a device, with room for one entry before its end. -/
def middleRing : JournalLog := ⟨8, 16, 14, 14, 0⟩

/-- The same entry again and again. -/
def sameEntry : RingCall := .append (fun _ => 0) 1 1 0

theorem journal_ring_one_entry :
    middleRing.Inside middleRing.jHead ∧
      ∀ m ∈ states ringStep ⟨middleRing, [], false⟩ [sameEntry], RingSound m := by
  have hin : middleRing.Inside 14 := ⟨by decide, by decide⟩
  have hvalid : Along ringStep RingValid ⟨middleRing, [], false⟩ [sameEntry] := ⟨trivial, trivial⟩
  have hfits : RingFits ⟨middleRing, [], false⟩ sameEntry :=
    show 8 ≤ addU64 14 1 % 16 by decide
  exact ⟨hin, (journal_ring_iff middleRing (by decide) hin hin _ hvalid).1.mpr ⟨hfits, trivial⟩⟩

theorem journal_ring_second_entry_leaves :
    middleRing.Inside middleRing.jHead ∧ middleRing.Inside middleRing.jCommit ∧
      ([sameEntry, sameEntry].foldl ringStep ⟨middleRing, [], false⟩).log.jHead = 0 ∧
      ¬ middleRing.Inside 0 :=
  ⟨⟨by decide, by decide⟩, ⟨by decide, by decide⟩, rfl, fun h => absurd h.1 (by decide)⟩

end AetherFs
