/-
# The journal lanes of `percpu.c`

CPUs share lanes.  An operation takes a sequence number from its lane when it starts, and the lane
counts the operations that have not ended.  The last one to end puts the lane into COMMITTING, where
no operation starts; a commit that finds none open records the sequence number it has come to and
makes the lane IDLE.

The machine of section 2 keeps, beside the lanes, the operations that are open, each with its lane
and its number.  Calls are complete; which CPU makes one is of no account but for the lane it comes
to.  A start on a lane that is COMMITTING spins, and is not a call until it is let in.

* `ll_pending_ops` is the number of the open operations, and everything else follows
  (`LaneInv`) -- as long as the number fits: it is an `atomic_t`, of 32 bits and signed.
* With 2^31 operations open it is negative, a commit takes the lane for empty, and records a number
  that every one of them is below.  The other limit is 2^64 starts after a commit.
-/
import AetherFs.Format
import AetherFs.Lib.Machine

namespace AetherFs

open Lib

/-! ## 1. The source -/

/-- `enum aetherfs_lane_state`. -/
inductive LaneState
  | idle | active | committing | waiting
deriving DecidableEq, Repr

/-- `struct aetherfs_percpu_lane`, without the buffer and the work item no function here uses. -/
structure Lane where
  state : LaneState
  sequence : Nat
  committedSeq : Nat
  pendingOps : BitVec 32
deriving DecidableEq

/-- `aetherfs_lanes` and `aetherfs_nr_lanes`. -/
structure Lanes where
  nrLanes : Nat
  lane : Nat → Lane

/-- The lanes as `aetherfs_percpu_init` leaves them; `AETHERFS_MAX_LANES` is 64. -/
def lanesInit (onlineCpus : Nat) : Lanes :=
  ⟨if min onlineCpus 64 < 1 then 1 else min onlineCpus 64, fun _ => ⟨.idle, 0, 0, 0#32⟩⟩

/-- A lane stored. -/
def Lanes.set (s : Lanes) (k : Nat) (l : Lane) : Lanes :=
  { s with lane := Function.update s.lane k l }

/-- `aetherfs_journal_percpu_start`, with the lane it returns and the number it took; none where it
spins. -/
def journalPercpuStart (s : Lanes) (cpu : Nat) : Option (Lanes × Nat × Nat) :=
  let lane := cpu % s.nrLanes
  let l := s.lane lane
  if l.state = .committing then none
  else
    let started : Lane := ⟨.active, addU64 l.sequence 1, l.committedSeq, l.pendingOps + 1#32⟩
    some (s.set lane started, lane, l.sequence)

/-- `aetherfs_journal_percpu_end`. -/
def journalPercpuEnd (s : Lanes) (lane : Int) : Lanes :=
  if lane < 0 ∨ lane ≥ s.nrLanes then s
  else
    let l := s.lane lane.toNat
    let pending := l.pendingOps - 1#32
    let state := if pending = 0#32 then .committing else l.state
    s.set lane.toNat ⟨state, l.sequence, l.committedSeq, pending⟩

/-- What `aetherfs_journal_percpu_commit` returns. -/
inductive CommitAnswer
  | done | EAGAIN | EINVAL
deriving DecidableEq, Repr

/-- `aetherfs_journal_percpu_commit`.  No other call comes between its 100001 looks at the count. -/
def journalPercpuCommit (s : Lanes) (lane : Int) : CommitAnswer × Lanes :=
  if lane < 0 ∨ lane ≥ s.nrLanes then (.EINVAL, s)
  else
    let l := s.lane lane.toNat
    if l.pendingOps.toInt > 0 then (.EAGAIN, s)
    else (.done, s.set lane.toNat ⟨.idle, l.sequence, l.sequence, l.pendingOps⟩)

/-! ## 2. Interleavings -/

/-- An operation that has started and not ended. -/
structure LaneOp where
  lane : Nat
  seq : Nat
deriving DecidableEq

structure LaneMachine where
  lanes : Lanes
  ops : List LaneOp

/-- `finish i` ends the operation at `i` of the open ones. -/
inductive LaneCall
  | start (cpu : Nat)
  | finish (i : Nat)
  | commit (lane : Int)

/-- A start that spins and an end that no start goes with are not calls. -/
def laneStep (m : LaneMachine) : LaneCall → LaneMachine
  | .start cpu =>
    match journalPercpuStart m.lanes cpu with
    | some (lanes, lane, seq) => ⟨lanes, m.ops ++ [⟨lane, seq⟩]⟩
    | none => m
  | .finish i =>
    match m.ops[i]? with
    | some op => ⟨journalPercpuEnd m.lanes op.lane, m.ops.eraseIdx i⟩
    | none => m
  | .commit lane => ⟨(journalPercpuCommit m.lanes lane).2, m.ops⟩

/-- The protocol, of one lane. -/
structure LaneSafe (m : LaneMachine) (k : Nat) : Prop where
  active : (m.lanes.lane k).state = .active ↔ (m.lanes.lane k).pendingOps.toInt > 0
  committed_le : (m.lanes.lane k).committedSeq ≤ (m.lanes.lane k).sequence
  idle : (m.lanes.lane k).state = .idle →
    (m.lanes.lane k).committedSeq = (m.lanes.lane k).sequence
  ops : ∀ op ∈ m.ops, op.lane = k → (m.lanes.lane k).committedSeq ≤ op.seq

/-- What a start must find: a count that can go up, and a number that can, unless there has been no
commit. -/
def StartFits (m : LaneMachine) : LaneCall → Prop
  | .start cpu =>
    let l := m.lanes.lane (cpu % m.lanes.nrLanes)
    l.state = .committing ∨
      (l.pendingOps ≠ 0x7FFFFFFF#32 ∧ (l.sequence < 2 ^ 64 - 1 ∨ l.committedSeq = 0))
  | _ => True

/-! ## 3. The invariant -/

/-- The operations that are open on a lane. -/
def openOn (ops : List LaneOp) (k : Nat) : Nat := ops.countP fun op => op.lane = k

/-- A lane with `n` operations open: the count says so, and a lane without any is not ACTIVE. -/
structure LaneOk (l : Lane) (n : Nat) : Prop where
  pending : l.pendingOps = BitVec.ofNat 32 n
  few : n < 2 ^ 31
  active : l.state = .active ↔ 0 < n
  sequence_lt : l.sequence < 2 ^ 64
  committed_le : l.committedSeq ≤ l.sequence
  idle : l.state = .idle → l.committedSeq = l.sequence

structure LaneInv (m : LaneMachine) : Prop where
  nr_pos : 0 < m.lanes.nrLanes
  ops_lane : ∀ op ∈ m.ops, op.lane < m.lanes.nrLanes
  lanes : ∀ k, LaneOk (m.lanes.lane k) (openOn m.ops k)
  ops : ∀ op ∈ m.ops, (m.lanes.lane op.lane).committedSeq ≤ op.seq

section Count

/-- A count below 2^31 is positive when it is not zero. -/
theorem pending_pos_iff {n : Nat} (h : n < 2 ^ 31) : (BitVec.ofNat 32 n).toInt > 0 ↔ 0 < n := by
  rw [BitVec.toInt_ofNat', Int.bmod_eq_of_le (by omega) (by omega)]
  exact Int.natCast_pos

theorem ofNat_eq_max_iff {n : Nat} (h : n < 2 ^ 31) :
    BitVec.ofNat 32 n = 0x7FFFFFFF#32 ↔ n = 2 ^ 31 - 1 := by
  rw [← BitVec.toNat_inj, BitVec.toNat_ofNat, BitVec.toNat_ofNat]
  omega

theorem openOn_append (ops : List LaneOp) (op : LaneOp) (k : Nat) :
    openOn (ops ++ [op]) k = openOn ops k + if op.lane = k then 1 else 0 := by
  simp [openOn, List.countP_append]

theorem openOn_eraseIdx {ops : List LaneOp} {i : Nat} {op : LaneOp} (h : ops[i]? = some op)
    (k : Nat) : openOn ops k = openOn (ops.eraseIdx i) k + if op.lane = k then 1 else 0 := by
  obtain ⟨hi, rfl⟩ := List.getElem?_eq_some_iff.mp h
  have hsplit : ops = ops.take i ++ ops[i] :: ops.drop (i + 1) := by simp
  rw [List.eraseIdx_eq_take_drop_succ, openOn, openOn]
  conv_lhs => rw [hsplit]
  simp only [List.countP_append, List.countP_cons, decide_eq_true_eq, Nat.add_assoc]

end Count

section OneLane

variable {l : Lane} {n : Nat}

theorem LaneOk.start (h : LaneOk l n) (hroom : l.pendingOps ≠ 0x7FFFFFFF#32)
    (hseq : l.sequence < 2 ^ 64 - 1 ∨ l.committedSeq = 0) :
    LaneOk ⟨.active, addU64 l.sequence 1, l.committedSeq, l.pendingOps + 1#32⟩ (n + 1) where
  pending := by
    rw [h.pending]
    exact (BitVec.ofNat_add n 1).symm
  few := by
    rw [h.pending, Ne, ofNat_eq_max_iff h.few] at hroom
    have := h.few
    omega
  active := ⟨fun _ => Nat.succ_pos n, fun _ => rfl⟩
  sequence_lt := Nat.mod_lt _ (by decide)
  committed_le := by
    rcases hseq with hseq | hzero
    · have hle := h.committed_le
      simp only [addU64, Nat.mod_eq_of_lt (show l.sequence + 1 < 2 ^ 64 by omega)]
      omega
    · simp only [hzero, Nat.zero_le]
  idle hidle := absurd hidle (by simp)

theorem LaneOk.finish (h : LaneOk l (n + 1)) :
    LaneOk ⟨if l.pendingOps - 1#32 = 0#32 then .committing else l.state, l.sequence,
      l.committedSeq, l.pendingOps - 1#32⟩ n := by
  have hpending : l.pendingOps - 1#32 = BitVec.ofNat 32 n := by
    rw [h.pending, BitVec.ofNat_add, BitVec.add_sub_cancel]
  have hfew : n < 2 ^ 31 := Nat.lt_of_succ_lt h.few
  have hzero : l.pendingOps - 1#32 = 0#32 ↔ n = 0 := by
    rw [hpending, ← BitVec.toNat_inj, BitVec.toNat_ofNat, BitVec.toNat_ofNat]
    omega
  have hactive : l.state = .active := h.active.mpr (Nat.succ_pos n)
  refine ⟨hpending, hfew, ?_, h.sequence_lt, h.committed_le, ?_⟩
  · simp only [hzero, hactive]
    split
    · rename_i hn
      simp [hn]
    · rename_i hn
      simp [Nat.pos_of_ne_zero hn]
  · simp only [hactive]
    split <;> simp

theorem LaneOk.commit (h : LaneOk l n) (hnone : ¬ l.pendingOps.toInt > 0) :
    LaneOk ⟨.idle, l.sequence, l.sequence, l.pendingOps⟩ n where
  pending := h.pending
  few := h.few
  active := by
    rw [h.pending, pending_pos_iff h.few] at hnone
    simpa using hnone
  sequence_lt := h.sequence_lt
  committed_le := Nat.le_refl _
  idle _ := rfl

end OneLane

/-! ## 4. The steps -/

section Steps

variable {m : LaneMachine}

theorem LaneInv.safe (h : LaneInv m) (k : Nat) : LaneSafe m k where
  active := by rw [(h.lanes k).active, (h.lanes k).pending, pending_pos_iff (h.lanes k).few]
  committed_le := (h.lanes k).committed_le
  idle := (h.lanes k).idle
  ops op hop hk := hk ▸ h.ops op hop

@[simp] theorem Lanes.set_lane_self (s : Lanes) (k : Nat) (l : Lane) : (s.set k l).lane k = l := by
  simp [Lanes.set]

theorem Lanes.set_lane_ne (s : Lanes) {k k' : Nat} (l : Lane) (h : k' ≠ k) :
    (s.set k l).lane k' = s.lane k' := by
  simp [Lanes.set, h]

theorem LaneInv.set (h : LaneInv m) {k : Nat} {l : Lane} {ops : List LaneOp}
    (hlane : ∀ op ∈ ops, op.lane < m.lanes.nrLanes) (hl : LaneOk l (openOn ops k))
    (hother : ∀ k', k' ≠ k → openOn ops k' = openOn m.ops k')
    (hops : ∀ op ∈ ops, if op.lane = k then l.committedSeq ≤ op.seq else op ∈ m.ops) :
    LaneInv ⟨m.lanes.set k l, ops⟩ := by
  refine ⟨h.nr_pos, hlane, fun k' => ?_, fun op hop => ?_⟩
  · by_cases hk : k' = k
    · subst hk
      simpa using hl
    · simp only [Lanes.set_lane_ne _ _ hk, hother k' hk]
      exact h.lanes k'
  · have hmem := hops op hop
    by_cases hk : op.lane = k
    · rw [if_pos hk] at hmem
      simpa [hk] using hmem
    · rw [if_neg hk] at hmem
      simp only [Lanes.set_lane_ne _ _ hk]
      exact h.ops op hmem

/-- **The step: a start that fits.** -/
theorem LaneInv.start (h : LaneInv m) {cpu : Nat} (hfits : StartFits m (.start cpu)) :
    LaneInv (laneStep m (.start cpu)) := by
  rw [laneStep, journalPercpuStart]
  by_cases hcommitting : (m.lanes.lane (cpu % m.lanes.nrLanes)).state = .committing
  · rw [if_pos hcommitting]
    exact h
  · obtain ⟨hroom, hseq⟩ := hfits.resolve_left hcommitting
    rw [if_neg hcommitting]
    refine h.set (fun op hop => ?_) ?_ (fun k' hk => ?_) fun op hop => ?_
    · rcases List.mem_append.mp hop with hop | hop
      · exact h.ops_lane op hop
      · rw [List.mem_singleton.mp hop]
        exact Nat.mod_lt _ h.nr_pos
    · rw [openOn_append, if_pos rfl]
      exact (h.lanes _).start hroom hseq
    · rw [openOn_append, if_neg (Ne.symm hk), Nat.add_zero]
    · rcases List.mem_append.mp hop with hop | hop
      · split
        · rename_i hk
          exact hk ▸ h.ops op hop
        · exact hop
      · rw [List.mem_singleton.mp hop, if_pos rfl]
        exact (h.lanes _).committed_le

/-- **The step: an end.** -/
theorem LaneInv.finish (h : LaneInv m) (i : Nat) : LaneInv (laneStep m (.finish i)) := by
  rw [laneStep]
  split
  case h_2 => exact h
  rename_i op hget
  have hmem : op ∈ m.ops := List.mem_of_getElem? hget
  have hlane := h.ops_lane op hmem
  rw [journalPercpuEnd, if_neg (by omega), Int.toNat_natCast]
  have hcount := openOn_eraseIdx hget
  refine h.set (fun op' hop => h.ops_lane op' (List.mem_of_mem_eraseIdx hop)) ?_
    (fun k' hk => ?_) fun op' hop => ?_
  · have hok := h.lanes op.lane
    rw [hcount op.lane, if_pos rfl] at hok
    exact hok.finish
  · rw [hcount k', if_neg (Ne.symm hk), Nat.add_zero]
  · have hop' := List.mem_of_mem_eraseIdx hop
    split
    · rename_i hk
      have := h.ops op' hop'
      rw [hk] at this
      exact this
    · exact hop'

/-- **The step: a commit.**  It goes through only where no operation is open. -/
theorem LaneInv.commit (h : LaneInv m) (lane : Int) : LaneInv (laneStep m (.commit lane)) := by
  rw [laneStep, journalPercpuCommit]
  split
  · exact h
  · simp only
    split
    · exact h
    · rename_i hnone
      have hok := h.lanes lane.toNat
      have hzero : openOn m.ops lane.toNat = 0 := by
        rw [hok.pending, pending_pos_iff hok.few] at hnone
        omega
      refine h.set h.ops_lane (hok.commit hnone) (fun _ _ => rfl) fun op hop => ?_
      split
      · rename_i hk
        have hpos : 0 < openOn m.ops lane.toNat :=
          List.countP_pos_iff.mpr ⟨op, hop, decide_eq_true hk⟩
        omega
      · exact hop

/-- **The step back: a start after which the protocol holds has fitted.** -/
theorem startFits_of_safe (h : LaneInv m) {cpu : Nat}
    (hsafe : ∀ k, LaneSafe (laneStep m (.start cpu)) k) : StartFits m (.start cpu) := by
  by_cases hcommitting : (m.lanes.lane (cpu % m.lanes.nrLanes)).state = .committing
  · exact Or.inl hcommitting
  · have hok := h.lanes (cpu % m.lanes.nrLanes)
    have hs := hsafe (cpu % m.lanes.nrLanes)
    rw [laneStep, journalPercpuStart, if_neg hcommitting] at hs
    have hactive := hs.active
    have hle := hs.committed_le
    simp only [Lanes.set_lane_self, true_iff] at hactive hle
    refine Or.inr ⟨fun hmax => ?_, ?_⟩
    · rw [hmax] at hactive
      exact absurd hactive (by decide)
    · have hlt := hok.sequence_lt
      by_contra hno
      rw [not_or] at hno
      rw [addU64, show (m.lanes.lane (cpu % m.lanes.nrLanes)).sequence + 1 = 2 ^ 64 by omega,
        Nat.mod_self] at hle
      exact hno.2 (Nat.le_zero.mp hle)

theorem laneInv_init (onlineCpus : Nat) : LaneInv ⟨lanesInit onlineCpus, []⟩ where
  nr_pos := by
    simp only [lanesInit]
    split
    · exact Nat.one_pos
    · omega
  ops_lane op hop := absurd hop List.not_mem_nil
  lanes k := ⟨rfl, by simp [openOn], by simp [lanesInit, openOn], by simp [lanesInit],
    Nat.le_refl _, fun _ => rfl⟩
  ops op hop := absurd hop List.not_mem_nil

end Steps

/-- **The lane protocol, exactly.**  In every interleaving, from the lanes as they are set up, every
lane is safe in every state exactly as long as no start finds 2^31 - 1 operations open on its lane,
or a sequence number that would wrap after a commit. -/
theorem lane_protocol_iff (onlineCpus : Nat) (calls : List LaneCall) :
    (∀ m ∈ states laneStep ⟨lanesInit onlineCpus, []⟩ calls, ∀ k, LaneSafe m k) ↔
      Along laneStep StartFits ⟨lanesInit onlineCpus, []⟩ calls := by
  refine states_good_iff (fun m hm => hm.safe) (fun m c hm _ hfits => ?_) (fun m c hm _ hsafe => ?_)
    calls _ (laneInv_init onlineCpus) (along_of_forall (fun _ _ => trivial) calls _)
  · cases c with
    | start cpu => exact hm.start hfits
    | finish i => exact hm.finish i
    | commit lane => exact hm.commit lane
  · cases c with
    | start cpu => exact startFits_of_safe hm hsafe
    | finish i => trivial
    | commit lane => trivial

/-- `n` starts on a machine of one CPU. -/
def crowd (n : Nat) : LaneMachine :=
  (List.replicate n (.start 0)).foldl laneStep ⟨lanesInit 1, []⟩

/-- After `n` starts the lane has counted them, in 32 bits, and the first is open. -/
theorem crowd_lane {n : Nat} (hn : 0 < n) : (crowd n).lanes.nrLanes = 1 ∧
    (crowd n).lanes.lane 0 = ⟨.active, n % 2 ^ 64, 0, BitVec.ofNat 32 n⟩ ∧
    ⟨0, 0⟩ ∈ (crowd n).ops := by
  induction n, hn using Nat.le_induction with
  | base => exact ⟨rfl, rfl, List.mem_singleton.mpr rfl⟩
  | succ n _ ih =>
    obtain ⟨hnr, hlane, hop⟩ := ih
    have hnext : crowd (n + 1) = laneStep (crowd n) (.start 0) := by
      rw [crowd, List.replicate_succ', List.foldl_append]
      rfl
    rw [hnext, laneStep, journalPercpuStart, hnr, Nat.zero_mod, hlane, if_neg (by simp)]
    refine ⟨hnr, ?_, List.mem_append_left _ hop⟩
    simp only [Lanes.set_lane_self, addU64, Nat.mod_add_mod, BitVec.ofNat_add]

/-- A commit on a lane whose count is negative takes the lane for empty. -/
theorem commit_negative {m : LaneMachine} {seq : Nat} {pending : BitVec 32}
    (hnr : m.lanes.nrLanes = 1) (hlane : m.lanes.lane 0 = ⟨.active, seq, 0, pending⟩)
    (hneg : ¬ pending.toInt > 0) : (journalPercpuCommit m.lanes 0).1 = .done ∧
      (laneStep m (.commit 0)).ops = m.ops ∧
      ((laneStep m (.commit 0)).lanes.lane 0).committedSeq = seq := by
  have hcommit : journalPercpuCommit m.lanes 0
      = (.done, m.lanes.set 0 ⟨.idle, seq, seq, pending⟩) := by
    rw [journalPercpuCommit, hnr, if_neg (by decide), Int.toNat_zero, hlane]
    exact if_neg hneg
  rw [laneStep, hcommit]
  exact ⟨rfl, rfl, by rw [Lanes.set_lane_self]⟩

/-- With 2^31 operations open, a commit goes through, to a number that the first of them is below. -/
theorem crowd_overtaken :
    (journalPercpuCommit (crowd (2 ^ 31)).lanes 0).1 = .done ∧
      ∃ op ∈ (laneStep (crowd (2 ^ 31)) (.commit 0)).ops,
        op.lane = 0 ∧ op.seq < ((laneStep (crowd (2 ^ 31)) (.commit 0)).lanes.lane 0).committedSeq := by
  obtain ⟨hnr, hlane, hop⟩ := crowd_lane (Nat.two_pow_pos 31)
  obtain ⟨hdone, hops, hseq⟩ := commit_negative hnr hlane (by decide)
  refine ⟨hdone, ⟨0, 0⟩, ?_, rfl, ?_⟩
  · rw [hops]
    exact hop
  · rw [hseq]
    decide

end AetherFs
