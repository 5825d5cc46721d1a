/-
# Blocks in pieces

`Device` has a block transfer as ONE step: `readAll` and `writeAll` take all 4096 bytes or say why
not.  In the source they are loops around `pread` and `pwrite`, each of which may move fewer bytes
than it is asked for, be interrupted by a signal, or fail.  Here the two loops are as they are in
`image.c`, `mkfs.c` and `mount.c`, and what the system does at each call is one `SysAnswer`.

Whatever the system answers, a loop that returns has done what `Device` says in one step, unless it
passes on an error of the system; and then a write has stored the bytes in front of some position of
the block and no others.  With as many calls as there are bytes, not counting interruptions, it
returns.
-/
import AetherFs.Device
import AetherFs.Lib.Transfer

namespace AetherFs

open Lib

/-! ## 1. The system calls -/

/-- What the system decides at one call: how many bytes it would move, or an error. -/
inductive SysAnswer
  | moved (k : Nat)
  | failed (e : Errno)
deriving DecidableEq, Repr

/-- The answers that move nothing and end nothing. -/
def SysAnswer.interrupts : SysAnswer → Bool
  | .failed .EINTR => true
  | _ => false

/-- How many bytes a call moves: one at least, and no more than it was asked for and there is room
for. -/
def movedBytes (k want room : Nat) : Nat := min (max 1 k) (min want room)

theorem movedBytes_le_want (k want room : Nat) : movedBytes k want room ≤ want :=
  le_trans (min_le_right _ _) (min_le_left _ _)

theorem movedBytes_le_room (k want room : Nat) : movedBytes k want room ≤ room :=
  le_trans (min_le_right _ _) (min_le_right _ _)

/-- A call moves nothing only where it was asked for nothing, or there is no room. -/
theorem movedBytes_eq_zero {k want room : Nat} (h : movedBytes k want room = 0) :
    want = 0 ∨ room = 0 := by
  unfold movedBytes at h
  omega

namespace ByteFile

/-- `pread(fd, cursor, want, pos)`: the bytes are put into the buffer from `cursor` on. -/
def pread (f : ByteFile) (pos want cursor : Nat) (buf : Nat → UInt8) (answer : SysAnswer) :
    Except Fail Nat × (Nat → UInt8) :=
  if 2 ^ 63 ≤ pos + want then (.error (.sys .EINVAL), buf)
  else
    match answer with
    | .failed e => (.error (.sys e), buf)
    | .moved k =>
      let r := movedBytes k want (f.size - pos)
      (.ok r, setBytes buf cursor (bytesFrom f.byte pos r))

/-- The file with bytes stored at a position; it grows if they end behind its end. -/
def put (f : ByteFile) (pos : Nat) (bytes : List UInt8) (h : pos + bytes.length < 2 ^ 63) :
    ByteFile where
  kind := f.kind
  size := max f.size (pos + bytes.length)
  byte := setBytes f.byte pos bytes
  size_lt := Nat.max_lt.mpr ⟨f.size_lt, h⟩
  zero_past i hi := by
    rw [setBytes_of_out _ (Or.inr (le_trans (le_max_right _ _) hi))]
    exact f.zero_past i (le_trans (le_max_left _ _) hi)

/-- How many bytes can be written from a position on: a block device has the size it has. -/
def room (f : ByteFile) (pos want : Nat) : Nat :=
  if f.kind = .blockDevice then f.size - pos else want

theorem put_fits {pos k room : Nat} {bytes : List UInt8} (h : ¬ 2 ^ 63 ≤ pos + bytes.length) :
    pos + (bytes.take (movedBytes k bytes.length room)).length < 2 ^ 63 := by
  rw [List.length_take]
  omega

/-- `pwrite(fd, bytes, want, pos)`. -/
def pwrite (f : ByteFile) (pos : Nat) (bytes : List UInt8) (answer : SysAnswer) :
    Except Fail Nat × ByteFile :=
  if h : 2 ^ 63 ≤ pos + bytes.length then (.error (.sys .EINVAL), f)
  else
    match answer with
    | .failed e => (.error (.sys e), f)
    | .moved k =>
      let r := movedBytes k bytes.length (f.room pos bytes.length)
      if r = 0 then (.error (.sys .ENOSPC), f)
      else (.ok r, f.put pos (bytes.take r) (put_fits h))

/-! ## 2. The loops -/

/-- `errno == EINTR`. -/
def retried : Fail → Bool
  | .sys .EINTR => true
  | _ => false

/-- The call of `aetherfs_read_all`: `readTotal` bytes are in the buffer. -/
def readCall (f : ByteFile) (offset len : Nat) (buf : Nat → UInt8) (readTotal : Nat)
    (answer : SysAnswer) : Except Fail Nat × (Nat → UInt8) :=
  f.pread (addU64 offset readTotal) (len - readTotal) readTotal buf answer

/-- `aetherfs_read_all`, into a buffer. -/
def readLoop (f : ByteFile) (offset len : Nat) (answers : List SysAnswer) (buf : Nat → UInt8) :
    Option (Except Fail Unit × (Nat → UInt8)) :=
  drive retried (.check .EIOERR) (f.readCall offset len) len answers 0 buf

/-- The call of `aetherfs_write_all`: `written` bytes are in the file. -/
def writeCall (offset : Nat) (bytes : List UInt8) (f : ByteFile) (written : Nat)
    (answer : SysAnswer) : Except Fail Nat × ByteFile :=
  f.pwrite (addU64 offset written) (bytes.drop written) answer

/-- `aetherfs_write_all`, from a buffer. -/
def writeLoop (f : ByteFile) (offset : Nat) (bytes : List UInt8) (answers : List SysAnswer) :
    Option (Except Fail Unit × ByteFile) :=
  drive retried (.check .EIOERR) (writeCall offset bytes) bytes.length answers 0 f

/-- An error that is passed on is no interruption. -/
theorem ne_interrupted {e : Errno} (h : retried (.sys e) = false) : e ≠ .EINTR := by
  rintro rfl
  cases h

/-- The system returned an error of its own, which was passed on. -/
def PassedOn {α : Type} (answers : List SysAnswer) (r : Except Fail α) : Prop :=
  ∃ e, SysAnswer.failed e ∈ answers ∧ e ≠ .EINTR ∧ r = .error (.sys e)

/-- The answers that are no interruptions. -/
def calls (answers : List SysAnswer) : Nat := (answers.filter fun a => !a.interrupts).length

/-! ## 3. Reading -/

section Read

variable {f : ByteFile} {offset len : Nat} {answers : List SysAnswer} {buf buf' : Nat → UInt8}
  {r : Except Fail Unit}

/-- The buffer after `done` bytes have been read into it. -/
def Filled (f : ByteFile) (offset : Nat) (buf : Nat → UInt8) (done : Nat) (buf' : Nat → UInt8) : Prop :=
  buf' = setBytes buf 0 (bytesFrom f.byte offset done) ∧ (done = 0 ∨ offset + done ≤ f.size)

/-- Inside the file offsets a call is the system's. -/
theorem readCall_eq (hend : offset + len < 2 ^ 63) {done : Nat} (hlt : done < len)
    (answer : SysAnswer) : f.readCall offset len buf done answer = match answer with
      | .failed e => (.error (.sys e), buf)
      | .moved k => (.ok (movedBytes k (len - done) (f.size - (offset + done))),
          setBytes buf done (bytesFrom f.byte (offset + done)
            (movedBytes k (len - done) (f.size - (offset + done))))) := by
  have hpos : addU64 offset done = offset + done := Nat.mod_eq_of_lt (by omega)
  unfold readCall pread
  rw [hpos, if_neg (by omega)]

/-- A call whose end is no file offset is refused. -/
theorem readCall_refused (ho : offset < 2 ^ 64) (hend : 2 ^ 63 ≤ offset + len) (answer : SysAnswer) :
    f.readCall offset len buf 0 answer = (.error (.sys .EINVAL), buf) := by
  have hpos : addU64 offset 0 = offset := Nat.mod_eq_of_lt ho
  unfold readCall pread
  rw [hpos, Nat.sub_zero, if_pos hend]

theorem readCall_kept (hend : offset + len < 2 ^ 63) {done : Nat} (answer : SysAnswer)
    (hlt : done < len) (h : Filled f offset buf done buf') :
    Advances len (Filled f offset buf) done (f.readCall offset len buf' done answer) := by
  obtain ⟨rfl, hin⟩ := h
  rw [readCall_eq hend hlt]
  cases answer with
  | failed e => exact ⟨rfl, hin⟩
  | moved k =>
    have hwant := movedBytes_le_want k (len - done) (f.size - (offset + done))
    have hroom := movedBytes_le_room k (len - done) (f.size - (offset + done))
    refine ⟨by omega, ?_, by omega⟩
    have happ := setBytes_append buf 0 (bytesFrom f.byte offset done)
      (bytesFrom f.byte (offset + done) (movedBytes k (len - done) (f.size - (offset + done))))
    rwa [bytesFrom_length, Nat.zero_add, ← bytesFrom_append] at happ

/-- **What a read loop returns**, of any length. -/
theorem readLoop_cases (ho : offset < 2 ^ 64) (hlen : 0 < len)
    (h : f.readLoop offset len answers buf = some (r, buf')) :
    (2 ^ 63 ≤ offset + len ∧ r = .error (.sys .EINVAL)) ∨
    (offset + len ≤ f.size ∧ r = .ok () ∧ buf' = setBytes buf 0 (bytesFrom f.byte offset len)) ∨
    (f.size < offset + len ∧ offset + len < 2 ^ 63 ∧ r = .error (.check .EIOERR)) ∨
    PassedOn answers r := by
  rcases Nat.lt_or_ge (offset + len) (2 ^ 63) with hend | hend
  · obtain ⟨all, -, -, hfill, hok, herr⟩ := drive_inv (I := Filled f offset buf) h
      (Nat.zero_le len) ⟨(setBytes_nil buf 0).symm, Or.inl rfl⟩
      fun _ _ answer hlt hI => readCall_kept hend answer hlt hI
    cases r with
    | ok u =>
      obtain rfl := hok rfl
      exact Or.inr (Or.inl ⟨hfill.2.resolve_left (Nat.ne_of_gt hlen), rfl, hfill.1⟩)
    | error e =>
      obtain ⟨hlt, s, -, answer, hmem, hlast⟩ := herr e rfl
      rw [readCall_eq hend hlt] at hlast
      cases answer with
      | failed e' =>
        rcases hlast with ⟨he, hno⟩ | ⟨he, -⟩
        · obtain rfl := Except.error.inj he
          exact Or.inr (Or.inr (Or.inr ⟨e', hmem, ne_interrupted hno, rfl⟩))
        · cases he
      | moved k =>
        rcases hlast with ⟨he, -⟩ | ⟨he, rfl⟩
        · cases he
        · -- nothing was moved: the file ends here
          have hzero := movedBytes_eq_zero (Except.ok.inj he)
          exact Or.inr (Or.inr (Or.inl ⟨by omega, hend, rfl⟩))
  · exact Or.inl ⟨hend, (drive_refused h hlen (readCall_refused ho hend)).1⟩

/-- As many calls as there are bytes are enough. -/
theorem readLoop_returns (h : len ≤ calls answers) :
    ∃ r buf', f.readLoop offset len answers buf = some (r, buf') := by
  refine drive_returns SysAnswer.interrupts ?_ (by rwa [Nat.zero_add])
  intro s done answer e hw he
  unfold readCall pread at he
  split at he
  · obtain rfl := Except.error.inj he
    rfl
  · cases answer with
    | moved k => cases he
    | failed e' =>
      obtain rfl := Except.error.inj he
      cases e' <;> first | rfl | cases hw

end Read

/-! ## 4. Writing -/

section Write

variable {f f' : ByteFile} {offset : Nat} {bytes : List UInt8} {answers : List SysAnswer}
  {r : Except Fail Unit}

/-- The file after the first `done` of the bytes have been stored at `offset`, and no others. -/
structure Stored (f : ByteFile) (offset : Nat) (bytes : List UInt8) (done : Nat) (f' : ByteFile) :
    Prop where
  kind_eq : f'.kind = f.kind
  size_eq : f'.size = if done = 0 then f.size else max f.size (offset + done)
  byte_eq : f'.byte = setBytes f.byte offset (bytes.take done)
  fits : f.kind = .blockDevice → done = 0 ∨ offset + done ≤ f.size

theorem Stored.zero (f : ByteFile) (offset : Nat) (bytes : List UInt8) : Stored f offset bytes 0 f where
  kind_eq := rfl
  size_eq := rfl
  byte_eq := (setBytes_nil f.byte offset).symm
  fits _ := Or.inl rfl

theorem Stored.size_of_device {done : Nat} (h : Stored f offset bytes done f')
    (hk : f.kind = .blockDevice) : f'.size = f.size := by
  rw [h.size_eq]
  rcases h.fits hk with h0 | hle
  · rw [if_pos h0]
  · split
    · rfl
    · exact Nat.max_eq_left hle

theorem Stored.room_eq {done want : Nat} (h : Stored f offset bytes done f') :
    f'.room (offset + done) want = f.room (offset + done) want := by
  unfold room
  rw [h.kind_eq]
  split
  · rename_i hk
    rw [h.size_of_device hk]
  · rfl

theorem Stored.put {done n : Nat} (h : Stored f offset bytes done f') (hn : n ≤ bytes.length - done)
    (hlt : done < bytes.length) (hpos : n ≠ 0)
    (hroom : n ≤ f.room (offset + done) (bytes.length - done))
    (hfit : offset + done + ((bytes.drop done).take n).length < 2 ^ 63) :
    Stored f offset bytes (done + n) (f'.put (offset + done) ((bytes.drop done).take n) hfit) where
  kind_eq := h.kind_eq
  size_eq := by
    have hlen : ((bytes.drop done).take n).length = n := by
      rw [List.length_take, List.length_drop]
      omega
    rw [if_neg (by omega)]
    change max f'.size (offset + done + ((bytes.drop done).take n).length) = _
    rw [hlen, h.size_eq]
    split <;> omega
  byte_eq := by
    have hlen : (bytes.take done).length = done := by
      rw [List.length_take]
      omega
    have happ := setBytes_append f.byte offset (bytes.take done) ((bytes.drop done).take n)
    rw [hlen, ← h.byte_eq, ← List.take_add] at happ
    exact happ
  fits hk := by
    unfold room at hroom
    rw [if_pos hk] at hroom
    omega

/-- Inside the file offsets a call is the system's. -/
theorem writeCall_kept (hend : offset + bytes.length < 2 ^ 63) {done : Nat} (answer : SysAnswer)
    (hlt : done < bytes.length) (h : Stored f offset bytes done f') :
    Advances bytes.length (Stored f offset bytes) done (writeCall offset bytes f' done answer) := by
  have hpos : addU64 offset done = offset + done := Nat.mod_eq_of_lt (by omega)
  unfold writeCall pwrite
  rw [hpos, dif_neg (by rw [List.length_drop]; omega)]
  cases answer with
  | failed e => exact h
  | moved k =>
    simp only
    split
    · exact h
    · rename_i hne
      rw [List.length_drop, h.room_eq] at hne
      have hwant := movedBytes_le_want k (bytes.length - done)
        (f.room (offset + done) (bytes.length - done))
      have hroom := movedBytes_le_room k (bytes.length - done)
        (f.room (offset + done) (bytes.length - done))
      simp only [List.length_drop, h.room_eq]
      exact ⟨by omega, h.put hwant hlt hne hroom _⟩

theorem writeCall_refused (ho : offset < 2 ^ 64) (hend : 2 ^ 63 ≤ offset + bytes.length)
    (answer : SysAnswer) : writeCall offset bytes f 0 answer = (.error (.sys .EINVAL), f) := by
  have hpos : addU64 offset 0 = offset := Nat.mod_eq_of_lt ho
  unfold writeCall pwrite
  rw [hpos, List.drop_zero, dif_pos hend]

/-- A call that fails on its own account has found the end of a block device. -/
theorem writeCall_error (hend : offset + bytes.length < 2 ^ 63) {done : Nat} {answer : SysAnswer}
    {e : Fail} (hlt : done < bytes.length) (h : Stored f offset bytes done f')
    (he : (writeCall offset bytes f' done answer).1 = .error e) :
    (∃ e', answer = .failed e' ∧ e = .sys e') ∨
    (f.kind = .blockDevice ∧ f.size ≤ offset + done ∧ e = .sys .ENOSPC) := by
  have hpos : addU64 offset done = offset + done := Nat.mod_eq_of_lt (by omega)
  unfold writeCall pwrite at he
  rw [hpos, dif_neg (by rw [List.length_drop]; omega)] at he
  cases answer with
  | failed e' => exact Or.inl ⟨e', rfl, (Except.error.inj he).symm⟩
  | moved k =>
    simp only [List.length_drop, h.room_eq] at he
    split at he
    · rename_i hzero
      have hroom := (movedBytes_eq_zero hzero).resolve_left (by omega)
      unfold room at hroom
      split at hroom
      · rename_i hk
        exact Or.inr ⟨hk, by omega, (Except.error.inj he).symm⟩
      · omega
    · cases he

theorem writeCall_ne_zero {done : Nat} {answer : SysAnswer} :
    (writeCall offset bytes f done answer).1 ≠ .ok 0 := by
  unfold writeCall pwrite
  split
  · intro h
    cases h
  · cases answer with
    | failed e =>
      intro h
      cases h
    | moved k =>
      simp only
      split
      · intro h
        cases h
      · rename_i hne
        intro h
        exact hne (Except.ok.inj h)

/-- **What a write loop returns and leaves**, of any length. -/
theorem writeLoop_cases (ho : offset < 2 ^ 64) (hlen : 0 < bytes.length)
    (h : f.writeLoop offset bytes answers = some (r, f')) :
    (2 ^ 63 ≤ offset + bytes.length ∧ r = .error (.sys .EINVAL) ∧ f' = f) ∨
    (offset + bytes.length < 2 ^ 63 ∧ ∃ done, Stored f offset bytes done f' ∧
      ((done = bytes.length ∧ r = .ok ()) ∨
        (done < bytes.length ∧ f.kind = .blockDevice ∧ f.size ≤ offset + done ∧
          r = .error (.sys .ENOSPC)) ∨
        (done < bytes.length ∧ PassedOn answers r))) := by
  rcases Nat.lt_or_ge (offset + bytes.length) (2 ^ 63) with hend | hend
  · refine Or.inr ⟨hend, ?_⟩
    obtain ⟨all, -, -, hstored, hok, herr⟩ := drive_inv (I := Stored f offset bytes) h
      (Nat.zero_le _) (Stored.zero f offset bytes)
      fun _ _ answer hlt hI => writeCall_kept hend answer hlt hI
    refine ⟨all, hstored, ?_⟩
    cases r with
    | ok u => exact Or.inl ⟨hok rfl, rfl⟩
    | error e =>
      obtain ⟨hlt, s, hs, answer, hmem, hlast⟩ := herr e rfl
      rcases hlast with ⟨he, hno⟩ | ⟨he, -⟩
      · rcases writeCall_error hend hlt hs he with ⟨e', rfl, rfl⟩ | ⟨hk, hsize, rfl⟩
        · exact Or.inr (Or.inr ⟨hlt, e', hmem, ne_interrupted hno, rfl⟩)
        · exact Or.inr (Or.inl ⟨hlt, hk, hsize, rfl⟩)
      · exact absurd he writeCall_ne_zero
  · obtain ⟨hr, hf⟩ := drive_refused h hlen (writeCall_refused ho hend)
    exact Or.inl ⟨hend, hr, hf⟩

/-- As many calls as there are bytes are enough. -/
theorem writeLoop_returns (h : bytes.length ≤ calls answers) :
    ∃ r f', f.writeLoop offset bytes answers = some (r, f') := by
  refine drive_returns SysAnswer.interrupts ?_ (by rwa [Nat.zero_add])
  intro s done answer e hw he
  unfold writeCall pwrite at he
  split at he
  · obtain rfl := Except.error.inj he
    rfl
  · cases answer with
    | failed e' =>
      obtain rfl := Except.error.inj he
      cases e' <;> first | rfl | cases hw
    | moved k =>
      simp only at he
      split at he
      · obtain rfl := Except.error.inj he
        rfl
      · cases he

end Write

/-! ## 5. Blocks -/

/-- The first 4096 bytes of a buffer. -/
def bufferBlock (buf : Nat → UInt8) : Block := fun i => buf i

/-- `aetherfs_member_read_block`, with the loop. -/
def memberReadLoop (f : ByteFile) (block : Nat) (answers : List SysAnswer) (buf : Nat → UInt8) :
    Option (Except Fail Block) :=
  (f.readLoop (offsetOf block) defBlockSize answers buf).map fun o => o.1.map fun _ => bufferBlock o.2

/-- `aetherfs_member_write_block`, with the loop. -/
def memberWriteLoop (f : ByteFile) (block : Nat) (buf : Block) (answers : List SysAnswer) :
    Option (Except Fail Unit × ByteFile) :=
  f.writeLoop (offsetOf block) (toList buf) answers

theorem offsetOf_lt (block : Nat) : offsetOf block < 2 ^ 64 := Nat.mod_lt _ (by norm_num)

theorem bufferBlock_setBytes (f : ByteFile) (buf : Nat → UInt8) (offset : Nat) :
    bufferBlock (setBytes buf 0 (bytesFrom f.byte offset defBlockSize)) = f.blockAt offset := by
  funext i
  rw [bufferBlock, setBytes, if_pos (Nat.zero_le _), Nat.sub_zero, bytesFrom_getElem? _ i.isLt,
    Option.getD_some, blockAt]

/-- **A block is read in pieces as it is read at once.** -/
theorem member_read_pieces (f : ByteFile) (block : Nat) (answers : List SysAnswer)
    (buf : Nat → UInt8) :
    (∀ x, f.memberReadLoop block answers buf = some x →
      x = BlockDev.read f block ∨ PassedOn answers x) ∧
    (4096 ≤ calls answers → ∃ x, f.memberReadLoop block answers buf = some x) := by
  constructor
  · intro x hx
    obtain ⟨⟨r, buf'⟩, hloop, rfl⟩ := Option.map_eq_some_iff.mp hx
    rw [read_def]
    unfold readAll
    rcases readLoop_cases (offsetOf_lt block) (by decide) hloop with
      ⟨hend, rfl⟩ | ⟨hin, rfl, rfl⟩ | ⟨hout, hend, rfl⟩ | ⟨e, hmem, hno, rfl⟩
    · exact Or.inl (if_pos hend).symm
    · have hsize := f.size_lt
      have hin : offsetOf block + 4096 ≤ f.size := hin
      rw [if_neg (by omega), if_neg (by omega)]
      exact Or.inl (by simp only [Except.map, bufferBlock_setBytes])
    · exact Or.inl ((if_neg (Nat.not_le.mpr hend)).trans (if_pos hout)).symm
    · exact Or.inr ⟨e, hmem, hno, rfl⟩
  · intro hcalls
    obtain ⟨r, buf', h⟩ := @readLoop_returns f (offsetOf block) 4096 answers buf hcalls
    exact ⟨_, congrArg (Option.map _) h⟩

theorem Stored.byte_at {f f' : ByteFile} {offset done : Nat} {buf : Block}
    (h : Stored f offset (toList buf) done f') (hdone : done ≤ 4096) (i : Nat) :
    f'.byte i = if offset ≤ i ∧ i < offset + done then byteAt buf (i - offset) else f.byte i := by
  rw [h.byte_eq, setBytes]
  by_cases hlo : offset ≤ i
  · by_cases hhi : i < offset + done
    · rw [if_pos hlo, if_pos ⟨hlo, hhi⟩, List.getElem?_take_of_lt (by omega), toList_getElem?,
        if_pos (by omega), Option.getD_some]
    · rw [if_pos hlo, if_neg (fun hc => hhi hc.2), List.getElem?_eq_none, Option.getD_none]
      rw [List.length_take]
      omega
  · rw [if_neg hlo, if_neg (fun hc => hlo hc.1)]

/-- **A block is written in pieces as it is written at once**; where the system's error is passed
on, the bytes in front of a position are stored and no others. -/
theorem member_write_pieces (f : ByteFile) (block : Nat) (buf : Block) (answers : List SysAnswer) :
    (∀ r f', f.memberWriteLoop block buf answers = some (r, f') →
      (r, f') = BlockDev.write f block buf ∨
      (PassedOn answers r ∧ ∃ done, done < 4096 ∧
        Stored f (offsetOf block) (toList buf) done f')) ∧
    (4096 ≤ calls answers → ∃ o, f.memberWriteLoop block buf answers = some o) := by
  constructor
  · intro r f' hloop
    rw [write_def]
    unfold writeAll
    have hlen := toList_length buf
    rcases writeLoop_cases (offsetOf_lt block) (by rw [hlen]; norm_num) hloop with
      ⟨hend, rfl, rfl⟩ | ⟨hend, done, hst, ⟨hdone, rfl⟩ | ⟨hdone, hk, hsize, rfl⟩ | ⟨hdone, hpass⟩⟩
    · rw [hlen] at hend
      rw [dif_pos hend]
      exact Or.inl rfl
    · rw [hlen] at hend hdone
      subst hdone
      have hfits : ¬ (f.kind = .blockDevice ∧ f.size < offsetOf block + 4096) := by
        rintro ⟨hk, hlt⟩
        have := hst.fits hk
        omega
      rw [dif_neg (Nat.not_le.mpr hend), if_neg hfits]
      refine Or.inl (congrArg (Prod.mk _) (ByteFile.ext hst.kind_eq hst.size_eq fun i hi => ?_))
      rw [hst.size_eq, if_neg (by norm_num)] at hi
      rw [hst.byte_at le_rfl]
      exact (if_pos hi).symm
    · rw [hlen] at hend hdone
      rw [dif_neg (Nat.not_le.mpr hend), if_pos ⟨hk, by omega⟩]
      have hs := hst.size_of_device hk
      refine Or.inl (congrArg (Prod.mk _) (ByteFile.ext hst.kind_eq hs fun i hi => ?_))
      rw [hs] at hi
      rw [hst.byte_at hdone.le]
      simp only [store, if_pos hi]
      exact if_congr (by omega) rfl rfl
    · rw [hlen] at hdone
      exact Or.inr ⟨hpass, done, hdone, hst⟩
  · intro hcalls
    obtain ⟨r, f', h⟩ := @writeLoop_returns f (offsetOf block) (toList buf) answers
      (by rwa [toList_length])
    exact ⟨_, h⟩

end ByteFile

end AetherFs
