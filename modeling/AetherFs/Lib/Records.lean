/-
# Arrays of records in memory

An array of structures is a memory read in steps of the structure's size.  `records` is the list
that a part of the array denotes; `moveBytes` is `memmove`, and closing the gap at one record by
moving what is behind it down is dropping that record from the list (`records_close`), opening one
by moving it up is inserting (`records_open`).  A field set in one record is that record replaced,
and the others untouched (`recordAt_setLE`); a loop that sets it in some of them is a map over the
list (`records_setEach`).
-/
import AetherFs.Lib.Bytes

namespace AetherFs.Lib

section Records

variable {n : Nat} (m : Nat → UInt8)

/-- Record `i` of an array of records of `n` bytes. -/
def recordAt (i : Nat) : Bytes n := fun k => m (n * i + k)

/-- The `count` records from `i` on. -/
def records (i count : Nat) : List (Bytes n) := (List.range' i count).map (recordAt m)

@[simp] theorem records_length (i count : Nat) : (records m i count : List (Bytes n)).length = count := by
  simp [records]

@[simp] theorem records_zero (i : Nat) : (records m i 0 : List (Bytes n)) = [] := rfl

theorem records_succ (i count : Nat) :
    (records m i (count + 1) : List (Bytes n)) = recordAt m i :: records m (i + 1) count := by
  rw [records, List.range'_succ, List.map_cons]
  rfl

theorem records_snoc (i count : Nat) :
    (records m i (count + 1) : List (Bytes n)) = records m i count ++ [recordAt m (i + count)] := by
  rw [records, List.range'_1_concat, List.map_append]
  rfl

theorem records_append (i a b : Nat) :
    (records m i (a + b) : List (Bytes n)) = records m i a ++ records m (i + a) b := by
  rw [records, ← List.range'_append_1, List.map_append]
  rfl

theorem records_congr {m m' : Nat → UInt8} {i count : Nat}
    (h : ∀ j, i ≤ j → j < i + count → (recordAt m j : Bytes n) = recordAt m' j) :
    (records m i count : List (Bytes n)) = records m' i count := by
  refine List.map_congr_left fun j hj => ?_
  obtain ⟨h1, h2⟩ := List.mem_range'_1.mp hj
  exact h j h1 h2

theorem recordAt_congr {m m' : Nat → UInt8} {i : Nat}
    (h : ∀ a, n * i ≤ a → a < n * (i + 1) → m a = m' a) : (recordAt m i : Bytes n) = recordAt m' i := by
  funext k
  refine h _ (Nat.le_add_right _ _) ?_
  rw [Nat.mul_succ]
  exact Nat.add_lt_add_left k.isLt _

theorem bytesFrom_records (count : Nat) :
    bytesFrom m 0 (n * count) = (records m 0 count : List (Bytes n)).flatMap toList := by
  induction count with
  | zero => rfl
  | succ count ih =>
    have hlast : toList (recordAt m count : Bytes n) = bytesFrom m (n * count) n := by
      refine List.ext_getElem (by simp [bytesFrom_length]) fun k hk hk' => ?_
      simp only [toList, List.getElem_ofFn, recordAt, bytesFrom, List.getElem_map,
        List.getElem_range]
    rw [records_snoc, Nat.mul_succ, bytesFrom_append, ih, List.flatMap_append, Nat.zero_add,
      Nat.zero_add, List.flatMap_singleton, hlast]

/-! ## 1. `memmove` -/

/-- `memmove`: the bytes at `src` go to `dst`, as they were before. -/
def moveBytes (dst src len : Nat) : Nat → UInt8 :=
  fun a => if dst ≤ a ∧ a < dst + len then m (src + (a - dst)) else m a

theorem recordAt_move {dst src count j : Nat} :
    (recordAt (moveBytes m (n * dst) (n * src) (n * count)) j : Bytes n)
      = if dst ≤ j ∧ j < dst + count then recordAt m (src + (j - dst)) else recordAt m j := by
  split
  · rename_i h
    obtain ⟨hdst, hcount⟩ := h
    have hlo : n * dst ≤ n * j := Nat.mul_le_mul_left n hdst
    have hhi : n * (j + 1) ≤ n * (dst + count) := Nat.mul_le_mul_left n hcount
    rw [Nat.mul_succ, Nat.mul_add] at hhi
    funext k
    have hk := k.isLt
    simp only [recordAt, moveBytes]
    rw [if_pos (by omega), Nat.mul_add, Nat.mul_sub]
    congr 1
    omega
  · rename_i h
    refine recordAt_congr fun a hlo hhi => if_neg ?_
    rintro ⟨h1, h2⟩
    have hdst : dst < j + 1 := Nat.lt_of_mul_lt_mul_left (Nat.lt_of_le_of_lt h1 hhi)
    rw [← Nat.mul_add] at h2
    have hcount : j < dst + count := Nat.lt_of_mul_lt_mul_left (Nat.lt_of_le_of_lt hlo h2)
    exact h ⟨Nat.lt_succ_iff.mp hdst, hcount⟩

theorem records_moved (dst src count : Nat) :
    (records (moveBytes m (n * dst) (n * src) (n * count)) dst count : List (Bytes n))
      = records m src count := by
  refine List.ext_getElem (by simp) fun k hk _ => ?_
  rw [records_length] at hk
  simp only [records, List.getElem_map, List.getElem_range', Nat.one_mul]
  rw [recordAt_move, if_pos (by omega), Nat.add_sub_cancel_left]

theorem records_before_moved {i len : Nat} (dst src count : Nat) (h : i + len ≤ dst) :
    (records (moveBytes m (n * dst) (n * src) (n * count)) i len : List (Bytes n))
      = records m i len := by
  refine records_congr fun j _ hj => ?_
  rw [recordAt_move, if_neg (by omega)]

/-- **Closing a gap**: what is in front stays, and what was behind follows. -/
theorem records_close (i count : Nat) :
    (records (moveBytes m (n * i) (n * (i + 1)) (n * count)) 0 i : List (Bytes n)) = records m 0 i ∧
      (records (moveBytes m (n * i) (n * (i + 1)) (n * count)) i count : List (Bytes n))
        = records m (i + 1) count :=
  ⟨records_before_moved m i (i + 1) count (Nat.zero_add i).le, records_moved m i (i + 1) count⟩

/-- A record put in its place. -/
def setRecord (i : Nat) (e : Bytes n) : Nat → UInt8 :=
  fun a => if n * i ≤ a ∧ a < n * i + n then byteAt e (a - n * i) else m a

theorem recordAt_setRecord (i j : Nat) (e : Bytes n) :
    recordAt (setRecord m i e) j = if j = i then e else recordAt m j := by
  split
  · rename_i hj
    rw [hj]
    funext k
    have hk := k.isLt
    simp only [recordAt, setRecord]
    rw [if_pos (by omega), Nat.add_sub_cancel_left, byteAt_fin]
  · rename_i hj
    refine recordAt_congr fun a hlo hhi => if_neg ?_
    rintro ⟨h1, h2⟩
    rw [← Nat.mul_succ] at h2
    have hij : i < j + 1 := Nat.lt_of_mul_lt_mul_left (Nat.lt_of_le_of_lt h1 hhi)
    have hji : j < i + 1 := Nat.lt_of_mul_lt_mul_left (Nat.lt_of_le_of_lt hlo h2)
    omega

/-- **Opening a gap**: what is in front stays, the record goes into the gap, and what was behind it
follows. -/
theorem records_open (i count : Nat) (e : Bytes n) :
    records (setRecord (moveBytes m (n * (i + 1)) (n * i) (n * count)) i e) 0 (i + (count + 1))
      = records m 0 i ++ e :: records m i count := by
  have hout : ∀ j, j ≠ i →
      (recordAt (setRecord (moveBytes m (n * (i + 1)) (n * i) (n * count)) i e) j : Bytes n)
        = recordAt (moveBytes m (n * (i + 1)) (n * i) (n * count)) j := by
    intro j hj
    rw [recordAt_setRecord, if_neg hj]
  rw [records_append, Nat.zero_add, records_succ, recordAt_setRecord, if_pos rfl]
  congr 1
  · rw [← records_before_moved (n := n) m (i + 1) i count (by omega)]
    exact records_congr fun j _ hj => hout j (by omega)
  · rw [← records_moved (n := n) m (i + 1) i count]
    exact congrArg _ (records_congr fun j hj _ => hout j (by omega))

/-! ## 2. Fields -/

theorem recordAt_setLE {i off w v j : Nat} (h : off + w ≤ n) :
    (recordAt (setLE m (n * i + off) w v) j : Bytes n)
      = if j = i then putLE (recordAt m i) off w v else recordAt m j := by
  split
  · rename_i hj
    rw [hj]
    funext k
    have hk := k.isLt
    simp only [recordAt, setLE, putLE]
    refine if_congr (by omega) ?_ rfl
    congr 3
    omega
  · rename_i hj
    refine recordAt_congr fun a hlo hhi => setLE_of_out m v ?_
    rcases Nat.lt_or_gt_of_ne hj with hlt | hgt
    · have hle : n * (j + 1) ≤ n * i := Nat.mul_le_mul_left n hlt
      exact Or.inl (by omega)
    · have hle : n * (i + 1) ≤ n * j := Nat.mul_le_mul_left n hgt
      rw [Nat.mul_succ] at hle
      exact Or.inr (by omega)

/-- A loop over the records that sets a field in those it selects. -/
def setEach (p : Bytes n → Bool) (off w v : Nat) (count : Nat) : Nat → UInt8 :=
  (List.range count).foldl
    (fun m i => if p (recordAt m i) then setLE m (n * i + off) w v else m) m

theorem setEach_succ (p : Bytes n → Bool) (off w v count : Nat) :
    setEach m p off w v (count + 1) = if p (recordAt (setEach m p off w v count) count)
      then setLE (setEach m p off w v count) (n * count + off) w v
      else setEach m p off w v count := by
  rw [setEach, List.range_succ, List.foldl_append]
  rfl

/-- **The loop is a map**: it comes to every record once, before it has been changed. -/
theorem recordAt_setEach {p : Bytes n → Bool} {off w v : Nat} (h : off + w ≤ n) (count j : Nat) :
    (recordAt (setEach m p off w v count) j : Bytes n)
      = if j < count ∧ p (recordAt m j) then putLE (recordAt m j) off w v else recordAt m j := by
  induction count generalizing j with
  | zero =>
    rw [if_neg fun hj => Nat.not_lt_zero j hj.1]
    rfl
  | succ count ih =>
    have hlast := ih count
    rw [if_neg fun hj => Nat.lt_irrefl count hj.1] at hlast
    rw [setEach_succ, hlast]
    by_cases hj : j = count
    · rw [hj]
      split
      · rename_i hp
        rw [recordAt_setLE _ h, if_pos rfl, hlast, if_pos ⟨Nat.lt_succ_self count, hp⟩]
      · rename_i hp
        rw [hlast, if_neg fun hboth => hp hboth.2]
    · have hlt : j < count + 1 ↔ j < count := by omega
      split
      · rw [recordAt_setLE _ h, if_neg hj, ih]
        simp only [hlt]
      · rw [ih]
        simp only [hlt]

theorem records_setEach {p : Bytes n → Bool} {off w v : Nat} (h : off + w ≤ n) (count : Nat) :
    (records (setEach m p off w v count) 0 count : List (Bytes n))
      = (records m 0 count).map fun e => if p e then putLE e off w v else e := by
  rw [records, records, List.map_map]
  refine List.map_congr_left fun j hj => ?_
  have hlt : j < count := by
    have := (List.mem_range'_1.mp hj).2
    omega
  rw [recordAt_setEach m h, Function.comp]
  simp only [hlt, true_and]

end Records

end AetherFs.Lib
