/-
# Content-defined chunks of `reflink.c`

`aetherfs_cdc_dedup` cuts its input into chunks and stores a checksum for each.  Where to cut is
decided by `cdc_find_chunk_boundary`, from a rolling value of 16 bits: at a position behind the first
4096 where ten of its bits are ones, or after 4096 bytes when there is none.

When there IS one, the function returns the last 47 bytes in front of it as the chunk, and not the
bytes from the beginning of the call.  What lies between is in no chunk (`cdcFind_hit`).  So the
chunks cut the input exactly when no boundary is ever found, and then they are blocks of 4096 bytes.

The chunks are handed to `aetherfs_dedup_block` as block 0, which it refuses.
-/
import AetherFs.Kernel.Dedup
import AetherFs.Lib.Interval

namespace AetherFs

open Lib

/-! ## 1. The source -/

/-- `cdc_table`; the entries that are not listed are zero, and none of them is read. -/
def cdcTable : List (BitVec 16) :=
  [0x0000, 0xCC01, 0xD801, 0x1400, 0xF001, 0x3C00, 0x2800, 0xE201,
    0xA001, 0x6C00, 0x7800, 0x9901, 0x8801, 0x7800, 0x6800, 0xB001,
    0x5001, 0x3C00, 0x4C00, 0x8501, 0x9401, 0xA001, 0x8400, 0xD001,
    0xD801, 0xC001, 0xFC01, 0x1400, 0x4C00, 0xCC01, 0xD801, 0x1400]

/-- The rolling value after one more byte. -/
def cdcStep (crc : BitVec 16) (byte : UInt8) : BitVec 16 :=
  let crc := (crc >>> 4) ^^^ cdcTable.getD (crc &&& 0xF).toNat 0 ^^^
    cdcTable.getD (byte &&& 0xF).toNat 0
  (crc >>> 4) ^^^ cdcTable.getD (crc &&& 0xF).toNat 0 ^^^ cdcTable.getD (byte >>> 4).toNat 0

/-- The test of the rolling value. -/
def IsBoundary (crc : BitVec 16) : Prop := (crc &&& 0x3FFF) &&& 0x3FF = 0x3FF

instance (crc : BitVec 16) : Decidable (IsBoundary crc) := inferInstanceAs (Decidable (_ = _))

/-- The loop of `cdc_find_chunk_boundary`: the first position from `AETHERFS_DEDUP_MIN_CHUNK` on at
which the rolling value is a boundary. -/
def cdcScan : List UInt8 → Nat → BitVec 16 → Option Nat
  | [], _, _ => none
  | byte :: rest, i, crc =>
    if IsBoundary (cdcStep crc byte) ∧ i ≥ 4096 then some i
    else cdcScan rest (i + 1) (cdcStep crc byte)

/-- `cdc_find_chunk_boundary`, with `AETHERFS_CDC_WINDOW_SIZE` 48: where the chunk starts, and its
length.  The last byte is not looked at. -/
def cdcFindChunkBoundary (data : List UInt8) : Nat × Nat :=
  match cdcScan (data.take (data.length - 1)) 0 0xFFFF with
  | some i =>
    let start := i - (48 - 1)
    let len := i - start
    (start, if len > 65536 then 65536 else len)
  | none => (0, if data.length < 4096 then data.length else 4096)

/-- A run of `aetherfs_cdc_dedup`: the regions it has taken a checksum of with the entries of
`chunk_refs`, how far it has come, and `global_dedup`. -/
structure CdcRun where
  chunks : List (Interval × Nat)
  offset : Nat
  info : DedupInfo

/-- `block_checksum` of a chunk. -/
def chunkChecksum (data : List UInt8) (chunk : Interval) : Nat :=
  (kernelCrc32c 0xFFFFFFFF#32 ((data.drop chunk.start).take chunk.len)).toNat

/-- The loop of `aetherfs_cdc_dedup`.  What `aetherfs_dedup_block` returns is not looked at. -/
def cdcLoop (memory node : Bool) (data : List UInt8) : Nat → Nat → DedupInfo → CdcRun
  | 0, offset, info => ⟨[], offset, info⟩
  | count + 1, offset, info =>
    if offset < data.length then
      let (start, len) := cdcFindChunkBoundary (data.drop offset)
      let chunk : Interval := ⟨offset + start, len⟩
      let checksum := chunkChecksum data chunk
      let (_, info) := dedupBlock memory node info 0 checksum
      let run := cdcLoop memory node data count (offset + (start + len)) info
      { run with chunks := (chunk, checksum) :: run.chunks }
    else ⟨[], offset, info⟩

/-- `aetherfs_cdc_dedup`. -/
def cdcDedup (memory node : Bool) (info : DedupInfo) (data : List UInt8) (chunkCount : Nat) :
    Except Errno CdcRun :=
  if data.length = 0 then .error .EINVAL
  else if info.mode ≠ .cdc then .ok ⟨[], 0, info⟩
  else .ok (cdcLoop memory node data chunkCount 0 info)

/-- The rolling value over a piece of the input. -/
def rolling (bytes : List UInt8) : BitVec 16 := bytes.foldl cdcStep 0xFFFF

/-- The chunks cut the input, each has between 1 byte and `AETHERFS_DEDUP_MAX_CHUNK`, and the
reference of each is the checksum of its bytes. -/
def CutsAll (data : List UInt8) (chunks : List (Interval × Nat)) : Prop :=
  Tiles 0 data.length (chunks.map Prod.fst) ∧
    ∀ c ∈ chunks, 1 ≤ c.1.len ∧ c.1.len ≤ 65536 ∧ c.2 = chunkChecksum data c.1

/-- No boundary, in what the calls at the multiples of 4096 look at. -/
def NoBoundary (data : List UInt8) : Prop :=
  ∀ k i, 4096 ≤ i → 4096 * k + i + 1 < data.length →
    ¬ IsBoundary (rolling ((data.drop (4096 * k)).take (i + 1)))

/-! ## 2. One chunk -/

section Chunk

variable {data : List UInt8}

theorem cdcScan_bounds {l : List UInt8} {i j : Nat} {crc : BitVec 16}
    (h : cdcScan l i crc = some j) : 4096 ≤ j ∧ j < i + l.length := by
  induction l generalizing i crc with
  | nil => exact absurd h (by simp [cdcScan])
  | cons byte rest ih =>
    rw [cdcScan] at h
    rw [List.length_cons]
    split at h
    · rename_i hhit
      obtain rfl := Option.some.inj h
      exact ⟨hhit.2, by omega⟩
    · obtain ⟨hmin, hlt⟩ := ih h
      exact ⟨hmin, by omega⟩

/-- **When the scan finds nothing.** -/
theorem cdcScan_eq_none {l : List UInt8} {i : Nat} {crc : BitVec 16} : cdcScan l i crc = none ↔
    ∀ j, j < l.length → 4096 ≤ i + j → ¬ IsBoundary ((l.take (j + 1)).foldl cdcStep crc) := by
  induction l generalizing i crc with
  | nil => exact iff_of_true rfl fun j hj => absurd hj (Nat.not_lt_zero j)
  | cons byte rest ih =>
    rw [cdcScan]
    constructor
    · intro h
      split at h
      · exact absurd h (by simp)
      · rename_i hno
        intro j hj hmin
        cases j with
        | zero => exact fun hhit => hno ⟨hhit, hmin⟩
        | succ j =>
          rw [List.length_cons] at hj
          exact ih.mp h j (by omega) (by omega)
    · intro h
      have hfirst : ¬ (IsBoundary (cdcStep crc byte) ∧ i ≥ 4096) := by
        rintro ⟨hhit, hmin⟩
        exact h 0 (by simp) hmin hhit
      rw [if_neg hfirst, ih]
      intro j hj hmin
      exact h (j + 1) (by rw [List.length_cons]; omega) (by omega)

/-- **The chunk in front of a boundary**: its last 47 bytes.  What is in front of them is lost. -/
theorem cdcFind_hit {i : Nat} (h : cdcScan (data.take (data.length - 1)) 0 0xFFFF = some i) :
    cdcFindChunkBoundary data = (i - 47, 47) ∧ 4096 ≤ i ∧ i < data.length := by
  obtain ⟨hmin, hlt⟩ := cdcScan_bounds h
  rw [List.length_take] at hlt
  refine ⟨?_, hmin, by omega⟩
  unfold cdcFindChunkBoundary
  rw [h]
  simp only [Prod.mk.injEq, Nat.reduceSub, true_and]
  split <;> omega

theorem cdcFind_none (h : cdcScan (data.take (data.length - 1)) 0 0xFFFF = none) :
    cdcFindChunkBoundary data = (0, min data.length 4096) := by
  unfold cdcFindChunkBoundary
  rw [h]
  simp only [Prod.mk.injEq, true_and]
  split <;> omega

/-- A chunk of an input that is not empty has between 1 and 65536 bytes. -/
theorem cdcFind_len (h : 0 < data.length) :
    1 ≤ (cdcFindChunkBoundary data).2 ∧ (cdcFindChunkBoundary data).2 ≤ 65536 := by
  cases hscan : cdcScan (data.take (data.length - 1)) 0 0xFFFF with
  | some i =>
    rw [(cdcFind_hit hscan).1]
    exact ⟨show 1 ≤ 47 by decide, show 47 ≤ 65536 by decide⟩
  | none =>
    rw [cdcFind_none hscan]
    exact ⟨Nat.le_min.mpr ⟨h, by decide⟩, Nat.le_trans (Nat.min_le_right _ _) (by decide)⟩

theorem cdcScan_drop_eq_none {offset : Nat} :
    cdcScan ((data.drop offset).take ((data.drop offset).length - 1)) 0 0xFFFF = none ↔
      ∀ i, 4096 ≤ i → offset + i + 1 < data.length →
        ¬ IsBoundary (rolling ((data.drop offset).take (i + 1))) := by
  rw [cdcScan_eq_none]
  have hlength : ((data.drop offset).take ((data.drop offset).length - 1)).length
      = data.length - offset - 1 := by
    rw [List.length_take, List.length_drop]
    omega
  have htake : ∀ i, i < data.length - offset - 1 →
      ((data.drop offset).take ((data.drop offset).length - 1)).take (i + 1)
        = (data.drop offset).take (i + 1) := by
    intro i hi
    rw [List.take_take, List.length_drop, Nat.min_eq_left (by omega)]
  rw [hlength]
  constructor
  · intro h i hmin hlt
    have := h i (by omega) (by omega)
    rwa [htake i (by omega)] at this
  · intro h i hlt hmin
    rw [htake i hlt]
    exact h i (by omega) (by omega)

end Chunk

/-! ## 3. The loop -/

section Loop

variable {memory node : Bool} {data : List UInt8}

theorem dedupBlock_zero (info : DedupInfo) (checksum : Nat) :
    dedupBlock memory node info 0 checksum = (.error .EINVAL, info) := if_pos rfl

/-- A chunk in front of a run. -/
def CdcRun.cons (data : List UInt8) (chunk : Interval) (run : CdcRun) : CdcRun :=
  { run with chunks := (chunk, chunkChecksum data chunk) :: run.chunks }

theorem cdcLoop_turn {count offset start len : Nat} {info : DedupInfo} (h : offset < data.length)
    (hfind : cdcFindChunkBoundary (data.drop offset) = (start, len)) :
    cdcLoop memory node data (count + 1) offset info =
      (cdcLoop memory node data count (offset + (start + len)) info).cons data
        ⟨offset + start, len⟩ := by
  rw [cdcLoop, if_pos h, hfind]
  simp only [dedupBlock_zero]
  rfl

/-- **Every chunk has between 1 and 65536 bytes**, and its reference is their checksum. -/
theorem cdcLoop_chunks (count offset : Nat) (info : DedupInfo) :
    ∀ c ∈ (cdcLoop memory node data count offset info).chunks,
      1 ≤ c.1.len ∧ c.1.len ≤ 65536 ∧ c.2 = chunkChecksum data c.1 := by
  induction count generalizing offset with
  | zero => exact fun c hc => absurd hc List.not_mem_nil
  | succ count ih =>
    by_cases h : offset < data.length
    · rw [cdcLoop_turn h (Prod.mk.eta.symm)]
      refine List.forall_mem_cons.mpr ⟨?_, ih _⟩
      obtain ⟨hpos, hmax⟩ := @cdcFind_len (data.drop offset)
        (by rw [List.length_drop]; exact Nat.sub_pos_of_lt h)
      exact ⟨hpos, hmax, rfl⟩
    · rw [cdcLoop, if_neg h]
      exact fun c hc => absurd hc List.not_mem_nil

/-- **Each turn comes further**: as many turns as there are bytes are enough. -/
theorem cdcLoop_reaches (count : Nat) (info : DedupInfo) : ∀ offset, data.length ≤ offset + count →
    data.length ≤ (cdcLoop memory node data count offset info).offset := by
  induction count with
  | zero => exact fun offset hle => hle
  | succ count ih =>
    intro offset hle
    by_cases h : offset < data.length
    · have hpos := (@cdcFind_len (data.drop offset)
        (by rw [List.length_drop]; exact Nat.sub_pos_of_lt h)).1
      rw [cdcLoop_turn h Prod.mk.eta.symm]
      exact ih _ (by omega)
    · rw [cdcLoop, if_neg h]
      exact Nat.not_lt.mp h

/-- **What the loop cuts.**  From `offset` on, a run that comes to the end cuts the input exactly when
none of its calls, at `offset` and the multiples of 4096 behind it, finds a boundary. -/
theorem cdcLoop_tiles_iff (count : Nat) (info : DedupInfo) : ∀ offset, offset ≤ data.length →
    data.length ≤ (cdcLoop memory node data count offset info).offset →
    (Tiles offset data.length ((cdcLoop memory node data count offset info).chunks.map Prod.fst) ↔
      ∀ k i, 4096 ≤ i → offset + 4096 * k + i + 1 < data.length →
        ¬ IsBoundary (rolling ((data.drop (offset + 4096 * k)).take (i + 1)))) := by
  induction count with
  | zero =>
    intro offset hle hend
    have hoff : offset = data.length := Nat.le_antisymm hle hend
    exact iff_of_true hoff fun k i _ hlt => absurd hlt (by omega)
  | succ count ih =>
    intro offset hle hend
    by_cases h : offset < data.length
    · cases hscan : cdcScan ((data.drop offset).take ((data.drop offset).length - 1)) 0 0xFFFF with
      | some i =>
        -- a boundary: the chunk does not start at the offset
        obtain ⟨hfind, hmin, -⟩ := cdcFind_hit hscan
        rw [cdcLoop_turn h hfind]
        refine iff_of_false ?_ fun hall => ?_
        · rintro ⟨hstart, -⟩
          simp only at hstart
          omega
        · have hnone : cdcScan ((data.drop offset).take ((data.drop offset).length - 1)) 0 0xFFFF
              = none := cdcScan_drop_eq_none.mpr fun i => hall 0 i
          rw [hscan] at hnone
          exact absurd hnone (by simp)
      | none =>
        have hfind : cdcFindChunkBoundary (data.drop offset) = (0, min (data.length - offset) 4096)
            := by rw [cdcFind_none hscan, List.length_drop]
        rw [cdcLoop_turn h hfind, Nat.zero_add] at hend ⊢
        have hpos : 0 < min (data.length - offset) 4096 := by omega
        refine Iff.trans ⟨fun ht => ht.2.2, fun ht => ⟨Nat.add_zero offset, hpos, ht⟩⟩
          ((ih _ (by omega) hend).trans ?_)
        have hself := cdcScan_drop_eq_none.mp hscan
        by_cases hlong : 4096 ≤ data.length - offset
        · rw [Nat.min_eq_right hlong]
          constructor
          · intro hall k
            cases k with
            | zero => exact hself
            | succ k =>
              have := hall k
              rwa [show offset + 4096 + 4096 * k = offset + 4096 * (k + 1) by omega] at this
          · intro hall k
            have := hall (k + 1)
            rwa [show offset + 4096 * (k + 1) = offset + 4096 + 4096 * k by omega] at this
        · exact iff_of_true (fun k i _ hlt => absurd hlt (by omega))
            fun k i _ hlt => absurd hlt (by omega)
    · have hoff : offset = data.length := Nat.le_antisymm hle (Nat.not_lt.mp h)
      rw [cdcLoop, if_neg h]
      exact iff_of_true hoff fun k i _ hlt => absurd hlt (by omega)

end Loop

theorem cdcDedup_eq {memory node : Bool} {info : DedupInfo} (hmode : info.mode = .cdc)
    {data : List UInt8} (hne : data ≠ []) (chunkCount : Nat) :
    cdcDedup memory node info data chunkCount = .ok (cdcLoop memory node data chunkCount 0 info) := by
  unfold cdcDedup
  rw [if_neg (mt List.length_eq_zero_iff.mp hne), if_neg (not_not.mpr hmode)]

/-- `global_dedup` with content-defined chunks enabled. -/
def cdcInfo : DedupInfo := ⟨.cdc, true, 0, 0, fun _ => none⟩

/-- **When the chunks cut the input.**  As many turns as there are bytes come to the end, and in a run
that does the chunks cut the input exactly when no boundary is found. -/
theorem cdc_chunks_partition_iff {memory node : Bool} {info : DedupInfo} (hmode : info.mode = .cdc)
    {data : List UInt8} (hne : data ≠ []) :
    (∀ chunkCount, data.length ≤ chunkCount →
      ∃ run, cdcDedup memory node info data chunkCount = .ok run ∧ data.length ≤ run.offset) ∧
    ∀ chunkCount run, cdcDedup memory node info data chunkCount = .ok run →
      data.length ≤ run.offset → (CutsAll data run.chunks ↔ NoBoundary data) := by
  constructor
  · intro chunkCount hcount
    refine ⟨_, cdcDedup_eq hmode hne chunkCount, ?_⟩
    exact cdcLoop_reaches chunkCount info 0 (by rwa [Nat.zero_add])
  · intro chunkCount run hrun hend
    rw [cdcDedup_eq hmode hne, Except.ok.injEq] at hrun
    subst hrun
    have htiles := cdcLoop_tiles_iff chunkCount info 0 (Nat.zero_le _) hend
    simp only [Nat.zero_add] at htiles
    exact (and_iff_left (cdcLoop_chunks chunkCount 0 info)).trans htiles

/-- Three bytes more than a chunk. -/
def zeroBytes : List UInt8 := List.replicate 4099 0

/-- The two values that are looked at, at 4096 and 4097, are no boundaries. -/
theorem zero_bytes_cut : ∃ run, cdcDedup true true cdcInfo zeroBytes 4099 = .ok run ∧
    CutsAll zeroBytes run.chunks := by
  have hlength : zeroBytes.length = 4099 := List.length_replicate
  obtain ⟨hreach, hiff⟩ :=
    @cdc_chunks_partition_iff true true cdcInfo rfl zeroBytes (List.cons_ne_nil _ _)
  obtain ⟨run, hrun, hend⟩ := hreach 4099 hlength.le
  refine ⟨run, hrun, (hiff 4099 run hrun hend).mpr ?_⟩
  intro k i hmin hlt
  rw [hlength] at hlt
  obtain rfl : k = 0 := by omega
  obtain rfl | rfl : i = 4096 ∨ i = 4097 := by omega
  · decide +kernel
  · decide +kernel

/-! ## 4. A boundary -/

/-- A boundary at position 4096 is found: none in front of it is looked for. -/
theorem cdcScan_at {byte : UInt8} {rest : List UInt8} : ∀ {front : List UInt8} {i : Nat}
    {crc : BitVec 16}, i + front.length = 4096 →
    IsBoundary (cdcStep (front.foldl cdcStep crc) byte) →
    cdcScan (front ++ byte :: rest) i crc = some 4096
  | [], i, crc, hlen, hhit => by
    obtain rfl : i = 4096 := hlen
    exact if_pos ⟨hhit, Nat.le_refl 4096⟩
  | first :: front, i, crc, hlen, hhit => by
    rw [List.length_cons] at hlen
    have hearly : ¬ (IsBoundary (cdcStep crc first) ∧ i ≥ 4096) := fun h => absurd h.2 (by omega)
    rw [List.cons_append, cdcScan, if_neg hearly]
    exact cdcScan_at (by omega) hhit

theorem foldl_replicate_of_fixed {crc : BitVec 16} {byte : UInt8} (h : cdcStep crc byte = crc) :
    ∀ n, (List.replicate n byte).foldl cdcStep crc = crc
  | 0 => rfl
  | n + 1 => by
    rw [List.replicate_succ, List.foldl_cons, h]
    exact foldl_replicate_of_fixed h n

/-- Three bytes that bring the rolling value to `0x3FFF`, and a byte that keeps it there. -/
def boundaryData : List UInt8 := [6, 39, 20] ++ List.replicate 4095 193

theorem boundaryData_length : boundaryData.length = 4098 := by
  rw [boundaryData, List.length_append, List.length_replicate]
  rfl

theorem boundaryData_first : cdcFindChunkBoundary boundaryData = (4049, 47) := by
  have hsplit : boundaryData.take (boundaryData.length - 1)
      = ([6, 39, 20] ++ List.replicate 4093 193) ++ 193 :: [] := by
    rw [boundaryData_length, boundaryData, List.append_assoc, ← List.replicate_succ',
      List.take_append, List.take_replicate]
    rfl
  have hfixed : cdcStep 0x3FFF 193 = 0x3FFF := by decide
  have hfront : (([6, 39, 20] : List UInt8) ++ List.replicate 4093 193).foldl cdcStep 0xFFFF
      = 0x3FFF := by
    rw [List.foldl_append]
    exact foldl_replicate_of_fixed hfixed 4093
  have hscan : cdcScan (boundaryData.take (boundaryData.length - 1)) 0 0xFFFF = some 4096 := by
    rw [hsplit]
    refine cdcScan_at ?_ ?_
    · rw [List.length_append, List.length_replicate]
      rfl
    · rw [hfront, hfixed]
      decide
  exact (cdcFind_hit hscan).1

theorem boundaryData_second : cdcFindChunkBoundary (boundaryData.drop 4096) = (0, 2) := by
  have hrest : boundaryData.drop 4096 = [193, 193] := by
    rw [boundaryData, List.drop_append, List.drop_replicate]
    rfl
  rw [hrest]
  decide

theorem boundaryData_loop : cdcLoop true true boundaryData 2 0 cdcInfo =
    ((⟨[], 4098, cdcInfo⟩ : CdcRun).cons boundaryData ⟨4096, 2⟩).cons boundaryData ⟨4049, 47⟩ := by
  have hlength := boundaryData_length
  have hfirst : cdcFindChunkBoundary (boundaryData.drop 0) = (4049, 47) := by
    rw [List.drop_zero]
    exact boundaryData_first
  have hturn : cdcLoop true true boundaryData 1 4096 cdcInfo =
      (⟨[], 4098, cdcInfo⟩ : CdcRun).cons boundaryData ⟨4096, 2⟩ :=
    cdcLoop_turn (by omega) boundaryData_second
  have h := @cdcLoop_turn true true boundaryData 1 0 4049 47 cdcInfo (by omega) hfirst
  simp only [Nat.zero_add, Nat.reduceAdd] at h
  rw [h, hturn]

/-- **Lost bytes**: two chunks come to the end, and the first 4049 bytes are in neither. -/
theorem boundary_loses_bytes : ∃ run, cdcDedup true true cdcInfo boundaryData 2 = .ok run ∧
    run.offset = boundaryData.length ∧
    run.chunks.map Prod.fst = [⟨4049, 47⟩, ⟨4096, 2⟩] ∧ ¬ CutsAll boundaryData run.chunks := by
  have hne : boundaryData ≠ [] := List.cons_ne_nil _ _
  have hrun := @cdcDedup_eq true true cdcInfo rfl boundaryData hne 2
  rw [boundaryData_loop] at hrun
  refine ⟨_, hrun, boundaryData_length.symm, rfl, ?_⟩
  rintro ⟨⟨hstart, -⟩, -⟩
  exact absurd hstart (by decide)

end AetherFs
