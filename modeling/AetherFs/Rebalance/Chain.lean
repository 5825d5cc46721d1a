/-
# The chain that is written and the chain that is walked

`aetherfs_write_checksum_chain` counts down and links forward; the walk of scrub counts up and follows
the links.  They meet for every number of blocks, on every target whose blocks keep apart
(`chain_agrees`): the walk then visits the blocks of the chain in order, and the data is what it was.

What can go wrong lies below both of them.  The byte offset of a member block is computed in 64 bits,
so member blocks that are the same modulo `2 ^ 52` are one, and a chain block can be the block of a
datum it has just summed.  On a target with one member, which is what `rebalance` opens, the agreement
fails for some contents whenever that happens and the call can return at all (`chain_overwrites`).
-/
import AetherFs.Image.Open
import AetherFs.Rebalance.Results

namespace AetherFs

open Lib

/-! ## 1. What is to hold -/

/-- A block of the chain. -/
def InChain (n csum b : Nat) : Prop := csum ≤ b ∧ b < csum + csumBlocks n

/-- A block of the data. -/
def InData (start n b : Nat) : Prop := start ≤ b ∧ b < start + n

/-- Data and chain lie in the data region, apart from each other. -/
structure ChainRegion (blocks start n csum : Nat) : Prop where
  pos : 1 ≤ n
  start_ge : 8 ≤ start
  start_le : start + n ≤ blocks
  csum_ge : 8 ≤ csum
  csum_le : csum + csumBlocks n ≤ blocks
  apart : start + n ≤ csum ∨ csum + csumBlocks n ≤ start

/-- The walk of scrub visits the chain in order, and what could be read of the data still reads the
same. -/
structure AgreesAfter (before after : Image ByteFile) (start n csum : Nat) : Prop where
  walk : csumWalk (imageReadBlock after) after.blocks start n 0 csum
    = .ok ((List.range (csumBlocks n)).map fun j => csum + j)
  kept : ∀ i x, i < n → imageReadBlock before (start + i) = .ok x →
    imageReadBlock after (start + i) = .ok x

/-- Writer and reader agree, whatever the members of the target hold. -/
def ChainsAgree (target : Image ByteFile) (start n csum : Nat) : Prop :=
  ∀ devs host img', writeChecksumChain host n start csum (target.withDevs devs) = .ok () img' →
    AgreesAfter (target.withDevs devs) img' start n csum

/-- No member block of the chain shares its bytes with another one of the chain or the data. -/
def StoredApart (target : Image ByteFile) (start n csum : Nat) : Prop :=
  ∀ b b' m c m' c', InChain n csum b → InData start n b' ∨ InChain n csum b' →
    home target b = .ok (m, c) → home target b' = .ok (m', c') → c' % 2 ^ 52 = c % 2 ^ 52 → c' = c

/-- Every block is served, at an offset a file can have. -/
def Addressable (target : Image ByteFile) (start n csum : Nat) : Prop :=
  ∀ b, InData start n b ∨ InChain n csum b → Served target b ∧ b % 2 ^ 52 * 4096 + 4096 < 2 ^ 63

/-- The contents of the data, where it can be read. -/
def dataAt (img : Image ByteFile) (start i : Nat) : Block :=
  match imageReadBlock img (start + i) with
  | .ok x => x
  | .error _ => zeros 4096

theorem dataAt_of_read {img : Image ByteFile} {start i : Nat} {x : Block}
    (h : imageReadBlock img (start + i) = .ok x) : dataAt img start i = x := by
  rw [dataAt, h]

theorem chainBlock_congr {data data' : Nat → Block} {n csum j : Nat}
    (h : ∀ i, i < n → i < 1020 * (j + 1) → data i = data' i) :
    chainBlock data n csum j = chainBlock data' n csum j := by
  refine congrArg (fun sums => sumsBlock sums _) (List.map_congr_left fun i hi => ?_)
  rw [List.mem_range, sumsIn] at hi
  rw [h (1020 * j + i) (by omega) (by omega)]

/-! ## 2. A turn that succeeds -/

section Turn

variable {host : Host} {img : Image ByteFile} {start n csum j : Nat}

/-- **What a turn has done**: read the data it sums, and written the block of the chain. -/
theorem chainTurn_ends (host : Host) (img : Image ByteFile) (start n csum j : Nat) :
    Ends (fun _ => True) (chainTurn host start n csum j img) fun _ img' =>
      (∀ i, i < sumsIn n j → ∃ x, imageReadBlock img (start + (1020 * j + i)) = .ok x) ∧
        imageWriteBlock (csum + j) (chainBlock (dataAt img start) n csum j) img = .ok () img' := by
  have hsums : Ends (fun _ => True) ((List.range (sumsIn n j)).mapM
      (fun i => readSum host (start + (1020 * j + i))) img) fun sums img' =>
      List.Forall₂ (fun i sum => (∃ x, imageReadBlock img (start + (1020 * j + i)) = .ok x) ∧
        sum = crc32cData (toList (dataAt img start (1020 * j + i))))
        (List.range (sumsIn n j)) sums ∧ img' = img := by
    refine Ends.mapM fun i _ => ?_
    refine Ends.bind (Q := fun x s => imageReadBlock img (start + (1020 * j + i)) = .ok x ∧ s = img)
      (Host.call_ends (fun _ _ => trivial) ?_) ?_
    · exact Ends.liftRead_cases (fun _ _ => trivial) fun x hx => ⟨hx, rfl⟩
    · rintro x s ⟨hx, rfl⟩
      refine Ends.pure ⟨⟨⟨x, hx⟩, ?_⟩, rfl⟩
      rw [dataAt_of_read hx]
  refine hsums.bind ?_
  rintro sums s ⟨hall, rfl⟩
  have hreads : ∀ i, i < sumsIn n j →
      ∃ x, imageReadBlock s (start + (1020 * j + i)) = .ok x := by
    intro i hi
    obtain ⟨hlen, hget⟩ := List.forall₂_iff_get.mp hall
    rw [List.length_range] at hlen
    have := (hget i (by rwa [List.length_range]) (by rwa [← hlen])).1
    rwa [List.get_eq_getElem, List.getElem_range] at this
  have heq := eq_map_of_forall₂ (hall.imp fun i sum h => h.2)
  subst heq
  refine Host.call_ends (fun _ _ => trivial) ?_
  cases hwrite : imageWriteBlock (csum + j) (sumsBlock ((List.range (sumsIn n j)).map fun i =>
      crc32cData (toList (dataAt s start (1020 * j + i))))
      (if 1020 < n - 1020 * j then csum + j + 1 else 0)) s with
  | ok u img' => exact Ends.ok ⟨hreads, hwrite⟩
  | error e img' => exact Ends.error trivial

end Turn

/-! ## 3. Blocks that are stored apart -/

section Apart

variable {T img img' : Image ByteFile} {start n csum j : Nat}

/-- The target with the first `j` blocks of the chain written. -/
structure ChainSoFar (T : Image ByteFile) (start n csum j : Nat) (img : Image ByteFile) : Prop where
  frame : ∃ devs, img = T.withDevs devs
  kept : ∀ i x, i < n → imageReadBlock T (start + i) = .ok x →
    imageReadBlock img (start + i) = .ok x
  read : ∀ i, i < n → i < 1020 * j → ∃ x, imageReadBlock img (start + i) = .ok x
  chain : ∀ k, k < j →
    imageReadBlock img (csum + k) = .ok (chainBlock (dataAt img start) n csum k)

/-- A write of the chain is seen by the reads of its own block only. -/
theorem StoredApart.write (h : StoredApart T start n csum) (hlabel : LabelOk T.poolLabel)
    (hr : ChainRegion T.blocks start n csum) (hblocks : T.blocks < 2 ^ 64)
    (hframe : ∃ devs, img = T.withDevs devs) (hj : j < csumBlocks n) {buf : Block}
    (hw : imageWriteBlock (csum + j) buf img = .ok () img') :
    imageReadBlock img' (csum + j) = .ok buf ∧ ∀ b x, InData start n b ∨ InChain n csum b →
      b ≠ csum + j → imageReadBlock img b = .ok x → imageReadBlock img' b = .ok x := by
  obtain ⟨devs, rfl⟩ := hframe
  have hstart := hr.start_ge
  have hend := hr.start_le
  have hcsum := hr.csum_ge
  have hcend := hr.csum_le
  obtain ⟨hhit, hmiss⟩ := @imageWriteBlock_reads ByteFile _ _ (T.withDevs devs) img' hlabel
    (csum + j) (by omega) buf hw
  refine ⟨hhit, fun b x hb hne hread => hmiss ?_ ?_ hne ?_ hread⟩
  · rcases hb with hb | hb
    · exact Nat.le_trans hstart hb.1
    · exact Nat.le_trans hcsum hb.1
  · rcases hb with hb | hb
    · exact Nat.lt_trans (Nat.lt_of_lt_of_le hb.2 hend) hblocks
    · exact Nat.lt_trans (Nat.lt_of_lt_of_le hb.2 hcend) hblocks
  · intro m c m' c' hh hh'
    rw [home_withDevs] at hh hh'
    exact h (csum + j) b m c m' c' ⟨Nat.le_add_right _ _, by omega⟩ hb hh hh'

/-- **One turn.** -/
theorem ChainSoFar.turn (h : StoredApart T start n csum) (hlabel : LabelOk T.poolLabel)
    (hr : ChainRegion T.blocks start n csum) (hblocks : T.blocks < 2 ^ 64) {host : Host}
    (hj : j < csumBlocks n) (hsofar : ChainSoFar T start n csum j img) :
    Ends (fun _ => True) (chainTurn host start n csum j img) fun _ img' =>
      ChainSoFar T start n csum (j + 1) img' := by
  refine (chainTurn_ends host img start n csum j).mono fun _ img' hturn => ?_
  obtain ⟨hreads, hw⟩ := hturn
  obtain ⟨hhit, hmiss⟩ := h.write hlabel hr hblocks hsofar.frame hj hw
  have hdisj := hr.apart
  have hdata : ∀ i x, i < n → imageReadBlock img (start + i) = .ok x →
      imageReadBlock img' (start + i) = .ok x := by
    intro i x hi hread
    exact hmiss _ x (Or.inl ⟨Nat.le_add_right _ _, by omega⟩) (by omega) hread
  -- what this turn has summed can be read as well
  have hknown : ∀ i, i < n → i < 1020 * (j + 1) → ∃ x, imageReadBlock img (start + i) = .ok x := by
    intro i hi hlt
    by_cases hold : i < 1020 * j
    · exact hsofar.read i hi hold
    · have := hreads (i - 1020 * j) (by simp only [sumsIn]; omega)
      rwa [Nat.add_sub_cancel' (Nat.not_lt.mp hold)] at this
  have hsame : ∀ k, k < j + 1 → chainBlock (dataAt img' start) n csum k
      = chainBlock (dataAt img start) n csum k := by
    intro k hk
    refine chainBlock_congr fun i hi hlt => ?_
    obtain ⟨x, hx⟩ := hknown i hi (by omega)
    rw [dataAt_of_read hx, dataAt_of_read (hdata i x hi hx)]
  refine ⟨?_, fun i x hi hread => hdata i x hi (hsofar.kept i x hi hread), ?_, ?_⟩
  · obtain ⟨devs, rfl⟩ := hsofar.frame
    obtain ⟨devs', hframe⟩ := imageWriteBlock_label hw
    exact ⟨devs', hframe⟩
  · intro i hi hlt
    obtain ⟨x, hx⟩ := hknown i hi hlt
    exact ⟨x, hdata i x hi hx⟩
  · intro k hk
    rw [hsame k hk]
    rcases Nat.lt_succ_iff_lt_or_eq.mp hk with hlt | rfl
    · refine hmiss _ _ (Or.inr ⟨Nat.le_add_right _ _, by omega⟩) (by omega) (hsofar.chain k hlt)
    · exact hhit

/-- **Writer and reader agree** on every target whose blocks are stored apart, a pool or not. -/
theorem chain_agrees (h : StoredApart T start n csum)
    (hlabel : poolLabelValidate T.poolLabel = .ok ()) (hr : ChainRegion T.blocks start n csum)
    (hblocks : T.blocks < 2 ^ 64) : ChainsAgree T start n csum := by
  intro devs host img' hrun
  have hstart := hr.start_le
  have hcsum := hr.csum_le
  have hpos : 0 < csumBlocks n := by
    have := hr.pos
    simp only [csumBlocks]
    omega
  have hT : StoredApart (T.withDevs devs) start n csum := by
    intro b b' m c m' c' hb hb' hh hh'
    rw [home_withDevs] at hh hh'
    exact h b b' m c m' c' hb hb' hh hh'
  have hstartSoFar : ChainSoFar (T.withDevs devs) start n csum 0 (T.withDevs devs) :=
    ⟨⟨devs, rfl⟩, fun _ _ _ hx => hx, fun i _ hlt => absurd hlt (Nat.not_lt_zero i),
      fun k hk => absurd hk (Nat.not_lt_zero k)⟩
  have hends : Ends (fun _ => True) (writeChecksumChain host n start csum (T.withDevs devs))
      fun _ img' => ChainSoFar (T.withDevs devs) start n csum (csumBlocks n) img' :=
    writeChecksumChain_ends (by omega) (by omega) (fun j img hj hsofar =>
      ChainSoFar.turn hT (labelOk_of_validate hlabel) hr hblocks hj hsofar) hstartSoFar
  have hdone := hends.of_ok hrun
  obtain ⟨devs', rfl⟩ := hdone.frame
  refine ⟨?_, hdone.kept⟩
  have hbody : ∀ i, i < n → imageReadBlock ((T.withDevs devs).withDevs devs') (start + i)
      = .ok (dataAt ((T.withDevs devs).withDevs devs') start i) := by
    intro i hi
    obtain ⟨x, hx⟩ := hdone.read i hi (by simp only [csumBlocks]; omega)
    rw [hx, dataAt_of_read hx]
  have hwalk := csumWalk_chainBlock (by omega) hr.csum_ge hcsum hblocks hbody hdone.chain
    (csumBlocks n) 0 (Nat.zero_add _) hpos
  simp only [Nat.mul_zero, Nat.add_zero] at hwalk
  exact hwalk

end Apart

/-! ## 4. One member -/

section One

variable {T : Image ByteFile} {start n csum : Nat} {host : Host}

theorem setDev_setDev (img : Image ByteFile) (f f' : ByteFile) :
    (img.setDev 0 f).setDev 0 f' = img.setDev 0 f' := by
  simp only [Image.setDev, Function.update_self, Function.update_idem]

theorem setDev_self (img : Image ByteFile) : img.setDev 0 (img.members 0).dev = img := by
  simp only [Image.setDev, Function.update_eq_self]

theorem served_setDev {img : Image ByteFile} {f : ByteFile} {b : Nat} :
    Served (img.setDev 0 f) b ↔ Served img b :=
  served_congr rfl fun _ => (by simp only [Image.setDev, Function.update_self])

/-- **Calls that return 0 have addressed every block.** -/
theorem addressable_of_run (hc : T.memberCount = 1) (hlabel : LabelOk T.poolLabel)
    (hr : ChainRegion T.blocks start n csum) (hblocks : T.blocks < 2 ^ 64) {img' : Image ByteFile}
    (hrun : writeChecksumChain host n start csum T = .ok () img') : Addressable T start n csum := by
  have hstart := hr.start_le
  have hcsum := hr.csum_le
  have hread : ∀ {img b x}, (∃ devs, img = T.withDevs devs) → b < 2 ^ 64 →
      imageReadBlock img b = .ok x → Served T b ∧ b % 2 ^ 52 * 4096 + 4096 < 2 ^ 63 := by
    rintro img b x ⟨devs, rfl⟩ hb hx
    have hc' : (T.withDevs devs).memberCount = 1 := hc
    obtain ⟨hs, hle, -⟩ := (single_read_file hc' hb).mp hx
    exact ⟨served_withDevs.mp hs, Nat.lt_of_le_of_lt hle (ByteFile.size_lt _)⟩
  let I : Nat → Image ByteFile → Prop := fun j img => (∃ devs, img = T.withDevs devs) ∧
    (∀ i, i < n → i < 1020 * j → Served T (start + i) ∧
      (start + i) % 2 ^ 52 * 4096 + 4096 < 2 ^ 63) ∧
    ∀ k, k < j → Served T (csum + k) ∧ (csum + k) % 2 ^ 52 * 4096 + 4096 < 2 ^ 63
  have hends : Ends (fun _ => True) (writeChecksumChain host n start csum T)
      fun _ img' => I (csumBlocks n) img' := by
    refine writeChecksumChain_ends (by omega) (by omega) (I := I) ?_ ?_
    · rintro j img hj ⟨hframe, hdata, hchain⟩
      refine (chainTurn_ends host img start n csum j).mono fun _ img' hturn => ?_
      obtain ⟨hreads, hw⟩ := hturn
      have hframe' : ∃ devs, img' = T.withDevs devs := by
        obtain ⟨devs, rfl⟩ := hframe
        obtain ⟨devs', hframe'⟩ := imageWriteBlock_label hw
        exact ⟨devs', hframe'⟩
      refine ⟨hframe', fun i hi hlt => ?_, fun k hk => ?_⟩
      · by_cases hold : i < 1020 * j
        · exact hdata i hi hold
        · obtain ⟨x, hx⟩ := hreads (i - 1020 * j) (by simp only [sumsIn]; omega)
          rw [Nat.add_sub_cancel' (Nat.not_lt.mp hold)] at hx
          exact hread hframe (by omega) hx
      · rcases Nat.lt_succ_iff_lt_or_eq.mp hk with hlt | rfl
        · exact hchain k hlt
        · have hlabel' : LabelOk img.poolLabel := by
            obtain ⟨devs, rfl⟩ := hframe
            exact hlabel
          exact hread hframe' (by omega) (imageWriteBlock_reads hlabel' (by omega) hw).1
    · exact ⟨⟨fun m => (T.members m).dev, rfl⟩, fun i _ hlt => absurd hlt (Nat.not_lt_zero i),
        fun k hk => absurd hk (Nat.not_lt_zero k)⟩
  obtain ⟨-, hdata, hchain⟩ := hends.of_ok hrun
  rintro b (⟨hle, hlt⟩ | ⟨hle, hlt⟩)
  · have := hdata (b - start) (by omega) (by simp only [csumBlocks]; omega)
    rwa [Nat.add_sub_cancel' hle] at this
  · have := hchain (b - csum) (by omega)
    rwa [Nat.add_sub_cancel' hle] at this

theorem sumsBlock_entries_pos {sums : List Nat} {j next : Nat} (hj : j < csumBlocks n)
    (hlen : sums.length = sumsIn n j) (hn : next < 2 ^ 64) :
    cbEntries (sumsBlock sums next) ≠ 0 := by
  have hpos : 0 < sumsIn n j ∧ sumsIn n j ≤ 1020 := by
    simp only [sumsIn, csumBlocks] at hj ⊢
    omega
  rw [(sumsBlock_fields (hlen.trans_le hpos.2) hn).1, hlen]
  exact Nat.pos_iff_ne_zero.mp hpos.1

theorem cbEntries_zeros : cbEntries (zeros 4096) = 0 := getLE_zeros ..

/-- **A run over a file**: where every block can be addressed and the data is there, the call returns
0, and every block of the chain has been written over whatever was at its place. -/
theorem chain_overwrites (hcalm : ∀ c, host.deny c = none) (hc : T.memberCount = 1)
    (hw : T.writable = true) (hr : ChainRegion T.blocks start n csum) (hblocks : T.blocks < 2 ^ 64)
    (haddr : Addressable T start n csum) (hk : (T.members 0).dev.kind = .regular)
    (hsize : ∀ i, i < n → (start + i) % 2 ^ 52 * 4096 + 4096 ≤ (T.members 0).dev.size) :
    ∃ f, writeChecksumChain host n start csum T = .ok () (T.setDev 0 f) ∧
      (T.members 0).dev.size ≤ f.size ∧
      ∀ j, j < csumBlocks n → cbEntries (f.blocksOf ((csum + j) % 2 ^ 52)) ≠ 0 := by
  have hstart := hr.start_le
  have hcsum := hr.csum_le
  let I : Nat → Image ByteFile → Prop := fun j img => ∃ f : ByteFile, img = T.setDev 0 f ∧
    f.kind = .regular ∧ (T.members 0).dev.size ≤ f.size ∧
    ∀ k, k < j → cbEntries (f.blocksOf ((csum + k) % 2 ^ 52)) ≠ 0
  have hends : Ends (fun _ => False) (writeChecksumChain host n start csum T)
      fun _ img' => I (csumBlocks n) img' := by
    refine writeChecksumChain_ends (by omega) (by omega) (I := I) ?_ ?_
    · rintro j img hj ⟨f, rfl, hkind, hle, hchain⟩
      have hc' : (T.setDev 0 f).memberCount = 1 := hc
      have hsums : Ends (fun _ => False) ((List.range (sumsIn n j)).mapM
          (fun i => readSum host (start + (1020 * j + i))) (T.setDev 0 f)) fun sums img' =>
          List.Forall₂ (fun _ _ => True) (List.range (sumsIn n j)) sums ∧ img' = T.setDev 0 f := by
        refine Ends.mapM fun i hi => ?_
        rw [List.mem_range, sumsIn] at hi
        have hi' : 1020 * j + i < n := by omega
        have hserved := (haddr (start + (1020 * j + i))
          (Or.inl ⟨Nat.le_add_right _ _, by omega⟩)).1
        have hread : imageReadBlock (T.setDev 0 f) (start + (1020 * j + i))
            = .ok (f.blocksOf ((start + (1020 * j + i)) % 2 ^ 52)) := by
          refine (single_read_file hc' (by omega)).mpr ⟨served_setDev.mpr hserved, ?_, ?_⟩
          · rw [setDev_dev]
            exact Nat.le_trans (hsize _ hi') hle
          · rw [setDev_dev]
        refine Host.read_bind (fun e he => ?_) hread (Ends.pure ⟨trivial, rfl⟩)
        rw [hcalm] at he
        exact absurd he (by simp)
      refine hsums.bind ?_
      rintro sums img' ⟨hall, rfl⟩
      have hlen : sums.length = sumsIn n j := by rw [← hall.length_eq, List.length_range]
      obtain ⟨hserved, hoff⟩ := haddr (csum + j) (Or.inr ⟨Nat.le_add_right _ _, by omega⟩)
      refine Host.call_ends (fun e he => ?_) ?_
      · rw [hcalm] at he
        exact absurd he (by simp)
      · generalize hbuf : sumsBlock sums (if 1020 < n - 1020 * j then csum + j + 1 else 0) = buf
        have hentries : cbEntries buf ≠ 0 := by
          rw [← hbuf]
          refine sumsBlock_entries_pos hj hlen ?_
          split <;> omega
        have hw' : (T.setDev 0 f).writable = true := hw
        obtain ⟨f', hwrite⟩ := ByteFile.writeAll_total hkind hoff buf
        obtain ⟨hk', hs', hb'⟩ := ByteFile.writeAll_blocks hwrite
        rw [single_write hc' hw' (by omega) (served_setDev.mpr hserved), imageWritePhysicalMember,
          if_neg (by rw [hc']; norm_num), setDev_dev, ByteFile.write_def, ByteFile.offsetOf_eq, hwrite]
        refine Ends.ok ⟨f', setDev_setDev T f f', hk'.trans hkind, ?_, fun k hk => ?_⟩
        · rw [hs']
          exact Nat.le_trans hle (Nat.le_max_left _ _)
        · rw [hb']
          by_cases heq : (csum + k) % 2 ^ 52 = (csum + j) % 2 ^ 52
          · rw [heq, Function.update_self]
            exact hentries
          · rw [Function.update_of_ne heq]
            refine hchain k (Nat.lt_of_le_of_ne (Nat.lt_succ_iff.mp hk) fun hkj => heq (by rw [hkj]))
    · exact ⟨(T.members 0).dev, (setDev_self T).symm, hk, Nat.le_refl _,
        fun k hk => absurd hk (Nat.not_lt_zero k)⟩
  obtain ⟨⟨⟩, img', hrun, f, rfl, -, hle, hchain⟩ := hends.total
  exact ⟨f, hrun, hle, hchain⟩

/-- Chain blocks that are the same modulo `2 ^ 52` are so many that the data takes every place. -/
theorem exists_data_at {b b' : Nat} (hb : InChain n csum b) (hb' : InChain n csum b') (hne : b' ≠ b)
    (hmod : b' % 2 ^ 52 = b % 2 ^ 52) : ∃ d, InData start n d ∧ d % 2 ^ 52 = b % 2 ^ 52 := by
  have hmany : 2 ^ 52 ≤ n := by
    obtain ⟨h1, h2⟩ := hb
    obtain ⟨h3, h4⟩ := hb'
    simp only [csumBlocks] at h2 h4
    omega
  refine ⟨start + (b % 2 ^ 52 + 2 ^ 52 - start % 2 ^ 52) % 2 ^ 52, ⟨Nat.le_add_right _ _, ?_⟩, ?_⟩
  · have := Nat.mod_lt (b % 2 ^ 52 + 2 ^ 52 - start % 2 ^ 52) (show 0 < 2 ^ 52 by norm_num)
    omega
  · omega

/-- **What agreement needs.**  Over a file of zeros a chain block at the place of a datum is seen. -/
theorem storedApart_of_agrees (hc : T.memberCount = 1) (hw : T.writable = true)
    (hr : ChainRegion T.blocks start n csum) (hblocks : T.blocks < 2 ^ 64)
    (hagree : ChainsAgree T start n csum) (haddr : Addressable T start n csum) :
    StoredApart T start n csum := by
  have hstart := hr.start_le
  have hcsum := hr.csum_le
  -- no datum is at the place of a chain block
  have hdata : ∀ b d, InChain n csum b → InData start n d → d % 2 ^ 52 ≠ b % 2 ^ 52 := by
    rintro b d ⟨hle, hlt⟩ hd hmod
    obtain ⟨hdle, hdlt⟩ := id hd
    have hsize : 2 ^ 63 - 4096 < 2 ^ 63 := by norm_num
    let f0 := ByteFile.zeroed (2 ^ 63 - 4096) hsize
    have hcT : (T.withDevs fun _ => f0).memberCount = 1 := hc
    have hfits : ∀ i, i < n → (start + i) % 2 ^ 52 * 4096 + 4096 ≤ f0.size := by
      intro i hi
      have hoff := (haddr (start + i) (Or.inl ⟨Nat.le_add_right _ _, by omega⟩)).2
      change _ ≤ 2 ^ 63 - 4096
      omega
    obtain ⟨f, hrun, hgrown, hover⟩ := @chain_overwrites (T.withDevs fun _ => f0) start n csum
      calmHost (fun _ => rfl) hcT hw hr hblocks haddr rfl hfits
    have hplace := hfits (d - start) (by omega)
    rw [Nat.add_sub_cancel' hdle] at hplace
    have hserved := (haddr d (Or.inl hd)).1
    have hbefore : imageReadBlock (T.withDevs fun _ => f0) d = .ok (zeros 4096) := by
      refine (single_read_file hcT (by omega)).mpr ⟨hserved, hplace, ?_⟩
      exact (ByteFile.blockAt_zeroed hsize _).symm
    have hafter := (hagree _ calmHost _ hrun).kept (d - start) (zeros 4096) (by omega)
      (by rwa [Nat.add_sub_cancel' hdle])
    rw [Nat.add_sub_cancel' hdle] at hafter
    have hcT' : ((T.withDevs fun _ => f0).setDev 0 f).memberCount = 1 := hc
    obtain ⟨-, -, hzeros⟩ := (single_read_file hcT' (by omega)).mp hafter
    rw [setDev_dev, hmod] at hzeros
    refine hover (b - csum) (by omega) ?_
    rw [Nat.add_sub_cancel' hle, ← hzeros]
    exact cbEntries_zeros
  intro b b' m c m' c' hb hb' hh hh' hmod
  have hb64 : ∀ {x}, InData start n x ∨ InChain n csum x → x < 2 ^ 64 := by
    rintro x (⟨-, hx⟩ | ⟨-, hx⟩) <;> omega
  have hself : ∀ {x i k}, InData start n x ∨ InChain n csum x → home T x = .ok (i, k) → k = x := by
    intro x i k hx hhome
    rcases home_single hc (hb64 hx) with ⟨-, h⟩ | ⟨h, -⟩
    · rw [h] at hhome
      exact (Prod.mk.inj (Except.ok.inj hhome)).2.symm
    · exact absurd (haddr x hx).1 h
  obtain rfl := hself (Or.inr hb) hh
  obtain rfl := hself hb' hh'
  by_contra hne
  rcases hb' with hb' | hb'
  · exact hdata _ _ hb hb' hmod
  · obtain ⟨d, hd, hdmod⟩ := exists_data_at hb hb' hne hmod
    exact hdata _ _ hb hd hdmod

end One

/-- Every image that is opened and has a data region has an accepted label. -/
theorem imageOpen_label {f : ByteFile} {writable : Bool} {beyond : Nat → UInt8}
    {img : Image ByteFile} (hopen : imageOpen f writable beyond = .ok img) (h8 : 8 ≤ img.blocks) :
    poolLabelValidate img.poolLabel = .ok () ∧ img.blocks < 2 ^ 64 ∧ img.memberCount = 1 ∧
      img.writable = writable ∧ (img.members 0).dev = f := by
  obtain ⟨-, -, hvalid, rfl⟩ := imageOpen_iff.mp hopen
  refine ⟨?_, openedFile_blocks_lt .., rfl, rfl, rfl⟩
  by_cases hmagic : plMagic (labelOf f) = poolMagic
  · rw [openedFile_of_label hmagic, openedImage_poolLabel]
    exact (hvalid hmagic).1
  · rw [openedFile_of_none hmagic] at h8 ⊢
    have := f.size_lt
    exact singleLabel_validate h8 (by omega)

/-- **When the chain that is written is the chain that is walked.**  On every target, pools included,
it is when no chain block shares its place with another block.  On a target with one member it is, for
all contents, exactly then, or when the call cannot return 0 at all. -/
theorem checksum_chain_agrees_iff {target : Image ByteFile}
    (hlabel : poolLabelValidate target.poolLabel = .ok ()) (hw : target.writable = true)
    (hblocks : target.blocks < 2 ^ 64) {start n csum : Nat}
    (hr : ChainRegion target.blocks start n csum) :
    (StoredApart target start n csum → ChainsAgree target start n csum) ∧
      (target.memberCount = 1 → (ChainsAgree target start n csum ↔
        (Addressable target start n csum → StoredApart target start n csum))) := by
  refine ⟨fun h => chain_agrees h hlabel hr hblocks, fun hc => ⟨fun h haddr => ?_, fun h => ?_⟩⟩
  · exact storedApart_of_agrees hc hw hr hblocks h haddr
  · intro devs host img' hrun
    have haddr : Addressable target start n csum := addressable_of_run (T := target.withDevs devs)
      hc (labelOk_of_validate hlabel) hr hblocks hrun
    exact chain_agrees (h haddr) hlabel hr hblocks devs host img' hrun

theorem mirrorFile_chain_agrees : ∃ img,
    imageOpen (labelledFile (uniformLabel 1 1 1 1 1 24 16)) true (fun _ => 0) = .ok img ∧
      ChainsAgree img 8 1 9 := by
  obtain ⟨img, hopen, hlogical, hmap⟩ := mirrorFile_open (n := 24) (by norm_num) (by norm_num)
  obtain ⟨hlabel, hblocks, -, hw, -⟩ := imageOpen_label hopen (by rw [hlogical]; norm_num)
  have hr : ChainRegion img.blocks 8 1 9 := by
    rw [hlogical]
    exact ⟨by decide, by decide, by decide, by decide, by decide, by decide⟩
  refine ⟨img, hopen, (checksum_chain_agrees_iff hlabel hw hblocks hr).1 ?_⟩
  intro b b' m c m' c' hb hb' hh hh' hmod
  have hlt : ∀ {x i k}, 8 ≤ x → x < 24 → home img x = .ok (i, k) → k < 24 := by
    intro x i k h8 hx hhome
    rw [home_data h8 (hmap x)] at hhome
    obtain ⟨-, rfl⟩ := Prod.mk.inj (Except.ok.inj hhome)
    exact hx
  have hcount : csumBlocks 1 = 1 := rfl
  simp only [InChain, InData, hcount] at hb hb'
  have h1 := hlt (by omega) (by omega) hh
  have h2 := hlt (by omega) (by omega) hh'
  omega

/-- **A chain over its own data.**  A label that promises `2 ^ 52 + 16` blocks on a file of sixteen is
accepted; the chain of block 8 at `2 ^ 52 + 8` is written over block 8. -/
theorem chain_over_data : ∃ img img',
    imageOpen (labelledFile (uniformLabel 1 1 1 1 1 (2 ^ 52 + 16) 16)) true (fun _ => 0) = .ok img ∧
      ChainRegion img.blocks 8 1 (2 ^ 52 + 8) ∧
      writeChecksumChain calmHost 1 8 (2 ^ 52 + 8) img = .ok () img' ∧
      imageReadBlock img 8 = .ok (zeros 4096) ∧ imageReadBlock img' 8 ≠ .ok (zeros 4096) := by
  obtain ⟨img, hopen, hlogical, hmap⟩ := mirrorFile_open (n := 2 ^ 52 + 16) (by norm_num)
    (by norm_num)
  obtain ⟨-, hblocks, hc, hw, hdev⟩ := imageOpen_label hopen (by rw [hlogical]; norm_num)
  have hcount : csumBlocks 1 = 1 := rfl
  have hr : ChainRegion img.blocks 8 1 (2 ^ 52 + 8) := by
    rw [hlogical]
    exact ⟨by decide, by decide, by norm_num, by norm_num, by rw [hcount]; norm_num, by norm_num⟩
  have haddr : Addressable img 8 1 (2 ^ 52 + 8) := by
    intro b hb
    simp only [InChain, InData, hcount] at hb
    have hb' : b = 8 ∨ b = 2 ^ 52 + 8 := by omega
    refine ⟨Or.inr (single_map_of_ok hc (by omega) (by omega) (hmap b)).1, ?_⟩
    rcases hb' with rfl | rfl <;> norm_num
  have hsize : (img.members 0).dev.size = 65536 := by rw [hdev]; rfl
  obtain ⟨f, hrun, -, hover⟩ := @chain_overwrites img 8 1 (2 ^ 52 + 8) calmHost (fun _ => rfl) hc hw
    hr hblocks haddr (by rw [hdev]; rfl) (by intro i hi; rw [hsize]; omega)
  refine ⟨img, _, hopen, hr, hrun, ?_, fun hread => ?_⟩
  · refine (single_read_file hc (by norm_num)).mpr
      ⟨(haddr 8 (Or.inl ⟨Nat.le_refl 8, by norm_num⟩)).1, by rw [hsize]; norm_num, ?_⟩
    rw [hdev]
    refine Eq.symm ((ByteFile.blockAt_store_ne _ _ (Nat.le_refl 65536) (Or.inr ?_)).trans
      (ByteFile.blockAt_zeroed _ _))
    norm_num
  · have hc' : (img.setDev 0 f).memberCount = 1 := hc
    obtain ⟨-, -, hzeros⟩ := (single_read_file hc' (by norm_num)).mp hread
    rw [setDev_dev] at hzeros
    refine hover 0 (by rw [hcount]; norm_num) ?_
    rw [show (2 ^ 52 + 8 + 0) % 2 ^ 52 = 8 % 2 ^ 52 by norm_num, ← hzeros]
    exact cbEntries_zeros

end AetherFs
