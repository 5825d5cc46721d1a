/-
# Losing a member

What the redundancy of a pool is worth.  A member is lost when none of its blocks can be read any
more; the others are as they were (`Degraded`).

* **What is still there.**  Two pools with one label that the checker accepts, and that differ in ONE
  member only, have the same bootstrap blocks (where they are replicated) and, as a mirror or with
  parity, the same data: no member holds anything the others do not.  For a parity row this is the
  lost block as the xor of the others (`Balanced.rebuild`).
* **What the tools still read.**  Bootstrap blocks are read from the first member that answers, so
  they survive as long as one replica does.  A data block is read from ONE member, in a mirror and
  in a parity row as well: what is redundant on the others is not looked at.
-/
import AetherFs.Pool.Redundancy

namespace AetherFs

open Lib

section Determined

variable {δ : Type} [BlockDev δ] {img : Image δ} {devs : Nat → δ} {k : Nat}

/-! ## 1. What the others determine -/

/-- The block of one member of a balanced row, from the blocks of the others. -/
theorem Balanced.rebuild {ms : List Nat} {f : Nat → Block} (hk : k ∈ ms)
    (hzero : xorAll (ms.map f) = zeros 4096) : f k = xorAll ((ms.erase k).map f) := by
  refine xorAll_rebuild ?_
  rw [← hzero]
  exact (xorAll_perm ((List.perm_cons_erase hk).map f)).symm

theorem readPhysical_agree (hagree : ∀ m, m ≠ k → devs m = (img.members m).dev) {m : Nat}
    (hm : m ≠ k) (c : Nat) :
    imageReadPhysicalMember (img.withDevs devs) m c = imageReadPhysicalMember img m c := by
  have hdev : ((img.withDevs devs).members m).dev = (img.members m).dev := hagree m hm
  have hcount : (img.withDevs devs).memberCount = img.memberCount := rfl
  rw [imageReadPhysicalMember, imageReadPhysicalMember, hdev, hcount]

/-- Two replicated blocks that agree on one replica agree on all. -/
theorem Uniform.determined (hagree : ∀ m, m ≠ k → devs m = (img.members m).dev) {ms : List Nat}
    {c : Nat} (hnd : ms.Nodup) (hlen : 1 < ms.length) (h : Uniform img ms c)
    (h' : Uniform (img.withDevs devs) ms c) :
    ∀ m ∈ ms, imageReadPhysicalMember (img.withDevs devs) m c = imageReadPhysicalMember img m c := by
  obtain ⟨x, hx⟩ := h
  obtain ⟨y, hy⟩ := h'
  obtain ⟨s, hs, hsk⟩ : ∃ s ∈ ms, s ≠ k := by
    rw [← List.toFinset_card_of_nodup hnd] at hlen
    obtain ⟨s, hs, hsk⟩ := Finset.exists_mem_ne hlen k
    exact ⟨s, List.mem_toFinset.mp hs, hsk⟩
  have hxy : y = x := by
    have := (hy s hs).symm.trans ((readPhysical_agree hagree hsk c).trans (hx s hs))
    exact Except.ok.inj this
  intro m hm
  rw [hx m hm, hy m hm, hxy]

/-- Two balanced rows that agree on all members but one agree on that one. -/
theorem Balanced.determined (hagree : ∀ m, m ≠ k → devs m = (img.members m).dev) {ms : List Nat}
    {c : Nat} (hnd : ms.Nodup) (h : Balanced img ms c) (h' : Balanced (img.withDevs devs) ms c) :
    ∀ m ∈ ms, imageReadPhysicalMember (img.withDevs devs) m c = imageReadPhysicalMember img m c := by
  obtain ⟨f, hf, hzero⟩ := h
  obtain ⟨f', hf', hzero'⟩ := h'
  intro m hm
  by_cases hmk : m = k
  · subst hmk
    have hothers : (ms.erase m).map f' = (ms.erase m).map f := by
      refine List.map_congr_left fun i hi => ?_
      obtain ⟨him, himem⟩ := hnd.mem_erase_iff.mp hi
      have hsame := readPhysical_agree hagree him c
      rw [hf' i himem, hf i himem] at hsame
      exact Except.ok.inj hsame
    rw [hf m hm, hf' m hm, Balanced.rebuild hm hzero, Balanced.rebuild hm hzero', hothers]
  · exact readPhysical_agree hagree hmk c

theorem readReplicas_of_uniform {b : Nat} {x : Block} {ms : List Nat} (hne : ms ≠ [])
    (h : ∀ m ∈ ms, imageReadPhysicalMember img m b = .ok x) : readReplicas img b ms = .ok x := by
  cases ms with
  | nil => exact absurd rfl hne
  | cons m ms => rw [readReplicas, h m List.mem_cons_self]

theorem checkedBlocks_lt {used : List Interval} {b : Nat} (hb : b ∈ checkedBlocks used) :
    b < 2 ^ 64 := by
  obtain ⟨iv, -, hmem⟩ := List.mem_flatMap.mp hb
  obtain ⟨o, -, rfl⟩ := List.mem_map.mp hmem
  exact Nat.mod_lt _ (by norm_num)

/-- **No member holds anything the others do not.**  Two pools with one label, both accepted by the
redundancy check, that have all members but one in common: every bootstrap block that has a second
replica reads the same in both, and so does every data block the check has looked at, in a parity
pool and in a mirror of two members or more. -/
theorem lost_member_determined {used : List Interval}
    (hlabel : poolLabelValidate img.poolLabel = .ok ())
    (hagree : ∀ m, m ≠ k → devs m = (img.members m).dev)
    (hok : validatePoolRedundancy img used = .ok ())
    (hok' : validatePoolRedundancy (img.withDevs devs) used = .ok ()) :
    (∀ b, 1 ≤ b → b < 8 → 1 < maskCount (poolRoleMaskForBootstrapBlock img b) →
      imageReadBlock (img.withDevs devs) b = imageReadBlock img b) ∧
    (poolProfile img = poolProfileParity ∨
        (poolProfile img = poolProfileMirror ∧ 1 < maskCount (poolDataMask img)) →
      ∀ b ∈ checkedBlocks used, 8 ≤ b →
        imageReadBlock (img.withDevs devs) b = imageReadBlock img b) := by
  have h := labelOk_of_validate hlabel
  have hR := (validatePoolRedundancy_iff h used).mp hok
  have hR' := (@validatePoolRedundancy_iff _ _ (img.withDevs devs) h used).mp hok'
  constructor
  · intro b hb1 hb8 hcount
    have hmask := h.lt_256 (poolRoleMask_lt h b)
    have hlen : 1 < (setBits 8 (poolRoleMaskForBootstrapBlock img b)).length := by
      rwa [maskCount_eq hmask] at hcount
    have hsame := (hR.bootstrap b hb1 hb8 hcount).determined hagree (setBits_nodup 8 _) hlen
      (hR'.bootstrap b hb1 hb8 hcount)
    obtain ⟨x, hx⟩ := hR.bootstrap b hb1 hb8 hcount
    have hne : setBits 8 (poolRoleMaskForBootstrapBlock img b) ≠ [] := by
      intro hnil
      rw [hnil] at hlen
      exact absurd hlen (by simp)
    have hrole : poolRoleMaskForBootstrapBlock (img.withDevs devs) b
        = poolRoleMaskForBootstrapBlock img b := rfl
    unfold imageReadBlock
    rw [if_pos hb8, if_pos hb8, hrole, maskMembers_eq hmask, readReplicas_of_uniform hne hx,
      readReplicas_of_uniform hne fun m hm => (hsame m hm).trans (hx m hm)]
  · intro hprof b hb h8
    -- the block is read from a data member, whose block the others determine
    have hmember : ∀ p, poolMapDataBlock img b = .ok p →
        imageReadPhysicalMember (img.withDevs devs) p.memberIndex p.memberBlock
          = imageReadPhysicalMember img p.memberIndex p.memberBlock := by
      intro p hp
      have hmem := (poolMapDataBlock_slot h h8 (checkedBlocks_lt hb) hp).1
      rcases hprof with hprof | ⟨hprof, hcount⟩
      · obtain ⟨q, hq, hbal⟩ := (checked_slot h hR hb).2 hprof
        obtain ⟨q', hq', hbal'⟩ := (@checked_slot _ _ (img.withDevs devs) used h hR' b hb).2 hprof
        obtain rfl := Except.ok.inj (hq.symm.trans hp)
        rw [poolMapDataBlock_withDevs, hq] at hq'
        obtain rfl := Except.ok.inj hq'
        exact hbal.determined hagree (setBits_nodup 8 _) hbal' _ hmem
      · have hlen : 1 < (setBits 8 (poolDataMask img)).length := by
          rwa [maskCount_eq (h.lt_256 (poolDataMask_lt h))] at hcount
        obtain ⟨q, hq, hqb⟩ := (checked_slot h hR hb).1 hprof hcount
        obtain rfl := Except.ok.inj (hq.symm.trans hp)
        rw [hqb]
        exact (hR.mirror hprof hcount b hb).determined hagree (setBits_nodup 8 _) hlen
          (hR'.mirror hprof hcount b hb) _ hmem
    unfold imageReadBlock
    rw [if_neg (Nat.not_lt.mpr h8), if_neg (Nat.not_lt.mpr h8), poolMapDataBlock_withDevs]
    cases hp : poolMapDataBlock img b with
    | error e => rfl
    | ok p => exact hmember p hp

end Determined

theorem thirtyTwoBlocks_lt : 2 * 65536 < 2 ^ 63 := by norm_num

/-- The mirror of sixteen-block members, with a second member of twice the size. -/
def longerSecond : Nat → ByteFile := fun m =>
  if m = 1 then ByteFile.zeroed (2 * 65536) thirtyTwoBlocks_lt
  else ByteFile.zeroed 65536 ByteFile.sixteenBlocks_lt

theorem longerSecond_read {m c : Nat} (hm : m < 2) (hc : c < 16) :
    imageReadPhysicalMember ((mirrorPool 3).withDevs longerSecond) m c = .ok (zeros 4096) := by
  have hcount : m < ((mirrorPool 3).withDevs longerSecond).memberCount := hm
  have hsize : 65536 ≤ (longerSecond m).size := by
    unfold longerSecond
    split
    · exact (by norm_num : 65536 ≤ 2 * 65536)
    · exact le_rfl
  have hzero : (longerSecond m).blockAt (ByteFile.offsetOf c) = zeros 4096 := by
    unfold longerSecond
    split
    · exact ByteFile.blockAt_zeroed _ _
    · exact ByteFile.blockAt_zeroed _ _
  rw [imageReadPhysicalMember_of_lt hcount]
  refine ByteFile.readAll_eq_ok.mpr ⟨?_, hzero.symm⟩
  rw [ByteFile.offsetOf_of_lt (by omega)]
  change c * 4096 + 4096 ≤ (longerSecond m).size
  omega

theorem lost_member_longerSecond :
    longerSecond 1 ≠ ((mirrorPool 3).members 1).dev ∧
      imageReadBlock ((mirrorPool 3).withDevs longerSecond) 8 = imageReadBlock (mirrorPool 3) 8 := by
  refine ⟨fun h => absurd (congrArg ByteFile.size h) (by decide), ?_⟩
  obtain ⟨hlabel, hprof⟩ := mirrorPool_label 3 (by norm_num)
  obtain ⟨hrole, hdata⟩ := mirrorPool_masks 3 (by norm_num) (by norm_num)
  have hu : ∀ {mask c : Nat}, mask < 4 → c < 16 →
      Uniform ((mirrorPool 3).withDevs longerSecond) (setBits 8 mask) c := fun hmask hc =>
    ⟨zeros 4096, fun _ hm => longerSecond_read (mem_setBits_lt (n := 2) hmask hm) hc⟩
  have hchecked : ∀ b ∈ checkedBlocks [⟨8, 2⟩], b = 8 ∨ b = 9 := fun b hb => by
    simpa [checkedBlocks, intervalBlocks, List.range_succ, addU64] using hb
  have hR : Redundant ((mirrorPool 3).withDevs longerSecond) [⟨8, 2⟩] := by
    refine ⟨fun b _ hb _ => ?_, fun _ _ b hb => ?_, fun h3 => ?_⟩
    · have : poolRoleMaskForBootstrapBlock ((mirrorPool 3).withDevs longerSecond) b = 3 := hrole b
      rw [this]
      exact hu (by norm_num) (by omega)
    · have : poolDataMask ((mirrorPool 3).withDevs longerSecond) = 3 := hdata
      have hb := hchecked b hb
      rw [this]
      exact hu (by norm_num) (by omega)
    · exact absurd (hprof.symm.trans h3) (by norm_num)
  refine (lost_member_determined (k := 1) hlabel (fun m hm => ?_)
    (mirrorPool_redundant 3 (by norm_num) (by norm_num))
    ((@validatePoolRedundancy_iff _ _ ((mirrorPool 3).withDevs longerSecond)
      (labelOk_of_validate hlabel) _).mpr hR)).2 (Or.inr ⟨hprof, ?_⟩) 8 ?_ le_rfl
  · exact if_neg hm
  · rw [hdata]
    decide
  · simp [checkedBlocks, intervalBlocks, List.range_succ, addU64, dataStartBlock]

/-! ## 2. What the tools still read -/

section Degraded

variable {δ : Type} [BlockDev δ] {img img' : Image δ} {lost : Nat → Prop} {used : List Interval}

/-- The members in `lost` cannot be read any more; the others are as they were. -/
structure Degraded (lost : Nat → Prop) (img img' : Image δ) : Prop where
  frame : ∃ devs, img' = img.withDevs devs
  kept : ∀ m, ¬ lost m → (img'.members m).dev = (img.members m).dev
  failed : ∀ m, lost m → ∀ c x, BlockDev.read (img'.members m).dev c ≠ .ok x

theorem Degraded.read_kept (h : Degraded lost img img') {m : Nat} (hm : ¬ lost m) (c : Nat) :
    imageReadPhysicalMember img' m c = imageReadPhysicalMember img m c := by
  obtain ⟨devs, rfl⟩ := h.frame
  have hcount : (img.withDevs devs).memberCount = img.memberCount := rfl
  rw [imageReadPhysicalMember, imageReadPhysicalMember, h.kept m hm, hcount]

theorem Degraded.read_lost (h : Degraded lost img img') {m : Nat} (hm : lost m) (c : Nat) (x : Block) :
    imageReadPhysicalMember img' m c ≠ .ok x := by
  intro hx
  unfold imageReadPhysicalMember at hx
  split at hx
  · cases hx
  · exact h.failed m hm c x hx

/-- The replica loop finds the first member that is not lost. -/
theorem Degraded.readReplicas_iff (h : Degraded lost img img') {b : Nat} {x : Block} {ms : List Nat}
    (hx : ∀ m ∈ ms, imageReadPhysicalMember img m b = .ok x) :
    readReplicas img' b ms = .ok x ↔ ∃ m ∈ ms, ¬ lost m := by
  induction ms with
  | nil =>
    rw [readReplicas]
    refine iff_of_false (fun hc => by cases hc) ?_
    rintro ⟨m, hm, -⟩
    exact absurd hm List.not_mem_nil
  | cons m ms ih =>
    have ih := ih fun i hi => hx i (List.mem_cons_of_mem m hi)
    rw [readReplicas]
    by_cases hm : lost m
    · cases hread : imageReadPhysicalMember img' m b with
      | ok y => exact absurd hread (h.read_lost hm b y)
      | error e =>
        simp only
        rw [ih]
        constructor
        · rintro ⟨i, hi, hl⟩
          exact ⟨i, List.mem_cons_of_mem m hi, hl⟩
        · rintro ⟨i, hi, hl⟩
          rcases List.mem_cons.mp hi with rfl | hi
          · exact absurd hm hl
          · exact ⟨i, hi, hl⟩
    · rw [h.read_kept hm, hx m List.mem_cons_self]
      exact iff_of_true rfl ⟨m, List.mem_cons_self, hm⟩

/-- What every replica of a bootstrap block holds, in a pool the check accepts. -/
theorem bootstrap_replicas (h : LabelOk img.poolLabel) (hR : Redundant img used) {b : Nat} {x : Block}
    (hb1 : 1 ≤ b) (hb8 : b < 8) (hx : imageReadBlock img b = .ok x) :
    ∀ m ∈ setBits 8 (poolRoleMaskForBootstrapBlock img b),
      imageReadPhysicalMember img m b = .ok x := by
  have hmask := h.lt_256 (poolRoleMask_lt h b)
  unfold imageReadBlock at hx
  rw [if_pos hb8, maskMembers_eq hmask] at hx
  intro m hm
  by_cases hcount : 1 < maskCount (poolRoleMaskForBootstrapBlock img b)
  · obtain ⟨y, hy⟩ := hR.bootstrap b hb1 hb8 hcount
    rw [readReplicas_of_uniform (List.ne_nil_of_mem hm) hy] at hx
    rw [hy m hm, hx]
  · -- one replica, and it is the one that was read
    rw [maskCount_eq hmask] at hcount
    obtain ⟨m', hms⟩ : ∃ m', setBits 8 (poolRoleMaskForBootstrapBlock img b) = [m'] := by
      refine List.length_eq_one_iff.mp ?_
      have := List.length_pos_of_mem hm
      omega
    rw [hms] at hm hx
    obtain rfl := List.mem_singleton.mp hm
    rw [readReplicas] at hx
    split at hx
    · rename_i hread
      rw [hread, hx]
    · cases hx

/-- **What a pool with lost members still reads.**  A bootstrap block of a pool the redundancy check
accepts is read as before exactly if one of its replicas is left.  A data block is read as before
exactly if the one member it is mapped to is left, whatever is redundant on the others. -/
theorem degraded_reads_iff (hlabel : poolLabelValidate img.poolLabel = .ok ())
    (hok : validatePoolRedundancy img used = .ok ()) (hd : Degraded lost img img') {b : Nat}
    {x : Block} (hx : imageReadBlock img b = .ok x) :
    (1 ≤ b → b < 8 → (imageReadBlock img' b = .ok x ↔
      ∃ m ∈ setBits 8 (poolRoleMaskForBootstrapBlock img b), ¬ lost m)) ∧
    (8 ≤ b → (imageReadBlock img' b = .ok x ↔
      ∃ p, poolMapDataBlock img b = .ok p ∧ ¬ lost p.memberIndex)) := by
  have h := labelOk_of_validate hlabel
  have hR := (validatePoolRedundancy_iff h used).mp hok
  constructor
  · intro hb1 hb8
    have hall := bootstrap_replicas h hR hb1 hb8 hx
    have hrole : poolRoleMaskForBootstrapBlock img' b = poolRoleMaskForBootstrapBlock img b := by
      obtain ⟨devs, rfl⟩ := hd.frame
      rfl
    rw [← hd.readReplicas_iff hall, imageReadBlock, if_pos hb8, hrole,
      maskMembers_eq (h.lt_256 (poolRoleMask_lt h b))]
  · intro h8
    have hmap : poolMapDataBlock img' b = poolMapDataBlock img b := by
      obtain ⟨devs, rfl⟩ := hd.frame
      exact poolMapDataBlock_withDevs img devs b
    unfold imageReadBlock at hx ⊢
    rw [if_neg (Nat.not_lt.mpr h8)] at hx ⊢
    obtain ⟨p, hp, hread⟩ := bind_eq_ok.mp hx
    rw [hmap, hp, ok_bind]
    constructor
    · intro hread'
      exact ⟨p, rfl, fun hl => hd.read_lost hl _ _ hread'⟩
    · rintro ⟨q, hq, hl⟩
      obtain rfl := Except.ok.inj hq
      rw [hd.read_kept hl, hread]

end Degraded

/-- The same mirror with an empty file in the place of its first member. -/
def emptyFirst : Nat → ByteFile := fun m =>
  if m = 0 then ByteFile.empty else ByteFile.zeroed 65536 ByteFile.sixteenBlocks_lt

theorem degraded_emptyFirst :
    Degraded (fun m => m = 0) (mirrorPool 3) ((mirrorPool 3).withDevs emptyFirst) where
  frame := ⟨emptyFirst, rfl⟩
  kept _ hm := if_neg hm
  failed := by
    rintro m rfl c x hx
    obtain ⟨hin, -⟩ := ByteFile.readAll_eq_ok.mp hx
    exact absurd (le_trans (Nat.le_add_left 4096 _) hin) (by decide)

theorem mirrorPool_reads {b : Nat} (hb : b = 1 ∨ b = 8) :
    imageReadBlock (mirrorPool 3) b = .ok (zeros 4096) := by
  rcases hb with rfl | rfl
  · rw [imageReadBlock, if_pos (by decide), (mirrorPool_masks 3 (by norm_num) (by norm_num)).1]
    exact readReplicas_of_uniform (by decide) fun m hm =>
      mirrorPool_read 3 (mem_setBits_lt (n := 2) (by norm_num)
        ((maskMembers_eq (show 3 < 2 ^ 8 by norm_num)) ▸ hm)) (by norm_num)
  · obtain ⟨m, hmap⟩ := mirrorPool_map 3 (by norm_num) (by norm_num) 8
    have hm : m < 2 := by
      have hslot := (poolMapDataBlock_slot
        (labelOk_of_validate (mirrorPool_label 3 (by norm_num)).1) le_rfl (by norm_num) hmap).1
      rw [(mirrorPool_masks 3 (by norm_num) (by norm_num)).2] at hslot
      exact mem_setBits_lt (n := 2) (by norm_num) hslot
    rw [imageReadBlock, if_neg (by decide), hmap]
    exact mirrorPool_read 3 hm (by norm_num)

/-- The superblock is read from the second member; block 8, which the second member has as well, is
not read. -/
theorem degraded_reads_emptyFirst :
    imageReadBlock ((mirrorPool 3).withDevs emptyFirst) 1 = .ok (zeros 4096) ∧
      imageReadBlock ((mirrorPool 3).withDevs emptyFirst) 8 ≠ .ok (zeros 4096) := by
  have hlabel := (mirrorPool_label 3 (by norm_num)).1
  have hok := mirrorPool_redundant 3 (by norm_num) (by norm_num)
  constructor
  · refine ((degraded_reads_iff hlabel hok degraded_emptyFirst (mirrorPool_reads (Or.inl rfl))).1
      le_rfl (by norm_num)).mpr ⟨1, ?_, by norm_num⟩
    rw [(mirrorPool_masks 3 (by norm_num) (by norm_num)).1]
    decide
  · intro hread
    obtain ⟨p, hp, hne⟩ := ((degraded_reads_iff hlabel hok degraded_emptyFirst
      (mirrorPool_reads (Or.inr rfl))).2 le_rfl).mp hread
    rw [poolMapDataBlock_mirror (mirrorPool_label 3 (by norm_num)).2] at hp
    have hfirst := (poolMapMirror_spec hp).1
    rw [(mirrorPool_masks 3 (by norm_num) (by norm_num)).2] at hfirst
    exact hne (Option.some.inj (hfirst.symm.trans (by decide)))

end AetherFs
