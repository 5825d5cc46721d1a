/-
# The loops do what compaction says

`Compact` says what a compacted volume is; `Run` has the loops of the source that write one.  This
module walks through the loops, from the innermost outwards, and shows that each of them takes the
target from one state of `Compact` to the next: the copy loop and the chain loop fill in a file
(`putFile`), one turn of the inode loop is `place`, the whole loop is `placed`, and with the
metadata written the file holds `packedBlocks`.

The statements are in the logic of `Lib.Run`: `Ends E` admits the failures in `E` and no others.
What must be in `E` is what `Allowed` lists -- the calls the host denies, a host without room for
the temporary file, and, for a volume that would grow past 2^51 blocks, the write at an offset
that is no `off_t`.  Everything ELSE that could fail does not: every block that is read can be
read, every block that is written is served, and there is always room (`Clean.fits`).
-/
import AetherFs.Rebalance.Source

namespace AetherFs

open Lib

/-! ## 1. What may fail -/

/-- The failures of the host, for a run that packs the volume up to block `final`. -/
structure Allowed (E : Fail → Prop) (host : Host) (final : Nat) : Prop where
  denied : ∀ c e, host.deny c = some e → E e
  full : (∀ dir ∈ tempDirs .regular, host.hasSpace dir = false) → E (.sys .ENOSPC)
  long : 2 ^ 51 ≤ final → E (.sys .EINVAL)

section Calls

variable {E : Fail → Prop} {host : Host} {σ α : Type} {s : σ} {Q : α → σ → Prop}

theorem Host.call_ends {c : Call} {spoil : σ → σ} {x : EStateM Fail σ α}
    (hd : ∀ e, host.deny c = some e → E e) (hx : Ends E (x s) Q) :
    Ends E (host.call c spoil x s) Q := by
  unfold Host.call
  cases h : host.deny c with
  | none => exact hx
  | some e => exact Ends.error (hd e h)

theorem refuseIf_ends {p : Prop} [Decidable p] {e : Errno} {Q : Unit → σ → Prop} (hp : ¬ p)
    (hq : Q () s) : Ends E (refuseIf p e s) Q := Ends.liftRead (failIf_of_not hp) hq

theorem Host.read_ends {c : Call} {x : σ → Except Fail α} {a : α}
    (hd : ∀ e, host.deny c = some e → E e) (hx : x s = .ok a) (hq : Q a s) :
    Ends E (host.read c x s) Q := Host.call_ends hd (Ends.liftRead hx hq)

theorem Host.read_bind {β : Type} {c : Call} {x : σ → Except Fail α} {a : α}
    {k : α → EStateM Fail σ β} {R : β → σ → Prop} (hd : ∀ e, host.deny c = some e → E e)
    (hx : x s = .ok a) (hk : Ends E (k a s) R) : Ends E ((host.read c x >>= k) s) R := by
  refine (Host.read_ends (Q := fun b s' => b = a ∧ s' = s) hd hx ⟨rfl, rfl⟩).bind ?_
  rintro _ _ ⟨rfl, rfl⟩
  exact hk

theorem refuseIf_bind {β : Type} {p : Prop} [Decidable p] {e : Errno}
    {k : Unit → EStateM Fail σ β} {R : β → σ → Prop} (hp : ¬ p) (hk : Ends E (k () s) R) :
    Ends E ((refuseIf p e >>= k) s) R := by
  refine (refuseIf_ends (Q := fun _ s' => s' = s) hp rfl).bind ?_
  rintro _ _ rfl
  exact hk

end Calls

/-! ## 2. The target while it is filled -/

/-- `T` with the inodes `table`, over the file `f`. -/
def Image.holding (T : Image ByteFile) (table : Nat → Inode) (f : ByteFile) : Image ByteFile :=
  { T with inodeTable := table }.setDev 0 f

/-- The target is `T` with the inodes `table`, and its file has the blocks `c`; it has grown to
hold `top` blocks. -/
def AtTarget (T : Image ByteFile) (table : Nat → Inode) (c : Nat → Block) (top : Nat)
    (img : Image ByteFile) : Prop :=
  ∃ f : ByteFile, f.kind = .regular ∧ f.size = max (T.members 0).dev.size (top * 4096) ∧
    f.blocksOf = c ∧ img = T.holding table f

/-- What the loops need of the target, to fill it up to block `final`. -/
structure Ready (E : Fail → Prop) (host : Host) (T : Image ByteFile) (final : Nat) : Prop where
  single : T.memberCount = 1
  writable : T.writable = true
  served : ∀ b, b < final → Served T b
  small : final < 2 ^ 64
  allowed : Allowed E host final

section Target

variable {E : Fail → Prop} {host : Host} {T img : Image ByteFile} {table : Nat → Inode}
  {c : Nat → Block} {top final : Nat} {f : ByteFile}

theorem holding_dev : ((T.holding table f).members 0).dev = f := setDev_dev _ _

theorem served_holding {b : Nat} : Served (T.holding table f) b ↔ Served T b :=
  served_congr rfl fun _ => (by simp only [Image.holding, Image.setDev, Function.update_self])

theorem AtTarget.read (h : AtTarget T table c top img) (hR : Ready E host T final) {b : Nat}
    (hb : b < top) (hf : b < final) : imageReadBlock img b = .ok (c b) := by
  obtain ⟨f, -, hsize, rfl, rfl⟩ := h
  have hc : (T.holding table f).memberCount = 1 := hR.single
  have hlt := f.size_lt
  have hb52 : b < 2 ^ 52 := by omega
  refine (single_read_file hc (by omega)).mpr ⟨served_holding.mpr (hR.served b hf), ?_, ?_⟩
  · rw [holding_dev, Nat.mod_eq_of_lt hb52, hsize]
    omega
  · rw [holding_dev, Nat.mod_eq_of_lt hb52]

/-- **A write of the target**: of a block that is already there, or of the one behind. -/
theorem AtTarget.put_ends (h : AtTarget T table c top img) (hR : Ready E host T final)
    {b : Nat} {buf : Block} (hb : b ≤ top + 1) (hf : b < final) :
    Ends E (imageWriteBlock b buf img)
      (fun _ img' => AtTarget T table (Function.update c b buf) (max top (b + 1)) img') := by
  obtain ⟨f, hk, hsize, rfl, rfl⟩ := h
  have hc : (T.holding table f).memberCount = 1 := hR.single
  have hw : (T.holding table f).writable = true := hR.writable
  have hlt := f.size_lt
  have hb52 : b < 2 ^ 52 := by omega
  rw [single_write hc hw (by omega) (served_holding.mpr (hR.served b hf)), imageWritePhysicalMember,
    if_neg (by rw [hc]; norm_num), holding_dev, ByteFile.write_def, ByteFile.offsetOf_of_lt hb52]
  by_cases hoff : b * 4096 + 4096 < 2 ^ 63
  · obtain ⟨f', hwrite⟩ := ByteFile.writeAll_total hk hoff buf
    obtain ⟨hk', hs', hb'⟩ := ByteFile.writeAll_blocks hwrite
    rw [hwrite]
    refine Ends.ok ⟨f', hk'.trans hk, ?_, hb', ?_⟩
    · rw [hs', hsize]
      omega
    · simp only [Image.holding, Image.setDev, Function.update_self, Function.update_idem]
  · have hfail : f.writeAll (b * 4096) buf = (.error (.sys .EINVAL), f) :=
      dif_pos (Nat.not_lt.mp hoff)
    rw [hfail]
    exact Ends.error (hR.allowed.long (by omega))

theorem AtTarget.write_ends (h : AtTarget T table c top img) (hR : Ready E host T final)
    {call : Call} {b : Nat} {buf : Block} (hb : b ≤ top + 1) (hf : b < final) :
    Ends E (host.writeImage call (imageWriteBlock b buf) img)
      (fun _ img' => AtTarget T table (Function.update c b buf) (max top (b + 1)) img') :=
  Host.call_ends (hR.allowed.denied call) (h.put_ends hR hb hf)

end Target

/-! ## 3. The data of a file -/

section Copy

variable {E : Fail → Prop} {host : Host} {source T : Image ByteFile} {table : Nat → Inode}
  {c g : Nat → Block} {lo final : Nat}

/-- The body of the two loops, for an address. -/
def copyAt (host : Host) (source : Image ByteFile) (dst a : Nat) :
    EStateM Fail (Image ByteFile) Nat := do
  let block ← host.read (.readData dst) fun _ => imageReadBlock source a
  host.writeImage (.writeData dst) (imageWriteBlock dst block)
  pure (addU64 dst 1)

/-- Where no address wraps, the two loops are one loop over the addresses. -/
theorem copyFileData_eq {node : ExtentNode} (hwrap : ∀ e ∈ enExtents node, ∀ k, k < eLen e →
      ePstart e + k < 2 ^ 64) (dst : Nat) :
    copyFileData host source node dst
      = (fileAddrs (enExtents node)).foldlM (copyAt host source) dst := by
  rw [copyFileData]
  generalize enExtents node = es at hwrap
  induction es generalizing dst with
  | nil => rfl
  | cons e es ih =>
    obtain ⟨he, hes⟩ := List.forall_mem_cons.mp hwrap
    have hmap : (List.range (eLen e)).map (fun k => ePstart e + k)
        = (List.range (eLen e)).map (addU64 (ePstart e)) := by
      refine List.map_congr_left fun k hk => ?_
      rw [addU64, Nat.mod_eq_of_lt (he k (List.mem_range.mp hk))]
    rw [List.foldlM_cons, fileAddrs, List.flatMap_cons, List.foldlM_append, hmap,
      List.foldlM_map]
    exact congrArg _ (funext fun dst' => ih dst' hes)

/-- **The copy loop** fills in the blocks it is given. -/
theorem copy_ends (hR : Ready E host T final) {addrs : List Nat} {data : List Block}
    (hreads : List.Forall₂ (fun a x => imageReadBlock source a = .ok x) addrs data) :
    ∀ {img : Image ByteFile} {dst top : Nat}, lo ≤ dst → dst ≤ top + 1 →
      dst + data.length ≤ final → (∀ i, i < data.length → g (dst + i) = data.getD i (zeros 4096)) →
      AtTarget T table (patch c g lo dst) top img →
      Ends E (addrs.foldlM (copyAt host source) dst img) fun _ img' =>
        AtTarget T table (patch c g lo (dst + data.length))
          (if data.length = 0 then top else max top (dst + data.length)) img' := by
  induction hreads with
  | nil =>
    intro img dst top _ _ _ _ hat
    exact Ends.pure hat
  | @cons a x addrs data hread _ ih =>
    intro img dst top hlo hdst hfin hg hat
    rw [List.length_cons] at hfin hg ⊢
    have hsmall := hR.small
    have hnext : addU64 dst 1 = dst + 1 := by
      rw [addU64]
      exact Nat.mod_eq_of_lt (by omega)
    rw [List.foldlM_cons]
    refine Ends.bind (Q := fun dst' img' => dst' = dst + 1 ∧
      AtTarget T table (patch c g lo (dst + 1)) (max top (dst + 1)) img') ?_ ?_
    · refine Host.read_bind (hR.allowed.denied _) hread ?_
      refine (hat.write_ends hR hdst (by omega)).bind fun _ img' hat' => ?_
      refine Ends.pure ⟨hnext, ?_⟩
      have hx : x = g dst := (hg 0 (Nat.succ_pos _)).symm
      rw [hx, patch_snoc c g hlo] at hat'
      exact hat'
    · rintro dst' img' ⟨rfl, hat'⟩
      refine (ih (by omega) (by omega) (by omega) (fun i hi => ?_) hat').mono fun _ s hs => ?_
      · rw [Nat.add_assoc, Nat.add_comm 1 i]
        exact hg (i + 1) (by omega)
      · rw [Nat.add_assoc, Nat.add_comm 1 data.length] at hs
        convert hs using 1
        split <;> split <;> omega

end Copy

/-! ## 4. The checksum chain of a file -/

section Chain

variable {E : Fail → Prop} {host : Host} {T : Image ByteFile} {table : Nat → Inode}
  {c g : Nat → Block} {lo final n start : Nat} {data : Nat → Block}

/-- One turn of the chain loop, for checksum block `j` of the chain from `csum` on. -/
def chainTurn (host : Host) (start n csum j : Nat) : EStateM Fail (Image ByteFile) Unit := do
  let sums ← (List.range (sumsIn n j)).mapM fun i => readSum host (start + (1020 * j + i))
  host.writeImage (.writeSum (csum + j)) (imageWriteBlock (csum + j)
    (sumsBlock sums (if 1020 < n - 1020 * j then csum + j + 1 else 0)))

/-- Where no address wraps, the chain loop is one turn after the other. -/
theorem writeChecksumChain_turn {csum j : Nat} (hstart : start + n < 2 ^ 64)
    (hcsum : csum + csumBlocks n < 2 ^ 64) (hj : j < csumBlocks n) :
    writeChecksumChain host (n - 1020 * j) (start + 1020 * j) (csum + j) = (do
      chainTurn host start n csum j
      writeChecksumChain host (n - 1020 * (j + 1)) (start + 1020 * (j + 1)) (csum + (j + 1))) := by
  have hmore : 1020 * j < n := by
    simp only [csumBlocks] at hj
    omega
  have hin : min checksumsPerBlock (n - 1020 * j) = sumsIn n j := rfl
  have hle : 1020 * j + sumsIn n j ≤ n := by
    simp only [sumsIn]
    omega
  have hnext : addU64 (csum + j) 1 = csum + j + 1 := by
    rw [addU64, Nat.mod_eq_of_lt (by omega)]
  have hmove : addU64 (start + 1020 * j) (sumsIn n j) = start + (1020 * j + sumsIn n j) := by
    rw [addU64, Nat.mod_eq_of_lt (by omega), Nat.add_assoc]
  have hreads : (List.range (sumsIn n j)).mapM (fun i => readSum host (addU64 (start + 1020 * j) i))
      = (List.range (sumsIn n j)).mapM fun i => readSum host (start + (1020 * j + i)) := by
    refine mapM_congr_left fun i hi => ?_
    rw [List.mem_range] at hi
    rw [addU64, Nat.mod_eq_of_lt (by omega), Nat.add_assoc]
  have hmark : n - 1020 * j > sumsIn n j ↔ 1020 < n - 1020 * j := by
    simp only [sumsIn]
    omega
  rw [writeChecksumChain, if_neg (by omega)]
  simp only [hin, hreads, hnext, hmove, hmark, chainTurn, bind_assoc]
  -- all but the last block are full, and behind the last nothing is left
  rcases Nat.lt_or_ge 1020 (n - 1020 * j) with hfull | hlast
  · have hstep : 1020 * j + sumsIn n j = 1020 * (j + 1) := by
      simp only [sumsIn]
      omega
    rw [Nat.sub_sub, hstep, Nat.add_assoc]
  · have hstep : 1020 * j + sumsIn n j = n := by
      simp only [sumsIn]
      omega
    have hdone : n - 1020 * (j + 1) = 0 := by omega
    rw [Nat.sub_sub, hstep, Nat.sub_self, hdone, writeChecksumChain, writeChecksumChain,
      if_pos rfl, if_pos rfl]

/-- **The rule of the chain loop**: what every turn takes one step further is at its end when the
loop is. -/
theorem writeChecksumChain_ends {csum : Nat} (hstart : start + n < 2 ^ 64)
    (hcsum : csum + csumBlocks n < 2 ^ 64) {I : Nat → Image ByteFile → Prop}
    (hturn : ∀ j img, j < csumBlocks n → I j img →
      Ends E (chainTurn host start n csum j img) fun _ img' => I (j + 1) img')
    {img : Image ByteFile} (h0 : I 0 img) :
    Ends E (writeChecksumChain host n start csum img) fun _ img' => I (csumBlocks n) img' := by
  have hrest : ∀ k j img, j + k = csumBlocks n → I j img →
      Ends E (writeChecksumChain host (n - 1020 * j) (start + 1020 * j) (csum + j) img)
        fun _ img' => I (csumBlocks n) img' := by
    intro k
    induction k with
    | zero =>
      intro j img hj hI
      rw [Nat.add_zero] at hj
      have hdone : n - 1020 * j = 0 := by
        simp only [csumBlocks] at hj
        omega
      rw [writeChecksumChain, if_pos hdone, ← hj]
      exact Ends.pure hI
    | succ k ih =>
      intro j img hj hI
      rw [writeChecksumChain_turn hstart hcsum (by omega)]
      exact (hturn j img (by omega) hI).bind fun _ img' hI' => ih (j + 1) img' (by omega) hI'
  exact hrest (csumBlocks n) 0 img (Nat.zero_add _) h0

/-- The sums of one checksum block are read off the data that has been copied. -/
theorem readSums_ends (hR : Ready E host T final) {img : Image ByteFile} {top first count : Nat}
    (hat : AtTarget T table (patch c g lo top) top img) (hlo : lo ≤ start)
    (hend : start + n ≤ top) (hfin : top ≤ final)
    (hdata : ∀ i, i < n → g (start + i) = data i) (hcount : first + count ≤ n) :
    Ends E ((List.range count).mapM
        (fun i => readSum host (start + (first + i))) img) fun sums img' =>
      sums = (List.range count).map (fun i => crc32cData (toList (data (first + i)))) ∧
        img' = img := by
  refine (Ends.mapM fun i hi => ?_).mono fun sums img' h => ⟨eq_map_of_forall₂ h.1, h.2⟩
  have hi := List.mem_range.mp hi
  have hread : imageReadBlock img (start + (first + i)) = .ok (data (first + i)) := by
    rw [hat.read hR (by omega) (by omega), patch, if_pos (by omega), hdata _ (by omega)]
  refine (Host.read_ends (Q := fun y s => y = data (first + i) ∧ s = img)
    (hR.allowed.denied _) hread ⟨rfl, rfl⟩).bind ?_
  rintro y s ⟨rfl, rfl⟩
  exact Ends.pure ⟨rfl, rfl⟩

/-- **The chain loop** fills in the chain. -/
theorem chain_ends (hR : Ready E host T final) (hlo : lo ≤ start)
    (hfin : start + n + csumBlocks n ≤ final) (hdata : ∀ i, i < n → g (start + i) = data i)
    (hchain : ∀ j, j < csumBlocks n →
      g (start + n + j) = chainBlock data n (start + n) j) {img : Image ByteFile}
    (hat : AtTarget T table (patch c g lo (start + n)) (start + n) img) :
    Ends E (writeChecksumChain host n start (start + n) img)
      fun _ img' => AtTarget T table (patch c g lo (start + n + csumBlocks n))
        (start + n + csumBlocks n) img' := by
  have hsmall := hR.small
  refine writeChecksumChain_ends (by omega) (by omega)
    (I := fun j img => AtTarget T table (patch c g lo (start + n + j)) (start + n + j) img) ?_ hat
  intro j img hj hat
  have hle : 1020 * j + sumsIn n j ≤ n := by
    simp only [sumsIn, csumBlocks] at hj ⊢
    omega
  refine (readSums_ends hR hat hlo (by omega) (by omega) hdata hle).bind ?_
  rintro sums img' ⟨rfl, rfl⟩
  have hblock : sumsBlock ((List.range (sumsIn n j)).map fun i =>
        crc32cData (toList (data (1020 * j + i))))
      (if 1020 < n - 1020 * j then start + n + j + 1 else 0) = g (start + n + j) :=
    (hchain j hj).symm
  rw [hblock]
  refine (hat.write_ends hR (by omega) (by omega)).mono fun _ img'' hat' => ?_
  rwa [patch_snoc c g (by omega), Nat.max_eq_right (Nat.le_succ _)] at hat'

end Chain

/-! ## 5. One turn of the inode loop -/

section Turn

variable {E : Fail → Prop} {host : Host} {source T img : Image ByteFile} {index final : Nat}

theorem Clean.node (h : Clean source) (hr : RegularAt source index) : ∃ node,
    readOnlyNode (imageReadBlock source) (iExtentRoot (source.inodeTable index)) = .ok node ∧
      enExtents node = fileExtents source index := by
  obtain ⟨refs, ts, free, hscrub⟩ := h.scrub
  obtain ⟨used, hfile⟩ := hscrub.file hr
  obtain ⟨-, -, node, rest, hnode, hnext, -⟩ := checkFile_iff.mp hfile
  obtain ⟨hread, hsum, hcount⟩ := readExtentNode_iff.mp hnode
  refine ⟨node, ?_, ?_⟩
  · rw [readOnlyNode, hread, ok_bind, failIf_of_not (not_not.mpr hsum), ok_bind, failIf_of_not,
      ok_bind]
    simp only [hnext, extentLogMax]
    omega
  · rw [fileExtents, hread]

/-- **A file is laid out**: data, chain, extent node, and the inode. -/
theorem layOut_ends (h : Clean source) (hR : Ready E host T final) (hr : RegularAt source index)
    {node : ExtentNode} (hnode : enExtents node = fileExtents source index) {data : List Block}
    (hdata : fileData source index = .ok data) (hpos : 0 < data.length) {q : Placed}
    (hat : AtTarget T q.table q.content q.next img) (hfin : q.next + span data.length ≤ final) :
    Ends E ((do
        let _ ← copyFileData host source node (q.next + 1)
        writeChecksumChain host data.length (q.next + 1) (q.next + 1 + data.length)
        host.writeImage (.writeNode q.next) (imageWriteBlock q.next
          (newExtents (q.next + 1) (q.next + 1 + data.length) data.length))
        modify (rootInode index q.next)
        pure (q.next + span data.length)) img) fun next img' =>
      next = q.next + span data.length ∧
        AtTarget T (Function.update q.table index (setExtentRoot (q.table index) q.next))
          (putFile q.content q.next data) next img' := by
  have hspan : span data.length = 1 + data.length + csumBlocks data.length := rfl
  let g : Nat → Block := fun b => fileBlock q.next data (b - q.next)
  have hg : ∀ i, i < data.length → g (q.next + 1 + i) = data.getD i (zeros 4096) := by
    intro i hi
    simp only [g, fileBlock]
    rw [if_neg (by omega), if_pos (by omega), Nat.add_assoc, Nat.add_sub_cancel_left,
      Nat.add_sub_cancel_left]
  have hchain : ∀ j, j < csumBlocks data.length → g (q.next + 1 + data.length + j)
      = chainBlock (fun i => data.getD i (zeros 4096)) data.length (q.next + 1 + data.length) j := by
    intro j hj
    simp only [g, fileBlock]
    rw [if_neg (by omega), if_neg (by omega)]
    congr 1
    omega
  have hwrap : ∀ e ∈ enExtents node, ∀ k, k < eLen e → ePstart e + k < 2 ^ 64 := by
    intro e he k hk
    rw [hnode] at he
    exact Nat.lt_trans (h.addr_within hr he hk).2 h.lt
  have hreads : List.Forall₂ (fun a x => imageReadBlock source a = .ok x)
      (fileAddrs (enExtents node)) data := by
    rw [hnode]
    exact mapM_eq_ok.mp hdata
  rw [copyFileData_eq hwrap]
  have hstart : AtTarget T q.table (patch q.content g (q.next + 1) (q.next + 1)) q.next img := by
    rw [patch_empty]
    exact hat
  refine (copy_ends hR hreads (Nat.le_refl _) (Nat.le_refl _) (by omega) hg hstart).bind
    fun _ img1 hat1 => ?_
  rw [if_neg (Nat.pos_iff_ne_zero.mp hpos), Nat.max_eq_right (by omega)] at hat1
  refine (chain_ends hR (Nat.le_refl _) (by omega) hg hchain hat1).bind fun _ img2 hat2 => ?_
  refine (hat2.write_ends hR (by omega) (by omega)).bind fun _ img3 hat3 => ?_
  have hroot : newExtents (q.next + 1) (q.next + 1 + data.length) data.length = g q.next := by
    simp only [g, fileBlock, Nat.sub_self, if_true]
  rw [hroot, patch_cons q.content g (by omega), Nat.max_eq_left (by omega)] at hat3
  obtain ⟨f, hk, hsize, hblocks, rfl⟩ := hat3
  have htop : q.next + 1 + data.length + csumBlocks data.length = q.next + span data.length := by
    omega
  rw [htop] at hsize hblocks
  exact Ends.ok ⟨rfl, f, hk, hsize, hblocks, rfl⟩

/-- The target has the inodes of the source, but for the extent roots that have been set. -/
structure SameFiles (source T : Image ByteFile) : Prop where
  bitmap : T.inodeBitmap = source.inodeBitmap
  blocks : T.blocks = source.blocks

theorem place_some {files : Nat → Option (List Block)} {q : Placed} {data : List Block}
    (hfile : files index = some data) (hpos : 0 < data.length) : place files q index =
      ⟨q.next + span data.length,
        Function.update q.table index (setExtentRoot (q.table index) q.next),
        putFile q.content q.next data⟩ := by
  rw [place, hfile]
  exact if_neg (Nat.pos_iff_ne_zero.mp hpos)

theorem span_addresses {next n : Nat} (h : next + span n < 2 ^ 64) :
    addU64 next 1 = next + 1 ∧ addU64 (next + 1) n = next + 1 + n ∧
      addU64 n (checksumsPerBlock - 1) / checksumsPerBlock = csumBlocks n ∧
      addU64 (next + 1 + n) (csumBlocks n) = next + span n := by
  simp only [addU64, checksumsPerBlock, span, csumBlocks] at h ⊢
  refine ⟨?_, ?_, ?_, ?_⟩
  all_goals omega

/-- **One turn of the inode loop is one step of the compaction.** -/
theorem compactInode_ends (h : Clean source) (hR : Ready E host T final)
    (hsame : SameFiles source T) (hle : final ≤ T.blocks) {q : Placed} (h1 : 1 ≤ index)
    (hindex : index < maxInodes) (htable : q.table index = source.inodeTable index)
    (hfin : (place (files source) q index).next ≤ final)
    (hat : AtTarget T q.table q.content q.next img) :
    Ends E (compactInode host source q.next index img) fun next img' =>
      next = (place (files source) q index).next ∧
        AtTarget T (place (files source) q index).table (place (files source) q index).content
          next img' := by
  have hbit : img.inodeBitmap = source.inodeBitmap := by
    obtain ⟨f, -, -, -, rfl⟩ := hat
    exact hsame.bitmap
  have hino : img.inodeTable index = source.inodeTable index := by
    obtain ⟨f, -, -, -, rfl⟩ := hat
    exact htable
  have hblocks : img.blocks = T.blocks := by
    obtain ⟨f, -, -, -, rfl⟩ := hat
    rfl
  have hsmall := hR.small
  rw [compactInode]
  refine Ends.bind (Q := fun t s => t = img ∧ s = img) (Ends.ok ⟨rfl, rfl⟩) ?_
  intro t s hts
  rw [hts.1, hts.2]
  by_cases hr : RegularAt source index
  · obtain ⟨data, hdata, hlen, -⟩ := h.data hr
    have hfile : files source index = some data := files_eq_some.mpr ⟨h1, hr, hdata⟩
    rw [if_neg (by rw [hbit, hr.2.1]; simp), if_neg (by rw [hino]; exact not_not.mpr hr.2.2)]
    split
    · rename_i hzero
      have hplace : place (files source) q index = { q with
          table := Function.update q.table index (setExtentRoot (q.table index) 0) } := by
        rw [place, hfile]
        exact if_pos (hlen.trans hzero)
      rw [hplace]
      obtain ⟨f, hk, hsize, hc, rfl⟩ := hat
      refine Ends.bind (Q := fun _ s => AtTarget T (Function.update q.table index
        (setExtentRoot (q.table index) 0)) q.content q.next s) (Ends.ok ⟨f, hk, hsize, hc, rfl⟩) ?_
      intro _ s hs
      exact Ends.pure ⟨rfl, hs⟩
    · rename_i hne
      have hpos : 0 < data.length := by omega
      rw [place_some hfile hpos] at hfin ⊢
      obtain ⟨node, hread, hnode⟩ := h.node hr
      simp only at hfin
      obtain ⟨hstart, hcsum, hcount, hnext⟩ :=
        @span_addresses q.next data.length (by omega)
      simp only [← hlen, hstart, hcsum, hcount, hnext]
      refine Host.read_bind (hR.allowed.denied _) hread (refuseIf_bind ?_ ?_)
      · rw [← hlen, hstart, hcsum, hcount, hnext, hblocks]
        omega
      · exact layOut_ends h hR hr hnode hdata hpos hat hfin
  · have hfile : files source index = none := by
      rw [files, if_neg fun hboth => hr hboth.2]
    have hplace : place (files source) q index = q := by
      rw [place, hfile]
    rw [hplace]
    split
    · exact Ends.pure ⟨rfl, hat⟩
    · rename_i hset
      rw [if_pos]
      · exact Ends.pure ⟨rfl, hat⟩
      · intro hreg
        rw [hbit] at hset
        rw [hino] at hreg
        exact hr ⟨hindex, by simpa using hset, hreg⟩

end Turn

/-! ## 6. The inode loop -/

section Loop

variable {E : Fail → Prop} {host : Host} {source T img : Image ByteFile} {final : Nat} {p : Placed}

/-- **The inode loop is the compaction**, up to any index. -/
theorem compactInodes_ends (h : Clean source) (hR : Ready E host T final)
    (hsame : SameFiles source T) (hle : final ≤ T.blocks)
    (htable : ∀ j, p.table j = source.inodeTable j) {K : Nat} (hK : K < maxInodes)
    (hfin : (placed (files source) p K).next ≤ final)
    (hat : AtTarget T p.table p.content p.next img) :
    Ends E ((List.range' 1 K).foldlM (compactInode host source) p.next img) fun next img' =>
      next = (placed (files source) p K).next ∧
        AtTarget T (placed (files source) p K).table (placed (files source) p K).content next
          img' := by
  let I : List Nat → Nat → Image ByteFile → Prop := fun l next img => ∃ k m, k + m = K ∧
    l = List.range' (k + 1) m ∧ next = (placed (files source) p k).next ∧
    AtTarget T (placed (files source) p k).table (placed (files source) p k).content next img
  have hloop : Ends E ((List.range' 1 K).foldlM (compactInode host source) p.next img)
      fun next img' => I [] next img' := by
    refine Ends.foldlM I ?_ ⟨0, K, Nat.zero_add K, rfl, rfl, hat⟩
    rintro index l next s ⟨k, m, hkm, hl, rfl, hs⟩
    cases m with
    | zero => exact absurd hl (by simp)
    | succ m =>
      rw [List.range'_succ] at hl
      obtain ⟨rfl, rfl⟩ := List.cons.inj hl
      have hstep : k + 1 ≤ K := by omega
      have hmono : (place (files source) (placed (files source) p k) (k + 1)).next ≤
          (placed (files source) p K).next := placed_next_mono hstep
      have hnext : (place (files source) (placed (files source) p k) (k + 1)).next ≤ final :=
        hmono.trans hfin
      have hino : (placed (files source) p k).table (k + 1) = source.inodeTable (k + 1) :=
        (placed_table_other (Or.inr (Nat.lt_succ_self k))).trans (htable _)
      refine (compactInode_ends h hR hsame hle (Nat.succ_pos k) (by omega) hino hnext hs).mono ?_
      rintro next' s' ⟨rfl, hs'⟩
      exact ⟨k + 1, m, by omega, rfl, rfl, hs'⟩
  refine hloop.mono ?_
  rintro next s ⟨k, m, hkm, hl, rfl, hs⟩
  obtain rfl : m = 0 := by
    cases m with
    | zero => rfl
    | succ m => exact absurd hl (by simp [List.range'_succ])
  rw [Nat.add_zero] at hkm
  rw [← hkm]
  exact ⟨rfl, hs⟩

end Loop

/-! ## 7. The metadata -/

section Finish

variable {E : Fail → Prop} {host : Host} {T T' img img' : Image ByteFile} {table : Nat → Inode}
  {c : Nat → Block} {top final : Nat}

/-- What a target is ready for does not depend on its metadata. -/
theorem Ready.congr (hR : Ready E host T final) (hc : T'.memberCount = T.memberCount)
    (hw : T'.writable = T.writable) (hl : T'.poolLabel = T.poolLabel)
    (hm : T'.members = T.members) : Ready E host T' final :=
  ⟨hc.trans hR.single, hw.trans hR.writable,
    fun b hb => (served_congr hl fun _ => by rw [hm]).mpr (hR.served b hb), hR.small, hR.allowed⟩

/-- One of the four writers: it seals its record in memory and writes a block in front. -/
theorem Ready.writer_ends (hR : Ready E host T final) {x : EStateM Fail (Image ByteFile) Unit}
    {call : Call} {b : Nat} {buf : Block} (h : AtTarget T table c top img')
    (hx : x img = imageWriteBlock b buf img') (hb : b < top) (hf : b < final) :
    Ends E (host.writeImage call x img) fun _ s =>
      AtTarget T table (Function.update c b buf) top s := by
  refine Host.call_ends (hR.allowed.denied call) ?_
  rw [hx]
  refine (h.put_ends hR (by omega) hf).mono fun _ s hs => ?_
  rwa [Nat.max_eq_left hb] at hs

/-- **The four writers.** -/
theorem writeTarget_ends (hR : Ready E host T final) (hf : 8 ≤ final) (htop : 8 ≤ top)
    (hat : AtTarget T table c top img) :
    Ends E (writeTarget host img) fun _ s => AtTarget T.sealed table
      (Function.update (Function.update (Function.update (Function.update c
        2 (inodeTableBlock table)) 6 (sealAt T.freeExtents 12))
        1 (overlay (zeros 4096) 0 (sealAt T.super 44)))
        4 (overlay (zeros 4096) 0 (sealJournal T.journal))) top s := by
  have hR1 : Ready E host { T with freeExtents := sealAt T.freeExtents 12 } final :=
    hR.congr rfl rfl rfl rfl
  have hR2 : Ready E host { T with
      freeExtents := sealAt T.freeExtents 12, super := sealAt T.super 44 } final :=
    hR.congr rfl rfl rfl rfl
  have hR3 : Ready E host T.sealed final := hR.congr rfl rfl rfl rfl
  obtain ⟨f, hk, hsize, hc, rfl⟩ := hat
  refine Ends.bind (hR.writer_ends (b := 2) ⟨f, hk, hsize, hc, rfl⟩ rfl (by omega) (by omega)) ?_
  rintro _ _ ⟨f1, hk1, hs1, hc1, rfl⟩
  refine Ends.bind (hR1.writer_ends (b := 6) ⟨f1, hk1, hs1, hc1, rfl⟩ rfl (by omega)
    (by omega)) ?_
  rintro _ _ ⟨f2, hk2, hs2, hc2, rfl⟩
  refine Ends.bind (hR2.writer_ends (b := 1) ⟨f2, hk2, hs2, hc2, rfl⟩ rfl (by omega)
    (by omega)) ?_
  rintro _ _ ⟨f3, hk3, hs3, hc3, rfl⟩
  exact hR3.writer_ends (b := 4) ⟨f3, hk3, hs3, hc3, rfl⟩ rfl (by omega) (by omega)

/-- The records that are set after the loop, as the writers seal them. -/
theorem finishTarget_sealed {boot : Nat → Block} {next : Nat} (hfree : T.freeExtents = zeros 4096)
    (hsuper : T.super = slice (boot 1) 0 256) (hjournal : T.journal = slice (boot 4) 0 48)
    (hle : next ≤ T.blocks) (hlt : T.blocks < 2 ^ 64) :
    sealAt (finishTarget next T).freeExtents 12 = tailNode next T.blocks ∧
      sealAt (finishTarget next T).super 44
        = setFreeBlocks (slice (boot 1) 0 256) (T.blocks - next) ∧
      sealJournal (finishTarget next T).journal = cleanJournal (slice (boot 4) 0 48) := by
  have hsub : subU64 T.blocks next = T.blocks - next := by
    simp only [subU64]
    omega
  refine ⟨?_, ?_, ?_⟩
  · simp only [finishTarget, hfree, tailNode]
    split <;> rfl
  · simp only [finishTarget, hsub, hsuper]
    exact sealAt_sealAt _ _
  · simp only [finishTarget, hjournal]
    exact sealJournal_put32 _ _

end Finish

end AetherFs
