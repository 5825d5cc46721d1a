/-
# Metadata deduplication of `dense.c`

Small pieces of metadata are kept once each, with a count of references, in 4096 chains that hang
off `dedup_hash_table`.  An entry that is not found is put in front of its chain; an entry whose
count falls to zero is taken out through the pointer to it (`prev`), be it in the table or in the
entry before.

What this component is FOR is a multiset of contents: to add one, to take one away, to ask for one.
`Rep` says how the table and the heap stand for such a multiset.  Each operation keeps it
(`Rep.add`, `Rep.release`), whatever shares a bucket with whatever.
-/
import AetherFs.Device
import AetherFs.Kernel.Crc
import AetherFs.Lib.Chain
import AetherFs.Lib.Machine

namespace AetherFs.Metadata

open Lib

/-! ## 1. The source -/

/-- `struct aetherfs_dedup_entry`; `data` are the `de_size` bytes in use of `de_data`. -/
structure DedupEntry where
  hash : Nat
  refcount : Nat
  size : Nat
  firstIno : Nat
  next : Nat
  data : List UInt8
deriving DecidableEq, Repr

/-- `dedup_hash_table`, and the entries of `dedup_cache` that are allocated. -/
structure DedupTable where
  table : Nat → Nat
  heap : Heap DedupEntry

/-- `dedup_hash`. -/
def dedupHash (data : List UInt8) : Nat := (kernelCrc32c 0xFFFFFFFF#32 data &&& 4095#32).toNat

/-- The comparison of the three loops. -/
def sameContent (data : List UInt8) (entry : DedupEntry) : Bool :=
  decide (entry.size = data.length ∧ entry.data = data)

/-- The loop: the entry of a content, and where the pointer to it is kept. -/
def find (t : DedupTable) (data : List UInt8) : Option (Option (Link × Nat × DedupEntry)) :=
  walk DedupEntry.next t.heap (sameContent data) t.heap.keys.card .root (t.table (dedupHash data))

/-- Write an entry. -/
def DedupTable.write (t : DedupTable) (a : Nat) (entry : DedupEntry) : DedupTable :=
  { t with heap := t.heap.insert a entry }

/-- `kmem_cache_free`. -/
def DedupTable.free (t : DedupTable) (a : Nat) : DedupTable := { t with heap := t.heap.erase a }

/-- `*prev = p`. -/
def DedupTable.setLink (t : DedupTable) (bucket : Nat) (prev : Link) (p : Nat) : DedupTable :=
  match prev with
  | .root => { t with table := Function.update t.table bucket p }
  | .cell a =>
    match t.heap.lookup a with
    | some entry => t.write a { entry with next := p }
    | none => t

/-- `aetherfs_dedup_metadata`; `addr` is what `kmem_cache_zalloc` gives.  Here and below, `none` is
a loop that does not end or follows a wild pointer. -/
def dedupMetadata (t : DedupTable) (addr ino : Nat) (data : List UInt8) :
    Option (Except Errno Unit × DedupTable) :=
  if data.length = 0 ∨ data.length > 128 then some (.error .EINVAL, t)
  else match find t data with
    | none => none
    | some (some (_, a, entry)) =>
      some (.ok (), t.write a { entry with refcount := (entry.refcount + 1) % 2 ^ 32 })
    | some none =>
      if addr = 0 then some (.error .ENOMEM, t)
      else
        let bucket := dedupHash data
        let t' := t.write addr ⟨bucket, 1, data.length, ino, t.table bucket, data⟩
        some (.ok (), t'.setLink bucket .root addr)

/-- `aetherfs_dedup_resolve`: the bytes of the entry. -/
def dedupResolve (t : DedupTable) (data : List UInt8) : Option (Except Errno (List UInt8)) :=
  if data.length = 0 then some (.error .EINVAL)
  else match find t data with
    | none => none
    | some (some (_, _, entry)) => some (.ok entry.data)
    | some none => some (.error .ENOENT)

/-- `aetherfs_dedup_release`. -/
def dedupRelease (t : DedupTable) (data : List UInt8) : Option (Except Errno Unit × DedupTable) :=
  if data.length = 0 then some (.error .EINVAL, t)
  else match find t data with
    | none => none
    | some (some (prev, a, entry)) =>
      let refs := (entry.refcount + (2 ^ 32 - 1)) % 2 ^ 32
      let t' := t.write a { entry with refcount := refs }
      some (.ok (), if refs = 0 then (t'.setLink (dedupHash data) prev entry.next).free a else t')
    | some none => some (.error .ENOENT, t)

/-! ## 2. The multiset it stands for -/

/-- How the entries hang together.  `chains` are the addresses of each bucket. -/
structure Chained (t : DedupTable) (chains : Nat → List Nat) : Prop where
  chain : ∀ h, ChainFrom DedupEntry.next t.heap (t.table h) (chains h)
  owned : ∀ a e, t.heap.lookup a = some e → a ∈ chains (dedupHash e.data)
  hashed : ∀ h a e, a ∈ chains h → t.heap.lookup a = some e → dedupHash e.data = h

/-- What the entries say: one for each content of the bag, with its number in the bag. -/
structure Counted (heap : Heap DedupEntry) (bag : Multiset (List UInt8)) : Prop where
  sized : ∀ a e, heap.lookup a = some e → e.size = e.data.length
  counted : ∀ a e, heap.lookup a = some e → e.refcount = bag.count e.data
  needed : ∀ a e, heap.lookup a = some e → e.data ∈ bag
  distinct : ∀ a b e e', heap.lookup a = some e → heap.lookup b = some e' → e.data = e'.data → a = b
  complete : ∀ d ∈ bag, ∃ a e, heap.lookup a = some e ∧ e.data = d

/-- **The table and the heap stand for the bag of contents.** -/
structure Rep (t : DedupTable) (bag : Multiset (List UInt8)) (chains : Nat → List Nat) : Prop where
  chained : Chained t chains
  counts : Counted t.heap bag
  bounded : ∀ d, bag.count d < 2 ^ 32

section Find

variable {t : DedupTable} {bag : Multiset (List UInt8)} {chains : Nat → List Nat} {d : List UInt8}

/-- Where sizes are right, an entry has the content that is compared. -/
theorem Counted.sameContent_iff {heap : Heap DedupEntry} (h : Counted heap bag) {a : Nat}
    {e : DedupEntry} (he : heap.lookup a = some e) : sameContent d e = true ↔ e.data = d := by
  rw [sameContent, decide_eq_true_eq]
  refine ⟨fun hboth => hboth.2, fun hd => ⟨?_, hd⟩⟩
  rw [h.sized a e he, hd]

/-- **What is not in the bag is not found.** -/
theorem Rep.find_absent (h : Rep t bag chains) (hd : d ∉ bag) : find t d = some none := by
  have hchain := h.chained.chain (dedupHash d)
  refine walk_none hchain (fun a ha e he => ?_) _ _ hchain.length_le
  cases hs : sameContent d e with
  | false => rfl
  | true =>
    have hdata := (h.counts.sameContent_iff he).mp hs
    exact absurd (hdata ▸ h.counts.needed a e he) hd

/-- **What is in the bag is found**, with the pointer to it. -/
theorem Rep.find_present (h : Rep t bag chains) (hd : d ∈ bag) : ∃ front back a e,
    t.heap.lookup a = some e ∧ e.data = d ∧ chains (dedupHash d) = front ++ a :: back ∧
      find t d = some (some (linkAfter .root front, a, e)) := by
  obtain ⟨a, e, he, hdata⟩ := h.counts.complete d hd
  have hmem := h.chained.owned a e he
  rw [hdata] at hmem
  obtain ⟨front, back, hsplit⟩ := List.append_of_mem hmem
  have hchain := h.chained.chain (dedupHash d)
  rw [hsplit] at hchain
  refine ⟨front, back, a, e, he, hdata, hsplit, ?_⟩
  refine walk_some hchain he ((h.counts.sameContent_iff he).mpr hdata) (fun b hb e' he' => ?_) _ _ ?_
  · -- another cell with the content would be the same cell
    cases hs : sameContent d e' with
    | false => rfl
    | true =>
      have hsame := (h.counts.sameContent_iff he').mp hs
      have hab := h.counts.distinct b a e' e he' he (hsame.trans hdata.symm)
      exact absurd hab ((List.nodup_append.mp hchain.nodup).2.2 b hb a List.mem_cons_self)
  · have hlen := hchain.length_le
    rw [List.length_append, List.length_cons] at hlen
    omega

end Find

/-! ## 3. What the writes do to the chains -/

section Chains

variable {t : DedupTable} {chains : Nat → List Nat}

/-- An entry is written over with one of the same content and link. -/
theorem Chained.rewrite (h : Chained t chains) {a : Nat} {e e' : DedupEntry}
    (he : t.heap.lookup a = some e) (hdata : e'.data = e.data) (hnext : e'.next = e.next) :
    Chained (t.write a e') chains := by
  have hold : ∀ c x, (t.write a e').heap.lookup c = some x →
      ∃ y, t.heap.lookup c = some y ∧ x.data = y.data := by
    intro c x hx
    rw [DedupTable.write, lookup_insert_ite] at hx
    split at hx
    · rename_i hc
      obtain rfl := Option.some.inj hx
      exact ⟨e, hc ▸ he, hdata⟩
    · exact ⟨x, hx, rfl⟩
  refine ⟨fun i => (h.chain i).congr fun c hc => ?_, fun c x hx => ?_, fun i c x hc hx => ?_⟩
  · rw [nextAt, nextAt, DedupTable.write, lookup_insert_ite]
    split
    · rename_i hca
      rw [hca, he, Option.map_some, Option.map_some, hnext]
    · rfl
  · obtain ⟨y, hy, hxy⟩ := hold c x hx
    rw [hxy]
    exact h.owned c y hy
  · obtain ⟨y, hy, hxy⟩ := hold c x hx
    rw [hxy]
    exact h.hashed i c y hc hy

theorem Chained.push (h : Chained t chains) {addr : Nat} {e : DedupEntry} (haddr : addr ≠ 0)
    (hfresh : t.heap.lookup addr = none) (hnext : e.next = t.table (dedupHash e.data)) :
    Chained ((t.write addr e).setLink (dedupHash e.data) .root addr)
      (Function.update chains (dedupHash e.data) (addr :: chains (dedupHash e.data))) := by
  have hout : ∀ i, addr ∉ chains i := by
    intro i hmem
    obtain ⟨x, hx⟩ := (h.chain i).lookup hmem
    rw [hfresh] at hx
    exact absurd hx (by simp)
  have hcong : ∀ i, ChainFrom DedupEntry.next (t.heap.insert addr e) (t.table i) (chains i) := by
    intro i
    refine (h.chain i).congr fun c hc => ?_
    have hne : c ≠ addr := fun heq => hout i (heq ▸ hc)
    rw [nextAt, nextAt, lookup_insert_ite, if_neg hne]
  refine ⟨fun i => ?_, fun c x hx => ?_, fun i c x hc hx => ?_⟩
  · simp only [DedupTable.setLink, DedupTable.write, Function.update_apply]
    split
    · rename_i hi
      refine ⟨rfl, haddr, e.next, ?_, hnext ▸ hi ▸ hcong i⟩
      rw [nextAt, lookup_insert_ite, if_pos rfl, Option.map_some]
    · exact hcong i
  · simp only [DedupTable.setLink, DedupTable.write, lookup_insert_ite] at hx
    split at hx
    · rename_i hc
      obtain rfl := Option.some.inj hx
      rw [Function.update_self, hc]
      exact List.mem_cons_self
    · rw [Function.update_apply]
      split
      · rename_i hsame
        exact List.mem_cons_of_mem _ (hsame ▸ h.owned c x hx)
      · exact h.owned c x hx
  · simp only [DedupTable.setLink, DedupTable.write, lookup_insert_ite] at hx
    rw [Function.update_apply] at hc
    split at hx
    · rename_i hca
      obtain rfl := Option.some.inj hx
      split at hc
      · rename_i hi
        exact hi.symm
      · exact absurd (hca ▸ hc) (hout i)
    · rename_i hca
      split at hc
      · rename_i hi
        rw [hi]
        exact h.hashed _ c x ((List.mem_cons.mp hc).resolve_left hca) hx
      · exact h.hashed i c x hc hx

theorem Chained.remove (h : Chained t chains) {t' : DedupTable} {a bucket : Nat} {rest : List Nat}
    (hcells : ∀ c x, t'.heap.lookup c = some x →
      c ≠ a ∧ ∃ y, t.heap.lookup c = some y ∧ x.data = y.data)
    (hrest : ∀ c, c ∈ rest ↔ c ∈ chains bucket ∧ c ≠ a)
    (hchain : ∀ i, ChainFrom DedupEntry.next t'.heap (t'.table i)
      (Function.update chains bucket rest i)) :
    Chained t' (Function.update chains bucket rest) := by
  refine ⟨hchain, fun c x hx => ?_, fun i c x hc hx => ?_⟩
  · obtain ⟨hca, y, hy, hxy⟩ := hcells c x hx
    rw [hxy, Function.update_apply]
    split
    · rename_i hb
      exact (hrest c).mpr ⟨hb ▸ h.owned c y hy, hca⟩
    · exact h.owned c y hy
  · obtain ⟨-, y, hy, hxy⟩ := hcells c x hx
    rw [hxy]
    rw [Function.update_apply] at hc
    split at hc
    · rename_i hb
      rw [hb]
      exact h.hashed _ c y ((hrest c).mp hc).1 hy
    · exact h.hashed i c y hc hy

end Chains

section Unlink

variable {t : DedupTable} {chains : Nat → List Nat} {a bucket p : Nat}

/-- The entry is the first of its chain: what is written to it is lost with it. -/
theorem free_setLink_root (t : DedupTable) (a bucket p : Nat) (e : DedupEntry) :
    ((t.write a e).setLink bucket .root p).free a =
      ⟨Function.update t.table bucket p, t.heap.erase a⟩ := by
  rw [DedupTable.setLink, DedupTable.free, DedupTable.write]
  refine congrArg (DedupTable.mk _) (Finmap.ext_lookup fun c => ?_)
  rw [lookup_erase_ite, lookup_erase_ite, lookup_insert_ite]
  split
  · rfl
  · rfl

theorem free_setLink_cell {b : Nat} {e eb : DedupEntry} (hb : t.heap.lookup b = some eb)
    (hne : b ≠ a) : ((t.write a e).setLink bucket (.cell b) p).free a =
      ⟨t.table, (t.heap.insert b { eb with next := p }).erase a⟩ := by
  have hb' : (t.write a e).heap.lookup b = some eb := by
    rw [DedupTable.write, lookup_insert_ite, if_neg hne]
    exact hb
  have hset : (t.write a e).setLink bucket (.cell b) p =
      (t.write a e).write b { eb with next := p } := by
    simp only [DedupTable.setLink, hb']
  rw [hset, DedupTable.free, DedupTable.write, DedupTable.write]
  refine congrArg (DedupTable.mk _) (Finmap.ext_lookup fun c => ?_)
  simp only [lookup_erase_ite, lookup_insert_ite]
  by_cases hc : c = a
  · rw [if_pos hc, if_pos hc]
  · rw [if_neg hc, if_neg hc, if_neg hc]

theorem Chained.unlink_root (h : Chained t chains) {back : List Nat} {e : DedupEntry}
    (he : t.heap.lookup a = some e) (hsplit : chains bucket = a :: back) :
    Chained ⟨Function.update t.table bucket e.next, t.heap.erase a⟩
      (Function.update chains bucket back) := by
  have hchain := h.chain bucket
  rw [hsplit] at hchain
  have hback := (List.nodup_cons.mp hchain.nodup).1
  refine h.remove (a := a) (fun c x hx => ?_) (fun c => ?_) fun i => ?_
  · rw [lookup_erase_ite] at hx
    split at hx
    · exact absurd hx (by simp)
    · rename_i hc
      exact ⟨hc, x, hx, rfl⟩
  · rw [hsplit]
    refine ⟨fun hc => ⟨List.mem_cons_of_mem _ hc, fun hca => hback (hca ▸ hc)⟩, fun hc => ?_⟩
    exact (List.mem_cons.mp hc.1).resolve_left hc.2
  · have hframe : ∀ {q : Nat} {as : List Nat}, ChainFrom DedupEntry.next t.heap q as → a ∉ as →
        ChainFrom DedupEntry.next (t.heap.erase a) q as := by
      intro q as hq ha
      refine hq.congr fun c hc => ?_
      have hca : c ≠ a := fun heq => ha (heq ▸ hc)
      rw [nextAt, nextAt, lookup_erase_ite, if_neg hca]
    simp only [Function.update_apply]
    split
    · exact hframe (hchain.tail he) hback
    · rename_i hi
      refine hframe (h.chain i) fun ha => hi ?_
      have hmem : a ∈ chains bucket := hsplit ▸ List.mem_cons_self
      exact (h.hashed i a e ha he).symm.trans (h.hashed bucket a e hmem he)

theorem Chained.unlink_cell (h : Chained t chains) {front back : List Nat} {b : Nat}
    {e eb : DedupEntry} (he : t.heap.lookup a = some e) (hb : t.heap.lookup b = some eb)
    (hsplit : chains bucket = front ++ b :: a :: back) :
    Chained ⟨t.table, (t.heap.insert b { eb with next := e.next }).erase a⟩
      (Function.update chains bucket (front ++ b :: back)) := by
  have hchain := h.chain bucket
  rw [hsplit] at hchain
  obtain ⟨-, hright, hcross⟩ := List.nodup_append.mp hchain.nodup
  obtain ⟨hbout, hright⟩ := List.nodup_cons.mp hright
  obtain ⟨haout, -⟩ := List.nodup_cons.mp hright
  have hba : b ≠ a := fun hba => hbout (hba ▸ List.mem_cons_self)
  have hfront : a ∉ front := fun ha =>
    hcross a ha a (List.mem_cons_of_mem _ List.mem_cons_self) rfl
  have hbfront : b ∉ front := fun hbf => hcross b hbf b List.mem_cons_self rfl
  -- the links of the cells other than `a` and `b` are as before
  have hsame : ∀ c, c ≠ a → c ≠ b →
      nextAt DedupEntry.next ((t.heap.insert b { eb with next := e.next }).erase a) c =
        nextAt DedupEntry.next t.heap c := by
    intro c hca hcb
    rw [nextAt, nextAt, lookup_erase_ite, if_neg hca, lookup_insert_ite, if_neg hcb]
  have hbnext : nextAt DedupEntry.next ((t.heap.insert b { eb with next := e.next }).erase a) b
      = some e.next := by
    rw [nextAt, lookup_erase_ite, if_neg hba, lookup_insert_ite, if_pos rfl, Option.map_some]
  refine h.remove (a := a) (fun c x hx => ?_) (fun c => ?_) fun i => ?_
  · rw [lookup_erase_ite] at hx
    split at hx
    · exact absurd hx (by simp)
    · rename_i hc
      rw [lookup_insert_ite] at hx
      split at hx
      · rename_i hcb
        obtain rfl := Option.some.inj hx
        exact ⟨hc, eb, hcb ▸ hb, rfl⟩
      · exact ⟨hc, x, hx, rfl⟩
  · rw [hsplit]
    simp only [List.mem_append, List.mem_cons]
    constructor
    · rintro (hc | rfl | hc)
      · exact ⟨Or.inl hc, fun hca => hfront (hca ▸ hc)⟩
      · exact ⟨Or.inr (Or.inl rfl), hba⟩
      · exact ⟨Or.inr (Or.inr (Or.inr hc)), fun hca => haout (hca ▸ hc)⟩
    · rintro ⟨hc | hc | hc | hc, hca⟩
      · exact Or.inl hc
      · exact Or.inr (Or.inl hc)
      · exact absurd hc hca
      · exact Or.inr (Or.inr hc)
  · rw [Function.update_apply]
    split
    · rename_i hi
      rw [hi]
      refine hchain.unlink (nextAt_of_lookup he) hbnext fun c hc => ?_
      rcases List.mem_append.mp hc with hc | hc
      · exact hsame c (fun hca => hfront (hca ▸ hc)) fun hcb => hbfront (hcb ▸ hc)
      · exact hsame c (fun hca => haout (hca ▸ hc)) fun hcb =>
          hbout (hcb ▸ List.mem_cons_of_mem _ hc)
    · rename_i hi
      refine (h.chain i).congr fun c hc => ?_
      have hother : ∀ c' e', c' ∈ chains bucket → t.heap.lookup c' = some e' → c ≠ c' := by
        rintro c' e' hc' he' rfl
        exact hi ((h.hashed i c e' hc he').symm.trans (h.hashed bucket c e' hc' he'))
      refine hsame c (hother a e ?_ he) (hother b eb ?_ hb)
      · rw [hsplit]
        exact List.mem_append_right _ (List.mem_cons_of_mem _ List.mem_cons_self)
      · rw [hsplit]
        exact List.mem_append_right _ List.mem_cons_self

end Unlink

/-! ## 4. What the writes do to the counts -/

section Counts

variable {heap : Heap DedupEntry} {bag bag' : Multiset (List UInt8)} {a : Nat} {e : DedupEntry}

/-- An entry is written over with one of the same content and, perhaps, another count. -/
theorem Counted.rewrite (h : Counted heap bag) {e' : DedupEntry} (he : heap.lookup a = some e)
    (hdata : e'.data = e.data) (hsize : e'.size = e.size)
    (hcount : e'.refcount = bag'.count e.data) (hpos : 0 < e'.refcount)
    (hother : ∀ d, d ≠ e.data → bag'.count d = bag.count d) :
    Counted (heap.insert a e') bag' := by
  have hmem : ∀ d, d ∈ bag' ↔ d ∈ bag := by
    intro d
    rw [← Multiset.count_pos, ← Multiset.count_pos]
    by_cases hd : d = e.data
    · rw [hd, ← hcount]
      exact iff_of_true hpos (Multiset.count_pos.mpr (h.needed a e he))
    · rw [hother d hd]
  have hold : ∀ c x, (heap.insert a e').lookup c = some x → ∃ y, heap.lookup c = some y ∧
      x.data = y.data ∧ x.size = y.size ∧ x.refcount = bag'.count y.data := by
    intro c x hx
    rw [lookup_insert_ite] at hx
    split at hx
    · rename_i hc
      obtain rfl := Option.some.inj hx
      exact ⟨e, hc ▸ he, hdata, hsize, hcount⟩
    · rename_i hc
      refine ⟨x, hx, rfl, rfl, ?_⟩
      rw [h.counted c x hx, hother]
      exact fun hd => hc (h.distinct c a x e hx he hd)
  refine ⟨fun c x hx => ?_, fun c x hx => ?_, fun c x hx => ?_, fun c c' x x' hx hx' hd => ?_,
    fun d hd => ?_⟩
  · obtain ⟨y, hy, hxd, hxs, -⟩ := hold c x hx
    rw [hxd, hxs]
    exact h.sized c y hy
  · obtain ⟨y, -, hxd, -, hxc⟩ := hold c x hx
    rw [hxd]
    exact hxc
  · obtain ⟨y, hy, hxd, -⟩ := hold c x hx
    rw [hxd, hmem]
    exact h.needed c y hy
  · obtain ⟨y, hy, hxd, -⟩ := hold c x hx
    obtain ⟨y', hy', hxd', -⟩ := hold c' x' hx'
    exact h.distinct c c' y y' hy hy' (hxd.symm.trans (hd.trans hxd'))
  · obtain ⟨c, y, hy, hyd⟩ := h.complete d ((hmem d).mp hd)
    by_cases hc : c = a
    · refine ⟨a, e', by rw [lookup_insert_ite, if_pos rfl], ?_⟩
      rw [hc, he] at hy
      obtain rfl := Option.some.inj hy
      exact hdata.trans hyd
    · exact ⟨c, y, by rw [lookup_insert_ite, if_neg hc, hy], hyd⟩

theorem Counted.push (h : Counted heap bag) (hd : e.data ∉ bag) (hfresh : heap.lookup a = none)
    (hsize : e.size = e.data.length) (hcount : e.refcount = 1) :
    Counted (heap.insert a e) (e.data ::ₘ bag) := by
  have hcases : ∀ c x, (heap.insert a e).lookup c = some x →
      (c = a ∧ x = e) ∨ (heap.lookup c = some x ∧ x.data ≠ e.data) := by
    intro c x hx
    rw [lookup_insert_ite] at hx
    split at hx
    · rename_i hc
      exact Or.inl ⟨hc, (Option.some.inj hx).symm⟩
    · exact Or.inr ⟨hx, fun hxd => hd (hxd ▸ h.needed c x hx)⟩
  refine ⟨fun c x hx => ?_, fun c x hx => ?_, fun c x hx => ?_, fun c c' x x' hx hx' hxd => ?_,
    fun d' hd' => ?_⟩
  · rcases hcases c x hx with ⟨-, rfl⟩ | ⟨hx, -⟩
    · exact hsize
    · exact h.sized c x hx
  · rcases hcases c x hx with ⟨-, rfl⟩ | ⟨hx, hne⟩
    · rw [Multiset.count_cons_self, Multiset.count_eq_zero.mpr hd, hcount]
    · rw [Multiset.count_cons_of_ne hne]
      exact h.counted c x hx
  · rcases hcases c x hx with ⟨-, rfl⟩ | ⟨hx, -⟩
    · exact Multiset.mem_cons_self _ _
    · exact Multiset.mem_cons_of_mem (h.needed c x hx)
  · rcases hcases c x hx with ⟨rfl, rfl⟩ | ⟨hx, hne⟩
    · rcases hcases c' x' hx' with ⟨rfl, -⟩ | ⟨-, hne'⟩
      · rfl
      · exact absurd hxd.symm hne'
    · rcases hcases c' x' hx' with ⟨-, rfl⟩ | ⟨hx', -⟩
      · exact absurd hxd hne
      · exact h.distinct c c' x x' hx hx' hxd
  · rcases Multiset.mem_cons.mp hd' with rfl | hd'
    · exact ⟨a, e, by rw [lookup_insert_ite, if_pos rfl], rfl⟩
    · obtain ⟨c, x, hx, hxd⟩ := h.complete d' hd'
      have hne : c ≠ a := by
        rintro rfl
        rw [hfresh] at hx
        exact absurd hx (by simp)
      exact ⟨c, x, by rw [lookup_insert_ite, if_neg hne, hx], hxd⟩

theorem Counted.erase (h : Counted heap bag) (he : heap.lookup a = some e)
    (hone : bag.count e.data = 1) : Counted (heap.erase a) (bag.erase e.data) := by
  have hgone : e.data ∉ bag.erase e.data := by
    rw [← Multiset.count_eq_zero, Multiset.count_erase_self, hone]
  have hcases : ∀ c x, (heap.erase a).lookup c = some x → heap.lookup c = some x ∧
      x.data ≠ e.data := by
    intro c x hx
    rw [lookup_erase_ite] at hx
    split at hx
    · exact absurd hx (by simp)
    · rename_i hc
      exact ⟨hx, fun hxd => hc (h.distinct c a x e hx he hxd)⟩
  refine ⟨fun c x hx => ?_, fun c x hx => ?_, fun c x hx => ?_, fun c c' x x' hx hx' hxd => ?_,
    fun d' hd' => ?_⟩
  · exact h.sized c x (hcases c x hx).1
  · obtain ⟨hx, hne⟩ := hcases c x hx
    rw [Multiset.count_erase_of_ne hne]
    exact h.counted c x hx
  · obtain ⟨hx, hne⟩ := hcases c x hx
    exact (Multiset.mem_erase_of_ne hne).mpr (h.needed c x hx)
  · exact h.distinct c c' x x' (hcases c x hx).1 (hcases c' x' hx').1 hxd
  · obtain ⟨c, x, hx, hxd⟩ := h.complete d' (Multiset.mem_of_mem_erase hd')
    have hne : c ≠ a := by
      rintro rfl
      rw [he] at hx
      obtain rfl := Option.some.inj hx
      exact hgone (hxd ▸ hd')
    exact ⟨c, x, by rw [lookup_erase_ite, if_neg hne, hx], hxd⟩

end Counts

/-! ## 5. The operations on the multiset -/

/-- An entry without its link. -/
def contentAt (heap : Heap DedupEntry) (a : Nat) : Option DedupEntry :=
  (heap.lookup a).map fun e => { e with next := 0 }

/-- The entries of every content but `d` are the same, links apart. -/
def Elsewhere (d : List UInt8) (heap heap' : Heap DedupEntry) : Prop :=
  ∀ a e, e.data ≠ d → (contentAt heap' a = some e ↔ contentAt heap a = some e)

section Elsewhere

variable {heap : Heap DedupEntry} {a : Nat} {e : DedupEntry} {d : List UInt8}

theorem Elsewhere.rewrite {e' : DedupEntry} (he : heap.lookup a = some e) (hd : e.data = d)
    (hd' : e'.data = d) : Elsewhere d heap (heap.insert a e') := by
  intro c x hx
  rw [contentAt, contentAt, lookup_insert_ite]
  split
  · rename_i hc
    rw [hc, he]
    refine iff_of_false (fun h => hx ?_) fun h => hx ?_
    · rw [← Option.some.inj h]
      exact hd'
    · rw [← Option.some.inj h]
      exact hd
  · exact Iff.rfl

theorem Elsewhere.push (hfresh : heap.lookup a = none) (hd : e.data = d) :
    Elsewhere d heap (heap.insert a e) := by
  intro c x hx
  rw [contentAt, contentAt, lookup_insert_ite]
  split
  · rename_i hc
    rw [hc, hfresh]
    refine iff_of_false (fun h => hx ?_) (by simp)
    rw [← Option.some.inj h]
    exact hd
  · exact Iff.rfl

theorem Elsewhere.erase (he : heap.lookup a = some e) (hd : e.data = d) :
    Elsewhere d heap (heap.erase a) := by
  intro c x hx
  rw [contentAt, contentAt, lookup_erase_ite]
  split
  · rename_i hc
    rw [hc, he]
    refine iff_of_false (by simp) fun h => hx ?_
    rw [← Option.some.inj h]
    exact hd
  · exact Iff.rfl

theorem contentAt_relink {b p : Nat} {eb : DedupEntry} (hb : heap.lookup b = some eb) (c : Nat) :
    contentAt (heap.insert b { eb with next := p }) c = contentAt heap c := by
  rw [contentAt, contentAt, lookup_insert_ite]
  split
  · rename_i hc
    rw [hc, hb, Option.map_some, Option.map_some]
  · rfl

end Elsewhere

section Operations

variable {t : DedupTable} {bag : Multiset (List UInt8)} {chains : Nat → List Nat} {d : List UInt8}

/-- **Adding a content.** -/
theorem Rep.add (h : Rep t bag chains) {addr ino : Nat} (haddr : addr ≠ 0)
    (hfresh : t.heap.lookup addr = none) (hne : d ≠ []) (hlen : d.length ≤ 128)
    (hroom : bag.count d + 1 < 2 ^ 32) : ∃ t' chains',
      dedupMetadata t addr ino d = some (.ok (), t') ∧ Rep t' (d ::ₘ bag) chains' ∧
        Elsewhere d t.heap t'.heap := by
  have hsize : ¬(d.length = 0 ∨ d.length > 128) := by
    rintro (h0 | h128)
    · exact hne (List.length_eq_zero_iff.mp h0)
    · exact absurd hlen (Nat.not_le.mpr h128)
  have hbounded : ∀ d', (d ::ₘ bag).count d' < 2 ^ 32 := by
    intro d'
    by_cases hd' : d' = d
    · rw [hd', Multiset.count_cons_self]
      exact hroom
    · rw [Multiset.count_cons_of_ne hd']
      exact h.bounded d'
  by_cases hd : d ∈ bag
  · obtain ⟨front, back, a, e, he, rfl, hsplit, hfind⟩ := h.find_present hd
    have hcount : (e.refcount + 1) % 2 ^ 32 = (e.data ::ₘ bag).count e.data := by
      rw [h.counts.counted a e he, Nat.mod_eq_of_lt hroom, Multiset.count_cons_self]
    refine ⟨t.write a { e with refcount := (e.refcount + 1) % 2 ^ 32 }, chains, ?_,
      ⟨h.chained.rewrite he rfl rfl, ?_, hbounded⟩, Elsewhere.rewrite he rfl rfl⟩
    · rw [dedupMetadata, if_neg hsize, hfind]
    · refine h.counts.rewrite he rfl rfl hcount ?_ fun d' hd' => ?_
      · exact hcount ▸ Multiset.count_pos.mpr (Multiset.mem_cons_self _ _)
      · exact Multiset.count_cons_of_ne hd' _
  · let e : DedupEntry := ⟨dedupHash d, 1, d.length, ino, t.table (dedupHash d), d⟩
    have hstep : dedupMetadata t addr ino d =
        some (.ok (), (t.write addr e).setLink (dedupHash d) .root addr) := by
      rw [dedupMetadata, if_neg hsize, h.find_absent hd]
      simp only [if_neg haddr, e]
    have hcounts : Counted (t.heap.insert addr e) (e.data ::ₘ bag) :=
      h.counts.push hd hfresh rfl rfl
    exact ⟨_, _, hstep, ⟨h.chained.push (e := e) haddr hfresh rfl, hcounts, hbounded⟩,
      Elsewhere.push hfresh rfl⟩

/-- **Taking away a content that is not there** does nothing. -/
theorem Rep.release_absent (h : Rep t bag chains) (hne : d ≠ []) (hd : d ∉ bag) :
    dedupRelease t d = some (.error .ENOENT, t) := by
  have hsize : d.length ≠ 0 := fun h0 => hne (List.length_eq_zero_iff.mp h0)
  rw [dedupRelease, if_neg hsize, h.find_absent hd]

/-- The last reference goes: the entry is taken out of its chain, wherever it is in it. -/
theorem Rep.release_last (h : Rep t bag chains) {front back : List Nat} {a : Nat} {e f : DedupEntry}
    (he : t.heap.lookup a = some e) (hsplit : chains (dedupHash e.data) = front ++ a :: back)
    (hone : bag.count e.data = 1) : ∃ chains',
      Rep (((t.write a f).setLink (dedupHash e.data) (linkAfter .root front) e.next).free a)
        (bag.erase e.data) chains' ∧
      Elsewhere e.data t.heap
        (((t.write a f).setLink (dedupHash e.data) (linkAfter .root front) e.next).free a).heap := by
  have hbounded : ∀ d', (bag.erase e.data).count d' < 2 ^ 32 := fun d' =>
    Nat.lt_of_le_of_lt (Multiset.count_le_of_le d' (Multiset.erase_le _ _)) (h.bounded d')
  rcases List.eq_nil_or_concat' front with rfl | ⟨front, b, rfl⟩
  · rw [linkAfter, free_setLink_root]
    exact ⟨_, ⟨h.chained.unlink_root he hsplit, h.counts.erase he hone, hbounded⟩,
      Elsewhere.erase he rfl⟩
  · rw [List.append_assoc, List.singleton_append] at hsplit
    have hchain := h.chained.chain (dedupHash e.data)
    rw [hsplit] at hchain
    have hba : b ≠ a := by
      rintro rfl
      have hright := (List.nodup_append.mp hchain.nodup).2.1
      exact (List.nodup_cons.mp hright).1 List.mem_cons_self
    obtain ⟨eb, hb⟩ := hchain.lookup (List.mem_append_right _ List.mem_cons_self)
    rw [linkAfter_append, free_setLink_cell hb hba]
    have hcounts : Counted (t.heap.insert b { eb with next := e.next }) bag := by
      have hpos : 0 < eb.refcount := by
        rw [h.counts.counted b eb hb]
        exact Multiset.count_pos.mpr (h.counts.needed b eb hb)
      exact h.counts.rewrite hb rfl rfl (h.counts.counted b eb hb) hpos fun _ _ => rfl
    have ha : (t.heap.insert b { eb with next := e.next }).lookup a = some e := by
      rw [lookup_insert_ite, if_neg hba.symm, he]
    refine ⟨_, ⟨h.chained.unlink_cell he hb hsplit, hcounts.erase ha hone, hbounded⟩, ?_⟩
    intro c x hx
    rw [Elsewhere.erase ha rfl c x hx, contentAt_relink hb]

/-- **Taking away a content.** -/
theorem Rep.release (h : Rep t bag chains) (hne : d ≠ []) (hd : d ∈ bag) : ∃ t' chains',
    dedupRelease t d = some (.ok (), t') ∧ Rep t' (bag.erase d) chains' ∧
      Elsewhere d t.heap t'.heap := by
  have hsize : d.length ≠ 0 := fun h0 => hne (List.length_eq_zero_iff.mp h0)
  obtain ⟨front, back, a, e, he, rfl, hsplit, hfind⟩ := h.find_present hd
  have hpos := Multiset.count_pos.mpr hd
  have hbound := h.bounded e.data
  have hrefs : (e.refcount + (2 ^ 32 - 1)) % 2 ^ 32 = bag.count e.data - 1 := by
    rw [h.counts.counted a e he]
    omega
  by_cases hone : bag.count e.data = 1
  · obtain ⟨chains', hrep, hels⟩ := h.release_last (f := { e with refcount := 0 }) he hsplit hone
    refine ⟨_, chains', ?_, hrep, hels⟩
    rw [dedupRelease, if_neg hsize, hfind]
    simp only [hrefs, hone, Nat.sub_self, if_true]
  · have hleft : bag.count e.data - 1 ≠ 0 := by omega
    refine ⟨t.write a { e with refcount := bag.count e.data - 1 }, chains, ?_,
      ⟨h.chained.rewrite he rfl rfl, ?_, fun d' => ?_⟩, Elsewhere.rewrite he rfl rfl⟩
    · rw [dedupRelease, if_neg hsize, hfind]
      simp only [hrefs, if_neg hleft]
    · refine h.counts.rewrite he rfl rfl ?_ (Nat.pos_of_ne_zero hleft) fun d' hd' => ?_
      · exact (Multiset.count_erase_self _ _).symm
      · exact Multiset.count_erase_of_ne hd' _
    · exact Nat.lt_of_le_of_lt (Multiset.count_le_of_le d' (Multiset.erase_le _ _)) (h.bounded d')

/-- **Asking for a content.** -/
theorem Rep.resolve (h : Rep t bag chains) (hne : d ≠ []) :
    dedupResolve t d = some (if d ∈ bag then .ok d else .error .ENOENT) := by
  have hsize : d.length ≠ 0 := fun h0 => hne (List.length_eq_zero_iff.mp h0)
  rw [dedupResolve, if_neg hsize]
  by_cases hd : d ∈ bag
  · obtain ⟨front, back, a, e, -, hdata, -, hfind⟩ := h.find_present hd
    rw [hfind, if_pos hd]
    simp only [hdata]
  · rw [h.find_absent hd, if_neg hd]

end Operations

/-! ## 6. All sequences of calls -/

/-- The hash table as it is before any call. -/
def DedupTable.empty : DedupTable := ⟨fun _ => 0, ∅⟩

/-- What `kmem_cache_zalloc` may give, and what may be added: a content of 1 to 128 bytes of which
fewer than 2^32 references are then outstanding. -/
structure CanAdd (t : DedupTable) (bag : Multiset (List UInt8)) (addr : Nat) (data : List UInt8) :
    Prop where
  allocated : addr ≠ 0
  fresh : t.heap.lookup addr = none
  some_bytes : data ≠ []
  short : data.length ≤ 128
  countable : bag.count data + 1 < 2 ^ 32

/-- The tables that sequences of calls lead to.  The bag has the contents of the adds that
succeeded, less those of the releases that succeeded. -/
inductive Reaches : DedupTable → Multiset (List UInt8) → Prop
  | start : Reaches DedupTable.empty 0
  | add {t t' : DedupTable} {bag : Multiset (List UInt8)} {addr ino : Nat} {data : List UInt8} :
      Reaches t bag → CanAdd t bag addr data →
        dedupMetadata t addr ino data = some (.ok (), t') → Reaches t' (data ::ₘ bag)
  | addFailed {t t' : DedupTable} {bag : Multiset (List UInt8)} {addr ino : Nat}
      {data : List UInt8} {err : Errno} : Reaches t bag → CanAdd t bag addr data →
        dedupMetadata t addr ino data = some (.error err, t') → Reaches t' bag
  | release {t t' : DedupTable} {bag : Multiset (List UInt8)} {data : List UInt8} :
      Reaches t bag → data ≠ [] → dedupRelease t data = some (.ok (), t') →
        Reaches t' (bag.erase data)
  | releaseFailed {t t' : DedupTable} {bag : Multiset (List UInt8)} {data : List UInt8}
      {err : Errno} : Reaches t bag → data ≠ [] →
        dedupRelease t data = some (.error err, t') → Reaches t' bag

theorem rep_empty : Rep DedupTable.empty 0 fun _ => [] := by
  have hnone : ∀ a, DedupTable.empty.heap.lookup a = none := fun a => Finmap.lookup_empty a
  have hno : ∀ {P : Prop} (a : Nat) (e : DedupEntry),
      DedupTable.empty.heap.lookup a = some e → P := by
    intro P a e he
    rw [hnone a] at he
    exact absurd he (by simp)
  refine ⟨⟨fun _ => rfl, fun a e he => hno a e he, fun _ a e _ he => hno a e he⟩,
    ⟨fun a e he => hno a e he, fun a e he => hno a e he, fun a e he => hno a e he,
      fun a _ e _ he => hno a e he, fun d hd => absurd hd (Multiset.notMem_zero d)⟩, fun d => ?_⟩
  rw [Multiset.count_zero]
  exact Nat.two_pow_pos 32

theorem CanAdd.dedupMetadata_ok {t : DedupTable} {bag : Multiset (List UInt8)} {addr : Nat}
    {d : List UInt8} {chains : Nat → List Nat} (h : CanAdd t bag addr d) (hrep : Rep t bag chains)
    (ino : Nat) : ∃ t' chains', dedupMetadata t addr ino d = some (.ok (), t') ∧
      Rep t' (d ::ₘ bag) chains' ∧ Elsewhere d t.heap t'.heap :=
  hrep.add h.allocated h.fresh h.some_bytes h.short h.countable

/-- **Every table that is reached stands for its bag.** -/
theorem Reaches.rep {t : DedupTable} {bag : Multiset (List UInt8)} (h : Reaches t bag) :
    ∃ chains, Rep t bag chains := by
  induction h with
  | start => exact ⟨_, rep_empty⟩
  | add _ hcan hcall ih =>
    obtain ⟨chains, hrep⟩ := ih
    obtain ⟨t₁, chains₁, hok, hrep₁, -⟩ := hcan.dedupMetadata_ok hrep _
    rw [hcall] at hok
    cases hok
    exact ⟨chains₁, hrep₁⟩
  | addFailed _ hcan hcall ih =>
    obtain ⟨chains, hrep⟩ := ih
    obtain ⟨t₁, chains₁, hok, -⟩ := hcan.dedupMetadata_ok hrep _
    rw [hcall] at hok
    cases hok
  | @release t t' bag d _ hne hcall ih =>
    obtain ⟨chains, hrep⟩ := ih
    by_cases hd : d ∈ bag
    · obtain ⟨t₁, chains₁, hok, hrep₁, -⟩ := hrep.release hne hd
      rw [hcall] at hok
      cases hok
      exact ⟨chains₁, hrep₁⟩
    · rw [hrep.release_absent hne hd] at hcall
      cases hcall
  | @releaseFailed t t' bag d err _ hne hcall ih =>
    obtain ⟨chains, hrep⟩ := ih
    by_cases hd : d ∈ bag
    · obtain ⟨t₁, chains₁, hok, -⟩ := hrep.release hne hd
      rw [hcall] at hok
      cases hok
    · rw [hrep.release_absent hne hd] at hcall
      cases hcall
      exact ⟨chains, hrep⟩

/-- **Metadata deduplication is a multiset with counts.**  Whatever calls were made, there is one
entry for each content that is outstanding, with its count; a content is resolved exactly when it
is outstanding, and released exactly then; every add succeeds; and no call touches the entries of
other contents, links apart. -/
theorem metadata_dedup_refines_multiset {t : DedupTable} {bag : Multiset (List UInt8)}
    (h : Reaches t bag) :
    (∀ a b e e', t.heap.lookup a = some e → t.heap.lookup b = some e' →
      e.size = e'.size → e.data = e'.data → a = b) ∧
    (∀ a e, t.heap.lookup a = some e →
      e.size = e.data.length ∧ e.refcount = bag.count e.data ∧ 0 < e.refcount) ∧
    (∀ d ∈ bag, ∃ a e, t.heap.lookup a = some e ∧ e.data = d) ∧
    (∀ d, d ≠ [] → dedupResolve t d = some (if d ∈ bag then .ok d else .error .ENOENT)) ∧
    (∀ d, d ≠ [] → ∃ t',
      dedupRelease t d = some (if d ∈ bag then .ok () else .error .ENOENT, t') ∧
        Elsewhere d t.heap t'.heap) ∧
    (∀ addr ino d, CanAdd t bag addr d → ∃ t',
      dedupMetadata t addr ino d = some (.ok (), t') ∧ Elsewhere d t.heap t'.heap) := by
  obtain ⟨chains, hrep⟩ := h.rep
  refine ⟨fun a b e e' he he' _ hd => hrep.counts.distinct a b e e' he he' hd, fun a e he => ?_,
    hrep.counts.complete, fun d hne => hrep.resolve hne, fun d hne => ?_,
    fun addr ino d hcan => ?_⟩
  · refine ⟨hrep.counts.sized a e he, hrep.counts.counted a e he, ?_⟩
    rw [hrep.counts.counted a e he]
    exact Multiset.count_pos.mpr (hrep.counts.needed a e he)
  · by_cases hd : d ∈ bag
    · obtain ⟨t', -, hok, -, hels⟩ := hrep.release hne hd
      rw [if_pos hd]
      exact ⟨t', hok, hels⟩
    · rw [if_neg hd]
      exact ⟨t, hrep.release_absent hne hd, fun _ _ _ => Iff.rfl⟩
  · obtain ⟨t', -, hok, -, hels⟩ := hcan.dedupMetadata_ok hrep ino
    exact ⟨t', hok, hels⟩

/-- After two adds both contents are resolved, and another is not. -/
theorem metadata_dedup_refines_multiset_two : ∃ t, Reaches t {[8], [7]} ∧
    dedupResolve t [7] = some (.ok [7]) ∧ dedupResolve t [8] = some (.ok [8]) ∧
      dedupResolve t [9] = some (.error .ENOENT) := by
  have hcan : CanAdd DedupTable.empty 0 1 [7] :=
    ⟨by decide, Finmap.lookup_empty 1, by simp, by decide, by decide⟩
  obtain ⟨t₁, chains, hcall, hrep, -⟩ := hcan.dedupMetadata_ok rep_empty 2
  obtain ⟨addr, haddr⟩ := Infinite.exists_notMem_finset (insert 0 t₁.heap.keys)
  rw [Finset.mem_insert, not_or, Finmap.mem_keys] at haddr
  have hcan' : CanAdd t₁ {[7]} addr [8] :=
    ⟨haddr.1, Finmap.lookup_eq_none.mpr haddr.2, by simp, by decide, by decide⟩
  obtain ⟨t, -, hcall', -⟩ := hcan'.dedupMetadata_ok hrep 3
  have hreach : Reaches t {[8], [7]} := (Reaches.start.add hcan hcall).add hcan' hcall'
  obtain ⟨-, -, -, hresolve, -⟩ := metadata_dedup_refines_multiset hreach
  refine ⟨t, hreach, ?_, ?_, ?_⟩
  · rw [hresolve [7] (by simp), if_pos (by decide)]
  · rw [hresolve [8] (by simp), if_pos (by decide)]
  · rw [hresolve [9] (by simp), if_neg (by decide)]

end AetherFs.Metadata
