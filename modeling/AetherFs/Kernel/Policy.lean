/-
# Policies by path, of `policy.c`

`aetherfs_set_policy` appends to a table of sixteen, with the first 255 bytes of the path;
`aetherfs_get_policy` takes the entry with the longest path that is a prefix of the path it is given,
byte by byte.

A lookup is meant to find the nearest ancestor.  Bytes are not components: `/home` is a prefix of
`/homework`, and `/home` itself can be written `//home`.  The two readings of the table part as soon
as a path other than `/` is registered (`root_of_right`).  Among paths in normal form it is only the
siblings that matter: a lookup is right exactly when every registered path that is a prefix without
being an ancestor is outdone by a longer ancestor.
-/
import AetherFs.Device
import AetherFs.Lib.Search

namespace AetherFs

open Lib

/-! ## 1. The source

A C string is the list of its bytes, without the terminator. -/

/-- `struct aetherfs_policy`. -/
structure Policy where
  path : List UInt8
  mode : UInt32
  compress : UInt32
  checksum : UInt32
  snapshot : UInt32
deriving DecidableEq, Repr

/-- What `strncpy(p->p_path, path, 255)` leaves of a path in an entry that was zero. -/
def Policy.stored (call : Policy) : Policy := { call with path := call.path.take 255 }

/-- `aetherfs_set_policy`, with its arguments in a record. -/
def setPolicy (policies : List Policy) (call : Policy) : Except Errno (List Policy) :=
  if policies.length ≥ 16 then .error .EINVAL else .ok (policies ++ [call.stored])

/-- The loop of `aetherfs_get_policy`.  `strncmp` over the length of `p_path` compares prefixes. -/
def policyLoop (path : List UInt8) : List Policy → Option Policy → Nat → Option Policy
  | [], bestMatch, _ => bestMatch
  | p :: rest, bestMatch, matchLen =>
    if p.path <+: path then
      if p.path.length > matchLen then policyLoop path rest (some p) p.path.length
      else policyLoop path rest bestMatch matchLen
    else policyLoop path rest bestMatch matchLen

/-- `aetherfs_get_policy`. -/
def getPolicy (policies : List Policy) (path : List UInt8) : Except Errno Policy :=
  match policyLoop path policies none 0 with
  | none => .error .ENOENT
  | some p => .ok p

/-- A sequence of calls of `aetherfs_set_policy`, on the empty table. -/
def setPolicies (calls : List Policy) : Except Errno (List Policy) := calls.foldlM setPolicy []

/-- The bytes of a text. -/
def bytes (text : List Char) : List UInt8 := text.map fun c => c.toNat.toUInt8

/-- The calls of `aetherfs_init_default_policies`; the numbers of the modes are not in the source. -/
def defaultPolicies (cow overwrite append : UInt32) : List Policy :=
  [⟨bytes ['/', 'v', 'a', 'r', '/', 'l', 'i', 'b', '/', 'v', 'm'], overwrite, 0, 1, 0⟩,
    ⟨bytes ['/', 'v', 'a', 'r', '/', 'l', 'i', 'b', '/', 'd', 'o', 'c', 'k', 'e', 'r'], cow, 0, 1, 1⟩,
    ⟨bytes ['/', 'h', 'o', 'm', 'e'], cow, 1, 1, 1⟩,
    ⟨bytes ['/', 's', 'r', 'v', '/', 'a', 'r', 'c', 'h', 'i', 'v', 'e'], cow, 2, 2, 1⟩,
    ⟨bytes ['/', 'v', 'a', 'r', '/', 'l', 'o', 'g'], append, 0, 0, 0⟩]

/-! ## 2. Paths -/

/-- An absolute path: a string that starts with a slash. -/
def Absolute (path : List UInt8) : Prop := path.head? = some 47 ∧ 0 ∉ path

/-- The components of a path: what lies between slashes. -/
def components (path : List UInt8) : List (List UInt8) :=
  (path.splitOn 47).filter fun c => decide (c ≠ [])

/-- `r` is `p` itself or an ancestor directory of it. -/
def Ancestor (r p : List UInt8) : Prop := components r <+: components p

instance (r p : List UInt8) : Decidable (Ancestor r p) := inferInstanceAs (Decidable (_ <+: _))

/-- The path with given components, in normal form. -/
def spell (comps : List (List UInt8)) : List UInt8 :=
  if comps = [] then [47] else comps.flatMap (47 :: ·)

/-- A path in normal form: one slash in front of each component, and none behind. -/
def NormalPath (path : List UInt8) : Prop := path = spell (components path)

instance (path : List UInt8) : Decidable (NormalPath path) := inferInstanceAs (Decidable (_ = _))

/-- **The nearest**: of the registered paths that are ancestors one with the most components, and the
earliest of these. -/
def Nearest (calls : List Policy) (p : List UInt8) (c : Policy) : Prop :=
  ∃ before after, calls = before ++ c :: after ∧ Ancestor c.path p ∧
    (∀ a ∈ before, Ancestor a.path p →
      (components a.path).length < (components c.path).length) ∧
    ∀ a ∈ after, Ancestor a.path p → (components a.path).length ≤ (components c.path).length

/-- A lookup in `policies`, the table after `calls`, is right. -/
structure LookupRight (calls policies : List Policy) (p : List UInt8) : Prop where
  found : ∀ c, Nearest calls p c → getPolicy policies p = .ok c.stored
  missing : getPolicy policies p = .error .ENOENT ↔ ∀ c ∈ calls, ¬ Ancestor c.path p

section Paths

variable {r p s : List UInt8} {cs ds : List (List UInt8)}

theorem components_slash (s : List UInt8) : components (47 :: s) = components s := by
  rw [components, components, List.splitOn, List.splitOnP_cons_eq_if_modifyHead,
    if_pos (beq_self_eq_true _)]
  rfl

/-- A path that is a prefix of itself behind a slash has nothing but slashes. -/
theorem forall_slash_of_match : ∀ {s : List UInt8}, s <+: 47 :: s → ∀ b ∈ s, b = 47
  | [], _, b, hb => absurd hb List.not_mem_nil
  | a :: s, h, b, hb => by
    obtain ⟨rfl, htail⟩ := List.cons_prefix_cons.mp h
    rcases List.mem_cons.mp hb with rfl | hb
    · rfl
    · exact forall_slash_of_match htail b hb

theorem components_of_forall_slash : ∀ {s : List UInt8}, (∀ b ∈ s, b = 47) → components s = []
  | [], _ => rfl
  | a :: s, h => by
    obtain ⟨rfl, hs⟩ := List.forall_mem_cons.mp h
    rw [components_slash]
    exact components_of_forall_slash hs

theorem spell_mono (h : cs <+: ds) : spell cs <+: spell ds := by
  obtain ⟨rest, rfl⟩ := h
  cases cs with
  | nil =>
    cases rest with
    | nil => exact List.prefix_rfl
    | cons d rest => exact ⟨d ++ rest.flatMap (47 :: ·), rfl⟩
  | cons c cs =>
    refine ⟨rest.flatMap (47 :: ·), ?_⟩
    rw [spell, spell, if_neg (List.cons_ne_nil c cs), if_neg (by simp), List.flatMap_append]

theorem NormalPath.match_of_ancestor (hr : NormalPath r) (hp : NormalPath p) (h : Ancestor r p) :
    r <+: p := by
  rw [hr, hp]
  exact spell_mono h

theorem Absolute.pos (h : Absolute p) : 0 < p.length := by
  cases p with
  | nil => exact absurd h.1 (by simp)
  | cons a p => exact Nat.succ_pos _

theorem Absolute.starts_with_slash (h : Absolute p) : [47] <+: p := by
  obtain ⟨hhead, -⟩ := h
  cases p with
  | nil => exact absurd hhead (by simp)
  | cons a p =>
    obtain rfl := Option.some.inj hhead
    exact ⟨p, rfl⟩

theorem Absolute.slash (h : Absolute p) : Absolute (47 :: p) := by
  refine ⟨rfl, fun hmem => ?_⟩
  rcases List.mem_cons.mp hmem with h0 | hmem
  · exact absurd h0 (by decide)
  · exact h.2 hmem

theorem Absolute.take (h : Absolute p) {n : Nat} (hn : 0 < n) : Absolute (p.take n) := by
  refine ⟨?_, fun hmem => h.2 (List.mem_of_mem_take hmem)⟩
  rw [List.head?_take, if_neg (Nat.pos_iff_ne_zero.mp hn)]
  exact h.1

end Paths

/-! ## 3. The loop -/

section Lookup

variable {calls policies : List Policy} {p : List UInt8} {c : Policy}

/-- What a table entry counts for in a lookup. -/
def pathKey (p : List UInt8) (c : Policy) : Nat := if c.path <+: p then c.path.length else 0

/-- What a registered path should count for. -/
def depthKey (p : List UInt8) (c : Policy) : Nat :=
  if Ancestor c.path p then (components c.path).length + 1 else 0

theorem pathKey_of_match (h : c.path <+: p) : pathKey p c = c.path.length := if_pos h

theorem depthKey_of_ancestor (h : Ancestor c.path p) :
    depthKey p c = (components c.path).length + 1 := if_pos h

theorem match_of_pathKey_pos (h : 0 < pathKey p c) : c.path <+: p := by
  by_contra hno
  rw [pathKey, if_neg hno] at h
  exact absurd h (Nat.lt_irrefl 0)

theorem ancestor_of_depthKey_pos (h : 0 < depthKey p c) : Ancestor c.path p := by
  by_contra hno
  rw [depthKey, if_neg hno] at h
  exact absurd h (Nat.lt_irrefl 0)

theorem policyLoop_eq (p : List UInt8) : ∀ (l : List Policy) (best : Option Policy) (len : Nat),
    policyLoop p l best len = scanMax (pathKey p) l best len
  | [], _, _ => rfl
  | a :: l, best, len => by
    rw [policyLoop, scanMax, pathKey]
    by_cases h : a.path <+: p
    · rw [if_pos h, if_pos h, policyLoop_eq p l, policyLoop_eq p l]
    · rw [if_neg h, if_neg h, if_neg (Nat.not_lt_zero len), policyLoop_eq p l]

theorem getPolicy_eq_ok_iff : getPolicy policies p = .ok c ↔ FirstMax (pathKey p) policies c := by
  rw [← scanMax_eq_some_iff, getPolicy, policyLoop_eq]
  cases scanMax (pathKey p) policies none 0 with
  | none => simp
  | some d => simp

theorem getPolicy_eq_error_iff :
    getPolicy policies p = .error .ENOENT ↔ ∀ a ∈ policies, pathKey p a = 0 := by
  rw [← scanMax_eq_none_iff, getPolicy, policyLoop_eq]
  cases scanMax (pathKey p) policies none 0 with
  | none => simp
  | some d => simp

theorem setPolicies_eq (h : calls.length ≤ 16) :
    setPolicies calls = .ok (calls.map Policy.stored) := by
  have hrest : ∀ (l acc : List Policy), acc.length + l.length ≤ 16 →
      l.foldlM setPolicy acc = (.ok (acc ++ l.map Policy.stored) : Except Errno _) := by
    intro l
    induction l with
    | nil =>
      intro acc _
      rw [List.map_nil, List.append_nil]
      rfl
    | cons c l ih =>
      intro acc hlen
      rw [List.length_cons] at hlen
      have hstep : setPolicy acc c = .ok (acc ++ [c.stored]) := if_neg (by omega)
      have hroom : (acc ++ [c.stored]).length + l.length ≤ 16 := by
        rw [List.length_append, List.length_singleton]
        omega
      rw [List.foldlM_cons, hstep, ok_bind, ih _ hroom, List.map_cons, List.append_assoc]
      rfl
  exact hrest calls [] (by rwa [List.length_nil, Nat.zero_add])

theorem nearest_iff : Nearest calls p c ↔ FirstMax (depthKey p) calls c := by
  constructor
  · rintro ⟨before, after, rfl, hc, hb, ha⟩
    refine ⟨before, after, rfl, ?_, fun a hmem => ?_, fun a hmem => ?_⟩
    · rw [depthKey_of_ancestor hc]
      exact Nat.succ_pos _
    · rw [depthKey_of_ancestor hc, depthKey]
      split
      · rename_i h
        exact Nat.succ_lt_succ (hb a hmem h)
      · exact Nat.succ_pos _
    · rw [depthKey_of_ancestor hc, depthKey]
      split
      · rename_i h
        exact Nat.succ_le_succ (ha a hmem h)
      · exact Nat.zero_le _
  · rintro ⟨before, after, rfl, hpos, hb, ha⟩
    have hc := ancestor_of_depthKey_pos hpos
    refine ⟨before, after, rfl, hc, fun a hmem h => ?_, fun a hmem h => ?_⟩
    · have := hb a hmem
      rw [depthKey_of_ancestor hc, depthKey_of_ancestor h] at this
      exact Nat.lt_of_succ_lt_succ this
    · have := ha a hmem
      rw [depthKey_of_ancestor hc, depthKey_of_ancestor h] at this
      exact Nat.le_of_succ_le_succ this

theorem exists_nearest (hmem : c ∈ calls) (h : Ancestor c.path p) : ∃ d, Nearest calls p d := by
  have hpos : 0 < depthKey p c := by
    rw [depthKey_of_ancestor h]
    exact Nat.succ_pos _
  obtain ⟨d, hd⟩ := exists_firstMax hmem hpos
  exact ⟨d, nearest_iff.mpr hd⟩

theorem Nearest.congr {q : List UInt8} (h : Nearest calls p c) (hsame : components q = components p) :
    Nearest calls q c := by
  unfold Nearest Ancestor at h ⊢
  rwa [hsame]

/-- A right lookup that finds something has found the nearest. -/
theorem LookupRight.nearest {out : Policy} (h : LookupRight calls policies p)
    (hout : getPolicy policies p = .ok out) : ∃ d, Nearest calls p d ∧ out = d.stored := by
  have hany : ∃ d ∈ calls, Ancestor d.path p := by
    by_contra hno
    push Not at hno
    rw [h.missing.mpr hno] at hout
    exact absurd hout (by simp)
  obtain ⟨d0, hmem, hanc⟩ := hany
  obtain ⟨d, hd⟩ := exists_nearest hmem hanc
  refine ⟨d, hd, ?_⟩
  rw [h.found d hd] at hout
  exact (Except.ok.inj hout).symm

/-! ## 4. All paths -/

/-- **What right lookups of all paths need.**  The path of an entry, looked up as it stands, with one
more slash in front, and as `/` where it has no components, names one directory; the entry must be a
prefix of all three. -/
theorem root_of_right (habs : ∀ c ∈ calls, Absolute c.path)
    (h : ∀ p, Absolute p → LookupRight calls (calls.map Policy.stored) p) :
    ∀ c ∈ calls, c.path = [47] := by
  intro c hc
  generalize hs : c.stored.path = s
  have hsabs : Absolute s := by
    rw [← hs]
    exact (habs c hc).take (by norm_num)
  have hself : pathKey s c.stored = s.length := by rw [pathKey_of_match (hs ▸ List.prefix_rfl), hs]
  -- looked up as it stands, the path finds an entry with this very path
  obtain ⟨out, hout⟩ := @exists_firstMax _ (pathKey s) _ _ (List.mem_map_of_mem hc)
    (by rw [hself]; exact hsabs.pos)
  have hpath : out.path = s := by
    have hpre := match_of_pathKey_pos hout.pos
    have hle := hout.le _ (List.mem_map_of_mem hc)
    rw [hself, pathKey_of_match hpre] at hle
    exact hpre.eq_of_length_le hle
  obtain ⟨d, hd, rfl⟩ := (h s hsabs).nearest (getPolicy_eq_ok_iff.mpr hout)
  have hother : ∀ q, Absolute q → components q = components s → s <+: q := by
    intro q hq hsame
    have hfirst := getPolicy_eq_ok_iff.mp ((h q hq).found d (hd.congr hsame))
    rw [← hpath]
    exact match_of_pathKey_pos hfirst.pos
  have hslashes := forall_slash_of_match (hother _ hsabs.slash (components_slash s))
  have hroot := hother [47] ⟨rfl, by decide⟩ (by rw [components_of_forall_slash hslashes]; rfl)
  have hlength : c.path.length = 1 := by
    have h1 := hroot.length_le
    have h2 := (habs c hc).pos
    rw [← hs, Policy.stored, List.length_take, List.length_singleton] at h1
    omega
  exact (((habs c hc).starts_with_slash).eq_of_length hlength.symm).symm

/-- Where nothing but `/` is registered, every lookup finds the first entry. -/
theorem right_of_root (hroot : ∀ c ∈ calls, c.path = [47]) (hp : Absolute p) :
    LookupRight calls (calls.map Policy.stored) p := by
  have hstored : ∀ c ∈ calls, pathKey p c.stored = 1 := by
    intro c hc
    have hpath : c.stored.path = [47] := by rw [Policy.stored, hroot c hc]; rfl
    rw [pathKey_of_match (by rw [hpath]; exact hp.starts_with_slash), hpath]
    rfl
  have hanc : ∀ c ∈ calls, Ancestor c.path p := by
    intro c hc
    rw [hroot c hc]
    exact List.nil_prefix
  constructor
  · intro c hc
    have hfirst := nearest_iff.mp hc
    refine getPolicy_eq_ok_iff.mpr (hfirst.map ?_ ?_ ?_)
    · rw [hstored c hfirst.mem]
      exact Nat.one_pos
    · intro a ha
      rw [hstored a ha, hstored c hfirst.mem]
    · intro a ha _
      rw [depthKey_of_ancestor (hanc a ha), depthKey_of_ancestor (hanc c hfirst.mem), hroot a ha,
        hroot c hfirst.mem]
  · rw [getPolicy_eq_error_iff]
    constructor
    · intro h c hc _
      have := h _ (List.mem_map_of_mem hc)
      rw [hstored c hc] at this
      exact absurd this (by decide)
    · intro h a ha
      obtain ⟨c, hc, -⟩ := List.mem_map.mp ha
      exact absurd (hanc c hc) (h c hc)

/-! ## 5. Paths in normal form -/

theorem eq_of_matches {q r : List UInt8} (hq : q <+: p) (hr : r <+: p) (hlen : q.length = r.length) :
    q = r :=
  (List.prefix_of_prefix_length_le hq hr (Nat.le_of_eq hlen)).eq_of_length hlen

section Normal

variable (habs : ∀ c ∈ calls, Absolute c.path)
  (hnormal : ∀ c ∈ calls, NormalPath c.path ∧ c.path.length ≤ 255) (hp : NormalPath p)

include hnormal in
omit habs in
theorem stored_of_normal (hc : c ∈ calls) : c.stored = c := by
  rw [Policy.stored, List.take_of_length_le (hnormal c hc).2]

include hnormal hp in
omit habs in
theorem pathKey_of_ancestor (hc : c ∈ calls) (hanc : Ancestor c.path p) :
    pathKey p c = c.path.length :=
  pathKey_of_match ((hnormal c hc).1.match_of_ancestor hp hanc)

include hnormal in
omit habs in
theorem length_le_of_ancestors {d : Policy} (hc : c ∈ calls) (hd : d ∈ calls)
    (hca : Ancestor c.path p) (hda : Ancestor d.path p)
    (hlen : (components c.path).length ≤ (components d.path).length) :
    c.path.length ≤ d.path.length := by
  have hpre := List.prefix_of_prefix_length_le hca hda hlen
  exact ((hnormal c hc).1.match_of_ancestor (hnormal d hd).1 hpre).length_le

include habs hnormal hp

/-- What is found in place of a prefix that is no ancestor is a longer ancestor. -/
theorem outdone_of_right (h : LookupRight calls (calls.map Policy.stored) p) (hc : c ∈ calls)
    (hpre : c.path <+: p) (hno : ¬ Ancestor c.path p) :
    ∃ c' ∈ calls, Ancestor c'.path p ∧ c.path.length < c'.path.length := by
  have hpos : 0 < pathKey p c.stored := by
    rw [stored_of_normal hnormal hc, pathKey_of_match hpre]
    exact (habs c hc).pos
  obtain ⟨out, hout⟩ := exists_firstMax (List.mem_map_of_mem hc) hpos
  obtain ⟨d, hd, rfl⟩ := h.nearest (getPolicy_eq_ok_iff.mpr hout)
  have hfirst := nearest_iff.mp hd
  have hanc := ancestor_of_depthKey_pos hfirst.pos
  have hle := hout.le _ (List.mem_map_of_mem hc)
  rw [stored_of_normal hnormal hc, stored_of_normal hnormal hfirst.mem, pathKey_of_match hpre,
    pathKey_of_ancestor hnormal hp hfirst.mem hanc] at hle
  refine ⟨d, hfirst.mem, hanc, Nat.lt_of_le_of_ne hle fun hlen => hno ?_⟩
  rw [eq_of_matches hpre ((hnormal d hfirst.mem).1.match_of_ancestor hp hanc) hlen]
  exact hanc

section Outdone

variable (houtdone : ∀ c ∈ calls, c.path <+: p → ¬ Ancestor c.path p →
  ∃ c' ∈ calls, Ancestor c'.path p ∧ c.path.length < c'.path.length)

include houtdone

theorem found_of_outdone (hc : Nearest calls p c) :
    getPolicy (calls.map Policy.stored) p = .ok c.stored := by
  have hfirst := nearest_iff.mp hc
  have hanc := ancestor_of_depthKey_pos hfirst.pos
  have hcpre := (hnormal c hfirst.mem).1.match_of_ancestor hp hanc
  have hle : ∀ d ∈ calls, Ancestor d.path p → d.path.length ≤ c.path.length := by
    intro d hd hda
    have hdepth := hfirst.le d hd
    rw [depthKey_of_ancestor hda, depthKey_of_ancestor hanc] at hdepth
    exact length_le_of_ancestors hnormal hd hfirst.mem hda hanc (Nat.le_of_succ_le_succ hdepth)
  have hck : pathKey p c.stored = c.path.length := by
    rw [stored_of_normal hnormal hfirst.mem, pathKey_of_ancestor hnormal hp hfirst.mem hanc]
  refine getPolicy_eq_ok_iff.mpr (hfirst.map ?_ ?_ ?_)
  · rw [hck]
    exact (habs c hfirst.mem).pos
  · intro a ha
    rw [hck, stored_of_normal hnormal ha, pathKey]
    split
    · rename_i hpre
      by_cases hanc' : Ancestor a.path p
      · exact hle a ha hanc'
      · obtain ⟨d, hd, hda, hlt⟩ := houtdone a ha hpre hanc'
        exact Nat.le_trans (Nat.le_of_lt hlt) (hle d hd hda)
    · exact Nat.zero_le _
  · intro a ha hsame
    rw [hck, stored_of_normal hnormal ha] at hsame
    have hpre : a.path <+: p :=
      match_of_pathKey_pos (by rw [hsame]; exact (habs c hfirst.mem).pos)
    rw [pathKey_of_match hpre] at hsame
    rw [depthKey, depthKey, eq_of_matches hpre hcpre hsame]

/-- Nothing is found exactly where there is no ancestor. -/
theorem missing_of_outdone : getPolicy (calls.map Policy.stored) p = .error .ENOENT ↔
    ∀ c ∈ calls, ¬ Ancestor c.path p := by
  rw [getPolicy_eq_error_iff]
  constructor
  · intro hnone c hc hanc
    have hzero := hnone _ (List.mem_map_of_mem hc)
    rw [stored_of_normal hnormal hc, pathKey_of_ancestor hnormal hp hc hanc] at hzero
    exact absurd hzero (Nat.pos_iff_ne_zero.mp (habs c hc).pos)
  · intro hnone a ha
    obtain ⟨c, hc, rfl⟩ := List.mem_map.mp ha
    rw [stored_of_normal hnormal hc]
    refine if_neg fun hpre => ?_
    obtain ⟨d, hd, hda, -⟩ := houtdone c hc hpre (hnone c hc)
    exact hnone d hd hda

end Outdone

/-- **A lookup among paths in normal form** is right exactly when every registered prefix that is no
ancestor is outdone by a longer ancestor. -/
theorem right_iff_of_normal : LookupRight calls (calls.map Policy.stored) p ↔
    ∀ c ∈ calls, c.path <+: p → ¬ Ancestor c.path p →
      ∃ c' ∈ calls, Ancestor c'.path p ∧ c.path.length < c'.path.length := by
  constructor
  · intro h c hc hpre hno
    exact outdone_of_right habs hnormal hp h hc hpre hno
  · intro houtdone
    exact ⟨fun c hc => found_of_outdone habs hnormal hp houtdone hc,
      missing_of_outdone habs hnormal hp houtdone⟩

end Normal

end Lookup

/-- **When lookups find the nearest ancestor.**  For all paths exactly when nothing but `/` is
registered; and for one path, all in normal form and none too long, exactly when no sibling is in the
way. -/
theorem policy_lookup_iff {calls : List Policy} (hlen : calls.length ≤ 16)
    (habs : ∀ c ∈ calls, Absolute c.path) : ∃ policies, setPolicies calls = .ok policies ∧
      ((∀ p, Absolute p → LookupRight calls policies p) ↔ ∀ c ∈ calls, c.path = [47]) ∧
      ∀ p, Absolute p → NormalPath p → (∀ c ∈ calls, NormalPath c.path ∧ c.path.length ≤ 255) →
        (LookupRight calls policies p ↔ ∀ c ∈ calls, c.path <+: p → ¬ Ancestor c.path p →
          ∃ c' ∈ calls, Ancestor c'.path p ∧ c.path.length < c'.path.length) := by
  refine ⟨_, setPolicies_eq hlen, ⟨root_of_right habs, ?_⟩, ?_⟩
  · exact fun hroot p hp => right_of_root hroot hp
  · exact fun p _ hp hnormal => right_iff_of_normal habs hnormal hp

/-- The machines below `/var/lib/vm` get their policy. -/
theorem vm_disk_right : ∃ policies, setPolicies (defaultPolicies 0 1 2) = .ok policies ∧
    LookupRight (defaultPolicies 0 1 2) policies
      (bytes ['/', 'v', 'a', 'r', '/', 'l', 'i', 'b', '/', 'v', 'm', '/', 'd', '0']) := by
  obtain ⟨policies, hset, -, hright⟩ := @policy_lookup_iff (defaultPolicies 0 1 2) (by decide)
    (by unfold Absolute; decide)
  exact ⟨policies, hset, (hright _ (by unfold Absolute; decide) (by decide) (by decide)).mpr
    (by decide)⟩

/-- **A sibling**: with the default policies `/homework` gets the policy of `/home`. -/
theorem homework_served : ∃ policies, setPolicies (defaultPolicies 0 1 2) = .ok policies ∧
    getPolicy policies (bytes ['/', 'h', 'o', 'm', 'e', 'w', 'o', 'r', 'k'])
      = .ok ⟨bytes ['/', 'h', 'o', 'm', 'e'], 0, 1, 1, 1⟩ ∧
    ∀ c ∈ defaultPolicies 0 1 2,
      ¬ Ancestor c.path (bytes ['/', 'h', 'o', 'm', 'e', 'w', 'o', 'r', 'k']) := by
  refine ⟨_, rfl, rfl, by decide⟩

end AetherFs
