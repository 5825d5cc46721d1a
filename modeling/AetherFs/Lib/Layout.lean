/-
# Structure declarations and their layouts

A C structure is declared as a list of members, and the declaration becomes bytes by a LAYOUT
that gives every member an offset: one behind the other when the structure is packed, each at
the next multiple of its alignment otherwise.

`encode` lays a value down under a layout and `decode` reads a member back under a layout, which
need not be the same one.  `getLE_encode` is the only fact that is needed about the two: what a
read finds that stays inside one member of the encoding.  Reading a member back under the layout
it was encoded with is a special case (`Value.decode_encode`); a read under another layout is cut into
such pieces with `getLE_split`.
-/
import AetherFs.Lib.Bytes

namespace AetherFs.Lib

/-! ## 1. Declarations -/

/-- The type of a member: the size of an element, its alignment, and the number of elements. -/
structure CType where
  size : Nat
  align : Nat
  count : Nat
deriving DecidableEq, Repr

namespace CType

def u8 : CType := ⟨1, 1, 1⟩
def u16 : CType := ⟨2, 2, 1⟩
def u32 : CType := ⟨4, 4, 1⟩
def u64 : CType := ⟨8, 8, 1⟩

def array (t : CType) (n : Nat) : CType := { t with count := n }

def bytes (t : CType) : Nat := t.size * t.count

end CType

/-- A declaration: the members, in order. -/
abbrev Decl (ι : Type) := List (ι × CType)

/-- Where a member ends up. -/
structure Slot (ι : Type) where
  field : ι
  offset : Nat
  size : Nat
deriving DecidableEq, Repr

/-! ## 2. Layouts -/

section Layout

variable {ι : Type}

/-- The next multiple of `a`. -/
def roundUp (x a : Nat) : Nat := (x + (a - 1)) / a * a

theorem le_roundUp (x : Nat) {a : Nat} (ha : 0 < a) : x ≤ roundUp x a := by
  have := Nat.div_add_mod' (x + (a - 1)) a
  have := Nat.mod_lt (x + (a - 1)) ha
  unfold roundUp
  omega

/-- Place the members from `x` on. -/
def place (align : CType → Nat) : Nat → Decl ι → List (Slot ι)
  | _, [] => []
  | x, (i, t) :: rest =>
    ⟨i, roundUp x (align t), t.bytes⟩ :: place align (roundUp x (align t) + t.bytes) rest

/-- Where the last member ends. -/
def placeEnd (align : CType → Nat) : Nat → Decl ι → Nat
  | x, [] => x
  | x, (_, t) :: rest => placeEnd align (roundUp x (align t) + t.bytes) rest

/-- `__attribute__((packed))`. -/
def packed (d : Decl ι) : List (Slot ι) := place (fun _ => 1) 0 d

/-- Every member at its natural alignment. -/
def natural (d : Decl ι) : List (Slot ι) := place CType.align 0 d

/-- `sizeof` of the naturally aligned structure: padded to its strictest member. -/
def naturalSize (d : Decl ι) : Nat :=
  roundUp (placeEnd CType.align 0 d) ((d.map fun it => it.2.align).foldl max 1)

/-- `offsetof`. -/
def offsetOf [DecidableEq ι] (L : List (Slot ι)) (i : ι) : Nat :=
  match L.find? fun s => s.field = i with
  | some s => s.offset
  | none => 0

/-- Every member ends before the next begins. -/
def Ordered (L : List (Slot ι)) : Prop := L.Pairwise fun s s' => s.offset + s.size ≤ s'.offset

theorem place_ordered {align : CType → Nat} {d : Decl ι} (h : ∀ it ∈ d, 0 < align it.2) (x : Nat) :
    Ordered (place align x d) ∧ ∀ s ∈ place align x d, x ≤ s.offset := by
  induction d generalizing x with
  | nil => exact ⟨List.Pairwise.nil, by simp [place]⟩
  | cons it d ih =>
    obtain ⟨i, t⟩ := it
    have hx : x ≤ roundUp x (align t) := le_roundUp x (h (i, t) List.mem_cons_self)
    obtain ⟨hrest, hge⟩ := ih (fun it hit => h it (List.mem_cons_of_mem _ hit))
      (roundUp x (align t) + t.bytes)
    refine ⟨List.pairwise_cons.mpr ⟨fun s hs => hge s hs, hrest⟩, fun s hs => ?_⟩
    rcases List.mem_cons.mp hs with rfl | hs
    · exact hx
    · have := hge s hs
      omega

theorem packed_ordered (d : Decl ι) : Ordered (packed d) :=
  (place_ordered (fun _ _ => Nat.one_pos) 0).1

theorem natural_ordered {d : Decl ι} (h : ∀ it ∈ d, 0 < it.2.align) : Ordered (natural d) :=
  (place_ordered h 0).1

/-! ## 3. Encoding and decoding -/

/-- Address `x` lies in the member. -/
def Slot.Has (s : Slot ι) (x : Nat) : Prop := s.offset ≤ x ∧ x < s.offset + s.size

instance (s : Slot ι) (x : Nat) : Decidable (s.Has x) := inferInstanceAs (Decidable (_ ∧ _))

/-- The bytes of a value; padding is zero. -/
def encode (L : List (Slot ι)) (v : ι → Nat) (x : Nat) : UInt8 :=
  match L.find? fun s => s.Has x with
  | some s => UInt8.ofNat (v s.field / 256 ^ (x - s.offset))
  | none => 0

/-- A member, read from memory. -/
def decode [DecidableEq ι] (L : List (Slot ι)) (m : Nat → UInt8) (i : ι) : Nat :=
  match L.find? fun s => s.field = i with
  | some s => getLE m s.offset s.size
  | none => 0

theorem Ordered.find_has {L : List (Slot ι)} (hL : Ordered L) {s : Slot ι} (hs : s ∈ L) {x : Nat}
    (hx : s.Has x) : (L.find? fun s => s.Has x) = some s := by
  induction L with
  | nil => simp at hs
  | cons t L ih =>
    obtain ⟨ht, hL⟩ := List.pairwise_cons.mp hL
    rcases List.mem_cons.mp hs with rfl | hs
    · exact List.find?_cons_of_pos (decide_eq_true hx)
    · have hnot : ¬ t.Has x := fun h => by
        have := ht s hs
        have := h.2
        have := hx.1
        omega
      rw [List.find?_cons_of_neg (by simpa using hnot)]
      exact ih hL hs

/-- **What a read finds inside one member.** -/
theorem getLE_encode {L : List (Slot ι)} (hL : Ordered L) {s : Slot ι} (hs : s ∈ L) {k w : Nat}
    (h : k + w ≤ s.size) (v : ι → Nat) :
    getLE (encode L v) (s.offset + k) w = v s.field / 256 ^ k % 256 ^ w := by
  refine getLE_of_digits _ _ w _ fun i hi => ?_
  rw [encode, hL.find_has hs ⟨by omega, by omega⟩]
  simp only
  rw [Nat.div_div_eq_div_mul, ← Nat.pow_add, show s.offset + k + i - s.offset = k + i by omega]

/-- A value of the declared structure: every member fits its type. -/
structure Value (d : Decl ι) where
  get : ι → Nat
  fits : ∀ it ∈ d, get it.1 < 256 ^ it.2.bytes

theorem Value.read {d : Decl ι} (v : Value d) {L : List (Slot ι)} (hL : Ordered L) (i : ι)
    (off : Nat) (t : CType) (hd : (i, t) ∈ d) (hs : Slot.mk i off t.bytes ∈ L) :
    getLE (encode L v.get) off t.bytes = v.get i := by
  have := getLE_encode hL hs (k := 0) (w := t.bytes) (by simp) v.get
  rwa [Nat.add_zero, Nat.pow_zero, Nat.div_one, Nat.mod_eq_of_lt (v.fits (i, t) hd)] at this

/-- **A value is read back under the layout it was laid down with.** -/
theorem Value.decode_encode [DecidableEq ι] {d : Decl ι} (v : Value d) {L : List (Slot ι)}
    (hL : Ordered L) (i : ι) (off : Nat) (t : CType) (hd : (i, t) ∈ d)
    (hs : (L.find? fun s => s.field = i) = some ⟨i, off, t.bytes⟩) :
    decode L (encode L v.get) i = v.get i := by
  rw [decode, hs]
  exact v.read hL i off t hd (List.mem_of_find?_eq_some hs)

end Layout

end AetherFs.Lib
