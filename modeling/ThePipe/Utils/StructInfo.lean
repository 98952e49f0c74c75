import Mathlib.Algebra.Order.Floor.Div
import Mathlib.Data.BitVec
import Mathlib.Order.Monotone.Basic
import ThePipe.Lib.Placement

/-!
# The layout of a struct

`compute_struct_info` places the fields of a struct one after the other, each at the next multiple
of its alignment, and rounds the size up to a multiple of the largest alignment.  Its arithmetic is
that of `size_t`.  As long as there is a layout that fits in a `size_t`, nothing wraps around, and
the computed layout is the least one there is.
-/

set_option autoImplicit false

namespace ThePipe.Utils

open Lib.Placement

abbrev SizeT := BitVec 64

structure StructFieldInfo where
  size : SizeT
  alignment : SizeT
  deriving DecidableEq

structure StructInfo where
  totalSize : SizeT
  offsets : List SizeT
  deriving DecidableEq

/-- The expression that both the offsets and the total size are rounded up with. -/
def roundUp (offset alignment : SizeT) : SizeT :=
  (offset / alignment + if offset % alignment ≠ 0 then 1 else 0) * alignment

/-- The loop over the fields.  It returns the offsets, and the values that `current_offset` and
`max_alignment` have after it. -/
def structInfoLoop (currentOffset maxAlignment : SizeT) :
    List StructFieldInfo → List SizeT × SizeT × SizeT
  | [] => ([], currentOffset, maxAlignment)
  | field :: fields =>
    let maxAlignment := if maxAlignment < field.alignment then field.alignment else maxAlignment
    let currentOffset := roundUp currentOffset field.alignment
    let rest := structInfoLoop (currentOffset + field.size) maxAlignment fields
    (currentOffset :: rest.1, rest.2)

def computeStructInfo (fields : List StructFieldInfo) : StructInfo :=
  let (offsets, currentOffset, maxAlignment) := structInfoLoop 0 1 fields
  { totalSize := roundUp currentOffset maxAlignment, offsets }

example : computeStructInfo [⟨1, 1⟩, ⟨8, 8⟩, ⟨1, 1⟩] = { totalSize := 24, offsets := [0, 8, 16] } := by
  decide

/-! ## What a layout is -/

/-- Where a field may be put. -/
def StructFieldInfo.Aligned (field : StructFieldInfo) : Set ℕ :=
  {offset | field.alignment.toNat ∣ offset}

/-- Where a field ends that is put at `offset`. -/
def StructFieldInfo.stop (field : StructFieldInfo) (offset : ℕ) : ℕ := offset + field.size.toNat

/-- The offsets are aligned, every field ends before the next one starts, and the last one ends
within `total`. -/
abbrev OffsetsWithin (fields : List StructFieldInfo) (offsets : List ℕ) (total : ℕ) : Prop :=
  Placed StructFieldInfo.Aligned StructFieldInfo.stop 0 fields offsets total

/-- A layout of a struct that may be an element of an array. -/
structure IsLayout (fields : List StructFieldInfo) (offsets : List ℕ) (total : ℕ) : Prop where
  placed : OffsetsWithin fields offsets total
  dvd_total : ∀ field ∈ fields, field.alignment.toNat ∣ total

/-- There is a layout whose size is a `size_t`. -/
def FitsInSizeT (fields : List StructFieldInfo) : Prop :=
  ∃ offsets total, IsLayout fields offsets total ∧ total < 2 ^ 64

/-! ## Rounding up -/

/-- The least multiple of `a` that is not below `x`. -/
def ceilMultiple (a x : ℕ) : ℕ := a * (x ⌈/⌉ a)

theorem isLeast_ceilMultiple {a : ℕ} (ha : 0 < a) (x : ℕ) :
    IsLeast {p | a ∣ p ∧ x ≤ p} (ceilMultiple a x) := by
  refine ⟨⟨dvd_mul_right a _, (ceilDiv_le_iff_le_mul ha).1 le_rfl⟩, ?_⟩
  rintro p ⟨⟨c, rfl⟩, hx⟩
  exact Nat.mul_le_mul_left a ((ceilDiv_le_iff_le_mul ha).2 hx)

theorem div_add_mod_ne_zero {a : ℕ} (ha : 0 < a) (x : ℕ) :
    (x / a + if x % a ≠ 0 then 1 else 0) = x ⌈/⌉ a := by
  rw [Nat.ceilDiv_eq_add_pred_div, eq_comm, Nat.div_eq_iff ha, Nat.mul_comm]
  have hx := Nat.div_add_mod x a
  have hlt := Nat.mod_lt x ha
  split
  · rw [Nat.mul_add]
    omega
  · rw [Nat.add_zero]
    omega

theorem ceilDiv_le_ceilMultiple {a : ℕ} (ha : 0 < a) (x : ℕ) : x ⌈/⌉ a ≤ ceilMultiple a x :=
  Nat.le_mul_of_pos_left _ ha

theorem toNat_roundUp {offset alignment : SizeT} (ha : 0 < alignment.toNat)
    (h : ceilMultiple alignment.toNat offset.toNat < 2 ^ 64) :
    (roundUp offset alignment).toNat = ceilMultiple alignment.toNat offset.toNat := by
  have hquot : (offset / alignment + if offset % alignment ≠ 0 then 1 else 0).toNat =
      offset.toNat ⌈/⌉ alignment.toNat := by
    have hlt := (ceilDiv_le_ceilMultiple ha offset.toNat).trans_lt h
    rw [← div_add_mod_ne_zero ha] at hlt ⊢
    have hmod : offset % alignment ≠ 0 ↔ offset.toNat % alignment.toNat ≠ 0 := by
      rw [← BitVec.toNat_umod, Ne, ← BitVec.toNat_inj]
      rfl
    rw [BitVec.toNat_add, BitVec.toNat_udiv, Nat.mod_eq_of_lt]
    · split <;> simp_all
    · split <;> simp_all
  rw [roundUp, BitVec.toNat_mul, hquot, Nat.mul_comm]
  exact Nat.mod_eq_of_lt h

/-! ## The loop -/

/-- The place of a field that the code computes, as long as nothing wraps around. -/
def StructFieldInfo.next (field : StructFieldInfo) (offset : ℕ) : ℕ :=
  ceilMultiple field.alignment.toNat offset

theorem isLeast_next {field : StructFieldInfo} (h : 0 < field.alignment.toNat) (x : ℕ) :
    IsLeast {p | p ∈ field.Aligned ∧ x ≤ p} (field.next x) := isLeast_ceilMultiple h x

theorem le_stop (field : StructFieldInfo) (x : ℕ) : x ≤ field.stop x := Nat.le_add_right _ _

theorem monotone_stop (field : StructFieldInfo) : Monotone field.stop := fun _ _ h =>
  Nat.add_le_add_right h _

/-- **The loop is the greedy placement** when the last field ends within a `size_t`. -/
theorem structInfoLoop_eq_greedy {fields : List StructFieldInfo}
    (hpos : ∀ field ∈ fields, 0 < field.alignment.toNat) (currentOffset maxAlignment : SizeT)
    (h : (greedy StructFieldInfo.next StructFieldInfo.stop currentOffset.toNat fields).2 < 2 ^ 64) :
    ((structInfoLoop currentOffset maxAlignment fields).1.map BitVec.toNat,
        (structInfoLoop currentOffset maxAlignment fields).2.1.toNat) =
      greedy StructFieldInfo.next StructFieldInfo.stop currentOffset.toNat fields := by
  induction fields generalizing currentOffset maxAlignment with
  | nil => rfl
  | cons field fields ih =>
    have hfield := hpos field List.mem_cons_self
    have hfields := fun f hf => hpos f (List.mem_cons_of_mem field hf)
    rw [greedy_cons] at h
    -- neither the offset of the field nor where the field ends is beyond the last end
    have hstop : field.stop (field.next currentOffset.toNat) < 2 ^ 64 :=
      (le_snd_greedy le_stop (fun f hf x => (isLeast_next (hfields f hf) x).1.2) _).trans_lt h
    have hoffset : (roundUp currentOffset field.alignment).toNat =
        field.next currentOffset.toNat :=
      toNat_roundUp hfield ((le_stop field _).trans_lt hstop)
    have hend : (roundUp currentOffset field.alignment + field.size).toNat =
        field.stop (field.next currentOffset.toNat) := by
      rw [BitVec.toNat_add, hoffset]
      exact Nat.mod_eq_of_lt hstop
    rw [← hend] at h
    have hrest := ih hfields _ (if maxAlignment < field.alignment then field.alignment
      else maxAlignment) h
    rw [greedy_cons, ← hend, ← hrest, ← hoffset]
    rfl

theorem max_dvd_iff {a b : SizeT} (ha : a.toNat.isPowerOfTwo) (hb : b.toNat.isPowerOfTwo) (t : ℕ) :
    (if a < b then b else a).toNat ∣ t ↔ a.toNat ∣ t ∧ b.toNat ∣ t := by
  obtain ⟨k, hk⟩ := ha
  obtain ⟨l, hl⟩ := hb
  have hab : a < b ↔ k < l := by
    rw [BitVec.lt_def, hk, hl]
    exact Nat.pow_lt_pow_iff_right one_lt_two
  split
  · next hlt =>
    refine ⟨fun h => ⟨?_, h⟩, fun h => h.2⟩
    rw [hk]
    rw [hl] at h
    exact (pow_dvd_pow 2 (hab.1 hlt).le).trans h
  · next hlt =>
    refine ⟨fun h => ⟨h, ?_⟩, fun h => h.1⟩
    rw [hl]
    rw [hk] at h
    exact (pow_dvd_pow 2 (not_lt.1 (mt hab.2 hlt))).trans h

theorem structInfoLoop_maxAlignment {fields : List StructFieldInfo}
    (hpow : ∀ field ∈ fields, field.alignment.toNat.isPowerOfTwo)
    (currentOffset maxAlignment : SizeT) (hmax : maxAlignment.toNat.isPowerOfTwo) :
    (structInfoLoop currentOffset maxAlignment fields).2.2.toNat.isPowerOfTwo ∧
      ∀ t, (structInfoLoop currentOffset maxAlignment fields).2.2.toNat ∣ t ↔
        maxAlignment.toNat ∣ t ∧ ∀ field ∈ fields, field.alignment.toNat ∣ t := by
  induction fields generalizing currentOffset maxAlignment with
  | nil => exact ⟨hmax, fun t => by simp [structInfoLoop]⟩
  | cons field fields ih =>
    have hfield := hpow field List.mem_cons_self
    obtain ⟨hres, hdvd⟩ := ih (fun f hf => hpow f (List.mem_cons_of_mem field hf))
      (roundUp currentOffset field.alignment + field.size)
      (if maxAlignment < field.alignment then field.alignment else maxAlignment)
      (by split <;> assumption)
    refine ⟨hres, fun t => ?_⟩
    rw [structInfoLoop, hdvd, max_dvd_iff hmax hfield, List.forall_mem_cons, and_assoc]

/-! ## The computed layout -/

variable {fields : List StructFieldInfo}

/-- The greedy placement, from the start of the struct. -/
def leastOffsets (fields : List StructFieldInfo) : List ℕ × ℕ :=
  greedy StructFieldInfo.next StructFieldInfo.stop 0 fields

theorem isLeast_next_of_pow (hpow : ∀ field ∈ fields, field.alignment.toNat.isPowerOfTwo) :
    ∀ field ∈ fields, ∀ x, IsLeast {p | p ∈ field.Aligned ∧ x ≤ p} (field.next x) :=
  fun field hf => isLeast_next (Nat.pos_of_isPowerOfTwo (hpow field hf))

theorem leastOffsets_le (hpow : ∀ field ∈ fields, field.alignment.toNat.isPowerOfTwo)
    {offsets : List ℕ} {total : ℕ} (h : OffsetsWithin fields offsets total) :
    List.Forall₂ (· ≤ ·) (leastOffsets fields).1 offsets ∧ (leastOffsets fields).2 ≤ total :=
  greedy_le (isLeast_next_of_pow hpow) monotone_stop le_rfl h

theorem isPowerOfTwo_one : (1 : SizeT).toNat.isPowerOfTwo := ⟨0, rfl⟩

/-- The total size is the least multiple of all alignments that is not before the last end. -/
theorem computeStructInfo_spec (hpow : ∀ field ∈ fields, field.alignment.toNat.isPowerOfTwo)
    (hfits : FitsInSizeT fields) :
    (computeStructInfo fields).offsets.map BitVec.toNat = (leastOffsets fields).1 ∧
      IsLeast {t | (∀ field ∈ fields, field.alignment.toNat ∣ t) ∧ (leastOffsets fields).2 ≤ t}
        (computeStructInfo fields).totalSize.toNat := by
  obtain ⟨offsets, total, hlayout, htotal⟩ := hfits
  have hend : (leastOffsets fields).2 ≤ total := (leastOffsets_le hpow hlayout.placed).2
  obtain ⟨hmax, hdvd⟩ := structInfoLoop_maxAlignment hpow 0 1 isPowerOfTwo_one
  have hloop := structInfoLoop_eq_greedy
    (fun field hf => Nat.pos_of_isPowerOfTwo (hpow field hf)) 0 1 (hend.trans_lt htotal)
  have hleast := isLeast_ceilMultiple (Nat.pos_of_isPowerOfTwo hmax) (leastOffsets fields).2
  have hmultiple : ∀ t, (structInfoLoop 0 1 fields).2.2.toNat ∣ t ↔
      ∀ field ∈ fields, field.alignment.toNat ∣ t := fun t => by
    rw [hdvd]
    exact and_iff_right (one_dvd t)
  simp only [hmultiple] at hleast
  refine ⟨congrArg Prod.fst hloop, ?_⟩
  have hsum : (structInfoLoop 0 1 fields).2.1.toNat = (leastOffsets fields).2 :=
    congrArg Prod.snd hloop
  have hround : (computeStructInfo fields).totalSize.toNat =
      ceilMultiple (structInfoLoop 0 1 fields).2.2.toNat (leastOffsets fields).2 := by
    rw [← hsum]
    refine toNat_roundUp (Nat.pos_of_isPowerOfTwo hmax) ?_
    rw [hsum]
    exact (hleast.2 ⟨hlayout.dvd_total, hend⟩).trans_lt htotal
  rw [hround]
  exact hleast

/-- **The computed layout is the least one.**  All elements of an array of such structs have
aligned fields; no assignment of aligned offsets puts a field earlier, and no layout is smaller. -/
theorem computeStructInfo_isLeast (hpow : ∀ field ∈ fields, field.alignment.toNat.isPowerOfTwo)
    (hfits : FitsInSizeT fields) :
    IsLayout fields ((computeStructInfo fields).offsets.map BitVec.toNat)
        (computeStructInfo fields).totalSize.toNat ∧
      (∀ n, List.Forall₂ (fun field offset => field.alignment.toNat ∣
          n * (computeStructInfo fields).totalSize.toNat + offset.toNat)
        fields (computeStructInfo fields).offsets) ∧
      (∀ offsets total, OffsetsWithin fields offsets total →
        List.Forall₂ (fun computed offset => computed.toNat ≤ offset)
          (computeStructInfo fields).offsets offsets) ∧
      ∀ offsets total, IsLayout fields offsets total →
        (computeStructInfo fields).totalSize.toNat ≤ total := by
  obtain ⟨hoffsets, ⟨hdvd, hend⟩, hleast⟩ := computeStructInfo_spec hpow hfits
  have hplaced : OffsetsWithin fields ((computeStructInfo fields).offsets.map BitVec.toNat)
      (computeStructInfo fields).totalSize.toNat := by
    rw [hoffsets]
    exact (placed_greedy (isLeast_next_of_pow hpow) 0).mono hend
  refine ⟨⟨hplaced, hdvd⟩, fun n => ?_, fun offsets total h => ?_, fun offsets total h => ?_⟩
  · have haligned := List.forall₂_map_right_iff.1 hplaced.forall₂
    exact ((List.forall₂_and_left _ _).2 ⟨hdvd, haligned⟩).imp fun field offset h =>
      Nat.dvd_add (h.1.mul_left n) h.2
  · rw [← List.forall₂_map_left_iff, hoffsets]
    exact (leastOffsets_le hpow h).1
  · exact hleast ⟨h.dvd_total, (leastOffsets_le hpow h.placed).2⟩

/-- A byte, a word and a byte: there is padding on both sides of the word. -/
theorem computeStructInfo_isLeast_padded :
    IsLayout [⟨1, 1⟩, ⟨8, 8⟩, ⟨1, 1⟩] [0, 8, 16] 24 ∧
      ∀ offsets total, IsLayout [⟨1, 1⟩, ⟨8, 8⟩, ⟨1, 1⟩] offsets total → 24 ≤ total := by
  have hfits : FitsInSizeT [⟨1, 1⟩, ⟨8, 8⟩, ⟨1, 1⟩] :=
    ⟨[0, 8, 16], 24, ⟨.cons (by decide) ⟨0, rfl⟩ (.cons (by decide) ⟨1, rfl⟩
      (.cons (by decide) ⟨16, rfl⟩ (.nil (by decide)))), by decide⟩, by decide⟩
  have hpow : ∀ field ∈ ([⟨1, 1⟩, ⟨8, 8⟩, ⟨1, 1⟩] : List StructFieldInfo),
      field.alignment.toNat.isPowerOfTwo := by
    simp only [List.forall_mem_cons]
    exact ⟨⟨0, rfl⟩, ⟨3, rfl⟩, ⟨0, rfl⟩, by simp⟩
  have h := computeStructInfo_isLeast hpow hfits
  exact ⟨h.1, h.2.2.2⟩

end ThePipe.Utils
