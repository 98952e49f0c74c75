import ThePipe.Lib.Frame
import ThePipe.OsServices.Kernel
import ThePipe.Utils.FlatSet

/-!
# Descriptor tables of two processes

`fork` gives the child a copy of the descriptor table, so that a pipe is shared by two tables.  An
entry says what the descriptor refers to, and whether `execve` closes it.
-/

set_option autoImplicit false

namespace ThePipe.OsServices.ProcMgmt

open Lib Utils

/-- The processes that pidfds refer to. -/
inductive Process
  | child
  | other (pid : Pid)
  deriving DecidableEq

/-- What a descriptor refers to: the objects that `spawn` makes, and what there was before. -/
inductive File
  | foreign (n : ℕ)
  | pidfd (process : Process)
  | pipeRead
  | pipeWrite
  | event
  deriving DecidableEq

/-- The file can have been open when `spawn` was called. -/
def File.Outside : File → Prop
  | .foreign _ | .pidfd (.other _) => True
  | _ => False

instance : DecidablePred File.Outside := fun file => by
  unfold File.Outside; split <;> infer_instance

structure Entry where
  file : File
  cloexec : Bool
  deriving DecidableEq

/-- The numbers that descriptors have. -/
def IsDescriptor (fd : ℤ) : Prop := 0 ≤ fd ∧ fd < 2 ^ 31

instance : DecidablePred IsDescriptor := fun fd => by unfold IsDescriptor; infer_instance

/-- A number that a descriptor has, or the null handle. -/
def IsHandle (fd : ℤ) : Prop := -1 ≤ fd ∧ fd < 2 ^ 31

instance : DecidablePred IsHandle := fun fd => by unfold IsHandle; infer_instance

theorem IsDescriptor.isHandle {fd : ℤ} (h : IsDescriptor fd) : IsHandle fd := by
  obtain ⟨hnonneg, hlt⟩ := h
  exact ⟨by omega, hlt⟩

abbrev DescriptorTable := AList fun _ : NativeHandle => Entry

namespace DescriptorTable

variable (t : DescriptorTable)

/-- The number may be given to a new descriptor. -/
def Fresh (fd : NativeHandle) : Prop := t.lookup fd = none ∧ IsDescriptor fd

instance : DecidablePred t.Fresh := fun fd => by unfold Fresh; infer_instance

theorem Fresh.ne_null {t : DescriptorTable} {fd : NativeHandle} (h : t.Fresh fd) : fd ≠ -1 := by
  rintro rfl
  exact absurd h.2 (by decide)

def Has (file : File) : Prop := ∃ d ∈ t.entries, d.2.file = file

instance : DecidablePred t.Has := fun file => by unfold Has; infer_instance

theorem has_iff {t : DescriptorTable} {file : File} :
    t.Has file ↔ ∃ fd, (t.lookup fd).map Entry.file = some file := by
  constructor
  · rintro ⟨⟨fd, entry⟩, hmem, hfile⟩
    have hlookup : t.lookup fd = some entry := AList.mem_lookup_iff.2 hmem
    exact ⟨fd, by rw [hlookup, Option.map_some, hfile]⟩
  · rintro ⟨fd, hfile⟩
    obtain ⟨entry, hlookup, hfile⟩ := Option.map_eq_some_iff.1 hfile
    exact ⟨⟨fd, entry⟩, AList.mem_lookup_iff.1 hlookup, hfile⟩

/-- Resetting an owner with the primary deleter: `close`, unless the owner is null. -/
def reset (fd : NativeHandle) : DescriptorTable := if fd ≠ -1 then t.erase fd else t

def setCloexec (fd : NativeHandle) : DescriptorTable :=
  match t.lookup fd with
  | none => t
  | some entry => t.insert fd { entry with cloexec := true }

/-- `dup2`, when it succeeds: the copy stays open across `execve`. -/
def dup2 (source target : NativeHandle) : DescriptorTable :=
  match t.lookup source with
  | none => t
  | some entry =>
    if source = target then t else t.insert target { entry with cloexec := false }

/-- A handle, converted to `unsigned int`. -/
def toUnsigned (fd : NativeHandle) : BitVec 32 := BitVec.ofInt 32 fd

theorem toUnsigned_toNat {fd : ℤ} (h : IsDescriptor fd) :
    (toUnsigned fd).toNat = fd.toNat := by
  obtain ⟨hnonneg, hlt⟩ := h
  rw [toUnsigned, BitVec.toNat_ofInt]
  omega

theorem toUnsigned_inj {fd fd' : ℤ} (h : IsHandle fd) (h' : IsHandle fd') :
    toUnsigned fd = toUnsigned fd' ↔ fd = fd' := by
  refine ⟨fun heq => ?_, fun heq => by rw [heq]⟩
  obtain ⟨hge, hlt⟩ := h
  obtain ⟨hge', hlt'⟩ := h'
  have hnat := congrArg BitVec.toNat heq
  simp only [toUnsigned, BitVec.toNat_ofInt] at hnat
  omega

/-- The handles below 3 are those of the standard streams; the null handle becomes the greatest
number. -/
theorem three_le_toUnsigned {fd : ℤ} (h : IsHandle fd) :
    (3 : BitVec 32) ≤ toUnsigned fd ↔ ¬ (0 ≤ fd ∧ fd < 3) := by
  obtain ⟨hge, hlt⟩ := h
  rw [BitVec.le_def, toUnsigned, BitVec.toNat_ofInt]
  show 3 ≤ _ ↔ _
  omega

theorem toUnsigned_add_one_ne {fd : ℤ} (h : IsHandle fd) :
    toUnsigned fd + 1 ≠ BitVec.allOnes 32 := by
  obtain ⟨hge, hlt⟩ := h
  intro heq
  have hnat := congrArg BitVec.toNat heq
  rw [BitVec.toNat_add, BitVec.toNat_allOnes, toUnsigned, BitVec.toNat_ofInt] at hnat
  have hone : (1 : BitVec 32).toNat = 1 := rfl
  omega

/-- `close_range` with `CLOSE_RANGE_CLOEXEC`.  The kernel rejects an inverted range, and nothing is
marked. -/
def closeRange (range : InclusiveIntegralRange 32) : DescriptorTable :=
  Lib.AList.filterMap t fun fd entry =>
    some { entry with cloexec := entry.cloexec || range.Contains (toUnsigned fd) }

/-- What `execve` leaves open. -/
def exec : DescriptorTable :=
  Lib.AList.filterMap t fun _ entry => if entry.cloexec then none else some entry

variable {t}

theorem lookup_dup2_ne {source target fd : NativeHandle} (h : fd ≠ target) :
    (t.dup2 source target).lookup fd = t.lookup fd := by
  unfold dup2
  split
  · rfl
  · split
    · rfl
    · exact AList.lookup_insert_ne h

theorem lookup_dup2_file {source target fd : NativeHandle} {entry : Entry}
    (h : (t.dup2 source target).lookup fd = some entry) :
    ∃ fd' entry', t.lookup fd' = some entry' ∧ entry'.file = entry.file ∧
      (fd' = fd ∨ fd' = source) := by
  by_cases hfd : fd = target
  · subst hfd
    unfold dup2 at h
    split at h
    · exact ⟨fd, entry, h, rfl, .inl rfl⟩
    · next entry' hsource =>
      split at h
      · exact ⟨fd, entry, h, rfl, .inl rfl⟩
      · rw [AList.lookup_insert, Option.some_inj] at h
        exact ⟨source, entry', hsource, by rw [← h], .inr rfl⟩
  · rw [lookup_dup2_ne hfd] at h
    exact ⟨fd, entry, h, rfl, .inl rfl⟩

theorem lookup_closeRange {range : InclusiveIntegralRange 32} {fd : NativeHandle} :
    (t.closeRange range).lookup fd = (t.lookup fd).map fun entry =>
      { entry with cloexec := entry.cloexec || range.Contains (toUnsigned fd) } := by
  rw [closeRange, Lib.AList.lookup_filterMap]
  cases t.lookup fd <;> rfl

theorem lookup_exec {fd : NativeHandle} {entry : Entry} :
    t.exec.lookup fd = some entry ↔ t.lookup fd = some entry ∧ entry.cloexec = false := by
  rw [exec, Lib.AList.lookup_filterMap, Option.bind_eq_some_iff]
  constructor
  · rintro ⟨entry', hlookup, h⟩
    split at h
    · cases h
    · next hflag =>
      cases h
      exact ⟨hlookup, by simpa using hflag⟩
  · rintro ⟨hlookup, hflag⟩
    exact ⟨entry, hlookup, by simp [hflag]⟩

theorem lookup_foldl_closeRange {ranges : List (InclusiveIntegralRange 32)} {fd : NativeHandle} :
    (ranges.foldl closeRange t).lookup fd = (t.lookup fd).map fun entry =>
      { entry with cloexec := entry.cloexec || ranges.any (·.Contains (toUnsigned fd)) } := by
  induction ranges generalizing t with
  | nil => simp
  | cons range ranges ih =>
    rw [List.foldl_cons, ih, lookup_closeRange, Option.map_map]
    simp [Function.comp_def, Bool.or_assoc]

end DescriptorTable

end ThePipe.OsServices.ProcMgmt
