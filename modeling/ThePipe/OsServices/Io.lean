import ThePipe.OsServices.ErrorHandling
import Mathlib.Tactic.Linarith

/-!
# Reading and writing

The environment decides how each system call goes: a `Call` is a number of interruptions and an
answer, which is an error or the transfer of some bytes.  A successful `read` takes the next bytes
of the stream, at least one unless the stream has ended; a successful `write` accepts any number
of the bytes it is given, possibly none.
-/

set_option autoImplicit false

namespace ThePipe.OsServices.Io

open ErrorHandling

/-- The result of an I/O operation. -/
structure IoResult where
  value : ℤ
  deriving DecidableEq

namespace IoResult

/-- The constructor: an error other than `EAGAIN` and `EWOULDBLOCK` is thrown. -/
def make (value : ℤ) (err : Errno) : Except SystemError IoResult :=
  if value < 0 ∧ err ≠ EAGAIN ∧ err ≠ EWOULDBLOCK then .error ⟨"I/O operation failed", err⟩
  else .ok ⟨value⟩

def operationWouldHaveBlocked (r : IoResult) : Bool := r.value == -1

def bytesTransferred (r : IoResult) : ℕ := if r.value < 0 then 0 else r.value.toNat

end IoResult

/-- The kernel's answer to a `::read` or `::write` that is not interrupted; `err` is what `errno`
is left with, whether the call failed or not. -/
inductive Answer where
  | fails (err : Errno)
  | transfers (k : ℕ) (err : Errno)
  deriving DecidableEq

/-- The results of one repeated system call: it is interrupted `eintrs` times, then answered. -/
structure Call where
  eintrs : ℕ
  last : Answer
  deriving DecidableEq

/-- `::read` into a buffer of `count` bytes, with `avail` bytes left in the stream. -/
def Answer.readResult (count avail : ℕ) : Answer → SysResult
  | .fails err => ⟨-1, err⟩
  | .transfers k err => ⟨min (k + 1) (min count avail), err⟩

/-- `::write` of `count` bytes. -/
def Answer.writeResult (count : ℕ) : Answer → SysResult
  | .fails err => ⟨-1, err⟩
  | .transfers k err => ⟨min k count, err⟩

/-- Reads from `stream` into a buffer of `count` bytes: the result and the bytes now in the buffer.
`none` when the call does not come back. -/
def read (count : ℕ) (stream : List UInt8) (call : Call) :
    Option (Except SystemError (IoResult × List UInt8)) :=
  (doWhileEintr (interruptedThen call.eintrs (call.last.readResult count stream.length))).map
    fun r => (IoResult.make r.value r.errno).map fun io => (io, stream.take io.bytesTransferred)

/-- Writes `data`: the result and the bytes accepted. -/
def write (data : List UInt8) (call : Call) :
    Option (Except SystemError (IoResult × List UInt8)) :=
  (doWhileEintr (interruptedThen call.eintrs (call.last.writeResult data.length))).map
    fun r => (IoResult.make r.value r.errno).map fun io => (io, data.take io.bytesTransferred)

/-! ## What a call amounts to -/

/-- The call is answered with bytes. -/
def Call.IsTransfer (c : Call) : Prop := ∃ k err, c.last = .transfers k err

/-- The call is answered with the news that it would have blocked. -/
def Call.IsPause (c : Call) : Prop := c.last = .fails EAGAIN

section Result

variable {α : Type} (f : IoResult → α) (n : ℕ) (err : Errno)

theorem map_make_of_nonneg {value : ℤ} (h : 0 ≤ value) :
    ((doWhileEintr (interruptedThen n ⟨value, err⟩)).map fun r =>
      (IoResult.make r.value r.errno).map f) = some (.ok (f ⟨value⟩)) := by
  have hi : ¬ (SysResult.mk value err).Interrupted := by
    rintro ⟨-, hv⟩
    dsimp only at hv
    omega
  rw [doWhileEintr_interruptedThen, if_neg hi, Option.map_some]
  simp only [IoResult.make, not_lt.2 h, false_and, if_false]
  rfl

theorem map_make_of_fails :
    ((doWhileEintr (interruptedThen n ⟨-1, err⟩)).map fun r =>
      (IoResult.make r.value r.errno).map f) =
        if err = EINTR then none
        else if err = EAGAIN ∨ err = EWOULDBLOCK then some (.ok (f ⟨-1⟩))
        else some (.error ⟨"I/O operation failed", err⟩) := by
  rw [doWhileEintr_interruptedThen]
  by_cases hi : err = EINTR
  · subst hi
    rfl
  · rw [if_neg fun h => hi h.1, if_neg hi, Option.map_some]
    by_cases hb : err = EAGAIN ∨ err = EWOULDBLOCK
    · rw [if_pos hb]
      rcases hb with rfl | rfl <;> rfl
    · rw [if_neg hb]
      rw [not_or] at hb
      simp [IoResult.make, hb, Except.map]

theorem bytesTransferred_of_nonneg {value : ℤ} (h : 0 ≤ value) :
    IoResult.bytesTransferred ⟨value⟩ = value.toNat := if_neg (not_lt.2 h)

end Result

theorem read_of_transfer {c : Call} {k : ℕ} {err : Errno} (h : c.last = .transfers k err)
    (count : ℕ) (stream : List UInt8) :
    read count stream c = some (.ok (⟨min (k + 1) (min count stream.length)⟩,
      stream.take (min (k + 1) (min count stream.length)))) := by
  have hv : (0 : ℤ) ≤ min ((k : ℤ) + 1) (min count stream.length) := by omega
  rw [read, h, Answer.readResult, map_make_of_nonneg _ _ _ hv, bytesTransferred_of_nonneg hv]
  congr 4
  omega

theorem read_of_fails {c : Call} {err : Errno} (h : c.last = .fails err) (count : ℕ)
    (stream : List UInt8) :
    read count stream c =
      if err = EINTR then none
      else if err = EAGAIN ∨ err = EWOULDBLOCK then some (.ok (⟨-1⟩, []))
      else some (.error ⟨"I/O operation failed", err⟩) := by
  rw [read, h, Answer.readResult, map_make_of_fails]
  rfl

theorem write_of_transfer {c : Call} {k : ℕ} {err : Errno} (h : c.last = .transfers k err)
    (data : List UInt8) :
    write data c = some (.ok (⟨min k data.length⟩, data.take (min k data.length))) := by
  have hv : (0 : ℤ) ≤ min (k : ℤ) data.length := by omega
  rw [write, h, Answer.writeResult, map_make_of_nonneg _ _ _ hv, bytesTransferred_of_nonneg hv]
  congr 4
  omega

theorem write_of_fails {c : Call} {err : Errno} (h : c.last = .fails err) (data : List UInt8) :
    write data c =
      if err = EINTR then none
      else if err = EAGAIN ∨ err = EWOULDBLOCK then some (.ok (⟨-1⟩, []))
      else some (.error ⟨"I/O operation failed", err⟩) := by
  rw [write, h, Answer.writeResult, map_make_of_fails]
  rfl

/-- The bytes a successful read puts into the buffer are the next ones of the stream, and there are
none only at its end. -/
theorem read_ok {count : ℕ} {stream data : List UInt8} {c : Call} {io : IoResult}
    (h : read count stream c = some (.ok (io, data))) :
    data = stream.take io.bytesTransferred ∧ io.bytesTransferred ≤ count ∧
      io.bytesTransferred ≤ stream.length ∧ (io.operationWouldHaveBlocked = false →
        io.bytesTransferred = 0 → 0 < count → stream = []) := by
  cases hc : c.last with
  | fails err =>
    rw [read_of_fails hc] at h
    split at h
    · cases h
    · split at h
      · simp only [Option.some.injEq, Except.ok.injEq, Prod.mk.injEq] at h
        obtain ⟨rfl, rfl⟩ := h
        exact ⟨rfl, Nat.zero_le _, Nat.zero_le _, fun hb => by cases hb⟩
      · cases h
  | transfers k err =>
    rw [read_of_transfer hc] at h
    simp only [Option.some.injEq, Except.ok.injEq, Prod.mk.injEq] at h
    obtain ⟨rfl, rfl⟩ := h
    have hb : IoResult.bytesTransferred ⟨min ((k : ℤ) + 1) (min count stream.length)⟩ =
        min (k + 1) (min count stream.length) := by
      rw [bytesTransferred_of_nonneg (by omega)]
      omega
    rw [hb]
    refine ⟨rfl, by omega, by omega, fun _ h0 hc => ?_⟩
    exact List.eq_nil_of_length_eq_zero (by omega)

/-- A read that is answered with bytes takes as many of them as it says, and none only at the end of
the stream. -/
theorem read_of_isTransfer {c : Call} (hc : c.IsTransfer) {count : ℕ} (hcount : 0 < count)
    (stream : List UInt8) :
    ∃ io : IoResult, read count stream c = some (.ok (io, stream.take io.bytesTransferred)) ∧
      io.operationWouldHaveBlocked = false ∧ io.bytesTransferred ≤ count ∧
        io.bytesTransferred ≤ stream.length ∧ (io.bytesTransferred = 0 → stream = []) := by
  obtain ⟨k, err, hlast⟩ := hc
  have hread := read_of_transfer hlast count stream
  obtain ⟨hdata, hle, hlength, hend⟩ := read_ok hread
  have hblock : IoResult.operationWouldHaveBlocked
      ⟨min ((k : ℤ) + 1) (min count stream.length)⟩ = false := by
    rw [IoResult.operationWouldHaveBlocked, beq_eq_false_iff_ne]
    dsimp only
    omega
  exact ⟨_, by rw [← hdata]; exact hread, hblock, hle, hlength, fun hzero =>
    hend hblock hzero hcount⟩

theorem read_of_pause {c : Call} (h : c.IsPause) (count : ℕ) (stream : List UInt8) :
    read count stream c = some (.ok (⟨-1⟩, [])) := by
  rw [read, doWhileEintr_interruptedThen, h]
  rfl

end ThePipe.OsServices.Io
