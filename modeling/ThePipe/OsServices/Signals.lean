import ThePipe.OsServices.Io
import ThePipe.OsServices.Ipc.Endpoints
import ThePipe.OsServices.ProcMgmt.PidfdOwner

/-!
# Blocking system calls that a signal interrupts

A wrapper of a blocking system call is a function of what the successive invocations of the call
leave.  Those that go through `doWhileEintr` do not show that some of them were interrupted
(`run_of_retries`).  `wait` and `accept` invoke their system call once, and throw when a signal
arrives during it.
-/

set_option autoImplicit false

namespace ThePipe.OsServices

open ErrorHandling

/-- `read` and `write`, as a function of what their system call leaves each time. -/
def Io.transfer (calls : List SysResult) : Option (Except SystemError Io.IoResult) :=
  (doWhileEintr calls).map fun r => Io.IoResult.make r.value r.errno

/-- The call of `epoll_wait` in `wait_for_and_distpatch_events`: the number of events. -/
def IoMultiplexer.waitForEvents (calls : List SysResult) : Option (Except SystemError ℤ) :=
  (doWhileEintr calls).map fun res =>
    if res.value = -1 then .error ⟨"Failed to wait for events", res.errno⟩ else .ok res.value

/-- `proc_mgmt::wait`, when the last invocation of `waitid` writes `siginfo`. -/
def ProcMgmt.waitOnce (siginfo : ProcMgmt.SigInfo) (calls : List SysResult) :
    Option (Except SystemError ProcMgmt.ProcessTerminationStatus) :=
  calls.head?.map fun res =>
    if res.value = -1 then .error ⟨"Failed to wait for process", res.errno⟩
    else if siginfo.code = ProcMgmt.CLD_EXITED then .ok (.exited siginfo.status)
    else .ok (.killed siginfo.status)

def Ipc.acceptOnce (calls : List SysResult) : Option (Except SystemError NativeHandle) :=
  calls.head?.map fun ret =>
    if ret.value = -1 then .error ⟨"Failed to accept connection from socket", ret.errno⟩
    else .ok ret.value

/-! ## The wrappers within the models of their callers -/

theorem Io.read_eq_transfer (count : ℕ) (stream : List UInt8) (call : Io.Call) :
    Io.read count stream call =
      (Io.transfer (interruptedThen call.eintrs (call.last.readResult count stream.length))).map
        (·.map fun io => (io, stream.take io.bytesTransferred)) := by
  rw [Io.read, Io.transfer, Option.map_map]
  rfl

theorem Io.write_eq_transfer (data : List UInt8) (call : Io.Call) :
    Io.write data call =
      (Io.transfer (interruptedThen call.eintrs (call.last.writeResult data.length))).map
        (·.map fun io => (io, data.take io.bytesTransferred)) := by
  rw [Io.write, Io.transfer, Option.map_map]
  rfl

theorem ProcMgmt.wait_snd (k : Kernel) (fd : NativeHandle) (failure : Option Errno)
    (siginfo : ProcMgmt.SigInfo) :
    some (ProcMgmt.wait k fd failure siginfo).2 = ProcMgmt.waitOnce siginfo
      [⟨(k.waitid fd failure).2, (k.waitid fd failure).1.errno⟩] := by
  simp only [ProcMgmt.wait, ProcMgmt.waitOnce, List.head?_cons, Option.map_some]
  split
  · rfl
  · split <;> rfl

theorem Ipc.accept_eq_acceptOnce {k : Kernel} (result : Except Errno NativeHandle) :
    Ipc.accept k result = (k.newDescriptor result).bind fun (k, ret) =>
      (Ipc.acceptOnce [⟨ret, k.errno⟩]).map fun res => (k, res) := by
  rw [Ipc.accept, Option.map_eq_bind]
  refine congrArg (Option.bind _) (funext fun r => ?_)
  obtain ⟨k, ret⟩ := r
  by_cases hret : ret = -1
  · simp [Ipc.acceptOnce, hret]
  · simp [Ipc.acceptOnce, hret]

/-! ## Interruptions -/

/-- The wrappers of blocking system calls; that of `waitid` comes with what the call writes. -/
inductive BlockingWrapper
  | read
  | write
  | epollWait
  | wait (siginfo : ProcMgmt.SigInfo)
  | accept
  deriving DecidableEq

namespace BlockingWrapper

/-- What the wrapper returns when it does not throw. -/
abbrev Result : BlockingWrapper → Type
  | .read => Io.IoResult
  | .write => Io.IoResult
  | .epollWait => ℤ
  | .wait _ => ProcMgmt.ProcessTerminationStatus
  | .accept => NativeHandle

/-- Runs the wrapper; `none` when it has not come back after these invocations. -/
def run : (wrapper : BlockingWrapper) → List SysResult →
    Option (Except SystemError wrapper.Result)
  | .read => Io.transfer
  | .write => Io.transfer
  | .epollWait => IoMultiplexer.waitForEvents
  | .wait siginfo => ProcMgmt.waitOnce siginfo
  | .accept => Ipc.acceptOnce

/-- The wrapper invokes its system call through `doWhileEintr`. -/
def Retries (wrapper : BlockingWrapper) : Prop :=
  wrapper = read ∨ wrapper = write ∨ wrapper = epollWait

variable {wrapper : BlockingWrapper} {r : SysResult}

theorem doWhileEintr_eq_singleton (n : ℕ) (r : SysResult) :
    doWhileEintr (interruptedThen n r) = doWhileEintr [r] := by
  rw [doWhileEintr_interruptedThen]
  rfl

theorem run_of_retries (hw : wrapper.Retries) (n : ℕ) (r : SysResult) :
    wrapper.run (interruptedThen n r) = wrapper.run [r] := by
  rcases hw with rfl | rfl | rfl
  · exact congrArg (Option.map _) (doWhileEintr_eq_singleton n r)
  · exact congrArg (Option.map _) (doWhileEintr_eq_singleton n r)
  · exact congrArg (Option.map _) (doWhileEintr_eq_singleton n r)

theorem head?_interruptedThen_succ (n : ℕ) (r : SysResult) :
    (interruptedThen (n + 1) r).head? = some ⟨-1, EINTR⟩ := rfl

theorem run_of_not_retries (hw : ¬ wrapper.Retries) (hr : ¬ r.Interrupted) (n : ℕ) :
    wrapper.run (interruptedThen (n + 1) r) ≠ wrapper.run [r] := by
  intro h
  have hne : r.value = -1 → r.errno ≠ EINTR := fun hv he => hr ⟨he, hv⟩
  cases wrapper with
  | read => exact hw (.inl rfl)
  | write => exact hw (.inr (.inl rfl))
  | epollWait => exact hw (.inr (.inr rfl))
  | wait siginfo =>
    simp only [run, ProcMgmt.waitOnce, head?_interruptedThen_succ, List.head?_cons,
      Option.map_some, Option.some_inj, if_true] at h
    split at h
    · next hv => exact hne hv (by simpa using h.symm)
    · split at h <;> cases h
  | accept =>
    simp only [run, Ipc.acceptOnce, head?_interruptedThen_succ, List.head?_cons,
      Option.map_some, Option.some_inj, if_true] at h
    split at h
    · next hv => exact hne hv (by simpa using h.symm)
    · cases h

/-- What a transfer amounts to: the bytes, the news that it would have blocked, or an exception. -/
structure TransferMeans (r : SysResult) (res : Option (Except SystemError Io.IoResult)) :
    Prop where
  bytes : 0 ≤ r.value → ∃ io, res = some (.ok io) ∧ (io.bytesTransferred : ℤ) = r.value ∧
    io.operationWouldHaveBlocked = false
  wouldBlock : r.value = -1 → r.errno = EAGAIN ∨ r.errno = EWOULDBLOCK →
    ∃ io, res = some (.ok io) ∧ io.bytesTransferred = 0 ∧ io.operationWouldHaveBlocked = true
  throws : r.value = -1 → ¬ (r.errno = EAGAIN ∨ r.errno = EWOULDBLOCK) →
    res = some (.error ⟨"I/O operation failed", r.errno⟩)

theorem transferMeans (hr : ¬ r.Interrupted) : TransferMeans r (Io.transfer [r]) := by
  have hres : Io.transfer [r] = some (Io.IoResult.make r.value r.errno) := by
    rw [Io.transfer, doWhileEintr, if_neg hr, Option.map_some]
  rw [hres]
  refine ⟨fun h => ?_, fun h he => ?_, fun h he => ?_⟩
  · have hneg : ¬ r.value < 0 := by omega
    refine ⟨⟨r.value⟩, by simp [Io.IoResult.make, hneg], ?_, ?_⟩
    · simp [Io.IoResult.bytesTransferred, hneg, h]
    · simp [Io.IoResult.operationWouldHaveBlocked]
      omega
  · refine ⟨⟨r.value⟩, ?_, ?_, ?_⟩
    · rcases he with he | he <;> simp [Io.IoResult.make, he, EAGAIN, EWOULDBLOCK]
    · simp [Io.IoResult.bytesTransferred, h]
    · simp [Io.IoResult.operationWouldHaveBlocked, h]
  · rw [not_or] at he
    simp [Io.IoResult.make, he, h]

/-- **Signals are invisible through a wrapper** if and only if it repeats its system call, or no
signal arrives.  For `read` and `write` this gives the meaning of the last outcome. -/
theorem signals_invisible_iff (wrapper : BlockingWrapper) (n : ℕ) {r : SysResult}
    (hr : ¬ r.Interrupted) :
    (wrapper.run (interruptedThen n r) = wrapper.run [r] ↔ wrapper.Retries ∨ n = 0) ∧
      TransferMeans r (BlockingWrapper.run .read (interruptedThen n r)) ∧
      TransferMeans r (BlockingWrapper.run .write (interruptedThen n r)) := by
  refine ⟨⟨fun h => ?_, fun h => ?_⟩, ?_, ?_⟩
  · by_contra hn
    rw [not_or] at hn
    obtain ⟨hw, hn⟩ := hn
    obtain ⟨n, rfl⟩ := Nat.exists_eq_succ_of_ne_zero hn
    exact run_of_not_retries hw hr n h
  · rcases h with hw | rfl
    · exact run_of_retries hw n r
    · rfl
  · rw [run_of_retries (.inl rfl)]
    exact transferMeans hr
  · rw [run_of_retries (.inr (.inl rfl))]
    exact transferMeans hr

/-- Three bytes are read after two signals, and nothing is accepted after one. -/
theorem signals_invisible_iff_example :
    BlockingWrapper.run .read (interruptedThen 2 ⟨3, EINTR⟩) =
        BlockingWrapper.run .read [⟨3, EINTR⟩] ∧
      BlockingWrapper.run .accept (interruptedThen 1 ⟨5, 0⟩) ≠
        BlockingWrapper.run .accept [⟨5, 0⟩] :=
  ⟨(signals_invisible_iff .read 2 (by decide)).1.2 (.inl (.inl rfl)), fun h => by
    rcases (signals_invisible_iff .accept 1 (by decide)).1.1 h with hw | h0
    · exact absurd hw (by unfold Retries; decide)
    · cases h0⟩

/-- A signal that arrives before a connection does. -/
theorem accept_throws_on_signal :
    ¬ ∀ (wrapper : BlockingWrapper) (n : ℕ) (r : SysResult), ¬ r.Interrupted →
      wrapper.run (interruptedThen n r) = wrapper.run [r] := by
  intro h
  exact absurd (h .accept 1 ⟨5, 0⟩ (by decide)) (by decide)

end BlockingWrapper

end ThePipe.OsServices
