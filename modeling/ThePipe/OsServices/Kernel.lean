import Mathlib.Data.BitVec
import Mathlib.Data.List.AList
import ThePipe.OsServices.ErrorHandling

/-!
# Descriptors, interest lists and processes

The part of the kernel that the event loop and the owners of descriptors rely on: the descriptor
table of the process, the interest list of one epoll instance and the processes that pidfds refer
to.  A registration of the interest list belongs to a descriptor number together with the open file
description that the number had when it was added.  It is dropped by `EPOLL_CTL_DEL`, or when the
last descriptor of the open file description is closed, in this process or in another one.

A call returns the new state of the kernel and its return value, and sets `errno` when it fails.
-/

set_option autoImplicit false

namespace ThePipe.OsServices

open ErrorHandling

/-- A descriptor number; `-1` is the null descriptor. -/
abbrev NativeHandle := ℤ

abbrev Ofd := ℕ

abbrev Pid := ℕ

/-- An object, as a pointer to it identifies it.  No two objects of a run share one. -/
abbrev Ptr := ℕ

namespace ErrorHandling

def ENOENT : Errno := 2
def ESRCH : Errno := 3
def EBADF : Errno := 9
def ECHILD : Errno := 10
def EEXIST : Errno := 17

end ErrorHandling

def SIGKILL : ℕ := 9

/-- `epoll_event`: the event word and the data that comes with it. -/
structure EpollEvent where
  events : BitVec 32
  data : Ptr
  deriving DecidableEq

inductive ProcessState
  | running
  | zombie
  | reaped
  deriving DecidableEq

structure Kernel where
  /-- The descriptor table of the process. -/
  descriptors : AList fun _ : NativeHandle => Ofd
  /-- How many descriptors of the open file description other processes have. -/
  elsewhere : Ofd → ℕ
  /-- No open file description from here on has been used. -/
  nextOfd : Ofd
  /-- The process that a pidfd refers to. -/
  pidfdOf : Ofd → Option Pid
  processes : Pid → ProcessState
  /-- The interest list. -/
  interest : NativeHandle × Ofd → Option EpollEvent
  errno : Errno

namespace Kernel

variable (k : Kernel)

/-! ## Descriptors -/

/-- Some descriptor refers to the open file description. -/
def Referenced (ofd : Ofd) : Prop :=
  0 < k.elsewhere ofd ∨ ∃ d ∈ k.descriptors.entries, d.2 = ofd

instance : DecidablePred k.Referenced := fun ofd => by unfold Referenced; infer_instance

/-- What happens when a descriptor of `ofd` is gone: if it was the last one, the registrations of
the open file description are dropped. -/
def release (ofd : Ofd) : Kernel :=
  if k.Referenced ofd then k
  else { k with interest := fun key => if key.2 = ofd then none else k.interest key }

def close (fd : NativeHandle) : Kernel × ℤ :=
  match k.descriptors.lookup fd with
  | none => ({ k with errno := EBADF }, -1)
  | some ofd => ({ k with descriptors := k.descriptors.erase fd }.release ofd, 0)

/-- The descriptor is the only one of its open file description. -/
def Sole (fd : NativeHandle) : Prop :=
  ∃ ofd ∈ k.descriptors.lookup fd,
    k.elsewhere ofd = 0 ∧ ∀ d ∈ k.descriptors.entries, d.2 = ofd → d.1 = fd

instance (fd : NativeHandle) : Decidable (k.Sole fd) :=
  match h : k.descriptors.lookup fd with
  | none => isFalse fun ⟨_, hm, _⟩ => by simp [h] at hm
  | some ofd =>
    decidable_of_iff (k.elsewhere ofd = 0 ∧ ∀ d ∈ k.descriptors.entries, d.2 = ofd → d.1 = fd)
      ⟨fun hs => ⟨ofd, h, hs⟩, fun ⟨_, hm, hs⟩ => by cases h.symm.trans hm; exact hs⟩

/-! ## The interest list -/

/-- `EPOLL_CTL_ADD`; `failure` is an error the kernel reports for reasons of its own. -/
def epollCtlAdd (fd : NativeHandle) (event : EpollEvent) (failure : Option Errno) : Kernel × ℤ :=
  match k.descriptors.lookup fd, failure with
  | none, _ => ({ k with errno := EBADF }, -1)
  | some _, some err => ({ k with errno := err }, -1)
  | some ofd, none =>
    if (k.interest (fd, ofd)).isSome then ({ k with errno := EEXIST }, -1)
    else ({ k with interest := Function.update k.interest (fd, ofd) (some event) }, 0)

def epollCtlMod (fd : NativeHandle) (event : EpollEvent) (failure : Option Errno) : Kernel × ℤ :=
  match k.descriptors.lookup fd, failure with
  | none, _ => ({ k with errno := EBADF }, -1)
  | some _, some err => ({ k with errno := err }, -1)
  | some ofd, none =>
    if (k.interest (fd, ofd)).isSome then
      ({ k with interest := Function.update k.interest (fd, ofd) (some event) }, 0)
    else ({ k with errno := ENOENT }, -1)

def epollCtlDel (fd : NativeHandle) : Kernel × ℤ :=
  match k.descriptors.lookup fd with
  | none => ({ k with errno := EBADF }, -1)
  | some ofd =>
    if (k.interest (fd, ofd)).isSome then
      ({ k with interest := Function.update k.interest (fd, ofd) none }, 0)
    else ({ k with errno := ENOENT }, -1)

/-! ## What a call leaves alone -/

/-- Nothing new is registered. -/
def Shrinks (k k' : Kernel) : Prop :=
  ∀ key event, k'.interest key = some event → k.interest key = some event

/-- What the owner of `fd` sees of the kernel is the same: the open file description of `fd`, and
whether and how it is registered. -/
structure Keeps (k k' : Kernel) (fd : NativeHandle) : Prop where
  lookup : k'.descriptors.lookup fd = k.descriptors.lookup fd
  registered : ∀ ofd, k.descriptors.lookup fd = some ofd →
    k'.interest (fd, ofd) = k.interest (fd, ofd)

section Frame

variable {k} {k' k'' : Kernel} {fd fd' : NativeHandle}

theorem Shrinks.refl : Shrinks k k := fun _ _ h => h

theorem Shrinks.trans (h : Shrinks k k') (h' : Shrinks k' k'') : Shrinks k k'' :=
  fun key event he => h key event (h' key event he)

theorem Shrinks.of_eq (h : k'.interest = k.interest) : Shrinks k k' :=
  fun _ _ he => by rwa [h] at he

theorem Keeps.of_eq (hd : k'.descriptors = k.descriptors) (hi : k'.interest = k.interest) :
    Keeps k k' fd :=
  ⟨by rw [hd], fun _ _ => by rw [hi]⟩

theorem Keeps.refl : Keeps k k fd := .of_eq rfl rfl

theorem Keeps.trans (h : Keeps k k' fd) (h' : Keeps k' k'' fd) : Keeps k k'' fd := by
  refine ⟨h'.lookup.trans h.lookup, fun ofd ho => ?_⟩
  rw [h'.registered ofd (h.lookup.trans ho), h.registered ofd ho]

theorem release_shrinks (ofd : Ofd) : Shrinks k (k.release ofd) := by
  intro key event he
  unfold release at he
  split at he
  · exact he
  · simp only at he
    split at he
    · cases he
    · exact he

theorem referenced_of_lookup {ofd : Ofd} (h : k.descriptors.lookup fd = some ofd) :
    k.Referenced ofd :=
  .inr ⟨⟨fd, ofd⟩, AList.mem_lookup_iff.1 h, rfl⟩

theorem release_keeps (ofd : Ofd) : Keeps k (k.release ofd) fd := by
  unfold release
  split
  · exact .refl
  · next href =>
    refine ⟨rfl, fun ofd' ho => if_neg ?_⟩
    -- the descriptor itself refers to its open file description
    rintro rfl
    exact href (referenced_of_lookup ho)

theorem Shrinks.release (h : Shrinks k k') (ofd : Ofd) : Shrinks k (k'.release ofd) :=
  h.trans (release_shrinks ofd)

theorem Keeps.release (h : Keeps k k' fd) (ofd : Ofd) : Keeps k (k'.release ofd) fd :=
  h.trans (release_keeps ofd)

theorem close_shrinks : Shrinks k (k.close fd).1 := by
  unfold close
  split
  · exact .of_eq rfl
  · exact Shrinks.release (.of_eq rfl) _

theorem close_keeps (hne : fd' ≠ fd) : Keeps k (k.close fd).1 fd' := by
  unfold close
  split
  · exact .of_eq rfl rfl
  · apply Keeps.release
    exact ⟨AList.lookup_erase_ne hne, fun _ _ => rfl⟩

theorem referenced_erase {ofd : Ofd} :
    ({ k with descriptors := k.descriptors.erase fd } : Kernel).Referenced ofd ↔
      0 < k.elsewhere ofd ∨ ∃ d ∈ k.descriptors.entries, d.2 = ofd ∧ d.1 ≠ fd := by
  unfold Referenced
  refine or_congr Iff.rfl (exists_congr fun d => ?_)
  have hmem : d ∈ (k.descriptors.erase fd).entries ↔ d.1 ≠ fd ∧ d ∈ k.descriptors.entries := by
    obtain ⟨fd', ofd'⟩ := d
    rw [← AList.mem_lookup_iff, ← AList.mem_lookup_iff]
    by_cases hfd : fd' = fd
    · subst hfd
      simp
    · simp [hfd, AList.lookup_erase_ne]
  simp only [hmem]
  tauto

theorem sole_iff {ofd : Ofd} (h : k.descriptors.lookup fd = some ofd) : k.Sole fd ↔
    ¬ ({ k with descriptors := k.descriptors.erase fd } : Kernel).Referenced ofd := by
  rw [referenced_erase]
  unfold Sole
  simp only [h, Option.mem_some, exists_eq_left', not_or, not_exists, not_and, not_not,
    Nat.pos_iff_ne_zero]

/-- Closing a descriptor empties the interest list of its registrations exactly when it is the only
one of its open file description. -/
theorem close_interest (key : NativeHandle × Ofd) : (k.close fd).1.interest key =
    if k.Sole fd ∧ k.descriptors.lookup fd = some key.2 then none else k.interest key := by
  unfold close
  split
  · next hl => simp [hl]
  · next ofd hl =>
    simp only [hl, Option.some.injEq]
    by_cases hsole : k.Sole fd
    · simp only [release, if_neg ((sole_iff hl).1 hsole), hsole, true_and, eq_comm]
    · simp only [release, if_pos (not_not.1 fun href => hsole ((sole_iff hl).2 href)), hsole,
        false_and, if_false]

theorem close_frame (k : Kernel) (fd : NativeHandle) :
    (k.close fd).1.elsewhere = k.elsewhere ∧ (k.close fd).1.nextOfd = k.nextOfd ∧
      (k.close fd).1.pidfdOf = k.pidfdOf ∧ (k.close fd).1.processes = k.processes := by
  unfold close release
  split
  · exact ⟨rfl, rfl, rfl, rfl⟩
  · split <;> exact ⟨rfl, rfl, rfl, rfl⟩

theorem close_lookup (k : Kernel) (fd fd' : NativeHandle) :
    (k.close fd).1.descriptors.lookup fd' =
      if fd' = fd then none else k.descriptors.lookup fd' := by
  split
  · next heq =>
    subst heq
    unfold close release
    split
    · next hnone => exact hnone
    · split <;> exact AList.lookup_erase _ _
  · next hne => exact (close_keeps hne).lookup

theorem epollCtlMod_cases (fd : NativeHandle) (event : EpollEvent) (failure : Option Errno) :
    (∃ err, k.epollCtlMod fd event failure = ({ k with errno := err }, -1)) ∨
      ∃ ofd, k.descriptors.lookup fd = some ofd ∧ (k.interest (fd, ofd)).isSome ∧
        k.epollCtlMod fd event failure =
          ({ k with interest := Function.update k.interest (fd, ofd) (some event) }, 0) := by
  unfold epollCtlMod
  split
  · exact .inl ⟨_, rfl⟩
  · exact .inl ⟨_, rfl⟩
  · next ofd hl =>
    split
    · next hreg => exact .inr ⟨ofd, hl, hreg, rfl⟩
    · exact .inl ⟨_, rfl⟩

theorem epollCtlDel_shrinks : Shrinks k (k.epollCtlDel fd).1 := by
  unfold epollCtlDel
  split
  · exact .of_eq rfl
  · next ofd _ =>
    split
    · intro key event he
      by_cases hkey : key = (fd, ofd)
      · subst hkey
        simp at he
      · simpa [Function.update_of_ne hkey] using he
    · exact .of_eq rfl

theorem epollCtlDel_eq (k : Kernel) (fd : NativeHandle) : ∃ err, (k.epollCtlDel fd).1 =
    { k with interest := (k.epollCtlDel fd).1.interest, errno := err } := by
  unfold epollCtlDel
  split
  · exact ⟨_, rfl⟩
  · split <;> exact ⟨_, rfl⟩

theorem epollCtlDel_descriptors : (k.epollCtlDel fd).1.descriptors = k.descriptors := by
  obtain ⟨err, heq⟩ := k.epollCtlDel_eq fd
  rw [heq]

theorem epollCtlDel_interest {ofd : Ofd} (h : k.descriptors.lookup fd = some ofd) :
    (k.epollCtlDel fd).1.interest (fd, ofd) = none := by
  unfold epollCtlDel
  rw [h]
  by_cases hreg : (k.interest (fd, ofd)).isSome
  · simp [hreg]
  · simp only [hreg]
    exact Option.not_isSome_iff_eq_none.1 hreg

theorem epollCtlDel_interest_of_ne {ofd : Ofd} {key : NativeHandle × Ofd}
    (h : k.descriptors.lookup fd = some ofd) (hkey : key ≠ (fd, ofd)) :
    (k.epollCtlDel fd).1.interest key = k.interest key := by
  unfold epollCtlDel
  rw [h]
  by_cases hreg : (k.interest (fd, ofd)).isSome
  · simp [hreg, Function.update_of_ne hkey]
  · simp [hreg]

theorem epollCtlDel_keeps (hne : fd' ≠ fd) : Keeps k (k.epollCtlDel fd).1 fd' := by
  unfold epollCtlDel
  split
  · exact .of_eq rfl rfl
  · split
    · exact ⟨rfl, fun ofd _ => Function.update_of_ne (by simp [hne]) _ _⟩
    · exact .of_eq rfl rfl

/-- The null descriptor never becomes a descriptor of the process. -/
def NullClosed (k : Kernel) : Prop := k.descriptors.lookup (-1) = none

theorem NullClosed.of_eq (h : k.NullClosed) (hd : k'.descriptors = k.descriptors) :
    k'.NullClosed := by
  rwa [NullClosed, hd]

theorem NullClosed.close (h : k.NullClosed) : (k.close fd).1.NullClosed := by
  unfold NullClosed at h ⊢
  by_cases hfd : fd = -1
  · subst hfd
    simp [close, h]
  · rw [(close_keeps (Ne.symm hfd)).lookup, h]

end Frame

/-! ## Processes -/

/-- The process that the descriptor refers to, when it is a pidfd. -/
def processOf (fd : NativeHandle) : Option Pid := (k.descriptors.lookup fd).bind k.pidfdOf

/-- `pidfd_send_signal`.  `SIGKILL` terminates the process; what another signal does is up to the
process.  A process that has been reaped cannot be signalled.  It is assumed that the caller may
signal the process: the error `EPERM` is left out. -/
def pidfdSendSignal (fd : NativeHandle) (signo : ℕ) : Kernel × ℤ :=
  match k.processOf fd with
  | none => ({ k with errno := EBADF }, -1)
  | some pid =>
    match k.processes pid with
    | .reaped => ({ k with errno := ESRCH }, -1)
    | .zombie => (k, 0)
    | .running =>
      (if signo = SIGKILL then { k with processes := Function.update k.processes pid .zombie }
        else k, 0)

/-- `waitid(P_PIDFD, …, WEXITED)`: returns when the process has terminated, and reaps it.  The
`failure` is an error such as `EINTR` that it reports instead. -/
def waitid (fd : NativeHandle) (failure : Option Errno) : Kernel × ℤ :=
  match k.processOf fd, failure with
  | none, _ => ({ k with errno := EBADF }, -1)
  | some _, some err => ({ k with errno := err }, -1)
  | some pid, none =>
    if k.processes pid = .reaped then ({ k with errno := ECHILD }, -1)
    else ({ k with processes := Function.update k.processes pid .reaped }, 0)

theorem pidfdSendSignal_frame (fd : NativeHandle) (signo : ℕ) :
    (k.pidfdSendSignal fd signo).1.descriptors = k.descriptors ∧
      (k.pidfdSendSignal fd signo).1.elsewhere = k.elsewhere ∧
      (k.pidfdSendSignal fd signo).1.interest = k.interest := by
  unfold pidfdSendSignal
  split
  · exact ⟨rfl, rfl, rfl⟩
  · split
    · exact ⟨rfl, rfl, rfl⟩
    · exact ⟨rfl, rfl, rfl⟩
    · split <;> exact ⟨rfl, rfl, rfl⟩

theorem pidfdSendSignal_process (fd : NativeHandle) (signo : ℕ) :
    (k.pidfdSendSignal fd signo).1.processOf = k.processOf ∧
      ∀ pid, (k.pidfdSendSignal fd signo).1.processes pid = .reaped ↔ k.processes pid = .reaped := by
  unfold pidfdSendSignal
  split
  · exact ⟨rfl, fun _ => Iff.rfl⟩
  · next pid _ =>
    split
    · exact ⟨rfl, fun _ => Iff.rfl⟩
    · exact ⟨rfl, fun _ => Iff.rfl⟩
    · next hrunning =>
      split
      · refine ⟨rfl, fun pid' => ?_⟩
        by_cases hpid : pid' = pid
        · simp [hpid, hrunning]
        · simp [Function.update_of_ne hpid]
      · exact ⟨rfl, fun _ => Iff.rfl⟩

theorem pidfdSendSignal_eq_neg_one (fd : NativeHandle) (signo : ℕ) :
    (k.pidfdSendSignal fd signo).2 = -1 ↔
      ¬ ∃ pid ∈ k.processOf fd, k.processes pid ≠ .reaped := by
  unfold pidfdSendSignal
  cases k.processOf fd with
  | none => simp
  | some pid => cases hp : k.processes pid <;> simp [hp]

theorem waitid_processOf (fd : NativeHandle) (failure : Option Errno) :
    (k.waitid fd failure).1.processOf = k.processOf := by
  unfold waitid
  split
  · rfl
  · rfl
  · split <;> rfl

theorem waitid_frame (fd : NativeHandle) (failure : Option Errno) :
    (k.waitid fd failure).1.descriptors = k.descriptors ∧
      (k.waitid fd failure).1.elsewhere = k.elsewhere ∧
      (k.waitid fd failure).1.interest = k.interest := by
  unfold waitid
  split
  · exact ⟨rfl, rfl, rfl⟩
  · exact ⟨rfl, rfl, rfl⟩
  · split <;> exact ⟨rfl, rfl, rfl⟩

end Kernel

/-! ## What the program and other processes do to descriptors on their own -/

inductive KernelStep
  /-- A new open file description, of a pidfd if a process is given. -/
  | openDescriptor (fd : NativeHandle) (process : Option Pid)
  | dup (fd fd' : NativeHandle)
  | close (fd : NativeHandle)
  /-- Another process gets a descriptor. -/
  | share (ofd : Ofd)
  /-- Another process closes a descriptor. -/
  | unshare (ofd : Ofd)
  | exit (pid : Pid)
  | reap (pid : Pid)
  deriving DecidableEq

namespace Kernel

def step (k : Kernel) : KernelStep → Option Kernel
  | .openDescriptor fd process =>
    if 0 ≤ fd ∧ fd ∉ k.descriptors then
      some { k with
        descriptors := k.descriptors.insert fd k.nextOfd
        nextOfd := k.nextOfd + 1
        pidfdOf := Function.update k.pidfdOf k.nextOfd process }
    else none
  | .dup fd fd' =>
    match k.descriptors.lookup fd with
    | none => none
    | some ofd =>
      if 0 ≤ fd' ∧ fd' ∉ k.descriptors then
        some { k with descriptors := k.descriptors.insert fd' ofd }
      else none
  | .close fd => if fd ∈ k.descriptors then some (k.close fd).1 else none
  | .share ofd =>
    if k.Referenced ofd then
      some { k with elsewhere := Function.update k.elsewhere ofd (k.elsewhere ofd + 1) }
    else none
  | .unshare ofd =>
    if 0 < k.elsewhere ofd then
      some ({ k with
        elsewhere := Function.update k.elsewhere ofd (k.elsewhere ofd - 1) }.release ofd)
    else none
  | .exit pid =>
    if k.processes pid = .running then
      some { k with processes := Function.update k.processes pid .zombie }
    else none
  | .reap pid =>
    if k.processes pid = .zombie then
      some { k with processes := Function.update k.processes pid .reaped }
    else none

section Frame

variable {k k' : Kernel} {e : KernelStep}

theorem step_shrinks (h : k.step e = some k') : Shrinks k k' := by
  cases e with
  | openDescriptor fd process =>
    obtain ⟨-, rfl⟩ : _ ∧ _ = k' := by simpa [step] using h
    exact .of_eq rfl
  | dup fd fd' =>
    simp only [step] at h
    split at h
    · cases h
    · obtain ⟨-, rfl⟩ : _ ∧ _ = k' := by simpa using h
      exact .of_eq rfl
  | close fd =>
    obtain ⟨-, rfl⟩ : _ ∧ _ = k' := by simpa [step] using h
    exact close_shrinks
  | share ofd =>
    obtain ⟨-, rfl⟩ : _ ∧ _ = k' := by simpa [step] using h
    exact .of_eq rfl
  | unshare ofd =>
    obtain ⟨-, rfl⟩ : _ ∧ _ = k' := by simpa [step] using h
    exact Shrinks.release (.of_eq rfl) _
  | exit pid =>
    obtain ⟨-, rfl⟩ : _ ∧ _ = k' := by simpa [step] using h
    exact .of_eq rfl
  | reap pid =>
    obtain ⟨-, rfl⟩ : _ ∧ _ = k' := by simpa [step] using h
    exact .of_eq rfl

theorem NullClosed.step (hn : k.NullClosed) (h : k.step e = some k') : k'.NullClosed := by
  unfold NullClosed at hn
  cases e with
  | openDescriptor fd process =>
    obtain ⟨⟨hfd, -⟩, rfl⟩ : _ ∧ _ = k' := by simpa [Kernel.step] using h
    have hne : (-1 : NativeHandle) ≠ fd := by
      rintro rfl
      cases hfd
    exact (AList.lookup_insert_ne hne).trans hn
  | dup fd fd' =>
    simp only [Kernel.step] at h
    split at h
    · cases h
    · obtain ⟨⟨hfd, -⟩, rfl⟩ : _ ∧ _ = k' := by simpa using h
      have hne : (-1 : NativeHandle) ≠ fd' := by
        rintro rfl
        cases hfd
      exact (AList.lookup_insert_ne hne).trans hn
  | close fd =>
    obtain ⟨-, rfl⟩ : _ ∧ _ = k' := by simpa [Kernel.step] using h
    exact NullClosed.close hn
  | share ofd =>
    obtain ⟨-, rfl⟩ : _ ∧ _ = k' := by simpa [Kernel.step] using h
    exact hn
  | unshare ofd =>
    obtain ⟨-, rfl⟩ : _ ∧ _ = k' := by simpa [Kernel.step] using h
    unfold NullClosed release
    split <;> exact hn
  | exit pid =>
    obtain ⟨-, rfl⟩ : _ ∧ _ = k' := by simpa [Kernel.step] using h
    exact hn
  | reap pid =>
    obtain ⟨-, rfl⟩ : _ ∧ _ = k' := by simpa [Kernel.step] using h
    exact hn

/-- Whoever else opens, duplicates, shares and closes descriptors, an open descriptor that is not
closed itself keeps its open file description and its registration. -/
theorem step_keeps {fd : NativeHandle} (h : k.step e = some k') (hfd : fd ∈ k.descriptors)
    (hne : e ≠ .close fd) : Keeps k k' fd := by
  cases e with
  | openDescriptor fd' process =>
    obtain ⟨⟨-, hfree⟩, rfl⟩ : _ ∧ _ = k' := by simpa [step] using h
    refine ⟨AList.lookup_insert_ne ?_, fun _ _ => rfl⟩
    rintro rfl
    exact hfree hfd
  | dup fd₀ fd' =>
    simp only [step] at h
    split at h
    · cases h
    · obtain ⟨⟨-, hfree⟩, rfl⟩ : _ ∧ _ = k' := by simpa using h
      refine ⟨AList.lookup_insert_ne ?_, fun _ _ => rfl⟩
      rintro rfl
      exact hfree hfd
  | close fd' =>
    obtain ⟨-, rfl⟩ : _ ∧ _ = k' := by simpa [step] using h
    exact close_keeps fun heq => hne (by rw [heq])
  | share ofd =>
    obtain ⟨-, rfl⟩ : _ ∧ _ = k' := by simpa [step] using h
    exact .of_eq rfl rfl
  | unshare ofd =>
    obtain ⟨-, rfl⟩ : _ ∧ _ = k' := by simpa [step] using h
    apply Keeps.release
    exact .of_eq rfl rfl
  | exit pid =>
    obtain ⟨-, rfl⟩ : _ ∧ _ = k' := by simpa [step] using h
    exact .of_eq rfl rfl
  | reap pid =>
    obtain ⟨-, rfl⟩ : _ ∧ _ = k' := by simpa [step] using h
    exact .of_eq rfl rfl

end Frame

end Kernel

end ThePipe.OsServices
