import ThePipe.OsServices.Kernel

/-!
# Owners of file descriptors

A `tagged_file_descriptor` is a `unique_ptr` whose deleter the tag selects.  The primary deleter
closes the descriptor.  The one of pidfds first kills the process and waits for it, and returns
without closing anything when the process cannot be signalled.
-/

set_option autoImplicit false

namespace ThePipe.OsServices.Fd

open ErrorHandling

/-- The tags, by the deleter that they select. -/
inductive FileDescriptorTag
  | generic
  | pidfd
  deriving DecidableEq

/-- `file_descriptor_deleter<Tag>`; `failure` is the error, if any, that `waitid` reports. -/
def fileDescriptorDeleter (k : Kernel) (tag : FileDescriptorTag) (fd : NativeHandle)
    (failure : Option Errno) : Kernel :=
  match tag with
  | .generic => if fd ≠ -1 then (k.close fd).1 else k
  | .pidfd =>
    if fd = -1 then k
    else
      let (k, res) := k.pidfdSendSignal fd SIGKILL
      if res = -1 then k
      else
        let (k, _) := k.waitid fd failure
        (k.close fd).1

/-- The deleter gets to the point where it closes the descriptor. -/
def DeleterCloses (k : Kernel) (tag : FileDescriptorTag) (fd : NativeHandle) : Prop :=
  fd ≠ -1 ∧ (tag = .pidfd → ∃ pid ∈ k.processOf fd, k.processes pid ≠ .reaped)

instance (k : Kernel) (tag : FileDescriptorTag) (fd : NativeHandle) :
    Decidable (DeleterCloses k tag fd) := by
  unfold DeleterCloses; infer_instance

variable {k : Kernel} {tag : FileDescriptorTag} {fd fd' : NativeHandle} {failure : Option Errno}

/-- The deleter either leaves the descriptors and the interest list alone, or it closes the
descriptor, after what else it does. -/
theorem fileDescriptorDeleter_cases (k : Kernel) (tag : FileDescriptorTag) (fd : NativeHandle)
    (failure : Option Errno) : ∃ k₀ : Kernel, k₀.descriptors = k.descriptors ∧
      k₀.elsewhere = k.elsewhere ∧ k₀.interest = k.interest ∧
        fileDescriptorDeleter k tag fd failure =
          if DeleterCloses k tag fd then (k₀.close fd).1 else k₀ := by
  unfold fileDescriptorDeleter DeleterCloses
  cases tag with
  | generic => exact ⟨k, rfl, rfl, rfl, by simp⟩
  | pidfd =>
    by_cases hfd : fd = -1
    · exact ⟨k, rfl, rfl, rfl, by simp [hfd]⟩
    obtain ⟨hd, he, hi⟩ := k.pidfdSendSignal_frame fd SIGKILL
    have hres := k.pidfdSendSignal_eq_neg_one fd SIGKILL
    by_cases hsignal : (k.pidfdSendSignal fd SIGKILL).2 = -1
    · refine ⟨_, hd, he, hi, ?_⟩
      simp only [hfd, hsignal, hres.1 hsignal, if_true, if_false, ne_eq, not_false_eq_true,
        true_and, imp_false, not_true_eq_false]
    · obtain ⟨hd', he', hi'⟩ := (k.pidfdSendSignal fd SIGKILL).1.waitid_frame fd failure
      refine ⟨_, hd'.trans hd, he'.trans he, hi'.trans hi, ?_⟩
      have halive := not_not.1 (mt hres.2 hsignal)
      simp only [hfd, hsignal, halive, if_true, if_false, ne_eq, not_false_eq_true, true_and,
        forall_const]

theorem fileDescriptorDeleter_shrinks : k.Shrinks (fileDescriptorDeleter k tag fd failure) := by
  obtain ⟨k₀, -, -, hi, heq⟩ := fileDescriptorDeleter_cases k tag fd failure
  rw [heq]
  split
  · exact Kernel.Shrinks.trans (.of_eq hi) Kernel.close_shrinks
  · exact .of_eq hi

theorem fileDescriptorDeleter_keeps (hne : fd' ≠ fd) :
    k.Keeps (fileDescriptorDeleter k tag fd failure) fd' := by
  obtain ⟨k₀, hd, -, hi, heq⟩ := fileDescriptorDeleter_cases k tag fd failure
  rw [heq]
  split
  · exact Kernel.Keeps.trans (.of_eq hd hi) (Kernel.close_keeps hne)
  · exact .of_eq hd hi

theorem fileDescriptorDeleter_nullClosed (h : k.NullClosed) :
    (fileDescriptorDeleter k tag fd failure).NullClosed := by
  obtain ⟨k₀, hd, -, -, heq⟩ := fileDescriptorDeleter_cases k tag fd failure
  have h₀ : k₀.NullClosed := h.of_eq hd
  rw [heq]
  split
  · exact h₀.close
  · exact h₀

/-- Destroying the owner of a descriptor empties the interest list of its registrations exactly
when the deleter closes it and it is the only descriptor of its open file description. -/
theorem fileDescriptorDeleter_interest (k : Kernel) (tag : FileDescriptorTag)
    (fd : NativeHandle) (failure : Option Errno) (key : NativeHandle × Ofd) :
    (fileDescriptorDeleter k tag fd failure).interest key =
      if (DeleterCloses k tag fd ∧ k.Sole fd) ∧ k.descriptors.lookup fd = some key.2 then none
      else k.interest key := by
  obtain ⟨k₀, hd, he, hi, heq⟩ := fileDescriptorDeleter_cases k tag fd failure
  have hsole : k₀.Sole fd ↔ k.Sole fd := by
    unfold Kernel.Sole
    rw [hd, he]
  rw [heq]
  by_cases hcloses : DeleterCloses k tag fd
  · rw [if_pos hcloses, Kernel.close_interest, hi, hd]
    simp only [hsole, hcloses, true_and]
  · simp [hcloses, hi]

end ThePipe.OsServices.Fd
