import ThePipe.Lib.Frame
import ThePipe.OsServices.IoMultiplexer.Invariant

/-!
# Open file descriptions that have not been made yet

In every state that a run reaches, descriptors and registrations are of open file descriptions that
have been made, so that nothing is registered for the next one.
-/

set_option autoImplicit false

namespace ThePipe.OsServices

open ErrorHandling Fd Lib

namespace Kernel

/-- Descriptors and registrations are of open file descriptions that have been made. -/
structure Bounded (k : Kernel) : Prop where
  descriptors : ∀ fd ofd, k.descriptors.lookup fd = some ofd → ofd < k.nextOfd
  interest : ∀ key event, k.interest key = some event → key.2 < k.nextOfd

variable {k k' : Kernel} {fd : NativeHandle} {tag : FileDescriptorTag} {failure : Option Errno}

theorem Bounded.of_le (h : k.Bounded)
    (hd : ∀ fd ofd, k'.descriptors.lookup fd = some ofd → k.descriptors.lookup fd = some ofd)
    (hi : k.Shrinks k') (hn : k.nextOfd ≤ k'.nextOfd) : k'.Bounded :=
  ⟨fun fd ofd hl => (h.descriptors fd ofd (hd fd ofd hl)).trans_le hn,
    fun key event hr => (h.interest key event (hi key event hr)).trans_le hn⟩

theorem Bounded.interest_eq_none {key : NativeHandle × Ofd} (h : k.Bounded)
    (hkey : k.nextOfd ≤ key.2) : k.interest key = none := by
  rw [← Option.not_isSome_iff_eq_none]
  intro hsome
  obtain ⟨event, hevent⟩ := Option.isSome_iff_exists.1 hsome
  exact absurd (h.interest key event hevent) hkey.not_gt

theorem Bounded.register {ofd : Ofd} (h : k.Bounded) (hl : k.descriptors.lookup fd = some ofd)
    (event : EpollEvent) :
    ({ k with interest := Function.update k.interest (fd, ofd) (some event) } : Kernel).Bounded := by
  refine ⟨h.descriptors, fun key event' hr => ?_⟩
  by_cases hkey : key = (fd, ofd)
  · rw [hkey]
    exact h.descriptors fd ofd hl
  · exact h.interest key event' ((Function.update_of_ne hkey _ _).symm.trans hr)

theorem close_lookup_eq_some {fd' : NativeHandle} {ofd : Ofd}
    (h : (k.close fd).1.descriptors.lookup fd' = some ofd) :
    k.descriptors.lookup fd' = some ofd := by
  rw [close_lookup] at h
  split at h
  · cases h
  · exact h

theorem pidfdSendSignal_nextOfd (fd : NativeHandle) (signo : ℕ) :
    (k.pidfdSendSignal fd signo).1.nextOfd = k.nextOfd := by
  unfold pidfdSendSignal
  split
  · rfl
  · split
    · rfl
    · rfl
    · split <;> rfl

theorem waitid_nextOfd (fd : NativeHandle) (failure : Option Errno) :
    (k.waitid fd failure).1.nextOfd = k.nextOfd := by
  unfold waitid
  split
  · rfl
  · rfl
  · split <;> rfl

theorem fileDescriptorDeleter_nextOfd :
    (fileDescriptorDeleter k tag fd failure).nextOfd = k.nextOfd := by
  unfold fileDescriptorDeleter
  split
  · split
    · exact (close_frame k fd).2.1
    · rfl
  · split
    · rfl
    · dsimp only
      split
      · exact pidfdSendSignal_nextOfd fd SIGKILL
      · rw [(close_frame _ fd).2.1, waitid_nextOfd, pidfdSendSignal_nextOfd]

theorem Bounded.fileDescriptorDeleter (h : k.Bounded) :
    (fileDescriptorDeleter k tag fd failure).Bounded := by
  obtain ⟨k₀, hd, -, hi, heq⟩ := fileDescriptorDeleter_cases k tag fd failure
  refine h.of_le (fun fd' ofd hl => ?_) fileDescriptorDeleter_shrinks
    fileDescriptorDeleter_nextOfd.ge
  rw [heq] at hl
  rw [← hd]
  split at hl
  · exact close_lookup_eq_some hl
  · exact hl

theorem Bounded.epollCtlDel (h : k.Bounded) : (k.epollCtlDel fd).1.Bounded := by
  refine h.of_le (fun fd' ofd hl => ?_) epollCtlDel_shrinks ?_
  · rwa [epollCtlDel_descriptors] at hl
  · obtain ⟨err, heq⟩ := k.epollCtlDel_eq fd
    rw [heq]

theorem Bounded.setErrno (h : k.Bounded) (err : Errno) : ({ k with errno := err } : Kernel).Bounded :=
  ⟨h.descriptors, h.interest⟩

theorem Bounded.release (h : k.Bounded) (ofd : Ofd) : (k.release ofd).Bounded := by
  refine h.of_le (fun fd' ofd' hl => ?_) (release_shrinks ofd) ?_
  · unfold Kernel.release at hl
    split at hl <;> exact hl
  · unfold Kernel.release
    split <;> exact le_rfl

theorem Bounded.step {e : KernelStep} (h : k.Bounded) (hs : k.step e = some k') : k'.Bounded := by
  cases e with
  | openDescriptor fd process =>
    obtain ⟨-, rfl⟩ : _ ∧ _ = k' := by simpa [Kernel.step] using hs
    refine ⟨fun fd' ofd hl => ?_, fun key event hr => (h.interest key event hr).trans (by simp)⟩
    show ofd < k.nextOfd + 1
    rw [AList.lookup_insert_ite] at hl
    split at hl
    · cases hl
      exact Nat.lt_succ_self _
    · exact (h.descriptors fd' ofd hl).trans (Nat.lt_succ_self _)
  | dup fd fd' =>
    simp only [Kernel.step] at hs
    split at hs
    · cases hs
    · next ofd₀ hl₀ =>
      obtain ⟨-, rfl⟩ : _ ∧ _ = k' := by simpa using hs
      refine ⟨fun fd₁ ofd hl => ?_, h.interest⟩
      rw [AList.lookup_insert_ite] at hl
      split at hl
      · cases hl
        exact h.descriptors fd ofd₀ hl₀
      · exact h.descriptors fd₁ ofd hl
  | close fd =>
    obtain ⟨-, rfl⟩ : _ ∧ _ = k' := by simpa [Kernel.step] using hs
    exact h.of_le (fun _ _ hl => close_lookup_eq_some hl) close_shrinks (close_frame k fd).2.1.ge
  | share ofd =>
    obtain ⟨-, rfl⟩ : _ ∧ _ = k' := by simpa [Kernel.step] using hs
    exact ⟨h.descriptors, h.interest⟩
  | unshare ofd =>
    obtain ⟨-, rfl⟩ : _ ∧ _ = k' := by simpa [Kernel.step] using hs
    apply Bounded.release
    exact ⟨h.descriptors, h.interest⟩
  | exit pid =>
    obtain ⟨-, rfl⟩ : _ ∧ _ = k' := by simpa [Kernel.step] using hs
    exact ⟨h.descriptors, h.interest⟩
  | reap pid =>
    obtain ⟨-, rfl⟩ : _ ∧ _ = k' := by simpa [Kernel.step] using hs
    exact ⟨h.descriptors, h.interest⟩

end Kernel

namespace IoMultiplexer

namespace EpollInstance

variable {m m' : EpollInstance}

theorem bounded_erase (h : m.kernel.Bounded) (id : EventHandlerId) :
    (m.erase id).kernel.Bounded := by
  unfold erase
  split
  · exact h
  · exact h.fileDescriptorDeleter

theorem bounded_remove (h : m.kernel.Bounded) (id : EventHandlerId) :
    (m.remove id).kernel.Bounded := by
  unfold remove
  split
  · exact h
  · exact bounded_erase h.epollCtlDel id

theorem bounded_rollback (h : m.kernel.Bounded) (ids : List EventHandlerId) :
    (m.rollback ids).kernel.Bounded := by
  induction ids generalizing m with
  | nil => exact h
  | cons id ids ih => exact ih (bounded_remove h id)

theorem bounded_add {fd : NativeHandle} {tag : FileDescriptorTag} {status : ActivityStatus}
    {failure : Option Errno} {r : Except Exception EventHandlerId} (h : m.kernel.Bounded)
    (hadd : m.add fd tag status failure = (m', r)) : m'.kernel.Bounded := by
  rcases add_eq hadd with ⟨err, ex, rfl, rfl⟩ | ⟨-, ⟨-, ex, rfl, rfl⟩ |
    ⟨ofd, events, hl, -, rfl, rfl⟩⟩
  · exact (h.setErrno err).fileDescriptorDeleter
  · exact h
  · exact h.register hl _

theorem bounded_call {c : Call} {records : List Record} (h : m.kernel.Bounded)
    (hc : m.call c = some (m', records)) : m'.kernel.Bounded := by
  cases c with
  | add fd tag status failure =>
    obtain ⟨-, rfl, -⟩ : m.MayBeAdded fd ∧ (m.add fd tag status failure).1 = m' ∧ _ = records := by
      simpa [call] using hc
    exact bounded_add h rfl
  | remove id =>
    obtain ⟨rfl, -⟩ : m.remove id = m' ∧ [] = records := by simpa [call] using hc
    exact bounded_remove h id
  | makeConfigTransaction =>
    obtain ⟨rfl, -⟩ : m.makeConfigTransaction = m' ∧ [] = records := by simpa [call] using hc
    exact h
  | transactionAdd t fd tag status failure =>
    obtain ⟨-, hm', -⟩ : (m.MayBeAdded fd ∧ (m.addedIds t).isSome) ∧
        (m.transactionAdd t fd tag status failure).1 = m' ∧ _ = records := by
      simpa [call] using hc
    obtain ⟨m₁, hadd, rfl⟩ := transactionAdd_eq (Prod.ext hm' rfl)
    show m₁.kernel.Bounded
    exact bounded_add h hadd
  | commit t =>
    obtain ⟨-, rfl, -⟩ : (m.addedIds t).isSome ∧ m.commit t = m' ∧ _ = records := by
      simpa [call] using hc
    exact h
  | destroyTransaction t =>
    obtain ⟨-, rfl, -⟩ : (m.addedIds t).isSome ∧ m.destroyTransaction t = m' ∧ [] = records := by
      simpa [call] using hc
    exact bounded_rollback h _

end EpollInstance

open EpollInstance

variable {s s' : State} {l : Label} {ls : List Label} {ok : State → Label → Prop}

theorem State.Step.bounded (h : s.monitor.kernel.Bounded) (hs : State.Step s l s') :
    s'.monitor.kernel.Bounded := by
  cases hs with
  | call _ hcall => exact bounded_call h hcall
  | kernel _ _ hk => exact h.step hk
  | @update m _ _ _ status failure entry _ =>
    rcases m.updateListeningStatus_cases entry status failure with
      ⟨err, heq⟩ | ⟨ofd, events, hofd, -, heq⟩
    · exact heq ▸ h.setErrno err
    · exact heq ▸ h.register hofd _
  | returnsStopped _ _ => exact bounded_erase h _
  | _ => exact h

theorem reach_bounded (h : eventLoop.Reach ok ls s) : s.monitor.kernel.Bounded := by
  refine h.invariant (I := fun _ s => s.monitor.kernel.Bounded) (fun s h0 => ?_)
    fun _ _ _ _ _ hb _ hstep => (State.step_cases hstep).bounded hb
  refine ⟨fun fd ofd hl => ?_, fun key event hr => ?_⟩
  · by_contra hlt
    exact State.Init.nextOfd h0 ofd (not_lt.1 hlt) (Kernel.referenced_of_lookup hl)
  · rw [State.Init.interest h0] at hr
    cases hr

end IoMultiplexer

end ThePipe.OsServices
