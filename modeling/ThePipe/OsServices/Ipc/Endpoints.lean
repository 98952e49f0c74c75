import ThePipe.OsServices.Kernel

/-!
# Pipes and sockets

A constructor of an endpoint makes one system call, whose result the environment decides: an error,
or the numbers of the new descriptors, which are those of no open descriptor.  When the call fails
an exception is thrown.
-/

set_option autoImplicit false

namespace ThePipe.OsServices

open ErrorHandling

namespace Kernel

/-- A system call that returns a new descriptor, such as `accept`. -/
def newDescriptor (k : Kernel) : Except Errno NativeHandle → Option (Kernel × ℤ)
  | .error err => some ({ k with errno := err }, -1)
  | .ok fd => (k.step (.openDescriptor fd none)).map fun k => (k, fd)

/-- A system call that stores two new descriptors in an array, such as `pipe`. -/
def newDescriptors (k : Kernel) :
    Except Errno (NativeHandle × NativeHandle) → Option (Kernel × ℤ × NativeHandle × NativeHandle)
  | .error err => some ({ k with errno := err }, -1, 0, 0)
  | .ok (fd₀, fd₁) =>
    (k.step (.openDescriptor fd₀ none)).bind fun k =>
      (k.step (.openDescriptor fd₁ none)).map fun k => (k, 0, fd₀, fd₁)

theorem openDescriptor_eq_some {k k' : Kernel} {fd : NativeHandle} {process : Option Pid} :
    k.step (.openDescriptor fd process) = some k' ↔ (0 ≤ fd ∧ fd ∉ k.descriptors) ∧
      k' = { k with
        descriptors := k.descriptors.insert fd k.nextOfd
        nextOfd := k.nextOfd + 1
        pidfdOf := Function.update k.pidfdOf k.nextOfd process } := by
  unfold step
  rw [Option.ite_none_right_eq_some, Option.some_inj, @eq_comm _ k']

end Kernel

namespace Ipc

def accept (k : Kernel) (result : Except Errno NativeHandle) :
    Option (Kernel × Except SystemError NativeHandle) :=
  (k.newDescriptor result).map fun (k, ret) =>
    if ret = -1 then (k, .error ⟨"Failed to accept connection from socket", k.errno⟩)
    else (k, .ok ret)

structure Pipe where
  readEnd : NativeHandle
  writeEnd : NativeHandle

/-- The constructor of a `pipe`. -/
def makePipe (k : Kernel) (result : Except Errno (NativeHandle × NativeHandle)) :
    Option (Kernel × Except SystemError Pipe) :=
  (k.newDescriptors result).map fun (k, res, fds) =>
    if res = -1 then (k, .error ⟨"Failed to create pipe", k.errno⟩)
    else (k, .ok { readEnd := fds.1, writeEnd := fds.2 })

structure SocketPair where
  socketA : NativeHandle
  socketB : NativeHandle

/-- The constructor of a `socket_pair`. -/
def makeSocketPair (k : Kernel) (result : Except Errno (NativeHandle × NativeHandle)) :
    Option (Kernel × Except SystemError SocketPair) :=
  (k.newDescriptors result).map fun (k, res, fds) =>
    if res = -1 then (k, .error ⟨"Failed to create a socket pair", k.errno⟩)
    else (k, .ok { socketA := fds.1, socketB := fds.2 })

variable {k k' : Kernel}

theorem accept_ok {result : Except Errno NativeHandle} {fd : NativeHandle}
    (h : accept k result = some (k', .ok fd)) :
    result = .ok fd ∧ k.step (.openDescriptor fd none) = some k' := by
  cases result with
  | error err => simp [accept, Kernel.newDescriptor] at h
  | ok fd' =>
    simp only [accept, Kernel.newDescriptor, Option.map_map, Option.map_eq_some_iff,
      Function.comp_apply] at h
    obtain ⟨k₁, hk₁, heq⟩ := h
    split at heq
    · cases heq
    · cases heq
      exact ⟨rfl, hk₁⟩

theorem accept_error {result : Except Errno NativeHandle} {e : SystemError}
    (h : accept k result = some (k', .error e)) :
    ∃ err, result = .error err ∧ k' = { k with errno := err } ∧
      e = ⟨"Failed to accept connection from socket", err⟩ := by
  cases result with
  | error err =>
    simp only [accept, Kernel.newDescriptor, Option.map_some, if_true, Option.some_inj,
      Prod.mk.injEq, Except.error.injEq] at h
    exact ⟨err, rfl, h.1.symm, h.2.symm⟩
  | ok fd' =>
    simp only [accept, Kernel.newDescriptor, Option.map_map, Option.map_eq_some_iff,
      Function.comp_apply] at h
    obtain ⟨k₁, hk₁, heq⟩ := h
    obtain ⟨⟨hfd, -⟩, -⟩ := Kernel.openDescriptor_eq_some.1 hk₁
    split at heq
    · next hneg =>
      have hneg : fd' = -1 := hneg
      rw [hneg] at hfd
      exact absurd hfd (by decide)
    · cases heq

theorem newDescriptors_ok {fd₀ fd₁ : NativeHandle} {ret : ℤ × NativeHandle × NativeHandle}
    (h : k.newDescriptors (.ok (fd₀, fd₁)) = some (k', ret)) : ret = (0, fd₀, fd₁) ∧
      ∃ k₁, k.step (.openDescriptor fd₀ none) = some k₁ ∧
        k₁.step (.openDescriptor fd₁ none) = some k' := by
  simp only [Kernel.newDescriptors, Option.bind_eq_some_iff, Option.map_eq_some_iff] at h
  obtain ⟨k₁, hk₁, k₂, hk₂, heq⟩ := h
  cases heq
  exact ⟨rfl, k₁, hk₁, hk₂⟩

theorem makePipe_ok {fd₀ fd₁ : NativeHandle} {res : Except SystemError Pipe}
    (h : makePipe k (.ok (fd₀, fd₁)) = some (k', res)) : res = .ok ⟨fd₀, fd₁⟩ ∧
      ∃ k₁, k.step (.openDescriptor fd₀ none) = some k₁ ∧
        k₁.step (.openDescriptor fd₁ none) = some k' := by
  obtain ⟨⟨k₂, ret⟩, hnew, heq⟩ := Option.map_eq_some_iff.1 h
  obtain ⟨rfl, hopened⟩ := newDescriptors_ok hnew
  cases heq
  exact ⟨rfl, hopened⟩

theorem makeSocketPair_ok {fd₀ fd₁ : NativeHandle} {res : Except SystemError SocketPair}
    (h : makeSocketPair k (.ok (fd₀, fd₁)) = some (k', res)) : res = .ok ⟨fd₀, fd₁⟩ ∧
      ∃ k₁, k.step (.openDescriptor fd₀ none) = some k₁ ∧
        k₁.step (.openDescriptor fd₁ none) = some k' := by
  obtain ⟨⟨k₂, ret⟩, hnew, heq⟩ := Option.map_eq_some_iff.1 h
  obtain ⟨rfl, hopened⟩ := newDescriptors_ok hnew
  cases heq
  exact ⟨rfl, hopened⟩

end Ipc

end ThePipe.OsServices
