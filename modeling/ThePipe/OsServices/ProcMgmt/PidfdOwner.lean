import ThePipe.Lib.Frame
import ThePipe.Lib.Lts
import ThePipe.OsServices.Fd.FileDescriptor

/-!
# A child and the owner of its pidfd

The owner of a pidfd can be moved, its child can be killed and waited for, and it is destroyed in
the end.  The deleter makes three system calls, between which the child may terminate by itself:
it sends `SIGKILL`, waits, and closes the descriptor.  It gives up after the first of them when the
child has been waited for already, and does not wait again when it is interrupted.

A run gives everything back exactly when neither happens (`givesBack_iff`).
-/

set_option autoImplicit false

namespace ThePipe.OsServices.ProcMgmt

open ErrorHandling Fd Lib

/-! ## Killing and waiting -/

/-- `kill(pidfd_ref, int)` -/
def kill (k : Kernel) (fd : NativeHandle) (signo : ℕ) : Kernel × Except SystemError Unit :=
  let (k, res) := k.pidfdSendSignal fd signo
  if res = -1 then (k, .error ⟨"Failed to kill process", k.errno⟩) else (k, .ok ())

inductive ProcessTerminationStatus
  | exited (returnValue : ℤ)
  | killed (signo : ℤ)
  deriving DecidableEq

def CLD_EXITED : ℤ := 1

/-- What `waitid` reports in a `siginfo_t`. -/
structure SigInfo where
  code : ℤ
  status : ℤ
  deriving DecidableEq

/-- `wait(pidfd_ref)`; `failure` is the error, if any, that `waitid` reports. -/
def wait (k : Kernel) (fd : NativeHandle) (failure : Option Errno) (siginfo : SigInfo) :
    Kernel × Except SystemError ProcessTerminationStatus :=
  let (k, res) := k.waitid fd failure
  if res = -1 then (k, .error ⟨"Failed to wait for process", k.errno⟩)
  else if siginfo.code = CLD_EXITED then (k, .ok (.exited siginfo.status))
  else (k, .ok (.killed siginfo.status))

theorem kill_fst (k : Kernel) (fd : NativeHandle) (signo : ℕ) :
    (kill k fd signo).1 = (k.pidfdSendSignal fd signo).1 := by
  unfold kill
  dsimp only
  split <;> rfl

theorem wait_fst (k : Kernel) (fd : NativeHandle) (failure : Option Errno) (siginfo : SigInfo) :
    (wait k fd failure siginfo).1 = (k.waitid fd failure).1 := by
  unfold wait
  dsimp only
  split
  · rfl
  · split <;> rfl

namespace PidfdOwner

/-! ## Runs -/

abbrev Owner := ℕ

/-- What the deleter of the pidfd does next. -/
inductive Deleter
  | idle
  | signal (fd : NativeHandle)
  | wait (fd : NativeHandle)
  | close (fd : NativeHandle)
  | returned
  deriving DecidableEq

structure State where
  kernel : Kernel
  /-- The owners that exist, null or not. -/
  owners : AList fun _ : Owner => NativeHandle
  deleter : Deleter
  /-- How often the deleter has called `close`. -/
  closes : ℕ

inductive Label
  /-- The child exits, or a signal terminates it. -/
  | exit
  | kill (o : Owner) (signo : ℕ)
  | wait (o : Owner) (failure : Option Errno) (siginfo : SigInfo)
  /-- The first owner is moved into the second. -/
  | move (o o' : Owner)
  | destroy (o : Owner)
  | deleterSignal
  | deleterWait (failure : Option Errno)
  | deleterClose
  deriving DecidableEq

/-- The child of the pidfd has terminated and has not been waited for, so that `waitid` returns. -/
def Terminated (k : Kernel) (fd : NativeHandle) : Prop :=
  ∃ pid ∈ k.processOf fd, k.processes pid = .zombie

instance (k : Kernel) (fd : NativeHandle) : Decidable (Terminated k fd) := by
  unfold Terminated; infer_instance

/-- The deleter is not running. -/
def Deleter.Free (d : Deleter) : Prop := d = .idle ∨ d = .returned

instance : DecidablePred Deleter.Free := fun d => by unfold Deleter.Free; infer_instance

def step (pid : Pid) (s : State) : Label → Option State
  | .exit => (s.kernel.step (.exit pid)).map fun k => { s with kernel := k }
  | .kill o signo =>
    if s.deleter = .idle then
      (s.owners.lookup o).map fun fd => { s with kernel := (ProcMgmt.kill s.kernel fd signo).1 }
    else none
  | .wait o failure siginfo =>
    (s.owners.lookup o).bind fun fd =>
      if s.deleter = .idle ∧ (failure = none → Terminated s.kernel fd) then
        some { s with kernel := (ProcMgmt.wait s.kernel fd failure siginfo).1 }
      else none
  | .move o o' =>
    if s.deleter = .idle ∧ o ≠ o' ∧ (s.owners.lookup o').getD (-1) = -1 then
      (s.owners.lookup o).map fun fd => { s with owners := (s.owners.insert o' fd).insert o (-1) }
    else none
  | .destroy o =>
    (s.owners.lookup o).bind fun fd =>
      if s.deleter.Free then
        if fd = -1 then some { s with owners := s.owners.erase o }
        else some { s with owners := s.owners.erase o, deleter := .signal fd }
      else none
  | .deleterSignal =>
    match s.deleter with
    | .signal fd =>
      let (k, res) := s.kernel.pidfdSendSignal fd SIGKILL
      some { s with kernel := k, deleter := if res = -1 then .returned else .wait fd }
    | _ => none
  | .deleterWait failure =>
    match s.deleter with
    | .wait fd =>
      if failure = none → Terminated s.kernel fd then
        some { s with kernel := (s.kernel.waitid fd failure).1, deleter := .close fd }
      else none
    | _ => none
  | .deleterClose =>
    match s.deleter with
    | .close fd =>
      some { s with
        kernel := (s.kernel.close fd).1
        deleter := .returned
        closes := s.closes + 1 }
    | _ => none

theorem terminated_of_sigkill {k : Kernel} {fd : NativeHandle}
    (hres : (k.pidfdSendSignal fd SIGKILL).2 ≠ -1) :
    Terminated (k.pidfdSendSignal fd SIGKILL).1 fd := by
  obtain ⟨pid, hpid, hne⟩ := not_not.1 (mt (k.pidfdSendSignal_eq_neg_one fd SIGKILL).2 hres)
  refine ⟨pid, ?_, ?_⟩
  · rw [(k.pidfdSendSignal_process fd SIGKILL).1]
    exact hpid
  · have hprocess : k.processOf fd = some pid := hpid
    cases hp : k.processes pid with
    | running => simp [Kernel.pidfdSendSignal, hprocess, hp]
    | zombie => simp [Kernel.pidfdSendSignal, hprocess, hp]
    | reaped => exact absurd hp hne

/-- The deleter is never stuck, and its steps do what `file_descriptor_deleter` does. -/
theorem deleter_returns (pid : Pid) {s : State} {fd : NativeHandle} (hd : s.deleter = .signal fd)
    (hfd : fd ≠ -1) (failure : Option Errno) :
    ∃ (ls : List Label) (s' : State), ls.foldlM (step pid) s = some s' ∧ s'.deleter = .returned ∧
      s'.kernel = fileDescriptorDeleter s.kernel .pidfd fd failure := by
  by_cases hres : (s.kernel.pidfdSendSignal fd SIGKILL).2 = -1
  · refine ⟨[.deleterSignal],
      { s with kernel := (s.kernel.pidfdSendSignal fd SIGKILL).1, deleter := .returned }, ?_, rfl, ?_⟩
    · simp [step, hd, hres]
    · simp [fileDescriptorDeleter, hfd, hres]
  · have hterminated := terminated_of_sigkill hres
    refine ⟨[.deleterSignal, .deleterWait failure, .deleterClose],
      { s with
        kernel := (((s.kernel.pidfdSendSignal fd SIGKILL).1.waitid fd failure).1.close fd).1
        deleter := .returned
        closes := s.closes + 1 }, ?_, rfl, ?_⟩
    · simp [step, hd, hres, hterminated]
    · simp [fileDescriptorDeleter, hfd, hres]

/-- What a step does, by cases. -/
inductive Step (pid : Pid) (s : State) : Label → State → Prop
  | exit {k : Kernel} (hk : s.kernel.step (.exit pid) = some k) :
      Step pid s .exit { s with kernel := k }
  | kill {o : Owner} {fd : NativeHandle} {signo : ℕ} (hd : s.deleter = .idle)
      (ho : s.owners.lookup o = some fd) :
      Step pid s (.kill o signo) { s with kernel := (s.kernel.pidfdSendSignal fd signo).1 }
  | wait {o : Owner} {fd : NativeHandle} {failure : Option Errno} {siginfo : SigInfo}
      (hd : s.deleter = .idle) (ho : s.owners.lookup o = some fd)
      (hreturns : failure = none → Terminated s.kernel fd) :
      Step pid s (.wait o failure siginfo) { s with kernel := (s.kernel.waitid fd failure).1 }
  | move {o o' : Owner} {fd : NativeHandle} (hd : s.deleter = .idle) (hne : o ≠ o')
      (hnull : (s.owners.lookup o').getD (-1) = -1) (ho : s.owners.lookup o = some fd) :
      Step pid s (.move o o') { s with owners := (s.owners.insert o' fd).insert o (-1) }
  | destroyNull {o : Owner} (hfree : s.deleter.Free) (ho : s.owners.lookup o = some (-1)) :
      Step pid s (.destroy o) { s with owners := s.owners.erase o }
  | destroy {o : Owner} {fd : NativeHandle} (hfree : s.deleter.Free)
      (ho : s.owners.lookup o = some fd) (hfd : fd ≠ -1) :
      Step pid s (.destroy o) { s with owners := s.owners.erase o, deleter := .signal fd }
  | deleterSignalFails {fd : NativeHandle} (hd : s.deleter = .signal fd)
      (hres : (s.kernel.pidfdSendSignal fd SIGKILL).2 = -1) :
      Step pid s .deleterSignal
        { s with kernel := (s.kernel.pidfdSendSignal fd SIGKILL).1, deleter := .returned }
  | deleterSignal {fd : NativeHandle} (hd : s.deleter = .signal fd)
      (hres : (s.kernel.pidfdSendSignal fd SIGKILL).2 ≠ -1) :
      Step pid s .deleterSignal
        { s with kernel := (s.kernel.pidfdSendSignal fd SIGKILL).1, deleter := .wait fd }
  | deleterWait {fd : NativeHandle} {failure : Option Errno} (hd : s.deleter = .wait fd)
      (hreturns : failure = none → Terminated s.kernel fd) :
      Step pid s (.deleterWait failure)
        { s with kernel := (s.kernel.waitid fd failure).1, deleter := .close fd }
  | deleterClose {fd : NativeHandle} (hd : s.deleter = .close fd) :
      Step pid s .deleterClose
        { s with
          kernel := (s.kernel.close fd).1
          deleter := .returned
          closes := s.closes + 1 }

theorem step_cases {pid : Pid} {s s' : State} {l : Label} (h : step pid s l = some s') :
    Step pid s l s' := by
  cases l with
  | exit =>
    obtain ⟨k, hk, rfl⟩ := Option.map_eq_some_iff.1 h
    exact .exit hk
  | kill o signo =>
    simp only [step, Option.ite_none_right_eq_some, Option.map_eq_some_iff] at h
    obtain ⟨hd, fd, ho, rfl⟩ := h
    rw [kill_fst]
    exact .kill hd ho
  | wait o failure siginfo =>
    simp only [step, Option.bind_eq_some_iff, Option.ite_none_right_eq_some] at h
    obtain ⟨fd, ho, ⟨hd, hreturns⟩, heq⟩ := h
    cases heq
    rw [wait_fst]
    exact .wait hd ho hreturns
  | move o o' =>
    simp only [step, Option.ite_none_right_eq_some, Option.map_eq_some_iff] at h
    obtain ⟨⟨hd, hne, hnull⟩, fd, ho, rfl⟩ := h
    exact .move hd hne hnull ho
  | destroy o =>
    simp only [step, Option.bind_eq_some_iff, Option.ite_none_right_eq_some] at h
    obtain ⟨fd, ho, hfree, heq⟩ := h
    split at heq
    · next hfd => cases heq; exact .destroyNull hfree (hfd ▸ ho)
    · next hfd => cases heq; exact .destroy hfree ho hfd
  | deleterSignal =>
    simp only [step] at h
    split at h
    · next fd hd =>
      cases h
      split
      · next hres => exact .deleterSignalFails hd hres
      · next hres => exact .deleterSignal hd hres
    · cases h
  | deleterWait failure =>
    simp only [step] at h
    split at h
    · next fd hd =>
      split at h
      · next hreturns => cases h; exact .deleterWait hd hreturns
      · cases h
    · cases h
  | deleterClose =>
    simp only [step] at h
    split at h
    · next fd hd => cases h; exact .deleterClose hd
    · cases h

/-- The runs of a child that has not been waited for, with one owner of its pidfd. -/
def owning (fd : NativeHandle) (pid : Pid) : Lts State Label where
  init s := s.kernel.NullClosed ∧ s.kernel.processOf fd = some pid ∧
    s.kernel.processes pid ≠ .reaped ∧ s.owners = AList.insert 0 fd ∅ ∧ s.deleter = .idle ∧
      s.closes = 0
  step := step pid

/-! ## What the runs keep -/

/-- Everything has been given back: the descriptor has been closed once, and the child has
terminated and has been waited for. -/
structure GivesBack (fd : NativeHandle) (pid : Pid) (s : State) : Prop where
  closed : fd ∉ s.kernel.descriptors
  once : s.closes = 1
  reaped : s.kernel.processes pid = .reaped

/-- The child is waited for before the owner is destroyed. -/
def Label.Reaps : Label → Prop
  | .wait _ none _ => True
  | _ => False

def Label.Interrupts : Label → Prop
  | .deleterWait (some _) => True
  | _ => False

instance : DecidablePred Label.Reaps := fun l => by
  cases l with
  | wait o failure siginfo => cases failure <;> unfold Label.Reaps <;> infer_instance
  | _ => unfold Label.Reaps; infer_instance

instance : DecidablePred Label.Interrupts := fun l => by
  cases l with
  | deleterWait failure => cases failure <;> unfold Label.Interrupts <;> infer_instance
  | _ => unfold Label.Interrupts; infer_instance

def Waited (ls : List Label) : Prop := ∃ l ∈ ls, l.Reaps

instance : DecidablePred Waited := fun ls => by unfold Waited; infer_instance

def Interrupted (ls : List Label) : Prop := ∃ l ∈ ls, l.Interrupts

instance : DecidablePred Interrupted := fun ls => by unfold Interrupted; infer_instance

theorem waited_concat {ls : List Label} {l : Label} :
    Waited (ls ++ [l]) ↔ Waited ls ∨ l.Reaps := by
  simp [Waited, or_and_right, exists_or]

theorem waited_concat_of_not {ls : List Label} {l : Label} (hl : ¬ l.Reaps) :
    Waited (ls ++ [l]) ↔ Waited ls := by
  rw [waited_concat, or_iff_left hl]

theorem interrupted_concat {ls : List Label} {l : Label} :
    Interrupted (ls ++ [l]) ↔ Interrupted ls ∨ l.Interrupts := by
  simp [Interrupted, or_and_right, exists_or]

theorem interrupted_concat_of_not {ls : List Label} {l : Label} (hl : ¬ l.Interrupts) :
    Interrupted (ls ++ [l]) ↔ Interrupted ls := by
  rw [interrupted_concat, or_iff_left hl]

def AllNull (owners : AList fun _ : Owner => NativeHandle) : Prop :=
  ∀ o fd, owners.lookup o = some fd → fd = -1

/-- One owner holds the descriptor, and the others are null. -/
def HeldBy (owners : AList fun _ : Owner => NativeHandle) (fd : NativeHandle) (o : Owner) : Prop :=
  owners.lookup o = some fd ∧ ∀ o' fd', owners.lookup o' = some fd' → o' = o ∨ fd' = -1

/-- Before the deleter waits. -/
structure Living (fd : NativeHandle) (pid : Pid) (ls : List Label) (s : State) : Prop where
  process : s.kernel.processOf fd = some pid
  closes : s.closes = 0
  reaped : s.kernel.processes pid = .reaped ↔ Waited ls
  interrupted : ¬ Interrupted ls

/-- What holds by what the deleter does next. -/
def LifeAt (fd : NativeHandle) (pid : Pid) (ls : List Label) (s : State) : Deleter → Prop
  | .idle => Living fd pid ls s ∧ ∃ o, HeldBy s.owners fd o
  | .signal fd' => fd' = fd ∧ Living fd pid ls s ∧ AllNull s.owners
  | .wait fd' => fd' = fd ∧ Living fd pid ls s ∧ AllNull s.owners ∧
      s.kernel.processes pid = .zombie
  | .close fd' => fd' = fd ∧ AllNull s.owners ∧ s.closes = 0 ∧ ¬ Waited ls ∧
      (s.kernel.processes pid = .reaped ↔ ¬ Interrupted ls)
  | .returned => AllNull s.owners ∧ (Waited ls ∧ s.closes = 0 ∨
      ¬ Waited ls ∧ s.closes = 1 ∧ fd ∉ s.kernel.descriptors ∧
        (s.kernel.processes pid = .reaped ↔ ¬ Interrupted ls))

structure Life (fd : NativeHandle) (pid : Pid) (ls : List Label) (s : State) : Prop where
  nullClosed : s.kernel.NullClosed
  at_deleter : LifeAt fd pid ls s s.deleter

section Owners

variable {owners : AList fun _ : Owner => NativeHandle} {fd : NativeHandle} {o o' : Owner}

theorem AllNull.erase (h : AllNull owners) : AllNull (owners.erase o) := by
  intro o' fd' hl
  rw [AList.lookup_erase_ite] at hl
  split at hl
  · cases hl
  · exact h o' fd' hl

theorem HeldBy.erase_null (h : HeldBy owners fd o) (hfd : fd ≠ -1)
    (ho : owners.lookup o' = some (-1)) : HeldBy (owners.erase o') fd o := by
  have hne : o ≠ o' := by
    rintro rfl
    rw [h.1, Option.some_inj] at ho
    exact hfd ho
  refine ⟨?_, ?_⟩
  · rw [AList.lookup_erase_ite, if_neg hne]
    exact h.1
  · intro o₁ fd₁ hl
    rw [AList.lookup_erase_ite] at hl
    split at hl
    · cases hl
    · exact h.2 o₁ fd₁ hl

theorem HeldBy.erase (h : HeldBy owners fd o) : AllNull (owners.erase o) := by
  intro o' fd' hl
  rw [AList.lookup_erase_ite] at hl
  split at hl
  · cases hl
  · next hne => exact (h.2 o' fd' hl).resolve_left hne

theorem HeldBy.move {o₁ : Owner} {fd₁ : NativeHandle} (h : HeldBy owners fd o) (hne : o₁ ≠ o')
    (hnull : (owners.lookup o').getD (-1) = -1) (ho : owners.lookup o₁ = some fd₁)
    (hfd : fd ≠ -1) :
    ∃ o, HeldBy ((owners.insert o' fd₁).insert o₁ (-1)) fd o := by
  have hlookup : ∀ o₂, ((owners.insert o' fd₁).insert o₁ (-1)).lookup o₂ =
      if o₂ = o₁ then some (-1) else if o₂ = o' then some fd₁ else owners.lookup o₂ := by
    intro o₂
    rw [AList.lookup_insert_ite, AList.lookup_insert_ite]
  rcases h.2 o₁ fd₁ ho with rfl | rfl
  · obtain rfl : fd = fd₁ := by
      rw [h.1, Option.some_inj] at ho
      exact ho
    refine ⟨o', ?_, ?_⟩
    · rw [hlookup, if_neg hne.symm, if_pos rfl]
    · intro o₂ fd₂ hl
      rw [hlookup] at hl
      split at hl
      · exact .inr (Option.some.inj hl).symm
      · next hne₂ =>
        split at hl
        · next heq => exact .inl heq
        · exact .inr ((h.2 o₂ fd₂ hl).resolve_left hne₂)
  · have hne₁ : o ≠ o₁ := by
      rintro rfl
      rw [h.1, Option.some_inj] at ho
      exact hfd ho
    have hne' : o ≠ o' := by
      rintro rfl
      rw [h.1] at hnull
      exact hfd hnull
    refine ⟨o, ?_, ?_⟩
    · rw [hlookup, if_neg hne₁, if_neg hne']
      exact h.1
    · intro o₂ fd₂ hl
      rw [hlookup] at hl
      split at hl
      · exact .inr (Option.some.inj hl).symm
      · split at hl
        · exact .inr (Option.some.inj hl).symm
        · exact h.2 o₂ fd₂ hl

end Owners

section Steps

variable {fd : NativeHandle} {pid : Pid} {ls : List Label} {s s' : State} {l : Label}

theorem Living.step (h : Living fd pid ls s) (hl : ¬ l.Interrupts)
    (hprocess : s'.kernel.processOf = s.kernel.processOf) (hcloses : s'.closes = s.closes)
    (hreaped : s'.kernel.processes pid = .reaped ↔ s.kernel.processes pid = .reaped ∨ l.Reaps) :
    Living fd pid (ls ++ [l]) s' where
  process := by rw [hprocess, h.process]
  closes := by rw [hcloses, h.closes]
  reaped := by rw [waited_concat, hreaped, h.reaped]
  interrupted := by rw [interrupted_concat, or_iff_left hl]; exact h.interrupted

theorem Living.ne_null (h : Living fd pid ls s) (hnull : s.kernel.NullClosed) : fd ≠ -1 := by
  rintro rfl
  have hprocess := h.process
  rw [Kernel.processOf, hnull] at hprocess
  cases hprocess

theorem LifeAt.after (h : LifeAt fd pid ls s .returned) (hreaps : ¬ l.Reaps)
    (hinterrupts : ¬ l.Interrupts) (hnull : AllNull s'.owners) (hcloses : s'.closes = s.closes)
    (hdescriptors : s'.kernel.descriptors = s.kernel.descriptors)
    (hreaped : s'.kernel.processes pid = .reaped ↔ s.kernel.processes pid = .reaped) :
    LifeAt fd pid (ls ++ [l]) s' .returned := by
  refine ⟨hnull, ?_⟩
  rw [waited_concat_of_not hreaps, interrupted_concat_of_not hinterrupts, hcloses, hdescriptors,
    hreaped]
  exact h.2

/-- The child may terminate by itself at any time, unless it is a zombie. -/
theorem LifeAt.exit {k : Kernel} {d : Deleter} (h : LifeAt fd pid ls s d)
    (hk : s.kernel.step (.exit pid) = some k) :
    LifeAt fd pid (ls ++ [.exit]) { s with kernel := k } d := by
  obtain ⟨hrunning, rfl⟩ : _ ∧ _ = k := by simpa [Kernel.step] using hk
  have hreaps : ¬ Label.exit.Reaps := id
  have hinterrupts : ¬ Label.exit.Interrupts := id
  have hreaped : Function.update s.kernel.processes pid .zombie pid = .reaped ↔
      s.kernel.processes pid = .reaped := by
    simp [hrunning]
  cases d with
  | idle =>
    obtain ⟨hliving, hheld⟩ := h
    exact ⟨hliving.step hinterrupts rfl rfl (hreaped.trans (or_iff_left hreaps).symm), hheld⟩
  | signal fd' =>
    obtain ⟨hfd, hliving, hnull⟩ := h
    exact ⟨hfd, hliving.step hinterrupts rfl rfl (hreaped.trans (or_iff_left hreaps).symm), hnull⟩
  | wait fd' =>
    obtain ⟨-, -, -, hzombie⟩ := h
    cases hrunning.symm.trans hzombie
  | close fd' =>
    obtain ⟨hfd, hnull, hcloses, hwaited, hreaped'⟩ := h
    refine ⟨hfd, hnull, hcloses, ?_, ?_⟩
    · rwa [waited_concat_of_not hreaps]
    · rw [interrupted_concat_of_not hinterrupts, ← hreaped']
      exact hreaped
  | returned => exact h.after hreaps hinterrupts h.1 rfl rfl hreaped

theorem LifeAt.kill {o : Owner} {fd' : NativeHandle} {signo : ℕ}
    (h : LifeAt fd pid ls s s.deleter) (hd : s.deleter = .idle) :
    LifeAt fd pid (ls ++ [.kill o signo])
      { s with kernel := (s.kernel.pidfdSendSignal fd' signo).1 } s.deleter := by
  rw [hd] at h ⊢
  obtain ⟨hliving, hheld⟩ := h
  obtain ⟨hprocess, hreaped⟩ := s.kernel.pidfdSendSignal_process fd' signo
  refine ⟨hliving.step id hprocess rfl ?_, hheld⟩
  exact (hreaped pid).trans (or_iff_left id).symm

theorem waitid_reaped {k : Kernel} {failure : Option Errno} (hprocess : k.processOf fd = some pid)
    (hzombie : failure = none → k.processes pid = .zombie) :
    (k.waitid fd failure).1.processes pid = .reaped ↔
      k.processes pid = .reaped ∨ failure = none := by
  cases failure with
  | none => simp [Kernel.waitid, hprocess, hzombie rfl]
  | some err => simp [Kernel.waitid, hprocess]

theorem LifeAt.wait {o : Owner} {fd' : NativeHandle} {failure : Option Errno} {siginfo : SigInfo}
    (h : LifeAt fd pid ls s s.deleter) (hnull : s.kernel.NullClosed) (hd : s.deleter = .idle)
    (ho : s.owners.lookup o = some fd') (hreturns : failure = none → Terminated s.kernel fd') :
    LifeAt fd pid (ls ++ [.wait o failure siginfo])
      { s with kernel := (s.kernel.waitid fd' failure).1 } s.deleter := by
  rw [hd] at h ⊢
  obtain ⟨hliving, o', hheld⟩ := h
  have hl : Label.Reaps (.wait o failure siginfo) ↔ failure = none := by
    cases failure <;> simp [Label.Reaps]
  refine ⟨hliving.step id (s.kernel.waitid_processOf fd' failure) rfl ?_, o', hheld⟩
  rw [hl]
  rcases hheld.2 o fd' ho with rfl | rfl
  · obtain rfl : fd = fd' := Option.some.inj (hheld.1.symm.trans ho)
    refine waitid_reaped hliving.process fun hnone => ?_
    obtain ⟨pid', hpid', hzombie⟩ := hreturns hnone
    cases hliving.process.symm.trans hpid'
    exact hzombie
  · -- the null descriptor is not open
    have hprocess : s.kernel.processOf (-1) = none := by rw [Kernel.processOf, hnull]; rfl
    cases failure with
    | none =>
      obtain ⟨pid', hpid', -⟩ := hreturns rfl
      cases hprocess.symm.trans hpid'
    | some err => simp [Kernel.waitid, hprocess]

theorem LifeAt.move {o o' : Owner} {fd' : NativeHandle} (h : LifeAt fd pid ls s s.deleter)
    (hnull : s.kernel.NullClosed) (hd : s.deleter = .idle) (hne : o ≠ o')
    (hfree : (s.owners.lookup o').getD (-1) = -1) (ho : s.owners.lookup o = some fd') :
    LifeAt fd pid (ls ++ [.move o o'])
      { s with owners := (s.owners.insert o' fd').insert o (-1) } s.deleter := by
  rw [hd] at h ⊢
  obtain ⟨hliving, o₁, hheld⟩ := h
  refine ⟨hliving.step id rfl rfl (or_iff_left id).symm, ?_⟩
  exact hheld.move hne hfree ho (hliving.ne_null hnull)

theorem LifeAt.destroyNull {o : Owner} (h : LifeAt fd pid ls s s.deleter)
    (hnull : s.kernel.NullClosed) (hfree : s.deleter.Free)
    (ho : s.owners.lookup o = some (-1)) :
    LifeAt fd pid (ls ++ [.destroy o]) { s with owners := s.owners.erase o } s.deleter := by
  rcases hfree with hd | hd
  · rw [hd] at h ⊢
    obtain ⟨hliving, o', hheld⟩ := h
    refine ⟨hliving.step id rfl rfl (or_iff_left id).symm, o', ?_⟩
    exact hheld.erase_null (hliving.ne_null hnull) ho
  · rw [hd] at h ⊢
    exact h.after id id h.1.erase rfl rfl Iff.rfl

theorem LifeAt.destroy {o : Owner} {fd' : NativeHandle} (h : LifeAt fd pid ls s s.deleter)
    (hfree : s.deleter.Free) (ho : s.owners.lookup o = some fd') (hfd : fd' ≠ -1) :
    LifeAt fd pid (ls ++ [.destroy o])
      { s with owners := s.owners.erase o, deleter := .signal fd' } (.signal fd') := by
  rcases hfree with hd | hd
  · rw [hd] at h
    obtain ⟨hliving, o', hheld⟩ := h
    obtain rfl : o = o' := (hheld.2 o fd' ho).resolve_right hfd
    obtain rfl : fd = fd' := Option.some.inj (hheld.1.symm.trans ho)
    exact ⟨rfl, hliving.step id rfl rfl (or_iff_left id).symm, hheld.erase⟩
  · rw [hd] at h
    exact absurd (h.1 o fd' ho) hfd

theorem LifeAt.signalFails {fd' : NativeHandle} (h : LifeAt fd pid ls s (.signal fd'))
    (hres : (s.kernel.pidfdSendSignal fd' SIGKILL).2 = -1) :
    LifeAt fd pid (ls ++ [.deleterSignal])
      { s with kernel := (s.kernel.pidfdSendSignal fd' SIGKILL).1, deleter := .returned }
      .returned := by
  obtain ⟨rfl, hliving, hall⟩ := h
  have hreaped : s.kernel.processes pid = .reaped := by
    by_contra hreaped
    exact (s.kernel.pidfdSendSignal_eq_neg_one fd' SIGKILL).1 hres ⟨pid, hliving.process, hreaped⟩
  exact ⟨hall, .inl ⟨waited_concat.2 (.inl (hliving.reaped.1 hreaped)), hliving.closes⟩⟩

theorem LifeAt.signal {fd' : NativeHandle} (h : LifeAt fd pid ls s (.signal fd'))
    (hres : (s.kernel.pidfdSendSignal fd' SIGKILL).2 ≠ -1) :
    LifeAt fd pid (ls ++ [.deleterSignal])
      { s with kernel := (s.kernel.pidfdSendSignal fd' SIGKILL).1, deleter := .wait fd' }
      (.wait fd') := by
  obtain ⟨rfl, hliving, hall⟩ := h
  obtain ⟨hprocess, hreaped⟩ := s.kernel.pidfdSendSignal_process fd' SIGKILL
  refine ⟨rfl, hliving.step id hprocess rfl ?_, hall, ?_⟩
  · exact (hreaped pid).trans (or_iff_left id).symm
  · obtain ⟨pid', hpid', hzombie⟩ := terminated_of_sigkill hres
    rw [hprocess] at hpid'
    cases hliving.process.symm.trans hpid'
    exact hzombie

theorem LifeAt.waits {fd' : NativeHandle} {failure : Option Errno}
    (h : LifeAt fd pid ls s (.wait fd')) :
    LifeAt fd pid (ls ++ [.deleterWait failure])
      { s with kernel := (s.kernel.waitid fd' failure).1, deleter := .close fd' } (.close fd') := by
  obtain ⟨rfl, hliving, hall, hzombie⟩ := h
  have hwaited : ¬ Waited ls := by
    rw [← hliving.reaped, hzombie]
    exact nofun
  have hl : Label.Interrupts (.deleterWait failure) ↔ ¬ failure = none := by
    cases failure <;> simp [Label.Interrupts]
  refine ⟨rfl, hall, hliving.closes, ?_, ?_⟩
  · rwa [waited_concat_of_not id]
  · rw [waitid_reaped hliving.process fun _ => hzombie, interrupted_concat, hl]
    simp [hzombie, hliving.interrupted]

theorem LifeAt.close {fd' : NativeHandle} (h : LifeAt fd pid ls s (.close fd')) :
    LifeAt fd pid (ls ++ [.deleterClose])
      { s with
        kernel := (s.kernel.close fd').1
        deleter := .returned
        closes := s.closes + 1 } .returned := by
  obtain ⟨rfl, hall, hcloses, hwaited, hreaped⟩ := h
  obtain ⟨-, -, -, hprocesses⟩ := s.kernel.close_frame fd'
  refine ⟨hall, .inr ⟨?_, ?_, ?_, ?_⟩⟩
  · rwa [waited_concat_of_not id]
  · rw [hcloses]
  · rw [← AList.lookup_eq_none, Kernel.close_lookup, if_pos rfl]
  · rw [interrupted_concat_of_not id, hprocesses]
    exact hreaped

theorem Life.step (h : Life fd pid ls s) (hs : step pid s l = some s') :
    Life fd pid (ls ++ [l]) s' := by
  obtain ⟨hnull, hat⟩ := h
  cases step_cases hs with
  | exit hk => exact ⟨hnull.step hk, hat.exit hk⟩
  | kill hd ho =>
    exact ⟨hnull.of_eq (s.kernel.pidfdSendSignal_frame _ _).1, hat.kill hd⟩
  | wait hd ho hreturns =>
    exact ⟨hnull.of_eq (s.kernel.waitid_frame _ _).1, hat.wait hnull hd ho hreturns⟩
  | move hd hne hfree ho => exact ⟨hnull, hat.move hnull hd hne hfree ho⟩
  | destroyNull hfree ho => exact ⟨hnull, hat.destroyNull hnull hfree ho⟩
  | destroy hfree ho hfd => exact ⟨hnull, hat.destroy hfree ho hfd⟩
  | deleterSignalFails hd hres =>
    rw [hd] at hat
    exact ⟨hnull.of_eq (s.kernel.pidfdSendSignal_frame _ _).1, hat.signalFails hres⟩
  | deleterSignal hd hres =>
    rw [hd] at hat
    exact ⟨hnull.of_eq (s.kernel.pidfdSendSignal_frame _ _).1, hat.signal hres⟩
  | deleterWait hd hreturns =>
    rw [hd] at hat
    exact ⟨hnull.of_eq (s.kernel.waitid_frame _ _).1, hat.waits⟩
  | deleterClose hd =>
    rw [hd] at hat
    exact ⟨hnull.close, hat.close⟩

end Steps

/-! ## What the owner gives back -/

section Runs

variable {ok : State → Label → Prop} {fd : NativeHandle} {pid : Pid} {ls : List Label} {s : State}

theorem reach_life (h : (owning fd pid).Reach ok ls s) : Life fd pid ls s := by
  refine h.invariant ?_ ?_
  · rintro s ⟨hnull, hprocess, hreaped, howners, hd, hcloses⟩
    refine ⟨hnull, ?_⟩
    rw [hd]
    refine ⟨⟨hprocess, hcloses, ?_, ?_⟩, 0, ?_, ?_⟩
    · simp [hreaped, Waited]
    · simp [Interrupted]
    · rw [howners, AList.lookup_insert]
    · intro o fd' ho
      rw [howners, AList.lookup_insert_ite] at ho
      split at ho
      · next heq => exact .inl heq
      · cases ho
  · intro ls s l s' _ hlife _ hs
    exact hlife.step hs

/-- Once the owner has been destroyed everything has been given back, exactly when the child had
not been waited for before and the wait of the deleter was not interrupted. -/
theorem givesBack_iff (h : (owning fd pid).Reach ok ls s) (hreturned : s.deleter = .returned) :
    GivesBack fd pid s ↔ ¬ Waited ls ∧ ¬ Interrupted ls := by
  have hat := (reach_life h).at_deleter
  rw [hreturned] at hat
  obtain ⟨-, ⟨hwaited, hcloses⟩ | ⟨hwaited, hcloses, hclosed, hreaped⟩⟩ := hat
  · constructor
    · intro hgives
      cases hcloses.symm.trans hgives.once
    · intro hcond
      exact absurd hwaited hcond.1
  · constructor
    · intro hgives
      exact ⟨hwaited, hreaped.1 hgives.reaped⟩
    · intro hcond
      exact ⟨hclosed, hcloses, hreaped.2 hcond.2⟩

end Runs

/-- A process that has just spawned a child, whose pidfd is 3. -/
def spawned : State where
  kernel :=
    { descriptors := AList.singleton 3 0
      elsewhere := fun _ => 0
      nextOfd := 1
      pidfdOf := fun ofd => if ofd = 0 then some 7 else none
      processes := fun _ => .running
      interest := fun _ => none
      errno := 0 }
  owners := AList.insert 0 3 ∅
  deleter := .idle
  closes := 0

theorem spawned_init : (owning 3 7).init spawned := by
  exact ⟨rfl, rfl, by decide, rfl, rfl, rfl⟩

/-- The owner is moved, the child is asked to terminate, and both owners are destroyed. -/
theorem givesBack_moved : ∃ s, (owning 3 7).Reach (fun _ _ => True)
    [.move 0 1, .kill 1 15, .destroy 0, .destroy 1, .deleterSignal, .deleterWait none,
      .deleterClose] s ∧ s.deleter = .returned ∧ GivesBack 3 7 s := by
  have hrun : ((owning 3 7).run (fun _ _ => True) spawned
      [.move 0 1, .kill 1 15, .destroy 0, .destroy 1, .deleterSignal, .deleterWait none,
        .deleterClose]).map (fun s => s.deleter) = some .returned := by decide
  obtain ⟨s, hs, hd⟩ := Lts.Reach.exists_of_map_run spawned_init hrun
  exact ⟨s, hs, hd, (givesBack_iff hs hd).2 (by decide)⟩

/-- A child that has been waited for: its pidfd is never closed.  An interrupted deleter: the child
stays a zombie. -/
theorem waited_for_leaks_pidfd :
    (∃ s, (owning 3 7).Reach (fun _ _ => True)
        [.exit, .wait 0 none ⟨CLD_EXITED, 0⟩, .destroy 0, .deleterSignal] s ∧
      s.deleter = .returned ∧ 3 ∈ s.kernel.descriptors ∧ ¬ GivesBack 3 7 s) ∧
    ∃ s, (owning 3 7).Reach (fun _ _ => True)
        [.destroy 0, .deleterSignal, .deleterWait (some EINTR), .deleterClose] s ∧
      s.deleter = .returned ∧ s.kernel.processes 7 = .zombie ∧ ¬ GivesBack 3 7 s := by
  constructor
  · have hrun : ((owning 3 7).run (fun _ _ => True) spawned
        [.exit, .wait 0 none ⟨CLD_EXITED, 0⟩, .destroy 0, .deleterSignal]).map
          (fun s => (s.deleter, decide (3 ∈ s.kernel.descriptors))) = some (.returned, true) := by
      decide
    obtain ⟨s, hs, hlast⟩ := Lts.Reach.exists_of_map_run spawned_init hrun
    simp only [Prod.mk.injEq, decide_eq_true_eq] at hlast
    exact ⟨s, hs, hlast.1, hlast.2, fun hgives => hgives.closed hlast.2⟩
  · have hrun : ((owning 3 7).run (fun _ _ => True) spawned
        [.destroy 0, .deleterSignal, .deleterWait (some EINTR), .deleterClose]).map
          (fun s => (s.deleter, s.kernel.processes 7)) = some (.returned, .zombie) := by
      decide
    obtain ⟨s, hs, hlast⟩ := Lts.Reach.exists_of_map_run spawned_init hrun
    simp only [Prod.mk.injEq] at hlast
    refine ⟨s, hs, hlast.1, hlast.2, fun hgives => ?_⟩
    cases hlast.2.symm.trans hgives.reaped

end PidfdOwner

end ThePipe.OsServices.ProcMgmt
