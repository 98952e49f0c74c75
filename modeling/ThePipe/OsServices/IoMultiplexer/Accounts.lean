import ThePipe.OsServices.IoMultiplexer.Holding
import ThePipe.OsServices.Ipc.Endpoints

/-!
# Who has a descriptor

`Accounted k ledger owners` says that every open descriptor is accounted for: the program has it, or
one of the owners has, or it is a pidfd that its owner has not closed since the process had been
reaped before.  The ledger records in which state the process is when an owner is destroyed.  And of
the processes whose pidfds the program has given away only those run whose pidfds still have their
owners.

The rules say what becomes of this when a descriptor moves from the program to an owner, when an
owner is destroyed, and when the program and other processes open and close descriptors.
-/

set_option autoImplicit false

namespace ThePipe.OsServices.IoMultiplexer

open ErrorHandling Fd Lib

/-! ## What a deleter does to processes -/

/-- The processes get older: none of them starts to run again. -/
def Ages (k k' : Kernel) : Prop :=
  ∀ pid, k'.processes pid = .running → k.processes pid = .running

variable {k k' : Kernel} {tag : FileDescriptorTag} {fd : NativeHandle} {failure : Option Errno}

theorem Ages.of_eq (h : k'.processes = k.processes) : Ages k k' := by
  intro pid hpid
  rwa [h] at hpid

theorem Ages.of_update {pid : Pid} {state : ProcessState}
    (h : k'.processes = Function.update k.processes pid state)
    (hended : state ≠ .running) : Ages k k' := by
  intro pid' hpid
  rw [h, Function.update_apply] at hpid
  split at hpid
  · exact absurd hpid hended
  · exact hpid

theorem killedState_ne_running (failure : Option Errno) : killedState failure ≠ .running := by
  cases failure <;> simp [killedState]

/-- A deleter does nothing to processes, or it is one of a pidfd and kills the process. -/
theorem fileDescriptorDeleter_processes (k : Kernel) (tag : FileDescriptorTag) (fd : NativeHandle)
    (failure : Option Errno) :
    (fileDescriptorDeleter k tag fd failure).pidfdOf = k.pidfdOf ∧
      ((fileDescriptorDeleter k tag fd failure).processes = k.processes ∧
          (tag = .pidfd → fd ≠ -1 → ∀ pid, k.processOf fd = some pid →
            k.processes pid = .reaped) ∨
        ∃ pid, tag = .pidfd ∧ k.processOf fd = some pid ∧
          (fileDescriptorDeleter k tag fd failure).processes =
            Function.update k.processes pid (killedState failure)) := by
  cases tag with
  | generic =>
    unfold fileDescriptorDeleter
    dsimp only
    split
    · obtain ⟨-, -, hpidfd, hprocesses⟩ := k.close_frame fd
      exact ⟨hpidfd, .inl ⟨hprocesses, by simp⟩⟩
    · exact ⟨rfl, .inl ⟨rfl, by simp⟩⟩
  | pidfd =>
    by_cases hfd : fd = -1
    · unfold fileDescriptorDeleter
      dsimp only
      rw [if_pos hfd]
      exact ⟨rfl, .inl ⟨rfl, by simp [hfd]⟩⟩
    cases hpid : k.processOf fd with
    | none =>
      -- the signal fails, and the deleter does not close the descriptor
      have hsignal : k.pidfdSendSignal fd SIGKILL = ({ k with errno := EBADF }, -1) := by
        unfold Kernel.pidfdSendSignal
        rw [hpid]
      unfold fileDescriptorDeleter
      dsimp only
      rw [if_neg hfd, hsignal]
      exact ⟨rfl, .inl ⟨rfl, by simp⟩⟩
    | some pid =>
      by_cases halive : k.processes pid = .reaped
      · have hsignal : k.pidfdSendSignal fd SIGKILL = ({ k with errno := ESRCH }, -1) := by
          unfold Kernel.pidfdSendSignal
          rw [hpid]
          dsimp only
          rw [halive]
        unfold fileDescriptorDeleter
        dsimp only
        rw [if_neg hfd, hsignal]
        refine ⟨rfl, .inl ⟨rfl, ?_⟩⟩
        intro _ _ pid' heq
        cases heq
        exact halive
      · obtain ⟨err, heq⟩ := fileDescriptorDeleter_pidfd hfd hpid halive failure
        rw [heq]
        obtain ⟨-, -, hpidfd, hprocesses⟩ := ({ k with
          processes := Function.update k.processes pid (killedState failure)
          errno := err } : Kernel).close_frame fd
        exact ⟨hpidfd, .inr ⟨pid, rfl, rfl, hprocesses⟩⟩

theorem fileDescriptorDeleter_ages : Ages k (fileDescriptorDeleter k tag fd failure) := by
  obtain ⟨-, ⟨hsame, -⟩ | ⟨pid, -, -, hupdate⟩⟩ :=
    fileDescriptorDeleter_processes k tag fd failure
  · exact .of_eq hsame
  · exact .of_update hupdate (killedState_ne_running failure)

theorem fileDescriptorDeleter_kills {pid : Pid} (hfd : fd ≠ -1) (hpid : k.processOf fd = some pid) :
    (fileDescriptorDeleter k .pidfd fd failure).processes pid ≠ .running := by
  obtain ⟨-, ⟨hsame, hreaped⟩ | ⟨pid', -, hpid', hupdate⟩⟩ :=
    fileDescriptorDeleter_processes k .pidfd fd failure
  · rw [hsame, hreaped rfl hfd pid hpid]
    simp
  · obtain rfl := Option.some.inj (hpid.symm.trans hpid')
    rw [hupdate, Function.update_self]
    exact killedState_ne_running failure

theorem fileDescriptorDeleter_lookup (fd' : NativeHandle) :
    (fileDescriptorDeleter k tag fd failure).descriptors.lookup fd' =
      if DeleterCloses k tag fd ∧ fd' = fd then none else k.descriptors.lookup fd' := by
  obtain ⟨k₀, hd, -, -, heq⟩ := fileDescriptorDeleter_cases k tag fd failure
  rw [heq]
  by_cases hcloses : DeleterCloses k tag fd
  · rw [if_pos hcloses, Kernel.close_lookup, hd]
    simp only [hcloses, true_and]
  · rw [if_neg hcloses, hd]
    simp only [hcloses, false_and, if_false]

theorem fileDescriptorDeleter_null :
    fileDescriptorDeleter k tag (-1) failure = k := by
  cases tag <;> simp [fileDescriptorDeleter]

theorem processOf_congr (hlookup : k'.descriptors.lookup fd = k.descriptors.lookup fd)
    (hpidfd : k'.pidfdOf = k.pidfdOf) : k'.processOf fd = k.processOf fd := by
  unfold Kernel.processOf
  rw [hlookup, hpidfd]

/-! ## The accounts -/

/-- What the program has, what it has given away, and what has been destroyed. -/
structure Ledger where
  program : AList fun _ : NativeHandle => Ofd
  /-- The processes whose pidfds have been moved to an owner. -/
  handed : List Pid
  /-- The state in which the process of a pidfd was when its last owner was destroyed. -/
  destroyed : NativeHandle → Option ProcessState

/-- An owner of a descriptor, which is not null. -/
abbrev Owner := FileDescriptorTag × NativeHandle

/-- The state of the process whose pidfd is owned. -/
def ownedProcess (k : Kernel) : Owner → Option ProcessState
  | (.generic, _) => none
  | (.pidfd, fd) => (k.processOf fd).map k.processes

theorem ownedProcess_congr (hdescriptors : k'.descriptors = k.descriptors)
    (hpidfd : k'.pidfdOf = k.pidfdOf) (hprocesses : k'.processes = k.processes) (o : Owner) :
    ownedProcess k' o = ownedProcess k o := by
  obtain ⟨tag, fd⟩ := o
  cases tag with
  | generic => rfl
  | pidfd =>
    show (k'.processOf fd).map k'.processes = (k.processOf fd).map k.processes
    rw [processOf_congr (by rw [hdescriptors]) hpidfd, hprocesses]

/-- The last owner of the descriptor was that of a pidfd, whose process had been reaped before the
owner was destroyed. -/
def Leaked (ledger : Ledger) (fd : NativeHandle) : Prop := ledger.destroyed fd = some .reaped

/-- Every open descriptor is accounted for, and so is every process that has been given away. -/
structure Accounted (k : Kernel) (ledger : Ledger) (owners : List Owner) : Prop where
  nullClosed : k.NullClosed
  program : ∀ fd ofd, ledger.program.lookup fd = some ofd → k.descriptors.lookup fd = some ofd
  /-- No two owners have the same descriptor. -/
  once : (owners.map Prod.snd).Nodup
  owned : ∀ o ∈ owners, o.2 ∈ k.descriptors ∧ o.2 ∉ ledger.program
  pidfd : ∀ o ∈ owners, o.1 = .pidfd → (k.processOf o.2).isSome
  others : ∀ fd ∈ k.descriptors, fd ∉ ledger.program → (∀ o ∈ owners, o.2 ≠ fd) → Leaked ledger fd
  handed : ∀ pid ∈ ledger.handed, k.processes pid = .running →
    ∃ o ∈ owners, o.1 = .pidfd ∧ k.processOf o.2 = some pid

/-- A descriptor of the program is moved to an owner. -/
def Ledger.move (ledger : Ledger) (k : Kernel) (o : Owner) : Ledger :=
  { ledger with
    program := ledger.program.erase o.2
    handed := match o.1 with
      | .generic => ledger.handed
      | .pidfd => ledger.handed ++ (k.processOf o.2).toList }

/-- An owner is about to be destroyed. -/
def Ledger.destroy (ledger : Ledger) (k : Kernel) (o : Owner) : Ledger :=
  { ledger with destroyed := Function.update ledger.destroyed o.2 (ownedProcess k o) }

namespace Accounted

variable {ledger : Ledger} {o : Owner} {owners owners' : List Owner}

theorem perm (h : Accounted k ledger owners) (hp : owners.Perm owners') :
    Accounted k ledger owners' where
  nullClosed := h.nullClosed
  program := h.program
  once := (hp.map Prod.snd).nodup_iff.1 h.once
  owned o ho := h.owned o (hp.mem_iff.2 ho)
  pidfd o ho := h.pidfd o (hp.mem_iff.2 ho)
  others fd hopen hprogram howners :=
    h.others fd hopen hprogram fun o ho => howners o (hp.mem_iff.1 ho)
  handed pid hpid hrunning := by
    obtain ⟨o, ho, hpidfd⟩ := h.handed pid hpid hrunning
    exact ⟨o, hp.mem_iff.1 ho, hpidfd⟩

theorem congr (h : Accounted k ledger owners)
    (hlookup : ∀ fd, k'.descriptors.lookup fd = k.descriptors.lookup fd)
    (hpidfd : k'.pidfdOf = k.pidfdOf) (hages : Ages k k') : Accounted k' ledger owners := by
  have hprocess : ∀ fd, k'.processOf fd = k.processOf fd :=
    fun fd => processOf_congr (hlookup fd) hpidfd
  have hmem : ∀ fd, fd ∈ k'.descriptors ↔ fd ∈ k.descriptors := by
    intro fd
    rw [← AList.lookup_isSome, ← AList.lookup_isSome, hlookup]
  refine ⟨(hlookup _).trans h.nullClosed, ?_, h.once, ?_, ?_, ?_, ?_⟩
  · intro fd ofd hfd
    rw [hlookup]
    exact h.program fd ofd hfd
  · intro o ho
    rw [hmem]
    exact h.owned o ho
  · intro o ho
    rw [hprocess]
    exact h.pidfd o ho
  · intro fd hopen hprogram howners
    rw [hmem] at hopen
    exact h.others fd hopen hprogram howners
  · intro pid hpid hrunning
    obtain ⟨o, ho, htag, hprocess'⟩ := h.handed pid hpid (hages pid hrunning)
    exact ⟨o, ho, htag, (hprocess o.2).trans hprocess'⟩

theorem ne_null (h : Accounted k ledger owners) (ho : o ∈ owners) : o.2 ≠ -1 := by
  intro hnull
  have hopen := (h.owned o ho).1
  rw [hnull, ← AList.lookup_isSome, h.nullClosed] at hopen
  cases hopen

theorem move (h : Accounted k ledger owners) (hprogram : o.2 ∈ ledger.program)
    (hpidfd : o.1 = .pidfd → (k.processOf o.2).isSome) :
    Accounted k (ledger.move k o) (o :: owners) := by
  have hsub : ∀ fd ofd, (ledger.program.erase o.2).lookup fd = some ofd →
      fd ≠ o.2 ∧ ledger.program.lookup fd = some ofd := by
    intro fd ofd hfd
    rw [AList.lookup_erase_ite] at hfd
    split at hfd
    · cases hfd
    · next hne => exact ⟨hne, hfd⟩
  have hmem : ∀ fd, fd ∈ ledger.program.erase o.2 ↔ fd ≠ o.2 ∧ fd ∈ ledger.program := by
    intro fd
    rw [AList.mem_erase]
  -- the program has had the descriptor, so no other owner has it
  have hne : ∀ o' ∈ owners, o'.2 ≠ o.2 := by
    intro o' ho' heq
    exact (h.owned o' ho').2 (heq ▸ hprogram)
  refine ⟨h.nullClosed, ?_, ?_, ?_, ?_, ?_, ?_⟩
  · intro fd ofd hfd
    exact h.program fd ofd (hsub fd ofd hfd).2
  · rw [List.map_cons, List.nodup_cons]
    refine ⟨?_, h.once⟩
    intro hdup
    obtain ⟨o', ho', heq⟩ := List.mem_map.1 hdup
    exact hne o' ho' heq
  · intro o' ho'
    show o'.2 ∈ k.descriptors ∧ o'.2 ∉ ledger.program.erase o.2
    rw [hmem]
    rcases List.mem_cons.1 ho' with rfl | ho'
    · obtain ⟨ofd, hofd⟩ := Option.isSome_iff_exists.1 (AList.lookup_isSome.2 hprogram)
      exact ⟨AList.lookup_isSome.1 (by rw [h.program _ ofd hofd]; rfl), by simp⟩
    · obtain ⟨hopen, hnot⟩ := h.owned o' ho'
      exact ⟨hopen, fun hin => hnot hin.2⟩
  · intro o' ho'
    rcases List.mem_cons.1 ho' with rfl | ho'
    · exact hpidfd
    · exact h.pidfd o' ho'
  · intro fd hopen hnot howners
    simp only [List.forall_mem_cons] at howners
    refine h.others fd hopen ?_ howners.2
    intro hin
    exact hnot ((hmem fd).2 ⟨Ne.symm howners.1, hin⟩)
  · intro pid hpid hrunning
    -- the process has been given away before, or is that of the pidfd
    have hcases : pid ∈ ledger.handed ∨ o.1 = .pidfd ∧ k.processOf o.2 = some pid := by
      unfold Ledger.move at hpid
      dsimp only at hpid
      split at hpid
      · exact .inl hpid
      · next htag =>
        rcases List.mem_append.1 hpid with hpid | hpid
        · exact .inl hpid
        · exact .inr ⟨htag, Option.mem_toList.1 hpid⟩
    rcases hcases with hpid | hnew
    · obtain ⟨o', ho', hrest⟩ := h.handed pid hpid hrunning
      exact ⟨o', List.mem_cons_of_mem _ ho', hrest⟩
    · exact ⟨o, List.mem_cons_self, hnew⟩

theorem destroy (h : Accounted k ledger (o :: owners)) (failure : Option Errno) :
    Accounted (fileDescriptorDeleter k o.1 o.2 failure) (ledger.destroy k o) owners := by
  have hages : Ages k (fileDescriptorDeleter k o.1 o.2 failure) := fileDescriptorDeleter_ages
  have hpidfdOf := (fileDescriptorDeleter_processes k o.1 o.2 failure).1
  have hnull := h.ne_null List.mem_cons_self
  have hnot := (h.owned o List.mem_cons_self).2
  have honce := h.once
  rw [List.map_cons, List.nodup_cons] at honce
  have hlookup : ∀ fd, fd ≠ o.2 →
      (fileDescriptorDeleter k o.1 o.2 failure).descriptors.lookup fd = k.descriptors.lookup fd := by
    intro fd hne
    rw [fileDescriptorDeleter_lookup, if_neg fun hclosed => hne hclosed.2]
  have hprocess : ∀ fd, fd ≠ o.2 →
      (fileDescriptorDeleter k o.1 o.2 failure).processOf fd = k.processOf fd :=
    fun fd hne => processOf_congr (hlookup fd hne) hpidfdOf
  have hne : ∀ o' ∈ owners, o'.2 ≠ o.2 := by
    intro o' ho' heq
    exact honce.1 (heq ▸ List.mem_map_of_mem ho')
  refine ⟨fileDescriptorDeleter_nullClosed h.nullClosed, ?_, honce.2, ?_, ?_, ?_, ?_⟩
  · intro fd ofd hfd
    change ledger.program.lookup fd = some ofd at hfd
    have hprogram : fd ∈ ledger.program := AList.lookup_isSome.1 (by rw [hfd]; rfl)
    rw [hlookup fd fun heq => hnot (heq ▸ hprogram)]
    exact h.program fd ofd hfd
  · intro o' ho'
    rw [← AList.lookup_isSome, hlookup _ (hne o' ho'), AList.lookup_isSome]
    exact h.owned o' (List.mem_cons_of_mem _ ho')
  · intro o' ho'
    rw [hprocess _ (hne o' ho')]
    exact h.pidfd o' (List.mem_cons_of_mem _ ho')
  · intro fd hopen hprogram howners
    by_cases hfd : fd = o.2
    · -- its deleter has not closed the descriptor, since the process had been reaped
      subst hfd
      rw [← AList.lookup_isSome, fileDescriptorDeleter_lookup] at hopen
      have hcloses : ¬ DeleterCloses k o.1 o.2 := by
        intro hcloses
        rw [if_pos ⟨hcloses, rfl⟩] at hopen
        cases hopen
      obtain ⟨htag, hreaped⟩ : o.1 = .pidfd ∧
          ∀ pid, k.processOf o.2 = some pid → k.processes pid = .reaped := by
        simpa [DeleterCloses, hnull] using hcloses
      obtain ⟨pid, hpid⟩ := Option.isSome_iff_exists.1 (h.pidfd o List.mem_cons_self htag)
      obtain ⟨tag, fd⟩ := o
      obtain rfl : tag = .pidfd := htag
      show Function.update ledger.destroyed fd (ownedProcess k (.pidfd, fd)) fd = some .reaped
      rw [Function.update_self, ownedProcess, hpid, Option.map_some, hreaped pid hpid]
    · rw [← AList.lookup_isSome, hlookup fd hfd, AList.lookup_isSome] at hopen
      have hold := h.others fd hopen hprogram (List.forall_mem_cons.2 ⟨Ne.symm hfd, howners⟩)
      exact (Function.update_of_ne hfd _ _).trans hold
  · intro pid hpid hrunning
    obtain ⟨o', ho', htag, hprocess'⟩ := h.handed pid hpid (hages pid hrunning)
    rcases List.mem_cons.1 ho' with rfl | ho'
    · rw [htag] at hrunning
      exact absurd hrunning (fileDescriptorDeleter_kills hnull hprocess')
    · exact ⟨o', ho', htag, (hprocess _ (hne o' ho')).trans hprocess'⟩

theorem opens {fd : ℤ} {ofd : Ofd} (h : Accounted k ledger owners) (hnonneg : 0 ≤ fd)
    (hfresh : fd ∉ k.descriptors) (hd : k'.descriptors = k.descriptors.insert fd ofd)
    (hprocess : ∀ fd' ∈ k.descriptors, k'.processOf fd' = k.processOf fd') (hages : Ages k k') :
    Accounted k' { ledger with program := ledger.program.insert fd ofd } owners := by
  have hne : ∀ fd' ∈ k.descriptors, fd' ≠ fd := by
    rintro fd' hfd' rfl
    exact hfresh hfd'
  have hnull : k'.NullClosed := by
    have hne' : (-1 : ℤ) ≠ fd := by omega
    unfold Kernel.NullClosed
    rw [hd, AList.lookup_insert_ne hne']
    exact h.nullClosed
  refine ⟨hnull, ?_, h.once, ?_, ?_, ?_, ?_⟩
  · intro fd' ofd' hfd'
    rw [hd, AList.lookup_insert_ite]
    rw [AList.lookup_insert_ite] at hfd'
    split at hfd'
    · next heq => rwa [if_pos heq]
    · next hfd =>
      rw [if_neg hfd]
      exact h.program fd' ofd' hfd'
  · intro o ho
    obtain ⟨hopen, hnot⟩ := h.owned o ho
    rw [hd, AList.mem_insert, AList.mem_insert]
    exact ⟨.inr hopen, fun hin => hin.elim (hne _ hopen) hnot⟩
  · intro o ho htag
    rw [hprocess _ (h.owned o ho).1]
    exact h.pidfd o ho htag
  · intro fd' hopen hprogram howners
    rw [AList.mem_insert, not_or] at hprogram
    rw [hd, AList.mem_insert] at hopen
    exact h.others fd' (hopen.resolve_left hprogram.1) hprogram.2 howners
  · intro pid hpid hrunning
    obtain ⟨o, ho, htag, hprocess'⟩ := h.handed pid hpid (hages pid hrunning)
    exact ⟨o, ho, htag, (hprocess _ (h.owned o ho).1).trans hprocess'⟩

theorem close {fd : NativeHandle} (h : Accounted k ledger owners) (hprogram : fd ∈ ledger.program) :
    Accounted (k.close fd).1 { ledger with program := ledger.program.erase fd } owners := by
  obtain ⟨-, -, hpidfd, hprocesses⟩ := k.close_frame fd
  have hlookup : ∀ fd', fd' ≠ fd →
      (k.close fd).1.descriptors.lookup fd' = k.descriptors.lookup fd' := by
    intro fd' hne
    rw [Kernel.close_lookup, if_neg hne]
  have hprocess : ∀ fd', fd' ≠ fd → (k.close fd).1.processOf fd' = k.processOf fd' :=
    fun fd' hne => processOf_congr (hlookup fd' hne) hpidfd
  have hne : ∀ o ∈ owners, o.2 ≠ fd := by
    intro o ho heq
    exact (h.owned o ho).2 (heq ▸ hprogram)
  refine ⟨h.nullClosed.close, ?_, h.once, ?_, ?_, ?_, ?_⟩
  · intro fd' ofd' hfd'
    rw [AList.lookup_erase_ite] at hfd'
    split at hfd'
    · cases hfd'
    · next hfd =>
      rw [hlookup fd' hfd]
      exact h.program fd' ofd' hfd'
  · intro o ho
    obtain ⟨hopen, hnot⟩ := h.owned o ho
    rw [← AList.lookup_isSome, hlookup _ (hne o ho), AList.lookup_isSome, AList.mem_erase]
    exact ⟨hopen, fun hin => hnot hin.2⟩
  · intro o ho htag
    rw [hprocess _ (hne o ho)]
    exact h.pidfd o ho htag
  · intro fd' hopen hnot howners
    rw [← AList.lookup_isSome, Kernel.close_lookup] at hopen
    split at hopen
    · cases hopen
    · next hfd =>
      rw [AList.lookup_isSome] at hopen
      rw [AList.mem_erase] at hnot
      exact h.others fd' hopen (fun hin => hnot ⟨hfd, hin⟩) howners
  · intro pid hpid hrunning
    rw [hprocesses] at hrunning
    obtain ⟨o, ho, htag, hprocess'⟩ := h.handed pid hpid hrunning
    exact ⟨o, ho, htag, (hprocess _ (hne o ho)).trans hprocess'⟩

end Accounted

/-! ## Steps of the program and of other processes -/

/-- What the program has after a step. -/
def Ledger.kernelStep (ledger : Ledger) (k : Kernel) : KernelStep → Ledger
  | .openDescriptor fd _ => { ledger with program := ledger.program.insert fd k.nextOfd }
  | .dup fd fd' =>
    match k.descriptors.lookup fd with
    | none => ledger
    | some ofd => { ledger with program := ledger.program.insert fd' ofd }
  | .close fd => { ledger with program := ledger.program.erase fd }
  | _ => ledger

theorem Accounted.kernelStep {ledger : Ledger} {owners : List Owner} {e : KernelStep}
    (h : Accounted k ledger owners) (hb : k.Bounded) (hstep : k.step e = some k')
    (hclose : ∀ fd, e = .close fd → fd ∈ ledger.program) :
    Accounted k' (ledger.kernelStep k e) owners := by
  cases e with
  | openDescriptor fd process =>
    obtain ⟨⟨hnonneg, hfresh⟩, rfl⟩ := Kernel.openDescriptor_eq_some.1 hstep
    refine h.opens hnonneg hfresh rfl ?_ (.of_eq rfl)
    intro fd' hfd'
    obtain ⟨ofd, hofd⟩ := Option.isSome_iff_exists.1 (AList.lookup_isSome.2 hfd')
    have hne : fd' ≠ fd := by
      rintro rfl
      exact hfresh hfd'
    -- the new open file description is none of the old ones
    have hold : ofd ≠ k.nextOfd := (hb.descriptors fd' ofd hofd).ne
    unfold Kernel.processOf
    dsimp only
    rw [AList.lookup_insert_ne hne, hofd]
    exact Function.update_of_ne hold _ _
  | dup fd fd' =>
    unfold Ledger.kernelStep
    simp only [Kernel.step] at hstep
    split at hstep
    · cases hstep
    · next ofd hofd =>
      obtain ⟨⟨hnonneg, hfresh⟩, rfl⟩ : _ ∧ _ = k' := by simpa using hstep
      dsimp only
      rw [hofd]
      refine h.opens hnonneg hfresh rfl ?_ (.of_eq rfl)
      intro fd₁ hfd₁
      refine processOf_congr (AList.lookup_insert_ne ?_) rfl
      rintro rfl
      exact hfresh hfd₁
  | close fd =>
    obtain ⟨-, rfl⟩ : _ ∧ _ = k' := by simpa [Kernel.step] using hstep
    exact h.close (hclose fd rfl)
  | share ofd =>
    obtain ⟨-, rfl⟩ : _ ∧ _ = k' := by simpa [Kernel.step] using hstep
    exact h.congr (fun _ => rfl) rfl (.of_eq rfl)
  | unshare ofd =>
    obtain ⟨-, rfl⟩ : _ ∧ _ = k' := by simpa [Kernel.step] using hstep
    refine h.congr ?_ ?_ (.of_eq ?_)
    · intro fd
      unfold Kernel.release
      split <;> rfl
    · unfold Kernel.release
      split <;> rfl
    · unfold Kernel.release
      split <;> rfl
  | exit pid =>
    obtain ⟨-, rfl⟩ : _ ∧ _ = k' := by simpa [Kernel.step] using hstep
    exact h.congr (fun _ => rfl) rfl (.of_update rfl (by simp))
  | reap pid =>
    obtain ⟨-, rfl⟩ : _ ∧ _ = k' := by simpa [Kernel.step] using hstep
    exact h.congr (fun _ => rfl) rfl (.of_update rfl (by simp))

end ThePipe.OsServices.IoMultiplexer
