import Mathlib.Data.List.Permutation
import ThePipe.OsServices.IoMultiplexer.Accounts

/-!
# The life of an epoll instance

From the constructor, which makes the epoll descriptor, over any run of the event loop to the
destructor, which destroys the listeners that are left, in an order that the hash table decides, and
then closes the epoll descriptor.

In all this the instance never touches a descriptor that the program has kept, and it gives back
everything that the program has moved into it: in the end what is open is what the program has, and
pidfds of processes that had been reaped before their owners were destroyed; and none of the
processes whose pidfds have been moved into the instance runs any more (`gives_everything_back`).
The ledger of the run records in which state a process is at the moment when an owner of its pidfd
is destroyed.
-/

set_option autoImplicit false

namespace ThePipe.OsServices.IoMultiplexer

open ErrorHandling Fd Lib

/-! ## The constructor and the destructor -/

namespace EpollInstance

/-- A new instance, with the empty interest list of its epoll descriptor. -/
def new (k : Kernel) (waitidFailure : Ptr → Option Errno) : EpollInstance where
  kernel := { k with interest := fun _ => none }
  listeners := ∅
  currentId := ⟨0⟩
  addedIds := fun _ => none
  nextTransaction := 0
  nextPtr := 0
  waitidFailure := waitidFailure

/-- The constructor; `result` is the one of `epoll_create1`. -/
def construct (k : Kernel) (waitidFailure : Ptr → Option Errno)
    (result : Except Errno NativeHandle) : Option (Kernel × Except SystemError EpollInstance) :=
  (k.newDescriptor result).map fun (k, epollFd) =>
    if epollFd = -1 then (k, .error ⟨"Failed to an fd activity monitor", k.errno⟩)
    else (k, .ok (new k waitidFailure))

/-- The destructor, with the order in which the listeners are destroyed. -/
def destruct (m : EpollInstance) (epollFd : NativeHandle) (order : List EventHandlerId) : Kernel :=
  fileDescriptorDeleter (order.foldl erase m).kernel .generic epollFd none

end EpollInstance

/-! ## The ledger of a run -/

/-- The descriptor that a call moves into the instance. -/
def Call.moved : Call → Option Owner
  | .add fd tag _ _ | .transactionAdd _ fd tag _ _ => some (tag, fd)
  | _ => none

namespace Ledger

variable (ledger : Ledger)

/-- The program moves a descriptor into the instance. -/
def moveIn (k : Kernel) (o : Owner) : Ledger := if o.2 = -1 then ledger else ledger.move k o

/-- The listener is destroyed, if there is one. -/
def erase (m : EpollInstance) (id : EventHandlerId) : Ledger :=
  match m.listeners.lookup id with
  | none => ledger
  | some e => ledger.destroy m.kernel (e.tag, e.fd)

/-- Listeners are destroyed one after the other, by `drop`. -/
def eraseEach (drop : EpollInstance → EventHandlerId → EpollInstance) :
    Ledger → EpollInstance → List EventHandlerId → Ledger
  | ledger, _, [] => ledger
  | ledger, m, id :: ids => eraseEach drop (ledger.erase m id) (drop m id) ids

/-- `add`, which has led to `m'`, destroys the owner that it has been given unless it has stored the
new entry. -/
def add (m : EpollInstance) (fd : NativeHandle) (tag : FileDescriptorTag) (m' : EpollInstance) :
    Ledger :=
  if m'.listeners.lookup m.currentId = some (m.newEntry fd tag) then ledger
  else ledger.destroy m.kernel (tag, fd)

def call (m : EpollInstance) : Call → Ledger
  | .add fd tag status failure | .transactionAdd _ fd tag status failure =>
    (ledger.moveIn m.kernel (tag, fd)).add m fd tag (m.add fd tag status failure).1
  | .remove id => ledger.erase m id
  | .destroyTransaction t => eraseEach EpollInstance.remove ledger m ((m.addedIds t).getD [])
  | .makeConfigTransaction | .commit _ => ledger

/-- The ledger after a step. -/
def record (s : State) : Label → Ledger
  | .call c => ledger.call s.monitor c
  | .kernel e => ledger.kernelStep s.monitor.kernel e
  | .handlerReturns =>
    match s.control with
    | .handling activity _ =>
      match s.monitor.entryAt activity.data with
      | some entry =>
        if activity.itemShouldBeRemoved then ledger.erase s.monitor entry.id else ledger
      | none => ledger
    | _ => ledger
  | _ => ledger

/-- The ledger after the destructor. -/
def destruct (m : EpollInstance) (epollFd : NativeHandle) (order : List EventHandlerId) : Ledger :=
  (eraseEach EpollInstance.erase ledger m order).destroy (order.foldl EpollInstance.erase m).kernel
    (.generic, epollFd)

@[simp] theorem erase_program (m : EpollInstance) (id : EventHandlerId) :
    (ledger.erase m id).program = ledger.program := by
  unfold erase
  split <;> rfl

@[simp] theorem erase_handed (m : EpollInstance) (id : EventHandlerId) :
    (ledger.erase m id).handed = ledger.handed := by
  unfold erase
  split <;> rfl

variable {ledger}

theorem erase_of_none {m : EpollInstance} {id : EventHandlerId}
    (hl : m.listeners.lookup id = none) : ledger.erase m id = ledger := by
  unfold erase
  rw [hl]

theorem erase_of_some {m : EpollInstance} {id : EventHandlerId} {e : Entry}
    (hl : m.listeners.lookup id = some e) :
    ledger.erase m id = ledger.destroy m.kernel (e.tag, e.fd) := by
  unfold erase
  rw [hl]

theorem add_of_stored {m m' : EpollInstance} {fd : NativeHandle} {tag : FileDescriptorTag}
    (h : m'.listeners.lookup m.currentId = some (m.newEntry fd tag)) :
    ledger.add m fd tag m' = ledger := if_pos h

theorem add_of_not_stored {m m' : EpollInstance} {fd : NativeHandle} {tag : FileDescriptorTag}
    (h : m'.listeners.lookup m.currentId ≠ some (m.newEntry fd tag)) :
    ledger.add m fd tag m' = ledger.destroy m.kernel (tag, fd) := if_neg h

theorem eraseEach_same (drop : EpollInstance → EventHandlerId → EpollInstance) (m : EpollInstance)
    (ids : List EventHandlerId) : (eraseEach drop ledger m ids).program = ledger.program ∧
      (eraseEach drop ledger m ids).handed = ledger.handed := by
  induction ids generalizing ledger m with
  | nil => exact ⟨rfl, rfl⟩
  | cons id ids ih => simpa [eraseEach] using @ih (ledger.erase m id) (drop m id)

end Ledger

/-- The program has what is moved, and an owner of a pidfd has a pidfd. -/
def Ledger.MayMove (ledger : Ledger) (k : Kernel) : Option Owner → Prop
  | none => True
  | some o => o.2 = -1 ∨ o.2 ∈ ledger.program ∧ (o.1 = .pidfd → (k.processOf o.2).isSome)

instance (ledger : Ledger) (k : Kernel) : DecidablePred (ledger.MayMove k)
  | none => inferInstanceAs (Decidable True)
  | some o => inferInstanceAs (Decidable (o.2 = -1 ∨
      o.2 ∈ ledger.program ∧ (o.1 = .pidfd → (k.processOf o.2).isSome)))

/-- The program moves and closes only what it has. -/
def UsesItsOwn (p : State × Ledger) : Label → Prop
  | .call c => p.2.MayMove p.1.monitor.kernel c.moved
  | .kernel (.close fd) => fd ∈ p.2.program
  | _ => True

instance (p : State × Ledger) (l : Label) : Decidable (UsesItsOwn p l) :=
  match l with
  | .call c => inferInstanceAs (Decidable (p.2.MayMove p.1.monitor.kernel c.moved))
  | .kernel (.close fd) => inferInstanceAs (Decidable (fd ∈ p.2.program))
  | .kernel (.openDescriptor ..) | .kernel (.dup ..) | .kernel (.share _) | .kernel (.unshare _)
  | .kernel (.exit _) | .kernel (.reap _) | .waitReturns _ | .waitFails | .process
  | .updateListeningStatus .. | .stopListening | .handlerReturns | .handlerThrows | .leave =>
    inferInstanceAs (Decidable True)

/-- An instance that is constructed in `k`, with the ledger of the program. -/
def lifetime (k : Kernel) (epollFd : NativeHandle) : Lts (State × Ledger) Label where
  init p := ∃ waitidFailure k' m,
    EpollInstance.construct k waitidFailure (.ok epollFd) = some (k', .ok m) ∧
      p = (⟨m, .idle, []⟩, ⟨k.descriptors, [], fun _ => none⟩)
  step p l := (p.1.step l).map fun s => (s, p.2.record p.1 l)

/-! ## The owners -/

/-- An owner of null has nothing. -/
def nonNull (owners : List Owner) : List Owner := owners.filter fun o => o.2 ≠ -1

def ownersOf (listeners : AList fun _ : EventHandlerId => Entry) : List Owner :=
  listeners.entries.map fun l => (l.2.tag, l.2.fd)

/-- All descriptors are accounted for by the program, the listeners and the owners `others`. -/
def EpollInstance.AccountedFor (m : EpollInstance) (ledger : Ledger) (others : List Owner) : Prop :=
  Accounted m.kernel ledger (nonNull (others ++ ownersOf m.listeners))

section Owners

variable {k : Kernel} {ledger : Ledger} {o : Owner} {owners : List Owner}
  {listeners : AList fun _ : EventHandlerId => Entry} {id : EventHandlerId} {e : Entry}

theorem Accounted.destroyOwner (h : Accounted k ledger (nonNull (o :: owners)))
    (failure : Option Errno) :
    Accounted (fileDescriptorDeleter k o.1 o.2 failure) (ledger.destroy k o) (nonNull owners) := by
  unfold nonNull at h
  by_cases hnull : o.2 = -1
  · rw [List.filter_cons_of_neg (by simp [hnull])] at h
    rw [hnull, fileDescriptorDeleter_null]
    refine ⟨h.nullClosed, h.program, h.once, h.owned, h.pidfd, ?_, h.handed⟩
    intro fd hopen hprogram howners
    -- the entry for null is about no descriptor
    have hne : fd ≠ o.2 := by
      rintro rfl
      rw [hnull, ← AList.lookup_isSome, h.nullClosed] at hopen
      cases hopen
    exact (Function.update_of_ne hne _ _).trans (h.others fd hopen hprogram howners)
  · rw [List.filter_cons_of_pos (by simp [hnull])] at h
    exact h.destroy failure

theorem ownersOf_insert (hid : id ∉ listeners) :
    ownersOf (listeners.insert id e) = (e.tag, e.fd) :: ownersOf listeners := by
  unfold ownersOf
  rw [AList.entries_insert_of_notMem hid, List.map_cons]

theorem ownersOf_erase (hl : listeners.lookup id = some e) :
    (ownersOf listeners).Perm ((e.tag, e.fd) :: ownersOf (listeners.erase id)) := by
  have hmem : id ∈ listeners.entries.keys := AList.lookup_isSome.1 (by rw [hl]; rfl)
  obtain ⟨e', l₁, l₂, -, hentries, herase⟩ := List.exists_of_kerase hmem
  have hin : (⟨id, e'⟩ : Sigma fun _ : EventHandlerId => Entry) ∈ listeners.entries := by
    rw [hentries]
    simp
  obtain rfl := Option.some.inj (hl.symm.trans (AList.mem_lookup_iff.2 hin))
  unfold ownersOf
  show (listeners.entries.map _).Perm (_ :: (List.kerase id listeners.entries).map _)
  rw [herase, hentries, List.map_append, List.map_append, List.map_cons]
  exact List.perm_middle

end Owners

/-! ## The operations -/

namespace EpollInstance.AccountedFor

variable {m m' : EpollInstance} {ledger : Ledger} {others : List Owner}

theorem of_eq (h : m.AccountedFor ledger others) (hl : m'.listeners = m.listeners)
    (hd : m'.kernel.descriptors = m.kernel.descriptors)
    (hpidfd : m'.kernel.pidfdOf = m.kernel.pidfdOf)
    (hprocesses : m'.kernel.processes = m.kernel.processes) : m'.AccountedFor ledger others := by
  unfold AccountedFor at h ⊢
  rw [hl]
  refine h.congr ?_ hpidfd (.of_eq hprocesses)
  intro fd
  rw [hd]

theorem destroy {e : Entry} (h : m.AccountedFor ledger ((e.tag, e.fd) :: others)) :
    (m.destroy e).AccountedFor (ledger.destroy m.kernel (e.tag, e.fd)) others :=
  h.destroyOwner _

theorem erase (h : m.AccountedFor ledger others) (id : EventHandlerId) :
    (m.erase id).AccountedFor (ledger.erase m id) others := by
  unfold EpollInstance.erase
  split
  · next hl =>
    rw [Ledger.erase_of_none hl]
    exact h
  · next e hl =>
    have hp : (others ++ ownersOf m.listeners).Perm
        ((e.tag, e.fd) :: others ++ ownersOf (m.listeners.erase id)) :=
      ((ownersOf_erase hl).append_left others).trans List.perm_middle
    have hmoved : ({ m with listeners := m.listeners.erase id } : EpollInstance).AccountedFor ledger
        ((e.tag, e.fd) :: others) := h.perm (hp.filter _)
    rw [Ledger.erase_of_some hl]
    exact hmoved.destroy

theorem remove (h : m.AccountedFor ledger others) (id : EventHandlerId) :
    (m.remove id).AccountedFor (ledger.erase m id) others := by
  unfold EpollInstance.remove
  split
  · next hl =>
    rw [Ledger.erase_of_none hl]
    exact h
  · next e hl =>
    obtain ⟨err, heq⟩ := m.kernel.epollCtlDel_eq e.fd
    have hdel : ({ m with kernel := (m.kernel.epollCtlDel e.fd).1 } :
        EpollInstance).AccountedFor ledger others := by
      refine h.of_eq rfl ?_ ?_ ?_ <;> rw [heq]
    have hl₁ : ({ m with kernel := (m.kernel.epollCtlDel e.fd).1 } :
        EpollInstance).listeners.lookup id = some e := hl
    have herase := hdel.erase id
    -- `EPOLL_CTL_DEL` does nothing to the process
    have hprocess : ownedProcess (m.kernel.epollCtlDel e.fd).1 (e.tag, e.fd) =
        ownedProcess m.kernel (e.tag, e.fd) := by
      apply ownedProcess_congr <;> rw [heq]
    rw [Ledger.erase_of_some hl₁, Ledger.destroy, hprocess] at herase
    rw [Ledger.erase_of_some hl]
    exact herase

theorem eraseEach {drop : EpollInstance → EventHandlerId → EpollInstance}
    (hdrop : ∀ (m : EpollInstance) ledger id, m.AccountedFor ledger others →
      (drop m id).AccountedFor (ledger.erase m id) others)
    (h : m.AccountedFor ledger others) (ids : List EventHandlerId) :
    (ids.foldl drop m).AccountedFor (Ledger.eraseEach drop ledger m ids) others := by
  induction ids generalizing m ledger with
  | nil => exact h
  | cons id ids ih => exact ih (hdrop m ledger id h)

theorem rollback (h : m.AccountedFor ledger others) (ids : List EventHandlerId) :
    (m.rollback ids).AccountedFor (Ledger.eraseEach EpollInstance.remove ledger m ids) others :=
  h.eraseEach (fun _ _ id h => h.remove id) ids

/-- A descriptor that is passed to `add` has a listener as its owner, or none any more. -/
theorem add {fd : NativeHandle} {tag : FileDescriptorTag} {status : ActivityStatus}
    {failure : Option Errno} {r : Except Exception EventHandlerId} (hwf : m.Wf)
    (h : m.AccountedFor ledger ((tag, fd) :: others))
    (hadd : m.add fd tag status failure = (m', r)) :
    m'.AccountedFor (ledger.add m fd tag m') others := by
  rcases add_eq hadd with ⟨err, ex, -, heq⟩ | ⟨hid, hstored⟩
  · -- the entry has not been stored, or there is an older one under its id
    have hnot : m'.listeners.lookup m.currentId ≠ some (m.newEntry fd tag) := by
      rw [heq]
      exact fun hl => (hwf.ptrLt _ _ hl).ne rfl
    have herr : ({ m.advance with kernel := { m.kernel with errno := err } } :
        EpollInstance).AccountedFor ledger ((tag, fd) :: others) := h.of_eq rfl rfl rfl rfl
    rw [Ledger.add_of_not_stored hnot, heq]
    exact herr.destroy
  · have hp : ((tag, fd) :: others ++ ownersOf m.listeners).Perm
        (others ++ ownersOf (m.listeners.insert m.currentId (m.newEntry fd tag))) := by
      rw [ownersOf_insert hid]
      exact List.perm_middle.symm
    have hinserted : ({ m.advance with
        listeners := m.listeners.insert m.currentId (m.newEntry fd tag) } :
          EpollInstance).AccountedFor ledger others := h.perm (hp.filter _)
    have hlookup : m'.listeners.lookup m.currentId = some (m.newEntry fd tag) := by
      rcases hstored with ⟨-, ex, -, heq⟩ | ⟨ofd, events, -, -, -, heq⟩ <;>
        exact heq ▸ AList.lookup_insert _
    rw [Ledger.add_of_stored hlookup]
    rcases hstored with ⟨-, ex, -, rfl⟩ | ⟨ofd, events, -, -, -, rfl⟩
    · exact hinserted
    · exact hinserted.of_eq rfl rfl rfl rfl

theorem move {o : Owner} (h : m.AccountedFor ledger others)
    (hown : ledger.MayMove m.kernel (some o)) :
    m.AccountedFor (ledger.moveIn m.kernel o) (o :: others) := by
  unfold AccountedFor nonNull at h ⊢
  unfold Ledger.moveIn
  rw [List.cons_append]
  by_cases hnull : o.2 = -1
  · rw [if_pos hnull, List.filter_cons_of_neg (by simp [hnull])]
    exact h
  · obtain ⟨hprogram, hpidfd⟩ := hown.resolve_left hnull
    rw [if_neg hnull, List.filter_cons_of_pos (by simp [hnull])]
    exact Accounted.move h hprogram hpidfd

theorem call {c : Call} {records : List Record} (h : m.AccountedFor ledger others) (hwf : m.Wf)
    (hown : ledger.MayMove m.kernel c.moved) (hc : m.call c = some (m', records)) :
    m'.AccountedFor (ledger.call m c) others := by
  cases c with
  | add fd tag status failure =>
    obtain ⟨-, rfl, -⟩ : _ ∧ (m.add fd tag status failure).1 = m' ∧ _ = records := by
      simpa [EpollInstance.call] using hc
    exact (h.move hown).add hwf rfl
  | remove id =>
    obtain ⟨rfl, -⟩ : m.remove id = m' ∧ [] = records := by
      simpa [EpollInstance.call] using hc
    exact h.remove id
  | makeConfigTransaction =>
    obtain ⟨rfl, -⟩ : m.makeConfigTransaction = m' ∧ [] = records := by
      simpa [EpollInstance.call] using hc
    exact h.of_eq rfl rfl rfl rfl
  | transactionAdd t fd tag status failure =>
    obtain ⟨-, hm', -⟩ : _ ∧ (m.transactionAdd t fd tag status failure).1 = m' ∧
        _ = records := by
      simpa [EpollInstance.call] using hc
    obtain ⟨m₁, hadd, rfl⟩ := transactionAdd_eq (Prod.ext hm' rfl)
    have hm₁ : (m.add fd tag status failure).1 = m₁ := by rw [hadd]
    have hadded := (h.move hown).add hwf hadd
    show AccountedFor _ ((ledger.moveIn m.kernel (tag, fd)).add m fd tag
      (m.add fd tag status failure).1) others
    rw [hm₁]
    exact hadded.of_eq rfl rfl rfl rfl
  | commit t =>
    obtain ⟨-, rfl, -⟩ : _ ∧ m.commit t = m' ∧ _ = records := by
      simpa [EpollInstance.call] using hc
    exact h.of_eq rfl rfl rfl rfl
  | destroyTransaction t =>
    obtain ⟨-, rfl, -⟩ : _ ∧ m.destroyTransaction t = m' ∧ [] = records := by
      simpa [EpollInstance.call] using hc
    exact (h.rollback _).of_eq rfl rfl rfl rfl

end EpollInstance.AccountedFor

/-! ## Runs -/

section Runs

variable {k : Kernel} {epollFd : ℤ} {s s' : State} {ledger ledger' : Ledger}
  {others : List Owner} {l : Label} {ls : List Label}

theorem State.Step.accountedFor (hs : State.Step s l s') (hwf : s.monitor.Wf)
    (hb : s.monitor.kernel.Bounded) (hown : UsesItsOwn (s, ledger) l)
    (h : s.monitor.AccountedFor ledger others) :
    s'.monitor.AccountedFor (ledger.record s l) others := by
  cases hs with
  | call _ hcall => exact h.call hwf hown hcall
  | kernel _ _ hk =>
    refine Accounted.kernelStep h hb hk ?_
    rintro fd rfl
    exact hown
  | @update m _ _ _ status failure entry _ =>
    rcases m.updateListeningStatus_cases entry status failure with
      ⟨err, heq⟩ | ⟨ofd, events, -, -, heq⟩
    · refine h.of_eq ?_ ?_ ?_ ?_ <;> rw [heq]
    · refine h.of_eq ?_ ?_ ?_ ?_ <;> rw [heq]
  | @returns m log activity pending hflag =>
    have hsame : ledger.record ⟨m, .handling activity pending, log⟩ .handlerReturns =
        ledger := by
      unfold Ledger.record
      dsimp only
      split
      · rw [hflag]
        rfl
      · rfl
    rw [hsame]
    exact h
  | @returnsStopped m log activity pending entry hflag hentry =>
    -- the entry is destroyed, and with it the owner of its descriptor
    have hsame : ledger.record ⟨m, .handling activity pending, log⟩ .handlerReturns =
        ledger.erase m entry.id := by
      unfold Ledger.record
      dsimp only
      rw [hentry, hflag]
      rfl
    rw [hsame]
    exact h.erase _
  | @returnsErased m log activity pending hflag hentry =>
    have hsame : ledger.record ⟨m, .handling activity pending, log⟩ .handlerReturns =
        ledger := by
      unfold Ledger.record
      dsimp only
      rw [hentry]
    rw [hsame]
    exact h
  | _ => exact h

/-- The kernel after `epoll_create1`. -/
def opened (k : Kernel) (epollFd : ℤ) : Kernel :=
  { k with
    descriptors := k.descriptors.insert epollFd k.nextOfd
    nextOfd := k.nextOfd + 1
    pidfdOf := Function.update k.pidfdOf k.nextOfd none }

theorem lifetime_init {p : State × Ledger} (h : (lifetime k epollFd).init p) :
    (0 ≤ epollFd ∧ epollFd ∉ k.descriptors) ∧ ∃ waitidFailure,
      p = (⟨.new (opened k epollFd) waitidFailure, .idle, []⟩,
        ⟨k.descriptors, [], fun _ => none⟩) := by
  obtain ⟨waitidFailure, k', m, hconstruct, rfl⟩ := h
  obtain ⟨⟨k₁, ret⟩, hnew, heq⟩ := Option.map_eq_some_iff.1 hconstruct
  obtain ⟨k₂, hopen, heq'⟩ := Option.map_eq_some_iff.1 hnew
  cases heq'
  obtain ⟨hfree, rfl⟩ := Kernel.openDescriptor_eq_some.1 hopen
  have hne : epollFd ≠ -1 := by
    rintro rfl
    exact absurd hfree.1 (by decide)
  dsimp only at heq
  rw [if_neg hne] at heq
  cases heq
  exact ⟨hfree, waitidFailure, rfl⟩

theorem lifetime_init_eventLoop (hnull : k.NullClosed)
    (hfresh : ∀ ofd, k.nextOfd ≤ ofd → ¬ k.Referenced ofd) {p : State × Ledger}
    (h : (lifetime k epollFd).init p) : p.1.Init := by
  obtain ⟨⟨hnonneg, hfree⟩, waitidFailure, rfl⟩ := lifetime_init h
  have hne : (-1 : ℤ) ≠ epollFd := by omega
  refine ⟨rfl, rfl, rfl, rfl, rfl, rfl, ?_, ?_, rfl, rfl⟩
  · exact (AList.lookup_insert_ne hne).trans hnull
  · intro ofd hofd hreferenced
    have hlt : k.nextOfd < ofd := hofd
    rcases hreferenced with helsewhere | ⟨d, hd, rfl⟩
    · exact hfresh ofd hlt.le (.inl helsewhere)
    · have hlookup : (k.descriptors.insert epollFd k.nextOfd).lookup d.1 = some d.2 :=
        AList.mem_lookup_iff.2 hd
      rw [AList.lookup_insert_ite] at hlookup
      split at hlookup
      · exact hlt.ne (Option.some.inj hlookup)
      · exact hfresh d.2 hlt.le (Kernel.referenced_of_lookup hlookup)

/-- At first the instance owns the epoll descriptor, and the program has the rest. -/
theorem lifetime_init_accountedFor (hnull : k.NullClosed) {p : State × Ledger}
    (h : (lifetime k epollFd).init p) :
    p.1.monitor.AccountedFor p.2 [(.generic, epollFd)] := by
  obtain ⟨⟨hnonneg, hfree⟩, waitidFailure, rfl⟩ := lifetime_init h
  have hne : (-1 : ℤ) ≠ epollFd := by omega
  have howners : nonNull ([(.generic, epollFd)] ++ ownersOf ∅) = [(.generic, epollFd)] := by
    simp [nonNull, ownersOf, hne.symm]
  show Accounted _ _ (nonNull ([(.generic, epollFd)] ++ ownersOf ∅))
  rw [howners]
  refine ⟨(AList.lookup_insert_ne hne).trans hnull, ?_, by simp, ?_, by simp, ?_, by simp⟩
  · intro fd ofd hfd
    have hother : fd ≠ epollFd := by
      rintro rfl
      exact hfree (AList.lookup_isSome.1 (by rw [hfd]; rfl))
    exact (AList.lookup_insert_ne hother).trans hfd
  · intro o ho
    obtain rfl := List.mem_singleton.1 ho
    exact ⟨(AList.mem_insert _).2 (.inl rfl), hfree⟩
  · intro fd hopen hprogram howned
    have hother : epollFd ≠ fd := howned _ (List.mem_singleton_self _)
    exact absurd (((AList.mem_insert _).1 hopen).resolve_left hother.symm) hprogram

/-- The event loop does not see the ledger. -/
theorem lifetime_forget {ok : State × Ledger → Label → Prop} (hnull : k.NullClosed)
    (hfresh : ∀ ofd, k.nextOfd ≤ ofd → ¬ k.Referenced ofd) {p : State × Ledger}
    (h : (lifetime k epollFd).Reach ok ls p) : eventLoop.Reach (fun _ _ => True) ls p.1 := by
  induction h with
  | init h0 => exact .init (lifetime_init_eventLoop hnull hfresh h0)
  | step _ _ hs ih =>
    obtain ⟨s', hs', rfl⟩ := Option.map_eq_some_iff.1 hs
    exact ih.step trivial hs'

theorem lifetime_accountedFor (hnull : k.NullClosed)
    (hfresh : ∀ ofd, k.nextOfd ≤ ofd → ¬ k.Referenced ofd) {p : State × Ledger}
    (h : (lifetime k epollFd).Reach UsesItsOwn ls p) :
    p.1.monitor.AccountedFor p.2 [(.generic, epollFd)] := by
  induction h with
  | init h0 => exact lifetime_init_accountedFor hnull h0
  | step hr hown hs ih =>
    obtain ⟨s', hs', rfl⟩ := Option.map_eq_some_iff.1 hs
    have hloop := lifetime_forget hnull hfresh hr
    exact (State.step_cases hs').accountedFor (reach_wf hloop) (reach_bounded hloop) hown ih

/-! ## The end -/

namespace EpollInstance

variable {m : EpollInstance}

theorem erase_listeners (m : EpollInstance) (id id' : EventHandlerId) :
    (m.erase id).listeners.lookup id' = if id' = id then none else m.listeners.lookup id' := by
  unfold erase
  split
  · next hnone =>
    split
    · next heq => rw [heq, hnone]
    · rfl
  · exact AList.lookup_erase_ite ..

theorem foldl_erase_listeners (order : List EventHandlerId) (id : EventHandlerId) :
    (order.foldl erase m).listeners.lookup id =
      if id ∈ order then none else m.listeners.lookup id := by
  induction order generalizing m with
  | nil => simp
  | cons id' order ih =>
    rw [List.foldl_cons, ih, erase_listeners]
    by_cases hid : id = id'
    · simp [hid]
    · simp [hid]

theorem ownersOf_foldl_erase {order : List EventHandlerId}
    (horder : order.Perm m.listeners.keys) : ownersOf (order.foldl erase m).listeners = [] := by
  unfold ownersOf
  rw [List.map_eq_nil_iff, List.eq_nil_iff_forall_not_mem]
  rintro ⟨id, e⟩ hmem
  have hlookup := AList.mem_lookup_iff.2 hmem
  rw [Option.mem_def, foldl_erase_listeners] at hlookup
  split at hlookup
  · cases hlookup
  · next hid =>
    refine hid (horder.mem_iff.2 (AList.mem_keys.1 (AList.lookup_isSome.1 ?_)))
    rw [hlookup]
    rfl

theorem AccountedFor.destruct (h : m.AccountedFor ledger [(.generic, epollFd)])
    {order : List EventHandlerId} (horder : order.Perm m.listeners.keys) :
    Accounted (m.destruct epollFd order) (ledger.destruct m epollFd order) [] := by
  have hend := h.eraseEach (fun _ _ id h => h.erase id) order
  unfold AccountedFor at hend
  rw [ownersOf_foldl_erase horder] at hend
  exact Accounted.destroyOwner hend none

end EpollInstance

/-- **An epoll instance gives everything back.**  In every run of the event loop, whatever the
program and its handlers do with what they have, each open descriptor is one of the program, that of
the instance itself or that of one listener, or a pidfd whose process had been reaped before its
owner was destroyed.  The destructor, whatever the order in which it destroys the listeners, leaves
the descriptors of the program as they are and closes all others but these pidfds; and no process
whose pidfd has ever been moved into the instance is left running. -/
theorem gives_everything_back (hnull : k.NullClosed)
    (hfresh : ∀ ofd, k.nextOfd ≤ ofd → ¬ k.Referenced ofd)
    (h : (lifetime k epollFd).Reach UsesItsOwn ls (s, ledger)) :
    s.monitor.AccountedFor ledger [(.generic, epollFd)] ∧
      ∀ order : List EventHandlerId, order.Perm s.monitor.listeners.keys →
        (∀ fd ofd, ledger.program.lookup fd = some ofd →
          (s.monitor.destruct epollFd order).descriptors.lookup fd = some ofd) ∧
        (∀ fd ∈ (s.monitor.destruct epollFd order).descriptors, fd ∉ ledger.program →
          Leaked (ledger.destruct s.monitor epollFd order) fd) ∧
        ∀ pid ∈ ledger.handed, (s.monitor.destruct epollFd order).processes pid ≠ .running := by
  have haccounted := lifetime_accountedFor hnull hfresh h
  refine ⟨haccounted, ?_⟩
  intro order horder
  have hend : Accounted (s.monitor.destruct epollFd order)
    (ledger.destruct s.monitor epollFd order) [] := haccounted.destruct horder
  obtain ⟨hprogram, hhanded⟩ : (ledger.destruct s.monitor epollFd order).program = ledger.program ∧
    (ledger.destruct s.monitor epollFd order).handed = ledger.handed := Ledger.eraseEach_same ..
  refine ⟨?_, ?_, ?_⟩
  · rw [← hprogram]
    exact hend.program
  · intro fd hopen hnot
    rw [← hprogram] at hnot
    exact hend.others fd hopen hnot (by simp)
  · intro pid hpid hrunning
    rw [← hhanded] at hpid
    obtain ⟨o, ho, -⟩ := hend.handed pid hpid hrunning
    cases ho

/-- A process with its standard streams. -/
def exampleProgram : Kernel where
  descriptors := ((AList.singleton 2 2).insert 1 1).insert 0 0
  elsewhere := fun _ => 0
  nextOfd := 3
  pidfdOf := fun _ => none
  processes := fun _ => .running
  interest := fun _ => none
  errno := 0

def exampleInstance : EpollInstance :=
  .new (opened exampleProgram 3) fun _ => none

/-- The program moves a pidfd of the process 7 and one end of a pipe into the instance, and keeps
the other end. -/
def exampleLife : List Label :=
  [.kernel (.openDescriptor 4 (some 7)), .kernel (.openDescriptor 5 none),
    .kernel (.openDescriptor 6 none), .call (.add 4 .pidfd .read none),
    .call (.add 5 .generic .read none), .waitReturns [((5, 5), EPOLLIN)], .process,
    .updateListeningStatus .write none, .handlerReturns, .leave]

/-- The process does not survive the instance, its pidfd is closed with the rest, and the end that
the program has kept stays open. -/
theorem gives_everything_back_example : ∃ s : State, s.monitor.listeners.keys.length = 2 ∧
    ∀ order : List EventHandlerId, order.Perm s.monitor.listeners.keys →
      (s.monitor.destruct 3 order).descriptors.lookup 6 = some 6 ∧
        (∀ fd ∈ ([3, 4, 5] : List ℤ), fd ∉ (s.monitor.destruct 3 order).descriptors) ∧
        (s.monitor.destruct 3 order).processes 7 ≠ .running := by
  have hrun : ((lifetime exampleProgram 3).run UsesItsOwn
      (⟨exampleInstance, .idle, []⟩, ⟨exampleProgram.descriptors, [], fun _ => none⟩) exampleLife).map
        (fun p => (p.1.monitor.listeners.keys.length, p.2.program.lookup 6, p.2.handed,
          decide (∀ order ∈ p.1.monitor.listeners.keys.permutations', ∀ fd ∈ ([3, 4, 5] : List ℤ),
            fd ∉ p.2.program ∧ (p.2.destruct p.1.monitor 3 order).destroyed fd ≠ some .reaped))) =
          some (2, some 6, [7], true) := by decide
  have hinit : (lifetime exampleProgram 3).init
      (⟨exampleInstance, .idle, []⟩, ⟨exampleProgram.descriptors, [], fun _ => none⟩) :=
    ⟨fun _ => none, _, exampleInstance, rfl, rfl⟩
  obtain ⟨⟨s, ledger⟩, hs, hlast⟩ := Lts.Reach.exists_of_map_run hinit hrun
  simp only [Prod.mk.injEq, decide_eq_true_eq] at hlast
  obtain ⟨hlength, hsix, hhanded, hdestroyed⟩ := hlast
  have hfresh : ∀ ofd, exampleProgram.nextOfd ≤ ofd → ¬ exampleProgram.Referenced ofd := by
    rintro ofd hofd (helsewhere | ⟨d, hd, rfl⟩)
    · cases helsewhere
    · have hentries : ∀ d ∈ exampleProgram.descriptors.entries, d.2 < 3 := by decide
      exact (hentries d hd).not_ge hofd
  have hnull : exampleProgram.NullClosed := rfl
  obtain ⟨-, hend⟩ := gives_everything_back hnull hfresh hs
  refine ⟨s, hlength, fun order horder => ?_⟩
  obtain ⟨hprogram, hothers, hprocesses⟩ := hend order horder
  refine ⟨hprogram 6 6 hsix, ?_, hprocesses 7 (by rw [hhanded]; simp)⟩
  -- the process runs until its owner is destroyed, so nothing is leaked
  intro fd hfd hopen
  obtain ⟨hnot, hrunning⟩ := hdestroyed order (List.mem_permutations'.2 horder) fd hfd
  exact hrunning (hothers fd hopen hnot)

end Runs

end ThePipe.OsServices.IoMultiplexer
