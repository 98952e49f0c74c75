import ThePipe.OsServices.IoMultiplexer.Invariant

/-!
# Transactions

A transaction remembers ids, and its destructor removes them.  Because ids are not reused as long as
fewer than `2 ^ 64` listeners have been added, an id stands for one listener for ever, so that the
destructor removes exactly the listeners that the transaction has added since its last commit and
that are still registered (`rollback_exact`).
-/

set_option autoImplicit false

namespace ThePipe.OsServices.IoMultiplexer

open ErrorHandling Fd Lib EpollInstance

/-! ## What the log says about a transaction -/

/-- The transaction has added the listener, and has not been committed since. -/
def AddedSinceCommit (t : Transaction) (log : List Record) (e : Entry) : Prop :=
  ∃ before after, log = before ++ .added (some t) e :: after ∧ Record.committed t ∉ after

/-- The listener had been added, by the transaction or otherwise, when the transaction was last
committed. -/
def AddedBeforeCommit (t : Transaction) (log : List Record) (e : Entry) : Prop :=
  ∃ before after via, log = before ++ .committed t :: after ∧ Record.added via e ∈ before

/-- The calls of `add` in a run. -/
def Label.IsAdd : Label → Prop
  | .call (.add ..) => True
  | .call (.transactionAdd ..) => True
  | _ => False

instance : DecidablePred Label.IsAdd := fun l => by unfold Label.IsAdd; split <;> infer_instance

/-- How many calls of `add` the run has made, successful or not. -/
def adds (ls : List Label) : ℕ := ls.countP fun l => l.IsAdd

section Log

variable {t : Transaction} {log records : List Record} {r : Record} {e : Entry}

theorem not_addedSinceCommit_nil : ¬ AddedSinceCommit t [] e := by
  rintro ⟨before, after, h, -⟩
  simp at h

theorem addedSinceCommit_append : AddedSinceCommit t (log ++ [r]) e ↔
    r = .added (some t) e ∨ AddedSinceCommit t log e ∧ r ≠ .committed t := by
  constructor
  · rintro ⟨before, after, heq, hcommit⟩
    rcases Lts.concat_eq_append_cons_iff.1 heq with ⟨-, -, hr⟩ | ⟨after, rfl, rfl⟩
    · exact .inl hr
    · refine .inr ⟨⟨before, after, rfl, fun h => hcommit (by simp [h])⟩, fun h => hcommit ?_⟩
      simp [h]
  · rintro (rfl | ⟨⟨before, after, rfl, hcommit⟩, hr⟩)
    · exact ⟨log, [], rfl, by simp⟩
    · exact ⟨before, after ++ [r], by simp, by simp [hcommit, Ne.symm hr]⟩

theorem addedSinceCommit_append_of_forall (log : List Record)
    (h : ∀ r ∈ records, (∀ e, r ≠ .added (some t) e) ∧ r ≠ .committed t) :
    AddedSinceCommit t (log ++ records) e ↔ AddedSinceCommit t log e := by
  induction records generalizing log with
  | nil => simp
  | cons r records ih =>
    have hr := h r (List.mem_cons_self ..)
    have hrest := ih (log ++ [r]) fun r' hr' => h r' (List.mem_cons_of_mem _ hr')
    rw [List.append_assoc, List.singleton_append] at hrest
    rw [hrest, addedSinceCommit_append]
    simp [hr.1 e, hr.2]

theorem AddedSinceCommit.mem (h : AddedSinceCommit t log e) : Record.added (some t) e ∈ log := by
  obtain ⟨before, after, rfl, -⟩ := h
  simp

/-- No listener is added twice. -/
def AddedOnce (log : List Record) : Prop :=
  log.Pairwise fun r r' => ∀ via e via' e', r = .added via e → r' = .added via' e' → e.ptr ≠ e'.ptr

theorem AddedBeforeCommit.not_since (h : AddedBeforeCommit t log e) (hOnce : AddedOnce log) :
    ¬ AddedSinceCommit t log e := by
  rintro ⟨before', after', heq', hcommit⟩
  obtain ⟨before, after, via, rfl, hmem⟩ := h
  rcases List.append_eq_append_iff.1 heq' with ⟨l, rfl, hl⟩ | ⟨l, rfl, hl⟩
  · cases l with
    | nil => simp at hl
    | cons r l =>
      unfold AddedOnce at hOnce
      rw [heq', List.pairwise_append] at hOnce
      exact hOnce.2.2 _ (List.mem_append_left _ hmem) _ (List.mem_cons_self ..) via e _ e rfl rfl rfl
  · cases l with
    | nil => simp at hl
    | cons r l =>
      obtain ⟨-, rfl⟩ : _ ∧ after' = l ++ .committed t :: after := by simpa using hl
      simp at hcommit

end Log

/-! ## Counters -/

namespace EpollInstance

variable {m m' : EpollInstance} {fd : NativeHandle} {tag : FileDescriptorTag} {e : Entry}
  {status : ActivityStatus} {failure : Option Errno} {r : Except Exception EventHandlerId}

/-- The counters and the transactions are the same. -/
structure SameCounters (m m' : EpollInstance) : Prop where
  nextPtr : m'.nextPtr = m.nextPtr
  currentId : m'.currentId = m.currentId
  addedIds : m'.addedIds = m.addedIds
  nextTransaction : m'.nextTransaction = m.nextTransaction

theorem SameCounters.refl : SameCounters m m := ⟨rfl, rfl, rfl, rfl⟩

theorem SameCounters.trans {m'' : EpollInstance} (h : SameCounters m m')
    (h' : SameCounters m' m'') : SameCounters m m'' :=
  ⟨h'.nextPtr.trans h.nextPtr, h'.currentId.trans h.currentId, h'.addedIds.trans h.addedIds,
    h'.nextTransaction.trans h.nextTransaction⟩

theorem sameCounters_erase (m : EpollInstance) (id : EventHandlerId) :
    SameCounters m (m.erase id) := by
  unfold erase
  split
  · exact .refl
  · exact ⟨rfl, rfl, rfl, rfl⟩

theorem sameCounters_remove (m : EpollInstance) (id : EventHandlerId) :
    SameCounters m (m.remove id) := by
  unfold remove
  split
  · exact .refl
  · next e _ =>
    have h := sameCounters_erase { m with kernel := (m.kernel.epollCtlDel e.fd).1 } id
    exact ⟨h.nextPtr, h.currentId, h.addedIds, h.nextTransaction⟩

theorem sameCounters_rollback (m : EpollInstance) (ids : List EventHandlerId) :
    SameCounters m (m.rollback ids) := by
  induction ids generalizing m with
  | nil => exact .refl
  | cons id ids ih => exact (sameCounters_remove m id).trans (ih _)

theorem sameCounters_updateListeningStatus (m : EpollInstance) (e : Entry)
    (status : ActivityStatus) (failure : Option Errno) :
    SameCounters m (m.updateListeningStatus e status failure).1 := by
  unfold updateListeningStatus
  split <;> exact ⟨rfl, rfl, rfl, rfl⟩

theorem sameCounters_add (hadd : m.add fd tag status failure = (m', r)) :
    SameCounters m.advance m' := by
  rcases add_eq hadd with ⟨err, ex, -, rfl⟩ | ⟨-, ⟨-, ex, -, rfl⟩ | ⟨ofd, events, -, -, -, rfl⟩⟩
  · exact ⟨rfl, rfl, rfl, rfl⟩
  · exact ⟨rfl, rfl, rfl, rfl⟩
  · exact ⟨rfl, rfl, rfl, rfl⟩

theorem call_counters {c : Call} {records : List Record} (hc : m.call c = some (m', records)) :
    m'.nextPtr = m.nextPtr + (if (Label.call c).IsAdd then 1 else 0) ∧
      m'.currentId.value = m.currentId.value + (if (Label.call c).IsAdd then 1 else 0) := by
  cases c with
  | add fd tag status failure =>
    obtain ⟨-, hm', -⟩ : _ ∧ (m.add fd tag status failure).1 = m' ∧ _ = records := by
      simpa [call] using hc
    have h := sameCounters_add (Prod.ext hm' rfl)
    exact ⟨h.nextPtr, congrArg EventHandlerId.value h.currentId⟩
  | transactionAdd t fd tag status failure =>
    obtain ⟨-, hm', -⟩ : _ ∧ (m.transactionAdd t fd tag status failure).1 = m' ∧ _ = records := by
      simpa [call] using hc
    obtain ⟨m₁, hadd, rfl⟩ := transactionAdd_eq (Prod.ext hm' rfl)
    have h := sameCounters_add hadd
    exact ⟨h.nextPtr, congrArg EventHandlerId.value h.currentId⟩
  | remove id =>
    obtain ⟨rfl, -⟩ : m.remove id = m' ∧ [] = records := by simpa [call] using hc
    have h := m.sameCounters_remove id
    simp [Label.IsAdd, h.nextPtr, h.currentId]
  | makeConfigTransaction =>
    obtain ⟨rfl, -⟩ : m.makeConfigTransaction = m' ∧ [] = records := by simpa [call] using hc
    simp [Label.IsAdd, makeConfigTransaction]
  | commit t =>
    obtain ⟨-, rfl, -⟩ : _ ∧ m.commit t = m' ∧ _ = records := by simpa [call] using hc
    simp [Label.IsAdd, commit]
  | destroyTransaction t =>
    obtain ⟨-, rfl, -⟩ : _ ∧ m.destroyTransaction t = m' ∧ [] = records := by
      simpa [call] using hc
    have h := m.sameCounters_rollback ((m.addedIds t).getD [])
    simp [Label.IsAdd, destroyTransaction, h.nextPtr, h.currentId]

end EpollInstance

/-! ## Ids -/

/-- Ids are given out in order, and an entry of the log is the one that is stored. -/
structure Named (m : EpollInstance) (log : List Record) : Prop where
  current : m.currentId.value = BitVec.ofNat 64 m.nextPtr
  entry : ∀ id e, m.listeners.lookup id = some e → e.id.value = BitVec.ofNat 64 e.ptr
  logged : ∀ via e, Record.added via e ∈ log →
    e.id.value = BitVec.ofNat 64 e.ptr ∧ e.ptr < m.nextPtr
  /-- A listener that is stored is the one that was added. -/
  same : ∀ via e id e', Record.added via e ∈ log → m.listeners.lookup id = some e' →
    e'.ptr = e.ptr → e' = e
  once : AddedOnce log

section Steps

variable {m m' : EpollInstance} {log records : List Record} {c : Call}

theorem Named.of_nextPtr_eq_zero (hl : m.listeners = ∅) (hc : m.currentId = ⟨0⟩)
    (hp : m.nextPtr = 0) : Named m [] := by
  refine ⟨by rw [hc, hp]; rfl, fun id e he => ?_, by simp, by simp, List.Pairwise.nil⟩
  rw [hl] at he
  cases he

theorem Named.mono (h : Named m log)
    (hl : ∀ id e, m'.listeners.lookup id = some e → m.listeners.lookup id = some e ∨
      e.ptr = m.nextPtr ∧ e.id.value = BitVec.ofNat 64 e.ptr)
    (hp : m.nextPtr ≤ m'.nextPtr) (hc : m'.currentId.value = BitVec.ofNat 64 m'.nextPtr)
    (hrecords : ∀ r ∈ records, ∀ via e, r ≠ .added via e) : Named m' (log ++ records) := by
  have hmem : ∀ via e, Record.added via e ∈ log ++ records → Record.added via e ∈ log := by
    intro via e hr
    rcases List.mem_append.1 hr with hr | hr
    · exact hr
    · exact absurd rfl (hrecords _ hr via e)
  refine ⟨hc, fun id e he => ?_, fun via e hr => ?_, fun via e id e' hr he' hptr => ?_, ?_⟩
  · exact (hl id e he).elim (h.entry id e) And.right
  · obtain ⟨hid, hlt⟩ := h.logged via e (hmem via e hr)
    exact ⟨hid, hlt.trans_le hp⟩
  · rcases hl id e' he' with he' | ⟨hnew, -⟩
    · exact h.same via e id e' (hmem via e hr) he' hptr
    · exact absurd (hptr.symm.trans hnew) (h.logged via e (hmem via e hr)).2.ne
  · refine List.pairwise_append.2 ⟨h.once, ?_, ?_⟩
    · exact List.pairwise_of_forall_mem_list fun r hr r' _ via e _ _ heq =>
        absurd heq (hrecords r hr via e)
    · intro r _ r' hr' via e via' e' _ heq
      exact absurd heq (hrecords r' hr' via' e')

theorem Named.added {via : Option Transaction} {id : EventHandlerId} {e : Entry}
    (h : Named m log) (hwf : m.Wf) (hl : m.listeners.lookup id = some e)
    (hnew : ∀ via e', Record.added via e' ∈ log → e'.ptr ≠ e.ptr) :
    Named m (log ++ [.added via e]) := by
  have hmem : ∀ via' e', Record.added via' e' ∈ log ++ [.added via e] →
      Record.added via' e' ∈ log ∨ e' = e := by
    intro via' e' hr
    rcases List.mem_append.1 hr with hr | hr
    · exact .inl hr
    · exact .inr (by simp at hr; exact hr.2)
  refine ⟨h.current, h.entry, fun via' e' hr => ?_, fun via' e' id' e'' hr hl' hptr => ?_, ?_⟩
  · rcases hmem via' e' hr with hr | rfl
    · exact h.logged via' e' hr
    · exact ⟨h.entry id e' hl, hwf.ptrLt id e' hl⟩
  · rcases hmem via' e' hr with hr | rfl
    · exact h.same via' e' id' e'' hr hl' hptr
    · obtain rfl := hwf.ptr id' e'' id e' hl' hl hptr
      exact Option.some.inj (hl'.symm.trans hl)
  · refine List.pairwise_append.2 ⟨h.once, List.pairwise_singleton .., ?_⟩
    intro r hr r' hr' via₁ e₁ via₂ e₂ h₁ h₂
    obtain rfl : r' = .added via e := by simpa using hr'
    cases h₂
    exact hnew via₁ e₁ (h₁ ▸ hr)

theorem Named.call (h : Named m log) (hwf : m.Wf) (hc : m.call c = some (m', records)) :
    Named m' (log ++ records) := by
  obtain ⟨hp, hcur⟩ := call_counters hc
  have hcur' : m'.currentId.value = BitVec.ofNat 64 m'.nextPtr := by
    rw [hcur, h.current, hp, BitVec.ofNat_add]
    split <;> rfl
  have hle : m.nextPtr ≤ m'.nextPtr := hp ▸ Nat.le_add_right ..
  have hstored : ∀ {fd tag}, Inserts m m' fd tag → ∀ id e, m'.listeners.lookup id = some e →
      m.listeners.lookup id = some e ∨ e.ptr = m.nextPtr ∧ e.id.value = BitVec.ofNat 64 e.ptr := by
    intro fd tag hi id e hl
    rcases hi.lookup_cases hl with ⟨-, rfl⟩ | hl
    · exact .inr ⟨rfl, h.current⟩
    · exact .inl hl
  cases hwf.callEffect hc with
  | drops hd hrecords =>
    refine h.mono (fun id e hl => .inl (hd.lookup_eq hl).2) hle hcur' fun r hr via e heq => ?_
    obtain ⟨t, ht⟩ := hrecords r hr
    cases heq.symm.trans ht
  | stores hi _ _ _ _ hrecords =>
    rw [hrecords]
    exact h.mono (hstored hi) hle hcur' (by simp)
  | @registers fd tag via hi _ _ hrecords =>
    have hnamed : Named m' (log ++ []) := h.mono (hstored hi) hle hcur' (by simp)
    rw [List.append_nil] at hnamed
    have hnew : m'.listeners.lookup m.currentId = some (m.newEntry fd tag) := by
      rw [hi.listeners, AList.lookup_insert]
    rw [hrecords]
    exact hnamed.added (hwf.call hc) hnew fun via' e' hr => (h.logged via' e' hr).2.ne

/-- Different listeners have different ids, as long as the counter has not wrapped. -/
theorem Named.ptr_eq (h : Named m log) (hwf : m.Wf) (hp : m.nextPtr < 2 ^ 64)
    {via : Option Transaction} {id : EventHandlerId} {e e' : Entry}
    (hr : Record.added via e ∈ log) (hl : m.listeners.lookup id = some e') (hid : e.id = e'.id) :
    e' = e := by
  obtain ⟨hvalue, hlt⟩ := h.logged via e hr
  have hvalue' := h.entry id e' hl
  have hlt' := hwf.ptrLt id e' hl
  refine h.same via e id e' hr hl ?_
  rw [← hid, hvalue] at hvalue'
  have hnat := congrArg BitVec.toNat hvalue'
  rw [BitVec.toNat_ofNat, BitVec.toNat_ofNat, Nat.mod_eq_of_lt (hlt.trans hp),
    Nat.mod_eq_of_lt (hlt'.trans hp)] at hnat
  exact hnat.symm

end Steps

/-! ## What transactions remember -/

/-- A transaction remembers the ids of the listeners that it has added since its last commit. -/
structure Remembered (m : EpollInstance) (log : List Record) : Prop where
  ids : ∀ t ids, m.addedIds t = some ids →
    ∀ id, id ∈ ids ↔ ∃ e, AddedSinceCommit t log e ∧ e.id = id
  unused : ∀ t, m.nextTransaction ≤ t → m.addedIds t = none ∧ ∀ e, ¬ AddedSinceCommit t log e

section Remembered

variable {m m' : EpollInstance} {log records : List Record} {c : Call}

theorem Remembered.mono (h : Remembered m log) (ha : m'.addedIds = m.addedIds)
    (ht : m'.nextTransaction = m.nextTransaction)
    (hrecords : ∀ r ∈ records, (∀ t e, r ≠ .added (some t) e) ∧ ∀ t, r ≠ .committed t) :
    Remembered m' (log ++ records) := by
  have hsame : ∀ t e, AddedSinceCommit t (log ++ records) e ↔ AddedSinceCommit t log e := by
    intro t e
    exact addedSinceCommit_append_of_forall log fun r hr =>
      ⟨(hrecords r hr).1 t, (hrecords r hr).2 t⟩
  refine ⟨fun t ids hids => ?_, fun t hle => ?_⟩
  · rw [ha] at hids
    simpa only [hsame] using h.ids t ids hids
  · rw [ht] at hle
    rw [ha]
    simpa only [hsame] using h.unused t hle

theorem Remembered.lt (h : Remembered m log) {t : Transaction} (ht : (m.addedIds t).isSome) :
    t < m.nextTransaction := by
  by_contra hle
  rw [(h.unused t (not_lt.1 hle)).1] at ht
  cases ht

theorem Remembered.transactionAdd {t : Transaction} {fd : NativeHandle} {tag : FileDescriptorTag}
    {status : ActivityStatus} {failure : Option Errno} {r : Except Exception EventHandlerId}
    (h : Remembered m log) (ht : (m.addedIds t).isSome)
    (hadd : m.add fd tag status failure = (m', r)) :
    Remembered { m' with addedIds := m'.remember t r } (log ++ m.addRecord (some t) fd tag r) := by
  have hs := sameCounters_add hadd
  cases r with
  | error ex => exact h.mono hs.addedIds hs.nextTransaction (by simp [addRecord])
  | ok id =>
    obtain rfl : id = (m.newEntry fd tag).id := by
      rcases add_eq hadd with ⟨_, _, hr, -⟩ | ⟨-, ⟨-, _, hr, -⟩ | ⟨_, _, -, -, hr, -⟩⟩
      · cases hr
      · cases hr
      · exact Except.ok.inj hr
    have ha : m'.addedIds = m.addedIds := hs.addedIds
    refine ⟨fun t' ids hids id => ?_, fun t' hle => ?_⟩
    · simp only [remember, ha] at hids
      simp only [addRecord, addedSinceCommit_append]
      by_cases heq : t' = t
      · subst heq
        rw [Function.update_self, Option.map_eq_some_iff] at hids
        obtain ⟨ids, hids, rfl⟩ := hids
        rw [List.mem_append, h.ids t' ids hids id]
        constructor
        · rintro (⟨e, he, hid⟩ | hid)
          · exact ⟨e, .inr ⟨he, by simp⟩, hid⟩
          · exact ⟨m.newEntry fd tag, .inl rfl, (by simpa using hid : id = _).symm⟩
        · rintro ⟨e, heq | ⟨he, -⟩, hid⟩
          · obtain rfl : m.newEntry fd tag = e := by simpa using heq
            exact .inr (by simp [hid])
          · exact .inl ⟨e, he, hid⟩
      · rw [Function.update_of_ne heq] at hids
        simpa [Ne.symm heq] using h.ids t' ids hids id
    · have hle' : m.nextTransaction ≤ t' := hs.nextTransaction ▸ hle
      have hne : t' ≠ t := ((h.lt ht).trans_le hle').ne'
      obtain ⟨hnone, hno⟩ := h.unused t' hle'
      refine ⟨by simp [remember, ha, Function.update_of_ne hne, hnone], fun e => ?_⟩
      simp [addRecord, addedSinceCommit_append, hno, Ne.symm hne]

theorem Remembered.call (h : Remembered m log) (hc : m.call c = some (m', records)) :
    Remembered m' (log ++ records) := by
  cases c with
  | add fd tag status failure =>
    obtain ⟨-, hm', rfl⟩ : _ ∧ (m.add fd tag status failure).1 = m' ∧
        m.addRecord none fd tag (m.add fd tag status failure).2 = records := by
      simpa [EpollInstance.call] using hc
    -- what is added directly is not recorded under any transaction
    have hs := sameCounters_add (Prod.ext hm' rfl)
    refine h.mono hs.addedIds hs.nextTransaction fun r hr => ?_
    unfold addRecord at hr
    split at hr <;> simp at hr
    simp [hr]
  | remove id =>
    obtain ⟨rfl, rfl⟩ : m.remove id = m' ∧ [] = records := by simpa [EpollInstance.call] using hc
    have hs := m.sameCounters_remove id
    exact h.mono hs.addedIds hs.nextTransaction (by simp)
  | makeConfigTransaction =>
    obtain ⟨rfl, rfl⟩ : m.makeConfigTransaction = m' ∧ [] = records := by
      simpa [EpollInstance.call] using hc
    rw [List.append_nil]
    refine ⟨fun t ids hids => ?_, fun t hle => ?_⟩
    · by_cases ht : t = m.nextTransaction
      · subst ht
        obtain rfl : [] = ids := by simpa [makeConfigTransaction] using hids
        -- nobody has used the number before
        have hnone := (h.unused m.nextTransaction le_rfl).2
        simp [hnone]
      · exact h.ids t ids (by simpa [makeConfigTransaction, Function.update_of_ne ht] using hids)
    · have hlt : m.nextTransaction < t := hle
      obtain ⟨hnone, hno⟩ := h.unused t hlt.le
      exact ⟨by simp [makeConfigTransaction, Function.update_of_ne hlt.ne', hnone], hno⟩
  | transactionAdd t fd tag status failure =>
    obtain ⟨⟨-, ht⟩, hm', rfl⟩ : (_ ∧ (m.addedIds t).isSome) ∧
        (m.transactionAdd t fd tag status failure).1 = m' ∧
          m.addRecord (some t) fd tag (m.transactionAdd t fd tag status failure).2 = records := by
      simpa [EpollInstance.call] using hc
    obtain ⟨m₁, hadd, rfl⟩ := transactionAdd_eq (Prod.ext hm' rfl)
    exact h.transactionAdd ht hadd
  | commit t =>
    obtain ⟨ht, rfl, rfl⟩ : (m.addedIds t).isSome ∧ m.commit t = m' ∧ [.committed t] = records := by
      simpa [EpollInstance.call] using hc
    refine ⟨fun t' ids hids => ?_, fun t' hle => ?_⟩
    · by_cases heq : t' = t
      · subst heq
        -- the commit is the last record, and nothing has been added since
        obtain rfl : [] = ids := by simpa [commit] using hids
        simp [addedSinceCommit_append]
      · have hids' : m.addedIds t' = some ids := by
          simpa [commit, Function.update_of_ne heq] using hids
        simpa [addedSinceCommit_append, Ne.symm heq] using h.ids t' ids hids'
    · have hne : t' ≠ t := ((h.lt ht).trans_le hle).ne'
      obtain ⟨hnone, hno⟩ := h.unused t' hle
      refine ⟨by simp [commit, Function.update_of_ne hne, hnone], fun e => ?_⟩
      simp [addedSinceCommit_append, hno]
  | destroyTransaction t =>
    obtain ⟨ht, rfl, rfl⟩ : (m.addedIds t).isSome ∧ m.destroyTransaction t = m' ∧ [] = records := by
      simpa [EpollInstance.call] using hc
    have hs := m.sameCounters_rollback ((m.addedIds t).getD [])
    rw [List.append_nil]
    refine ⟨fun t' ids hids => ?_, fun t' hle => ?_⟩
    · by_cases heq : t' = t
      · subst heq
        -- the transaction does not exist any more
        simp [destroyTransaction] at hids
      · refine h.ids t' ids ?_
        simpa [destroyTransaction, Function.update_of_ne heq, hs.addedIds] using hids
    · have hle' : m.nextTransaction ≤ t' := hs.nextTransaction ▸ hle
      have hne : t' ≠ t := ((h.lt ht).trans_le hle').ne'
      obtain ⟨hnone, hno⟩ := h.unused t' hle'
      exact ⟨by simp [destroyTransaction, Function.update_of_ne hne, hs.addedIds, hnone], hno⟩

end Remembered

/-! ## Runs -/

/-- What is known about ids after a run. -/
structure Tracked (ls : List Label) (s : State) : Prop where
  wf : s.monitor.Wf
  named : Named s.monitor s.log
  remembered : Remembered s.monitor s.log
  nextPtr : s.monitor.nextPtr = adds ls

section Runs

variable {s s' : State} {l : Label} {ls : List Label} {ok : State → Label → Prop}

theorem State.Step.quiet (hwf : s.monitor.Wf) (hs : State.Step s l s')
    (hcall : ∀ c, l ≠ .call c) :
    SameCounters s.monitor s'.monitor ∧
      (∀ id e, s'.monitor.listeners.lookup id = some e →
        s.monitor.listeners.lookup id = some e) ∧
      ∃ records, s'.log = s.log ++ records ∧
        ∀ r ∈ records, ∃ e status, r = .handled e status := by
  cases hs with
  | call _ _ => exact (hcall _ rfl).elim
  | kernel _ _ _ => exact ⟨⟨rfl, rfl, rfl, rfl⟩, fun _ _ hl => hl, [], by simp, by simp⟩
  | @process _ _ item _ entry _ =>
    exact ⟨.refl, fun _ _ hl => hl, [.handled entry (epollEventToActivityStatus item.events)],
      rfl, by simp⟩
  | update _ =>
    exact ⟨sameCounters_updateListeningStatus .., fun _ _ hl => by
      rwa [updateListeningStatus_listeners] at hl, [], by simp, by simp⟩
  | returnsStopped _ _ =>
    exact ⟨sameCounters_erase .., fun _ _ hl => ((hwf.drops_erase _).lookup_eq hl).2, [],
      by simp, by simp⟩
  | _ => exact ⟨.refl, fun _ _ hl => hl, [], by simp, by simp⟩

theorem adds_append (ls : List Label) (l : Label) :
    adds (ls ++ [l]) = adds ls + (if l.IsAdd then 1 else 0) := by
  simp [adds, List.countP_append, List.countP_singleton]

theorem State.Step.tracked (h : Tracked ls s) (hs : State.Step s l s') :
    Tracked (ls ++ [l]) s' := by
  have hwf' := hs.wf h.wf
  by_cases hcall : ∃ c, l = .call c
  · obtain ⟨c, rfl⟩ := hcall
    cases hs with
    | call _ hc =>
      refine ⟨hwf', h.named.call h.wf hc, h.remembered.call hc, ?_⟩
      rw [adds_append, ← h.nextPtr]
      exact (call_counters hc).1
  · obtain ⟨hsame, hl, records, hlog, hrecords⟩ :=
      hs.quiet h.wf fun c heq => hcall ⟨c, heq⟩
    have hadd : ¬ l.IsAdd := by
      unfold Label.IsAdd
      split
      · exact fun _ => hcall ⟨_, rfl⟩
      · exact fun _ => hcall ⟨_, rfl⟩
      · exact fun h => h
    refine ⟨hwf', ?_, ?_, ?_⟩
    · rw [hlog]
      refine h.named.mono (fun id e he => .inl (hl id e he)) hsame.nextPtr.ge ?_ ?_
      · rw [hsame.currentId, hsame.nextPtr, h.named.current]
      · intro r hr via e heq
        obtain ⟨e', status, rfl⟩ := hrecords r hr
        cases heq
    · rw [hlog]
      refine h.remembered.mono hsame.addedIds hsame.nextTransaction fun r hr => ?_
      obtain ⟨e', status, rfl⟩ := hrecords r hr
      simp
    · rw [adds_append, if_neg hadd, hsame.nextPtr, h.nextPtr, Nat.add_zero]

theorem State.Init.tracked (h : s.Init) : Tracked [] s := by
  refine ⟨h.wf, ?_, ?_, h.nextPtr⟩
  · rw [h.log]
    exact .of_nextPtr_eq_zero h.listeners h.currentId h.nextPtr
  · rw [h.log]
    refine ⟨fun t ids hids => ?_, fun t _ => ⟨by rw [h.addedIds], fun e =>
      not_addedSinceCommit_nil⟩⟩
    rw [h.addedIds] at hids
    cases hids

theorem reach_tracked (h : eventLoop.Reach ok ls s) : Tracked ls s :=
  h.invariant (I := Tracked) (fun _ h0 => State.Init.tracked h0)
    fun _ _ _ _ _ htracked _ hstep => (State.step_cases hstep).tracked htracked

end Runs

/-! ## Destroying a transaction -/

/-- The outcome `m'` of destroying the transaction `t` in the state `s`. -/
structure RolledBack (s : State) (t : Transaction) (m' : EpollInstance) : Prop where
  /-- Exactly the listeners that the transaction has added since its last commit are removed. -/
  listeners : ∀ id e, m'.listeners.lookup id = some e ↔
    s.monitor.listeners.lookup id = some e ∧ ¬ AddedSinceCommit t s.log e
  /-- They are removed from the interest list. -/
  unregistered : ∀ id e, s.monitor.listeners.lookup id = some e → AddedSinceCommit t s.log e →
    ∀ key event, m'.kernel.interest key = some event → event.data ≠ e.ptr
  /-- The registrations of the other listeners are the same. -/
  registrations : ∀ id e, m'.listeners.lookup id = some e → ∀ key event, event.data = e.ptr →
    (m'.kernel.interest key = some event ↔ s.monitor.kernel.interest key = some event)
  /-- The descriptors of the other listeners stay open. -/
  descriptors : ∀ id e, m'.listeners.lookup id = some e → e.fd ∈ s.monitor.kernel.descriptors →
    m'.kernel.descriptors.lookup e.fd = s.monitor.kernel.descriptors.lookup e.fd
  /-- What had been added before the last commit stays. -/
  committed : ∀ id e, s.monitor.listeners.lookup id = some e → AddedBeforeCommit t s.log e →
    m'.listeners.lookup id = some e

/-- **A transaction is all or nothing.**  In every state that a run with fewer than `2 ^ 64` calls
of `add` reaches, destroying a transaction removes exactly the listeners that it has added since
its last commit and that are still registered, and leaves every other listener alone. -/
theorem rollback_exact {ok : State → Label → Prop} {ls : List Label} {s : State} {t : Transaction}
    (h : eventLoop.Reach ok ls s) (hadds : adds ls < 2 ^ 64)
    (ht : (s.monitor.addedIds t).isSome) :
    RolledBack s t (s.monitor.destroyTransaction t) := by
  obtain ⟨hwf, hnamed, hremembered, hnextPtr⟩ := reach_tracked h
  obtain ⟨ids, hids⟩ := Option.isSome_iff_exists.1 ht
  have hd : Drops s.monitor (s.monitor.destroyTransaction t) ids := by
    unfold destroyTransaction
    rw [hids]
    exact (hwf.drops_rollback ids).setAddedIds _
  have hgone : Gone s.monitor ids (s.monitor.destroyTransaction t).kernel := by
    unfold destroyTransaction
    rw [hids]
    exact hwf.gone_rollback ids
  -- an id that the transaction remembers stands for a listener that it has added
  have hmem : ∀ id e, s.monitor.listeners.lookup id = some e →
      (id ∈ ids ↔ AddedSinceCommit t s.log e) := by
    intro id e hl
    rw [hremembered.ids t ids hids id]
    constructor
    · rintro ⟨e', he', hid⟩
      rw [← hwf.key id e hl] at hid
      rwa [hnamed.ptr_eq hwf (hnextPtr ▸ hadds) he'.mem hl hid]
    · exact fun he => ⟨e, he, hwf.key id e hl⟩
  have hlisteners : ∀ id e, (s.monitor.destroyTransaction t).listeners.lookup id = some e ↔
      s.monitor.listeners.lookup id = some e ∧ ¬ AddedSinceCommit t s.log e := by
    intro id e
    constructor
    · intro hl'
      obtain ⟨hid, hl⟩ := hd.lookup_eq hl'
      exact ⟨hl, fun he => hid ((hmem id e hl).2 he)⟩
    · rintro ⟨hl, he⟩
      rw [hd.lookup, if_neg fun hid => he ((hmem id e hl).1 hid), hl]
  refine ⟨hlisteners, fun id e hl he => hgone id ((hmem id e hl).2 he) e hl,
    fun id e hl' key event hdata => hd.registration hwf hl' hdata,
    fun id e hl' hopen => (hd.keeps id e hl' hopen).lookup,
    fun id e hl hbefore => (hlisteners id e).2 ⟨hl, hbefore.not_since hnamed.once⟩⟩

/-- The first listener is added directly, the second by the transaction before a commit, and the
third by the transaction after it; a fourth addition fails. -/
def transactionRun : List Label :=
  [.kernel (.openDescriptor 3 none), .call (.add 3 .generic .read none),
    .call .makeConfigTransaction, .kernel (.openDescriptor 4 none),
    .call (.transactionAdd 0 4 .generic .read none), .call (.commit 0),
    .kernel (.openDescriptor 5 none), .call (.transactionAdd 0 5 .generic .write none),
    .kernel (.openDescriptor 6 none), .call (.transactionAdd 0 6 .generic .read (some 12))]

theorem rollback_exact_transactionRun : ∃ s, eventLoop.Reach (fun _ _ => True) transactionRun s ∧
    RolledBack s 0 (s.monitor.destroyTransaction 0) ∧
      s.monitor.listeners.keys = [⟨2⟩, ⟨1⟩, ⟨0⟩] ∧
        (s.monitor.destroyTransaction 0).listeners.keys = [⟨1⟩, ⟨0⟩] := by
  have hrun : (eventLoop.run (fun _ _ => True) State.fresh transactionRun).map
      (fun s => (s.monitor.addedIds 0, s.monitor.listeners.keys,
        (s.monitor.destroyTransaction 0).listeners.keys)) =
          some (some [⟨2⟩], [⟨2⟩, ⟨1⟩, ⟨0⟩], [⟨1⟩, ⟨0⟩]) := by decide
  obtain ⟨s, h, hlast⟩ := Lts.Reach.exists_of_map_run State.fresh_init hrun
  simp only [Prod.mk.injEq] at hlast
  obtain ⟨hids, hkeys, hkeys'⟩ := hlast
  exact ⟨s, h, rollback_exact h (by decide) (by rw [hids]; rfl), hkeys, hkeys'⟩

/-- A call of `add` that throws has left nothing that the rollback would have to remove, unless its
status was none of the enumerators: the listeners and their registrations are as before, and so is
what the transactions remember. -/
theorem transactionAdd_throws {ok : State → Label → Prop} {ls : List Label} {s : State}
    {t : Transaction} {fd : NativeHandle} {tag : FileDescriptorTag} {status : ActivityStatus}
    {failure : Option Errno} {m' : EpollInstance} {ex : Exception} (h : eventLoop.Reach ok ls s)
    (hfd : s.monitor.MayBeAdded fd) (hstatus : status.IsEnumerator)
    (hadd : s.monitor.transactionAdd t fd tag status failure = (m', .error ex)) :
    m'.addedIds = s.monitor.addedIds ∧
      (∀ id, m'.listeners.lookup id = s.monitor.listeners.lookup id) ∧
      ∀ id e, m'.listeners.lookup id = some e → ∀ key event, event.data = e.ptr →
        (m'.kernel.interest key = some event ↔ s.monitor.kernel.interest key = some event) := by
  obtain ⟨hwf, -⟩ := reach_tracked h
  obtain ⟨m₁, hfailed, rfl⟩ := transactionAdd_eq hadd
  have hids : m₁.addedIds = s.monitor.addedIds := (sameCounters_add hfailed).addedIds
  rcases hwf.add_cases hfd hfailed with ⟨hd, -⟩ | ⟨-, ⟨hbad, -⟩ | ⟨-, hok⟩⟩
  · refine ⟨hids, fun id => by simpa using hd.lookup id, ?_⟩
    intro id e hl key event hdata
    exact hd.registration hwf hl hdata
  · exact absurd hstatus hbad
  · cases hok

end ThePipe.OsServices.IoMultiplexer
