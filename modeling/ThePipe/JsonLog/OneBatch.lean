import ThePipe.JsonLog.Delivery
import ThePipe.OsServices.IoMultiplexer.DispatchBatch

/-!
# No event of a log pipe is lost

`epoll_wait` reports the pipe of a log reader as long as there is something in it, and
`handle_event` reads until there is nothing left.

* `reads_le` : a call of `handle_event` ends unless somebody keeps writing, and with its last read
  the reader has caught up with all that has been written;
* `one_batch_suffices` : so nothing that has been written has to wait for something else to be
  written: whenever the event loop is idle, the reader listens and the pipe is not empty, the batch
  with the event of the pipe is enough.
-/

set_option autoImplicit false

namespace ThePipe.JsonLog.LogPipe

open Lib Jopp OsServices ErrorHandling Fd IoMultiplexer

section

variable {σ : Type} {P : Parser σ UInt8 Container SyntaxError}
  {G : Grammar UInt8 Container SyntaxError} {undef : Binary64 → Int64} {bufferSize : ℕ}
  {who : String} {fuel : ℕ} {reader : Ptr} {key : NativeHandle × Ofd} {ls : List Label}
  {p q : State σ × Traffic}

/-! ## The reads of a call -/

/-- The label is that of a read. -/
def Label.isRead : Label → Bool
  | .round _ => true
  | .write _ | .closeWriteEnd | .loop _ => false

/-- How many bytes a step writes. -/
def Label.writes : Label → ℕ
  | .write bytes => bytes.length
  | .round _ | .closeWriteEnd | .loop _ => 0

variable (G undef who) in
/-- Everything that has been written has been told of, except for a value that is not complete; or
the reader has stopped. -/
def CaughtUp (pipe : Pipe) (t : Traffic) : Prop :=
  (t.stopped = true ∧ t.callbacks = reference undef G who t.written) ∨
    t.stopped = false ∧ pipe = ⟨[], false⟩ ∧
      ∃ begun, (G.front begun).isOpen ∧ begun <:+ t.written ∧
        ∀ rest, reference undef G who (t.written ++ rest) =
          t.callbacks ++ reference undef G who (begun ++ rest)

theorem Delivering.fed_of_reading {s : State σ} {t : Traffic}
    (h : Delivering P G undef who reader s t) (hphase : s.phase = .reading) :
    ∃ l, P.Fed l s.parser := by
  cases hstop : t.stopped with
  | true => exact absurd hphase (h.gone hstop).2
  | false =>
    obtain ⟨l, hfed, -⟩ := h.listening hstop
    exact ⟨l, hfed⟩

/-- A read takes something from the pipe, unless it is the last one of its call. -/
theorem Delivering.read (h : Delivering P G undef who reader p.1 p.2) (hP : P.Implements G)
    (hB : 0 < bufferSize) (hfuel : bufferSize < fuel) {call : Io.Call}
    (hs : (traced P undef bufferSize who fuel reader key).step p (.round call) = some q) :
    p.1.phase = .reading ∧
      (q.1.phase = .reading ∧ q.1.pipe.buffered.length < p.1.pipe.buffered.length ∨
        q.1.phase = .done ∧ (q.2.stopped = false → q.1.pipe = ⟨[], false⟩)) := by
  obtain ⟨s, t⟩ := p
  obtain ⟨s', hs', rfl⟩ := Option.map_eq_some_iff.1 hs
  have hphase : s.phase = .reading := by
    simp only [State.step, Option.ite_none_right_eq_some] at hs'
    exact hs'.1.1
  obtain ⟨l, hfed⟩ := h.fed_of_reading hphase
  obtain ⟨-, hround⟩ := round_cases hP hB hfuel hfed hs'
  refine ⟨hphase, ?_⟩
  generalize t.record P undef bufferSize who fuel s (.round call) = t' at hround ⊢
  cases hround with
  | pauses hempty hopen =>
    refine .inr ⟨rfl, fun _ => ?_⟩
    show s.pipe = ⟨[], false⟩
    rw [← hempty, ← hopen]
  | reads hshort _ _ _ => exact .inl ⟨hphase, hshort⟩
  | stops _ _ => exact .inr ⟨rfl, fun hgoes => by simp [Traffic.after] at hgoes⟩

theorem Delivering.meanwhile (h : Delivering P G undef who reader p.1 p.2)
    (hphase : p.1.phase ≠ .outside) {l : Label} (hl : l ≠ .loop .handlerReturns)
    (hread : l.isRead = false)
    (hs : (traced P undef bufferSize who fuel reader key).step p l = some q) :
    q.1.phase = p.1.phase ∧
      q.1.pipe.buffered.length = p.1.pipe.buffered.length + l.writes := by
  obtain ⟨s, t⟩ := p
  obtain ⟨s', hs', rfl⟩ := Option.map_eq_some_iff.1 hs
  cases l with
  | write bytes =>
    simp only [State.step, Option.ite_none_left_eq_some, Option.some.injEq] at hs'
    obtain ⟨-, rfl⟩ := hs'
    exact ⟨rfl, List.length_append⟩
  | closeWriteEnd =>
    simp only [State.step, Option.ite_none_left_eq_some, Option.some.injEq] at hs'
    obtain ⟨-, rfl⟩ := hs'
    exact ⟨rfl, rfl⟩
  | loop l =>
    simp only [State.step, Option.ite_none_right_eq_some, Option.map_eq_some_iff] at hs'
    obtain ⟨hallows, loop, hstep, rfl⟩ := hs'
    have hpipe : (s.afterLoop reader l loop).pipe = s.pipe := State.afterLoop_eq.2.1
    refine ⟨?_, congrArg (·.buffered.length) hpipe⟩
    rcases h.served.loop_cases hallows (IoMultiplexer.State.step_cases hstep) with
      ⟨houtside, -⟩ | ⟨houtside, -⟩ | ⟨-, hsame, -⟩ | ⟨-, -, rfl⟩
    · exact absurd houtside hphase
    · exact absurd houtside hphase
    · exact hsame
    · exact absurd rfl hl
  | round call => cases hread

/-- What the steps of a call have led to since it began to read in `p`: each of its reads but the
last one has taken something from the pipe. -/
def InCall (p : State σ × Traffic) (steps : List Label) (q : State σ × Traffic) : Prop :=
  q.1.phase = .reading ∧ steps.countP Label.isRead + q.1.pipe.buffered.length ≤
      p.1.pipe.buffered.length + (steps.map Label.writes).sum ∨
    q.1.phase = .done ∧ steps.countP Label.isRead ≤
      p.1.pipe.buffered.length + (steps.map Label.writes).sum + 1

theorem InCall.step {p₁ : State σ × Traffic} {steps : List Label} {l : Label}
    (h : InCall p steps p₁) (hP : P.Implements G) (hB : 0 < bufferSize) (hfuel : bufferSize < fuel)
    (hdelivering : Delivering P G undef who reader p₁.1 p₁.2) (hl : l ≠ .loop .handlerReturns)
    (hs : (traced P undef bufferSize who fuel reader key).step p₁ l = some q) :
    InCall p (steps ++ [l]) q := by
  unfold InCall at h ⊢
  rw [List.countP_append, List.countP_singleton, List.map_append, List.sum_append,
    List.map_singleton, List.sum_singleton]
  cases hread : l.isRead with
  | false =>
    have hphase : p₁.1.phase ≠ .outside := by
      rcases h with ⟨hreading, -⟩ | ⟨hdone, -⟩
      · simp [hreading]
      · simp [hdone]
    obtain ⟨hsame, hlength⟩ := hdelivering.meanwhile hphase hl hread hs
    rw [hsame]
    rcases h with ⟨hreading, hle⟩ | ⟨hdone, hle⟩
    · exact .inl ⟨hreading, by simp; omega⟩
    · exact .inr ⟨hdone, by simp; omega⟩
  | true =>
    cases l with
    | round call =>
      obtain ⟨hreading, hafter⟩ := hdelivering.read hP hB hfuel hs
      rcases h with ⟨-, hle⟩ | ⟨hdone, -⟩
      · rcases hafter with ⟨hphase', hshort⟩ | ⟨hphase', -⟩
        · exact .inl ⟨hphase', by simp [Label.writes]; omega⟩
        · exact .inr ⟨hphase', by simp [Label.writes]; omega⟩
      · rw [hdone] at hreading
        cases hreading
    | _ => cases hread

theorem inCall_of_run (hP : P.Implements G) (hB : 0 < bufferSize) (hfuel : bufferSize < fuel)
    (h : (traced P undef bufferSize who fuel reader key).Reach (fun _ _ => True) ls p)
    (hphase : p.1.phase = .reading) {steps : List Label}
    (hcall : Label.loop .handlerReturns ∉ steps)
    (hrun : (traced P undef bufferSize who fuel reader key).run (fun _ _ => True) p steps =
      some q) : InCall p steps q := by
  refine Lts.run_invariant (I := fun steps q => Label.loop .handlerReturns ∉ steps →
    InCall p steps q) ?_ ?_ hrun hcall
  · exact fun _ => .inl ⟨hphase, by simp⟩
  · rintro steps p₁ l q hsteps ih - hs hcall
    rw [List.mem_append, not_or, List.mem_singleton] at hcall
    exact (ih hcall.1).step hP hB hfuel (delivering_of_reach hP hB hfuel (h.append_run hsteps))
      (Ne.symm hcall.2) hs

/-- With the last read of a call the reader has caught up. -/
theorem caughtUp_of_round (hP : P.Implements G) (hB : 0 < bufferSize) (hfuel : bufferSize < fuel)
    (h : (traced P undef bufferSize who fuel reader key).Reach (fun _ _ => True) ls p)
    {call : Io.Call}
    (hs : (traced P undef bufferSize who fuel reader key).step p (.round call) = some q)
    (hdone : q.1.phase = .done) : CaughtUp G undef who q.1.pipe q.2 := by
  have hdelivering := delivering_of_reach hP hB hfuel (h.step trivial hs)
  cases hstop : q.2.stopped with
  | true => exact .inl ⟨hstop, hdelivering.callbacks_of_stopped hstop⟩
  | false =>
    obtain ⟨-, hafter⟩ := (delivering_of_reach hP hB hfuel h).read hP hB hfuel hs
    have hpipe : q.1.pipe = ⟨[], false⟩ := by
      rcases hafter with ⟨hreading, -⟩ | ⟨-, hempty⟩
      · rw [hdone] at hreading
        cases hreading
      · exact hempty hstop
    obtain ⟨l, hfed, hsuffix, href⟩ := hdelivering.listening hstop
    rw [hpipe] at hsuffix href
    refine .inr ⟨hstop, hpipe, l, hP.front_isOpen hfed, ?_, ?_⟩
    · simpa using hsuffix
    · simpa using href

/-- **A call of `handle_event` ends** unless somebody keeps writing.  In every run a call makes at
most one read more than there are bytes in the pipe when it begins to read and are written while it
reads; and after its last read the reader has caught up with all that has been written until
then. -/
theorem reads_le (hP : P.Implements G) (hB : 0 < bufferSize) (hfuel : bufferSize < fuel)
    (h : (traced P undef bufferSize who fuel reader key).Reach (fun _ _ => True) ls p)
    (hphase : p.1.phase = .reading) {steps : List Label}
    (hcall : Label.loop .handlerReturns ∉ steps)
    (hrun : (traced P undef bufferSize who fuel reader key).run (fun _ _ => True) p steps =
      some q) :
    steps.countP Label.isRead ≤ p.1.pipe.buffered.length + (steps.map Label.writes).sum + 1 ∧
      ∀ before call, steps = before ++ [.round call] → q.1.phase = .done →
        CaughtUp G undef who q.1.pipe q.2 := by
  constructor
  · rcases inCall_of_run hP hB hfuel h hphase hcall hrun with ⟨-, hle⟩ | ⟨-, hle⟩
    · omega
    · exact hle
  · rintro before call rfl hdone
    obtain ⟨p₁, hbefore, -, hs⟩ := Lts.run_concat_eq_some.1 hrun
    exact caughtUp_of_round hP hB hfuel (h.append_run hbefore) hs hdone

end

/-- The rest of an array is written between the reads of a call. -/
theorem reads_le_example : ∃ p q : State (Flat × Container) × Traffic,
    (traced Flat.automaton.parser (fun _ => 0) 7 "client" 8 0 (3, 0)).Reach (fun _ _ => True)
      [.write (Flat.bytes "["), .loop (.waitReturns [((3, 0), EPOLLIN)]), .loop .process] p ∧
      (traced Flat.automaton.parser (fun _ => 0) 7 "client" 8 0 (3, 0)).run (fun _ _ => True) p
        [.round ⟨0, .transfers 9 0⟩, .write (Flat.bytes "]"), .round ⟨1, .transfers 0 0⟩,
          .round ⟨0, .fails EAGAIN⟩] = some q ∧
      CaughtUp Flat.automaton.grammar (fun _ => 0) "client" q.1.pipe q.2 := by
  have hrun : ((traced Flat.automaton.parser (fun _ => 0) 7 "client" 8 0 (3, 0)).run
      (fun _ _ => True) (start, ⟨[], [], false⟩)
      [.write (Flat.bytes "["), .loop (.waitReturns [((3, 0), EPOLLIN)]), .loop .process]).map
        (fun p => (p.1.phase,
          ((traced Flat.automaton.parser (fun _ => 0) 7 "client" 8 0 (3, 0)).run (fun _ _ => True) p
            [.round ⟨0, .transfers 9 0⟩, .write (Flat.bytes "]"), .round ⟨1, .transfers 0 0⟩,
              .round ⟨0, .fails EAGAIN⟩]).map fun q => q.1.phase)) =
        some (.reading, some .done) := by decide
  obtain ⟨p, h, heq⟩ := Lts.Reach.exists_of_map_run (And.intro start_init ⟨rfl, rfl⟩) hrun
  obtain ⟨hreading, hsteps⟩ := Prod.mk.inj heq
  obtain ⟨q, hq, hdone⟩ := Option.map_eq_some_iff.1 hsteps
  obtain ⟨-, hcaught⟩ := reads_le Flat.automaton.implements (by decide) (by decide) h hreading
    (by simp) hq
  exact ⟨p, q, h, hq, hcaught [_, _, _] _ rfl hdone⟩

section

variable {σ : Type} {P : Parser σ UInt8 Container SyntaxError}
  {G : Grammar UInt8 Container SyntaxError} {undef : Binary64 → Int64} {bufferSize : ℕ}
  {who : String} {fuel : ℕ} {reader : Ptr} {key : NativeHandle × Ofd} {ls : List Label}
  {p q : State σ × Traffic}

theorem stopListening_eq {loop loop' : IoMultiplexer.State}
    (h : IoMultiplexer.State.Step loop .stopListening loop') :
    ∃ activity pending, loop.control = .handling activity pending ∧ loop' =
      { loop with control := .handling { activity with itemShouldBeRemoved := true } pending } := by
  cases h
  exact ⟨_, _, rfl, rfl⟩

/-! ## The registration of the reader -/

variable (reader key) in
/-- As long as the reader is stored it is registered for reading from its pipe. -/
def State.Subscribed (s : State σ) : Prop :=
  ∀ id e, s.loop.monitor.listeners.lookup id = some e → e.ptr = reader →
    e.fd = key.1 ∧ s.loop.monitor.kernel.descriptors.lookup key.1 = some key.2 ∧
      s.loop.monitor.kernel.interest key = some ⟨EPOLLIN, reader⟩

theorem State.Init.subscribed {s : State σ} (h : s.Init P reader key) :
    s.Subscribed reader key := by
  intro id e hl hp
  obtain ⟨id', e', hl', hp', hfd⟩ := h.listener
  obtain rfl : id = id' := h.inv.wf.ptr id e id' e' hl hl' (hp.trans hp'.symm)
  obtain rfl : e = e' := Option.some.inj (hl.symm.trans hl')
  exact ⟨hfd, h.descriptor, h.registered⟩

theorem State.Served.not_update {s : State σ} {l : IoMultiplexer.Label} (h : s.Served reader)
    (hallows : s.Allows key l) {activity : EpollFdActivity} {pending : List EpollEvent}
    (hcontrol : s.loop.control = .handling activity pending) (hdata : activity.data = reader)
    (status : ActivityStatus) (failure : Option Errno) :
    l ≠ .updateListeningStatus status failure := by
  rintro rfl
  have hrun : s.phase ≠ .outside := h.running.2 ⟨activity, by rw [hcontrol]; rfl, hdata⟩
  unfold Allows at hallows
  cases hphase : s.phase with
  | outside => exact hrun hphase
  | reading =>
    simp only [hphase] at hallows
    exact hallows
  | done =>
    simp only [hphase] at hallows
    rcases hallows with hkernel | heq
    · exact hkernel
    · cases heq

theorem State.Subscribed.loopStep {s : State σ} {l : IoMultiplexer.Label}
    {loop : IoMultiplexer.State} (h : s.Subscribed reader key) (hserved : s.Served reader)
    (hallows : s.Allows key l) (hstep : s.loop.Step l loop) :
    (s.afterLoop reader l loop).Subscribed reader key := by
  intro id e hl' hp
  have hloop : (s.afterLoop reader l loop).loop = loop := State.afterLoop_eq.1
  rw [hloop] at hl' ⊢
  have hl : s.loop.monitor.listeners.lookup id = some e := by
    rcases hstep.lookup_or_new hserved.wf hl' with hl | hnew
    · exact hl
    · exact absurd (hp.symm.trans hnew) hserved.made.ne
  obtain ⟨hfd, hofd, hreg⟩ := h id e hl hp
  have hopen : e.fd ∈ s.loop.monitor.kernel.descriptors := by
    rw [← AList.lookup_isSome, hfd, hofd]
    rfl
  have hkeeps : s.loop.monitor.kernel.Keeps loop.monitor.kernel e.fd := by
    refine hstep.keeps hserved.wf hl hl' hopen ?_
    intro activity pending hcontrol hdata
    exact hserved.not_update hallows hcontrol (hdata.trans hp)
  rw [hfd] at hkeeps
  exact ⟨hfd, hkeeps.lookup.trans hofd, (hkeeps.registered key.2 hofd).trans hreg⟩

theorem subscribed_of_reach (hP : P.Implements G) (hB : 0 < bufferSize)
    (hfuel : bufferSize < fuel)
    (h : (traced P undef bufferSize who fuel reader key).Reach (fun _ _ => True) ls p) :
    p.1.Subscribed reader key := by
  refine h.invariant (I := fun _ p => p.1.Subscribed reader key) ?_ ?_
  · rintro ⟨s, t⟩ ⟨hinit, -⟩
    exact hinit.subscribed
  · rintro ls ⟨s, t⟩ l p hr hsubscribed - hs
    obtain ⟨s', hs', rfl⟩ := Option.map_eq_some_iff.1 hs
    cases State.step_cases hs' with
    | loop hallows hstep =>
      exact hsubscribed.loopStep (delivering_of_reach hP hB hfuel hr).served hallows hstep
    | stops hphase hstep parser buffered =>
      obtain ⟨activity, pending, -, rfl⟩ := stopListening_eq hstep
      exact hsubscribed
    | _ => exact hsubscribed

/-! ## A batch -/

/-- The event word of a pipe that is not empty. -/
def Pipe.events (pipe : Pipe) : BitVec 32 :=
  if pipe.closed then EPOLLIN ||| EPOLLHUP else EPOLLIN

variable (key) in
/-- `wait_for_and_distpatch_events` with the event of the pipe, and the answers to the reads. -/
def batch (pipe : Pipe) (calls : List Io.Call) : List Label :=
  [.loop (.waitReturns [(key, pipe.events)]), .loop .process] ++
    (calls.map .round ++ [.loop .handlerReturns, .loop .leave])

theorem Pipe.reports_events {pipe : Pipe} (h : pipe.buffered ≠ []) : pipe.Reports pipe.events := by
  unfold Reports events
  cases pipe.closed with
  | true => exact ⟨iff_of_true (by decide) h, iff_of_true (by decide) rfl, .inl h⟩
  | false => exact ⟨iff_of_true (by decide) h, iff_of_false (by decide) (by simp), .inl h⟩

theorem Pipe.canRead_events (pipe : Pipe) :
    (epollEventToActivityStatus pipe.events).canRead = true := by
  unfold events
  cases pipe.closed <;> decide

theorem Pipe.exists_answer (pipe : Pipe) : ∃ call, pipe.Answers call := by
  unfold Answers
  split
  · exact ⟨⟨0, .fails EAGAIN⟩, rfl⟩
  · exact ⟨⟨0, .transfers 0 0⟩, 0, 0, rfl⟩

variable (reader) in
/-- In the batch that begins in `p` the event of the reader, the only one, is handled. -/
structure Called (p : State σ × Traffic) (q : State σ × Traffic) : Prop where
  monitor : q.1.loop.monitor = p.1.loop.monitor
  control : ∃ status, q.1.loop.control = .handling ⟨reader, status, q.2.stopped⟩ []
  written : q.2.written = p.2.written
  closed : q.1.pipe.closed = p.1.pipe.closed

theorem traced_loop {s s' : State σ} {t : Traffic} {l : IoMultiplexer.Label}
    (h : State.step P undef bufferSize who fuel reader key s (.loop l) = some s') :
    (traced P undef bufferSize who fuel reader key).step (s, t) (.loop l) = some (s', t) :=
  Option.map_eq_some_iff.2 ⟨s', h, rfl⟩

theorem run_begin (hphase : p.1.phase = .outside) (hsubscribed : p.1.Subscribed reader key)
    (hidle : p.1.loop.control = .idle) (hentry : (p.1.loop.monitor.entryAt reader).isSome)
    (hgoes : p.2.stopped = false) (hdata : p.1.pipe.buffered ≠ []) :
    ∃ q, (traced P undef bufferSize who fuel reader key).run (fun _ _ => True) p
        [.loop (.waitReturns [(key, p.1.pipe.events)]), .loop .process] = some q ∧
      Called reader p q ∧ q.1.phase = .reading ∧ q.1.pipe = p.1.pipe := by
  obtain ⟨⟨⟨m, control, log⟩, pipe, parser, phase, hungUp, missed⟩, written, callbacks, stopped⟩ := p
  obtain rfl : phase = .outside := hphase
  obtain rfl : control = .idle := hidle
  obtain rfl : stopped = false := hgoes
  change pipe.buffered ≠ [] at hdata
  obtain ⟨entry, hentry'⟩ : ∃ entry, m.entryAt reader = some entry :=
    Option.isSome_iff_exists.1 hentry
  obtain ⟨id, hl, hp⟩ := EpollInstance.lookup_of_entryAt hentry'
  have hreg : m.kernel.interest key = some ⟨EPOLLIN, reader⟩ := (hsubscribed id entry hl hp).2.2
  have hready : m.BatchReady [(key, pipe.events)] := by
    refine ⟨by simp, by simp, fun r hr => ?_⟩
    rw [List.mem_singleton.1 hr]
    exact Option.isSome_of_eq_some hreg
  have hevents : m.eventsOf [(key, pipe.events)] = [⟨pipe.events, reader⟩] := by
    simp [EpollInstance.eventsOf, hreg]
  have hwait : State.step P undef bufferSize who fuel reader key
      ⟨⟨m, .idle, log⟩, pipe, parser, .outside, hungUp, missed⟩
      (.loop (.waitReturns [(key, pipe.events)])) =
        some ⟨⟨m, .dispatching [⟨pipe.events, reader⟩], log⟩, pipe, parser, .outside, hungUp,
          missed⟩ := by
    simp [State.step, State.Allows, Pipe.reports_events hdata, IoMultiplexer.State.step, hready,
      hevents, State.afterLoop]
  have hprocess : State.step P undef bufferSize who fuel reader key
      ⟨⟨m, .dispatching [⟨pipe.events, reader⟩], log⟩, pipe, parser, .outside, hungUp, missed⟩
      (.loop .process) =
        some ⟨⟨m, .handling ⟨reader, epollEventToActivityStatus pipe.events, false⟩ [],
          log ++ [.handled entry (epollEventToActivityStatus pipe.events)]⟩, pipe, parser, .reading,
            decide pipe.HungUp, missed⟩ := by
    simp [State.step, State.Allows, IoMultiplexer.State.step, hentry', State.afterLoop,
      pipe.canRead_events]
  refine ⟨_, Lts.run_cons_eq_some.2 ⟨trivial, _, traced_loop hwait,
    Lts.run_cons_eq_some.2 ⟨trivial, _, traced_loop hprocess, rfl⟩⟩, ⟨rfl, ⟨_, rfl⟩, rfl, rfl⟩,
      rfl, rfl⟩

theorem Called.round {p₁ : State σ × Traffic} (h : Called reader p p₁) (hP : P.Implements G)
    (hB : 0 < bufferSize) (hfuel : bufferSize < fuel)
    (hdelivering : Delivering P G undef who reader p₁.1 p₁.2) {call : Io.Call}
    (hs : (traced P undef bufferSize who fuel reader key).step p₁ (.round call) = some q) :
    Called reader p q := by
  obtain ⟨hphase, -⟩ := hdelivering.read hP hB hfuel hs
  obtain ⟨l, hfed⟩ := hdelivering.fed_of_reading hphase
  obtain ⟨s, t⟩ := p₁
  obtain ⟨s', hs', rfl⟩ := Option.map_eq_some_iff.1 hs
  obtain ⟨-, hround⟩ := round_cases hP hB hfuel hfed hs'
  obtain ⟨hmonitor, ⟨status, hcontrol⟩, hwritten, hclosed⟩ := h
  generalize t.record P undef bufferSize who fuel s (.round call) = t' at hround ⊢
  cases hround with
  | pauses hempty hopen =>
    have hstopped : (t.after [] .returned).stopped = t.stopped := by simp [Traffic.after]
    exact ⟨hmonitor, ⟨status, hstopped ▸ hcontrol⟩, hwritten, hclosed⟩
  | @reads l' buffered parser callbacks _ _ _ _ =>
    have hstopped : (t.after callbacks .waiting).stopped = t.stopped := by simp [Traffic.after]
    exact ⟨hmonitor, ⟨status, hstopped ▸ hcontrol⟩, hwritten, hclosed⟩
  | @stops loop buffered parser callbacks hstep _ =>
    obtain ⟨activity, pending, hcontrol', rfl⟩ := stopListening_eq hstep
    obtain ⟨rfl, rfl⟩ := Control.handling.inj (hcontrol.symm.trans hcontrol')
    have hstopped : (t.after callbacks .stopped).stopped = true := by simp [Traffic.after]
    exact ⟨hmonitor, ⟨status, by rw [hstopped]⟩, hwritten, hclosed⟩

theorem Called.rounds {p₁ : State σ × Traffic} (h : Called reader p p₁) (hP : P.Implements G)
    (hB : 0 < bufferSize) (hfuel : bufferSize < fuel)
    (hr : (traced P undef bufferSize who fuel reader key).Reach (fun _ _ => True) ls p₁)
    {calls : List Io.Call}
    (hrun : (traced P undef bufferSize who fuel reader key).run (fun _ _ => True) p₁
      (calls.map .round) = some q) : Called reader p q := by
  induction calls generalizing ls p₁ with
  | nil =>
    obtain rfl : p₁ = q := Option.some.inj hrun
    exact h
  | cons call calls ih =>
    obtain ⟨-, p₂, hs, hrun⟩ := Lts.run_cons_eq_some.1 hrun
    exact ih (h.round hP hB hfuel (delivering_of_reach hP hB hfuel hr) hs) (hr.step trivial hs) hrun

theorem Called.exists_round {p₁ : State σ × Traffic} (h : Called reader p p₁)
    (hP : P.Implements G) (hB : 0 < bufferSize) (hfuel : bufferSize < fuel)
    (hdelivering : Delivering P G undef who reader p₁.1 p₁.2) (hphase : p₁.1.phase = .reading) :
    ∃ call q, (traced P undef bufferSize who fuel reader key).step p₁ (.round call) = some q := by
  obtain ⟨l, hfed⟩ := hdelivering.fed_of_reading hphase
  obtain ⟨call, hanswer⟩ := p₁.1.pipe.exists_answer
  obtain ⟨status, hcontrol⟩ := h.control
  have hrun : ∃ activity ∈ activityOf p₁.1.loop.control, activity.data = reader :=
    ⟨_, by rw [hcontrol]; rfl, rfl⟩
  obtain ⟨s, hs⟩ := Option.isSome_iff_exists.1 (@round_isSome _ _ undef _ who _ _ key _ _ hrun hP hB
    hfuel hphase _ hfed _ hanswer)
  exact ⟨call, _, Option.map_eq_some_iff.2 ⟨s, hs, rfl⟩⟩

theorem Called.exists_rounds {p₁ : State σ × Traffic} (h : Called reader p p₁)
    (hP : P.Implements G) (hB : 0 < bufferSize) (hfuel : bufferSize < fuel)
    (hr : (traced P undef bufferSize who fuel reader key).Reach (fun _ _ => True) ls p₁)
    (hphase : p₁.1.phase = .reading) : ∃ (calls : List Io.Call) (q : State σ × Traffic),
      (traced P undef bufferSize who fuel reader key).run (fun _ _ => True) p₁ (calls.map .round) =
        some q ∧ q.1.phase = .done := by
  induction hn : p₁.1.pipe.buffered.length using Nat.strong_induction_on generalizing ls p₁ with
  | _ n ih =>
    have hdelivering := delivering_of_reach hP hB hfuel hr
    obtain ⟨call, p₂, hs⟩ := h.exists_round hP hB hfuel hdelivering hphase
    rcases (hdelivering.read hP hB hfuel hs).2 with ⟨hphase₂, hshort⟩ | ⟨hphase₂, -⟩
    · obtain ⟨calls, q, hrun, hdone⟩ := ih _ (by omega) (h.round hP hB hfuel hdelivering hs)
        (hr.step trivial hs) hphase₂ rfl
      exact ⟨call :: calls, q, Lts.run_cons_eq_some.2 ⟨trivial, p₂, hs, hrun⟩, hdone⟩
    · exact ⟨[call], p₂, Lts.run_cons_eq_some.2 ⟨trivial, p₂, hs, rfl⟩, hphase₂⟩

theorem Called.run_end {p₁ : State σ × Traffic} (h : Called reader p p₁)
    (hphase : p₁.1.phase = .done) (hentry : (p.1.loop.monitor.entryAt reader).isSome) :
    ∃ q, (traced P undef bufferSize who fuel reader key).run (fun _ _ => True) p₁
        [.loop .handlerReturns, .loop .leave] = some q ∧
      q.1.loop.control = .idle ∧ q.1.pipe = p₁.1.pipe ∧ q.2 = p₁.2 ∧
        (q.2.stopped = false → (q.1.loop.monitor.entryAt reader).isSome) := by
  obtain ⟨⟨⟨m', control, log⟩, pipe, parser, phase, hungUp, missed⟩, t⟩ := p₁
  obtain ⟨rfl, ⟨status, hcontrol⟩, -, -⟩ := h
  obtain rfl : phase = .done := hphase
  obtain rfl : control = .handling ⟨reader, status, t.stopped⟩ [] := hcontrol
  obtain ⟨entry, hentry'⟩ := Option.isSome_iff_exists.1 hentry
  let m := if t.stopped then p.1.loop.monitor.erase entry.id else p.1.loop.monitor
  have hreturns : State.step P undef bufferSize who fuel reader key
      ⟨⟨p.1.loop.monitor, .handling ⟨reader, status, t.stopped⟩ [], log⟩, pipe, parser, .done,
        hungUp, missed⟩ (.loop .handlerReturns) =
        some ⟨⟨m, .dispatching [], log⟩, pipe, parser, .outside, hungUp,
          missed || (hungUp && (m.entryAt reader).isSome)⟩ := by
    cases hstop : t.stopped <;>
      simp [m, hstop, State.step, State.Allows, IoMultiplexer.State.step, hentry', State.afterLoop,
        State.leave]
  have hleave : ∀ missed, State.step P undef bufferSize who fuel reader key
      ⟨⟨m, .dispatching [], log⟩, pipe, parser, .outside, hungUp, missed⟩ (.loop .leave) =
        some ⟨⟨m, .idle, log⟩, pipe, parser, .outside, hungUp, missed⟩ := by
    intro missed
    simp [State.step, State.Allows, IoMultiplexer.State.step, State.afterLoop]
  refine ⟨_, Lts.run_cons_eq_some.2 ⟨trivial, _, traced_loop hreturns,
    Lts.run_cons_eq_some.2 ⟨trivial, _, traced_loop (hleave _), rfl⟩⟩, rfl, rfl, rfl,
      fun hstop => ?_⟩
  have hstop' : t.stopped = false := hstop
  have hm : m = p.1.loop.monitor := if_neg (by rw [hstop']; simp)
  show (m.entryAt reader).isSome
  rw [hm]
  exact hentry

theorem done_of_returns (hphase : p.1.phase ≠ .outside)
    (hrun : (traced P undef bufferSize who fuel reader key).run (fun _ _ => True) p
      [.loop .handlerReturns, .loop .leave] = some q) : p.1.phase = .done := by
  obtain ⟨-, p', hs, -⟩ := Lts.run_cons_eq_some.1 hrun
  obtain ⟨s', hs', -⟩ := Option.map_eq_some_iff.1 hs
  simp only [State.step, Option.ite_none_right_eq_some] at hs'
  have hallows := hs'.1
  unfold State.Allows at hallows
  cases hreading : p.1.phase with
  | outside => exact absurd hreading hphase
  | reading =>
    simp only [hreading] at hallows
    exact hallows.elim
  | done => rfl

theorem counts_of_rounds (calls : List Io.Call) :
    (calls.map Label.round).countP Label.isRead = calls.length ∧
      ((calls.map Label.round).map Label.writes).sum = 0 := by
  induction calls with
  | nil => exact ⟨rfl, rfl⟩
  | cons call calls ih =>
    obtain ⟨hreads, hwrites⟩ := ih
    constructor
    · rw [List.map_cons, List.countP_cons_of_pos rfl, hreads, List.length_cons]
    · rw [List.map_cons, List.map_cons, List.sum_cons, hwrites]
      rfl

theorem listening_of_idle {loop : IoMultiplexer.State} (hidle : loop.control = .idle)
    (hentry : (loop.monitor.entryAt reader).isSome) : Listening loop reader := by
  refine ⟨hentry, fun activity ha => ?_⟩
  rw [hidle] at ha
  cases ha

/-- **One batch is enough.**  In every state of every run in which the event loop is idle, the
reader listens and the pipe is not empty: `epoll_wait` can report the pipe, and the batch can be
processed; and however its reads are answered, there is at most one more of them than there are
bytes in the pipe, and after the batch the reader has caught up with what has been written.  If the
write end has been closed the reader has stopped, and it is not listening any more. -/
theorem one_batch_suffices (hP : P.Implements G) (hB : 0 < bufferSize) (hfuel : bufferSize < fuel)
    (h : (traced P undef bufferSize who fuel reader key).Reach (fun _ _ => True) ls p)
    (hidle : p.1.loop.control = .idle) (hlistens : Listening p.1.loop reader)
    (hdata : p.1.pipe.buffered ≠ []) :
    (∃ calls q, (traced P undef bufferSize who fuel reader key).run (fun _ _ => True) p
      (batch key p.1.pipe calls) = some q) ∧
    ∀ calls q, (traced P undef bufferSize who fuel reader key).run (fun _ _ => True) p
        (batch key p.1.pipe calls) = some q →
      calls.length ≤ p.1.pipe.buffered.length + 1 ∧ q.1.loop.control = .idle ∧
        q.2.written = p.2.written ∧ CaughtUp G undef who q.1.pipe q.2 ∧
          (q.2.stopped = true ↔ ¬ Listening q.1.loop reader) ∧
            (p.1.pipe.closed = true → q.2.stopped = true) := by
  have hdelivering := delivering_of_reach hP hB hfuel h
  -- an idle loop runs no handler, and a reader that listens has not stopped
  have hphase : p.1.phase = .outside := by
    by_contra hphase
    obtain ⟨activity, ha, -⟩ := hdelivering.served.running.1 hphase
    rw [hidle] at ha
    cases ha
  have hgoes : p.2.stopped = false := by
    by_contra hstop
    exact (hdelivering.gone (by simpa using hstop)).1 hlistens
  obtain ⟨p₁, hbegin, hcalled, hreading, hpipe⟩ := run_begin hphase
    (subscribed_of_reach hP hB hfuel h) hidle hlistens.1 hgoes hdata
  have hr := h.append_run hbegin
  constructor
  · obtain ⟨calls, p₂, hrun, hdone⟩ := hcalled.exists_rounds hP hB hfuel hr hreading
    obtain ⟨q, hend, -⟩ := (hcalled.rounds hP hB hfuel hr hrun).run_end hdone hlistens.1
    exact ⟨calls, q, Lts.run_append_eq_some.2 ⟨p₁, hbegin,
      Lts.run_append_eq_some.2 ⟨p₂, hrun, hend⟩⟩⟩
  · intro calls q hbatch
    have hafter := delivering_of_reach hP hB hfuel (h.append_run hbatch)
    obtain ⟨p₁', hbegin', hbatch⟩ := Lts.run_append_eq_some.1 hbatch
    obtain rfl := Option.some.inj (hbegin.symm.trans hbegin')
    obtain ⟨p₂, hrun, hend⟩ := Lts.run_append_eq_some.1 hbatch
    have hcalled₂ := hcalled.rounds hP hB hfuel hr hrun
    have hsteps := inCall_of_run hP hB hfuel hr hreading (by simp) hrun
    -- the batch has ended, so the call of the reader has come to its end
    have hdone : p₂.1.phase = .done := by
      refine done_of_returns ?_ hend
      rcases hsteps with ⟨hphase₂, -⟩ | ⟨hphase₂, -⟩ <;> simp [hphase₂]
    -- and it has done so with the last of its reads
    have hcaught : CaughtUp G undef who p₂.1.pipe p₂.2 := by
      rcases List.eq_nil_or_concat calls with rfl | ⟨before, call, rfl⟩
      · obtain rfl : p₁ = p₂ := Option.some.inj hrun
        rw [hreading] at hdone
        cases hdone
      · rw [List.concat_eq_append, List.map_append, List.map_singleton] at hrun
        obtain ⟨p₃, hbefore, -, hs⟩ := Lts.run_concat_eq_some.1 hrun
        exact caughtUp_of_round hP hB hfuel (hr.append_run hbefore) hs hdone
    obtain ⟨q', hend', hidle', hpipe', htraffic, hentry⟩ := hcalled₂.run_end hdone hlistens.1
    obtain rfl := Option.some.inj (hend.symm.trans hend')
    rw [← hpipe', ← htraffic] at hcaught
    refine ⟨?_, hidle', by rw [htraffic, hcalled₂.written], hcaught, ?_, ?_⟩
    · -- each read but the last one has taken a byte, and nobody has written
      obtain ⟨hreads, hwrites⟩ := counts_of_rounds calls
      rw [← hpipe, ← hreads]
      unfold InCall at hsteps
      omega
    · refine ⟨fun hstop => (hafter.gone hstop).1, fun hnot => ?_⟩
      by_contra hstop
      exact hnot (listening_of_idle hidle' (hentry (by simpa using hstop)))
    · intro hclosed
      rcases hcaught with ⟨hstop, -⟩ | ⟨-, hopen, -⟩
      · exact hstop
      · have hsame := congrArg Pipe.closed (hpipe'.symm.trans hopen)
        rw [hcalled₂.closed, hclosed] at hsame
        cases hsame

end

/-- The reader has a part of an array when the rest of it is written, and the write end closed. -/
theorem one_batch_suffices_example : ∃ p : State (Flat × Container) × Traffic,
    (traced Flat.automaton.parser (fun _ => 0) 7 "client" 8 0 (3, 0)).Reach (fun _ _ => True)
      [.write (Flat.bytes "["), .loop (.waitReturns [((3, 0), EPOLLIN)]), .loop .process,
        .round ⟨0, .transfers 9 0⟩, .round ⟨0, .fails EAGAIN⟩, .loop .handlerReturns, .loop .leave,
        .write (Flat.bytes "]"), .closeWriteEnd] p ∧
      ∃ calls q, (traced Flat.automaton.parser (fun _ => 0) 7 "client" 8 0 (3, 0)).run
          (fun _ _ => True) p (batch (3, 0) p.1.pipe calls) = some q ∧ q.2.stopped = true ∧
        CaughtUp Flat.automaton.grammar (fun _ => 0) "client" q.1.pipe q.2 := by
  have hrun : ((traced Flat.automaton.parser (fun _ => 0) 7 "client" 8 0 (3, 0)).run
      (fun _ _ => True) (start, ⟨[], [], false⟩)
      [.write (Flat.bytes "["), .loop (.waitReturns [((3, 0), EPOLLIN)]), .loop .process,
        .round ⟨0, .transfers 9 0⟩, .round ⟨0, .fails EAGAIN⟩, .loop .handlerReturns, .loop .leave,
        .write (Flat.bytes "]"), .closeWriteEnd]).map (fun p =>
          (decide (p.1.loop.control = .idle), decide (Listening p.1.loop 0),
            decide (p.1.pipe.buffered ≠ []), p.1.pipe.closed)) = some (true, true, true, true) := by
    decide
  obtain ⟨p, h, heq⟩ := Lts.Reach.exists_of_map_run (And.intro start_init ⟨rfl, rfl⟩) hrun
  simp only [Prod.mk.injEq, decide_eq_true_eq] at heq
  obtain ⟨hidle, hlistens, hdata, hclosed⟩ := heq
  obtain ⟨⟨calls, q, hbatch⟩, hall⟩ := one_batch_suffices Flat.automaton.implements (by decide)
    (by decide) h hidle hlistens hdata
  obtain ⟨-, -, -, hcaught, -, hstopped⟩ := hall calls q hbatch
  exact ⟨p, h, calls, q, hbatch, hstopped hclosed, hcaught⟩

end ThePipe.JsonLog.LogPipe
