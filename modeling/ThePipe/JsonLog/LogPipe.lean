import ThePipe.JsonLog.Reader
import ThePipe.OsServices.IoMultiplexer.StopListening

/-!
# A log pipe in the event loop

A log reader that is registered for the read end of a pipe, in an event loop that may have any
other listeners.  The pipe is written to and at last closed at any moment, also between two reads
of the same call of `handle_event`, which is why a call is taken apart into its rounds here
(`readLoop_rounds`).

The end of the stream is seen only by a read, and reads are made only when bytes have been reported.
A pipe that is closed while bytes are left in it, or while the reader is reading, is noticed
(`hangUp_noticed`).  One that is closed when it is drained is not: `epoll_wait` reports it again and
again, and `handle_event` returns at once (`hangUp_spins`).
-/

set_option autoImplicit false

namespace ThePipe.JsonLog.LogPipe

open Lib Jopp OsServices ErrorHandling Fd IoMultiplexer

def EPOLLHUP : BitVec 32 := 0x10

/-! ## The pipe -/

structure Pipe where
  buffered : List UInt8
  /-- The last write end has been closed. -/
  closed : Bool

namespace Pipe

variable (pipe : Pipe)

/-- The pipe is closed and empty. -/
def HungUp : Prop := pipe.closed = true ∧ pipe.buffered = []

instance : Decidable pipe.HungUp := by unfold HungUp; infer_instance

/-- How a `read` on the non-blocking read end goes: it would block when the pipe is empty and a
write end is open. -/
def Answers (call : Io.Call) : Prop :=
  if pipe.buffered = [] ∧ pipe.closed = false then call.IsPause else call.IsTransfer

/-- The event words that `epoll_wait` reports for the read end; it is level-triggered. -/
def Reports (events : BitVec 32) : Prop :=
  (events &&& EPOLLIN ≠ 0 ↔ pipe.buffered ≠ []) ∧
    (events &&& EPOLLHUP ≠ 0 ↔ pipe.closed = true) ∧
      (pipe.buffered ≠ [] ∨ pipe.closed = true)

instance : DecidablePred pipe.Reports := fun events => by unfold Reports; infer_instance

instance (call : Io.Call) : Decidable call.IsPause := by unfold Io.Call.IsPause; infer_instance

instance (call : Io.Call) : Decidable call.IsTransfer :=
  match h : call.last with
  | .fails _ => isFalse fun ⟨_, _, ht⟩ => by rw [h] at ht; cases ht
  | .transfers k err => isTrue ⟨k, err, h⟩

instance : DecidablePred pipe.Answers := fun call => by unfold Answers; infer_instance

end Pipe

/-! ## Steps -/

/-- Where `handle_event` of the reader is. -/
inductive Phase
  | outside
  /-- The next thing it does is a `read`. -/
  | reading
  /-- It is about to return. -/
  | done
  deriving DecidableEq

structure State (σ : Type) where
  loop : IoMultiplexer.State
  pipe : Pipe
  parser : σ
  phase : Phase
  /-- The pipe was hung up when the event that is being handled was processed. -/
  hungUp : Bool
  /-- An event has been processed with the pipe hung up, and the reader went on listening. -/
  missed : Bool

inductive Label
  | write (bytes : List UInt8)
  | closeWriteEnd
  /-- A step of the event loop. -/
  | loop (l : IoMultiplexer.Label)
  /-- One round of the loop of `handle_event`. -/
  | round (call : Io.Call)

/-- The activity whose handler is running. -/
def activityOf : Control → Option EpollFdActivity
  | .handling activity _ => some activity
  | _ => none

/-- The listener exists and has not called `stop_listening`. -/
def Listening (loop : IoMultiplexer.State) (reader : Ptr) : Prop :=
  (loop.monitor.entryAt reader).isSome ∧ ∀ activity ∈ activityOf loop.control,
    activity.data = reader → activity.itemShouldBeRemoved = false

instance (loop : IoMultiplexer.State) (reader : Ptr) : Decidable (Listening loop reader) := by
  unfold Listening
  infer_instance

/-- Something that happens outside the event loop. -/
def IsKernel : IoMultiplexer.Label → Prop
  | .kernel _ => True
  | _ => False

instance : DecidablePred IsKernel
  | .kernel _ => isTrue trivial
  | .call _ | .waitReturns _ | .waitFails | .process | .updateListeningStatus _ _ | .stopListening
  | .handlerReturns | .handlerThrows | .leave => isFalse id

section

variable {σ : Type} (P : Parser σ UInt8 Container SyntaxError) (undef : Binary64 → Int64)
  (bufferSize : ℕ) (who : String) (fuel : ℕ) (reader : Ptr) (key : NativeHandle × Ofd)

namespace State

variable (s : State σ)

/-- The steps the event loop may take.  While `handle_event` of the reader runs, what the handler
does is given by its rounds. -/
def Allows (l : IoMultiplexer.Label) : Prop :=
  match s.phase with
  | .outside =>
    match l with
    | .waitReturns batch => ∀ r ∈ batch, r.1 = key → s.pipe.Reports r.2
    | _ => True
  | .reading => IsKernel l
  | .done => IsKernel l ∨ l = .handlerReturns

instance : DecidablePred (s.Allows key) := fun l => by
  unfold Allows
  cases s.phase with
  | outside =>
    exact match l with
      | .waitReturns batch =>
        inferInstanceAs (Decidable (∀ r ∈ batch, r.1 = key → s.pipe.Reports r.2))
      | .call _ | .kernel _ | .waitFails | .process | .updateListeningStatus _ _ | .stopListening
      | .handlerReturns | .handlerThrows | .leave => isTrue trivial
  | reading => infer_instance
  | done => infer_instance

/-- The call of `handle_event` is over. -/
def leave (loop : IoMultiplexer.State) : State σ :=
  { s with
    loop := loop
    phase := .outside
    missed := s.missed || (s.hungUp && (loop.monitor.entryAt reader).isSome) }

/-- A call of `handle_event` begins with the test of the status, and is over when it returns. -/
def afterLoop (l : IoMultiplexer.Label) (loop : IoMultiplexer.State) : State σ :=
  match s.phase, l, loop.control with
  | .outside, .process, .handling activity _ =>
    if activity.data = reader then
      { s with
        loop := loop
        phase := if activity.status.canRead then .reading else .done
        hungUp := decide s.pipe.HungUp }
    else { s with loop := loop }
  | .done, .handlerReturns, _ => s.leave reader loop
  | _, _, _ => { s with loop := loop }

/-- The state after a round. -/
def afterRound (r : Handled σ) : Option (State σ) :=
  let s := { s with parser := r.state, pipe := { s.pipe with buffered := r.stream } }
  match r.exit with
  | .waiting => some s
  | .returned => some { s with phase := .done }
  | .stopped => (s.loop.step .stopListening).map fun loop => { s with loop := loop, phase := .done }
  | .threw _ => (s.loop.step .handlerThrows).map (s.leave reader)

def step (s : State σ) : Label → Option (State σ)
  | .write bytes =>
    if s.pipe.closed then none
    else some { s with pipe := { s.pipe with buffered := s.pipe.buffered ++ bytes } }
  | .closeWriteEnd =>
    if s.pipe.closed then none else some { s with pipe := { s.pipe with closed := true } }
  | .loop l =>
    if s.Allows key l then (s.loop.step l).map (s.afterLoop reader l) else none
  | .round call =>
    if s.phase = .reading ∧ s.pipe.Answers call then
      (readLoop P undef bufferSize who fuel [call] s.parser s.pipe.buffered).bind
        (s.afterRound reader)
    else none

/-- The reader has been registered for reading in an instance that a run has reached, and no event
has been reported since. -/
structure Init (s : State σ) : Prop where
  reach : ∃ ok ls, eventLoop.Reach ok ls s.loop
  control : s.loop.control = .idle
  listener : ∃ id e, s.loop.monitor.listeners.lookup id = some e ∧ e.ptr = reader ∧ e.fd = key.1
  descriptor : s.loop.monitor.kernel.descriptors.lookup key.1 = some key.2
  registered : s.loop.monitor.kernel.interest key = some ⟨EPOLLIN, reader⟩
  pipe : s.pipe.closed = false
  parser : s.parser = P.fresh
  phase : s.phase = .outside
  missed : s.missed = false

end State

/-- The event loop with the reader and its pipe. -/
def system : Lts (State σ) Label where
  init := State.Init P reader key
  step := State.step P undef bufferSize who fuel reader key

/-- The write end is closed only while bytes are left in the pipe or the reader is reading, or when
the reader does not listen any more. -/
def ClosesInTime (s : State σ) : Label → Prop
  | .closeWriteEnd => s.pipe.buffered ≠ [] ∨ s.phase = .reading ∨ ¬ Listening s.loop reader
  | _ => True

instance (s : State σ) (l : Label) : Decidable (ClosesInTime reader s l) := by
  cases l <;> unfold ClosesInTime <;> infer_instance

/-! ## The rounds of a call -/

variable {P undef bufferSize who fuel reader key}

theorem readLoop_of_pause {call : Io.Call} (h : call.IsPause) (state : σ) (stream : List UInt8) :
    readLoop P undef bufferSize who fuel [call] state stream =
      some ⟨[], state, stream, .returned⟩ := by
  rw [readLoop, Io.read_of_pause h]
  rfl

/-- A read that is answered with bytes leads to the next round, unless it leads to
`stop_listening`. -/
theorem readLoop_of_transfer {call : Io.Call} (h : call.IsTransfer) {state : σ}
    {stream : List UInt8} {r : Handled σ}
    (hr : readLoop P undef bufferSize who fuel [call] state stream = some r) :
    r.exit = .waiting ∨ r.exit = .stopped := by
  obtain ⟨k, err, ht⟩ := h
  have hblock : Io.IoResult.operationWouldHaveBlocked
      ⟨min ((k : ℤ) + 1) (min bufferSize stream.length)⟩ = false := by
    simp only [Io.IoResult.operationWouldHaveBlocked, beq_eq_false_iff_ne]
    omega
  rw [readLoop, Io.read_of_transfer ht] at hr
  dsimp only at hr
  rw [hblock, if_neg (by simp)] at hr
  split at hr
  · cases hr
    exact .inr rfl
  · split at hr
    · cases hr
    · cases hr
      exact .inl rfl
    · cases hr
      exact .inr rfl

/-- A call of `handle_event` with answered reads is made of its rounds: it goes on after each one
that has not ended it. -/
theorem readLoop_rounds {call : Io.Call} {calls : List Io.Call} (h : call.IsTransfer ∨ call.IsPause)
    (state : σ) (stream : List UInt8) :
    readLoop P undef bufferSize who fuel (call :: calls) state stream =
      (readLoop P undef bufferSize who fuel [call] state stream).bind fun r =>
        if r.exit = .waiting then
          (readLoop P undef bufferSize who fuel calls r.state r.stream).map (·.after r.callbacks)
        else some r := by
  rcases h with ⟨k, err, ht⟩ | hp
  · rw [readLoop, readLoop, Io.read_of_transfer ht]
    dsimp only
    split
    · rfl
    · split
      · rfl
      · cases parseBuffer P undef who fuel _ state with
        | none => rfl
        | some parsed =>
          obtain ⟨callbacks, state', now⟩ := parsed
          cases now with
          | good => simp [readLoop, Handled.after]
          | jammed => rfl
  · rw [readLoop_of_pause hp, readLoop, Io.read_of_pause hp]
    rfl

/-! ## What a step does -/

variable (P undef bufferSize who fuel reader key) in
/-- What a step does, by cases. -/
inductive State.Step : State σ → Label → State σ → Prop
  | write {s : State σ} {bytes : List UInt8} (hopen : s.pipe.closed = false) :
      Step s (.write bytes) { s with pipe := { s.pipe with buffered := s.pipe.buffered ++ bytes } }
  | closeWriteEnd {s : State σ} (hopen : s.pipe.closed = false) :
      Step s .closeWriteEnd { s with pipe := { s.pipe with closed := true } }
  | loop {s : State σ} {l : IoMultiplexer.Label} {loop : IoMultiplexer.State}
      (hallows : s.Allows key l) (hstep : s.loop.Step l loop) :
      Step s (.loop l) (s.afterLoop reader l loop)
  | pauses {s : State σ} {call : Io.Call} (hphase : s.phase = .reading)
      (hopen : s.pipe.closed = false) : Step s (.round call) { s with phase := .done }
  | reads {s : State σ} {call : Io.Call} (hphase : s.phase = .reading) (parser : σ)
      (buffered : List UInt8) :
      Step s (.round call) { s with parser := parser, pipe := { s.pipe with buffered := buffered } }
  | stops {s : State σ} {call : Io.Call} {loop : IoMultiplexer.State} (hphase : s.phase = .reading)
      (hstep : s.loop.Step .stopListening loop) (parser : σ) (buffered : List UInt8) :
      Step s (.round call) { s with
        loop := loop
        parser := parser
        pipe := { s.pipe with buffered := buffered }
        phase := .done }

theorem State.step_cases {s s' : State σ} {l : Label}
    (h : s.step P undef bufferSize who fuel reader key l = some s') :
    State.Step reader key s l s' := by
  cases l with
  | write bytes =>
    simp only [step, Option.ite_none_left_eq_some, Option.some.injEq] at h
    obtain ⟨hopen, rfl⟩ := h
    exact .write (by simpa using hopen)
  | closeWriteEnd =>
    simp only [step, Option.ite_none_left_eq_some, Option.some.injEq] at h
    obtain ⟨hopen, rfl⟩ := h
    exact .closeWriteEnd (by simpa using hopen)
  | loop l =>
    simp only [step, Option.ite_none_right_eq_some, Option.map_eq_some_iff] at h
    obtain ⟨hallows, loop, hstep, rfl⟩ := h
    exact .loop hallows (IoMultiplexer.State.step_cases hstep)
  | round call =>
    simp only [step, Option.ite_none_right_eq_some, Option.bind_eq_some_iff] at h
    obtain ⟨⟨hphase, hanswer⟩, r, hr, hafter⟩ := h
    unfold Pipe.Answers at hanswer
    split at hanswer
    · next hpipe =>
      rw [readLoop_of_pause hanswer] at hr
      cases hr
      cases hafter
      exact .pauses hphase hpipe.2
    · rcases readLoop_of_transfer hanswer hr with hexit | hexit
      · simp only [afterRound, hexit, Option.some.injEq] at hafter
        subst hafter
        exact .reads hphase r.state r.stream
      · simp only [afterRound, hexit, Option.map_eq_some_iff] at hafter
        obtain ⟨loop, hstep, rfl⟩ := hafter
        exact .stops hphase (IoMultiplexer.State.step_cases hstep) r.state r.stream

/-! ## The invariant -/

section Loop

variable {s s' : IoMultiplexer.State} {l : IoMultiplexer.Label}

theorem entryAt_of_step (hwf : s.monitor.Wf) (hreader : reader < s.monitor.nextPtr)
    (hs : IoMultiplexer.State.Step s l s') (h : (s'.monitor.entryAt reader).isSome) :
    (s.monitor.entryAt reader).isSome := by
  obtain ⟨id, e, hl, rfl⟩ := EpollInstance.entryAt_isSome.1 h
  rcases hs.lookup_or_new hwf hl with hl | hnew
  · exact EpollInstance.entryAt_isSome.2 ⟨id, e, hl, rfl⟩
  · exact absurd hnew hreader.ne

theorem activityOf_of_step (hs : IoMultiplexer.State.Step s l s') (hl : l ≠ .process)
    {activity : EpollFdActivity} (h : activity ∈ activityOf s'.control) :
    ∃ activity' ∈ activityOf s.control, activity'.data = activity.data := by
  cases hs with
  | @call c m records _ hcall =>
    cases hc : s.control with
    | handling activity' pending =>
      simp only [hc, Control.afterCall] at h
      split at h
      · exact ⟨activity, h, rfl⟩
      · cases h
    | _ =>
      rw [hc] at h
      cases h
  | kernel _ _ _ => exact ⟨activity, h, rfl⟩
  | waitFails => exact ⟨activity, h, rfl⟩
  | process _ => exact absurd rfl hl
  | update _ => exact ⟨activity, h, rfl⟩
  | stopListening =>
    cases h
    exact ⟨_, rfl, rfl⟩
  | _ => cases h

theorem listening_iff_of_kernel (hs : IoMultiplexer.State.Step s l s') (hl : IsKernel l) :
    s'.control = s.control ∧ (Listening s' reader ↔ Listening s reader) := by
  cases hs with
  | kernel _ _ _ => exact ⟨rfl, Iff.rfl⟩
  | _ => exact hl.elim

theorem activityOf_of_handlerReturns (hs : IoMultiplexer.State.Step s .handlerReturns s') :
    activityOf s'.control = none := by
  cases hs <;> rfl

theorem entryAt_of_handlerReturns (hwf : s.monitor.Wf)
    (hs : IoMultiplexer.State.Step s .handlerReturns s')
    (hrun : ∃ activity ∈ activityOf s.control, activity.data = reader)
    (h : (s'.monitor.entryAt reader).isSome) : Listening s reader := by
  obtain ⟨activity, hactivity, hdata⟩ := hrun
  cases hs with
  | returns hflag =>
    refine ⟨h, fun activity' hactivity' _ => ?_⟩
    cases hactivity'
    exact hflag
  | @returnsStopped m _ activity' _ entry hflag hentry =>
    -- the entry has been erased
    cases hactivity
    obtain ⟨id, hl, hp⟩ := EpollInstance.lookup_of_entryAt hentry
    obtain ⟨id', e', hl', hp'⟩ := EpollInstance.entryAt_isSome.1 h
    obtain ⟨hid, hl'⟩ := (hwf.drops_erase _).lookup_eq hl'
    have heq : id' = id := hwf.ptr id' e' id entry hl' hl (by rw [hp', hp, hdata])
    exact absurd (List.mem_singleton.2 (heq.trans (hwf.key id entry hl).symm)) hid
  | returnsErased hflag hentry =>
    cases hactivity
    rw [hdata] at hentry
    rw [hentry] at h
    cases h

end Loop

variable (reader) in
/-- What every run that meets the condition keeps. -/
structure State.Inv (s : State σ) : Prop where
  wf : s.loop.monitor.Wf
  made : reader < s.loop.monitor.nextPtr
  /-- The phase tells whether `handle_event` of the reader is running. -/
  running : s.phase ≠ .outside ↔ ∃ activity ∈ activityOf s.loop.control, activity.data = reader
  /-- When the pipe is hung up, a reader that listens is about to read. -/
  reads : s.pipe.HungUp → s.phase = .reading ∨ ¬ Listening s.loop reader
  hungUp : s.phase ≠ .outside → s.hungUp = false
  missed : s.missed = false

section Inv

variable {s s' : State σ} {l : IoMultiplexer.Label} {loop : IoMultiplexer.State}

/-- In a loop in which the handler of the reader does not run, the reader listens as long as it is
there. -/
theorem State.Inv.listening_of_outside (h : s.Inv reader) (hphase : s.phase = .outside)
    (hentry : (s.loop.monitor.entryAt reader).isSome) : Listening s.loop reader :=
  ⟨hentry, fun activity ha hdata => absurd hphase (h.running.2 ⟨activity, ha, hdata⟩)⟩

theorem State.Inv.other (h : s.Inv reader) (hstep : s.loop.Step l loop)
    (hrun : s.phase ≠ .outside ↔ ∃ activity ∈ activityOf loop.control, activity.data = reader)
    (hlisten : s.phase ≠ .reading → Listening loop reader → Listening s.loop reader) :
    ({ s with loop := loop } : State σ).Inv reader := by
  refine ⟨hstep.wf h.wf, h.made.trans_le (hstep.nextPtr_le h.wf), hrun, fun hup => ?_, h.hungUp,
    h.missed⟩
  rcases h.reads hup with hreading | hnot
  · exact .inl hreading
  · by_cases hreading : s.phase = .reading
    · exact .inl hreading
    · exact .inr fun hl => hnot (hlisten hreading hl)

theorem State.Inv.kernel (h : s.Inv reader) (hstep : s.loop.Step l loop) (hl : IsKernel l) :
    ({ s with loop := loop } : State σ).Inv reader := by
  obtain ⟨hcontrol, hiff⟩ := @listening_iff_of_kernel reader _ _ _ hstep hl
  exact h.other hstep (by rw [hcontrol]; exact h.running) fun _ => hiff.1

theorem State.Inv.outside (h : s.Inv reader) (hphase : s.phase = .outside)
    (hstep : s.loop.Step l loop)
    (hrun : ∀ activity ∈ activityOf loop.control, activity.data ≠ reader) :
    ({ s with loop := loop } : State σ).Inv reader := by
  refine h.other hstep ?_ fun _ hl => ?_
  · simp only [hphase, ne_eq, not_true_eq_false, false_iff]
    rintro ⟨activity, ha, hdata⟩
    exact hrun activity ha hdata
  · exact h.listening_of_outside hphase (entryAt_of_step h.wf h.made hstep hl.1)

theorem State.Inv.process (h : s.Inv reader) (hphase : s.phase = .outside)
    (hstep : s.loop.Step .process loop)
    (hrun : ∃ activity ∈ activityOf loop.control, activity.data = reader) :
    (s.afterLoop reader .process loop).Inv reader := by
  obtain ⟨sloop, pipe, parser, phase, hungUp, missed⟩ := s
  obtain rfl : phase = .outside := hphase
  obtain ⟨activity, hactivity, hdata⟩ := hrun
  cases hstep with
  | processErased _ => cases hactivity
  | @process m _ item pending entry hentry =>
    cases hactivity
    have hdata : item.data = reader := hdata
    -- the reader listens, so the pipe is not hung up
    have hup : ¬ pipe.HungUp := by
      intro hup
      rcases h.reads hup with hreading | hnot
      · cases hreading
      · apply hnot
        apply h.listening_of_outside rfl
        rw [← hdata]
        exact Option.isSome_of_eq_some hentry
    simp only [afterLoop, hdata, if_true]
    refine ⟨h.wf, h.made, ?_, fun hup' => absurd hup' hup, fun _ => decide_eq_false hup, h.missed⟩
    constructor
    · exact fun _ => ⟨_, rfl, rfl⟩
    · intro _
      dsimp only
      split <;> simp

theorem State.Inv.leave (h : s.Inv reader) (hphase : s.phase = .done)
    (hstep : s.loop.Step .handlerReturns loop) : (s.leave reader loop).Inv reader := by
  have hrun := h.running.1 (by rw [hphase]; simp)
  have hidle := activityOf_of_handlerReturns hstep
  refine ⟨hstep.wf h.wf, h.made.trans_le (hstep.nextPtr_le h.wf), ?_, fun hup => .inr fun hl => ?_,
    fun hne => absurd rfl hne, ?_⟩
  · show Phase.outside ≠ .outside ↔ ∃ activity ∈ activityOf loop.control, _
    simp [hidle]
  · rcases h.reads hup with hreading | hnot
    · rw [hphase] at hreading
      cases hreading
    · exact hnot (entryAt_of_handlerReturns h.wf hstep hrun hl.1)
  · show (s.missed || (s.hungUp && _)) = false
    rw [h.missed, h.hungUp (by rw [hphase]; simp)]
    rfl

theorem State.afterLoop_of_outside (hphase : s.phase = .outside)
    (hrun : ¬ ∃ activity ∈ activityOf loop.control, activity.data = reader) :
    s.afterLoop reader l loop = { s with loop := loop } := by
  obtain ⟨sloop, pipe, parser, phase, hungUp, missed⟩ := s
  obtain rfl : phase = .outside := hphase
  obtain ⟨m, control, log⟩ := loop
  cases control with
  | handling activity pending =>
    cases l with
    | process => exact if_neg fun hdata => hrun ⟨activity, rfl, hdata⟩
    | _ => rfl
  | _ => cases l <;> rfl

theorem State.Inv.loopStep (h : s.Inv reader) (hallows : s.Allows key l)
    (hstep : s.loop.Step l loop) : (s.afterLoop reader l loop).Inv reader := by
  unfold Allows at hallows
  cases hphase : s.phase with
  | outside =>
    by_cases hrun : ∃ activity ∈ activityOf loop.control, activity.data = reader
    · by_cases hl : l = .process
      · subst hl
        exact h.process hphase hstep hrun
      · obtain ⟨activity, ha, hdata⟩ := hrun
        obtain ⟨activity', ha', hdata'⟩ := activityOf_of_step hstep hl ha
        exact absurd hphase (h.running.2 ⟨activity', ha', hdata'.trans hdata⟩)
    · rw [afterLoop_of_outside hphase hrun]
      exact h.outside hphase hstep fun activity ha hdata => hrun ⟨activity, ha, hdata⟩
  | reading =>
    simp only [hphase] at hallows
    have heq : s.afterLoop reader l loop = { s with loop := loop } := by simp [afterLoop, hphase]
    rw [heq]
    exact h.kernel hstep hallows
  | done =>
    simp only [hphase] at hallows
    rcases hallows with hkernel | rfl
    · have heq : s.afterLoop reader l loop = { s with loop := loop } := by
        cases l with
        | kernel e => simp [afterLoop, hphase]
        | _ => exact hkernel.elim
      rw [heq]
      exact h.kernel hstep hkernel
    · have heq : s.afterLoop reader .handlerReturns loop = s.leave reader loop := by
        simp [afterLoop, hphase]
      rw [heq]
      exact h.leave hphase hstep

theorem State.Inv.stops (h : s.Inv reader) (hphase : s.phase = .reading)
    (hstep : s.loop.Step .stopListening loop) (parser : σ) (pipe : Pipe) :
    ({ s with loop := loop, parser := parser, pipe := pipe, phase := .done } : State σ).Inv
      reader := by
  obtain ⟨sloop, pipe', parser', phase, hungUp, missed⟩ := s
  obtain rfl : phase = .reading := hphase
  have hrun : Phase.reading ≠ .outside := by simp
  obtain ⟨activity, ha, hdata⟩ := h.running.1 hrun
  cases hstep with
  | @stopListening m _ activity' _ =>
    cases ha
    refine ⟨h.wf, h.made, ?_, fun _ => .inr fun hl => ?_, fun _ => h.hungUp hrun, h.missed⟩
    · exact ⟨fun _ => ⟨_, rfl, hdata⟩, fun _ => by simp⟩
    · cases hl.2 _ rfl hdata

theorem State.Inv.step (h : s.Inv reader) {l : Label} (hok : ClosesInTime reader s l)
    (hs : State.Step reader key s l s') : s'.Inv reader := by
  cases hs with
  | write hopen =>
    refine ⟨h.wf, h.made, h.running, fun hup => ?_, h.hungUp, h.missed⟩
    rw [Pipe.HungUp, hopen] at hup
    cases hup.1
  | closeWriteEnd hopen =>
    exact ⟨h.wf, h.made, h.running, fun hup => hok.resolve_left (not_not.2 hup.2), h.hungUp,
      h.missed⟩
  | loop hallows hstep => exact h.loopStep hallows hstep
  | pauses hphase hopen =>
    have hrun : s.phase ≠ .outside := by rw [hphase]; simp
    refine ⟨h.wf, h.made, ?_, fun hup => ?_, fun _ => h.hungUp hrun, h.missed⟩
    · exact ⟨fun _ => h.running.1 hrun, fun _ => by simp⟩
    · rw [Pipe.HungUp, hopen] at hup
      cases hup.1
  | reads hphase parser buffered =>
    exact ⟨h.wf, h.made, h.running, fun _ => .inl hphase, h.hungUp, h.missed⟩
  | stops hphase hstep parser buffered => exact h.stops hphase hstep parser _

theorem State.Init.inv (h : s.Init P reader key) : s.Inv reader := by
  obtain ⟨ok, ls, hreach⟩ := h.reach
  have hwf := reach_wf hreach
  obtain ⟨id, e, hl, rfl, -⟩ := h.listener
  refine ⟨hwf, hwf.ptrLt id e hl, ?_, fun hup => ?_, fun hne => absurd h.phase hne, h.missed⟩
  · rw [h.phase, h.control]
    simp [activityOf]
  · rw [Pipe.HungUp, h.pipe] at hup
    cases hup.1

end Inv

theorem round_isSome {G : Grammar UInt8 Container SyntaxError} {s : State σ}
    (hrun : ∃ activity ∈ activityOf s.loop.control, activity.data = reader)
    (hP : P.Implements G) (hB : 0 < bufferSize) (hfuel : bufferSize < fuel)
    (hphase : s.phase = .reading) {l : List UInt8} (hfed : P.Fed l s.parser) {call : Io.Call}
    (hanswer : s.pipe.Answers call) :
    ((system P undef bufferSize who fuel reader key).step s (.round call)).isSome := by
  obtain ⟨r, hr, -⟩ :=
    @readLoop_spec _ P G undef who _ _ hP hB hfuel [call] _ s.pipe.buffered _ hfed
  obtain ⟨activity, ha, -⟩ := hrun
  have hstop : ∃ loop, s.loop.step .stopListening = some loop := by
    unfold activityOf at ha
    split at ha
    · next hcontrol =>
      simp only [IoMultiplexer.State.step, hcontrol]
      exact ⟨_, rfl⟩
    · cases ha
  obtain ⟨loop, hstop⟩ := hstop
  have hexit : r.exit = .returned ∨ r.exit = .waiting ∨ r.exit = .stopped := by
    unfold Pipe.Answers at hanswer
    split at hanswer
    · rw [readLoop_of_pause hanswer] at hr
      cases hr
      exact .inl rfl
    · exact .inr (readLoop_of_transfer hanswer hr)
  show (State.step P undef bufferSize who fuel reader key s (.round call)).isSome
  rw [State.step, if_pos ⟨hphase, hanswer⟩, hr, Option.bind_some]
  rcases hexit with hexit | hexit | hexit
  · simp [State.afterRound, hexit]
  · simp [State.afterRound, hexit]
  · simp [State.afterRound, hexit, hstop]

/-! ## A hang-up that comes too late -/

variable (reader key) in
/-- The pipe is hung up while the event loop is idle and the reader is registered. -/
structure State.Stuck (s : State σ) : Prop where
  phase : s.phase = .outside
  idle : s.loop.control = .idle
  listener : (s.loop.monitor.entryAt reader).isSome
  registered : ∃ events, s.loop.monitor.kernel.interest key = some ⟨events, reader⟩
  hungUp : s.pipe.HungUp

variable (key) in
/-- The hang-up is reported, and `wait_for_and_distpatch_events` returns. -/
def hangUpReported : List Label :=
  [.loop (.waitReturns [(key, EPOLLHUP)]), .loop .process, .loop .handlerReturns, .loop .leave]

theorem Pipe.HungUp.reports {pipe : Pipe} (h : pipe.HungUp) : pipe.Reports EPOLLHUP := by
  refine ⟨⟨fun hin => ?_, fun hne => absurd h.2 hne⟩, ⟨fun _ => h.1, fun _ => ?_⟩, .inr h.1⟩
  · exact absurd (by decide) hin
  · decide

/-- The event word of the hang-up has no bit that `epoll_event_to_activity_status` knows, so that
the reader does not read: it goes on listening, and nothing has changed. -/
theorem hangUp_missed {s : State σ} (h : s.Stuck reader key) : ∃ s',
    (system P undef bufferSize who fuel reader key).run (fun _ _ => True) s (hangUpReported key) =
      some s' ∧ s'.missed = true ∧ s'.Stuck reader key := by
  obtain ⟨⟨m, control, log⟩, pipe, parser, phase, hungUp, missed⟩ := s
  obtain ⟨rfl, rfl, hentry, ⟨events, hreg⟩, hup⟩ := h
  change m.kernel.interest key = some ⟨events, reader⟩ at hreg
  change pipe.HungUp at hup
  obtain ⟨entry, hentry'⟩ : ∃ entry, m.entryAt reader = some entry :=
    Option.isSome_iff_exists.1 hentry
  have hready : m.BatchReady [(key, EPOLLHUP)] := by
    refine ⟨by simp, by simp, fun r hr => ?_⟩
    rw [List.mem_singleton.1 hr]
    exact Option.isSome_of_eq_some hreg
  -- the event word of the hang-up has no bit that the reader knows
  have hstatus : epollEventToActivityStatus EPOLLHUP = .none := by decide
  have hread : ActivityStatus.canRead .none = false := by decide
  let reported := log ++ [Record.handled entry .none]
  have hwait : State.step P undef bufferSize who fuel reader key
      ⟨⟨m, .idle, log⟩, pipe, parser, .outside, hungUp, missed⟩
      (.loop (.waitReturns [(key, EPOLLHUP)])) =
        some ⟨⟨m, .dispatching [⟨EPOLLHUP, reader⟩], log⟩, pipe, parser, .outside, hungUp,
          missed⟩ := by
    simp [State.step, State.Allows, hup.reports, IoMultiplexer.State.step, hready,
      EpollInstance.eventsOf, hreg, State.afterLoop]
  have hprocess : State.step P undef bufferSize who fuel reader key
      ⟨⟨m, .dispatching [⟨EPOLLHUP, reader⟩], log⟩, pipe, parser, .outside, hungUp, missed⟩
      (.loop .process) =
        some ⟨⟨m, .handling ⟨reader, .none, false⟩ [], reported⟩, pipe, parser, .done, true,
          missed⟩ := by
    simp [State.step, State.Allows, IoMultiplexer.State.step, hentry', hstatus, State.afterLoop,
      hread, hup, reported]
  have hreturns : State.step P undef bufferSize who fuel reader key
      ⟨⟨m, .handling ⟨reader, .none, false⟩ [], reported⟩, pipe, parser, .done, true, missed⟩
      (.loop .handlerReturns) =
        some ⟨⟨m, .dispatching [], reported⟩, pipe, parser, .outside, true, true⟩ := by
    simp [State.step, State.Allows, IoMultiplexer.State.step, State.afterLoop, State.leave,
      hentry']
  have hleave : State.step P undef bufferSize who fuel reader key
      ⟨⟨m, .dispatching [], reported⟩, pipe, parser, .outside, true, true⟩ (.loop .leave) =
        some ⟨⟨m, .idle, reported⟩, pipe, parser, .outside, true, true⟩ := by
    simp [State.step, State.Allows, IoMultiplexer.State.step, State.afterLoop]
  refine ⟨⟨⟨m, .idle, reported⟩, pipe, parser, .outside, true, true⟩, ?_, rfl,
    ⟨rfl, rfl, hentry, ⟨events, hreg⟩, hup⟩⟩
  simp only [Lts.run, hangUpReported, system, if_true, Option.bind_some, hwait, hprocess, hreturns,
    hleave]

/-- **The event loop spins** once a hang-up has come too late. -/
theorem hangUp_spins {ls : List Label} {s : State σ}
    (h : (system P undef bufferSize who fuel reader key).Reach (fun _ _ => True) ls s)
    (hstuck : s.Stuck reader key) (n : ℕ) : ∃ s',
      (system P undef bufferSize who fuel reader key).Reach (fun _ _ => True)
        (ls ++ (List.replicate n (hangUpReported key)).flatten) s' ∧ s'.Stuck reader key := by
  induction n generalizing ls s with
  | zero => exact ⟨s, by simpa using h, hstuck⟩
  | succ n ih =>
    obtain ⟨t, hrun, -, ht⟩ := @hangUp_missed _ P undef bufferSize who fuel _ _ _ hstuck
    obtain ⟨s', hs', hstuck'⟩ := ih (h.append_run hrun) ht
    exact ⟨s', by simpa [List.replicate_succ] using hs', hstuck'⟩

end

/-! ## Closing in time -/

/-- An event loop with the reader as its only listener, for descriptor 3. -/
def registered : IoMultiplexer.State :=
  (eventLoop.run (fun _ _ => True) State.fresh
    [.kernel (.openDescriptor 3 none), .call (.add 3 .generic .read none)]).get (by decide)

theorem registered_reach : eventLoop.Reach (fun _ _ => True)
    [.kernel (.openDescriptor 3 none), .call (.add 3 .generic .read none)] registered := by
  apply Lts.Reach.of_run State.fresh_init
  rw [registered, Option.some_get]

def start : State (Flat × Container) :=
  ⟨registered, ⟨[], false⟩, Flat.automaton.parser.fresh, .outside, false, false⟩

theorem start_init : start.Init Flat.automaton.parser 0 (3, 0) where
  reach := ⟨_, _, registered_reach⟩
  control := rfl
  listener := ⟨⟨0⟩, ⟨0, 3, .generic, ⟨0⟩⟩, by decide, rfl, rfl⟩
  descriptor := by decide
  registered := by decide
  pipe := rfl
  parser := rfl
  phase := rfl
  missed := rfl

/-- **A hung-up pipe is noticed** in every run in which the write end is closed only while bytes are
left, while the reader is reading, or when it does not listen any more: no event is ever processed
with the pipe hung up after which the reader goes on listening, and as soon as the pipe is hung up
and no call of its `handle_event` is under way the reader is gone. -/
theorem hangUp_noticed {σ : Type} {P : Parser σ UInt8 Container SyntaxError}
    {undef : Binary64 → Int64} {bufferSize : ℕ} {who : String} {fuel : ℕ} {reader : Ptr}
    {key : NativeHandle × Ofd} {ls : List Label} {s : State σ}
    (h : (system P undef bufferSize who fuel reader key).Reach (ClosesInTime reader) ls s) :
    s.missed = false ∧
      (s.pipe.HungUp → s.phase = .outside → s.loop.monitor.entryAt reader = none) := by
  have hinv : s.Inv reader := by
    refine h.invariant (I := fun _ s => s.Inv reader) (fun s h0 => State.Init.inv h0) ?_
    rintro ls s l s' - hinv hok hstep
    exact hinv.step hok (State.step_cases hstep)
  refine ⟨hinv.missed, fun hup hphase => ?_⟩
  rw [← Option.not_isSome_iff_eq_none]
  intro hentry
  rcases hinv.reads hup with hreading | hnot
  · rw [hphase] at hreading
    cases hreading
  · exact hnot (hinv.listening_of_outside hphase hentry)

/-- The pipe is closed when it holds an array: the reader gets the array, then the end, and is
gone. -/
theorem hangUp_noticed_full : ∃ s : State (Flat × Container),
    (system Flat.automaton.parser (fun _ => 0) 7 "client" 8 0 (3, 0)).Reach (ClosesInTime 0)
      [.write (Flat.bytes "[]"), .closeWriteEnd,
        .loop (.waitReturns [((3, 0), EPOLLIN ||| EPOLLHUP)]), .loop .process,
        .round ⟨0, .transfers 9 0⟩, .round ⟨1, .transfers 0 0⟩, .loop .handlerReturns] s ∧
      s.missed = false ∧ s.loop.monitor.entryAt 0 = none := by
  have hrun : ((system Flat.automaton.parser (fun _ => 0) 7 "client" 8 0 (3, 0)).run
      (ClosesInTime 0) start
      [.write (Flat.bytes "[]"), .closeWriteEnd,
        .loop (.waitReturns [((3, 0), EPOLLIN ||| EPOLLHUP)]), .loop .process,
        .round ⟨0, .transfers 9 0⟩, .round ⟨1, .transfers 0 0⟩, .loop .handlerReturns]).map
          (fun s => (decide s.pipe.HungUp, s.phase)) = some (true, .outside) := by decide
  obtain ⟨s, h, heq⟩ := Lts.Reach.exists_of_map_run start_init hrun
  obtain ⟨hup, hphase⟩ := Prod.mk.inj heq
  obtain ⟨hmissed, hgone⟩ := hangUp_noticed h
  exact ⟨s, h, hmissed, hgone (of_decide_eq_true hup) hphase⟩

/-- The pipe is closed after the reader has drained it: the hang-up is reported, the reader returns
at once and goes on listening. -/
theorem hangUp_missed_drained : ∃ s : State (Flat × Container),
    (system Flat.automaton.parser (fun _ => 0) 7 "client" 8 0 (3, 0)).Reach (fun _ _ => True)
      ([.write (Flat.bytes "[]"), .loop (.waitReturns [((3, 0), EPOLLIN)]), .loop .process,
        .round ⟨0, .transfers 9 0⟩, .round ⟨0, .fails EAGAIN⟩, .loop .handlerReturns,
        .loop .leave, .closeWriteEnd] ++ hangUpReported (3, 0)) s ∧
      s.missed = true ∧ (s.loop.monitor.entryAt 0).isSome := by
  have hrun : ((system Flat.automaton.parser (fun _ => 0) 7 "client" 8 0 (3, 0)).run
      (fun _ _ => True) start
      ([.write (Flat.bytes "[]"), .loop (.waitReturns [((3, 0), EPOLLIN)]), .loop .process,
        .round ⟨0, .transfers 9 0⟩, .round ⟨0, .fails EAGAIN⟩, .loop .handlerReturns,
        .loop .leave, .closeWriteEnd] ++ hangUpReported (3, 0))).map
          (fun s => (s.missed, (s.loop.monitor.entryAt 0).isSome)) = some (true, true) := by decide
  obtain ⟨s, h, heq⟩ := Lts.Reach.exists_of_map_run start_init hrun
  obtain ⟨hmissed, hentry⟩ := Prod.mk.inj heq
  exact ⟨s, h, hmissed, hentry⟩

end ThePipe.JsonLog.LogPipe
