import ThePipe.JsonLog.LogPipe

/-!
# What arrives through the event loop

A log reader in the event loop is called when an event of its pipe is processed, with other
listeners in between; the pipe is written to at any moment, also while the reader reads; and a value
may be cut into any number of writes, reads and events.

All the same the reader makes the calls of the reference on what has been written: in every state
of every run they are those of the values that it has read completely, and when it has called
`stop_listening` they are exactly the reference's, and it does not listen any more
(`delivered_in_loop`).
-/

set_option autoImplicit false

namespace ThePipe.JsonLog.LogPipe

open Lib Jopp OsServices ErrorHandling Fd IoMultiplexer

section

variable {σ : Type} {P : Parser σ UInt8 Container SyntaxError}
  {G : Grammar UInt8 Container SyntaxError} {undef : Binary64 → Int64} {bufferSize : ℕ}
  {who : String} {fuel : ℕ} {reader : Ptr} {key : NativeHandle × Ofd}

/-! ## One read -/

variable (undef who) in
/-- What one answered read leads to, on a parser that has been fed `l`: either the next read, with
the calls for the values that have been completed; or `stop_listening`, at the end of the stream or
at a syntax error. -/
theorem readLoop_of_isTransfer (hP : P.Implements G) (hB : 0 < bufferSize)
    (hfuel : bufferSize < fuel) {call : Io.Call} (hc : call.IsTransfer) {l : List UInt8}
    (stream : List UInt8) {state : σ} (hs : P.Fed l state) :
    ∃ r, readLoop P undef bufferSize who fuel [call] state stream = some r ∧
      (r.exit = .waiting ∧ r.stream.length < stream.length ∧
          (∃ l', P.Fed l' r.state ∧ l' ++ r.stream <:+ l ++ stream ∧
            ∀ rest, reference undef G who (l ++ stream ++ rest) =
              r.callbacks ++ reference undef G who (l' ++ r.stream ++ rest)) ∨
        r.exit = .stopped ∧ (stream = [] ∧ r.callbacks = reference undef G who l ∨
          ∀ rest, r.callbacks = reference undef G who (l ++ stream ++ rest))) := by
  obtain ⟨io, hread, hblock, hle, hlength, hend⟩ := Io.read_of_isTransfer hc hB stream
  rw [readLoop, hread]
  dsimp only
  rw [hblock, if_neg (by simp)]
  by_cases hzero : io.bytesTransferred = 0
  · -- the end of the stream
    rw [if_pos hzero]
    refine ⟨_, rfl, .inr ⟨rfl, .inl ⟨hend hzero, ?_⟩⟩⟩
    exact (reference_of_fed hP hs).symm
  · rw [if_neg hzero]
    have hsplit : l ++ stream =
        l ++ stream.take io.bytesTransferred ++ stream.drop io.bytesTransferred := by
      rw [List.append_assoc, List.take_append_drop]
    have hshort : (stream.take io.bytesTransferred).length < fuel := by
      rw [List.length_take]
      omega
    obtain ⟨callbacks, state', now, hrun, hnow⟩ :=
      parseBuffer_spec undef who hP (stream.take io.bytesTransferred) hs hshort
    rw [hrun]
    cases now with
    | good =>
      obtain ⟨l', hfed, hsuffix, href⟩ := hnow
      refine ⟨_, rfl, .inl ⟨rfl, ?_, l', hfed, ?_, ?_⟩⟩
      · show (stream.drop io.bytesTransferred).length < stream.length
        rw [List.length_drop]
        omega
      · rw [hsplit]
        exact List.suffix_append_self_iff.2 hsuffix
      · intro rest
        rw [hsplit, List.append_assoc _ (stream.drop _), href, ← List.append_assoc l']
        simp [Handled.after]
    | jammed =>
      refine ⟨_, rfl, .inr ⟨rfl, .inr ?_⟩⟩
      intro rest
      rw [hsplit, List.append_assoc _ (stream.drop _), hnow]

/-! ## The traffic -/

/-- What has been written to the pipe, and the calls that the reader has made. -/
structure Traffic where
  written : List UInt8
  callbacks : List Callback
  /-- The reader has called `stop_listening`. -/
  stopped : Bool

/-- The reader has made some more calls, in a round that has ended in this way. -/
def Traffic.after (t : Traffic) (callbacks : List Callback) (exit : Exit) : Traffic :=
  { t with
    callbacks := t.callbacks ++ callbacks
    stopped := t.stopped || decide (exit = .stopped) }

variable (P undef bufferSize who fuel) in
def Traffic.record (t : Traffic) (s : State σ) : Label → Traffic
  | .write bytes => { t with written := t.written ++ bytes }
  | .round call =>
    match readLoop P undef bufferSize who fuel [call] s.parser s.pipe.buffered with
    | none => t
    | some r => t.after r.callbacks r.exit
  | .closeWriteEnd | .loop _ => t

variable (P undef bufferSize who fuel reader key) in
/-- The event loop with the reader, its pipe, which is empty at first, and the traffic. -/
def traced : Lts (State σ × Traffic) Label where
  init p := p.1.Init P reader key ∧ p.1.pipe.buffered = [] ∧ p.2 = ⟨[], [], false⟩
  step p l := (State.step P undef bufferSize who fuel reader key p.1 l).map fun s =>
    (s, p.2.record P undef bufferSize who fuel p.1 l)

/-! ## When the reader is called -/

section Loop

variable {s s' : State σ} {l : IoMultiplexer.Label} {loop : IoMultiplexer.State}

theorem State.afterLoop_eq : (s.afterLoop reader l loop).loop = loop ∧
    (s.afterLoop reader l loop).pipe = s.pipe ∧ (s.afterLoop reader l loop).parser = s.parser := by
  unfold afterLoop
  split
  · split <;> exact ⟨rfl, rfl, rfl⟩
  · exact ⟨rfl, rfl, rfl⟩
  · exact ⟨rfl, rfl, rfl⟩

variable (reader) in
/-- The phase tells whether `handle_event` of the reader is running. -/
structure State.Served (s : State σ) : Prop where
  wf : s.loop.monitor.Wf
  made : reader < s.loop.monitor.nextPtr
  running : s.phase ≠ .outside ↔ ∃ activity ∈ activityOf s.loop.control, activity.data = reader

theorem State.Served.listening_of_outside (h : s.Served reader) (hphase : s.phase = .outside)
    (hentry : (s.loop.monitor.entryAt reader).isSome) : Listening s.loop reader :=
  ⟨hentry, fun activity ha hdata => absurd hphase (h.running.2 ⟨activity, ha, hdata⟩)⟩

/-- What a step of the loop does to the phase: it begins and ends the calls of `handle_event`. -/
theorem State.Served.loop_cases (h : s.Served reader) (hallows : s.Allows key l)
    (hstep : s.loop.Step l loop) :
    (s.phase = .outside ∧ (s.afterLoop reader l loop).phase = .outside ∧
        ¬ ∃ activity ∈ activityOf loop.control, activity.data = reader) ∨
      (s.phase = .outside ∧ (s.afterLoop reader l loop).phase ≠ .outside ∧
        (s.loop.monitor.entryAt reader).isSome ∧
          ∃ activity ∈ activityOf loop.control, activity.data = reader) ∨
      (s.phase ≠ .outside ∧ (s.afterLoop reader l loop).phase = s.phase ∧ IsKernel l) ∨
      (s.phase = .done ∧ (s.afterLoop reader l loop).phase = .outside ∧ l = .handlerReturns) := by
  unfold Allows at hallows
  cases hphase : s.phase with
  | outside =>
    by_cases hrun : ∃ activity ∈ activityOf loop.control, activity.data = reader
    · -- a handler begins to run when its event is processed, and only then
      have hl : l = .process := by
        by_contra hl
        obtain ⟨activity, ha, hdata⟩ := hrun
        obtain ⟨activity', ha', hdata'⟩ := activityOf_of_step hstep hl ha
        exact absurd hphase (h.running.2 ⟨activity', ha', hdata'.trans hdata⟩)
      subst hl
      obtain ⟨sloop, pipe, parser, phase, hungUp, missed⟩ := s
      obtain rfl : phase = .outside := hphase
      obtain ⟨activity, hactivity, hdata⟩ := hrun
      cases hstep with
      | processErased _ => cases hactivity
      | @process m _ item pending entry hentry =>
        cases hactivity
        have hdata' : item.data = reader := hdata
        refine .inr (.inl ⟨rfl, ?_, ?_, _, rfl, hdata⟩)
        · simp only [afterLoop, hdata', if_true]
          split <;> simp
        · rw [← hdata']
          exact Option.isSome_of_eq_some hentry
    · rw [afterLoop_of_outside hphase hrun]
      exact .inl ⟨rfl, hphase, hrun⟩
  | reading =>
    simp only [hphase] at hallows
    exact .inr (.inr (.inl ⟨by simp, by simp [afterLoop, hphase], hallows⟩))
  | done =>
    simp only [hphase] at hallows
    rcases hallows with hkernel | rfl
    · refine .inr (.inr (.inl ⟨by simp, ?_, hkernel⟩))
      cases l with
      | kernel e => simp [afterLoop, hphase]
      | _ => exact hkernel.elim
    · exact .inr (.inr (.inr ⟨rfl, by simp [afterLoop, hphase, leave], rfl⟩))

theorem State.Served.loopStep (h : s.Served reader) (hallows : s.Allows key l)
    (hstep : s.loop.Step l loop) : (s.afterLoop reader l loop).Served reader := by
  have hloop : (s.afterLoop reader l loop).loop = loop := State.afterLoop_eq.1
  have hwf := hstep.wf h.wf
  have hmade := h.made.trans_le (hstep.nextPtr_le h.wf)
  refine ⟨by rwa [hloop], by rwa [hloop], ?_⟩
  rw [hloop]
  rcases h.loop_cases hallows hstep with ⟨-, hphase, hnot⟩ | ⟨-, hphase, -, hrun⟩ |
    ⟨hrun, hphase, hkernel⟩ | ⟨-, hphase, rfl⟩
  · exact iff_of_false (not_not_intro hphase) hnot
  · exact iff_of_true hphase hrun
  · obtain ⟨hcontrol, -⟩ := @listening_iff_of_kernel reader _ _ _ hstep hkernel
    rw [hphase, hcontrol]
    exact h.running
  · simp [hphase, activityOf_of_handlerReturns hstep]

theorem State.Served.not_listening (h : s.Served reader) (hallows : s.Allows key l)
    (hstep : s.loop.Step l loop) (hnot : ¬ Listening s.loop reader) (hphase : s.phase ≠ .reading) :
    ¬ Listening loop reader ∧ (s.afterLoop reader l loop).phase ≠ .reading := by
  rcases h.loop_cases hallows hstep with ⟨hbefore, hafter, -⟩ | ⟨hbefore, -, hentry, -⟩ |
    ⟨-, hafter, hkernel⟩ | ⟨hbefore, hafter, rfl⟩
  · refine ⟨fun hlistens => hnot ?_, by simp [hafter]⟩
    exact h.listening_of_outside hbefore (entryAt_of_step h.wf h.made hstep hlistens.1)
  · exact absurd (h.listening_of_outside hbefore hentry) hnot
  · obtain ⟨-, hiff⟩ := @listening_iff_of_kernel reader _ _ _ hstep hkernel
    exact ⟨mt hiff.1 hnot, by rwa [hafter]⟩
  · refine ⟨fun hlistens => hnot ?_, by simp [hafter]⟩
    have hrun := h.running.1 (by rw [hbefore]; simp)
    exact entryAt_of_handlerReturns h.wf hstep hrun hlistens.1

end Loop

/-! ## What a round does -/

/-- The calls of a round, and what it leaves behind. -/
inductive RoundEffect (G : Grammar UInt8 Container SyntaxError) (undef : Binary64 → Int64)
    (who : String) (P : Parser σ UInt8 Container SyntaxError) (l : List UInt8) (s : State σ)
    (t : Traffic) : State σ → Traffic → Prop
  /-- There is nothing to be read, and the call of `handle_event` is over. -/
  | pauses (hempty : s.pipe.buffered = []) (hopen : s.pipe.closed = false) :
      RoundEffect G undef who P l s t { s with phase := .done } (t.after [] .returned)
  | reads {l' buffered : List UInt8} {parser : σ} {callbacks : List Callback}
      (hshort : buffered.length < s.pipe.buffered.length) (hfed : P.Fed l' parser) (hsuffix : l' ++ buffered <:+ l ++ s.pipe.buffered)
      (href : ∀ rest, reference undef G who (l ++ s.pipe.buffered ++ rest) =
        callbacks ++ reference undef G who (l' ++ buffered ++ rest)) :
      RoundEffect G undef who P l s t
        { s with parser := parser, pipe := { s.pipe with buffered := buffered } }
        (t.after callbacks .waiting)
  | stops {loop : IoMultiplexer.State} {buffered : List UInt8} {parser : σ}
      {callbacks : List Callback} (hstep : s.loop.Step .stopListening loop)
      (href : (s.pipe.closed = true ∧ s.pipe.buffered = [] ∧
          callbacks = reference undef G who l) ∨
        ∀ rest, callbacks = reference undef G who (l ++ s.pipe.buffered ++ rest)) :
      RoundEffect G undef who P l s t
        { s with
          loop := loop
          parser := parser
          pipe := { s.pipe with buffered := buffered }
          phase := .done }
        (t.after callbacks .stopped)

variable {s s' : State σ} {t : Traffic}

theorem round_cases (hP : P.Implements G) (hB : 0 < bufferSize) (hfuel : bufferSize < fuel)
    {call : Io.Call} {l : List UInt8} (hs : P.Fed l s.parser)
    (hround : State.step P undef bufferSize who fuel reader key s (.round call) = some s') :
    s.phase = .reading ∧
      RoundEffect G undef who P l s t s' (t.record P undef bufferSize who fuel s (.round call)) := by
  simp only [State.step, Option.ite_none_right_eq_some, Option.bind_eq_some_iff] at hround
  obtain ⟨⟨hphase, hanswer⟩, r, hr, hafter⟩ := hround
  have hrecord : t.record P undef bufferSize who fuel s (.round call) =
      t.after r.callbacks r.exit := by
    simp only [Traffic.record, hr]
  refine ⟨hphase, ?_⟩
  rw [hrecord]
  unfold Pipe.Answers at hanswer
  split at hanswer
  · next hpipe =>
    rw [readLoop_of_pause hanswer] at hr
    cases hr
    cases hafter
    exact .pauses hpipe.1 hpipe.2
  · next hpipe =>
    obtain ⟨r', hr', hspec⟩ := readLoop_of_isTransfer undef who hP hB hfuel hanswer
      s.pipe.buffered hs
    obtain rfl := Option.some.inj (hr.symm.trans hr')
    rcases hspec with ⟨hexit, hshort, l', hfed, hsuffix, href⟩ | ⟨hexit, hend⟩
    · simp only [State.afterRound, hexit, Option.some.injEq] at hafter
      subst hafter
      rw [hexit]
      exact .reads hshort hfed hsuffix href
    · simp only [State.afterRound, hexit, Option.map_eq_some_iff] at hafter
      obtain ⟨loop, hstep, rfl⟩ := hafter
      rw [hexit]
      refine .stops (IoMultiplexer.State.step_cases hstep) ?_
      rcases hend with ⟨hempty, hcallbacks⟩ | hall
      · refine .inl ⟨?_, hempty, hcallbacks⟩
        by_contra hopen
        exact hpipe ⟨hempty, by simpa using hopen⟩
      · exact .inr hall

/-! ## The invariant -/

variable (P G undef who reader) in
/-- What has been written is what the reader has told of and what is left: what the parser has been
fed and what is in the pipe.  A reader that has stopped has told of everything. -/
structure Delivering (s : State σ) (t : Traffic) : Prop where
  served : s.Served reader
  listening : t.stopped = false → ∃ l, P.Fed l s.parser ∧ l ++ s.pipe.buffered <:+ t.written ∧
    ∀ rest, reference undef G who (t.written ++ rest) =
      t.callbacks ++ reference undef G who (l ++ s.pipe.buffered ++ rest)
  gone : t.stopped = true → ¬ Listening s.loop reader ∧ s.phase ≠ .reading
  stopped : t.stopped = true →
    s.pipe.closed = true ∧ t.callbacks = reference undef G who t.written ∨
      ∀ rest, t.callbacks = reference undef G who (t.written ++ rest)

theorem State.Served.round (h : s.Served reader) (hphase : s.phase = .reading)
    {loop : IoMultiplexer.State} (hloop : loop = s.loop ∨ s.loop.Step .stopListening loop)
    (parser : σ) (pipe : Pipe) {phase : Phase} (hnext : phase ≠ .outside) :
    ({ s with loop := loop, parser := parser, pipe := pipe, phase := phase } :
      State σ).Served reader := by
  obtain ⟨sloop, pipe', parser', phase', hungUp, missed⟩ := s
  obtain ⟨activity, ha, hdata⟩ := h.running.1 (by rw [hphase]; simp)
  rcases hloop with rfl | hstep
  · exact ⟨h.wf, h.made, iff_of_true hnext ⟨activity, ha, hdata⟩⟩
  · refine ⟨hstep.wf h.wf, h.made.trans_le (hstep.nextPtr_le h.wf), iff_of_true hnext ?_⟩
    cases hstep with
    | stopListening =>
      cases ha
      exact ⟨_, rfl, hdata⟩

theorem State.Served.not_listening_of_stops (h : s.Served reader) (hphase : s.phase = .reading)
    {loop : IoMultiplexer.State} (hstep : s.loop.Step .stopListening loop) :
    ¬ Listening loop reader := by
  obtain ⟨sloop, pipe, parser, phase, hungUp, missed⟩ := s
  obtain ⟨activity, ha, hdata⟩ := h.running.1 (by rw [hphase]; simp)
  intro hlistens
  cases hstep with
  | stopListening =>
    cases ha
    cases hlistens.2 _ rfl hdata

theorem Delivering.round (h : Delivering P G undef who reader s t) {l : List UInt8}
    (hlistens : t.stopped = false) (hphase : s.phase = .reading) {t' : Traffic}
    (hsuffix : l ++ s.pipe.buffered <:+ t.written)
    (href : ∀ rest, reference undef G who (t.written ++ rest) =
      t.callbacks ++ reference undef G who (l ++ s.pipe.buffered ++ rest))
    (hfed : P.Fed l s.parser) (hround : RoundEffect G undef who P l s t s' t') :
    Delivering P G undef who reader s' t' := by
  cases hround with
  | pauses hempty hopen =>
    -- the pipe is empty: nothing has been taken from it
    have hgoes : (t.after [] .returned).stopped = false := by simp [Traffic.after, hlistens]
    refine ⟨h.served.round hphase (.inl rfl) _ _ (by simp), ?_, ?_, ?_⟩
    · intro _
      refine ⟨l, hfed, hsuffix, ?_⟩
      intro rest
      simp [Traffic.after, href]
    · intro hstop
      rw [hgoes] at hstop
      cases hstop
    · intro hstop
      rw [hgoes] at hstop
      cases hstop
  | @reads l' buffered parser callbacks hshort hfed' hsuffix' href' =>
    -- the bytes have gone from the pipe to the parser, or into calls
    have hgoes : (t.after callbacks .waiting).stopped = false := by simp [Traffic.after, hlistens]
    refine ⟨h.served.round hphase (.inl rfl) _ _ (by simp [hphase]), ?_, ?_, ?_⟩
    · intro _
      refine ⟨l', hfed', hsuffix'.trans hsuffix, ?_⟩
      intro rest
      show reference undef G who (t.written ++ rest) = (t.callbacks ++ callbacks) ++ _
      rw [href, href', List.append_assoc t.callbacks]
    · intro hstop
      rw [hgoes] at hstop
      cases hstop
    · intro hstop
      rw [hgoes] at hstop
      cases hstop
  | @stops loop buffered parser callbacks hstep hend =>
    refine ⟨h.served.round hphase (.inr hstep) _ _ (by simp), ?_, ?_, ?_⟩
    · intro hstop
      simp [Traffic.after] at hstop
    · intro _
      exact ⟨h.served.not_listening_of_stops hphase hstep, by simp⟩
    · intro _
      show s.pipe.closed = true ∧ t.callbacks ++ callbacks = reference undef G who t.written ∨
        ∀ rest, t.callbacks ++ callbacks = reference undef G who (t.written ++ rest)
      -- at the end of the stream, or at a syntax error, whatever is still to come
      rcases hend with ⟨hclosed, hempty, hcallbacks⟩ | hall
      · refine .inl ⟨hclosed, ?_⟩
        have hwhole := href []
        rw [hempty, List.append_nil, List.append_nil, List.append_nil] at hwhole
        rw [hwhole, hcallbacks]
      · refine .inr fun rest => ?_
        rw [href, ← hall]

theorem Delivering.step (hP : P.Implements G) (hB : 0 < bufferSize) (hfuel : bufferSize < fuel)
    (h : Delivering P G undef who reader s t) {l : Label}
    (hs : State.step P undef bufferSize who fuel reader key s l = some s') :
    Delivering P G undef who reader s' (t.record P undef bufferSize who fuel s l) := by
  cases l with
  | write bytes =>
    simp only [State.step, Option.ite_none_left_eq_some, Option.some.injEq] at hs
    obtain ⟨hopen, rfl⟩ := hs
    refine ⟨⟨h.served.wf, h.served.made, h.served.running⟩, ?_, h.gone, ?_⟩
    · intro hlistens
      obtain ⟨l, hfed, hsuffix, href⟩ := h.listening hlistens
      refine ⟨l, hfed, ?_, ?_⟩
      · show l ++ (s.pipe.buffered ++ bytes) <:+ t.written ++ bytes
        rw [← List.append_assoc]
        exact List.suffix_append_self_iff.2 hsuffix
      · intro rest
        show reference undef G who (t.written ++ bytes ++ rest) =
          t.callbacks ++ reference undef G who (l ++ (s.pipe.buffered ++ bytes) ++ rest)
        rw [List.append_assoc t.written, href]
        simp
    · intro hstop
      rcases h.stopped hstop with ⟨hclosed, -⟩ | hall
      · exact absurd hclosed hopen
      · refine .inr fun rest => ?_
        show t.callbacks = reference undef G who (t.written ++ bytes ++ rest)
        rw [List.append_assoc]
        exact hall (bytes ++ rest)
  | closeWriteEnd =>
    simp only [State.step, Option.ite_none_left_eq_some, Option.some.injEq] at hs
    obtain ⟨hopen, rfl⟩ := hs
    refine ⟨⟨h.served.wf, h.served.made, h.served.running⟩, h.listening, h.gone, ?_⟩
    intro hstop
    rcases h.stopped hstop with ⟨hclosed, -⟩ | hall
    · exact absurd hclosed hopen
    · exact .inr hall
  | loop l =>
    simp only [State.step, Option.ite_none_right_eq_some, Option.map_eq_some_iff] at hs
    obtain ⟨hallows, loop, hstep, rfl⟩ := hs
    have hstep' := IoMultiplexer.State.step_cases hstep
    obtain ⟨hloop, hpipe, hparser⟩ :
        (s.afterLoop reader l loop).loop = loop ∧ (s.afterLoop reader l loop).pipe = s.pipe ∧
          (s.afterLoop reader l loop).parser = s.parser := State.afterLoop_eq
    refine ⟨h.served.loopStep hallows hstep', ?_, ?_, ?_⟩
    · rw [hpipe, hparser]
      exact h.listening
    · intro hstop
      obtain ⟨hnot, hphase⟩ := h.gone hstop
      rw [hloop]
      exact h.served.not_listening hallows hstep' hnot hphase
    · rw [hpipe]
      exact h.stopped
  | round call =>
    cases hstop : t.stopped with
    | true =>
      -- the reader is not called any more
      simp only [State.step, Option.ite_none_right_eq_some] at hs
      exact absurd hs.1.1 (h.gone hstop).2
    | false =>
      obtain ⟨l, hfed, hsuffix, href⟩ := h.listening hstop
      obtain ⟨hphase, hround⟩ := round_cases hP hB hfuel hfed hs
      exact h.round hstop hphase hsuffix href hfed hround

theorem Delivering.init (h : s.Init P reader key) (hempty : s.pipe.buffered = []) :
    Delivering P G undef who reader s ⟨[], [], false⟩ := by
  have hinv := h.inv
  refine ⟨⟨hinv.wf, hinv.made, hinv.running⟩, ?_, by simp, by simp⟩
  intro _
  refine ⟨[], ?_, by simp [hempty], fun rest => by simp [hempty]⟩
  rw [h.parser]
  exact .fresh

theorem delivering_of_reach (hP : P.Implements G) (hB : 0 < bufferSize) (hfuel : bufferSize < fuel)
    {ls : List Label} {p : State σ × Traffic}
    (h : (traced P undef bufferSize who fuel reader key).Reach (fun _ _ => True) ls p) :
    Delivering P G undef who reader p.1 p.2 := by
  refine h.invariant (I := fun _ p => Delivering P G undef who reader p.1 p.2) ?_ ?_
  · rintro ⟨s, t⟩ ⟨hinit, hempty, rfl⟩
    exact .init hinit hempty
  · rintro ls ⟨s, t⟩ l p - hdelivering - hs
    obtain ⟨s', hs', rfl⟩ := Option.map_eq_some_iff.1 hs
    exact hdelivering.step hP hB hfuel hs'

theorem Delivering.callbacks_of_stopped (h : Delivering P G undef who reader s t)
    (hstop : t.stopped = true) : t.callbacks = reference undef G who t.written := by
  rcases h.stopped hstop with ⟨-, hwhole⟩ | hall
  · exact hwhole
  · have hwhole := hall []
    rwa [List.append_nil] at hwhole

/-- **What is written arrives.**  In every run of an event loop with a log reader and any other
listeners, however the writes to the pipe, the reads, the events and what else happens are
interleaved: as long as the reader has not called `stop_listening`, it has made the calls of the
reference for all that has been written except for the value that it has read a part of and for
what is still in the pipe; and once it has called `stop_listening` its calls are those of the
reference on all that has been written, and it does not listen any more. -/
theorem delivered_in_loop (hP : P.Implements G) (hB : 0 < bufferSize) (hfuel : bufferSize < fuel)
    {ls : List Label} {p : State σ × Traffic}
    (h : (traced P undef bufferSize who fuel reader key).Reach (fun _ _ => True) ls p) :
    (p.2.stopped = false → ∃ begun, (G.front begun).isOpen ∧
      begun ++ p.1.pipe.buffered <:+ p.2.written ∧
        ∀ rest, reference undef G who (p.2.written ++ rest) =
          p.2.callbacks ++ reference undef G who (begun ++ p.1.pipe.buffered ++ rest)) ∧
    (p.2.stopped = true → p.2.callbacks = reference undef G who p.2.written ∧
      ¬ Listening p.1.loop reader) := by
  have hdelivering := delivering_of_reach hP hB hfuel h
  refine ⟨?_, fun hstop => ⟨hdelivering.callbacks_of_stopped hstop, (hdelivering.gone hstop).1⟩⟩
  intro hlistens
  obtain ⟨l, hfed, hsuffix, href⟩ := hdelivering.listening hlistens
  exact ⟨l, hP.front_isOpen hfed, hsuffix, href⟩

end

/-- Two arrays, of which the second one is written while the reader reads; then the end. -/
theorem delivered_in_loop_example : ∃ p : State (Flat × Container) × Traffic,
    (traced Flat.automaton.parser (fun _ => 0) 7 "client" 8 0 (3, 0)).Reach (fun _ _ => True)
      [.write (Flat.bytes "[] ["), .loop (.waitReturns [((3, 0), EPOLLIN)]), .loop .process,
        .round ⟨0, .transfers 9 0⟩, .write (Flat.bytes "]"), .closeWriteEnd,
        .round ⟨1, .transfers 0 0⟩, .round ⟨0, .transfers 0 0⟩, .loop .handlerReturns] p ∧
      p.2.callbacks =
        reference (fun _ => 0) Flat.automaton.grammar "client" (Flat.bytes "[] []") ∧
      ¬ Listening p.1.loop 0 := by
  have hrun : ((traced Flat.automaton.parser (fun _ => 0) 7 "client" 8 0 (3, 0)).run
      (fun _ _ => True) (start, ⟨[], [], false⟩)
      [.write (Flat.bytes "[] ["), .loop (.waitReturns [((3, 0), EPOLLIN)]), .loop .process,
        .round ⟨0, .transfers 9 0⟩, .write (Flat.bytes "]"), .closeWriteEnd,
        .round ⟨1, .transfers 0 0⟩, .round ⟨0, .transfers 0 0⟩, .loop .handlerReturns]).map
          (fun p => (p.2.stopped, p.2.written)) = some (true, Flat.bytes "[] []") := by decide
  obtain ⟨p, h, heq⟩ := Lts.Reach.exists_of_map_run (And.intro start_init ⟨rfl, rfl⟩) hrun
  obtain ⟨hstop, hwritten⟩ := Prod.mk.inj heq
  obtain ⟨hcallbacks, hnot⟩ :=
    (delivered_in_loop Flat.automaton.implements (by decide) (by decide) h).2 hstop
  exact ⟨p, h, hwritten ▸ hcallbacks, hnot⟩

end ThePipe.JsonLog.LogPipe
