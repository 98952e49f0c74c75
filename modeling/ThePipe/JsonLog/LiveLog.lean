import ThePipe.JsonLog.Delivery
import ThePipe.JsonLog.SharedWriter

/-!
# A log pipe in use

Both ends of a log pipe at the same time.  The threads of a program log through writers that share
the pipe, and what a system call of theirs writes is in the pipe at once; the reader at the other
end is called from an event loop, and reads while more is written.

* `Lts.driving` puts the two systems side by side, so that what is written is what the threads have
  put out (`written_eq`);
* `received` : in every state of every run the reader has consumed the first of the items that have
  been written, all of them when the pipe is empty.
-/

set_option autoImplicit false

namespace ThePipe.JsonLog.LiveLog

open Lib Jopp Log OsServices ErrorHandling Io Fd LogPipe

/-! ## The two processes -/

section

variable {σ ζ : Type} (P : Parser σ UInt8 Container SyntaxError) (undef : Binary64 → Int64)
  (bufferSize : ℕ) (who : String) (fuel : ℕ) (reader : Ptr) (key : NativeHandle × Ofd)
  (S : Serializer ζ) (writers : ObjectPtr → Writer) (initial : Configuration) (fd : Sink)

abbrev Threads (ζ : Type) := Mutex.State (Writing ζ) (Option Call) UInt8

/-- What a step of the threads writes to the pipe. -/
def fed (s s' : Threads ζ) : Option LogPipe.Label :=
  match (s'.accepted fd).drop (s.accepted fd).length with
  | [] => none
  | bytes => some (.write bytes)

/-- Only the threads write. -/
def IsOwn : LogPipe.Label → Prop
  | .write _ => False
  | .closeWriteEnd | .loop _ | .round _ => True

instance : DecidablePred IsOwn
  | .write _ => isFalse id
  | .closeWriteEnd | .loop _ | .round _ => isTrue trivial

def system : Lts (Threads ζ × LogPipe.State σ × Traffic)
    (Mutex.Label (Option Call) ⊕ LogPipe.Label) :=
  (Mutex.threads (writerCode S writers) initial).driving
    (traced P undef bufferSize who fuel reader key) (fed fd) IsOwn

variable {P undef bufferSize who fuel reader key S writers initial fd}

theorem accepted_of_fed {s s' : Threads ζ} (h : s.accepted fd <+: s'.accepted fd) :
    (fed fd s s' = none ∧ s'.accepted fd = s.accepted fd) ∨
      ∃ bytes, fed fd s s' = some (.write bytes) ∧ s'.accepted fd = s.accepted fd ++ bytes := by
  obtain ⟨bytes, hbytes⟩ := h
  rw [fed, ← hbytes, List.drop_left]
  cases bytes with
  | nil => exact .inl ⟨rfl, by simp⟩
  | cons b bytes => exact .inr ⟨_, rfl, rfl⟩

theorem record_of_own (t : Traffic) (s : LogPipe.State σ) {l : LogPipe.Label} (h : IsOwn l) :
    (t.record P undef bufferSize who fuel s l).written = t.written := by
  cases l with
  | write bytes => exact h.elim
  | round call =>
    simp only [Traffic.record]
    split <;> rfl
  | closeWriteEnd => rfl
  | loop l => rfl

theorem written_eq {ls : List (Mutex.Label (Option Call) ⊕ LogPipe.Label)}
    {p : Threads ζ × LogPipe.State σ × Traffic}
    (h : (system P undef bufferSize who fuel reader key S writers initial fd).Reach
      (fun _ _ => True) ls p) : p.2.2.written = p.1.accepted fd := by
  refine h.invariant (I := fun _ p => p.2.2.written = p.1.accepted fd) ?_ ?_
  · rintro ⟨s, host, t⟩ ⟨rfl, -, -, rfl⟩
    rfl
  · rintro ls p l p' - ih - hs
    cases Lts.driving_cases hs with
    | @alone s s' host l hl hfed =>
      have hgrows := (Mutex.step_cases hl).accepted_grows fd
      rcases accepted_of_fed hgrows with ⟨-, heq⟩ | ⟨bytes, hsome, -⟩
      · exact ih.trans heq.symm
      · rw [hfed] at hsome
        cases hsome
    | @together s s' host host' l k hl hfed ht =>
      have hgrows := (Mutex.step_cases hl).accepted_grows fd
      rcases accepted_of_fed hgrows with ⟨hnone, -⟩ | ⟨bytes, hsome, heq⟩
      · rw [hfed] at hnone
        cases hnone
      · obtain rfl := Option.some.inj (hfed.symm.trans hsome)
        obtain ⟨host, -, rfl⟩ := Option.map_eq_some_iff.1 ht
        rw [heq, ← ih]
        rfl
    | driven hown ht =>
      obtain ⟨host, -, rfl⟩ := Option.map_eq_some_iff.1 ht
      exact (record_of_own _ _ hown).trans ih

end

/-! ## What the reader has told -/

section

variable {G : Grammar UInt8 Container SyntaxError} {undef : Binary64 → Int64} {who : String}
  {consumed told : List Callback} {torn left : List UInt8}

theorem reference_ne_nil (stream : List UInt8) : reference undef G who stream ≠ [] := by
  unfold reference farewell
  split <;> simp

theorem report_ne_onParseError (v : Container) (ec : ParserErrorCode) :
    report undef who v ≠ .onParseError who ec := by
  unfold report
  split
  · simp
  · split <;> simp

/-- Of a text that is not complete nothing is told before the end: it might still be completed. -/
theorem told_inOrder (htorn : (G.front torn).isOpen)
    (hrest : torn ≠ [] → ∃ rest n v, G.front (torn ++ rest) = .value n v)
    (href : ∀ rest, consumed ++ reference undef G who (torn ++ rest) =
      told ++ reference undef G who (left ++ rest)) : told <+: consumed := by
  have hend := href []
  rw [List.append_nil, List.append_nil] at hend
  rcases List.append_eq_append_iff.1 hend with ⟨more, rfl, hmore⟩ | ⟨missing, rfl, -⟩
  · cases more with
    | nil => simp
    | cons c more =>
      -- then `c` is the error that is reported at the end
      obtain ⟨errors, herrors, hnil, hopen⟩ := reference_of_isOpen undef who htorn
      rw [hopen] at hmore
      rcases herrors with rfl | rfl
      · have hlast := (List.cons.inj hmore).2
        exact absurd (List.append_eq_nil_iff.1 hlast.symm).2 (reference_ne_nil _)
      · obtain rfl : .onParseError who .moreDataNeeded = c := (List.cons.inj hmore).1
        obtain ⟨rest, n, v, hvalue⟩ := hrest fun h => absurd (hnil h) (by simp)
        have hwhole := href rest
        have hfirst := @reference_of_value undef _ who _ _ _ hvalue []
        rw [List.append_nil] at hfirst
        rw [hfirst, List.append_assoc, List.append_cancel_left_eq] at hwhole
        exact absurd (List.cons.inj hwhole).1 (report_ne_onParseError v _)
  · exact List.prefix_append _ _

theorem told_eq (hconsumed : ∀ c ∈ consumed, ∃ item, c = .consume who item)
    (htold : told <+: consumed) (hleft : (G.front left).isOpen)
    (href : consumed ++ reference undef G who torn = told ++ reference undef G who left) :
    told = consumed := by
  obtain ⟨missing, rfl⟩ := htold
  rw [List.append_assoc, List.append_cancel_left_eq] at href
  cases missing with
  | nil => simp
  | cons c missing =>
    obtain ⟨errors, herrors, -, hopen⟩ := reference_of_isOpen undef who hleft
    rw [hopen] at href
    rcases herrors with rfl | rfl
    · have hlast := (List.cons.inj href).2
      exact absurd (List.append_eq_nil_iff.1 hlast).2 (reference_ne_nil _)
    · obtain ⟨item, rfl⟩ := hconsumed c (by simp)
      cases (List.cons.inj href).1

end

/-! ## What the reader receives -/

section

variable {σ ζ : Type} {P : Parser σ UInt8 Container SyntaxError}
  {G : Grammar UInt8 Container SyntaxError} {bufferSize : ℕ} {fuel : ℕ} {reader : Ptr}
  {key : NativeHandle × Ofd} {S : Serializer ζ} {text : Object → List UInt8}
  {writers : ObjectPtr → Writer} {initial : Configuration} {fd : Sink}

/-- The calls for the items that the writers have been given. -/
def consumes (undef : Binary64 → Int64) (who : String) (es : List (WriterEmission ζ)) :
    List Callback :=
  es.map fun e => .consume who (receivedItem undef e.written.item)

/-- What a reader has told of the calls that have written to its pipe. -/
structure Receives (undef : Binary64 → Int64) (who : String) (text : Object → List UInt8)
    (logged : List (WriterEmission ζ)) (pipe : Pipe) (t : Traffic) : Prop where
  /-- It has consumed the first items that are complete. -/
  inOrder : t.stopped = false → t.callbacks <+: consumes undef who (completed text logged)
  /-- When nothing is left in the pipe it has consumed all of them. -/
  nothingLost : t.stopped = false → pipe.buffered = [] →
    t.callbacks = consumes undef who (completed text logged)
  /-- At the end it reports a text that is not complete. -/
  toTheEnd : t.stopped = true → ∃ errors,
    (errors = [] ∨ errors = [.onParseError who .moreDataNeeded]) ∧
      (completed text logged = logged → errors = []) ∧
      t.callbacks = consumes undef who (completed text logged) ++ (errors ++ [.stopListening])

/-- **What is logged is received while the program runs.**  However the threads, their system calls,
the event loop of the other process, its other listeners and the reads are interleaved: of the items
that have been written to the pipe completely the reader has consumed the first ones, in the order
of the calls and each once, and all of them as soon as the pipe is empty.  When it has called
`stop_listening` it has consumed them all, and has reported at most that the last text is not
complete. -/
theorem received (undef : Binary64 → Int64) (who : String) (hP : P.Implements G)
    (hS : S.Prints text) (hsize : ∀ object, 0 < (writers object).bufferSize) (hB : 0 < bufferSize)
    (hfuel : bufferSize < fuel) {ls : List (Mutex.Label (Option Call) ⊕ LogPipe.Label)}
    {p : Threads ζ × LogPipe.State σ × Traffic}
    (h : (system P undef bufferSize who fuel reader key S writers initial fd).Reach
      (fun _ _ => True) ls p)
    (hparse : ∀ e ∈ p.1.emissions, G.front (emissionText text e) =
      .value (emissionText text e).length (.object (toJoppObject e.written.item)))
    (hreturned : ∀ e ∈ (p.1.emissions.filter fun e =>
      e.sink (writerCode S writers) = some fd).dropLast, e.progress = .returned) :
    Receives undef who text
      (p.1.emissions.filter fun e => e.sink (writerCode S writers) = some fd) p.2.1.pipe p.2.2 := by
  have hwritten := written_eq h
  obtain ⟨ks, hhost⟩ := h.driven
  have hdelivering := delivering_of_reach hP hB hfuel hhost
  obtain ⟨-, -, -, -, hinv⟩ :=
    Mutex.reach_effects (fun _ _ => True) (fun _ _ _ _ _ => trivial) h.driver
  generalize hlogged : (p.1.emissions.filter fun e => e.sink (writerCode S writers) = some fd) =
    logged at hreturned ⊢
  have hmem : ∀ e ∈ logged, e ∈ p.1.emissions ∧ e.sink (writerCode S writers) = some fd := by
    intro e he
    simpa [← hlogged] using he
  have hparse' : ∀ e ∈ logged, G.front (emissionText text e) =
      .value (emissionText text e).length (.object (toJoppObject e.written.item)) :=
    fun e he => hparse e (hmem e he).1
  obtain ⟨torn, hsplit, htorn, hnil, hrest⟩ := output_split (G := G) hreturned
    (fun e he => output_prefix hS hsize (hmem e he).2 (hinv.made e (hmem e he).1)) hparse'
  have harrived : p.2.2.written =
      ((completed text logged).map (emissionText text)).flatten ++ torn := by
    rw [hwritten, hinv.arrived fd, hlogged, hsplit]
  have htexts := reference_of_texts (G := G) undef who
    fun e (he : e ∈ completed text logged) => hparse' e (List.mem_of_mem_filter he)
  -- what is left to be told, when the reader listens
  have hlistens : p.2.2.stopped = false → ∃ l, (G.front l).isOpen ∧ ∀ rest,
      consumes undef who (completed text logged) ++ reference undef G who (torn ++ rest) =
        p.2.2.callbacks ++ reference undef G who (l ++ p.2.1.pipe.buffered ++ rest) := by
    intro hgoes
    obtain ⟨l, hfed, -, href⟩ := hdelivering.listening hgoes
    refine ⟨l, hP.front_isOpen hfed, fun rest => ?_⟩
    rw [← href, harrived, List.append_assoc, htexts]
    rfl
  have hinOrder : p.2.2.stopped = false →
      p.2.2.callbacks <+: consumes undef who (completed text logged) := by
    intro hgoes
    obtain ⟨l, -, href⟩ := hlistens hgoes
    exact told_inOrder htorn hrest href
  refine ⟨hinOrder, ?_, ?_⟩
  · intro hgoes hempty
    obtain ⟨l, hopen, href⟩ := hlistens hgoes
    have hnow := href []
    rw [hempty, List.append_nil, List.append_nil, List.append_nil] at hnow
    refine told_eq ?_ (hinOrder hgoes) hopen hnow
    intro c hc
    obtain ⟨e, -, rfl⟩ := List.mem_map.1 hc
    exact ⟨_, rfl⟩
  · intro hstop
    obtain ⟨errors, herrors, hnone, hend⟩ := reference_of_isOpen undef who htorn
    refine ⟨errors, herrors, fun hall => hnone (hnil hall), ?_⟩
    rw [hdelivering.callbacks_of_stopped hstop, harrived, htexts, hend]
    rfl

end

/-- The first message of `twoWriters` is written in two pieces, the reader being called in between;
when it has read what is left it waits, and the second message has been begun. -/
def whileWriting : List (Mutex.Label (Option Call) ⊕ LogPipe.Label) :=
  (twoWriters.take 12).map .inl ++
    [.inl ⟨1, .resume (some ⟨0, .transfers 39 0⟩)⟩, .inr (.loop (.waitReturns [((3, 0),
      IoMultiplexer.EPOLLIN)])), .inr (.loop .process), .inr (.round ⟨0, .transfers 99 0⟩),
      .inl ⟨1, .resume (some ⟨0, .transfers 80 0⟩)⟩] ++ (twoWriters.drop 13).map .inl ++
    [.inr (.round ⟨1, .transfers 99 0⟩), .inr (.round ⟨0, .fails EAGAIN⟩),
      .inr (.loop .handlerReturns)]

theorem run_whileWriting :
    ((system Flat.automaton.parser (fun _ => 0) 30 "client" 31 0 (3, 0) Flat.serializer
      (fun _ => ⟨2, 80⟩) ⟨⟨none⟩, ⟨none⟩⟩ 2).run (fun _ _ => True)
        (⟨⟨⟨none⟩, ⟨none⟩⟩, none, fun _ => .idle, [], [], fun _ => []⟩, start, ⟨[], [], false⟩)
        whileWriting).map (fun p => (p.1.emissions.map fun e => (e.written.item,
          decide (e.sink (writerCode Flat.serializer fun _ => ⟨2, 80⟩) = some 2 ∧
            (e.progress = .returned ↔ e.output = emissionText Flat.text e)),
          decide (e.output = emissionText Flat.text e)), p.2.1.pipe.buffered, p.2.2.stopped)) =
      some ([(⟨0, .warning, "disk full"⟩, true, true), (⟨0, .error, ""⟩, true, false)], [],
        false) := by
  decide +kernel

/-- The first message has been received, the second one not yet. -/
theorem received_whileWriting : ∃ p,
    (system Flat.automaton.parser (fun _ => 0) 30 "client" 31 0 (3, 0) Flat.serializer
      (fun _ => ⟨2, 80⟩) ⟨⟨none⟩, ⟨none⟩⟩ 2).Reach (fun _ _ => True) whileWriting p ∧
      p.2.2.callbacks =
        [.consume "client" (receivedItem (fun _ => 0) ⟨0, .warning, "disk full"⟩)] := by
  obtain ⟨p, hp, heq⟩ := Lts.Reach.exists_of_map_run
    (And.intro rfl (And.intro start_init ⟨rfl, rfl⟩)) run_whileWriting
  obtain ⟨hemissions, heq⟩ := Prod.mk.inj heq
  obtain ⟨hempty, hstopped⟩ := Prod.mk.inj heq
  obtain ⟨first, last, hlist⟩ : ∃ first last, p.1.emissions = [first, last] :=
    List.length_eq_two.1 (by simpa using congrArg List.length hemissions)
  rw [hlist] at hemissions
  simp only [List.map_cons, List.map_nil, List.cons.injEq, Prod.mk.injEq, decide_eq_true_eq,
    decide_eq_false_iff_not, and_true] at hemissions
  obtain ⟨⟨hfirst, ⟨hsink, hreturned⟩, hwhole⟩, hlast, ⟨hsink', -⟩, htorn⟩ := hemissions
  have hlogged : p.1.emissions.filter (fun e =>
      e.sink (writerCode Flat.serializer fun _ => ⟨2, 80⟩) = some 2) = [first, last] := by
    simp [hlist, hsink, hsink']
  have hreceives := received (fun _ => 0) "client" Flat.automaton.implements
    Flat.serializer_prints (fun _ => show 0 < 80 by decide) (by decide) (by decide) hp
    (by
      intro e he
      rw [hlist, List.mem_pair] at he
      rw [emissionText]
      rcases he with rfl | rfl
      · exact front_flat (.inl hfirst)
      · exact front_flat (.inr hlast))
    (by
      rw [hlogged]
      simpa using hreturned.2 hwhole)
  have hcompleted : completed Flat.text [first, last] = [first] := by
    simp [completed, hwhole, htorn]
  refine ⟨p, hp, ?_⟩
  rw [hreceives.nothingLost hstopped hempty, hlogged, hcompleted, consumes, List.map_singleton,
    hfirst]

end ThePipe.JsonLog.LiveLog
