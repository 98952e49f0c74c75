import ThePipe.JsonLog.ItemConverter
import ThePipe.OsServices.Fd.ActivityStatus
import ThePipe.OsServices.Io

/-!
# The log reader

`handleEvent` reads from a pipe into a buffer of fixed size and feeds the buffer to the parser,
until the pipe would block, has ended, or a syntax error is found.  The state of the parser is kept
between buffers and between calls, and is made afresh after every item.

The stream is what is left to read from the pipe; the environment decides how each `read` goes.
The callbacks made to the receiver and the call of `stop_listening` are recorded in order.
-/

set_option autoImplicit false

namespace ThePipe.JsonLog

open Lib Jopp Log OsServices ErrorHandling Io Fd

/-- A call the reader makes: to its item receiver, or to the activity event. -/
inductive Callback where
  | consume (who : String) (item : Item)
  | onParseError (who : String) (ec : ParserErrorCode)
  | onInvalidLogItem (who : String) (message : String)
  | stopListening
  deriving DecidableEq

inductive ParserState where
  | good | jammed
  deriving DecidableEq

/-- How a call of `handleEvent` ends. -/
inductive Exit where
  /-- It returns, and the reader goes on listening. -/
  | returned
  /-- It returns after it has called `stop_listening`. -/
  | stopped
  /-- An exception leaves it. -/
  | threw (e : SystemError)
  /-- It has not come back from the last `read`. -/
  | waiting
  deriving DecidableEq

/-- The outcome of `handleEvent`: the calls made, the parser, and what is left to read. -/
structure Handled (σ : Type) where
  callbacks : List Callback
  state : σ
  stream : List UInt8
  exit : Exit

def Handled.after {σ : Type} (callbacks : List Callback) (r : Handled σ) : Handled σ :=
  { r with callbacks := callbacks ++ r.callbacks }

/-- One activity event on the reader's descriptor: its status and how the reads of the call go. -/
structure Wakeup where
  status : ActivityStatus
  calls : List Call

section

variable {σ : Type} (P : Parser σ UInt8 Container SyntaxError) (undef : Binary64 → Int64)
  (bufferSize : ℕ) (who : String) (fuel : ℕ)

/-- Feeds `input` to the parser: the calls made, the parser afterwards, and whether it is still
good.  `none` when the loop has not ended after `fuel` rounds. -/
def parseBuffer : ℕ → List UInt8 → σ → Option (List Callback × σ × ParserState)
  | 0, _, _ => none
  | fuel + 1, input, state =>
    let result := P.parse state input
    let input := input.drop result.ptr
    match result.ec with
    | .completed =>
      match P.value result.state with
      | .array _ =>
        (parseBuffer fuel input P.fresh).map fun r =>
          (.onInvalidLogItem who "A log item must be an object" :: r.1, r.2)
      | .object logItem =>
        match makeLogItem undef logItem with
        | .ok item =>
          (parseBuffer fuel input P.fresh).map fun r => (.consume who item :: r.1, r.2)
        | .error message =>
          (parseBuffer fuel input P.fresh).map fun r => (.onInvalidLogItem who message :: r.1, r.2)
    | .moreDataNeeded => some ([], result.state, .good)
    | .failed e => some ([.onParseError who (.failed e)], result.state, .jammed)

/-- The loop of `handle_event`. -/
def readLoop : List Call → σ → List UInt8 → Option (Handled σ)
  | [], state, stream => some ⟨[], state, stream, .waiting⟩
  | call :: calls, state, stream =>
    match read bufferSize stream call with
    | none => some ⟨[], state, stream, .waiting⟩
    | some (.error e) => some ⟨[], state, stream, .threw e⟩
    | some (.ok (readResult, inputSpan)) =>
      if readResult.operationWouldHaveBlocked then some ⟨[], state, stream, .returned⟩
      else if readResult.bytesTransferred = 0 then
        let callbacks :=
          if P.currentDepth state ≠ 0 then [.onParseError who .moreDataNeeded] else []
        some ⟨callbacks ++ [.stopListening], state, stream, .stopped⟩
      else
        let stream := stream.drop readResult.bytesTransferred
        match parseBuffer P undef who fuel inputSpan state with
        | none => none
        | some (callbacks, state, .good) => (readLoop calls state stream).map (·.after callbacks)
        | some (callbacks, state, .jammed) =>
          some ⟨callbacks ++ [.stopListening], state, stream, .stopped⟩

/-- Handles one activity event. -/
def handleEvent (event : Wakeup) (state : σ) (stream : List UInt8) : Option (Handled σ) :=
  if event.status.canRead then
    readLoop P undef bufferSize who fuel event.calls state stream
  else some ⟨[], state, stream, .returned⟩

/-- Handles a sequence of activity events, up to the one in which the reader stops listening. -/
def serve : List Wakeup → σ → List UInt8 → Option (Handled σ)
  | [], state, stream => some ⟨[], state, stream, .returned⟩
  | event :: events, state, stream =>
    match handleEvent P undef bufferSize who fuel event state stream with
    | none => none
    | some ⟨callbacks, state, stream, .returned⟩ =>
      (serve events state stream).map (·.after callbacks)
    | some r => some r

end

/-! ## What the reader is for -/

section

variable (undef : Binary64 → Int64) (G : Grammar UInt8 Container SyntaxError) (who : String)

def report : Container → Callback
  | .array _ => .onInvalidLogItem who "A log item must be an object"
  | .object obj =>
    match makeLogItem undef obj with
    | .ok item => .consume who item
    | .error message => .onInvalidLogItem who message

/-- The calls at the end of a stream, or at its first syntax error. -/
def farewell : Ending SyntaxError → List Callback
  | .blank => [.stopListening]
  | .inside => [.onParseError who .moreDataNeeded, .stopListening]
  | .bad e => [.onParseError who (.failed e), .stopListening]

/-- **The reference**: the calls for a whole stream, read off its successive values. -/
def reference (stream : List UInt8) : List Callback :=
  (G.cut stream).1.map (report undef who) ++ farewell who (G.cut stream).2

variable {undef G who} {l : List UInt8}

theorem reference_of_value {n : ℕ} {v : Container} (h : G.front l = .value n v)
    (m : List UInt8) :
    reference undef G who (l ++ m) =
      report undef who v :: reference undef G who (l.drop n ++ m) := by
  unfold reference
  rw [Grammar.cut_append_of_value h m]
  simp

theorem reference_of_bad {e : SyntaxError} (h : G.front l = .bad e) (m : List UInt8) :
    reference undef G who (l ++ m) = [.onParseError who (.failed e), .stopListening] := by
  unfold reference
  rw [Grammar.cut_of_bad (G.bad_append h m)]
  simp [farewell]

/-- At the end of the stream, the depth of the parser tells how it ends. -/
theorem reference_of_fed {σ : Type} {P : Parser σ UInt8 Container SyntaxError}
    (hP : P.Implements G) {state : σ} (hs : P.Fed l state) :
    reference undef G who l =
      (if P.currentDepth state ≠ 0 then [.onParseError who .moreDataNeeded] else []) ++
        [.stopListening] := by
  have ho := hP.front_isOpen hs
  have hd := hP.depth hs
  unfold reference
  cases hf : G.front l with
  | blank =>
    rw [Grammar.cut_of_blank hf, if_neg (by rw [hd, hf]; simp)]
    rfl
  | inside =>
    rw [Grammar.cut_of_inside hf, if_pos (by rw [hd, hf])]
    rfl
  | value n v => rw [hf] at ho; cases ho
  | bad e => rw [hf] at ho; cases ho

end

/-! ## The parse loop -/

section

variable {σ : Type} {P : Parser σ UInt8 Container SyntaxError}
  {G : Grammar UInt8 Container SyntaxError} (undef : Binary64 → Int64) (who : String)

theorem parseBuffer_of_completed {fuel : ℕ} {input : List UInt8} {state : σ}
    (h : (P.parse state input).ec = .completed) :
    parseBuffer P undef who (fuel + 1) input state =
      (parseBuffer P undef who fuel (input.drop (P.parse state input).ptr) P.fresh).map fun r =>
        (report undef who (P.value (P.parse state input).state) :: r.1, r.2) := by
  simp only [parseBuffer, h]
  cases P.value (P.parse state input).state with
  | array items => rfl
  | object obj =>
    simp only [report]
    cases makeLogItem undef obj <;> rfl

/-- What the parse loop does with a parser that has been fed `l`: it makes the calls for the values
completed by `input`, and either goes on with a parser fed the rest or stops at a syntax error. -/
theorem parseBuffer_spec (hP : P.Implements G) {fuel : ℕ} {l : List UInt8} (input : List UInt8)
    {state : σ} (hs : P.Fed l state) (hfuel : input.length < fuel) :
    ∃ callbacks state' now, parseBuffer P undef who fuel input state =
        some (callbacks, state', now) ∧
      match now with
      | .good => ∃ l', P.Fed l' state' ∧ l' <:+ l ++ input ∧ ∀ rest,
          reference undef G who (l ++ input ++ rest) =
            callbacks ++ reference undef G who (l' ++ rest)
      | .jammed => ∀ rest,
          reference undef G who (l ++ input ++ rest) = callbacks ++ [.stopListening] := by
  induction fuel generalizing l input state with
  | zero => omega
  | succ fuel ih =>
    cases hf : G.front (l ++ input) with
    | value n v =>
      -- a value is complete: the rest is shorter, and the parser is fresh
      obtain ⟨hec, hptr, hval⟩ := hP.completed hs hf
      have hlt := G.lt_of_value_append (hP.front_isOpen hs) hf
      have hle := G.value_le hf
      rw [List.length_append] at hle
      have hdrop : (l ++ input).drop n = input.drop (P.parse state input).ptr := by
        rw [← hptr, ← List.drop_drop, List.drop_left]
      obtain ⟨callbacks, state', now, hrun, hnow⟩ :=
        ih (input.drop (P.parse state input).ptr) .fresh (by rw [List.length_drop]; omega)
      refine ⟨report undef who v :: callbacks, state', now, ?_, ?_⟩
      · rw [parseBuffer_of_completed undef who hec, hrun, hval]
        rfl
      · cases now with
        | good =>
          obtain ⟨l', hfed, hsuf, href⟩ := hnow
          refine ⟨l', hfed, ?_, fun rest => ?_⟩
          · rw [List.nil_append, ← hdrop] at hsuf
            exact hsuf.trans (List.drop_suffix _ _)
          · rw [reference_of_value hf, hdrop, ← List.nil_append (List.drop _ _), href,
              List.cons_append]
        | jammed =>
          intro rest
          rw [reference_of_value hf, hdrop, ← List.nil_append (List.drop _ _), hnow,
            List.cons_append]
    | bad e =>
      -- what follows a syntax error is never looked at
      refine ⟨[.onParseError who (.failed e)], (P.parse state input).state, .jammed, ?_, ?_⟩
      · simp only [parseBuffer, hP.failed hs hf]
      · exact fun rest => reference_of_bad hf rest
    | blank =>
      have hec := (hP.more hs (b := input) (by rw [hf]; rfl)).1
      refine ⟨[], (P.parse state input).state, .good, ?_, l ++ input, .more input hs hec,
        List.suffix_refl _, fun rest => rfl⟩
      simp only [parseBuffer, hec]
    | inside =>
      have hec := (hP.more hs (b := input) (by rw [hf]; rfl)).1
      refine ⟨[], (P.parse state input).state, .good, ?_, l ++ input, .more input hs hec,
        List.suffix_refl _, fun rest => rfl⟩
      simp only [parseBuffer, hec]

/-! ## The reads -/

/-- Each read of the call is answered, with bytes or with the news that it would block. -/
def Answered (calls : List Call) : Prop := ∀ c ∈ calls, c.IsTransfer ∨ c.IsPause

variable {bufferSize fuel : ℕ}

/-- What the loop of `handle_event` does with a parser that has been fed `l`. -/
theorem readLoop_spec (hP : P.Implements G) (hB : 0 < bufferSize) (hfuel : bufferSize < fuel)
    {calls : List Call} {l : List UInt8} (stream : List UInt8) {state : σ} (hs : P.Fed l state) :
    ∃ r, readLoop P undef bufferSize who fuel calls state stream = some r ∧
      if r.exit = .stopped then reference undef G who (l ++ stream) = r.callbacks
      else ∃ l', P.Fed l' r.state ∧ l' ++ r.stream <:+ l ++ stream ∧
        reference undef G who (l ++ stream) =
          r.callbacks ++ reference undef G who (l' ++ r.stream) := by
  induction calls generalizing l stream state with
  | nil => exact ⟨_, rfl, l, hs, List.suffix_refl _, rfl⟩
  | cons call calls ih =>
    rw [readLoop]
    cases hr : read bufferSize stream call with
    | none => exact ⟨_, rfl, l, hs, List.suffix_refl _, rfl⟩
    | some res =>
      cases res with
      | error e => exact ⟨_, rfl, l, hs, List.suffix_refl _, rfl⟩
      | ok res =>
        obtain ⟨io, data⟩ := res
        obtain ⟨hdata, hcount, hlen, heof⟩ := read_ok hr
        dsimp only
        by_cases hb : io.operationWouldHaveBlocked
        · rw [if_pos hb]
          exact ⟨_, rfl, l, hs, List.suffix_refl _, rfl⟩
        rw [if_neg hb]
        by_cases h0 : io.bytesTransferred = 0
        · -- the end of the stream
          rw [if_pos h0]
          refine ⟨_, rfl, ?_⟩
          rw [if_pos rfl, heof (by simpa using hb) h0 hB, List.append_nil, reference_of_fed hP hs]
        · rw [if_neg h0]
          have hsplit : l ++ stream = l ++ data ++ stream.drop io.bytesTransferred := by
            rw [hdata, List.append_assoc, List.take_append_drop]
          obtain ⟨callbacks, state', now, hrun, hnow⟩ :=
            parseBuffer_spec undef who hP data hs (show data.length < fuel by
              rw [hdata, List.length_take]; omega)
          rw [hrun]
          cases now with
          | jammed =>
            refine ⟨_, rfl, ?_⟩
            rw [if_pos rfl, hsplit, hnow]
          | good =>
            obtain ⟨l', hfed, hsuf, href⟩ := hnow
            obtain ⟨r, hloop, hr'⟩ := ih (stream.drop io.bytesTransferred) hfed
            refine ⟨r.after callbacks, by dsimp only; rw [hloop]; rfl, ?_⟩
            rw [hsplit, href]
            show if r.exit = .stopped then _ else _
            split at hr'
            · next hx =>
              rw [if_pos hx, hr']
              rfl
            · next hx =>
              obtain ⟨l'', hfed'', hsuf'', href''⟩ := hr'
              rw [if_neg hx]
              refine ⟨l'', hfed'', hsuf''.trans ?_, ?_⟩
              · exact List.suffix_append_self_iff.2 hsuf
              · rw [href'', ← List.append_assoc]
                rfl

/-- **A call of `handle_event` comes back**: when its reads are answered, and one of them would
block or there are more of them than bytes left.  Without a pause it comes back only after it has
called `stop_listening`. -/
theorem readLoop_returns (hB : 0 < bufferSize) {calls : List Call} {stream : List UInt8}
    {state : σ} (ha : Answered calls) (hc : (∃ c ∈ calls, c.IsPause) ∨ stream.length < calls.length)
    {r : Handled σ} (hr : readLoop P undef bufferSize who fuel calls state stream = some r) :
    r.exit = .stopped ∨ r.exit = .returned ∧ ∃ c ∈ calls, c.IsPause := by
  induction calls generalizing stream state r with
  | nil => simp at hc
  | cons call calls ih =>
    rw [readLoop] at hr
    rcases ha call (List.mem_cons_self ..) with ⟨k, err, ht⟩ | hp
    · rw [read_of_transfer ht] at hr
      have hread := read_ok (read_of_transfer ht bufferSize stream)
      have hblock : IoResult.operationWouldHaveBlocked
          ⟨min ((k : ℤ) + 1) (min bufferSize stream.length)⟩ = false := by
        simp only [IoResult.operationWouldHaveBlocked, beq_eq_false_iff_ne]
        omega
      dsimp only at hr
      rw [hblock, if_neg (by simp)] at hr
      split at hr
      · cases hr
        exact .inl rfl
      · next h0 =>
        split at hr
        · cases hr
        · obtain ⟨r', hloop, rfl⟩ := Option.map_eq_some_iff.1 hr
          have := hread.2.2.1
          have hc' : (∃ c ∈ calls, c.IsPause) ∨ (stream.drop (IoResult.bytesTransferred
              ⟨min ((k : ℤ) + 1) (min bufferSize stream.length)⟩)).length < calls.length := by
            rcases hc with ⟨c, hc, hpc⟩ | hlt
            · rcases List.mem_cons.1 hc with rfl | hc
              · rw [Call.IsPause, ht] at hpc; cases hpc
              · exact .inl ⟨c, hc, hpc⟩
            · right
              rw [List.length_drop]
              rw [List.length_cons] at hlt
              omega
          rcases ih (fun c hc => ha c (List.mem_cons_of_mem _ hc)) hc' hloop with h | ⟨h, c, hc, hp⟩
          · exact .inl h
          · exact .inr ⟨h, c, List.mem_cons_of_mem _ hc, hp⟩
        · cases hr
          exact .inl rfl
    · rw [read_of_pause hp] at hr
      cases hr
      exact .inr ⟨rfl, call, List.mem_cons_self .., hp⟩

/-! ## Any sequence of activity events -/

/-- The reads of the event are answered until the pipe would block or, if it never does, until
it ends, when there are `n` bytes left. -/
def Wakeup.Complete (n : ℕ) (event : Wakeup) : Prop :=
  event.status.canRead → Answered event.calls ∧
    ((∃ c ∈ event.calls, c.IsPause) ∨ n < event.calls.length)

/-- The event is answered with bytes until there are none left. -/
def Wakeup.Drains (n : ℕ) (event : Wakeup) : Prop :=
  event.status.canRead ∧ (∀ c ∈ event.calls, c.IsTransfer) ∧ n < event.calls.length

theorem Wakeup.Complete.mono {n m : ℕ} {event : Wakeup} (h : event.Complete n) (hm : m ≤ n) :
    event.Complete m := fun hr => ⟨(h hr).1, (h hr).2.imp id fun hn => by omega⟩

theorem handleEvent_spec (hP : P.Implements G) (hB : 0 < bufferSize) (hfuel : bufferSize < fuel)
    (event : Wakeup) {l : List UInt8} (stream : List UInt8) {state : σ} (hs : P.Fed l state) :
    ∃ r, handleEvent P undef bufferSize who fuel event state stream = some r ∧
      if r.exit = .stopped then reference undef G who (l ++ stream) = r.callbacks
      else ∃ l', P.Fed l' r.state ∧ l' ++ r.stream <:+ l ++ stream ∧
        reference undef G who (l ++ stream) =
          r.callbacks ++ reference undef G who (l' ++ r.stream) := by
  unfold handleEvent
  split
  · exact readLoop_spec undef who hP hB hfuel stream hs
  · exact ⟨_, rfl, l, hs, List.suffix_refl _, rfl⟩

theorem readLoop_stream_le {calls : List Call} {stream : List UInt8} {state : σ} {r : Handled σ}
    (hr : readLoop P undef bufferSize who fuel calls state stream = some r) :
    r.stream.length ≤ stream.length := by
  induction calls generalizing stream state r with
  | nil => cases hr; exact le_rfl
  | cons call calls ih =>
    rw [readLoop] at hr
    split at hr
    · cases hr; exact le_rfl
    · cases hr; exact le_rfl
    · split at hr
      · cases hr; exact le_rfl
      · split at hr
        · cases hr; exact le_rfl
        · split at hr
          · cases hr
          · obtain ⟨r', hloop, rfl⟩ := Option.map_eq_some_iff.1 hr
            refine (ih hloop).trans ?_
            rw [List.length_drop]
            omega
          · cases hr
            show (stream.drop _).length ≤ _
            rw [List.length_drop]
            omega

/-- A sequence of calls of `handle_event`, on a parser that has been fed `l`. -/
theorem serve_spec (hP : P.Implements G) (hB : 0 < bufferSize) (hfuel : bufferSize < fuel)
    (events : List Wakeup) {l : List UInt8} (stream : List UInt8) {state : σ}
    (hs : P.Fed l state) :
    ∃ r, serve P undef bufferSize who fuel events state stream = some r ∧
      if r.exit = .stopped then reference undef G who (l ++ stream) = r.callbacks
      else ∃ l', P.Fed l' r.state ∧ l' ++ r.stream <:+ l ++ stream ∧
        reference undef G who (l ++ stream) =
          r.callbacks ++ reference undef G who (l' ++ r.stream) := by
  induction events generalizing l stream state with
  | nil => exact ⟨_, rfl, l, hs, List.suffix_refl _, rfl⟩
  | cons event events ih =>
    obtain ⟨⟨callbacks, state', stream', exit⟩, hrun, hspec⟩ :=
      handleEvent_spec undef who hP hB hfuel event stream hs
    rw [serve, hrun]
    cases exit with
    | stopped => exact ⟨_, rfl, hspec⟩
    | threw e => exact ⟨_, rfl, hspec⟩
    | waiting => exact ⟨_, rfl, hspec⟩
    | returned =>
      obtain ⟨l', hfed, hsuf, href⟩ := hspec
      obtain ⟨r, hserve, hr⟩ := ih stream' hfed
      refine ⟨r.after callbacks, by dsimp only; rw [hserve]; rfl, ?_⟩
      show if r.exit = .stopped then _ else _
      split at hr
      · next hx =>
        rw [if_pos hx, href, hr]
        rfl
      · next hx =>
        obtain ⟨l'', hfed'', hsuf'', href''⟩ := hr
        rw [if_neg hx]
        refine ⟨l'', hfed'', hsuf''.trans hsuf, ?_⟩
        rw [href, href'', ← List.append_assoc]
        rfl

/-- Every call of `handle_event` comes back, and one that is answered with all the bytes left ends
with `stop_listening`. -/
theorem serve_returns (hB : 0 < bufferSize) {events : List Wakeup} {stream : List UInt8} {state : σ}
    (hc : ∀ e ∈ events, e.Complete stream.length) {r : Handled σ}
    (hr : serve P undef bufferSize who fuel events state stream = some r) :
    (r.exit = .returned ∨ r.exit = .stopped) ∧
      ((∃ e ∈ events, e.Drains stream.length) → r.exit = .stopped) := by
  induction events generalizing stream state r with
  | nil => cases hr; exact ⟨.inl rfl, by simp⟩
  | cons event events ih =>
    rw [serve] at hr
    cases hrun : handleEvent P undef bufferSize who fuel event state stream with
    | none => rw [hrun] at hr; cases hr
    | some h =>
      obtain ⟨callbacks, state', stream', exit⟩ := h
      rw [hrun] at hr
      have hev : exit = .stopped ∨ exit = .returned ∧ stream'.length ≤ stream.length ∧
          ¬ event.Drains stream.length := by
        unfold handleEvent at hrun
        split at hrun
        · next hread =>
          obtain ⟨ha, hn⟩ := hc event (List.mem_cons_self ..) hread
          rcases readLoop_returns undef who hB ha hn hrun with h | ⟨h, c, hc, hp⟩
          · exact .inl h
          · refine .inr ⟨h, readLoop_stream_le undef who hrun, fun hd => ?_⟩
            obtain ⟨k, err, ht⟩ := hd.2.1 c hc
            rw [Call.IsPause, ht] at hp
            cases hp
        · next hread =>
          cases hrun
          exact .inr ⟨rfl, le_rfl, fun hd => hread hd.1⟩
      rcases hev with rfl | ⟨rfl, hle, hnd⟩
      · cases hr
        exact ⟨.inr rfl, fun _ => rfl⟩
      · obtain ⟨r', hserve, rfl⟩ := Option.map_eq_some_iff.1 hr
        obtain ⟨h1, h2⟩ :=
          ih (fun e he => (hc e (List.mem_cons_of_mem _ he)).mono hle) hserve
        refine ⟨h1, fun ⟨e, he, hd⟩ => h2 ?_⟩
        rcases List.mem_cons.1 he with rfl | he
        · exact absurd hd hnd
        · exact ⟨e, he, hd.1, hd.2.1, by have := hd.2.2; omega⟩

/-- **The reader makes the calls of the reference**, however the stream is cut into reads and the
reads are spread over calls of `handle_event`.  Its loops end; when it has called `stop_listening`
its calls are exactly the reference's, and before that they are those of the values it has seen
completely, so that the reference for what is left gives the others.  Every call whose reads are
answered comes back, and one that is answered with all the bytes left calls `stop_listening`. -/
theorem serve_eq_reference (hP : P.Implements G) (hB : 0 < bufferSize) (hfuel : bufferSize < fuel)
    (stream : List UInt8) (events : List Wakeup) :
    ∃ r, serve P undef bufferSize who fuel events P.fresh stream = some r ∧
      (r.exit = .stopped → r.callbacks = reference undef G who stream) ∧
      (r.exit ≠ .stopped → ∃ left, left <:+ stream ∧
        reference undef G who stream = r.callbacks ++ reference undef G who left) ∧
      ((∀ e ∈ events, e.Complete stream.length) → (r.exit = .returned ∨ r.exit = .stopped) ∧
        ((∃ e ∈ events, e.Drains stream.length) → r.exit = .stopped)) := by
  obtain ⟨r, hrun, hr⟩ := serve_spec undef who hP hB hfuel events stream .fresh
  refine ⟨r, hrun, fun hx => ?_, fun hx => ?_, fun hc => serve_returns undef who hB hc hrun⟩
  · rw [if_pos hx] at hr
    exact hr.symm
  · rw [if_neg hx] at hr
    obtain ⟨l', -, hsuf, href⟩ := hr
    exact ⟨l' ++ r.stream, hsuf, href⟩

end

/-- A log pipe with an item, an array and the beginning of another item. -/
def exampleStream : List UInt8 :=
  Flat.bytes "\x7b\"when\":1,\"severity\":\"info\",\"message\":\"up\"\x7d [] \x7b\"when\""

/-- The pipe is read in two calls, with interruptions and a pause, until it ends. -/
def drainingEvents (n : ℕ) : List Wakeup :=
  [⟨.read, [⟨1, .transfers 4 0⟩, ⟨0, .fails EAGAIN⟩]⟩, ⟨.read, .replicate n ⟨1, .transfers 2 0⟩⟩]

theorem drainingEvents_drain {n length : ℕ} (h : length < n) :
    (∀ e ∈ drainingEvents n, e.Complete length) ∧ ∃ e ∈ drainingEvents n, e.Drains length := by
  have htransfers : ∀ c ∈ List.replicate n (⟨1, .transfers 2 0⟩ : Call), c.IsTransfer := by
    intro c hc
    exact ⟨2, 0, by rw [List.eq_of_mem_replicate hc]⟩
  refine ⟨?_, _, List.mem_cons_of_mem _ (List.mem_singleton_self _), ?_, htransfers, ?_⟩
  · intro e he _
    rcases List.mem_pair.1 he with rfl | rfl
    · refine ⟨?_, .inl ⟨_, List.mem_cons_of_mem _ (List.mem_singleton_self _), rfl⟩⟩
      intro c hc
      rcases List.mem_pair.1 hc with rfl | rfl
      · exact .inl ⟨4, 0, rfl⟩
      · exact .inr rfl
    · exact ⟨fun c hc => .inl (htransfers c hc), .inr (by rwa [List.length_replicate])⟩
  · show ActivityStatus.read.canRead
    decide
  · rwa [List.length_replicate]

theorem serve_eq_reference_flat :
    ∃ r, serve Flat.automaton.parser (fun _ => 0) 7 "client" 8 (drainingEvents 80)
        Flat.automaton.parser.fresh exampleStream = some r ∧ r.exit = .stopped ∧
      r.callbacks = reference (fun _ => 0) Flat.automaton.grammar "client" exampleStream := by
  obtain ⟨r, hr, hstop, -, hcomplete⟩ := serve_eq_reference (fun _ => 0) "client"
    Flat.automaton.implements (show 0 < 7 by decide) (show 7 < 8 by decide)
    exampleStream (drainingEvents 80)
  have hdrain := drainingEvents_drain (show exampleStream.length < 80 by decide)
  have hexit : r.exit = .stopped := (hcomplete hdrain.1).2 hdrain.2
  exact ⟨r, hr, hexit, hstop hexit⟩

/-- An item may end exactly on the edge of the buffer. -/
example : (serve Flat.automaton.parser (fun _ => 0) 2 "client" 3
    [⟨.read, [⟨0, .transfers 1 0⟩, ⟨2, .transfers 1 0⟩, ⟨0, .transfers 1 0⟩]⟩]
    Flat.automaton.parser.fresh (Flat.bytes "[]\x7b\x7d")).map (·.callbacks) =
    some [.onInvalidLogItem "client" "A log item must be an object",
      .onInvalidLogItem "client"
        "Failed to extract mandatory field `when` from received log item", .stopListening] := by
  decide

end ThePipe.JsonLog
