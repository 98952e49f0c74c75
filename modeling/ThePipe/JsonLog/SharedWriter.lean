import ThePipe.JsonLog.Channel
import ThePipe.Log.Mutex

/-!
# A log writer for several threads

The writers that the contexts of a program refer to are JSON writers here.  A call of `write` is
taken apart into its steps: the serializer fills the output buffer, and a system call writes some
of it out.  Other threads run between any two of them.

* `write_of_run` : the steps of a call that is over come to `write`;
* `threads_delivered` : at the other end of the pipe the log reader gets what all threads have
  logged, one item after the other, also when the last call has not been completed.
-/

set_option autoImplicit false

namespace ThePipe.JsonLog

open Lib Jopp Log OsServices ErrorHandling Io Fd

/-! ## The steps of `write` -/

structure Writer where
  outputFd : ℕ
  bufferSize : ℕ

/-- A call of `write` between two steps. -/
structure Writing (ζ : Type) where
  bufferSize : ℕ
  serializer : ζ
  dataToWrite : List UInt8
  /-- The data ends the serialization. -/
  completed : Bool
  deriving DecidableEq

section

variable {ζ : Type} (S : Serializer ζ)

/-- The next step: it writes, or when nothing is left to be written it serializes more, or it
returns.  Only a system call needs an answer. -/
def Writing.resume (w : Writing ζ) (answer : Option Call) :
    Option (List UInt8 × Progress (Writing ζ)) :=
  match w.dataToWrite, answer with
  | [], none =>
    if w.completed then some ([], .returned)
    else
      let serializeResult := S.serialize w.serializer w.bufferSize
      some ([], .running { w with
        serializer := serializeResult.state
        dataToWrite := serializeResult.piece
        completed := serializeResult.completed })
  | b :: bs, some call =>
    match Io.write (b :: bs) call with
    | none => none
    | some (.error _) => some ([], .threw)
    | some (.ok (writeResult, accepted)) =>
      some (accepted, .running { w with
        dataToWrite := (b :: bs).drop writeResult.bytesTransferred })
  | _, _ => none

/-- The code of the JSON writers. -/
def writerCode (writers : ObjectPtr → Writer) : WriterCode (Writing ζ) (Option Call) UInt8 where
  start object item :=
    { bufferSize := (writers object).bufferSize
      serializer := S.make (toJoppObject item)
      dataToWrite := []
      completed := false }
  resume := Writing.resume S
  sink object := (writers object).outputFd

/-! ## The steps of a call that is over -/

/-- What is left to do for `write`: the rest of a piece, and the pieces after it. -/
def Writing.finish (w : Writing ζ) (fuel : ℕ) (calls : List Call) : Option Written :=
  let written := drain calls w.dataToWrite
  match written.exit with
  | .returned =>
    if w.completed then some written
    else (writeLoop S w.bufferSize fuel w.serializer written.calls).map (·.after written.accepted)
  | _ => some written

variable {S} {writers : ObjectPtr → Writer} {w w' : Writing ζ}

/-- What a step does, by cases. -/
inductive Writing.Step (S : Serializer ζ) : Writing ζ → Option Call → List UInt8 →
    Progress (Writing ζ) → Prop
  | returns {w : Writing ζ} (hdata : w.dataToWrite = []) (hcompleted : w.completed = true) :
      Step S w none [] .returned
  | serializes {w : Writing ζ} (hdata : w.dataToWrite = []) (hcompleted : w.completed = false) :
      Step S w none [] (.running
        ⟨w.bufferSize, (S.serialize w.serializer w.bufferSize).state,
          (S.serialize w.serializer w.bufferSize).piece,
          (S.serialize w.serializer w.bufferSize).completed⟩)
  | throws {w : Writing ζ} {b : UInt8} {bs : List UInt8} {call : Call} {e : SystemError}
      (hdata : w.dataToWrite = b :: bs) (hcall : Io.write (b :: bs) call = some (.error e)) :
      Step S w (some call) [] .threw
  | writes {w : Writing ζ} {b : UInt8} {bs : List UInt8} {call : Call} {io : IoResult}
      {accepted : List UInt8} (hdata : w.dataToWrite = b :: bs)
      (hcall : Io.write (b :: bs) call = some (.ok (io, accepted))) :
      Step S w (some call) accepted
        (.running { w with dataToWrite := (b :: bs).drop io.bytesTransferred })

theorem Writing.resume_cases {answer : Option Call} {piece : List UInt8}
    {progress : Progress (Writing ζ)} (h : w.resume S answer = some (piece, progress)) :
    Step S w answer piece progress := by
  unfold resume at h
  split at h
  · next hdata =>
    split at h
    · next hcompleted =>
      cases h
      exact .returns hdata hcompleted
    · next hcompleted =>
      cases h
      exact .serializes hdata (by simpa using hcompleted)
  · next b bs call hdata =>
    split at h
    · cases h
    · next hcall =>
      cases h
      exact .throws hdata hcall
    · next hcall =>
      cases h
      exact .writes hdata hcall
  · cases h

/-- The calls that a run of steps has made. -/
def systemCalls (answers : List (Option Call)) : List Call := answers.filterMap id

theorem map_after_nil (written : Option Written) : written.map (·.after []) = written := by
  cases written <;> rfl

theorem Writing.finish_serializes (hdata : w.dataToWrite = []) (hcompleted : w.completed = false)
    (fuel : ℕ) (calls : List Call) :
    w.finish S (fuel + 1) calls = Writing.finish S
      ⟨w.bufferSize, (S.serialize w.serializer w.bufferSize).state,
        (S.serialize w.serializer w.bufferSize).piece,
        (S.serialize w.serializer w.bufferSize).completed⟩ fuel calls := by
  simp only [finish, hdata, hcompleted, drain, Bool.false_eq_true, if_false, map_after_nil]
  rfl

theorem Writing.finish_writes {b : UInt8} {bs accepted : List UInt8} {call : Call} {io : IoResult}
    (hdata : w.dataToWrite = b :: bs)
    (hcall : Io.write (b :: bs) call = some (.ok (io, accepted))) (fuel : ℕ) (calls : List Call) :
    w.finish S fuel (call :: calls) =
      (Writing.finish S { w with dataToWrite := (b :: bs).drop io.bytesTransferred } fuel
        calls).map (·.after accepted) := by
  simp only [finish, hdata, drain, hcall]
  have hexit : ∀ written : Written, (written.after accepted).exit = written.exit := fun _ => rfl
  rw [hexit]
  split
  · split
    · rfl
    · rw [Option.map_map]
      refine Option.map_congr fun written _ => ?_
      simp only [Written.after, Function.comp_apply, List.append_assoc]
  · rfl

theorem finish_of_run {answers : List (Option Call)} {output : List UInt8}
    {progress : Progress (Writing ζ)} (hover : progress.IsOver)
    (h : (writerCode S writers).run (.running w) answers = some (output, progress)) :
    ∃ fuel exit, w.finish S fuel (systemCalls answers) = some ⟨output, [], exit⟩ ∧
      (exit = .returned ↔ progress = .returned) := by
  induction answers generalizing w output with
  | nil =>
    cases h
    exact hover.elim
  | cons answer answers ih =>
    simp only [WriterCode.run, Option.bind_eq_some_iff, Option.map_eq_some_iff, Prod.mk.injEq] at h
    obtain ⟨⟨piece, next⟩, hresume, ⟨output', progress'⟩, hrun, rfl, rfl⟩ := h
    cases Writing.resume_cases hresume with
    | returns hdata hcompleted =>
      cases answers with
      | nil =>
        cases hrun
        refine ⟨0, .returned, ?_, by simp⟩
        simp [Writing.finish, hdata, hcompleted, drain, systemCalls]
      | cons answer answers => cases hrun
    | serializes hdata hcompleted =>
      obtain ⟨fuel, exit, hfinish, hexit⟩ := ih hrun
      refine ⟨fuel + 1, exit, ?_, hexit⟩
      change w.finish S (fuel + 1) (systemCalls answers) = _
      rw [Writing.finish_serializes hdata hcompleted]
      exact hfinish
    | @throws b bs call e hdata hcall =>
      cases answers with
      | nil =>
        cases hrun
        refine ⟨0, .threw e, ?_, by simp⟩
        simp [Writing.finish, hdata, drain, systemCalls, hcall]
      | cons answer answers => cases hrun
    | writes hdata hcall =>
      obtain ⟨fuel, exit, hfinish, hexit⟩ := ih hrun
      refine ⟨fuel, exit, ?_, hexit⟩
      change w.finish S fuel (_ :: systemCalls answers) = _
      rw [Writing.finish_writes hdata hcall, hfinish]
      rfl

/-- **The steps come to `write`.**  When the call is over, the system calls that its steps have made
are those of `write`, which has ended in the same way, with the same bytes written. -/
theorem write_of_run {object : ObjectPtr} {item : Item} {answers : List (Option Call)}
    {output : List UInt8} {progress : Progress (Writing ζ)} (hover : progress.IsOver)
    (h : (writerCode S writers).run (.running ((writerCode S writers).start object item)) answers =
      some (output, progress)) :
    ∃ fuel exit, write S (writers object).bufferSize fuel item (systemCalls answers) =
      some ⟨output, [], exit⟩ ∧ (exit = .returned ↔ progress = .returned) := by
  obtain ⟨fuel, exit, hfinish, hexit⟩ := finish_of_run hover h
  refine ⟨fuel, exit, ?_, hexit⟩
  rw [write]
  simpa [Writing.finish, writerCode, drain, map_after_nil] using hfinish

/-! ## What a call writes -/

/-- The call has `text` left to write. -/
def Writing.Rest (S : Serializer ζ) (w : Writing ζ) (text : List UInt8) : Prop :=
  ∃ later, text = w.dataToWrite ++ later ∧
    if w.completed then later = [] else ∃ n, Emits (S.serialize · w.bufferSize) n w.serializer later

theorem Writing.Rest.resume {answer : Option Call} {text piece : List UInt8}
    {progress : Progress (Writing ζ)} (h : w.Rest S text)
    (hresume : w.resume S answer = some (piece, progress)) :
    ∃ text', text = piece ++ text' ∧ (progress = .returned → text' = []) ∧
      ∀ w', progress = .running w' → w'.Rest S text' := by
  obtain ⟨later, rfl, hlater⟩ := h
  cases resume_cases hresume with
  | returns hdata hcompleted =>
    rw [if_pos hcompleted] at hlater
    exact ⟨[], by simp [hdata, hlater], fun _ => rfl, by simp⟩
  | serializes hdata hcompleted =>
    rw [if_neg (by simp [hcompleted])] at hlater
    obtain ⟨n, hemits⟩ := hlater
    refine ⟨later, by simp [hdata], by simp, ?_⟩
    rintro w' ⟨⟩
    cases hemits with
    | last hlast => exact ⟨[], by simp, by simp [hlast]⟩
    | @more n _ l hmore hrest => exact ⟨l, rfl, by simpa [hmore] using ⟨n, hrest⟩⟩
  | throws hdata hcall => exact ⟨_, (List.nil_append _).symm, by simp, by simp⟩
  | @writes b bs call io accepted hdata hcall =>
    refine ⟨(b :: bs).drop io.bytesTransferred ++ later, ?_, by simp, ?_⟩
    · rw [write_ok hcall, ← List.append_assoc, List.take_append_drop, hdata]
    · rintro w' ⟨⟩
      exact ⟨later, rfl, hlater⟩

theorem Writing.Rest.run {answers : List (Option Call)} {text output : List UInt8}
    {progress : Progress (Writing ζ)} (h : w.Rest S text)
    (hrun : (writerCode S writers).run (.running w) answers = some (output, progress)) :
    output <+: text ∧ (progress = .returned → output = text) := by
  induction answers generalizing w text output with
  | nil =>
    cases hrun
    exact ⟨List.nil_prefix, by simp⟩
  | cons answer answers ih =>
    simp only [WriterCode.run, Option.bind_eq_some_iff, Option.map_eq_some_iff,
      Prod.mk.injEq] at hrun
    obtain ⟨⟨piece, next⟩, hresume, ⟨output', progress'⟩, hrun, rfl, rfl⟩ := hrun
    obtain ⟨text', rfl, hreturned, hrest⟩ := h.resume hresume
    cases next with
    | running w' =>
      obtain ⟨hpre, hall⟩ := ih (hrest w' rfl) hrun
      refine ⟨(List.prefix_append_right_inj piece).2 hpre, fun hreturns => ?_⟩
      exact congrArg (piece ++ ·) (hall hreturns)
    | returned =>
      cases answers with
      | nil =>
        cases hrun
        simp [hreturned rfl]
      | cons answer answers => cases hrun
    | threw =>
      cases answers with
      | nil =>
        cases hrun
        exact ⟨by simp, by simp⟩
      | cons answer answers => cases hrun

end

/-! ## What the threads log -/

section

variable {ζ : Type} {S : Serializer ζ} {text : Object → List UInt8} {writers : ObjectPtr → Writer}

abbrev WriterEmission (ζ : Type) := Mutex.Emission (Writing ζ) (Option Call) UInt8

def emissionText (text : Object → List UInt8) (e : WriterEmission ζ) : List UInt8 :=
  text (toJoppObject e.written.item)

theorem output_prefix (hS : S.Prints text) (hsize : ∀ object, 0 < (writers object).bufferSize)
    {e : WriterEmission ζ} {fd : Sink} (hsink : e.sink (writerCode S writers) = some fd)
    (hmade : e.Made (writerCode S writers)) :
    e.output <+: emissionText text e ∧ (e.progress = .returned → e.output = emissionText text e) := by
  obtain ⟨object, hobject, -⟩ := Option.map_eq_some_iff.1 hsink
  have hwrite : e.written.cfg.writer.write (writerCode S writers) e.written.item =
      .running ((writerCode S writers).start object e.written.item) := by
    rw [TypeErasedWriter.write, hobject]
  rw [Mutex.Emission.Made, hwrite] at hmade
  obtain ⟨n, hemits⟩ := hS (toJoppObject e.written.item) _ (hsize object)
  refine Writing.Rest.run (S := S) ?_ hmade
  exact ⟨_, rfl, n, hemits⟩

variable {σ : Type} {P : Parser σ UInt8 Container SyntaxError}
  {G : Grammar UInt8 Container SyntaxError}

def receivedItem (undef : Binary64 → Int64) (item : Item) : Item :=
  { item with when := timePoint undef (secondsSinceEpoch item.when) }

theorem reference_of_texts (undef : Binary64 → Int64) (who : String) {es : List (WriterEmission ζ)}
    (hparse : ∀ e ∈ es, G.front (emissionText text e) =
      .value (emissionText text e).length (.object (toJoppObject e.written.item)))
    (rest : List UInt8) :
    reference undef G who ((es.map (emissionText text)).flatten ++ rest) =
      es.map (fun e => .consume who (receivedItem undef e.written.item)) ++
        reference undef G who rest := by
  have hreport : (es.map fun e => Container.object (toJoppObject e.written.item)).map
      (report undef who) =
        es.map (fun e => .consume who (receivedItem undef e.written.item)) := by
    rw [List.map_map]
    refine List.map_congr_left fun e _ => ?_
    exact report_of_ok (makeLogItem_toJoppObject undef e.written.item)
  unfold reference
  rw [G.cut_flatten_append (emissionText text) (fun e => .object (toJoppObject e.written.item))
    hparse, List.map_append, hreport, List.append_assoc]

theorem reference_of_isOpen (undef : Binary64 → Int64) (who : String) {torn : List UInt8}
    (htorn : (G.front torn).isOpen) :
    ∃ errors, (errors = [] ∨ errors = [.onParseError who .moreDataNeeded]) ∧
      (torn = [] → errors = []) ∧
      reference undef G who torn = errors ++ [.stopListening] := by
  unfold reference
  cases hf : G.front torn with
  | blank =>
    refine ⟨[], .inl rfl, fun _ => rfl, ?_⟩
    rw [Grammar.cut_of_blank hf]
    rfl
  | inside =>
    refine ⟨[.onParseError who .moreDataNeeded], .inr rfl, ?_, ?_⟩
    · rintro rfl
      rw [G.front_nil] at hf
      cases hf
    · rw [Grammar.cut_of_inside hf]
      rfl
  | value n v => rw [hf] at htorn; cases htorn
  | bad e => rw [hf] at htorn; cases htorn

def completed (text : Object → List UInt8) (es : List (WriterEmission ζ)) :
    List (WriterEmission ζ) :=
  es.filter fun e => e.output = emissionText text e

/-- When all calls but the last one have returned, their texts are followed by what the last one has
written of its own, which can be completed. -/
theorem output_split {es : List (WriterEmission ζ)}
    (hreturned : ∀ e ∈ es.dropLast, e.progress = .returned)
    (houtput : ∀ e ∈ es, e.output <+: emissionText text e ∧
      (e.progress = .returned → e.output = emissionText text e))
    (hparse : ∀ e ∈ es, G.front (emissionText text e) =
      .value (emissionText text e).length (.object (toJoppObject e.written.item))) :
    ∃ torn, es.flatMap (·.output) = ((completed text es).map (emissionText text)).flatten ++ torn ∧
      (G.front torn).isOpen ∧ (completed text es = es → torn = []) ∧
        (torn ≠ [] → ∃ rest n v, G.front (torn ++ rest) = .value n v) := by
  rcases List.eq_nil_or_concat es with rfl | ⟨done, last, rfl⟩
  · exact ⟨[], rfl, by rw [G.front_nil]; rfl, fun _ => rfl, fun hne => absurd rfl hne⟩
  rw [List.concat_eq_append] at hreturned houtput hparse ⊢
  rw [List.dropLast_concat] at hreturned
  -- all but the last call have written their texts
  have hdone : ∀ e ∈ done, e.output = emissionText text e := by
    intro e he
    exact (houtput e (List.mem_append_left _ he)).2 (hreturned e he)
  have hfilter : completed text done = done := by
    rw [completed, List.filter_eq_self]
    simpa using hdone
  have hflatten : done.flatMap (·.output) = (done.map (emissionText text)).flatten := by
    rw [List.flatMap_def, List.map_congr_left hdone]
  have hlast := List.mem_append_right done (List.mem_singleton_self last)
  obtain ⟨hpre, -⟩ := houtput last hlast
  by_cases hwhole : last.output = emissionText text last
  · refine ⟨[], ?_, by rw [G.front_nil]; rfl, fun _ => rfl, fun hne => absurd rfl hne⟩
    have hall : completed text (done ++ [last]) = done ++ [last] := by
      rw [completed, List.filter_append, ← completed, hfilter]
      simp [hwhole]
    rw [hall, List.flatMap_append, hflatten]
    simp [hwhole]
  · have hall : completed text (done ++ [last]) = done := by
      rw [completed, List.filter_append, ← completed, hfilter]
      simp [hwhole]
    -- `m` is what the last call still has to write
    obtain ⟨m, hm⟩ := hpre
    have hfront := hparse last hlast
    rw [← hm] at hfront
    refine ⟨last.output, ?_, ?_, ?_, fun _ => ⟨m, _, _, hfront⟩⟩
    · rw [hall, List.flatMap_append, hflatten, List.flatMap_singleton]
    · refine G.isOpen_of_value_append hfront ?_
      have hne : m ≠ [] := by
        rintro rfl
        exact hwhole (by rw [← hm, List.append_nil])
      have hpos := List.length_pos_iff.2 hne
      rw [List.length_append]
      omega
    · intro heq
      rw [hall] at heq
      simp at heq

/-- **What the threads log is delivered.**  Whatever the threads do, and however the writes and the
reads go: of the items that have been written to the pipe the reader consumes one after the other, in
the order of the calls, and then at most reports that the text of the last one is not complete. -/
theorem threads_delivered (undef : Binary64 → Int64) (who : String) (hP : P.Implements G)
    (hS : S.Prints text) (hsize : ∀ object, 0 < (writers object).bufferSize) {readSize : ℕ}
    (hR : 0 < readSize) {initial : Configuration} {ls : List (Mutex.Label (Option Call))}
    {s : Mutex.State (Writing ζ) (Option Call) UInt8}
    (h : (Mutex.threads (writerCode S writers) initial).Reach (fun _ _ => True) ls s) (fd : Sink)
    (hparse : ∀ e ∈ s.emissions, G.front (emissionText text e) =
      .value (emissionText text e).length (.object (toJoppObject e.written.item))) :
    let logged := s.emissions.filter fun e => e.sink (writerCode S writers) = some fd
    (∀ e ∈ logged.dropLast, e.progress = .returned) →
      ∃ errors, (errors = [] ∨ errors = [.onParseError who .moreDataNeeded]) ∧
        (completed text logged = logged → errors = []) ∧
        let whole := (completed text logged).map
          (fun e => .consume who (receivedItem undef e.written.item)) ++
            (errors ++ [.stopListening])
        ∀ events, ∃ r,
          serve P undef readSize who (readSize + 1) events P.fresh (s.accepted fd) = some r ∧
            r.callbacks <+: whole ∧ (r.exit = .stopped → r.callbacks = whole) ∧
            ((∀ e ∈ events, e.Complete (s.accepted fd).length) →
              (∃ e ∈ events, e.Drains (s.accepted fd).length) → r.exit = .stopped) := by
  intro logged hreturned
  obtain ⟨-, -, -, -, hinv⟩ :=
    Mutex.reach_effects (fun _ _ => True) (fun _ _ _ _ _ => trivial) h
  have hlogged : ∀ e ∈ logged, e ∈ s.emissions ∧ e.sink (writerCode S writers) = some fd := by
    intro e he
    simpa [logged] using he
  -- the stream is made of whole texts and of what the last call has written
  obtain ⟨torn, hsplit, htorn, hnil, -⟩ := output_split (G := G) hreturned
    (fun e he => output_prefix hS hsize (hlogged e he).2 (hinv.made e (hlogged e he).1))
    (fun e he => hparse e (hlogged e he).1)
  obtain ⟨errors, herrors, hnone, hend⟩ := reference_of_isOpen undef who htorn
  have href := reference_of_texts (G := G) undef who
    (fun e (he : e ∈ completed text logged) => hparse e (hlogged e (List.mem_of_mem_filter he)).1)
    torn
  rw [hend] at href
  refine ⟨errors, herrors, fun hall => hnone (hnil hall), fun events => ?_⟩
  obtain ⟨r, hr, hspec⟩ :=
    serve_spec undef who hP hR (Nat.lt_succ_self readSize) events (s.accepted fd) .fresh
  have hret := fun hc => (serve_returns undef who hR hc hr).2
  have haccepted : s.accepted fd = logged.flatMap (·.output) := hinv.arrived fd
  rw [List.nil_append, haccepted, hsplit, href] at hspec
  by_cases hstop : r.exit = .stopped
  · rw [if_pos hstop] at hspec
    exact ⟨r, hr, hspec ▸ List.prefix_refl _, fun _ => hspec.symm, hret⟩
  · rw [if_neg hstop] at hspec
    obtain ⟨l', -, -, hleft⟩ := hspec
    exact ⟨r, hr, hleft ▸ List.prefix_append _ _, fun hx => absurd hx hstop, hret⟩

/-- The writer of the context that one thread has constructed is called by another one, which has
written all of its message, and then by the first one, of whose message five bytes have been
written. -/
def twoWriters : List (Mutex.Label (Option Call)) :=
  [⟨0, .call (.create (Context.ofObject 1))⟩, ⟨0, .lock⟩, ⟨0, .save⟩, ⟨0, .assignWriter⟩,
    ⟨0, .assignGenerator⟩, ⟨1, .call (.writeMessage .warning "disk full")⟩, ⟨0, .unlock⟩,
    ⟨1, .lock⟩, ⟨1, .now 0⟩, ⟨1, .write⟩, ⟨0, .call (.writeMessage .error "")⟩, ⟨1, .resume none⟩,
    ⟨1, .resume (some ⟨1, .transfers 80 0⟩)⟩, ⟨1, .resume none⟩, ⟨1, .unlock⟩, ⟨0, .lock⟩,
    ⟨0, .now 0⟩, ⟨0, .write⟩, ⟨0, .resume none⟩, ⟨0, .resume (some ⟨0, .transfers 5 0⟩)⟩]

theorem run_twoWriters :
    ((Mutex.threads (writerCode Flat.serializer fun _ => ⟨2, 80⟩) ⟨⟨none⟩, ⟨none⟩⟩).run
      (fun _ _ => True) ⟨⟨⟨none⟩, ⟨none⟩⟩, none, fun _ => .idle, [], [], fun _ => []⟩ twoWriters).map
        (fun s => decide ((s.accepted 2).length < 80 ∧ s.emissions.map (fun e => (e.written.item,
          e.sink (writerCode Flat.serializer fun _ => ⟨2, 80⟩), decide (e.progress = .returned),
          decide (e.output = emissionText Flat.text e))) =
            [(⟨0, .warning, "disk full"⟩, some 2, true, true),
              (⟨0, .error, ""⟩, some 2, false, false)])) = some true := by
  decide +kernel

theorem front_flat {item : Item} (h : item = ⟨0, .warning, "disk full"⟩ ∨ item = ⟨0, .error, ""⟩) :
    Flat.automaton.grammar.front (Flat.text (toJoppObject item)) =
      .value (Flat.text (toJoppObject item)).length (.object (toJoppObject item)) := by
  rcases h with rfl | rfl
  all_goals
    rw [toJoppObject, secondsSinceEpoch_zero]
    rfl

/-- The first message is delivered, the second one is not complete.  The reader finds the pipe empty
once, and then reads to its end. -/
theorem threads_delivered_twoWriters : ∃ s r errors,
    (Mutex.threads (writerCode Flat.serializer fun _ => ⟨2, 80⟩) ⟨⟨none⟩, ⟨none⟩⟩).Reach
        (fun _ _ => True) twoWriters s ∧
      s.emissions.map (fun e => e.written.item) = [⟨0, .warning, "disk full"⟩, ⟨0, .error, ""⟩] ∧
      serve Flat.automaton.parser (fun _ => 0) 3 "client" 4 (drainingEvents 80)
          Flat.automaton.parser.fresh (s.accepted 2) = some r ∧
      r.exit = .stopped ∧
      (errors = [] ∨ errors = [.onParseError "client" .moreDataNeeded]) ∧
      r.callbacks = .consume "client" ⟨0, .warning, "disk full"⟩ :: (errors ++ [.stopListening]) := by
  obtain ⟨s, hs, hlast⟩ := Lts.Reach.exists_of_map_run rfl run_twoWriters
  obtain ⟨hshort, hemissions⟩ := of_decide_eq_true hlast
  obtain ⟨first, last, heq⟩ : ∃ first last, s.emissions = [first, last] :=
    List.length_eq_two.1 (by simpa using congrArg List.length hemissions)
  rw [heq] at hemissions
  simp only [List.map_cons, List.map_nil, List.cons.injEq, Prod.mk.injEq, decide_eq_true_eq,
    decide_eq_false_iff_not, and_true] at hemissions
  obtain ⟨⟨hfirst, hsink, hreturned, hwhole⟩, hlast, hsink', -, htorn⟩ := hemissions
  have hlogged : s.emissions.filter (fun e =>
      e.sink (writerCode Flat.serializer fun _ => ⟨2, 80⟩) = some 2) = [first, last] := by
    simp [heq, hsink, hsink']
  obtain ⟨errors, herrors, -, hserve⟩ := threads_delivered (fun _ => 0) "client"
    Flat.automaton.implements Flat.serializer_prints (fun _ => show 0 < 80 by decide)
    (show 0 < 3 by decide) hs 2
    (by
      intro e he
      rw [heq, List.mem_pair] at he
      rw [emissionText]
      rcases he with rfl | rfl
      · exact front_flat (.inl hfirst)
      · exact front_flat (.inr hlast))
    (by
      rw [hlogged]
      simpa using hreturned)
  have hcompleted : completed Flat.text [first, last] = [first] := by
    simp [completed, hwhole, htorn]
  rw [hlogged, hcompleted] at hserve
  obtain ⟨r, hr, -, hstop, hcomplete⟩ := hserve (drainingEvents 80)
  have hdrain := drainingEvents_drain hshort
  have hexit : r.exit = .stopped := hcomplete hdrain.1 hdrain.2
  refine ⟨s, r, errors, hs, by simp [heq, hfirst, hlast], hr, hexit, herrors, ?_⟩
  rw [hstop hexit, List.map_singleton, hfirst, receivedItem, secondsSinceEpoch_zero, timePoint_zero]
  rfl

end

end ThePipe.JsonLog
