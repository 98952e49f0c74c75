import ThePipe.Lib.Linearization
import ThePipe.Log.Context

/-!
# The log, shared by threads

`configure` and `write_message` are taken apart into what one thread does between two others: the
mutex is locked, the configuration is saved and assigned a member at a time, the time stamp is
asked for, the writer is called and puts out its text piece by piece, the mutex is unlocked.

* `linearizable` : every run comes to one in which each operation is a single step of `Context`;
* `called_alive` : as long as the contexts nest, the writer that is running belongs to a context
  that is alive, until it has returned;
* `output_whole` : what a writer puts out is not mixed with what another thread logs.
-/

set_option autoImplicit false

namespace ThePipe.Log

open Lib

/-! ## Writers -/

/-- Where the output of writers goes. -/
abbrev Sink := ℕ

/-- How far a call of `write` is. -/
inductive Progress (ω : Type)
  | running (w : ω)
  | returned
  | threw
  deriving DecidableEq

def Progress.IsOver {ω : Type} : Progress ω → Prop
  | .running _ => False
  | .returned | .threw => True

/-- The code of the writers, each of which is known by its address. -/
structure WriterCode (ω κ β : Type) where
  /-- The call of `write` begins. -/
  start : ObjectPtr → Item → ω
  /-- The next step of the call, with an answer of the environment: what is put out in it. -/
  resume : ω → κ → Option (List β × Progress ω)
  sink : ObjectPtr → Sink

variable {ω κ β : Type}

/-- `write`; the null writer returns at once. -/
def TypeErasedWriter.write (code : WriterCode ω κ β) (writer : TypeErasedWriter) (item : Item) :
    Progress ω :=
  match writer.object with
  | none => .returned
  | some object => .running (code.start object item)

/-- The steps of a call that is not disturbed: what is put out, and how far it is. -/
def WriterCode.run (code : WriterCode ω κ β) : Progress ω → List κ → Option (List β × Progress ω)
  | progress, [] => some ([], progress)
  | .running w, answer :: answers =>
    (code.resume w answer).bind fun r =>
      (run code r.2 answers).map fun r' => (r.1 ++ r'.1, r'.2)
  | .returned, _ :: _ | .threw, _ :: _ => none

theorem WriterCode.run_concat {code : WriterCode ω κ β} {progress progress' : Progress ω}
    {answers : List κ} {answer : κ} {w : ω} {output piece : List β}
    (h : code.run progress answers = some (output, .running w))
    (hresume : code.resume w answer = some (piece, progress')) :
    code.run progress (answers ++ [answer]) = some (output ++ piece, progress') := by
  induction answers generalizing progress output with
  | nil =>
    cases h
    simp [run, hresume]
  | cons a answers ih =>
    cases progress with
    | running w' =>
      simp only [run, Option.bind_eq_some_iff, Option.map_eq_some_iff, Prod.mk.injEq] at h
      obtain ⟨r, hr, ⟨output', progress₁⟩, hrest, rfl, rfl⟩ := h
      simp [run, hr, ih hrest]
    | returned => cases h
    | threw => cases h

theorem TypeErasedTimestampGenerator.now_now (generator : TypeErasedTimestampGenerator)
    (time : Int64) : generator.now (generator.now time) = generator.now time := by
  unfold TypeErasedTimestampGenerator.now
  split <;> rfl

namespace Mutex

/-! ## The threads -/

/-- An operation on the log: a context is constructed or destroyed, or a message is written. -/
inductive Operation
  | create (cfg : Configuration)
  /-- Of the newest context of the thread. -/
  | destroy
  | writeMessage (severity : Severity) (message : String)
  deriving DecidableEq

/-- What `configure` is called by. -/
inductive Caller
  | constructor
  | destructor
  deriving DecidableEq

def Caller.operation (caller : Caller) (cfg : Configuration) : Operation :=
  match caller with
  | .constructor => .create cfg
  | .destructor => .destroy

/-- Where a thread is. -/
inductive Pc (ω : Type)
  | idle
  | waiting (op : Operation)
  /-- In `configure`, before `std::exchange`. -/
  | saving (caller : Caller) (cfg : Configuration)
  | assigningWriter (caller : Caller) (cfg oldCfg : Configuration)
  | assigningGenerator (caller : Caller) (cfg oldCfg : Configuration)
  /-- In `write_message`, before the call of `now`. -/
  | stamping (severity : Severity) (message : String)
  | handingOver (item : Item)
  /-- The call of `write` with this number runs on `object`. -/
  | writing (object : ObjectPtr) (call : ℕ) (w : ω)
  /-- The operation is done, or an exception leaves it. -/
  | unlocking
  deriving DecidableEq

/-- The mutex is held. -/
def Pc.Holds : Pc ω → Prop
  | .idle | .waiting _ => False
  | _ => True

def Pc.ofProgress (object : ObjectPtr) (call : ℕ) : Progress ω → Pc ω
  | .running w => .writing object call w
  | .returned | .threw => .unlocking

/-- A call of `write`: the answers it has got, and what it has put out. -/
structure Emission (ω κ β : Type) where
  written : Context.Written
  answers : List κ
  output : List β
  progress : Progress ω

/-- The call has got an answer. -/
def Emission.resumed (answer : κ) (output : List β) (progress : Progress ω)
    (e : Emission ω κ β) : Emission ω κ β :=
  { e with answers := e.answers ++ [answer], output := e.output ++ output, progress := progress }

/-- Where its output goes; the null writer has none. -/
def Emission.sink (code : WriterCode ω κ β) (e : Emission ω κ β) : Option Sink :=
  e.written.cfg.writer.object.map code.sink

structure State (ω κ β : Type) where
  logCfg : Configuration
  logMutex : Option Thread
  pc : Thread → Pc ω
  /-- The contexts that are alive, the one whose constructor came last first. -/
  contexts : List Context
  emissions : List (Emission ω κ β)
  /-- What has arrived at a sink. -/
  accepted : Sink → List β

inductive Action (κ : Type)
  | call (op : Operation)
  | lock
  | save
  | assignWriter
  | assignGenerator
  | now (time : Int64)
  | write
  | resume (answer : κ)
  | unlock
  deriving DecidableEq

structure Label (κ : Type) where
  thread : Thread
  action : Action κ
  deriving DecidableEq

namespace State

variable (s : State ω κ β)

def goto (thread : Thread) (pc : Pc ω) : State ω κ β :=
  { s with pc := Function.update s.pc thread pc }

/-- The newest context of a thread. -/
def newest (thread : Thread) : Option Context := s.contexts.find? fun c => c.thread = thread

/-- The mutex has been locked: `configure` gets the configuration that the operation passes to
it. -/
def locked (thread : Thread) : Operation → Option (Pc ω)
  | .create cfg => some (.saving .constructor cfg)
  | .destroy => (s.newest thread).map fun c => .saving .destructor c.oldCfg
  | .writeMessage severity message => some (.stamping severity message)

/-- The contexts that are alive after `configure`. -/
def afterConfigure (thread : Thread) (caller : Caller) (cfg oldCfg : Configuration) :
    List Context :=
  match caller with
  | .constructor => ⟨thread, cfg, oldCfg⟩ :: s.contexts
  | .destructor => s.contexts.eraseP fun c => c.thread = thread

/-- Only a thread that has a context can destroy one. -/
def MayCall (thread : Thread) (op : Operation) : Prop :=
  op = .destroy → (s.newest thread).isSome

instance (thread : Thread) (op : Operation) : Decidable (s.MayCall thread op) := by
  unfold MayCall
  infer_instance

end State

/-- A thread takes a step. -/
def step (code : WriterCode ω κ β) (s : State ω κ β) (l : Label κ) : Option (State ω κ β) :=
  match s.pc l.thread, l.action with
  | .idle, .call op =>
    if s.MayCall l.thread op then some (s.goto l.thread (.waiting op)) else none
  | .waiting op, .lock =>
    if s.logMutex = none then
      (s.locked l.thread op).map fun pc =>
        State.goto { s with logMutex := some l.thread } l.thread pc
    else none
  | .saving caller cfg, .save =>
    some (s.goto l.thread (.assigningWriter caller cfg s.logCfg))
  | .assigningWriter caller cfg oldCfg, .assignWriter =>
    some (State.goto { s with logCfg := { s.logCfg with writer := cfg.writer } } l.thread
      (.assigningGenerator caller cfg oldCfg))
  | .assigningGenerator caller cfg oldCfg, .assignGenerator =>
    some (State.goto { s with
      logCfg := { s.logCfg with timestampGenerator := cfg.timestampGenerator }
      contexts := s.afterConfigure l.thread caller cfg oldCfg } l.thread .unlocking)
  | .stamping severity message, .now time =>
    some (s.goto l.thread (.handingOver
      { when := s.logCfg.timestampGenerator.now time, severity := severity, message := message }))
  | .handingOver item, .write =>
    let progress := s.logCfg.writer.write code item
    let pc := match s.logCfg.writer.object with
      | none => .unlocking
      | some object => .ofProgress object s.emissions.length progress
    some (State.goto { s with
      emissions := s.emissions ++
        [⟨⟨item, s.logCfg, s.contexts.map (·.cfg)⟩, [], [], progress⟩] } l.thread pc)
  | .writing object call w, .resume answer =>
    (code.resume w answer).map fun r =>
      State.goto { s with
        emissions := s.emissions.modify call (Emission.resumed answer r.1 r.2)
        accepted := Function.update s.accepted (code.sink object)
          (s.accepted (code.sink object) ++ r.1) } l.thread (.ofProgress object call r.2)
  | .unlocking, .unlock => some (State.goto { s with logMutex := none } l.thread .idle)
  | _, _ => none

/-- The threads, of which none has logged anything, with a configuration in force. -/
def threads (code : WriterCode ω κ β) (initial : Configuration) : Lts (State ω κ β) (Label κ) where
  init s := s = ⟨initial, none, fun _ => .idle, [], [], fun _ => []⟩
  step := step code

/-! ## What a step does -/

section

variable {code : WriterCode ω κ β}

variable (code) in
/-- What a step does, by cases. -/
inductive Step : State ω κ β → Label κ → State ω κ β → Prop
  | call {s : State ω κ β} {t : Thread} {op : Operation} (hpc : s.pc t = .idle)
      (hmay : s.MayCall t op) : Step s ⟨t, .call op⟩ (s.goto t (.waiting op))
  | lock {s : State ω κ β} {t : Thread} {op : Operation} {pc : Pc ω} (hpc : s.pc t = .waiting op)
      (hfree : s.logMutex = none) (hlocked : s.locked t op = some pc) :
      Step s ⟨t, .lock⟩ (State.goto { s with logMutex := some t } t pc)
  | save {s : State ω κ β} {t : Thread} {caller : Caller} {cfg : Configuration}
      (hpc : s.pc t = .saving caller cfg) :
      Step s ⟨t, .save⟩ (s.goto t (.assigningWriter caller cfg s.logCfg))
  | assignWriter {s : State ω κ β} {t : Thread} {caller : Caller} {cfg oldCfg : Configuration}
      (hpc : s.pc t = .assigningWriter caller cfg oldCfg) :
      Step s ⟨t, .assignWriter⟩ (State.goto { s with
        logCfg := { s.logCfg with writer := cfg.writer } } t
          (.assigningGenerator caller cfg oldCfg))
  | assignGenerator {s : State ω κ β} {t : Thread} {caller : Caller} {cfg oldCfg : Configuration}
      (hpc : s.pc t = .assigningGenerator caller cfg oldCfg) :
      Step s ⟨t, .assignGenerator⟩ (State.goto { s with
        logCfg := { s.logCfg with timestampGenerator := cfg.timestampGenerator }
        contexts := s.afterConfigure t caller cfg oldCfg } t .unlocking)
  | now {s : State ω κ β} {t : Thread} {severity : Severity} {message : String} {time : Int64}
      (hpc : s.pc t = .stamping severity message) :
      Step s ⟨t, .now time⟩ (s.goto t
        (.handingOver ⟨s.logCfg.timestampGenerator.now time, severity, message⟩))
  | writeNull {s : State ω κ β} {t : Thread} {item : Item} (hpc : s.pc t = .handingOver item)
      (hnull : s.logCfg.writer.object = none) :
      Step s ⟨t, .write⟩ (State.goto { s with
        emissions := s.emissions ++
          [⟨⟨item, s.logCfg, s.contexts.map (·.cfg)⟩, [], [], .returned⟩] } t .unlocking)
  | write {s : State ω κ β} {t : Thread} {item : Item} {object : ObjectPtr}
      (hpc : s.pc t = .handingOver item) (hobject : s.logCfg.writer.object = some object) :
      Step s ⟨t, .write⟩ (State.goto { s with
        emissions := s.emissions ++
          [⟨⟨item, s.logCfg, s.contexts.map (·.cfg)⟩, [], [],
            .running (code.start object item)⟩] } t
          (.writing object s.emissions.length (code.start object item)))
  | resume {s : State ω κ β} {t : Thread} {object : ObjectPtr} {call : ℕ} {w : ω} {answer : κ}
      {piece : List β} {progress : Progress ω} (hpc : s.pc t = .writing object call w)
      (hresume : code.resume w answer = some (piece, progress)) :
      Step s ⟨t, .resume answer⟩ (State.goto { s with
        emissions := s.emissions.modify call (Emission.resumed answer piece progress)
        accepted := Function.update s.accepted (code.sink object)
          (s.accepted (code.sink object) ++ piece) } t (.ofProgress object call progress))
  | unlock {s : State ω κ β} {t : Thread} (hpc : s.pc t = .unlocking) :
      Step s ⟨t, .unlock⟩ (State.goto { s with logMutex := none } t .idle)

theorem step_cases {s s' : State ω κ β} {l : Label κ} (h : step code s l = some s') :
    Step code s l s' := by
  obtain ⟨t, action⟩ := l
  unfold step at h
  dsimp only at h
  split at h
  · next hpc =>
    rw [Option.ite_none_right_eq_some, Option.some.injEq] at h
    obtain ⟨hmay, rfl⟩ := h
    exact .call hpc hmay
  · next hpc =>
    rw [Option.ite_none_right_eq_some, Option.map_eq_some_iff] at h
    obtain ⟨hfree, pc, hlocked, rfl⟩ := h
    exact .lock hpc hfree hlocked
  · next hpc =>
    cases h
    exact .save hpc
  · next hpc =>
    cases h
    exact .assignWriter hpc
  · next hpc =>
    cases h
    exact .assignGenerator hpc
  · next hpc =>
    cases h
    exact .now hpc
  · next hpc =>
    cases h
    cases hobject : s.logCfg.writer.object with
    | none => simpa [TypeErasedWriter.write, hobject] using Step.writeNull hpc hobject
    | some object =>
      simpa [TypeErasedWriter.write, hobject, Pc.ofProgress] using Step.write hpc hobject
  · next hpc =>
    obtain ⟨⟨piece, progress⟩, hresume, rfl⟩ := Option.map_eq_some_iff.1 h
    exact .resume hpc hresume
  · next hpc =>
    cases h
    exact .unlock hpc
  · cases h

theorem Step.accepted_grows {s s' : State ω κ β} {l : Label κ} (h : Step code s l s')
    (sink : Sink) : s.accepted sink <+: s'.accepted sink := by
  cases h with
  | @resume t object call w answer piece progress hpc hresume =>
    show _ <+: Function.update s.accepted (code.sink object) _ sink
    by_cases hsink : sink = code.sink object
    · rw [hsink, Function.update_self]
      exact List.prefix_append _ _
    · simp [Function.update_of_ne hsink]
  | _ => exact List.prefix_refl _

end

/-! ## The atomic log -/

namespace State

variable (s : State ω κ β)

/-- Where the thread is that holds the mutex. -/
def current : Pc ω :=
  match s.logMutex with
  | none => .idle
  | some thread => s.pc thread

/-- The configuration in force: while `log_cfg` is assigned member by member, the old one. -/
def inForce : Configuration :=
  match s.current with
  | .assigningGenerator _ _ oldCfg => oldCfg
  | _ => s.logCfg

/-- The atomic log that the other threads see. -/
def abs : Context.State := ⟨s.inForce, s.contexts, s.emissions.map (·.written)⟩

/-- The step of the atomic log that a step comes to. -/
def effect (l : Label κ) : Option Context.Label :=
  match s.pc l.thread, l.action with
  | .assigningGenerator .constructor cfg _, .assignGenerator => some (.create l.thread cfg)
  | .assigningGenerator .destructor _ _, .assignGenerator => some (.destroy l.thread)
  | .handingOver item, .write =>
    some (.writeMessage l.thread item.when item.severity item.message)
  | _, _ => none

end State

def Pc.stage : Pc ω → Stage Operation
  | .idle => .idle
  | .waiting op => .called op
  | .saving caller cfg | .assigningWriter caller cfg _ | .assigningGenerator caller cfg _ =>
    .called (caller.operation cfg)
  | .stamping severity message => .called (.writeMessage severity message)
  | .handingOver item => .called (.writeMessage item.severity item.message)
  | .writing _ _ _ | .unlocking => .effected

/-- How the threads see the steps of the log. -/
def interface : Interface (Label κ) Context.Label Thread Operation where
  thread := Label.thread
  event l :=
    match l.action with
    | .call op => some (.call op)
    | .unlock => some .return
    | _ => none
  operation k :=
    match k with
    | .create thread cfg => (thread, .create cfg)
    | .destroy thread => (thread, .destroy)
    | .writeMessage thread _ severity message => (thread, .writeMessage severity message)

/-! ## The invariant -/

namespace State

/-- A destructor passes on what its context has saved. -/
def Given (s : State ω κ β) (caller : Caller) (cfg : Configuration) : Prop :=
  caller = .destructor → ∀ t ∈ s.logMutex, (s.newest t).map (·.oldCfg) = some cfg

/-- No call of `write` is under way. -/
def AllOver (s : State ω κ β) : Prop := ∀ e ∈ s.emissions, e.progress.IsOver

/-- What holds when the thread that has locked the mutex is there. -/
def Fits (s : State ω κ β) : Pc ω → Prop
  | .saving caller cfg => s.Given caller cfg ∧ s.AllOver
  | .assigningWriter caller cfg oldCfg => oldCfg = s.logCfg ∧ s.Given caller cfg ∧ s.AllOver
  | .assigningGenerator caller cfg _ =>
    s.logCfg.writer = cfg.writer ∧ s.Given caller cfg ∧ s.AllOver
  | .handingOver item => s.logCfg.timestampGenerator.now item.when = item.when ∧ s.AllOver
  | .writing object call w =>
    s.logCfg.writer.object = some object ∧ ∃ finished e, s.emissions = finished ++ [e] ∧
      call = finished.length ∧ e.progress = .running w ∧ e.written.cfg = s.logCfg ∧
        ∀ e ∈ finished, e.progress.IsOver
  | .idle | .waiting _ | .stamping _ _ | .unlocking => s.AllOver

/-- The mutex is held by the thread that has locked it, and by no other one. -/
def Exclusive (s : State ω κ β) : Prop := ∀ t, (s.pc t).Holds ↔ s.logMutex = some t

end State

/-- The call has put out what it puts out when it is not disturbed. -/
def Emission.Made (code : WriterCode ω κ β) (e : Emission ω κ β) : Prop :=
  code.run (e.written.cfg.writer.write code e.written.item) e.answers = some (e.output, e.progress)

/-- What has arrived at a sink is what the calls have put out, one after the other. -/
def State.Arrived (code : WriterCode ω κ β) (s : State ω κ β) : Prop :=
  ∀ sink, s.accepted sink =
    (s.emissions.filter fun e => e.sink code = some sink).flatMap (·.output)

structure State.Inv (code : WriterCode ω κ β) (s : State ω κ β) : Prop where
  exclusive : s.Exclusive
  fits : s.Fits s.current
  made : ∀ e ∈ s.emissions, e.Made code
  arrived : s.Arrived code

section Steps

variable {code : WriterCode ω κ β} {s s' : State ω κ β} {t : Thread} {pc : Pc ω}

theorem State.Exclusive.holder (h : s.Exclusive) (hpc : s.pc t = pc) (hholds : pc.Holds) :
    s.logMutex = some t ∧ s.current = pc := by
  have hmutex : s.logMutex = some t := (h t).1 (hpc ▸ hholds)
  refine ⟨hmutex, ?_⟩
  rw [State.current, hmutex]
  exact hpc

theorem current_of_free (hfree : s.logMutex = none) : s.current = .idle := by
  rw [State.current, hfree]

theorem State.Exclusive.goto (h : s.Exclusive) (hpc : pc.Holds ↔ (s.pc t).Holds) :
    (s.goto t pc).Exclusive := by
  intro t'
  show (Function.update s.pc t pc t').Holds ↔ s.logMutex = some t'
  by_cases ht : t' = t
  · subst ht
    rw [Function.update_self, hpc, h t']
  · rw [Function.update_of_ne ht, h t']

theorem State.Exclusive.lock (h : s.Exclusive) (hfree : s.logMutex = none) (hpc : pc.Holds) :
    State.Exclusive (State.goto { s with logMutex := some t } t pc) := by
  intro t'
  show (Function.update s.pc t pc t').Holds ↔ some t = some t'
  by_cases ht : t' = t
  · subst ht
    simpa using hpc
  · rw [Function.update_of_ne ht, h t', hfree]
    simp [Ne.symm ht]

theorem State.Exclusive.unlock (h : s.Exclusive) (hmutex : s.logMutex = some t) :
    State.Exclusive (State.goto { s with logMutex := none } t .idle) := by
  intro t'
  show (Function.update s.pc t .idle t').Holds ↔ none = some t'
  by_cases ht : t' = t
  · subst ht
    simp [Pc.Holds]
  · rw [Function.update_of_ne ht, h t', hmutex]
    simp [Ne.symm ht]

theorem current_goto_of_holder (hmutex : s.logMutex = some t) : (s.goto t pc).current = pc := by
  rw [State.current, show (s.goto t pc).logMutex = some t from hmutex]
  exact Function.update_self ..

theorem current_goto_of_ne (hmutex : s.logMutex ≠ some t) :
    (s.goto t pc).current = s.current := by
  unfold State.current
  show (match s.logMutex with | none => _ | some t' => Function.update s.pc t pc t') = _
  cases hm : s.logMutex with
  | none => rfl
  | some t' =>
    refine Function.update_of_ne ?_ _ _
    rintro rfl
    exact hmutex hm

theorem fits_goto (hmutex : s.logMutex = some t) (h : (s.goto t pc).Fits pc) :
    (s.goto t pc).Fits (s.goto t pc).current := by
  rw [current_goto_of_holder hmutex]
  exact h

theorem holds_of_locked {op : Operation} (h : s.locked t op = some pc) : pc.Holds := by
  cases op with
  | create cfg => cases h; trivial
  | destroy =>
    obtain ⟨c, -, rfl⟩ := Option.map_eq_some_iff.1 h
    trivial
  | writeMessage severity message => cases h; trivial

theorem State.Arrived.append {e : Emission ω κ β} (h : s.Arrived code) (hemissions : s'.emissions =
    s.emissions ++ [e]) (houtput : e.output = []) (haccepted : s'.accepted = s.accepted) :
    s'.Arrived code := by
  intro sink
  rw [haccepted, h sink, hemissions, List.filter_append, List.flatMap_append,
    List.self_eq_append_right, List.flatMap_eq_nil_iff]
  intro e' he'
  obtain rfl := List.mem_singleton.1 (List.mem_filter.1 he').1
  exact houtput

theorem modify_last {α : Type*} (xs : List α) (x : α) (f : α → α) :
    (xs ++ [x]).modify xs.length f = xs ++ [f x] := by
  induction xs with
  | nil => rfl
  | cons y ys ih => simpa using ih

theorem State.Arrived.resume {finished : List (Emission ω κ β)} {e : Emission ω κ β}
    {object : ObjectPtr} {answer : κ} {piece : List β} {progress : Progress ω}
    (h : s.Arrived code) (hemissions : s.emissions = finished ++ [e])
    (hobject : e.written.cfg.writer.object = some object)
    (hemissions' : s'.emissions = finished ++ [e.resumed answer piece progress])
    (haccepted : s'.accepted = Function.update s.accepted (code.sink object)
      (s.accepted (code.sink object) ++ piece)) : s'.Arrived code := by
  have hsink : e.sink code = some (code.sink object) := by rw [Emission.sink, hobject]; rfl
  have hsink' : (e.resumed answer piece progress).sink code = some (code.sink object) := hsink
  intro sink
  have hold := h sink
  rw [hemissions, List.filter_append, List.flatMap_append] at hold
  rw [haccepted, hemissions', List.filter_append, List.flatMap_append]
  by_cases heq : sink = code.sink object
  · subst heq
    rw [Function.update_self, hold]
    simp only [List.filter_singleton, hsink, hsink', decide_true, cond_true, List.flatMap_singleton,
      List.append_assoc]
    rfl
  · rw [Function.update_of_ne heq, hold]
    simp [hsink, hsink', Ne.symm heq]

theorem State.Inv.holder (h : s.Inv code) (hpc : s.pc t = pc) (hholds : pc.Holds) :
    s.logMutex = some t ∧ s.Fits pc := by
  obtain ⟨hmutex, hcurrent⟩ := h.exclusive.holder hpc hholds
  refine ⟨hmutex, ?_⟩
  rw [← hcurrent]
  exact h.fits

theorem State.Inv.not_holder (h : s.Inv code) (hpc : s.pc t = pc) (hholds : ¬ pc.Holds) :
    s.logMutex ≠ some t := by
  intro hmutex
  apply hholds
  rw [← hpc]
  exact (h.exclusive t).2 hmutex

theorem fits_of_locked {op : Operation} (hover : s.AllOver) (h : s.locked t op = some pc) :
    State.Fits (State.goto { s with logMutex := some t } t pc) pc := by
  cases op with
  | create cfg =>
    cases h
    exact ⟨by simp [State.Given], hover⟩
  | destroy =>
    obtain ⟨c, hnewest, rfl⟩ := Option.map_eq_some_iff.1 h
    refine ⟨?_, hover⟩
    rintro - t' ht'
    cases ht'
    exact congrArg (Option.map _) hnewest
  | writeMessage severity message =>
    cases h
    exact hover

theorem State.AllOver.append {e : Emission ω κ β} (h : s.AllOver) (he : e.progress.IsOver) :
    ∀ e' ∈ s.emissions ++ [e], e'.progress.IsOver := by
  intro e' he'
  rcases List.mem_append.1 he' with he' | he'
  · exact h e' he'
  · obtain rfl := List.mem_singleton.1 he'
    exact he

theorem fits_of_resumed {finished : List (Emission ω κ β)} {e : Emission ω κ β}
    {object : ObjectPtr} {answer : κ} {piece : List β} {progress : Progress ω}
    (hobject : s.logCfg.writer.object = some object) (hcfg : e.written.cfg = s.logCfg)
    (hover : ∀ e ∈ finished, e.progress.IsOver)
    (hemissions : s.emissions = finished ++ [e.resumed answer piece progress]) :
    s.Fits (.ofProgress object finished.length progress) := by
  cases progress with
  | running w => exact ⟨hobject, finished, _, hemissions, rfl, rfl, hcfg, hover⟩
  | returned | threw =>
    intro e' he'
    rw [hemissions] at he'
    rcases List.mem_append.1 he' with he' | he'
    · exact hover e' he'
    · obtain rfl := List.mem_singleton.1 he'
      trivial

theorem State.Fits.over (h : s.Fits pc) {finished : List (Emission ω κ β)} {e : Emission ω κ β}
    (hemissions : s.emissions = finished ++ [e]) : ∀ e' ∈ finished, e'.progress.IsOver := by
  have hall : s.AllOver → ∀ e' ∈ finished, e'.progress.IsOver := by
    intro hover e' he'
    exact hover e' (hemissions ▸ List.mem_append_left _ he')
  cases pc with
  | writing object call w =>
    obtain ⟨-, finished', e', hemissions', -, -, -, hover⟩ := h
    obtain ⟨rfl, rfl⟩ := List.append_singleton_inj.1 (hemissions.symm.trans hemissions')
    exact hover
  | saving | handingOver => exact hall h.2
  | assigningWriter | assigningGenerator => exact hall h.2.2
  | _ => exact hall h

theorem State.Inv.step (h : s.Inv code) {l : Label κ} (hs : Step code s l s') : s'.Inv code := by
  cases hs with
  | @call t op hpc _ =>
    refine ⟨h.exclusive.goto (by simp [hpc, Pc.Holds]), ?_, h.made, h.arrived⟩
    rw [current_goto_of_ne (h.not_holder hpc id)]
    exact h.fits
  | @lock t op pc hpc hfree hlocked =>
    -- whoever locks a free mutex finds everything in its place
    have hfits := h.fits
    rw [current_of_free hfree] at hfits
    refine ⟨h.exclusive.lock hfree (holds_of_locked hlocked), ?_, h.made, h.arrived⟩
    exact fits_goto rfl (fits_of_locked hfits hlocked)
  | @save t caller cfg hpc =>
    obtain ⟨hmutex, hfits⟩ := h.holder hpc trivial
    refine ⟨h.exclusive.goto (by simp [hpc, Pc.Holds]), ?_, h.made, h.arrived⟩
    exact fits_goto hmutex ⟨rfl, hfits⟩
  | @assignWriter t caller cfg oldCfg hpc =>
    obtain ⟨hmutex, hfits⟩ := h.holder hpc trivial
    refine ⟨h.exclusive.goto (by simp [hpc, Pc.Holds]), ?_, h.made, h.arrived⟩
    exact fits_goto hmutex ⟨rfl, hfits.2⟩
  | @assignGenerator t caller cfg oldCfg hpc =>
    obtain ⟨hmutex, hfits⟩ := h.holder hpc trivial
    refine ⟨h.exclusive.goto (by simp [hpc, Pc.Holds]), ?_, h.made, h.arrived⟩
    exact fits_goto hmutex hfits.2.2
  | @now t severity message time hpc =>
    obtain ⟨hmutex, hfits⟩ := h.holder hpc trivial
    refine ⟨h.exclusive.goto (by simp [hpc, Pc.Holds]), ?_, h.made, h.arrived⟩
    exact fits_goto hmutex ⟨TypeErasedTimestampGenerator.now_now _ time, hfits⟩
  | @writeNull t item hpc hnull =>
    obtain ⟨hmutex, hfits⟩ := h.holder hpc trivial
    refine ⟨h.exclusive.goto (by simp [hpc, Pc.Holds]), ?_, ?_, h.arrived.append rfl rfl rfl⟩
    · -- without a writer the call is over as soon as it has begun
      exact fits_goto hmutex (hfits.2.append trivial)
    · intro e he
      rcases List.mem_append.1 he with he | he
      · exact h.made e he
      · obtain rfl := List.mem_singleton.1 he
        simp [Emission.Made, TypeErasedWriter.write, hnull, WriterCode.run]
  | @write t item object hpc hobject =>
    obtain ⟨hmutex, hfits⟩ := h.holder hpc trivial
    refine ⟨h.exclusive.goto (by simp [hpc, Pc.Holds]), ?_, ?_, h.arrived.append rfl rfl rfl⟩
    · exact fits_goto hmutex ⟨hobject, s.emissions, _, rfl, rfl, rfl, rfl, hfits.2⟩
    · intro e he
      rcases List.mem_append.1 he with he | he
      · exact h.made e he
      · obtain rfl := List.mem_singleton.1 he
        simp [Emission.Made, TypeErasedWriter.write, hobject, WriterCode.run]
  | @resume t object call w answer piece progress hpc hresume =>
    obtain ⟨hmutex, hobject, finished, e, hemissions, rfl, hrunning, hcfg, hover⟩ :=
      h.holder hpc trivial
    -- the call under way is the last one, so that only the end of the list changes
    have hmodify : s.emissions.modify finished.length (Emission.resumed answer piece progress) =
        finished ++ [e.resumed answer piece progress] := by
      rw [hemissions, modify_last]
    have hholds : (Pc.ofProgress object finished.length progress).Holds := by
      cases progress <;> trivial
    refine ⟨h.exclusive.goto (by simpa [hpc, Pc.Holds] using hholds), ?_, ?_, ?_⟩
    · exact fits_goto hmutex (fits_of_resumed hobject hcfg hover hmodify)
    · intro e' he'
      rw [show State.emissions _ = _ from hmodify] at he'
      rcases List.mem_append.1 he' with he' | he'
      · exact h.made e' (hemissions ▸ List.mem_append_left _ he')
      · obtain rfl := List.mem_singleton.1 he'
        have hmade := h.made e (hemissions ▸ List.mem_append_right _ (List.mem_singleton_self e))
        rw [Emission.Made, hrunning] at hmade
        exact WriterCode.run_concat hmade hresume
    · exact h.arrived.resume hemissions (hcfg ▸ hobject) hmodify rfl
  | @unlock t hpc =>
    obtain ⟨hmutex, hfits⟩ := h.holder hpc trivial
    exact ⟨h.exclusive.unlock hmutex, hfits, h.made, h.arrived⟩

/-! ## Effects -/

theorem inForce_of_current (h : s.current = pc)
    (hpc : ∀ caller cfg oldCfg, pc ≠ .assigningGenerator caller cfg oldCfg) :
    s.inForce = s.logCfg := by
  subst h
  unfold State.inForce
  split
  · next heq => exact absurd heq (hpc _ _ _)
  · rfl

theorem inForce_goto (hmutex : s.logMutex = some t)
    (hpc : ∀ caller cfg oldCfg, pc ≠ .assigningGenerator caller cfg oldCfg) :
    (s.goto t pc).inForce = s.logCfg :=
  inForce_of_current (current_goto_of_holder hmutex) hpc

theorem inForce_of_locked {op : Operation} (h : s.locked t op = some pc) :
    State.inForce (State.goto { s with logMutex := some t } t pc) = s.logCfg := by
  refine inForce_goto rfl ?_
  cases op with
  | create cfg => cases h; simp
  | destroy =>
    obtain ⟨c, -, rfl⟩ := Option.map_eq_some_iff.1 h
    simp
  | writeMessage severity message => cases h; simp

theorem inForce_of_assigning {caller : Caller} {cfg oldCfg : Configuration}
    (hmutex : s.logMutex = some t) :
    (s.goto t (.assigningGenerator caller cfg oldCfg)).inForce = oldCfg := by
  rw [State.inForce, current_goto_of_holder hmutex]

theorem abs_eq (hforce : s'.inForce = s.inForce) (hcontexts : s'.contexts = s.contexts)
    (hwritten : s'.emissions.map (·.written) = s.emissions.map (·.written)) : s'.abs = s.abs := by
  rw [State.abs, State.abs, hforce, hcontexts, hwritten]

section Moves

variable {initial : Configuration} {ok : Context.State → Context.Label → Prop}

/-- The last assignment of `configure` is where its caller takes effect. -/
theorem State.Inv.configured (h : s.Inv code) {caller : Caller} {cfg oldCfg : Configuration}
    (hpc : s.pc t = .assigningGenerator caller cfg oldCfg)
    (hok : ∀ k ∈ s.effect (⟨t, .assignGenerator⟩ : Label κ), ok s.abs k)
    (hforce : s'.inForce = cfg) (hcontexts : s'.contexts = s.afterConfigure t caller cfg oldCfg)
    (hemissions : s'.emissions = s.emissions) :
    (Context.logging initial).Moves ok s.abs (s.effect (⟨t, .assignGenerator⟩ : Label κ))
      s'.abs := by
  obtain ⟨hmutex, hcurrent⟩ := h.exclusive.holder hpc trivial
  obtain ⟨-, -, hgiven, -⟩ := h.holder hpc trivial
  have hold : s.inForce = oldCfg := by rw [State.inForce, hcurrent]
  have habs : s'.abs = ⟨cfg, s.afterConfigure t caller cfg oldCfg, s.abs.written⟩ := by
    rw [State.abs, hforce, hcontexts, hemissions]
    rfl
  rw [habs]
  cases caller with
  | constructor =>
    have heffect : s.effect (⟨t, .assignGenerator⟩ : Label κ) = some (.create t cfg) := by
      simp [State.effect, hpc]
    rw [heffect]
    refine ⟨hok _ heffect, ?_⟩
    simp [Context.logging, Context.step, configure, State.abs, hold, State.afterConfigure]
  | destructor =>
    have heffect : s.effect (⟨t, .assignGenerator⟩ : Label κ) = some (.destroy t) := by
      simp [State.effect, hpc]
    rw [heffect]
    refine ⟨hok _ heffect, ?_⟩
    obtain ⟨c, hnewest, rfl⟩ := Option.map_eq_some_iff.1 (hgiven rfl t hmutex)
    have hfind : s.abs.contexts.find? (fun c => decide (c.thread = t)) = some c := hnewest
    simp only [Context.logging, Context.step, hfind, Option.map_some]
    rfl

/-- The call of the writer is where `write_message` takes effect. -/
theorem State.Inv.handedOver (h : s.Inv code) {item : Item} (hpc : s.pc t = .handingOver item)
    (hok : ∀ k ∈ s.effect (⟨t, .write⟩ : Label κ), ok s.abs k)
    (hforce : s'.inForce = s.logCfg) (hcontexts : s'.contexts = s.contexts)
    (hwritten : s'.emissions.map (·.written) =
      s.emissions.map (·.written) ++ [⟨item, s.logCfg, s.contexts.map (·.cfg)⟩]) :
    (Context.logging initial).Moves ok s.abs (s.effect (⟨t, .write⟩ : Label κ)) s'.abs := by
  obtain ⟨-, hcurrent⟩ := h.exclusive.holder hpc trivial
  obtain ⟨-, hwhen, -⟩ := h.holder hpc trivial
  have hold : s.inForce = s.logCfg := inForce_of_current hcurrent (by simp)
  have heffect : s.effect (⟨t, .write⟩ : Label κ) =
      some (.writeMessage t item.when item.severity item.message) := by
    simp [State.effect, hpc]
  rw [heffect]
  refine ⟨hok _ heffect, ?_⟩
  simp only [Context.logging, Context.step, writeMessage, State.abs, hforce, hcontexts, hwritten,
    hold, hwhen]

/-- The mutex makes a step of the atomic log of the effects, and hides all other steps. -/
theorem State.Inv.moves (h : s.Inv code) {l : Label κ} (hs : Step code s l s')
    (hok : ∀ k ∈ s.effect l, ok s.abs k) :
    (Context.logging initial).Moves ok s.abs (s.effect l) s'.abs := by
  cases hs with
  | @call t op hpc _ =>
    have heffect : s.effect (⟨t, .call op⟩ : Label κ) = none := by simp [State.effect, hpc]
    have hcurrent : (s.goto t (.waiting op)).current = s.current :=
      current_goto_of_ne (h.not_holder hpc id)
    rw [heffect]
    refine abs_eq ?_ rfl rfl
    unfold State.inForce
    rw [hcurrent]
    rfl
  | @lock t op pc hpc hfree hlocked =>
    have heffect : s.effect (⟨t, .lock⟩ : Label κ) = none := by simp [State.effect, hpc]
    rw [heffect]
    refine abs_eq ?_ rfl rfl
    rw [inForce_of_locked hlocked, inForce_of_current (current_of_free hfree) (by simp)]
  | @save t caller cfg hpc =>
    obtain ⟨hmutex, hcurrent⟩ := h.exclusive.holder hpc trivial
    have heffect : s.effect (⟨t, .save⟩ : Label κ) = none := by simp [State.effect, hpc]
    rw [heffect]
    refine abs_eq ((inForce_goto hmutex (by simp)).trans ?_) rfl rfl
    rw [inForce_of_current hcurrent (by simp)]
  | @assignWriter t caller cfg oldCfg hpc =>
    obtain ⟨hmutex, hcurrent⟩ := h.exclusive.holder hpc trivial
    obtain ⟨-, rfl, -, -⟩ := h.holder hpc trivial
    have heffect : s.effect (⟨t, .assignWriter⟩ : Label κ) = none := by simp [State.effect, hpc]
    rw [heffect]
    refine abs_eq ?_ rfl rfl
    -- the saved configuration stays in force until the second member has been assigned
    rw [inForce_of_current hcurrent (by simp)]
    exact inForce_of_assigning hmutex
  | @assignGenerator t caller cfg oldCfg hpc =>
    obtain ⟨hmutex, hwriter, -, -⟩ := h.holder hpc trivial
    have hcfg : (⟨s.logCfg.writer, cfg.timestampGenerator⟩ : Configuration) = cfg := by
      rw [hwriter]
    refine h.configured hpc hok ?_ rfl rfl
    refine Eq.trans ?_ hcfg
    exact inForce_goto hmutex (by simp)
  | @now t severity message time hpc =>
    obtain ⟨hmutex, hcurrent⟩ := h.exclusive.holder hpc trivial
    have heffect : s.effect (⟨t, .now time⟩ : Label κ) = none := by simp [State.effect, hpc]
    rw [heffect]
    refine abs_eq ((inForce_goto hmutex (by simp)).trans ?_) rfl rfl
    rw [inForce_of_current hcurrent (by simp)]
  | @writeNull t item hpc hnull =>
    obtain ⟨hmutex, -⟩ := h.holder hpc trivial
    exact h.handedOver hpc hok (inForce_goto hmutex (by simp)) rfl (List.map_append ..)
  | @write t item object hpc hobject =>
    obtain ⟨hmutex, -⟩ := h.holder hpc trivial
    exact h.handedOver hpc hok (inForce_goto hmutex (by simp)) rfl (List.map_append ..)
  | @resume t object call w answer piece progress hpc hresume =>
    obtain ⟨hmutex, hcurrent⟩ := h.exclusive.holder hpc trivial
    obtain ⟨-, -, finished, e, hemissions, rfl, -⟩ := h.holder hpc trivial
    have heffect : s.effect (⟨t, .resume answer⟩ : Label κ) = none := by simp [State.effect, hpc]
    have hpc' : ∀ caller cfg oldCfg, Pc.ofProgress object finished.length progress ≠
        .assigningGenerator caller cfg oldCfg := by
      cases progress <;> simp [Pc.ofProgress]
    rw [heffect]
    refine abs_eq ((inForce_goto hmutex hpc').trans ?_) rfl ?_
    · rw [inForce_of_current hcurrent (by simp)]
    · show List.map _ (s.emissions.modify _ _) = _
      rw [hemissions, modify_last]
      simp [Emission.resumed]
  | @unlock t hpc =>
    obtain ⟨-, hcurrent⟩ := h.exclusive.holder hpc trivial
    have heffect : s.effect (⟨t, .unlock⟩ : Label κ) = none := by simp [State.effect, hpc]
    rw [heffect]
    refine abs_eq ((inForce_of_current (current_of_free rfl) (by simp)).trans ?_) rfl rfl
    rw [inForce_of_current hcurrent (by simp)]
    rfl

end Moves

/-! ## The operations of the threads -/

theorem thread_of_effect {l : Label κ} {k : Context.Label} (h : s.effect l = some k) :
    (interface.operation (ℓ := Label κ) k).1 = l.thread := by
  unfold State.effect at h
  split at h <;> cases h <;> rfl

theorem events_of_ne {l : Label κ} {i : Thread} (hi : i ≠ l.thread) :
    interface.events i (l, s.effect l) = [] := by
  have hthread : (interface (κ := κ)).thread l = l.thread := rfl
  rw [Interface.events, if_neg (by rw [hthread]; exact hi.symm), List.nil_append]
  cases heffect : s.effect l with
  | none => rfl
  | some k =>
    have hk := thread_of_effect heffect
    exact if_neg (by rw [hk]; exact hi.symm)

theorem events_self {l : Label κ} : interface.events l.thread (l, s.effect l) =
    ((interface (κ := κ)).event l).toList ++ match s.effect l with
      | none => []
      | some k => [.effect ((interface (κ := κ)).operation k).2] := by
  have hthread : (interface (κ := κ)).thread l = l.thread := rfl
  rw [Interface.events, if_pos hthread]
  cases heffect : s.effect l with
  | none => rfl
  | some k =>
    have hk := thread_of_effect heffect
    exact congrArg _ (if_pos hk)

theorem stage_of_locked {op : Operation} (h : s.locked t op = some pc) : pc.stage = .called op := by
  cases op with
  | create cfg => cases h; rfl
  | destroy =>
    obtain ⟨c, -, rfl⟩ := Option.map_eq_some_iff.1 h
    rfl
  | writeMessage severity message => cases h; rfl

theorem stage_of_step {l : Label κ} (hs : Step code s l s') (i : Thread) :
    (interface.events i (l, s.effect l)).foldlM Stage.next (s.pc i).stage =
      some (s'.pc i).stage := by
  by_cases hi : i = l.thread
  · subst hi
    rw [events_self]
    cases hs with
    | call hpc _ => simp [interface, State.effect, hpc, State.goto, Pc.stage, Stage.next]
    | lock hpc _ hlocked =>
      have hstage := stage_of_locked hlocked
      simp [interface, State.effect, hpc, State.goto, hstage]
      rfl
    | save hpc => simp [interface, State.effect, hpc, State.goto, Pc.stage]
    | assignWriter hpc => simp [interface, State.effect, hpc, State.goto, Pc.stage]
    | @assignGenerator t caller cfg oldCfg hpc =>
      cases caller <;>
        simp [interface, State.effect, hpc, State.goto, Pc.stage, Caller.operation, Stage.next]
    | now hpc => simp [interface, State.effect, hpc, State.goto, Pc.stage]
    | writeNull hpc _ => simp [interface, State.effect, hpc, State.goto, Pc.stage, Stage.next]
    | write hpc _ => simp [interface, State.effect, hpc, State.goto, Pc.stage, Stage.next]
    | @resume t object call w answer piece progress hpc _ =>
      cases progress <;> simp [interface, State.effect, hpc, State.goto, Pc.ofProgress, Pc.stage]
    | unlock hpc => simp [interface, State.effect, hpc, State.goto, Pc.stage, Stage.next]
  · have hpc : s'.pc i = s.pc i := by cases hs <;> exact Function.update_of_ne hi ..
    rw [events_of_ne hi, hpc]
    rfl

end Steps

/-! ## Runs -/

/-- The severity and the text of a message that the atomic log writes. -/
def messageOf : Context.Label → Option (Severity × String)
  | .writeMessage _ _ severity message => some (severity, message)
  | .create _ _ | .destroy _ => none

section Atomic

variable {initial : Configuration} {ok : Context.State → Context.Label → Prop}
  {ks : List Context.Label} {a : Context.State}

theorem written_of_reach (h : (Context.logging initial).Reach ok ks a) :
    a.written.map (fun w => (w.item.severity, w.item.message)) = ks.filterMap messageOf := by
  refine h.invariant (I := fun ks a => a.written.map (fun w => (w.item.severity, w.item.message)) =
    ks.filterMap messageOf) ?_ ?_
  · rintro a rfl
    rfl
  · intro ks a k a' _ ih _ hs
    rw [List.filterMap_append, ← ih]
    cases k with
    | create thread cfg =>
      cases hs
      exact (List.append_nil _).symm
    | destroy thread =>
      obtain ⟨c, -, rfl⟩ := Option.map_eq_some_iff.1 hs
      exact (List.append_nil _).symm
    | writeMessage thread time severity message =>
      cases hs
      exact List.map_append

theorem nested_of_reach (h : (Context.logging initial).Reach Context.Nests ks a) :
    Context.Nested initial a := by
  refine h.invariant (I := fun _ a => Context.Nested initial a) ?_ ?_
  · rintro a rfl
    exact ⟨.nil, by simp⟩
  · intro ks a k a' _ ih hok hs
    exact ih.step hok hs

end Atomic

section Runs

variable {code : WriterCode ω κ β} {initial : Configuration} {ls : List (Label κ)}
  {s : State ω κ β}

/-- The contexts nest over all threads: a destructor takes effect when its context is the newest
one. -/
def Nests (s : State ω κ β) (l : Label κ) : Prop := ∀ k ∈ s.effect l, Context.Nests s.abs k

instance (s : State ω κ β) : DecidablePred (Nests s) := fun l => by
  unfold Nests
  infer_instance

theorem reach_effects {ok : State ω κ β → Label κ → Prop}
    (ok' : Context.State → Context.Label → Prop)
    (hok : ∀ s l, ok s l → ∀ k ∈ s.effect l, ok' s.abs k)
    (h : (threads code initial).Reach ok ls s) :
    ∃ es : Effects (Label κ) Context.Label, es.map Prod.fst = ls ∧
      (Context.logging initial).Reach ok' (es.filterMap Prod.snd) s.abs ∧
      interface.History es (fun t => (s.pc t).stage) ∧ s.Inv code := by
  refine h.linearizes interface State.abs State.effect (fun s t => (s.pc t).stage) ?_ ?_
  · rintro s rfl
    refine ⟨rfl, ⟨fun t => ?_, ?_, ?_, ?_⟩, fun t => rfl⟩
    · simp [Pc.Holds]
    · simp [State.current, State.Fits, State.AllOver]
    · simp
    · simp [State.Arrived]
  · intro s l s' hinv hok' hs
    have hstep := step_cases hs
    exact ⟨hinv.moves hstep (hok s l hok'), hinv.step hstep, stage_of_step hstep⟩

/-- Writers that put out a message and then a line break. -/
def lines : WriterCode (List String) Unit String where
  start _ item := [item.message, "\n"]
  resume w _ :=
    match w with
    | [] => some ([], .returned)
    | piece :: pieces => some ([piece], .running pieces)
  sink _ := 2

def start : State (List String) Unit String :=
  ⟨⟨⟨none⟩, ⟨none⟩⟩, none, fun _ => .idle, [], [], fun _ => []⟩

/-- A thread constructs a context.  Another one has called `write_message` before, and gets the
mutex afterwards; the first one wants to log, too. -/
def twoThreads : List (Label Unit) :=
  [⟨0, .call (.create (Context.ofObject 1))⟩, ⟨1, .call (.writeMessage .info "b")⟩, ⟨0, .lock⟩,
    ⟨0, .save⟩, ⟨0, .assignWriter⟩, ⟨0, .assignGenerator⟩, ⟨0, .unlock⟩, ⟨1, .lock⟩,
    ⟨0, .call (.writeMessage .error "a")⟩, ⟨1, .now 7⟩, ⟨1, .write⟩, ⟨1, .resume ()⟩]

/-- **The log is linearizable.**  However the steps of the threads are interleaved, they come to a
run of the log in which each operation is one step, taken between its call and its return.  Each
message is written once. -/
theorem linearizable (h : (threads code initial).Reach (fun _ _ => True) ls s) :
    ∃ es : Effects (Label κ) Context.Label, es.map Prod.fst = ls ∧
      (Context.logging initial).Reach (fun _ _ => True) (es.filterMap Prod.snd)
        ⟨s.inForce, s.contexts, s.emissions.map (·.written)⟩ ∧
      interface.History es (fun t => (s.pc t).stage) ∧
      s.emissions.map (fun e => (e.written.item.severity, e.written.item.message)) =
        (es.filterMap Prod.snd).filterMap messageOf ∧
      (s.logMutex = none → s.inForce = s.logCfg) := by
  obtain ⟨es, hes, hreach, hhistory, -⟩ :=
    reach_effects (fun _ _ => True) (fun _ _ _ _ _ => trivial) h
  refine ⟨es, hes, hreach, hhistory, ?_, ?_⟩
  · have hwritten := written_of_reach hreach
    rwa [State.abs, List.map_map] at hwritten
  · intro hfree
    exact inForce_of_current (current_of_free hfree) (by simp)

/-- The second thread is writing: its message and the context have taken effect, the message of the
first one has not. -/
theorem linearizable_twoThreads : ∃ s, (threads lines ⟨⟨none⟩, ⟨none⟩⟩).Reach (fun _ _ => True)
    twoThreads s ∧ s.logMutex = some 1 ∧
      ∃ es : Effects (Label Unit) Context.Label, es.map Prod.fst = twoThreads ∧
        s.emissions.map (fun e => (e.written.item.severity, e.written.item.message)) =
          (es.filterMap Prod.snd).filterMap messageOf := by
  have hrun : ((threads lines ⟨⟨none⟩, ⟨none⟩⟩).run (fun _ _ => True) start twoThreads).map
      (fun s => s.logMutex) = some (some 1) := by decide
  obtain ⟨s, hs, hmutex⟩ := Lts.Reach.exists_of_map_run rfl hrun
  obtain ⟨es, hes, -, -, hmessages, -⟩ := linearizable hs
  exact ⟨s, hs, hmutex, es, hes, hmessages⟩

/-- **What is called is alive.**  When the contexts nest, a thread that calls the writer or the
timestamp generator of a context does so while the context is alive, until the call is over, and
without contexts what has been in force at first is in force again. -/
theorem called_alive (h : (threads code initial).Reach Nests ls s) :
    (∀ t object call w, s.pc t = .writing object call w →
      initial.writer.object = some object ∨
        ∃ c ∈ s.contexts, c.cfg.writer.object = some object) ∧
    (∀ t severity message, s.pc t = .stamping severity message →
      s.logCfg.timestampGenerator = initial.timestampGenerator ∨
        ∃ c ∈ s.contexts, s.logCfg.timestampGenerator = c.cfg.timestampGenerator) ∧
    (∀ e ∈ s.emissions, e.written.cfg = initial ∨ e.written.cfg ∈ e.written.alive) ∧
    (s.contexts = [] → s.logMutex = none → s.logCfg = initial) := by
  obtain ⟨es, -, hreach, -, hinv⟩ := reach_effects Context.Nests (fun _ _ h => h) h
  obtain ⟨halive, hwritten, hrestored⟩ := (nested_of_reach hreach).inForce
  have hforce : ∀ {t : Thread} {pc : Pc ω}, s.pc t = pc → pc.Holds →
      (∀ caller cfg oldCfg, pc ≠ .assigningGenerator caller cfg oldCfg) →
        s.logCfg = initial ∨ ∃ c ∈ s.contexts, s.logCfg = c.cfg := by
    intro t pc hpc hholds hne
    rw [← inForce_of_current (hinv.exclusive.holder hpc hholds).2 hne]
    exact halive
  refine ⟨?_, ?_, ?_, ?_⟩
  · intro t object call w hpc
    obtain ⟨-, hobject, -⟩ := hinv.holder hpc trivial
    rcases hforce hpc trivial (by simp) with hcfg | ⟨c, hc, hcfg⟩
    · exact .inl (hcfg ▸ hobject)
    · exact .inr ⟨c, hc, hcfg ▸ hobject⟩
  · intro t severity message hpc
    rcases hforce hpc trivial (by simp) with hcfg | ⟨c, hc, hcfg⟩
    · exact .inl (by rw [hcfg])
    · exact .inr ⟨c, hc, by rw [hcfg]⟩
  · intro e he
    exact hwritten e.written (List.mem_map_of_mem he)
  · intro hnil hfree
    rw [← inForce_of_current (current_of_free hfree) (by simp)]
    exact hrestored hnil

/-- The writer of the context of the first thread is running, called by the second thread. -/
theorem called_alive_twoThreads : ∃ s, (threads lines ⟨⟨none⟩, ⟨none⟩⟩).Reach Nests twoThreads s ∧
    s.pc 1 = .writing 1 0 ["\n"] ∧ ∃ c ∈ s.contexts, c.cfg.writer.object = some 1 := by
  have hrun : ((threads lines ⟨⟨none⟩, ⟨none⟩⟩).run Nests start twoThreads).map
      (fun s => s.pc 1) = some (.writing 1 0 ["\n"]) := by decide
  obtain ⟨s, hs, hpc⟩ := Lts.Reach.exists_of_map_run rfl hrun
  refine ⟨s, hs, hpc, ?_⟩
  exact ((called_alive hs).1 1 1 0 _ hpc).resolve_left (by decide)

/-- **Output is not mixed.**  At each sink the output of the calls of `write` stands in the order in
which they were made, each as it is when the call runs alone; only the last call can be under
way, and only while the mutex is held. -/
theorem output_whole (h : (threads code initial).Reach (fun _ _ => True) ls s) :
    (∀ sink, s.accepted sink =
      (s.emissions.filter fun e => e.sink code = some sink).flatMap (·.output)) ∧
    (∀ e ∈ s.emissions, code.run (e.written.cfg.writer.write code e.written.item) e.answers =
      some (e.output, e.progress)) ∧
    (∀ finished e, s.emissions = finished ++ [e] → ∀ e' ∈ finished, e'.progress.IsOver) ∧
    (s.logMutex = none → ∀ e ∈ s.emissions, e.progress.IsOver) := by
  obtain ⟨-, -, -, -, hinv⟩ := reach_effects (fun _ _ => True) (fun _ _ _ _ _ => trivial) h
  refine ⟨hinv.arrived, hinv.made, ?_, ?_⟩
  · intro finished e hemissions e' he'
    exact hinv.fits.over hemissions e' he'
  · intro hfree
    have hfits := hinv.fits
    rw [current_of_free hfree] at hfits
    exact hfits

/-- The writer has put out the message, and not yet the line break. -/
theorem output_whole_twoThreads : ∃ s, (threads lines ⟨⟨none⟩, ⟨none⟩⟩).Reach (fun _ _ => True)
    twoThreads s ∧ s.accepted 2 = ["b"] ∧
      s.accepted 2 = (s.emissions.filter fun e => e.sink lines = some 2).flatMap (·.output) := by
  have hrun : ((threads lines ⟨⟨none⟩, ⟨none⟩⟩).run (fun _ _ => True) start twoThreads).map
      (fun s => s.accepted 2) = some ["b"] := by decide
  obtain ⟨s, hs, haccepted⟩ := Lts.Reach.exists_of_map_run rfl hrun
  exact ⟨s, hs, haccepted, (output_whole hs).1 2⟩

end Runs

end Mutex

end ThePipe.Log
