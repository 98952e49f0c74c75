import ThePipe.Lib.Lts
import ThePipe.Log.Item

/-!
# Contexts of the log

The log has one global configuration.  A `context` saves the configuration in force when it is
constructed, replaces it by its own, and puts the saved one back when it is destroyed.  Every thread
destroys its contexts in the reverse order of their construction; the lifetimes of contexts of
different threads may overlap in any way.

As long as they nest over all threads, the configuration in force is never one of a context that has
been destroyed (`reach_inForce`).
-/

set_option autoImplicit false

namespace ThePipe.Log

open Lib

/-! ## The configuration in force -/

/-- A writer or a timestamp generator, as a pointer to it identifies it. -/
abbrev ObjectPtr := ℕ

/-- `type_erased_writer` -/
structure TypeErasedWriter where
  object : Option ObjectPtr
  deriving DecidableEq

/-- `type_erased_timestamp_generator` -/
structure TypeErasedTimestampGenerator where
  object : Option ObjectPtr
  deriving DecidableEq

/-- `now`; `time` is what the captured object returns. -/
def TypeErasedTimestampGenerator.now (generator : TypeErasedTimestampGenerator) (time : Int64) :
    Int64 :=
  match generator.object with
  | none => 0
  | some _ => time

structure Configuration where
  writer : TypeErasedWriter
  timestampGenerator : TypeErasedTimestampGenerator
  deriving DecidableEq

/-- `configure`: the new value of `log_cfg`, and the old one. -/
def configure (logCfg cfg : Configuration) : Configuration × Configuration := (cfg, logCfg)

/-- `write_message`: the item, and the writer that it is handed to. -/
def writeMessage (logCfg : Configuration) (time : Int64) (severity : Severity) (message : String) :
    TypeErasedWriter × Item :=
  (logCfg.writer,
    { when := logCfg.timestampGenerator.now time, severity := severity, message := message })

/-! ## Runs -/

abbrev Thread := ℕ

/-- A `context` that is alive. -/
structure Context where
  thread : Thread
  /-- The configuration it has been constructed with. -/
  cfg : Configuration
  oldCfg : Configuration
  deriving DecidableEq

namespace Context

/-- A message that has been written: its item, the configuration that has been used for it, and the
configurations of the contexts that were alive. -/
structure Written where
  item : Item
  cfg : Configuration
  alive : List Configuration
  deriving DecidableEq

structure State where
  logCfg : Configuration
  /-- The contexts that are alive, the newest one first. -/
  contexts : List Context
  written : List Written
  deriving DecidableEq

inductive Label
  | create (thread : Thread) (cfg : Configuration)
  /-- The thread destroys the newest of its contexts. -/
  | destroy (thread : Thread)
  | writeMessage (thread : Thread) (time : Int64) (severity : Severity) (message : String)
  deriving DecidableEq

def step (s : State) : Label → Option State
  | .create thread cfg =>
    let (logCfg, oldCfg) := configure s.logCfg cfg
    some { s with logCfg := logCfg, contexts := ⟨thread, cfg, oldCfg⟩ :: s.contexts }
  | .destroy thread =>
    (s.contexts.find? fun c => c.thread = thread).map fun c =>
      { s with
        logCfg := (configure s.logCfg c.oldCfg).1
        contexts := s.contexts.eraseP fun c => c.thread = thread }
  | .writeMessage _ time severity message =>
    let (_, item) := writeMessage s.logCfg time severity message
    some { s with written := s.written ++ [⟨item, s.logCfg, s.contexts.map (·.cfg)⟩] }

/-- The runs that start with this configuration in force. -/
def logging (initial : Configuration) : Lts State Label where
  init s := s = ⟨initial, [], []⟩
  step := step

/-- A context that is destroyed is the newest one of all threads. -/
def Nests (s : State) : Label → Prop
  | .destroy thread => ∃ c ∈ s.contexts.head?, c.thread = thread
  | _ => True

instance (s : State) : DecidablePred (Nests s) := fun l => by
  cases l <;> unfold Nests <;> infer_instance

/-! ## What is in force -/

/-- The configuration in force is not of a context that has been destroyed. -/
structure InForce (initial : Configuration) (s : State) : Prop where
  alive : s.logCfg = initial ∨ ∃ c ∈ s.contexts, s.logCfg = c.cfg
  written : ∀ w ∈ s.written, w.cfg = initial ∨ w.cfg ∈ w.alive
  restored : s.contexts = [] → s.logCfg = initial

/-- Each context has saved the configuration that was in force before it, and the newest one is in
force. -/
inductive Chain (initial : Configuration) : Configuration → List Context → Prop
  | nil : Chain initial initial []
  | cons {c : Context} {cs : List Context} (hold : Chain initial c.oldCfg cs) :
      Chain initial c.cfg (c :: cs)

theorem Chain.alive {initial logCfg : Configuration} {cs : List Context}
    (h : Chain initial logCfg cs) : logCfg = initial ∨ ∃ c ∈ cs, logCfg = c.cfg := by
  cases h with
  | nil => exact .inl rfl
  | cons hold => exact .inr ⟨_, List.mem_cons_self, rfl⟩

theorem Chain.eq_initial {initial logCfg : Configuration} (h : Chain initial logCfg []) :
    logCfg = initial := by
  cases h
  rfl

theorem Chain.tail {initial logCfg : Configuration} {c : Context} {cs : List Context}
    (h : Chain initial logCfg (c :: cs)) : logCfg = c.cfg ∧ Chain initial c.oldCfg cs := by
  cases h with
  | cons hold => exact ⟨rfl, hold⟩

theorem Chain.oldCfg_getLast {initial logCfg : Configuration} {c c' : Context}
    {cs older : List Context} (h : Chain initial logCfg (c' :: cs ++ c :: older)) :
    ((c' :: cs).getLast (List.cons_ne_nil c' cs)).oldCfg = c.cfg := by
  induction cs generalizing c' logCfg with
  | nil =>
    have htail := h.tail.2
    exact htail.tail.1
  | cons c₁ cs ih =>
    rw [List.getLast_cons_cons]
    exact ih h.tail.2

/-- What the runs keep whose contexts nest. -/
structure Nested (initial : Configuration) (s : State) : Prop where
  chain : Chain initial s.logCfg s.contexts
  written : ∀ w ∈ s.written, w.cfg = initial ∨ w.cfg ∈ w.alive

section Steps

variable {initial : Configuration} {s s' : State} {l : Label}

theorem Nested.inForce (h : Nested initial s) : InForce initial s := by
  refine ⟨h.chain.alive, h.written, ?_⟩
  intro hnil
  have hchain := h.chain
  rw [hnil] at hchain
  exact hchain.eq_initial

/-- The newest context of all threads has saved what is in force when it is gone. -/
theorem Nested.destroy {thread : Thread} (h : Nested initial s) (hok : Nests s (.destroy thread))
    (hs : step s (.destroy thread) = some s') : Nested initial s' := by
  obtain ⟨c, hhead, hthread⟩ := hok
  obtain ⟨hchain, hwritten⟩ := h
  simp only [step, Option.map_eq_some_iff] at hs
  obtain ⟨c', hfind, rfl⟩ := hs
  cases hcontexts : s.contexts with
  | nil =>
    rw [hcontexts] at hhead
    cases hhead
  | cons c₀ cs =>
    rw [hcontexts] at hhead hfind hchain
    obtain rfl : c₀ = c := by simpa using hhead
    obtain rfl : c₀ = c' := by simpa [hthread] using hfind
    refine ⟨?_, hwritten⟩
    rw [List.eraseP_cons_of_pos (by simpa using hthread)]
    exact hchain.tail.2

theorem Nested.step (h : Nested initial s) (hok : Nests s l) (hs : step s l = some s') :
    Nested initial s' := by
  cases l with
  | create thread cfg =>
    cases hs
    exact ⟨Chain.cons (c := ⟨thread, cfg, s.logCfg⟩) h.chain, h.written⟩
  | destroy thread => exact h.destroy hok hs
  | writeMessage thread time severity message =>
    cases hs
    refine ⟨h.chain, ?_⟩
    intro w hw
    rcases List.mem_append.1 hw with hw | hw
    · exact h.written w hw
    · obtain rfl := List.mem_singleton.1 hw
      rcases h.chain.alive with hinit | ⟨c, hc, heq⟩
      · exact .inl hinit
      · exact .inr (List.mem_map.2 ⟨c, hc, heq.symm⟩)

end Steps

/-- In a run whose contexts nest over all threads the configuration in force is always that of a
context that is alive, or the initial one. -/
theorem reach_inForce {initial : Configuration} {ls : List Label} {s : State}
    (h : (logging initial).Reach Nests ls s) : InForce initial s := by
  have hnested : Nested initial s := by
    refine h.invariant (I := fun _ s => Nested initial s) ?_ ?_
    · rintro s rfl
      exact ⟨.nil, by simp⟩
    · intro ls s l s' _ ih hok hs
      exact ih.step hok hs
  exact hnested.inForce

/-! ## Contexts that overlap -/

theorem run_destroy {initial logCfg : Configuration} {c : Context} {cs rest : List Context}
    {written : List Written} :
    (logging initial).run Nests ⟨logCfg, c :: cs ++ rest, written⟩
        ((c :: cs).map fun c => .destroy c.thread) =
      some ⟨((c :: cs).getLast (List.cons_ne_nil c cs)).oldCfg, rest, written⟩ := by
  induction cs generalizing c logCfg with
  | nil => simp [Lts.run, Nests, logging, step, configure]
  | cons c' cs ih =>
    rw [List.map_cons, Lts.run, if_pos (by simp [Nests])]
    simpa [logging, step, configure] using ih

/-- A context that is destroyed before a newer one leaves its configuration behind: after the newer
ones have been destroyed it is in force. -/
theorem dead_of_overlap {initial : Configuration} {s s' : State} {thread : Thread}
    (h : Nested initial s) (hok : ¬ Nests s (.destroy thread))
    (hs : step s (.destroy thread) = some s') :
    ∃ newer c older, s.contexts = newer ++ c :: older ∧ c.thread = thread ∧
      (logging initial).run Nests s' (newer.map fun c => .destroy c.thread) =
        some ⟨c.cfg, older, s.written⟩ := by
  simp only [step, Option.map_eq_some_iff] at hs
  obtain ⟨c, hfind, rfl⟩ := hs
  obtain ⟨hthread, newer, older, heq, hnewer⟩ := List.find?_eq_some_iff_append.1 hfind
  simp only [decide_eq_true_eq, Bool.not_eq_true', decide_eq_false_iff_not] at hthread hnewer
  refine ⟨newer, c, older, heq, hthread, ?_⟩
  have hrest : s.contexts.eraseP (fun c => c.thread = thread) = newer ++ older := by
    rw [heq, List.eraseP_append_right _ (by simpa using hnewer),
      List.eraseP_cons_of_pos (by simpa using hthread)]
  cases newer with
  | nil =>
    refine absurd ?_ hok
    exact ⟨c, by simp [heq], hthread⟩
  | cons c' cs =>
    have hchain := h.chain
    rw [heq] at hchain
    rw [hrest, run_destroy, hchain.oldCfg_getLast]

/-- A configuration with one object for both. -/
def ofObject (object : ObjectPtr) : Configuration := ⟨⟨object⟩, ⟨object⟩⟩

/-- Two threads, whose contexts nest. -/
theorem inForce_nested : ∃ s, (logging ⟨⟨none⟩, ⟨none⟩⟩).Reach Nests
    [.create 0 (ofObject 1), .create 1 (ofObject 2), .destroy 1, .writeMessage 0 7 .info "a",
      .destroy 0] s ∧ s.contexts = [] ∧ InForce ⟨⟨none⟩, ⟨none⟩⟩ s := by
  have hrun : ((logging ⟨⟨none⟩, ⟨none⟩⟩).run Nests ⟨⟨⟨none⟩, ⟨none⟩⟩, [], []⟩
      [.create 0 (ofObject 1), .create 1 (ofObject 2), .destroy 1, .writeMessage 0 7 .info "a",
        .destroy 0]).map (fun s => s.contexts) = some [] := by decide
  obtain ⟨s, hs, hnil⟩ := Lts.Reach.exists_of_map_run rfl hrun
  exact ⟨s, hs, hnil, reach_inForce hs⟩

/-- Two threads, whose contexts overlap: both have been destroyed, the configuration of the first
one is in force, and a message is handed to its writer. -/
theorem overlapping_contexts_leave_dead_configuration :
    ∃ s, (logging ⟨⟨none⟩, ⟨none⟩⟩).Reach (fun _ _ => True)
        [.create 0 (ofObject 1), .create 1 (ofObject 2), .destroy 0, .destroy 1,
          .writeMessage 0 7 .info "a"] s ∧
      s.contexts = [] ∧ s.logCfg = ofObject 1 ∧
      s.written = [⟨⟨7, .info, "a"⟩, ofObject 1, []⟩] ∧ ¬ InForce ⟨⟨none⟩, ⟨none⟩⟩ s := by
  have hrun : (logging ⟨⟨none⟩, ⟨none⟩⟩).run (fun _ _ => True) ⟨⟨⟨none⟩, ⟨none⟩⟩, [], []⟩
      [.create 0 (ofObject 1), .create 1 (ofObject 2), .destroy 0, .destroy 1,
        .writeMessage 0 7 .info "a"] =
      some ⟨ofObject 1, [], [⟨⟨7, .info, "a"⟩, ofObject 1, []⟩]⟩ := by decide
  refine ⟨_, .of_run rfl hrun, rfl, rfl, rfl, ?_⟩
  intro hinForce
  exact absurd (hinForce.restored rfl) (by decide)

end Context

end ThePipe.Log
