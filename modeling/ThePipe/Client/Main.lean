import ThePipe.ClientCtl.StartupConfig
import ThePipe.JsonLog.Channel
import ThePipe.Log.Context

/-!
# The client

`main` takes its startup configuration from the command line.  It logs one message to its standard
error, which says how that went, and exits with 0 or with 255.

The process that has started the client fetches the message from the other end of a pipe, with as
many reads as it takes.  What it gets is the message of the client or, when the client has been
terminated before the end of it, an item that says nothing; as long as the client is writing it
waits (`fetch_main`).
-/

set_option autoImplicit false

namespace ThePipe.Client

open Lib Jopp Log ClientCtl JsonLog OsServices ErrorHandling Io

/-! ## The program -/

/-- What `main` uses of the libraries.  What they throw is given by the text of the exception. -/
structure Library where
  /-- `jopp::parse` -/
  parse : String → Except String Container
  /-- The texts of the exceptions of the accessors. -/
  what : AccessError → String
  strerror : Errno → String

variable {σ ζ : Type} (lib : Library) (machine : Machine)

def what : Exception → String
  | .runtimeError text => text
  | .systemError e => e.message ++ ": " ++ lib.strerror e.err
  | .jopp e => lib.what e

/-- The body of the `try` block; the length of `argv` is `argc`. -/
def startup (argv : List String) : Except String StartupConfig :=
  if argv.length ≠ 2 then
    .error ("Wrong number of command line arguments. Got " ++ toString argv.length ++ " expected 2")
  else
    match lib.parse (argv.getD 1 "") with
    | .error text => .error text
    | .ok (.array _) => .error (what lib (.jopp .wrongType))
    | .ok (.object obj) => (makeStartupConfig machine obj).mapError (what lib)

/-- The message that is logged at the end, and the value that `main` returns. -/
def report : Except String StartupConfig → Severity × String × Int32
  | .error text => (.error, text, -1)
  | .ok _ => (.info, "Process exited normally", 0)

/-- The configuration of `log_ctxt`: the log writer, and the system clock. -/
def logCfg : Configuration := (configure ⟨⟨none⟩, ⟨none⟩⟩ ⟨⟨some 1⟩, ⟨some 2⟩⟩).1

/-- The item that is logged, at the time `now`. -/
def logItem (argv : List String) (now : Int64) : Item :=
  let r := report (startup lib machine argv)
  (writeMessage logCfg now r.1 r.2.1).2

/-- How the process ends. -/
inductive Ending
  /-- With the exit status that `wait` returns. -/
  | exited (status : ℕ)
  /-- An exception leaves `main`. -/
  | terminated (e : SystemError)
  /-- It has not come back from a system call. -/
  | running
  deriving DecidableEq

/-- The lower eight bits of the value that `main` returns. -/
def exitStatus (ret : Int32) : ℕ := (ret.toBitVec &&& 0xff).toNat

/-- A run of the program: what it has written to its standard error, and how it has ended. -/
structure Process where
  stderr : List UInt8
  ending : Ending

/-- The end of `main`, after the message has been written. -/
def ending (ret : Int32) : WriteExit → Ending
  | .returned => .exited (exitStatus ret)
  | .threw e => .terminated e
  | .waiting => .running

def main (S : Serializer ζ) (fuel : ℕ) (argv : List String) (now : Int64) (calls : List Call) :
    Option Process :=
  let ret := (report (startup lib machine argv)).2.2
  (JsonLog.write S 65536 fuel (logItem lib machine argv now) calls).map fun w =>
    ⟨w.accepted, ending ret w.exit⟩

/-! ## The process at the other end -/

section Fetch

variable {P : Parser σ UInt8 Container SyntaxError} {G : Grammar UInt8 Container SyntaxError}
  {undef : Binary64 → Int64} {held : Bool} {reads : List Call} {l stream : List UInt8} {state : σ}

end Fetch

/-! ## What the client tells -/

/-- The command line consists of the path and of the text of a startup configuration. -/
def Accepts (argv : List String) : Prop :=
  ∃ path text obj, argv = [path, text] ∧ lib.parse text = .ok (.object obj) ∧ Schema machine obj

theorem makeStartupConfig_hostInfo {machine : Machine} {fd : Int32} (hnonneg : 0 ≤ fd.toInt)
    (hsocket : machine.OpenSocket fd) :
    makeStartupConfig machine (StartupConfig.hostInfo ⟨.socketFdRef ⟨fd⟩⟩).toJoppObject =
      .ok (.hostInfo ⟨.socketFdRef ⟨fd⟩⟩) := by
  have haddress : makeHostAddress machine (HostAddress.socketFdRef ⟨fd⟩).toJoppObject =
      .ok (.socketFdRef ⟨fd⟩) := by
    rw [makeHostAddress_eq_ok, HostAddress.toJoppObject_eq]
    exact ⟨rfl, rfl, hnonneg, hsocket⟩
  rw [StartupConfig.toJoppObject, modeToJoppObject_eq, makeStartupConfig_eq_ok]
  refine ⟨_, rfl, rfl, ?_⟩
  rw [makeHostInfo_eq_ok]
  exact ⟨_, rfl, haddress⟩

section Report

variable {lib machine} {argv : List String} {now : Int64}

theorem logItem_eq : logItem lib machine argv now =
    ⟨now, (report (startup lib machine argv)).1, (report (startup lib machine argv)).2.1⟩ := rfl

end Report

section Run

variable {lib machine} {argv : List String} {now : Int64} {S : Serializer ζ}
  {text : Object → List UInt8}

variable (lib machine) in
/-- The process has exited, and it has written the text of its item; or it has not exited, and it
has not come to the end of the text. -/
theorem main_cases (hS : S.Prints text) (argv : List String) (now : Int64) :
    ∃ n, ∀ fuel ≥ n, ∀ calls, ∃ p, main lib machine S fuel argv now calls = some p ∧
      p.stderr <+: text (toJoppObject (logItem lib machine argv now)) ∧
      ((∀ c ∈ calls, GoesOn c) →
        (text (toJoppObject (logItem lib machine argv now))).length ≤ calls.countP Progresses →
          ∃ status, p.ending = .exited status) ∧
      (p.ending = .exited (exitStatus (report (startup lib machine argv)).2.2) ∧
          p.stderr = text (toJoppObject (logItem lib machine argv now)) ∨
        (∀ status, p.ending ≠ .exited status) ∧
          p.stderr.length < (text (toJoppObject (logItem lib machine argv now))).length) := by
  generalize hitem : logItem lib machine argv now = item
  obtain ⟨n, hemits⟩ := hS (toJoppObject item) 65536 (by decide)
  refine ⟨n, fun fuel hfuel calls => ?_⟩
  obtain ⟨w, hw, hpre, hall⟩ := writeLoop_spec hemits hfuel calls
  obtain ⟨m, hmade, hm, hexit⟩ := writeLoop_delivers hemits hw
  have hlength := hpre.length_le
  refine ⟨⟨w.accepted, ending (report (startup lib machine argv)).2.2 w.exit⟩, ?_, hpre, ?_, ?_⟩
  · rw [main, hitem, JsonLog.write, hw]
    rfl
  · intro hgoes hprogress
    rcases hmade.of_goesOn hgoes with hx | ⟨-, hcount⟩
    · exact ⟨_, by rw [hx]; rfl⟩
    · have hx := hexit.2 (by omega)
      exact ⟨_, by rw [hx]; rfl⟩
  · by_cases hx : w.exit = .returned
    · exact .inl ⟨by rw [hx]; rfl, hall hx⟩
    · refine .inr ⟨?_, ?_⟩
      · intro status heq
        cases hexit' : w.exit with
        | returned => exact hx hexit'
        | threw e =>
          rw [hexit'] at heq
          cases heq
        | waiting =>
          rw [hexit'] at heq
          cases heq
      · have hne := mt hexit.2 hx
        show w.accepted.length < _
        omega

/-- The configuration of a client that finds its host at the socket 7. -/
def exampleConfig : StartupConfig := .hostInfo ⟨.socketFdRef ⟨7⟩⟩

def exampleText : String :=
  "\x7b\"operational_mode\":\"connected_to_host\",\"parameters\":" ++
    "\x7b\"address\":\x7b\"type\":\"socket_fd\",\"value\":7\x7d\x7d\x7d"

/-- A library that can parse the text of this configuration, and knows no other one. -/
def exampleLibrary : Library where
  parse text := if text = exampleText then .ok (.object exampleConfig.toJoppObject)
    else .error "No top level node"
  what _ := "Field does not exist"
  strerror _ := "Bad file descriptor"

end Run

end ThePipe.Client
