import ThePipe.Lib.Lts
import ThePipe.OsServices.ProcMgmt.DescriptorTable
import ThePipe.Utils.Segments

/-!
# Spawning a process

`spawn` and the child that it forks, as two processes that take steps in any order.  They share the
error pipe and the eventfd; a step is a system call, and its label carries the outcome.  A call that
blocks has no step until it can return.

The parent signals the eventfd when it has a pidfd of the child, and then reads the error pipe: an
error number says that the child failed, the end of the file that no descriptor of the write end is
left.  The child waits for the eventfd, redirects the standard streams, marks what is not forwarded
to be closed by `execve`, and calls it; a child that fails writes the error number to the pipe.
-/

set_option autoImplicit false

namespace ThePipe.OsServices.ProcMgmt

open ErrorHandling Lib Utils

/-! ## The arguments -/

structure IoRedirection where
  sysin : NativeHandle
  sysout : NativeHandle
  syserr : NativeHandle
  deriving DecidableEq

/-- The calls of `dup2` that `do_exec` makes, with source and target. -/
def IoRedirection.dup2s (ioRedir : IoRedirection) : List (NativeHandle × NativeHandle) :=
  [(ioRedir.sysin, 0), (ioRedir.sysout, 1), (ioRedir.syserr, 2)].filter fun d => d.1 ≠ -1

/-- A call of `spawn`, with the descriptor table of the caller. -/
structure Call where
  path : String
  argv : List String
  env : List String
  ioRedir : IoRedirection
  fdsToForward : List NativeHandle
  table : DescriptorTable
  inRange : ∀ d ∈ table.entries, IsDescriptor d.1
  outside : ∀ d ∈ table.entries, d.2.file.Outside

/-- The arguments of `execve`; `none` is the null pointer at the end of an array. -/
structure Image where
  path : String
  argv : List (Option String)
  env : List (Option String)
  deriving DecidableEq

def buildArgv (path : String) (argv : List String) : List (Option String) :=
  some path :: argv.map some ++ [none]

def buildEnv (env : List String) : List (Option String) := env.map some ++ [none]

namespace Call

variable (call : Call)

def image : Image := ⟨call.path, buildArgv call.path call.argv, buildEnv call.env⟩

/-- A number that has been moved from is still the same. -/
def fdsToKeep : FlatSet (BitVec 32) :=
  .make (fun _ fd => fd) call.fdsToForward DescriptorTable.toUnsigned

/-- The calls of `close_range` that `do_exec` makes: `STDERR_FILENO + 1` is 3. -/
def closeRanges : List (InclusiveIntegralRange 32) :=
  forEachDisjointSegment ⟨3, BitVec.allOnes 32⟩ call.fdsToKeep

end Call

/-! ## States -/

/-- The places where `spawn` throws, with the error number. -/
inductive Cause
  | pipe (err : Errno)
  | fcntl (err : Errno)
  | eventfd (err : Errno)
  | fork (err : Errno)
  | kill (err : Errno)
  | pidfdOpen (err : Errno)
  | read (err : Errno)
  | wait (err : Errno)
  | launch (err : Errno)
  deriving DecidableEq

def Cause.systemError (path : String) : Cause → SystemError
  | .pipe err => ⟨"Failed to create pipe", err⟩
  | .fcntl err => ⟨"Failed to set FD_CLOEXEC on pipe read end", err⟩
  | .eventfd err => ⟨"Failed to create eventfd", err⟩
  | .fork err => ⟨"Fork failed: ", err⟩
  | .kill err => ⟨"Failed to kill process", err⟩
  | .pidfdOpen err => ⟨"Failed to create pidfd", err⟩
  | .read err => ⟨"I/O operation failed", err⟩
  | .wait err => ⟨"Failed to wait for process", err⟩
  | .launch err => ⟨"Failed to launch application " ++ path, err⟩

theorem Cause.eq_launch {path : String} {cause : Cause} {err : Errno}
    (h : cause.systemError path = ⟨"Failed to launch application " ++ path, err⟩) :
    cause = .launch err := by
  have herr := congrArg SystemError.err h
  have htext := congrArg (fun e => e.message.toList.take 12) h
  have hlaunch : ("Failed to launch application " ++ path).toList.take 12 =
      "Failed to la".toList := by
    rw [String.toList_append, List.take_append_of_le_length (by decide)]
    decide
  simp only [hlaunch] at htext
  cases cause with
  | launch => exact congrArg Cause.launch herr
  | _ =>
    unfold Cause.systemError at htext
    dsimp only at htext
    exact absurd htext (by decide)

inductive Outcome
  | returned
  | thrown (cause : Cause)
  deriving DecidableEq

/-- What the parent does next. -/
inductive Parent
  | pipe
  | fcntl
  | eventfd
  | fork
  | closeWriteEnd
  | pidfdOpen
  /-- `pidfd_open` has failed with `err`. -/
  | kill (err : Errno)
  | waitpid (err : Errno)
  | signal
  | read
  /-- The read has given an error number, or the end of the file. -/
  | closeReadEnd (childErrno : Option Errno)
  | wait (childErrno : Errno)
  /-- The exception is about to destroy the owner of the pidfd. -/
  | unwind (cause : Cause)
  /-- The deleter of the pidfd has killed the child and waits for it. -/
  | unwindWait (cause : Cause)
  /-- The other locals are about to be destroyed. -/
  | leave (outcome : Outcome)
  | left (outcome : Outcome)
  deriving DecidableEq

/-- What the child does next. -/
inductive Child
  /-- There is none yet. -/
  | none
  | readEvent
  | closeEvent
  | closeReadEnd
  | dup2 (todo : List (NativeHandle × NativeHandle))
  | closeRange (todo : List (InclusiveIntegralRange 32))
  | execve
  /-- The label `fail`, with `errno`. -/
  | fail (errval : Errno)
  | closeWriteEnd
  | exit
  /-- The new program runs. -/
  | program (image : Image)
  | zombie
  | reaped
  deriving DecidableEq

/-- The process exists and has not terminated. -/
def Child.Alive (c : Child) : Prop := c ≠ .none ∧ c ≠ .zombie ∧ c ≠ .reaped

instance : DecidablePred Child.Alive := fun c => by unfold Child.Alive; infer_instance

/-- The locals of `spawn`.  A null owner is `-1`. -/
structure Locals where
  /-- `exec_err_pipe`, the owner of the read end -/
  readEnd : NativeHandle
  /-- `exec_err_pipe`, the owner of the write end -/
  writeEnd : NativeHandle
  /-- A number, not an owner. -/
  execErrPipeReadEnd : NativeHandle
  parentReadyFd : NativeHandle
  /-- The process id, as `fork` has returned it. -/
  forkRes : ℕ
  /-- `ret.second` -/
  pidfd : NativeHandle
  deriving DecidableEq

structure State where
  parent : Parent
  table : DescriptorTable
  locals : Locals
  child : Child
  childTable : DescriptorTable
  /-- The locals as `fork` has copied them. -/
  childLocals : Locals
  /-- The error numbers in the pipe. -/
  execErrPipe : List Errno
  /-- The counter of the eventfd. -/
  event : ℕ
  /-- The processes that `spawn` has sent a signal to. -/
  signalled : List Process

def Locals.initial : Locals := ⟨-1, -1, -1, -1, 0, -1⟩

def State.initial (call : Call) : State :=
  ⟨.pipe, call.table, .initial, .none, ∅, .initial, [], 0, []⟩

/-! ## The parent -/

/-- The system calls of the parent, with their outcomes; `none` stands for success where a call
only succeeds or fails. -/
inductive ParentLabel
  | pipe (res : Except Errno (NativeHandle × NativeHandle))
  | fcntl (failure : Option Errno)
  | eventfd (res : Except Errno NativeHandle)
  | fork (res : Except Errno ℕ)
  | closeWriteEnd
  | pidfdOpen (res : Except Errno NativeHandle)
  | kill (failure : Option Errno)
  | waitpid (failure : Option Errno)
  | signal (failure : Option Errno)
  /-- `EINTR` in `do_while_eintr` -/
  | interrupted
  | readErrno
  | readEof
  | readFails (err : Errno)
  | closeReadEnd
  | wait (failure : Option Errno)
  | unwind
  | unwindWait (failure : Option Errno)
  | leave
  deriving DecidableEq

/-- The file that `kill(fork_res, SIGKILL)` sends the signal to: inside the namespace it is the
overload for pidfds, so the process id is taken for a descriptor number. -/
def State.killTarget (s : State) : Option File :=
  (s.table.lookup (s.locals.forkRes : NativeHandle)).map Entry.file

/-- The destructors of `parent_ready_fd` and of the two owners of `exec_err_pipe`. -/
def State.leave (s : State) (outcome : Outcome) : State :=
  { s with
    parent := .left outcome
    table := ((s.table.reset s.locals.parentReadyFd).reset s.locals.writeEnd).reset s.locals.readEnd
    locals := { s.locals with parentReadyFd := -1, writeEnd := -1, readEnd := -1 } }

def parentStep (s : State) (l : ParentLabel) : Option State :=
  match s.parent, l with
  | .pipe, .pipe (.error err) => some { s with parent := .leave (.thrown (.pipe err)) }
  | .pipe, .pipe (.ok (readEnd, writeEnd)) =>
    let table := s.table.insert readEnd ⟨.pipeRead, false⟩
    if s.table.Fresh readEnd ∧ DescriptorTable.Fresh table writeEnd then
      some { s with
        parent := .fcntl
        table := table.insert writeEnd ⟨.pipeWrite, false⟩
        locals := { s.locals with readEnd := readEnd, writeEnd := writeEnd } }
    else none
  | .fcntl, .fcntl (some err) => some { s with parent := .leave (.thrown (.fcntl err)) }
  | .fcntl, .fcntl none =>
    some { s with
      parent := .eventfd
      table := s.table.setCloexec s.locals.readEnd
      locals := { s.locals with execErrPipeReadEnd := s.locals.readEnd, readEnd := -1 } }
  | .eventfd, .eventfd (.error err) => some { s with parent := .leave (.thrown (.eventfd err)) }
  | .eventfd, .eventfd (.ok fd) =>
    if s.table.Fresh fd then
      some { s with
        parent := .fork
        table := s.table.insert fd ⟨.event, false⟩
        locals := { s.locals with parentReadyFd := fd } }
    else none
  | .fork, .fork (.error err) => some { s with parent := .leave (.thrown (.fork err)) }
  | .fork, .fork (.ok pid) =>
    some { s with
      parent := .closeWriteEnd
      locals := { s.locals with forkRes := pid }
      child := .readEvent
      childTable := s.table
      childLocals := s.locals }
  | .closeWriteEnd, .closeWriteEnd =>
    some { s with
      parent := .pidfdOpen
      table := s.table.reset s.locals.writeEnd
      locals := { s.locals with writeEnd := -1 } }
  | .pidfdOpen, .pidfdOpen (.error err) => some { s with parent := .kill err }
  | .pidfdOpen, .pidfdOpen (.ok fd) =>
    if s.table.Fresh fd then
      some { s with
        parent := .signal
        table := s.table.insert fd ⟨.pidfd .child, true⟩
        locals := { s.locals with pidfd := fd } }
    else none
  | .kill err, .kill none =>
    match s.killTarget with
    | some (.pidfd process) =>
      some { s with parent := .waitpid err, signalled := s.signalled ++ [process] }
    | _ => none
  | .kill _, .kill (some err) => some { s with parent := .leave (.thrown (.kill err)) }
  | .waitpid err, .waitpid none =>
    if s.child = .zombie then
      some { s with parent := .leave (.thrown (.pidfdOpen err)), child := .reaped }
    else none
  | .waitpid err, .waitpid (some _) => some { s with parent := .leave (.thrown (.pidfdOpen err)) }
  | .signal, .interrupted => some s
  | .signal, .signal none => some { s with parent := .read, event := s.event + 1 }
  | .signal, .signal (some _) => some { s with parent := .read }
  | .read, .interrupted => some s
  | .read, .readErrno =>
    match s.execErrPipe with
    | [] => none
    | err :: errs => some { s with parent := .closeReadEnd (some err), execErrPipe := errs }
  | .read, .readEof =>
    if s.execErrPipe = [] ∧ ¬ s.table.Has .pipeWrite ∧ ¬ s.childTable.Has .pipeWrite then
      some { s with parent := .closeReadEnd none }
    else none
  | .read, .readFails err =>
    -- the pipe is in blocking mode
    if err ≠ EINTR ∧ err ≠ EAGAIN then some { s with parent := .unwind (.read err) } else none
  | .closeReadEnd (some err), .closeReadEnd =>
    some { s with parent := .wait err, table := s.table.erase s.locals.execErrPipeReadEnd }
  | .closeReadEnd none, .closeReadEnd =>
    some { s with
      parent := .leave .returned
      table := s.table.erase s.locals.execErrPipeReadEnd }
  | .wait childErrno, .wait none =>
    if s.child = .zombie then
      some { s with parent := .unwind (.launch childErrno), child := .reaped }
    else none
  | .wait _, .wait (some err) => some { s with parent := .unwind (.wait err) }
  | .unwind cause, .unwind =>
    -- a process that has been waited for cannot be signalled, and the deleter returns
    if s.child = .reaped then some { s with parent := .leave (.thrown cause) }
    else some { s with parent := .unwindWait cause, signalled := s.signalled ++ [.child] }
  | .unwindWait cause, .unwindWait none =>
    if s.child = .zombie then
      some { s with
        parent := .leave (.thrown cause)
        table := s.table.reset s.locals.pidfd
        locals := { s.locals with pidfd := -1 }
        child := .reaped }
    else none
  | .unwindWait cause, .unwindWait (some _) =>
    some { s with
      parent := .leave (.thrown cause)
      table := s.table.reset s.locals.pidfd
      locals := { s.locals with pidfd := -1 } }
  | .leave outcome, .leave => some (s.leave outcome)
  | _, _ => none

/-! ## The child -/

inductive ChildLabel
  /-- `EINTR` in `do_while_eintr` -/
  | interrupted
  | readEvent
  | closeEvent
  | closeReadEnd
  | dup2 (failure : Option Errno)
  | closeRange (failure : Option Errno)
  | execve (failure : Option Errno)
  | writeErrno
  | closeWriteEnd
  | exit
  /-- The program changes its descriptors and writes to the error pipe, if it has it. -/
  | act (table : DescriptorTable) (written : List Errno)
  /-- A signal terminates the process. -/
  | killed
  deriving DecidableEq

/-- Where `do_exec` is when these calls of `close_range` are left. -/
def Child.atCloseRange : List (InclusiveIntegralRange 32) → Child
  | [] => .execve
  | todo => .closeRange todo

/-- Where `do_exec` is when these calls of `dup2` are left. -/
def Child.atDup2 (call : Call) : List (NativeHandle × NativeHandle) → Child
  | [] => .atCloseRange call.closeRanges
  | todo => .dup2 todo

/-- What a program may make of its descriptors: it does not get at the objects of `spawn` unless it
has inherited them. -/
def DescriptorTable.MayBecome (t t' : DescriptorTable) : Prop :=
  ∀ d ∈ t'.entries, d.2.file.Outside ∨ t.Has d.2.file

instance (t t' : DescriptorTable) : Decidable (t.MayBecome t') := by
  unfold DescriptorTable.MayBecome; infer_instance

/-- `_exit`, or a signal. -/
def State.childEnds (s : State) : State := { s with child := .zombie, childTable := ∅ }

def childStep (call : Call) (s : State) (l : ChildLabel) : Option State :=
  match s.child, l with
  | .readEvent, .interrupted => some s
  | .readEvent, .readEvent =>
    if 0 < s.event then some { s with child := .closeEvent, event := 0 } else none
  | .closeEvent, .closeEvent =>
    some { s with
      child := .closeReadEnd
      childTable := s.childTable.reset s.childLocals.parentReadyFd
      childLocals := { s.childLocals with parentReadyFd := -1 } }
  | .closeReadEnd, .closeReadEnd =>
    some { s with
      child := .atDup2 call call.ioRedir.dup2s
      childTable := s.childTable.erase s.childLocals.execErrPipeReadEnd }
  | .dup2 ((source, target) :: todo), .dup2 none =>
    if (s.childTable.lookup source).isSome then
      some { s with child := .atDup2 call todo, childTable := s.childTable.dup2 source target }
    else none
  | .dup2 ((source, _) :: _), .dup2 (some err) =>
    if s.childTable.lookup source = none → err = EBADF then some { s with child := .fail err }
    else none
  | .closeRange (range :: todo), .closeRange none =>
    some { s with child := .atCloseRange todo, childTable := s.childTable.closeRange range }
  | .closeRange (_ :: todo), .closeRange (some _) => some { s with child := .atCloseRange todo }
  | .execve, .execve none =>
    some { s with child := .program call.image, childTable := s.childTable.exec }
  | .execve, .execve (some err) => some { s with child := .fail err }
  | .fail _, .interrupted => some s
  | .fail errval, .writeErrno =>
    match (s.childTable.lookup s.childLocals.writeEnd).map Entry.file with
    | some .pipeWrite =>
      some { s with child := .closeWriteEnd, execErrPipe := s.execErrPipe ++ [errval] }
    | _ => some { s with child := .closeWriteEnd }
  | .closeWriteEnd, .closeWriteEnd =>
    some { s with
      child := .exit
      childTable := s.childTable.reset s.childLocals.writeEnd
      childLocals := { s.childLocals with writeEnd := -1 } }
  | .exit, .exit => some s.childEnds
  | .program _, .act table written =>
    if s.childTable.MayBecome table ∧ (written = [] ∨ s.childTable.Has .pipeWrite) then
      some { s with childTable := table, execErrPipe := s.execErrPipe ++ written }
    else none
  | .program _, .exit => some s.childEnds
  | child, .killed => if child.Alive then some s.childEnds else none
  | _, _ => none

/-! ## What a step does -/

/-- What a step of the parent does, by cases. -/
inductive ParentStep (s : State) : ParentLabel → State → Prop
  | pipeFails {err : Errno} (hp : s.parent = .pipe) :
      ParentStep s (.pipe (.error err)) { s with parent := .leave (.thrown (.pipe err)) }
  | pipe {readEnd writeEnd : NativeHandle} (hp : s.parent = .pipe)
      (hread : s.table.Fresh readEnd)
      (hwrite : DescriptorTable.Fresh (s.table.insert readEnd ⟨.pipeRead, false⟩) writeEnd) :
      ParentStep s (.pipe (.ok (readEnd, writeEnd)))
        { s with
          parent := .fcntl
          table := (s.table.insert readEnd ⟨.pipeRead, false⟩).insert writeEnd ⟨.pipeWrite, false⟩
          locals := { s.locals with readEnd := readEnd, writeEnd := writeEnd } }
  | fcntlFails {err : Errno} (hp : s.parent = .fcntl) :
      ParentStep s (.fcntl (some err)) { s with parent := .leave (.thrown (.fcntl err)) }
  | fcntl (hp : s.parent = .fcntl) :
      ParentStep s (.fcntl none)
        { s with
          parent := .eventfd
          table := s.table.setCloexec s.locals.readEnd
          locals := { s.locals with execErrPipeReadEnd := s.locals.readEnd, readEnd := -1 } }
  | eventfdFails {err : Errno} (hp : s.parent = .eventfd) :
      ParentStep s (.eventfd (.error err)) { s with parent := .leave (.thrown (.eventfd err)) }
  | eventfd {fd : NativeHandle} (hp : s.parent = .eventfd) (hfd : s.table.Fresh fd) :
      ParentStep s (.eventfd (.ok fd))
        { s with
          parent := .fork
          table := s.table.insert fd ⟨.event, false⟩
          locals := { s.locals with parentReadyFd := fd } }
  | forkFails {err : Errno} (hp : s.parent = .fork) :
      ParentStep s (.fork (.error err)) { s with parent := .leave (.thrown (.fork err)) }
  | fork {pid : ℕ} (hp : s.parent = .fork) :
      ParentStep s (.fork (.ok pid))
        { s with
          parent := .closeWriteEnd
          locals := { s.locals with forkRes := pid }
          child := .readEvent
          childTable := s.table
          childLocals := s.locals }
  | closeWriteEnd (hp : s.parent = .closeWriteEnd) :
      ParentStep s .closeWriteEnd
        { s with
          parent := .pidfdOpen
          table := s.table.reset s.locals.writeEnd
          locals := { s.locals with writeEnd := -1 } }
  | pidfdOpenFails {err : Errno} (hp : s.parent = .pidfdOpen) :
      ParentStep s (.pidfdOpen (.error err)) { s with parent := .kill err }
  | pidfdOpen {fd : NativeHandle} (hp : s.parent = .pidfdOpen) (hfd : s.table.Fresh fd) :
      ParentStep s (.pidfdOpen (.ok fd))
        { s with
          parent := .signal
          table := s.table.insert fd ⟨.pidfd .child, true⟩
          locals := { s.locals with pidfd := fd } }
  | kill {err : Errno} {process : Process} (hp : s.parent = .kill err)
      (htarget : s.killTarget = some (.pidfd process)) :
      ParentStep s (.kill none)
        { s with parent := .waitpid err, signalled := s.signalled ++ [process] }
  | killFails {err err' : Errno} (hp : s.parent = .kill err) :
      ParentStep s (.kill (some err')) { s with parent := .leave (.thrown (.kill err')) }
  | waitpid {err : Errno} (hp : s.parent = .waitpid err) (hchild : s.child = .zombie) :
      ParentStep s (.waitpid none)
        { s with parent := .leave (.thrown (.pidfdOpen err)), child := .reaped }
  | waitpidFails {err err' : Errno} (hp : s.parent = .waitpid err) :
      ParentStep s (.waitpid (some err')) { s with parent := .leave (.thrown (.pidfdOpen err)) }
  | interrupted (hp : s.parent = .signal ∨ s.parent = .read) : ParentStep s .interrupted s
  | signal (hp : s.parent = .signal) :
      ParentStep s (.signal none) { s with parent := .read, event := s.event + 1 }
  | signalFails {err : Errno} (hp : s.parent = .signal) :
      ParentStep s (.signal (some err)) { s with parent := .read }
  | readErrno {err : Errno} {errs : List Errno} (hp : s.parent = .read)
      (hpipe : s.execErrPipe = err :: errs) :
      ParentStep s .readErrno { s with parent := .closeReadEnd (some err), execErrPipe := errs }
  | readEof (hp : s.parent = .read) (hpipe : s.execErrPipe = [])
      (hwriter : ¬ s.table.Has .pipeWrite) (hchild : ¬ s.childTable.Has .pipeWrite) :
      ParentStep s .readEof { s with parent := .closeReadEnd none }
  | readFails {err : Errno} (hp : s.parent = .read) :
      ParentStep s (.readFails err) { s with parent := .unwind (.read err) }
  | closeReadEndErrno {err : Errno} (hp : s.parent = .closeReadEnd (some err)) :
      ParentStep s .closeReadEnd
        { s with parent := .wait err, table := s.table.erase s.locals.execErrPipeReadEnd }
  | closeReadEndEof (hp : s.parent = .closeReadEnd none) :
      ParentStep s .closeReadEnd
        { s with
          parent := .leave .returned
          table := s.table.erase s.locals.execErrPipeReadEnd }
  | wait {err : Errno} (hp : s.parent = .wait err) (hchild : s.child = .zombie) :
      ParentStep s (.wait none) { s with parent := .unwind (.launch err), child := .reaped }
  | waitFails {err err' : Errno} (hp : s.parent = .wait err) :
      ParentStep s (.wait (some err')) { s with parent := .unwind (.wait err') }
  | unwindReaped {cause : Cause} (hp : s.parent = .unwind cause) (hchild : s.child = .reaped) :
      ParentStep s .unwind { s with parent := .leave (.thrown cause) }
  | unwind {cause : Cause} (hp : s.parent = .unwind cause) (hchild : s.child ≠ .reaped) :
      ParentStep s .unwind
        { s with parent := .unwindWait cause, signalled := s.signalled ++ [.child] }
  | unwindWait {cause : Cause} (hp : s.parent = .unwindWait cause) (hchild : s.child = .zombie) :
      ParentStep s (.unwindWait none)
        { s with
          parent := .leave (.thrown cause)
          table := s.table.reset s.locals.pidfd
          locals := { s.locals with pidfd := -1 }
          child := .reaped }
  | unwindWaitFails {cause : Cause} {err : Errno} (hp : s.parent = .unwindWait cause) :
      ParentStep s (.unwindWait (some err))
        { s with
          parent := .leave (.thrown cause)
          table := s.table.reset s.locals.pidfd
          locals := { s.locals with pidfd := -1 } }
  | leave {outcome : Outcome} (hp : s.parent = .leave outcome) :
      ParentStep s .leave (s.leave outcome)

theorem parentStep_cases {s s' : State} {l : ParentLabel} (h : parentStep s l = some s') :
    ParentStep s l s' := by
  unfold parentStep at h
  -- first the steps that are always possible
  split at h <;> rename_i hp <;> try first
    | (cases h; done)
    | (cases h; constructor; exact hp)
  · dsimp only at h
    split at h
    · next hfresh => cases h; exact .pipe hp hfresh.1 hfresh.2
    · cases h
  · split at h
    · next hfresh => cases h; exact .eventfd hp hfresh
    · cases h
  · split at h
    · next hfresh => cases h; exact .pidfdOpen hp hfresh
    · cases h
  · split at h
    · next htarget => cases h; exact .kill hp htarget
    · cases h
  · split at h
    · next hchild => cases h; exact .waitpid hp hchild
    · cases h
  · cases h
    exact .interrupted (.inl hp)
  · cases h
    exact .interrupted (.inr hp)
  · split at h
    · cases h
    · next hpipe => cases h; exact .readErrno hp hpipe
  · split at h
    · next hends => cases h; exact .readEof hp hends.1 hends.2.1 hends.2.2
    · cases h
  · split at h
    · cases h; exact .readFails hp
    · cases h
  · split at h
    · next hchild => cases h; exact .wait hp hchild
    · cases h
  · split at h
    · next hchild => cases h; exact .unwindReaped hp hchild
    · next hchild => cases h; exact .unwind hp hchild
  · split at h
    · next hchild => cases h; exact .unwindWait hp hchild
    · cases h

/-- What a step of the child does, by cases. -/
inductive ChildStep (call : Call) (s : State) : ChildLabel → State → Prop
  | interrupted (hc : s.child = .readEvent ∨ ∃ err, s.child = .fail err) :
      ChildStep call s .interrupted s
  | readEvent (hc : s.child = .readEvent) (hevent : 0 < s.event) :
      ChildStep call s .readEvent { s with child := .closeEvent, event := 0 }
  | closeEvent (hc : s.child = .closeEvent) :
      ChildStep call s .closeEvent
        { s with
          child := .closeReadEnd
          childTable := s.childTable.reset s.childLocals.parentReadyFd
          childLocals := { s.childLocals with parentReadyFd := -1 } }
  | closeReadEnd (hc : s.child = .closeReadEnd) :
      ChildStep call s .closeReadEnd
        { s with
          child := .atDup2 call call.ioRedir.dup2s
          childTable := s.childTable.erase s.childLocals.execErrPipeReadEnd }
  | dup2 {source target : NativeHandle} {todo : List (NativeHandle × NativeHandle)}
      (hc : s.child = .dup2 ((source, target) :: todo))
      (hsource : (s.childTable.lookup source).isSome) :
      ChildStep call s (.dup2 none)
        { s with child := .atDup2 call todo, childTable := s.childTable.dup2 source target }
  | dup2Fails {err : Errno} {todo : List (NativeHandle × NativeHandle)}
      (hc : s.child = .dup2 todo) :
      ChildStep call s (.dup2 (some err)) { s with child := .fail err }
  | closeRange {range : InclusiveIntegralRange 32} {todo : List (InclusiveIntegralRange 32)}
      (hc : s.child = .closeRange (range :: todo)) :
      ChildStep call s (.closeRange none)
        { s with child := .atCloseRange todo, childTable := s.childTable.closeRange range }
  | closeRangeFails {err : Errno} {range : InclusiveIntegralRange 32}
      {todo : List (InclusiveIntegralRange 32)} (hc : s.child = .closeRange (range :: todo)) :
      ChildStep call s (.closeRange (some err)) { s with child := .atCloseRange todo }
  | execve (hc : s.child = .execve) :
      ChildStep call s (.execve none)
        { s with child := .program call.image, childTable := s.childTable.exec }
  | execveFails {err : Errno} (hc : s.child = .execve) :
      ChildStep call s (.execve (some err)) { s with child := .fail err }
  | writeErrno {err : Errno} (hc : s.child = .fail err)
      (hfile : (s.childTable.lookup s.childLocals.writeEnd).map Entry.file = some .pipeWrite) :
      ChildStep call s .writeErrno
        { s with child := .closeWriteEnd, execErrPipe := s.execErrPipe ++ [err] }
  | writeElsewhere {err : Errno} (hc : s.child = .fail err)
      (hfile : (s.childTable.lookup s.childLocals.writeEnd).map Entry.file ≠ some .pipeWrite) :
      ChildStep call s .writeErrno { s with child := .closeWriteEnd }
  | closeWriteEnd (hc : s.child = .closeWriteEnd) :
      ChildStep call s .closeWriteEnd
        { s with
          child := .exit
          childTable := s.childTable.reset s.childLocals.writeEnd
          childLocals := { s.childLocals with writeEnd := -1 } }
  | exit (hc : s.child = .exit ∨ ∃ image, s.child = .program image) :
      ChildStep call s .exit s.childEnds
  | act {image : Image} {table : DescriptorTable} {written : List Errno}
      (hc : s.child = .program image) (htable : s.childTable.MayBecome table)
      (hwritten : written = [] ∨ s.childTable.Has .pipeWrite) :
      ChildStep call s (.act table written)
        { s with childTable := table, execErrPipe := s.execErrPipe ++ written }
  | killed (hc : s.child.Alive) : ChildStep call s .killed s.childEnds

theorem childStep_cases {call : Call} {s s' : State} {l : ChildLabel}
    (h : childStep call s l = some s') : ChildStep call s l s' := by
  unfold childStep at h
  split at h <;> rename_i hc <;> try first
    | (cases h; done)
    | (cases h; constructor; exact hc)
  · cases h
    exact .interrupted (.inl hc)
  · split at h
    · next hevent => cases h; exact .readEvent hc hevent
    · cases h
  · split at h
    · next hsource => cases h; exact .dup2 hc hsource
    · cases h
  · split at h
    · cases h; exact .dup2Fails hc
    · cases h
  · cases h
    exact .interrupted (.inr ⟨_, hc⟩)
  · split at h
    · next hfile => cases h; exact .writeErrno hc hfile
    · next hfile => cases h; exact .writeElsewhere hc hfile
  · cases h
    exact .exit (.inl hc)
  · split at h
    · next hact => cases h; exact .act hc hact.1 hact.2
    · cases h
  · cases h
    exact .exit (.inr ⟨_, hc⟩)
  · split at h
    · next halive => cases h; exact .killed halive
    · cases h

/-! ## Runs -/

inductive Label
  | parent (l : ParentLabel)
  | child (l : ChildLabel)
  deriving DecidableEq

def State.step (call : Call) (s : State) : Label → Option State
  | .parent l => parentStep s l
  | .child l => childStep call s l

/-- The runs of a call of `spawn`. -/
def spawn (call : Call) : Lts State Label where
  init s := s = State.initial call
  step := State.step call

variable {call : Call} {s s' : State} {l : ChildLabel}

theorem Child.atCloseRange_alive (todo : List (InclusiveIntegralRange 32)) :
    (Child.atCloseRange todo).Alive := by
  cases todo <;> simp [Child.Alive, Child.atCloseRange]

theorem Child.atDup2_alive (todo : List (NativeHandle × NativeHandle)) :
    (Child.atDup2 call todo).Alive := by
  cases todo with
  | nil => exact Child.atCloseRange_alive _
  | cons => simp [Child.Alive, Child.atDup2]

theorem ChildStep.alive (h : ChildStep call s l s') : s.child.Alive := by
  cases h with
  | killed hc => exact hc
  | interrupted hc => rcases hc with hc | ⟨err, hc⟩ <;> simp [Child.Alive, hc]
  | exit hc => rcases hc with hc | ⟨image, hc⟩ <;> simp [Child.Alive, hc]
  | _ => simp_all [Child.Alive]

theorem ChildStep.alive_or_zombie (h : ChildStep call s l s') :
    s'.child.Alive ∨ s'.child = .zombie := by
  have halive := h.alive
  cases h with
  | closeReadEnd => exact .inl (Child.atDup2_alive _)
  | dup2 => exact .inl (Child.atDup2_alive _)
  | closeRange => exact .inl (Child.atCloseRange_alive _)
  | closeRangeFails => exact .inl (Child.atCloseRange_alive _)
  | interrupted | act => exact .inl halive
  | exit | killed => exact .inr rfl
  | _ => simp [Child.Alive]

theorem ChildStep.ne_none (h : ChildStep call s l s') : s'.child ≠ .none := by
  rcases h.alive_or_zombie with hafter | hafter
  · exact hafter.1
  · simp [hafter]

theorem ChildStep.ne_reaped (h : ChildStep call s l s') : s'.child ≠ .reaped := by
  rcases h.alive_or_zombie with hafter | hafter
  · exact hafter.2.2
  · simp [hafter]

/-- The parent forks a child, waits for it, or leaves it alone. -/
theorem ParentStep.child {s s' : State} {l : ParentLabel} (h : ParentStep s l s') :
    s'.child = s.child ∨ (s.parent = .fork ∧ s'.child = .readEvent) ∨ s'.child = .reaped := by
  cases h with
  | fork hp => exact .inr (.inl ⟨hp, rfl⟩)
  | waitpid | wait | unwindWait => exact .inr (.inr rfl)
  | _ => exact .inl rfl

/-- The child cannot touch what the parent has for itself. -/
theorem ChildStep.frame (h : ChildStep call s l s') :
    s'.parent = s.parent ∧ s'.table = s.table ∧ s'.locals = s.locals ∧
      s'.signalled = s.signalled := by
  cases h <;> exact ⟨rfl, rfl, rfl, rfl⟩

/-- **Induction over the runs of a call**, with what the steps of the two processes do. -/
theorem Reach.spawn_invariant {ok : State → Label → Prop} {I : List Label → State → Prop}
    (h0 : I [] (.initial call))
    (hparent : ∀ ls s l s', (spawn call).Reach ok ls s → I ls s → ok s (.parent l) →
      ParentStep s l s' → I (ls ++ [.parent l]) s')
    (hchild : ∀ ls s l s', (spawn call).Reach ok ls s → I ls s → ok s (.child l) →
      ChildStep call s l s' → I (ls ++ [.child l]) s')
    {ls : List Label} {s : State} (h : (spawn call).Reach ok ls s) : I ls s := by
  refine h.invariant (I := I) ?_ ?_
  · rintro s rfl
    exact h0
  · intro ls s l s' hreach ih hok hstep
    cases l with
    | parent l => exact hparent ls s l s' hreach ih hok (parentStep_cases hstep)
    | child l => exact hchild ls s l s' hreach ih hok (childStep_cases hstep)

/-! ## A call to evaluate -/

def exampleTable : DescriptorTable :=
  (((AList.singleton 0 ⟨.foreign 0, false⟩).insert 1 ⟨.foreign 1, false⟩).insert 2
    ⟨.foreign 2, false⟩).insert 7 ⟨.foreign 3, false⟩

/-- The descriptor 7 is forwarded, and is the standard error of the program. -/
def exampleCall : Call where
  path := "/bin/true"
  argv := []
  env := []
  ioRedir := ⟨-1, -1, 7⟩
  fdsToForward := [7, -1, 0]
  table := exampleTable
  inRange := by decide
  outside := by decide

/-- The steps of the parent up to the fork, and the ones that follow it. -/
def exampleFork : List Label :=
  [.parent (.pipe (.ok (3, 4))), .parent (.fcntl none), .parent (.eventfd (.ok 5)),
    .parent (.fork (.ok 100)), .parent .closeWriteEnd]

/-- The handshake, up to the point where the child has redirected its standard error. -/
def exampleHandshake : List Label :=
  exampleFork ++ [.parent (.pidfdOpen (.ok 4)), .parent (.signal none), .child .readEvent,
    .child .closeEvent, .child .closeReadEnd, .child (.dup2 none)]

def exampleFailure : List Label :=
  exampleHandshake ++ [.child (.closeRange none), .child (.closeRange none),
    .child (.execve (some ENOENT)), .child .writeErrno, .child .closeWriteEnd, .child .exit,
    .parent .readErrno, .parent .closeReadEnd, .parent (.wait none), .parent .unwind,
    .parent .leave]

def exampleSuccess : List Label :=
  exampleHandshake ++ [.child (.closeRange none), .child (.closeRange none), .child (.execve none),
    .parent .readEof, .parent .closeReadEnd, .parent .leave]

end ThePipe.OsServices.ProcMgmt
