import ThePipe.Client.Main
import ThePipe.Host.ClientProcessRepository
import ThePipe.OsServices.ProcMgmt.Handshake
import ThePipe.OsServices.ProcMgmt.ProgramTable

/-!
# The client that is loaded

What `load` passes to `spawn`, and what the client makes of it.  The argument is a startup
configuration with the number of the client's end of the socket pair, which is forwarded, and the
standard error of the client is the log pipe.

When `spawn` returns, the client has been executed; it has its ends of the pipe and of the socket
pair and nothing else of the host, finds its configuration, and exits with 0 when it has told so
(`loaded_client_starts`).
-/

set_option autoImplicit false

namespace ThePipe.Host.ClientProcessRepository

open OsServices ErrorHandling Ipc Jopp Log JsonLog ClientCtl Client Lib ProcMgmt

/-! ## The call of `spawn` -/

/-- What an open file description of the host is to `spawn`. -/
def fileOf (k : Kernel) (ofd : Ofd) : File :=
  match k.pidfdOf ofd with
  | some pid => .pidfd (.other pid)
  | none => .foreign ofd

theorem fileOf_outside (k : Kernel) (ofd : Ofd) : (fileOf k ofd).Outside := by
  unfold fileOf
  split <;> trivial

/-- The descriptor table of the host; `cloexec` are the flags of the descriptors. -/
def tableOf (k : Kernel) (cloexec : NativeHandle → Bool) : DescriptorTable :=
  Lib.AList.map k.descriptors fun fd ofd => ⟨fileOf k ofd, cloexec fd⟩

/-- The configuration that the client is given. -/
def startupConfig (ctlSockets : SocketPair) : StartupConfig :=
  .hostInfo ⟨.socketFdRef ⟨Int32.ofInt ctlSockets.socketB⟩⟩

/-- The call of `spawn` that `load` makes, when it has made the pipe and the sockets. -/
def spawnCall (toString : Object → String) (clientBinary : String) (logpipe : Pipe)
    (ctlSockets : SocketPair) (k : Kernel) (cloexec : NativeHandle → Bool)
    (hrange : ∀ fd ∈ k.descriptors, IsDescriptor fd) : ProcMgmt.Call where
  path := clientBinary
  argv := [toString (startupConfig ctlSockets).toJoppObject]
  env := []
  ioRedir := ⟨-1, -1, logpipe.writeEnd⟩
  fdsToForward := [ctlSockets.socketB]
  table := tableOf k cloexec
  inRange d hd := by
    obtain ⟨d', hd', rfl⟩ := List.mem_map.1 hd
    exact hrange _ (AList.mem_keys.2 (List.mem_map_of_mem hd'))
  outside d hd := by
    obtain ⟨d', -, rfl⟩ := List.mem_map.1 hd
    exact fileOf_outside k d'.2

/-! ## The endpoints -/

/-- The pipe and the sockets that `load` has made: four new descriptors, none of them a pidfd. -/
structure Endpoints (k k' : Kernel) (r w a b : ℤ) : Prop where
  frame : Frame k.descriptors [(b, k.nextOfd + 3), (a, k.nextOfd + 2), (w, k.nextOfd + 1),
    (r, k.nextOfd)] k'.descriptors
  pidfdOf : ∀ i : ℕ, i < 4 → k'.pidfdOf (k.nextOfd + i) = none
  nonneg : 0 ≤ w ∧ 0 ≤ b

theorem endpoints {k k₁ k₂ : Kernel} {r w a b : ℤ} {logpipe : Except SystemError Pipe}
    {ctlSockets : Except SystemError SocketPair} (hpipe : makePipe k (.ok (r, w)) = some (k₁, logpipe))
    (hsockets : makeSocketPair k₁ (.ok (a, b)) = some (k₂, ctlSockets)) :
    Endpoints k k₂ r w a b := by
  obtain ⟨-, k', hr, hw⟩ := makePipe_ok hpipe
  obtain ⟨-, k'', ha, hb⟩ := makeSocketPair_ok hsockets
  obtain ⟨⟨-, hrfresh⟩, rfl⟩ := Kernel.openDescriptor_eq_some.1 hr
  obtain ⟨⟨hwnonneg, hwfresh⟩, rfl⟩ := Kernel.openDescriptor_eq_some.1 hw
  obtain ⟨⟨-, hafresh⟩, rfl⟩ := Kernel.openDescriptor_eq_some.1 ha
  obtain ⟨⟨hbnonneg, hbfresh⟩, rfl⟩ := Kernel.openDescriptor_eq_some.1 hb
  refine ⟨?_, ?_, hwnonneg, hbnonneg⟩
  · have hr := (Frame.refl k.descriptors).cons (v := k.nextOfd) (AList.lookup_eq_none.2 hrfresh)
    have hw := hr.cons (v := k.nextOfd + 1) (AList.lookup_eq_none.2 hwfresh)
    have ha := hw.cons (v := k.nextOfd + 2) (AList.lookup_eq_none.2 hafresh)
    exact ha.cons (AList.lookup_eq_none.2 hbfresh)
  · intro i hi
    obtain rfl | rfl | rfl | rfl : i = 0 ∨ i = 1 ∨ i = 2 ∨ i = 3 := by omega
    all_goals simp [Function.update_apply]

section Table

variable {k k' : Kernel} {r w a b : ℤ} {cloexec : NativeHandle → Bool}

theorem lookup_tableOf (k : Kernel) (fd : NativeHandle) : (tableOf k cloexec).lookup fd =
    (k.descriptors.lookup fd).map fun ofd => ⟨fileOf k ofd, cloexec fd⟩ :=
  Lib.AList.lookup_map ..

theorem Endpoints.lookup (h : Endpoints k k' r w a b) {fd : NativeHandle} {i : ℕ} (hi : i < 4)
    (hmem : (fd, k.nextOfd + i) ∈ [(b, k.nextOfd + 3), (a, k.nextOfd + 2), (w, k.nextOfd + 1),
      (r, k.nextOfd)]) :
    (tableOf k' cloexec).lookup fd = some ⟨.foreign (k.nextOfd + i), cloexec fd⟩ := by
  rw [lookup_tableOf, h.frame.lookup_own hmem, Option.map_some, fileOf, h.pidfdOf i hi]

theorem Endpoints.lookup_old (h : Endpoints k k' r w a b) (hb : k.Bounded) {fd : NativeHandle}
    (hopen : fd ∈ k.descriptors) {entry : Entry} (hentry : (tableOf k' cloexec).lookup fd = some entry)
    (i : ℕ) : entry.file ≠ .foreign (k.nextOfd + i) := by
  obtain ⟨ofd, hofd⟩ := Option.isSome_iff_exists.1 (AList.lookup_isSome.2 hopen)
  have hlt := (hb.descriptors fd ofd hofd).trans_le (Nat.le_add_right _ i)
  have hnew : fd ∉ [(b, k.nextOfd + 3), (a, k.nextOfd + 2), (w, k.nextOfd + 1),
      (r, k.nextOfd)].map Prod.fst := by
    intro hmem
    obtain ⟨d, hd, rfl⟩ := List.mem_map.1 hmem
    rw [h.frame.fresh d hd] at hofd
    cases hofd
  rw [lookup_tableOf, h.frame.lookup, Frame.lookup_eq_none_iff.2 hnew, Option.none_or, hofd,
    Option.map_some, Option.some_inj] at hentry
  subst hentry
  unfold fileOf
  intro hfile
  split at hfile
  · cases hfile
  · exact hlt.ne (File.foreign.inj hfile)

theorem Endpoints.ne (h : Endpoints k k' r w a b) {fd : NativeHandle} (hopen : fd ∈ k.descriptors) :
    w ≠ fd ∧ b ≠ fd := by
  have hfresh := h.frame.fresh
  simp only [List.forall_mem_cons] at hfresh
  obtain ⟨hb, -, hw, -⟩ := hfresh
  refine ⟨?_, ?_⟩
  · rintro rfl
    exact AList.lookup_eq_none.1 hw hopen
  · rintro rfl
    exact AList.lookup_eq_none.1 hb hopen

theorem Endpoints.three_le (h : Endpoints k k' r w a b)
    (hstandard : ∀ fd ∈ ([0, 1, 2] : List ℤ), fd ∈ k.descriptors) : 3 ≤ w ∧ 3 ≤ b := by
  obtain ⟨hw, hb⟩ := h.nonneg
  obtain ⟨hw0, hb0⟩ := h.ne (hstandard 0 (by simp))
  obtain ⟨hw1, hb1⟩ := h.ne (hstandard 1 (by simp))
  obtain ⟨hw2, hb2⟩ := h.ne (hstandard 2 (by simp))
  omega

end Table

/-! ## What the client has -/

/-- The descriptors of the client, when the open file descriptions of the pipe and of the sockets
are those from `n` on: its ends of both, each once, and above the standard streams nothing else. -/
structure HasItsEnds (t : DescriptorTable) (n : ℕ) (b : ℤ) : Prop where
  logpipe : ∀ fd : ℤ, t.fileAt fd = some (.foreign (n + 1)) ↔ fd = 2
  socket : ∀ fd : ℤ, t.fileAt fd = some (.foreign (n + 3)) ↔ fd = b
  others : ∀ fd : ℤ, t.fileAt fd ≠ some (.foreign n) ∧ t.fileAt fd ≠ some (.foreign (n + 2))
  above : ∀ fd : ℤ, 3 ≤ fd → (fd ∈ t ↔ fd = b)

section Client

variable {toString : Object → String} {clientBinary : String} {k k' : Kernel} {r w a b : ℤ}
  {cloexec : NativeHandle → Bool} {hrange : ∀ fd ∈ k'.descriptors, IsDescriptor fd}

theorem dup2s_spawnCall (h : Endpoints k k' r w a b) :
    (spawnCall toString clientBinary ⟨r, w⟩ ⟨a, b⟩ k' cloexec hrange).ioRedir.dup2s = [(w, 2)] := by
  have hne : w ≠ -1 := by
    have hnonneg := h.nonneg.1
    omega
  simp [spawnCall, IoRedirection.dup2s, hne]

theorem Endpoints.prepared (h : Endpoints k k' r w a b)
    (hstandard : ∀ fd ∈ ([0, 1, 2] : List ℤ), fd ∈ k.descriptors) :
    (spawnCall toString clientBinary ⟨r, w⟩ ⟨a, b⟩ k' cloexec hrange).Prepared where
  standard fd hfd := by
    have hopen : fd ∈ k'.descriptors := h.frame.mem_iff.2 (.inl (hstandard fd hfd))
    rw [← AList.lookup_isSome] at hopen ⊢
    show ((tableOf k' cloexec).lookup fd).isSome
    rw [lookup_tableOf, Option.isSome_map]
    exact hopen
  redirected d hd := by
    rw [dup2s_spawnCall h, List.mem_singleton] at hd
    subst hd
    rw [← AList.lookup_isSome]
    exact Option.isSome_of_eq_some (h.lookup (i := 1) (by decide) (by simp))
  forwarded fd hfd := by
    obtain rfl := List.mem_singleton.1 hfd
    right
    rw [← AList.lookup_isSome]
    exact Option.isSome_of_eq_some (h.lookup (i := 3) (by decide) (by simp))

/-- The table of the program, from the standard error on. -/
theorem Endpoints.programTable (h : Endpoints k k' r w a b)
    (hstandard : ∀ fd ∈ ([0, 1, 2] : List ℤ), fd ∈ k.descriptors) (hb : cloexec b = false)
    (fd : ℤ) :
    (spawnCall toString clientBinary ⟨r, w⟩ ⟨a, b⟩ k' cloexec hrange).programTable fd =
      if fd = 2 then some ⟨.foreign (k.nextOfd + 1), false⟩
      else if fd = b then some ⟨.foreign (k.nextOfd + 3), false⟩
      else if fd < 3 then (tableOf k' cloexec).exec.lookup fd else none := by
  obtain ⟨hw3, hb3⟩ := h.three_le hstandard
  have hw : (tableOf k' cloexec).lookup w = some ⟨.foreign (k.nextOfd + 1), cloexec w⟩ :=
    h.lookup (i := 1) (by decide) (by simp)
  have hsocket : (tableOf k' cloexec).lookup b = some ⟨.foreign (k.nextOfd + 3), cloexec b⟩ :=
    h.lookup (i := 3) (by decide) (by simp)
  have hne : ∀ fd' : ℤ, fd' ≠ 2 →
      ((tableOf k' cloexec).dup2 w 2).lookup fd' = (tableOf k' cloexec).lookup fd' :=
    fun fd' hfd' => DescriptorTable.lookup_dup2_ne hfd'
  have hstream : ((tableOf k' cloexec).dup2 w 2).lookup 2 =
      some ⟨.foreign (k.nextOfd + 1), false⟩ := by
    have hw2 : w ≠ 2 := by omega
    simp [DescriptorTable.dup2, hw, hw2]
  unfold ProcMgmt.Call.programTable
  rw [dup2s_spawnCall h]
  by_cases h2 : fd = 2
  · subst h2
    rw [if_pos (.inl (by decide)), if_pos rfl, DescriptorTable.lookup_exec]
    exact ⟨hstream, rfl⟩
  · rw [if_neg h2]
    by_cases hfd : fd = b
    · subst hfd
      rw [if_pos (.inr (List.mem_singleton_self fd)), if_pos rfl, DescriptorTable.lookup_exec]
      exact ⟨by rw [← hb, ← hsocket]; exact hne fd h2, rfl⟩
    · rw [if_neg hfd]
      by_cases hlt : fd < 3
      · rw [if_pos (.inl hlt), if_pos hlt]
        ext entry
        rw [DescriptorTable.lookup_exec, DescriptorTable.lookup_exec, ← hne fd h2]
        rfl
      · rw [if_neg hlt, if_neg]
        rintro (hmem | hmem)
        · exact hlt hmem
        · exact hfd (List.mem_singleton.1 hmem)

theorem Endpoints.hasItsEnds (h : Endpoints k k' r w a b) (hbounded : k.Bounded)
    (hstandard : ∀ fd ∈ ([0, 1, 2] : List ℤ), fd ∈ k.descriptors) (hb : cloexec b = false)
    {t : DescriptorTable} (ht : ∀ fd, t.lookup fd =
      (spawnCall toString clientBinary ⟨r, w⟩ ⟨a, b⟩ k' cloexec hrange).programTable fd) :
    HasItsEnds t k.nextOfd b := by
  obtain ⟨-, hb3⟩ := h.three_le hstandard
  have hfile : ∀ (fd : ℤ) (i : ℕ), t.fileAt fd = some (.foreign (k.nextOfd + i)) ↔
      fd = 2 ∧ i = 1 ∨ fd = b ∧ i = 3 := by
    intro fd i
    rw [DescriptorTable.fileAt, ht, h.programTable hstandard hb]
    by_cases h2 : fd = 2
    · have hne : ¬ (2 = b) := by omega
      simp [h2, hne, eq_comm]
    · by_cases hfd : fd = b
      · have hne : ¬ (b = 2) := by omega
        simp [hfd, hne, eq_comm]
      · simp only [h2, hfd, if_false, false_and, or_self, iff_false]
        split
        · next hlt =>
          intro heq
          obtain ⟨entry, hentry, hfile⟩ := Option.map_eq_some_iff.1 heq
          obtain ⟨hold, -⟩ := DescriptorTable.lookup_exec.1 hentry
          -- the standard input and output are what they were in the host
          refine h.lookup_old hbounded (hstandard fd ?_) hold i hfile
          have hopen : fd ∈ k'.descriptors := by
            have hsome := Option.isSome_of_eq_some hold
            rwa [lookup_tableOf, Option.isSome_map, AList.lookup_isSome] at hsome
          obtain ⟨hnonneg, -⟩ := hrange fd hopen
          have hsmall : fd = 0 ∨ fd = 1 := by omega
          simp only [List.mem_cons]
          tauto
        · simp
  refine ⟨?_, ?_, ?_, ?_⟩
  · intro fd
    simpa using hfile fd 1
  · intro fd
    simpa using hfile fd 3
  · intro fd
    refine ⟨?_, ?_⟩
    · simpa using hfile fd 0
    · simpa using hfile fd 2
  · intro fd hge
    have h2 : ¬ (fd = 2) := by omega
    have hlt : ¬ (fd < 3) := by omega
    rw [← AList.lookup_isSome, ht, h.programTable hstandard hb, if_neg h2, if_neg hlt]
    split <;> simp [*]

end Client

/-! ## What the client makes of it -/

/-- What `main` gets from `execve`: the arguments up to the null pointer. -/
def arguments (image : Image) : List String :=
  (image.argv.takeWhile Option.isSome).filterMap id

theorem arguments_image (call : ProcMgmt.Call) :
    arguments call.image = call.path :: call.argv := by
  have htake : (call.argv.map some ++ [none]).takeWhile Option.isSome = call.argv.map some := by
    induction call.argv with
    | nil => rfl
    | cons arg argv ih =>
      rw [List.map_cons, List.cons_append, List.takeWhile_cons_of_pos rfl, ih]
  show ((some call.path :: (call.argv.map some ++ [none])).takeWhile
    Option.isSome).filterMap id = _
  rw [List.takeWhile_cons_of_pos rfl, htake]
  simp

/-- The machine as a process with the descriptors `t` sees it; `mode` are the file modes. -/
def machineOf (t : DescriptorTable) (mode : File → BitVec 32) (undef : Binary64 → Int32) :
    Machine where
  fstat fd :=
    match t.fileAt fd.toInt with
    | some file => .ok (mode file)
    | none => .error EBADF
  undef := undef

/-- A client that does what it has been loaded for: it finds its configuration and, however its
writes go, it has said so when it exits, and it exits when it can write. -/
structure Works {ζ : Type} (lib : Library) (machine : Machine) (S : Serializer ζ)
    (text : Object → List UInt8) (argv : List String) (cfg : StartupConfig) : Prop where
  startup : startup lib machine argv = .ok cfg
  exits : ∀ now, ∃ n, ∀ fuel ≥ n, ∀ calls, ∃ p, main lib machine S fuel argv now calls = some p ∧
    ((∀ c ∈ calls, GoesOn c) →
      (text (toJoppObject ⟨now, .info, "Process exited normally"⟩)).length ≤
        calls.countP Progresses → ∃ status, p.ending = .exited status) ∧
    ∀ status, p.ending = .exited status → status = 0 ∧
      p.stderr = text (toJoppObject ⟨now, .info, "Process exited normally"⟩)

section Starts

variable {ζ : Type} {lib : Library} {machine : Machine} {S : Serializer ζ}
  {text : Object → List UInt8} {argv : List String} {cfg : StartupConfig}

theorem works_of_startup (hS : S.Prints text) (h : startup lib machine argv = .ok cfg) :
    Works lib machine S text argv cfg := by
  refine ⟨h, ?_⟩
  intro now
  have hreport : report (startup lib machine argv) = (.info, "Process exited normally", 0) := by
    rw [h]
    rfl
  have hitem : logItem lib machine argv now = ⟨now, .info, "Process exited normally"⟩ := by
    rw [logItem_eq, hreport]
  obtain ⟨n, hn⟩ := main_cases lib machine hS argv now
  rw [hitem, hreport] at hn
  refine ⟨n, fun fuel hfuel calls => ?_⟩
  obtain ⟨p, hp, -, hcompletes, hcases⟩ := hn fuel hfuel calls
  refine ⟨p, hp, hcompletes, ?_⟩
  intro status hstatus
  rcases hcases with ⟨hexited, hall⟩ | ⟨hnot, -⟩
  · cases hexited.symm.trans hstatus
    exact ⟨rfl, hall⟩
  · exact absurd hstatus (hnot status)

variable {toString : Object → String} {clientBinary : String} {k k₁ k₂ : Kernel} {r w a b : ℤ}
  {logpipe : Except SystemError Pipe} {ctlSockets : Except SystemError SocketPair}
  {cloexec : NativeHandle → Bool} {hrange : ∀ fd ∈ k₂.descriptors, IsDescriptor fd}
  {mode : File → BitVec 32} {undef : Binary64 → Int32} {call : ProcMgmt.Call}
  {ls : List ProcMgmt.Label} {s : ProcMgmt.State}

theorem HasItsEnds.startup {t : DescriptorTable} {n : ℕ} (h : HasItsEnds t n b)
    (hb : IsDescriptor b) (hsock : isSock (mode (.foreign (n + 3))))
    (hparse : lib.parse (toString (startupConfig ⟨a, b⟩).toJoppObject) =
      .ok (.object (startupConfig ⟨a, b⟩).toJoppObject)) :
    startup lib (machineOf t mode undef)
      [clientBinary, toString (startupConfig ⟨a, b⟩).toJoppObject] =
        .ok (startupConfig ⟨a, b⟩) := by
  obtain ⟨hnonneg, hlt⟩ := hb
  have htoInt : (Int32.ofInt b).toInt = b := by
    apply Int32.toInt_ofInt_of_le <;> omega
  have hsocket : (machineOf t mode undef).OpenSocket (Int32.ofInt b) := by
    refine ⟨mode (.foreign (n + 3)), ?_, hsock⟩
    unfold machineOf
    dsimp only
    rw [htoInt, (h.socket b).2 rfl]
  have hmake := makeStartupConfig_hostInfo (by omega) hsocket
  have hargument : [clientBinary, toString (startupConfig ⟨a, b⟩).toJoppObject].getD 1 "" =
      toString (startupConfig ⟨a, b⟩).toJoppObject := rfl
  unfold Client.startup
  rw [if_neg (by simp), hargument, hparse]
  show (makeStartupConfig _ (startupConfig ⟨a, b⟩).toJoppObject).mapError _ = _
  rw [startupConfig, hmake]
  rfl

/-- **The client that is loaded starts.**  Whatever else a host with open standard streams has open,
and however the steps of the host and of its child are interleaved when `close_range` does not fail
and nobody but the host kills the child: if `spawn` returns, the child has at one point become the
client, with its ends of the pipe and of the sockets and no other descriptor of the host above the
standard streams.  From there on the client works: it finds its end of the sockets by what is on its
command line, and exits with 0, after it has said so on the log pipe. -/
theorem loaded_client_starts (hbounded : k.Bounded)
    (hstandard : ∀ fd ∈ ([0, 1, 2] : List ℤ), fd ∈ k.descriptors)
    (hpipe : makePipe k (.ok (r, w)) = some (k₁, logpipe))
    (hsockets : makeSocketPair k₁ (.ok (a, b)) = some (k₂, ctlSockets))
    (hcloexec : cloexec b = false) (hsock : isSock (mode (.foreign (k.nextOfd + 3))))
    (hparse : lib.parse (toString (startupConfig ⟨a, b⟩).toJoppObject) =
      .ok (.object (startupConfig ⟨a, b⟩).toJoppObject))
    (hS : S.Prints text)
    (hcall : call = spawnCall toString clientBinary ⟨r, w⟩ ⟨a, b⟩ k₂ cloexec hrange)
    (h : (ProcMgmt.spawn call).Reach Undisturbed ls s) (hreturned : s.parent = .left .returned) :
    ∃ before after s₁ s₂ image, ls = before ++ .child (.execve none) :: after ∧
      (ProcMgmt.spawn call).Reach Undisturbed before s₁ ∧
      s₁.step call (.child (.execve none)) = some s₂ ∧
      s₂.child = .program image ∧ image.path = clientBinary ∧
      HasItsEnds s₂.childTable k.nextOfd b ∧
      Works lib (machineOf s₂.childTable mode undef) S text (arguments image)
        (startupConfig ⟨a, b⟩) := by
  have hends := endpoints hpipe hsockets
  have hprepared : call.Prepared := by
    rw [hcall]
    exact hends.prepared hstandard
  have honce : call.ForwardsOnce := by
    rw [hcall]
    exact .inl (List.nodup_singleton b)
  have hexecuted : Executed ls := (Reach.handshake hprepared h).ended (by rw [hreturned]; trivial)
  obtain ⟨before, after, s₁, s₂, hsplit, hreach, hok, hexecve⟩ := Lts.Reach.of_mem h hexecuted
  have hmarked := Reach.markedAt (hreach.mono fun _ _ hok => hok.1)
  obtain ⟨hprogram, htable⟩ := hmarked.execve hprepared honce hexecve
  subst hcall
  have hitsEnds := hends.hasItsEnds hbounded hstandard hcloexec htable
  have hb : IsDescriptor b := hrange b (hends.frame.mem_iff.2 (.inr (by simp)))
  refine ⟨before, after, s₁, s₂, _, hsplit, hreach, hexecve, hprogram, rfl, hitsEnds, ?_⟩
  apply works_of_startup hS
  rw [arguments_image]
  exact hitsEnds.startup hb hsock hparse

/-- A host with its standard streams and an epoll instance. -/
def exampleHost : Kernel where
  descriptors := (((AList.singleton 3 3).insert 2 2).insert 1 1).insert 0 0
  elsewhere := fun _ => 0
  nextOfd := 4
  pidfdOf := fun _ => none
  processes := fun _ => .running
  interest := fun _ => none
  errno := 0

/-- The host with a pipe, which is 4 and 5, and with the sockets 6 and 7. -/
def exampleEnds : Kernel :=
  { exampleHost with
    descriptors := (((exampleHost.descriptors.insert 4 4).insert 5 5).insert 6 6).insert 7 7
    nextOfd := 8
    pidfdOf := Function.update (Function.update (Function.update (Function.update
      exampleHost.pidfdOf 4 none) 5 none) 6 none) 7 none }

theorem exampleEnds_inRange : ∀ fd ∈ exampleEnds.descriptors, IsDescriptor fd := by
  have hkeys : ∀ fd ∈ exampleEnds.descriptors.keys, IsDescriptor fd := by decide
  exact hkeys

theorem exampleHost_bounded : exampleHost.Bounded where
  descriptors fd ofd hlookup := by
    have hentries : ∀ d ∈ exampleHost.descriptors.entries, d.2 < 4 := by decide
    exact hentries _ (AList.mem_lookup_iff.1 hlookup)
  interest key event h := by cases h

def exampleSpawn : ProcMgmt.Call :=
  spawnCall (fun _ => exampleText) "client" ⟨4, 5⟩ ⟨6, 7⟩ exampleEnds (fun _ => false)
    exampleEnds_inRange

/-- The host spawns a client, with the error pipe 8 and 9 and the eventfd 10. -/
def exampleLaunch : List ProcMgmt.Label :=
  [.parent (.pipe (.ok (8, 9))), .parent (.fcntl none), .parent (.eventfd (.ok 10)),
    .parent (.fork (.ok 100)), .parent .closeWriteEnd, .parent (.pidfdOpen (.ok 9)),
    .parent (.signal none), .child .readEvent, .child .closeEvent, .child .closeReadEnd,
    .child (.dup2 none), .child (.closeRange none), .child (.closeRange none),
    .child (.execve none), .parent .readEof, .parent .closeReadEnd, .parent .leave]

/-- The client's socket is a socket, and the rest are pipes. -/
def exampleMode (file : File) : BitVec 32 := if file = .foreign 7 then 0o140777 else 0o10600

/-- The client has its socket as 7, and has read that on its command line. -/
theorem loaded_client_starts_example : ∃ (t : DescriptorTable) (argv : List String),
    HasItsEnds t 4 7 ∧
      Client.startup exampleLibrary
        (machineOf t exampleMode fun _ => 0) argv = .ok (.hostInfo ⟨.socketFdRef ⟨7⟩⟩) := by
  have hrun : ((ProcMgmt.spawn exampleSpawn).run Undisturbed (.initial exampleSpawn)
      exampleLaunch).map (·.parent) = some (.left .returned) := by decide
  obtain ⟨s, hs, hreturned⟩ := Lts.Reach.exists_of_map_run rfl hrun
  have hstandard : ∀ fd ∈ ([0, 1, 2] : List ℤ), fd ∈ exampleHost.descriptors := by decide
  have hsock : isSock (exampleMode (.foreign (exampleHost.nextOfd + 3))) := by decide
  have hparse : exampleLibrary.parse exampleText =
      .ok (.object (startupConfig ⟨6, 7⟩).toJoppObject) := by
    simp [exampleLibrary, exampleConfig, startupConfig]
  obtain ⟨-, -, -, s₂, image, -, -, -, -, -, hends, hworks⟩ :=
    loaded_client_starts exampleHost_bounded hstandard rfl rfl rfl hsock hparse
      Flat.serializer_prints rfl hs hreturned
  exact ⟨s₂.childTable, _, hends, hworks.startup⟩

end Starts

end ThePipe.Host.ClientProcessRepository
