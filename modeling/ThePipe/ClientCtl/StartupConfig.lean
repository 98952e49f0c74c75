import ThePipe.ClientCtl.Maps

/-!
# The startup configuration

A client is told on its command line whether to connect to a host, and by which socket, or to run
on its own on files.  The configuration travels as a JSON object.  What comes in from the wire is
checked field by field; a descriptor must be an integer in the range of `int`, and a socket that is
open here, which `fstat` says.

The decoder accepts the objects of `Schema` and drops nothing from them but unknown fields
(`makeStartupConfig_spec`), and it takes back what the encoder makes
(`makeStartupConfig_toJoppObject`).
-/

set_option autoImplicit false

namespace ThePipe.ClientCtl

open Jopp Lib OsServices.ErrorHandling

/-! ## The address of the host -/

def S_IFMT : BitVec 32 := 0o170000
def S_IFSOCK : BitVec 32 := 0o140000

/-- `S_ISSOCK` -/
def isSock (mode : BitVec 32) : Prop := mode &&& S_IFMT = S_IFSOCK

instance : DecidablePred isSock := fun mode => by unfold isSock; infer_instance

structure SocketFdRef where
  nativeHandle : Int32
  deriving DecidableEq

/-- `host_address_type_info<socket_fd_ref>::name` -/
def SocketFdRef.typeInfoName : String := "socket_fd"

inductive HostAddress
  | socketFdRef (ref : SocketFdRef)
  deriving DecidableEq

/-- What the conversions use of the machine. -/
structure Machine where
  /-- The file mode of an open descriptor. -/
  fstat : Int32 → Except Errno (BitVec 32)
  /-- What a double that is out of range is converted to. -/
  undef : Binary64 → Int32

/-- `to_jopp_value(socket_fd_ref)` -/
def SocketFdRef.toJoppValue (value : SocketFdRef) : Binary64 := .ofInt value.nativeHandle.toInt

def makeSocketFdRef (machine : Machine) (value : Binary64) : Except Exception SocketFdRef :=
  if value.lt (.finite 0) ∨ Binary64.lt (.finite 2147483647) value then
    .error (.runtimeError "Invalid socket_fd")
  else
    let fdVal := value.toInt32 machine.undef
    if ¬ (Binary64.ofInt fdVal.toInt).eq value then .error (.runtimeError "Invalid socket_fd")
    else
      match machine.fstat fdVal with
      | .error err => .error (.systemError ⟨"Invalid socket_fd", err⟩)
      | .ok mode =>
        if ¬ isSock mode then .error (.runtimeError "socket_fd is not a socket")
        else .ok ⟨fdVal⟩

/-- `to_jopp_object(host_address)` -/
def HostAddress.toJoppObject (address : HostAddress) : Object :=
  match address with
  | .socketFdRef object =>
    let ret : Object := []
    let ret := Object.insert "type" (.string SocketFdRef.typeInfoName) ret
    Object.insert "value" (.number object.toJoppValue) ret

def makeHostAddress (machine : Machine) (obj : Object) : Except Exception HostAddress := do
  let type ← getFieldAs Value.asString obj "type"
  if type = SocketFdRef.typeInfoName then
    let ref ← makeSocketFdRef machine (← getFieldAs Value.asNumber obj "value")
    .ok (.socketFdRef ref)
  else .error (.runtimeError "The given host address type is not supported")

/-! ## The host -/

structure HostInfo where
  address : HostAddress
  deriving DecidableEq

/-- `operational_mode_info<host_info>::name` -/
def HostInfo.modeInfoName : String := "connected_to_host"

/-- `to_jopp_object(host_info)` -/
def HostInfo.toJoppObject (object : HostInfo) : Object :=
  Object.insert "address" (.object object.address.toJoppObject) []

def makeHostInfo (machine : Machine) (object : Object) : Except Exception HostInfo := do
  let address ← makeHostAddress machine (← getFieldAs Value.asObject object "address")
  .ok { address := address }

/-! ## The files -/

/-- `std::filesystem::path` -/
abbrev Path := String

abbrev InputPortFileMap := SortedMap String Path

/-- `to_jopp_object(input_port_file_map)` -/
def inputPortFileMapToJoppObject (object : InputPortFileMap) : Object :=
  mapToObject (fun path => .string path) object

def makeInputPortFileMap (object : Object) : Except Exception InputPortFileMap :=
  makeMap (get Value.asString) object

abbrev OutputPortFileMap := SortedMap String (List Path)

/-- The paths of one output port. -/
def pathsToArray (paths : List Path) : Value :=
  .array (paths.foldl (fun items path => items ++ [.string path]) [])

/-- `to_jopp_object(output_port_file_map)` -/
def outputPortFileMapToJoppObject (object : OutputPortFileMap) : Object :=
  mapToObject pathsToArray object

def makePaths (value : Value) : Except Exception (List Path) := do
  let items ← get Value.asArray value
  items.foldlM (fun paths item => (get Value.asString item).map fun path => paths ++ [path]) []

def makeOutputPortFileMap (object : Object) : Except Exception OutputPortFileMap :=
  makeMap makePaths object

structure StandaloneConfig where
  inputs : InputPortFileMap
  outputs : OutputPortFileMap

/-- `operational_mode_info<standalone_config>::name` -/
def StandaloneConfig.modeInfoName : String := "standalone"

/-- `to_jopp_object(standalone_config)` -/
def StandaloneConfig.toJoppObject (cfg : StandaloneConfig) : Object :=
  let ret : Object := []
  let ret := Object.insert "inputs" (.object (inputPortFileMapToJoppObject cfg.inputs)) ret
  Object.insert "outputs" (.object (outputPortFileMapToJoppObject cfg.outputs)) ret

def makeStandaloneConfig (obj : Object) : Except Exception StandaloneConfig := do
  let inputs ← makeInputPortFileMap (← getFieldAs Value.asObject obj "inputs")
  let outputs ← makeOutputPortFileMap (← getFieldAs Value.asObject obj "outputs")
  .ok { inputs := inputs, outputs := outputs }

/-! ## The configuration -/

inductive StartupConfig
  | hostInfo (item : HostInfo)
  | standaloneConfig (item : StandaloneConfig)

/-- A mode and its parameters. -/
def modeToJoppObject (name : String) (parameters : Object) : Object :=
  let ret : Object := []
  let ret := Object.insert "operational_mode" (.string name) ret
  Object.insert "parameters" (.object parameters) ret

/-- `to_jopp_object(startup_config)` -/
def StartupConfig.toJoppObject : StartupConfig → Object
  | .hostInfo item => modeToJoppObject HostInfo.modeInfoName item.toJoppObject
  | .standaloneConfig item => modeToJoppObject StandaloneConfig.modeInfoName item.toJoppObject

def makeStartupConfig (machine : Machine) (object : Object) : Except Exception StartupConfig := do
  let operationalMode ← getFieldAs Value.asString object "operational_mode"
  if operationalMode = "connected_to_host" then
    let item ← makeHostInfo machine (← getFieldAs Value.asObject object "parameters")
    .ok (.hostInfo item)
  else if operationalMode = "standalone" then
    let item ← makeStandaloneConfig (← getFieldAs Value.asObject object "parameters")
    .ok (.standaloneConfig item)
  else .error (.runtimeError "The given operational mode is not supported")

/-! ## What the decoders accept -/

/-- The descriptor is open, and a socket. -/
def Machine.OpenSocket (machine : Machine) (fd : Int32) : Prop :=
  ∃ mode, machine.fstat fd = .ok mode ∧ isSock mode

theorem ofInt_toInt (fd : Int32) : Binary64.ofInt fd.toInt = .finite fd.toInt := by
  have hlt := fd.toInt_lt
  have hle := fd.le_toInt
  refine Binary64.ofInt_eq (abs_lt.2 ⟨?_, ?_⟩) <;> omega

/-- The first two checks let the integers of the range through, and nothing else. -/
theorem checks_iff (undef : Binary64 → Int32) (value : Binary64) :
    (¬ (value.lt (.finite 0) ∨ Binary64.lt (.finite 2147483647) value) ∧
        (Binary64.ofInt (value.toInt32 undef).toInt).eq value) ↔
      value = .finite (value.toInt32 undef).toInt ∧ 0 ≤ (value.toInt32 undef).toInt := by
  rw [ofInt_toInt, Binary64.eq_finite]
  generalize hfd : value.toInt32 undef = fd
  have hle : fd.toInt ≤ 2147483647 := by
    have hlt := fd.toInt_lt
    omega
  constructor
  · rintro ⟨hrange, rfl⟩
    refine ⟨rfl, ?_⟩
    rw [not_or] at hrange
    simpa [Binary64.lt] using hrange.1
  · rintro ⟨rfl, hnonneg⟩
    refine ⟨?_, rfl⟩
    have hle' : ((fd.toInt : ℤ) : ℚ) ≤ 2147483647 := by exact_mod_cast hle
    simpa [Binary64.lt] using ⟨hnonneg, hle'⟩

section Decoders

variable {machine : Machine} {obj : Object}

theorem makeSocketFdRef_eq_ok {value : Binary64} {ref : SocketFdRef} :
    makeSocketFdRef machine value = .ok ref ↔ value = ref.toJoppValue ∧
      0 ≤ ref.nativeHandle.toInt ∧ machine.OpenSocket ref.nativeHandle := by
  have hchecks := checks_iff machine.undef value
  unfold makeSocketFdRef SocketFdRef.toJoppValue
  rw [ofInt_toInt]
  constructor
  · intro h
    split at h
    · cases h
    · next hrange =>
      dsimp only at h
      split at h
      · cases h
      · next heq =>
        obtain ⟨hvalue, hnonneg⟩ := hchecks.1 ⟨hrange, not_not.1 heq⟩
        split at h
        · cases h
        · next mode hmode =>
          split at h
          · cases h
          · next hsock =>
            cases h
            exact ⟨hvalue, hnonneg, mode, hmode, not_not.1 hsock⟩
  · rintro ⟨rfl, hnonneg, mode, hmode, hsock⟩
    rw [Binary64.toInt32_toInt] at hchecks ⊢
    obtain ⟨hrange, heq⟩ := hchecks.2 ⟨rfl, hnonneg⟩
    rw [if_neg hrange, if_neg (not_not.2 heq)]
    simp only [hmode, hsock, not_true, if_false]

theorem makeHostAddress_eq_ok {ref : SocketFdRef} :
    makeHostAddress machine obj = .ok (.socketFdRef ref) ↔
      obj.lookup "type" = some (.string "socket_fd") ∧
      obj.lookup "value" = some (.number ref.toJoppValue) ∧
      0 ≤ ref.nativeHandle.toInt ∧ machine.OpenSocket ref.nativeHandle := by
  unfold makeHostAddress
  rw [bind_eq_ok]
  constructor
  · rintro ⟨type, htype, h⟩
    split at h
    · next hname =>
      obtain ⟨value, hvalue, h⟩ := bind_eq_ok.1 h
      obtain ⟨ref', href, h⟩ := bind_eq_ok.1 h
      cases h
      obtain ⟨rfl, hnonneg, hsocket⟩ := makeSocketFdRef_eq_ok.1 href
      rw [hname] at htype
      exact ⟨getFieldAs_asString.1 htype, getFieldAs_asNumber.1 hvalue, hnonneg, hsocket⟩
    · cases h
  · rintro ⟨htype, hvalue, hnonneg, hsocket⟩
    refine ⟨"socket_fd", getFieldAs_asString.2 htype, ?_⟩
    rw [if_pos (show "socket_fd" = SocketFdRef.typeInfoName from rfl), bind_eq_ok]
    refine ⟨_, getFieldAs_asNumber.2 hvalue, ?_⟩
    rw [makeSocketFdRef_eq_ok.2 ⟨rfl, hnonneg, hsocket⟩]
    rfl

theorem makeHostInfo_eq_ok {info : HostInfo} :
    makeHostInfo machine obj = .ok info ↔ ∃ address,
      obj.lookup "address" = some (.object address) ∧
      makeHostAddress machine address = .ok info.address := by
  unfold makeHostInfo
  simp only [bind_eq_ok, getFieldAs_asObject]
  constructor
  · rintro ⟨address, haddress, a, ha, h⟩
    cases h
    exact ⟨address, haddress, ha⟩
  · rintro ⟨address, haddress, ha⟩
    exact ⟨address, haddress, info.address, ha, rfl⟩

theorem makeStandaloneConfig_eq_ok {cfg : StandaloneConfig} :
    makeStandaloneConfig obj = .ok cfg ↔ ∃ inputs outputs,
      obj.lookup "inputs" = some (.object inputs) ∧
      obj.lookup "outputs" = some (.object outputs) ∧
      makeInputPortFileMap inputs = .ok cfg.inputs ∧
      makeOutputPortFileMap outputs = .ok cfg.outputs := by
  unfold makeStandaloneConfig
  simp only [bind_eq_ok, getFieldAs_asObject]
  constructor
  · rintro ⟨inputs, hinputs, i, hi, outputs, houtputs, o, ho, h⟩
    cases h
    exact ⟨inputs, outputs, hinputs, houtputs, hi, ho⟩
  · rintro ⟨inputs, outputs, hinputs, houtputs, hi, ho⟩
    exact ⟨inputs, hinputs, cfg.inputs, hi, outputs, houtputs, cfg.outputs, ho, rfl⟩

theorem makeStartupConfig_eq_ok {cfg : StartupConfig} :
    makeStartupConfig machine obj = .ok cfg ↔ ∃ parameters,
      obj.lookup "parameters" = some (.object parameters) ∧
      match cfg with
      | .hostInfo item => obj.lookup "operational_mode" = some (.string "connected_to_host") ∧
          makeHostInfo machine parameters = .ok item
      | .standaloneConfig item => obj.lookup "operational_mode" = some (.string "standalone") ∧
          makeStandaloneConfig parameters = .ok item := by
  unfold makeStartupConfig
  rw [bind_eq_ok]
  simp only [getFieldAs_asString]
  constructor
  · rintro ⟨mode, hmode, h⟩
    split at h
    · next hname =>
      obtain ⟨parameters, hparameters, h⟩ := bind_eq_ok.1 h
      obtain ⟨item, hitem, h⟩ := bind_eq_ok.1 h
      cases h
      rw [hname] at hmode
      exact ⟨parameters, getFieldAs_asObject.1 hparameters, hmode, hitem⟩
    · split at h
      · next hname =>
        obtain ⟨parameters, hparameters, h⟩ := bind_eq_ok.1 h
        obtain ⟨item, hitem, h⟩ := bind_eq_ok.1 h
        cases h
        rw [hname] at hmode
        exact ⟨parameters, getFieldAs_asObject.1 hparameters, hmode, hitem⟩
      · cases h
  · rintro ⟨parameters, hparameters, h⟩
    cases cfg with
    | hostInfo item =>
      obtain ⟨hmode, hitem⟩ := h
      refine ⟨_, hmode, ?_⟩
      rw [if_pos rfl, bind_eq_ok]
      refine ⟨parameters, getFieldAs_asObject.2 hparameters, ?_⟩
      rw [hitem]
      rfl
    | standaloneConfig item =>
      obtain ⟨hmode, hitem⟩ := h
      refine ⟨_, hmode, ?_⟩
      rw [if_neg (by decide), if_pos rfl, bind_eq_ok]
      refine ⟨parameters, getFieldAs_asObject.2 hparameters, ?_⟩
      rw [hitem]
      rfl

end Decoders

/-! ## Paths -/

theorem pathsToArray_eq (paths : List Path) : pathsToArray paths = .array (paths.map .string) := by
  have happend : ∀ items : List Value,
      paths.foldl (fun items path => items ++ [.string path]) items =
        items ++ paths.map .string := by
    induction paths with
    | nil => simp
    | cons path paths ih => simp [ih]
  rw [pathsToArray, happend, List.nil_append]

theorem get_asString {v : Value} {s : String} : get Value.asString v = .ok s ↔ v = .string s := by
  rw [get_eq_ok, Value.asString_eq_some]

theorem makePaths_eq_ok {v : Value} {paths : List Path} :
    makePaths v = .ok paths ↔ v = pathsToArray paths := by
  unfold makePaths
  simp only [bind_eq_ok, get_eq_ok, Value.asArray_eq_some, foldlM_append_eq_ok, List.nil_append,
    exists_eq_left', Value.asString_eq_some, pathsToArray_eq, forall₂_eq_map]
  constructor
  · rintro ⟨items, rfl, rfl⟩
    rfl
  · rintro rfl
    exact ⟨_, rfl, rfl⟩

/-! ## What the encoders make -/

theorem HostAddress.toJoppObject_eq (ref : SocketFdRef) :
    (HostAddress.socketFdRef ref).toJoppObject =
      [("type", .string "socket_fd"), ("value", .number ref.toJoppValue)] :=
  Object.insert_insert (by decide)

theorem StandaloneConfig.toJoppObject_eq (cfg : StandaloneConfig) : cfg.toJoppObject =
    [("inputs", .object (inputPortFileMapToJoppObject cfg.inputs)),
      ("outputs", .object (outputPortFileMapToJoppObject cfg.outputs))] :=
  Object.insert_insert (by decide)

theorem modeToJoppObject_eq (name : String) (parameters : Object) :
    modeToJoppObject name parameters =
      [("operational_mode", .string name), ("parameters", .object parameters)] :=
  Object.insert_insert (by decide)

/-! ## The round trip -/

/-- What the decoding process needs: the socket of a host is open there. -/
def StartupConfig.Usable (machine : Machine) : StartupConfig → Prop
  | .hostInfo ⟨.socketFdRef ref⟩ =>
    0 ≤ ref.nativeHandle.toInt ∧ machine.OpenSocket ref.nativeHandle
  | .standaloneConfig _ => True

/-- A startup configuration survives the wire. -/
theorem makeStartupConfig_toJoppObject {machine : Machine} {cfg : StartupConfig}
    (h : cfg.Usable machine) : makeStartupConfig machine cfg.toJoppObject = .ok cfg := by
  rw [makeStartupConfig_eq_ok]
  cases cfg with
  | hostInfo item =>
    obtain ⟨⟨ref⟩⟩ := item
    obtain ⟨hnonneg, hsocket⟩ := h
    refine ⟨_, by rw [StartupConfig.toJoppObject, modeToJoppObject_eq]; rfl, ?_, ?_⟩
    · rw [StartupConfig.toJoppObject, modeToJoppObject_eq]
      rfl
    · rw [makeHostInfo_eq_ok]
      refine ⟨_, rfl, ?_⟩
      rw [makeHostAddress_eq_ok, HostAddress.toJoppObject_eq]
      exact ⟨rfl, rfl, hnonneg, hsocket⟩
  | standaloneConfig item =>
    refine ⟨_, by rw [StartupConfig.toJoppObject, modeToJoppObject_eq]; rfl, ?_, ?_⟩
    · rw [StartupConfig.toJoppObject, modeToJoppObject_eq]
      rfl
    · rw [makeStandaloneConfig_eq_ok, StandaloneConfig.toJoppObject_eq]
      refine ⟨_, _, rfl, rfl, ?_, ?_⟩
      · exact makeMap_mapToObject fun path => get_asString.2 rfl
      · exact makeMap_mapToObject fun paths => makePaths_eq_ok.2 rfl

/-- A process in which 7 is a socket and no other descriptor is open. -/
def exampleMachine : Machine where
  fstat fd := if fd = 7 then .ok 0o140777 else .error 9
  undef _ := 0

/-- A host, and files of which one is written to twice. -/
theorem startupConfigs_come_back :
    makeStartupConfig exampleMachine (StartupConfig.hostInfo ⟨.socketFdRef ⟨7⟩⟩).toJoppObject =
        .ok (.hostInfo ⟨.socketFdRef ⟨7⟩⟩) ∧
      makeStartupConfig exampleMachine (StartupConfig.standaloneConfig
          ⟨⟨[("in", "a.exr")], by decide⟩, ⟨[("none", []), ("out", ["b", "a", "b"])], by decide⟩⟩
          ).toJoppObject =
        .ok (.standaloneConfig
          ⟨⟨[("in", "a.exr")], by decide⟩, ⟨[("none", []), ("out", ["b", "a", "b"])], by decide⟩⟩) :=
  ⟨makeStartupConfig_toJoppObject ⟨by decide, 0o140777, rfl, by decide⟩,
    makeStartupConfig_toJoppObject trivial⟩

/-! ## The schema -/

/-- The objects that the decoder accepts. -/
inductive Schema (machine : Machine) (obj : Object) : Prop
  | connectedToHost {parameters address : Object} {n : ℤ}
      (hmode : obj.lookup "operational_mode" = some (.string "connected_to_host"))
      (hparameters : obj.lookup "parameters" = some (.object parameters))
      (haddress : parameters.lookup "address" = some (.object address))
      (htype : address.lookup "type" = some (.string "socket_fd"))
      (hvalue : address.lookup "value" = some (.number (.finite n)))
      (hnonneg : 0 ≤ n) (hle : n ≤ 2 ^ 31 - 1) (hsocket : machine.OpenSocket (Int32.ofInt n))
  | standalone {parameters inputs outputs : Object}
      (hmode : obj.lookup "operational_mode" = some (.string "standalone"))
      (hparameters : obj.lookup "parameters" = some (.object parameters))
      (hinputs : parameters.lookup "inputs" = some (.object inputs))
      (hpath : ∀ field ∈ inputs, ∃ path, field.2 = .string path)
      (houtputs : parameters.lookup "outputs" = some (.object outputs))
      (hpaths : ∀ field ∈ outputs, ∃ items, field.2 = .array items ∧
        ∀ item ∈ items, ∃ path, item = .string path)

/-- Changes the objects among the values of the fields. -/
def mapObjects (f : Object → Object) (obj : Object) : Object :=
  obj.map fun field =>
    (field.1, match field.2 with | .object value => .object (f value) | value => value)

/-- The parameters of a host without the unknown fields. -/
def knownHostInfo (parameters : Object) : Object :=
  mapObjects (Object.restrict ["type", "value"]) (parameters.restrict ["address"])

/-- A configuration without the unknown fields of its records. -/
def knownFields (obj : Object) : Object :=
  let record := obj.restrict ["operational_mode", "parameters"]
  if obj.tryGetFieldAs Value.asString "operational_mode" = some "connected_to_host" then
    mapObjects knownHostInfo record
  else mapObjects (Object.restrict ["inputs", "outputs"]) record

theorem makePaths_isOk {v : Value} : (∃ paths, makePaths v = .ok paths) ↔
    ∃ items, v = .array items ∧ ∀ item ∈ items, ∃ path, item = .string path := by
  unfold makePaths
  simp only [bind_eq_ok, get_eq_ok, Value.asArray_eq_some]
  constructor
  · rintro ⟨paths, items, rfl, hpaths⟩
    refine ⟨items, rfl, fun item hitem => ?_⟩
    obtain ⟨path, hpath⟩ := foldlM_map_isOk.1 ⟨paths, hpaths⟩ item hitem
    exact ⟨path, get_asString.1 hpath⟩
  · rintro ⟨items, rfl, hitems⟩
    obtain ⟨paths, hpaths⟩ := foldlM_map_isOk.2 fun item hitem => by
      obtain ⟨path, rfl⟩ := hitems item hitem
      exact ⟨path, get_asString.2 rfl⟩
    exact ⟨paths, items, rfl, hpaths⟩

section Schema

variable {machine : Machine} {obj : Object}

theorem schema_of_ok {cfg : StartupConfig} (h : makeStartupConfig machine obj = .ok cfg) :
    Schema machine obj := by
  obtain ⟨parameters, hparameters, h⟩ := makeStartupConfig_eq_ok.1 h
  cases cfg with
  | hostInfo item =>
    obtain ⟨hmode, hitem⟩ := h
    obtain ⟨⟨ref⟩⟩ := item
    obtain ⟨address, haddress, h⟩ := makeHostInfo_eq_ok.1 hitem
    obtain ⟨htype, hvalue, hnonneg, hsocket⟩ := makeHostAddress_eq_ok.1 h
    rw [SocketFdRef.toJoppValue, ofInt_toInt] at hvalue
    have hlt := ref.nativeHandle.toInt_lt
    refine .connectedToHost hmode hparameters haddress htype hvalue hnonneg (by omega) ?_
    rwa [Int32.ofInt_toInt]
  | standaloneConfig item =>
    obtain ⟨hmode, hitem⟩ := h
    obtain ⟨inputs, outputs, hinputs, houtputs, hi, ho⟩ := makeStandaloneConfig_eq_ok.1 hitem
    refine .standalone hmode hparameters hinputs ?_ houtputs ?_
    · intro field hfield
      obtain ⟨path, hpath⟩ := makeMap_isOk.1 ⟨_, hi⟩ field hfield
      exact ⟨path, get_asString.1 hpath⟩
    · intro field hfield
      exact makePaths_isOk.1 (makeMap_isOk.1 ⟨_, ho⟩ field hfield)

theorem isOk_of_schema (h : Schema machine obj) :
    ∃ cfg, makeStartupConfig machine obj = .ok cfg := by
  cases h with
  | @connectedToHost parameters address n hmode hparameters haddress htype hvalue hnonneg hle
      hsocket =>
    have hn : (Int32.ofInt n).toInt = n := Int32.toInt_ofInt_of_le (by omega) (by omega)
    refine ⟨.hostInfo ⟨.socketFdRef ⟨Int32.ofInt n⟩⟩, ?_⟩
    refine makeStartupConfig_eq_ok.2 ⟨parameters, hparameters, hmode, ?_⟩
    refine makeHostInfo_eq_ok.2 ⟨address, haddress, ?_⟩
    refine makeHostAddress_eq_ok.2 ⟨htype, ?_, ?_, hsocket⟩
    · rw [hvalue, SocketFdRef.toJoppValue, ofInt_toInt, hn]
    · rwa [hn]
  | @standalone parameters inputs outputs hmode hparameters hinputs hpath houtputs hpaths =>
    obtain ⟨i, hi⟩ := makeMap_isOk.2 fun field hfield => by
      obtain ⟨path, hv⟩ := hpath field hfield
      exact ⟨path, get_asString.2 hv⟩
    obtain ⟨o, ho⟩ := makeMap_isOk.2 fun field hfield => makePaths_isOk.2 (hpaths field hfield)
    refine ⟨.standaloneConfig ⟨i, o⟩, ?_⟩
    refine makeStartupConfig_eq_ok.2 ⟨parameters, hparameters, hmode, ?_⟩
    exact makeStandaloneConfig_eq_ok.2 ⟨inputs, outputs, hinputs, houtputs, hi, ho⟩

/-- The records of an object that has been accepted hold what the configuration holds. -/
theorem knownFields_eq {mode : String} {parameters : Object} (hobj : obj.Wf)
    (hmode : obj.lookup "operational_mode" = some (.string mode))
    (hparameters : obj.lookup "parameters" = some (.object parameters)) :
    knownFields obj = modeToJoppObject mode
      (if mode = "connected_to_host" then knownHostInfo parameters
        else parameters.restrict ["inputs", "outputs"]) := by
  have hrecord := Object.restrict_pair hobj.increasing (by decide) hmode hparameters
  have hname : obj.tryGetFieldAs Value.asString "operational_mode" = some mode := by
    rw [Object.tryGetFieldAs, hmode]
    rfl
  rw [modeToJoppObject_eq]
  simp only [knownFields, hrecord, hname, Option.some_inj]
  split <;> simp [mapObjects, *]

theorem toJoppObject_of_ok {cfg : StartupConfig} (hobj : obj.Wf)
    (h : makeStartupConfig machine obj = .ok cfg) : cfg.toJoppObject = knownFields obj := by
  obtain ⟨parameters, hparameters, h⟩ := makeStartupConfig_eq_ok.1 h
  have hwf : Object.Wf parameters := hobj.of_lookup hparameters
  cases cfg with
  | hostInfo item =>
    obtain ⟨hmode, hitem⟩ := h
    obtain ⟨⟨ref⟩⟩ := item
    obtain ⟨address, haddress, h⟩ := makeHostInfo_eq_ok.1 hitem
    obtain ⟨htype, hvalue, -, -⟩ := makeHostAddress_eq_ok.1 h
    have hwf' : Object.Wf address := hwf.of_lookup haddress
    rw [knownFields_eq hobj hmode hparameters, if_pos rfl, knownHostInfo,
      Object.restrict_singleton hwf.increasing haddress]
    simp only [mapObjects, List.map_cons, List.map_nil,
      Object.restrict_pair hwf'.increasing (show "type" < "value" by decide) htype hvalue]
    rw [StartupConfig.toJoppObject, HostInfo.toJoppObject, HostAddress.toJoppObject_eq]
    rfl
  | standaloneConfig item =>
    obtain ⟨hmode, hitem⟩ := h
    obtain ⟨inputs, outputs, hinputs, houtputs, hi, ho⟩ := makeStandaloneConfig_eq_ok.1 hitem
    have hwfi : Object.Wf inputs := hwf.of_lookup hinputs
    have hwfo : Object.Wf outputs := hwf.of_lookup houtputs
    rw [knownFields_eq hobj hmode hparameters, if_neg (by decide),
      Object.restrict_pair hwf.increasing (by decide) hinputs houtputs]
    -- the two maps are the two objects again
    have hi' := (makeMap_eq_ok (fun _ _ => get_asString) hwfi.increasing).1 hi
    have ho' := (makeMap_eq_ok (fun _ _ => makePaths_eq_ok) hwfo.increasing).1 ho
    rw [StartupConfig.toJoppObject, StandaloneConfig.toJoppObject_eq, hi', ho']
    rfl

end Schema

/-- **The decoder.**  It returns exactly on the objects of the schema, and drops nothing from them
but unknown fields. -/
theorem makeStartupConfig_spec {machine : Machine} {obj : Object} (hobj : obj.Wf) :
    ((∃ cfg, makeStartupConfig machine obj = .ok cfg) ↔ Schema machine obj) ∧
      ∀ cfg, makeStartupConfig machine obj = .ok cfg → cfg.toJoppObject = knownFields obj := by
  refine ⟨⟨?_, isOk_of_schema⟩, ?_⟩
  · rintro ⟨cfg, hcfg⟩
    exact schema_of_ok hcfg
  · intro cfg hcfg
    exact toJoppObject_of_ok hobj hcfg

/-- A host, with unknown fields. -/
def exampleObject : Object :=
  [("comment", .null), ("operational_mode", .string "connected_to_host"),
    ("parameters", .object [("address", .object [("family", .number .nan),
      ("type", .string "socket_fd"), ("value", .number (.finite (7 : ℤ)))])])]

theorem exampleObject_wf : exampleObject.Wf := by
  have haddress : (Value.object [("family", .number .nan), ("type", .string "socket_fd"),
      ("value", .number (.finite (7 : ℤ)))]).Wf :=
    .object (by decide) (by simp [Value.Wf.number, Value.Wf.string])
  have hparameters : (Value.object [("address", .object [("family", .number .nan),
      ("type", .string "socket_fd"), ("value", .number (.finite (7 : ℤ)))])]).Wf :=
    .object (by decide) (by simpa using haddress)
  refine .object (by decide) ?_
  simpa [exampleObject, Value.Wf.null, Value.Wf.string] using hparameters

theorem exampleObject_is_accepted : ∃ cfg, makeStartupConfig exampleMachine exampleObject = .ok cfg ∧
    cfg.toJoppObject = knownFields exampleObject := by
  obtain ⟨haccepts, hknown⟩ := @makeStartupConfig_spec exampleMachine exampleObject exampleObject_wf
  obtain ⟨cfg, hcfg⟩ := haccepts.2
    (.connectedToHost rfl rfl rfl rfl rfl (by decide) (by decide) ⟨0o140777, rfl, by decide⟩)
  exact ⟨cfg, hcfg, hknown cfg hcfg⟩

end ThePipe.ClientCtl
