import ThePipe.ClientCtl.Maps

/-!
# Client application descriptions

A client application tells its display name and its ports.  The encoder writes the output ports to
the field `outputs`, and the decoder reads them from the field `output`, so that no description
comes back (`makeClientApplicationInfo_toJoppObject`).  The name of that field is all that is wrong
(`makeClientApplicationInfo_of_output`).
-/

set_option autoImplicit false

namespace ThePipe.ClientCtl

open Jopp Lib

structure PortInfo where
  streamContentType : String
  deriving DecidableEq

/-- `to_jopp_object(port_info)` -/
def PortInfo.toJoppObject (obj : PortInfo) : Object :=
  Object.insert "stream_content_type" (.string obj.streamContentType) []

def makePortInfo (obj : Object) : Except Exception PortInfo := do
  let streamContentType ← getFieldAs Value.asString obj "stream_content_type"
  .ok { streamContentType := streamContentType }

abbrev PortInfoMap := SortedMap String PortInfo

/-- `to_jopp_object(port_info_map)` -/
def portInfoMapToJoppObject (obj : PortInfoMap) : Object :=
  mapToObject (fun info => .object info.toJoppObject) obj

def makePortInfoMap (obj : Object) : Except Exception PortInfoMap :=
  makeMap (fun value => do makePortInfo (← get Value.asObject value)) obj

structure ClientApplicationInfo where
  displayName : String
  inputs : PortInfoMap
  outputs : PortInfoMap

/-- `to_jopp_object(client_application_info)` -/
def ClientApplicationInfo.toJoppObject (obj : ClientApplicationInfo) : Object :=
  let ret : Object := []
  let ret := Object.insert "display_name" (.string obj.displayName) ret
  let ret := Object.insert "inputs" (.object (portInfoMapToJoppObject obj.inputs)) ret
  Object.insert "outputs" (.object (portInfoMapToJoppObject obj.outputs)) ret

def makeClientApplicationInfo (obj : Object) : Except Exception ClientApplicationInfo := do
  let displayName ← getFieldAs Value.asString obj "display_name"
  let inputs ← makePortInfoMap (← getFieldAs Value.asObject obj "inputs")
  let outputs ← makePortInfoMap (← getFieldAs Value.asObject obj "output")
  .ok { displayName := displayName, inputs := inputs, outputs := outputs }

theorem makePortInfo_toJoppObject (info : PortInfo) : makePortInfo info.toJoppObject = .ok info := by
  have hfield : getFieldAs Value.asString info.toJoppObject "stream_content_type" =
      .ok info.streamContentType :=
    getFieldAs_asString.2 (Object.lookup_insert_self _ rfl)
  rw [makePortInfo, hfield]
  rfl

theorem makePortInfoMap_toJoppObject (map : PortInfoMap) :
    makePortInfoMap (portInfoMapToJoppObject map) = .ok map := by
  refine makeMap_mapToObject fun info => ?_
  rw [bind_eq_ok]
  exact ⟨info.toJoppObject, get_eq_ok.2 rfl, makePortInfo_toJoppObject info⟩

/-- The decoder takes back what the encoder makes if it is told the output ports in the field
`output`. -/
theorem makeClientApplicationInfo_of_output (info : ClientApplicationInfo) :
    makeClientApplicationInfo
      [("display_name", .string info.displayName),
        ("inputs", .object (portInfoMapToJoppObject info.inputs)),
        ("output", .object (portInfoMapToJoppObject info.outputs))] = .ok info := by
  unfold makeClientApplicationInfo
  simp only [bind_eq_ok, getFieldAs_asString, getFieldAs_asObject]
  exact ⟨info.displayName, rfl, _, rfl, info.inputs, makePortInfoMap_toJoppObject info.inputs, _,
    rfl, info.outputs, makePortInfoMap_toJoppObject info.outputs, rfl⟩

/-- The decoder takes back no description that the encoder makes. -/
theorem makeClientApplicationInfo_toJoppObject (info : ClientApplicationInfo) :
    makeClientApplicationInfo info.toJoppObject = .error (.jopp (.noSuchField "output")) := by
  have hname : getFieldAs Value.asString info.toJoppObject "display_name" =
      .ok info.displayName := by
    rw [getFieldAs_asString, ClientApplicationInfo.toJoppObject,
      Object.lookup_insert_of_ne _ (by decide), Object.lookup_insert_of_ne _ (by decide)]
    rfl
  have hinputs : getFieldAs Value.asObject info.toJoppObject "inputs" =
      .ok (portInfoMapToJoppObject info.inputs) := by
    rw [getFieldAs_asObject, ClientApplicationInfo.toJoppObject,
      Object.lookup_insert_of_ne _ (by decide), Object.lookup_insert_self]
    rfl
  have houtput : info.toJoppObject.lookup "output" = none := by
    rw [ClientApplicationInfo.toJoppObject, Object.lookup_insert_of_ne _ (by decide),
      Object.lookup_insert_of_ne _ (by decide)]
    rfl
  have hfield : getFieldAs Value.asObject info.toJoppObject "output" =
      .error (.jopp (.noSuchField "output")) := by
    rw [getFieldAs, houtput]
  unfold makeClientApplicationInfo
  rw [hname, hinputs, hfield]
  show (do
    let inputs ← makePortInfoMap (portInfoMapToJoppObject info.inputs)
    _) = _
  rw [makePortInfoMap_toJoppObject]
  rfl

/-- An application without any ports does not come back. -/
theorem application_without_ports_is_rejected :
    makeClientApplicationInfo (ClientApplicationInfo.mk "app" ∅ ∅).toJoppObject ≠
      .ok ⟨"app", ∅, ∅⟩ := by
  have hrun : makeClientApplicationInfo (ClientApplicationInfo.mk "app" ∅ ∅).toJoppObject =
      .error (.jopp (.noSuchField "output")) := rfl
  rw [hrun]
  exact nofun

end ThePipe.ClientCtl
