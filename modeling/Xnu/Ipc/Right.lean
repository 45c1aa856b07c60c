import Xnu.Ipc.Entry

namespace Xnu.Ipc

/-! The right operations of `ipc_right.c` that change user references:
`ipc_right_check`, the cases of `ipc_right_delta` and `ipc_right_destruct`,
over one space and the port its entry names. The reverse hash is kept as its
count `is_table_hashed`; the notifications sent after the space is unlocked,
the guard exceptions and `ipc_entry_modified` are left out. -/

def machPortType (right : UInt32) : UInt32 := 1 <<< (right + 16)

def machPortTypeSend : UInt32 := machPortType 0
def machPortTypeReceive : UInt32 := machPortType 1
def machPortTypeSendOnce : UInt32 := machPortType 2
def machPortTypePortSet : UInt32 := machPortType 3
def machPortTypeDeadName : UInt32 := machPortType 4
def machPortTypeExReceive : UInt32 := machPortType 5
def machPortTypeSendRights : UInt32 := machPortTypeSend ||| machPortTypeSendOnce

def ieBitsUrefsMask : UInt32 := 0x0000ffff

def ieBitsUrefs (bits : UInt32) : UInt32 := bits &&& ieBitsUrefsMask

def machPortUrefsMax : UInt32 := ((1 : UInt32) <<< 16) - 1

def machPortUrefsOverflow (urefs : UInt32) (delta : Int32) : Bool :=
  delta > 0 && (urefs + delta.toUInt32 ≤ urefs || urefs + delta.toUInt32 ≥ machPortUrefsMax)

def machPortUrefsUnderflow (urefs : UInt32) (delta : Int32) : Bool :=
  delta < 0 && (-delta).toUInt32 > urefs

/-- `mach_port_right_t`. -/
inductive MachPortRight where
  | send
  | receive
  | sendOnce
  | portSet
  | deadName
  | labelh
  deriving DecidableEq, Repr

/-- The `kern_return_t` values `ipc_right_delta` and `ipc_right_destruct`
return. -/
inductive RightReturn where
  | success
  | invalidRight
  | invalidValue
  | invalidArgument
  deriving DecidableEq, Repr

/-- The fields of `struct ipc_port` these routines read and write. `requests`
are the slots of the port's request table that hold a valid send-once right,
the ones `ipc_port_request_type` reports as nonzero. -/
structure IpcPort where
  active : Bool
  srights : Nat
  sorights : Nat
  mscount : Nat
  nsrequest : Option Nat
  pdrequest : Option Nat
  guarded : Bool
  context : UInt64
  replyContext : Nat
  references : Nat
  requests : List Nat
  deriving DecidableEq, Repr

/-- `ip_reference`. -/
def IpcPort.reference (port : IpcPort) : IpcPort := { port with references := port.references + 1 }

/-- `ip_release`. -/
def IpcPort.release (port : IpcPort) : IpcPort := { port with references := port.references - 1 }

/-- `ipc_hash_insert`, through the count it keeps. -/
def ipcHashInsert (space : IpcSpace) : IpcSpace :=
  { space with isTableHashed := space.isTableHashed + 1 }

/-- `ipc_hash_delete`, through the count it keeps. -/
def ipcHashDelete (space : IpcSpace) : IpcSpace :=
  { space with isTableHashed := space.isTableHashed - 1 }

/-- `ipc_right_request_cancel_macro`: a pending request is cancelled in the
port's table and cleared in the entry. -/
def ipcRightRequestCancel (port : IpcPort) (entry : IpcEntry) : IpcPort × IpcEntry :=
  if entry.ieNext = 0 then (port, entry)
  else ({ port with requests := port.requests.erase entry.ieNext }, { entry with ieNext := 0 })

/-- The `--port->ip_srights` of the `SEND` case and of `ipc_right_destruct`:
the last send right takes the no-senders request off the port. -/
def IpcPort.dropSendRight (port : IpcPort) : IpcPort :=
  let port := { port with srights := port.srights - 1 }
  if port.srights = 0 then { port with nsrequest := none } else port

/-- `ipc_port_destroy`: a port with a port-destroyed request is handed on in
the notification and stays alive, any other port dies; either way it consumes
the receive right's reference. -/
def ipcPortDestroy (port : IpcPort) : IpcPort :=
  match port.pdrequest with
  | some _ => { port with pdrequest := none, references := port.references - 1 }
  | none => { port with active := false, references := port.references - 1 }

/-- `ipc_right_check` with no flags, on the send or send-once entry `entry` at
slot `index`: `none` is `FALSE`, the port being alive; otherwise the port has
died and the entry has become a dead name. The caller still holds the port
reference the entry had. -/
def ipcRightCheck (space : IpcSpace) (port : IpcPort) (index : Nat) (entry : IpcEntry) :
    Option (IpcSpace × IpcPort) :=
  if port.active then none
  else
    let bits := entry.ieBits
    let port := if bits &&& machPortTypeSend ≠ 0 then { port with srights := port.srights - 1 }
      else { port with sorights := port.sorights - 1 }
    let space := if bits &&& machPortTypeSend ≠ 0 then ipcHashDelete space else space
    let bits := (bits &&& ~~~ieBitsTypeMask) ||| machPortTypeDeadName
    -- the notification of a pending request carries one more reference
    let bits := if entry.ieNext ≠ 0 ∧ entry.ieNext ∈ port.requests ∧
        ieBitsUrefs bits < machPortUrefsMax then bits + 1 else bits
    some (space.writeEntry index { entry with ieBits := bits, ieObject := none, ieNext := 0 }, port)

/-! The reference arithmetic. -/

/-- The range check and the reference arithmetic the `DEAD_NAME` and `SEND`
cases of `ipc_right_delta` share: `none` is `goto invalid_value`, otherwise
the delta after pegging and saturation. -/
def ipcRightDeltaUrefs (urefs : UInt32) (delta : Int32) : Option Int32 :=
  if delta > machPortUrefsMax.toInt32 ∨ delta < -machPortUrefsMax.toInt32 then none
  else if urefs = machPortUrefsMax then
    some (if delta ≠ -machPortUrefsMax.toInt32 then 0 else delta)
  else if machPortUrefsUnderflow urefs delta then none
  else if machPortUrefsOverflow urefs delta then some (machPortUrefsMax - urefs).toInt32
  else some delta

/-- The send part of `ipc_right_destruct`'s arithmetic: no range check, the
underflow check comes before the pegging, and there is no overflow check,
`srdelta` being negative. -/
def ipcRightDestructUrefs (urefs : UInt32) (srdelta : Int32) : Option Int32 :=
  if machPortUrefsUnderflow urefs srdelta then none
  else if urefs = machPortUrefsMax then
    some (if srdelta ≠ -machPortUrefsMax.toInt32 then 0 else srdelta)
  else some srdelta

/-! `ipc_right_delta`, one definition for each case of its `switch`. -/

section Delta

variable (space : IpcSpace) (port : IpcPort) (name : UInt32) (index : Nat)

/-- The entry freed: its object cleared, then `ipc_entry_dealloc`. -/
def ipcRightFreeEntry (entry : IpcEntry) : Option IpcSpace :=
  ipcEntryDealloc (space.writeEntry index { entry with ieObject := none }) name index

/-- The destruction of the receive right that ends the `RECEIVE` case of
`ipc_right_delta` and `ipc_right_destruct`, on the entry as it now stands. -/
def ipcRightDestroyReceive : Option (IpcSpace × IpcPort) :=
  match space.isTable[index]? with
  | none => none
  | some entry =>
    let bits := entry.ieBits
    if bits &&& machPortTypeSend ≠ 0 then
      if port.pdrequest.isSome then
        -- the receive right moves to another task: the send rights stay
        let entry := { entry with ieBits := (bits &&& ~~~machPortTypeReceive) ||| machPortTypeExReceive }
        some (ipcHashInsert (space.writeEntry index entry), port.reference)
      else
        let bits := (bits &&& ~~~ieBitsTypeMask) ||| (machPortTypeDeadName ||| machPortTypeExReceive)
        let bits := if entry.ieNext ≠ 0 ∧ ieBitsUrefs bits < machPortUrefsMax then bits + 1 else bits
        some (space.writeEntry index { entry with ieBits := bits, ieObject := none, ieNext := 0 }, port)
    else
      let (port, entry) := ipcRightRequestCancel port entry
      (ipcRightFreeEntry space name index entry).map fun space => (space, port)

def ipcRightDeltaPortSet (delta : Int32) : Option (RightReturn × IpcSpace × IpcPort) :=
  match space.isTable[index]? with
  | none => none
  | some entry =>
    if entry.ieBits &&& machPortTypePortSet = 0 then some (.invalidRight, space, port)
    else if delta = 0 then some (.success, space, port)
    else if delta ≠ -1 then some (.invalidValue, space, port)
    else (ipcRightFreeEntry space name index entry).map fun space => (.success, space, port)

def ipcRightDeltaReceive (delta : Int32) : Option (RightReturn × IpcSpace × IpcPort) :=
  match space.isTable[index]? with
  | none => none
  | some entry =>
    if entry.ieBits &&& machPortTypeReceive = 0 then some (.invalidRight, space, port)
    else if delta = 0 then some (.success, space, port)
    else if delta ≠ -1 then some (.invalidValue, space, port)
    -- `guard_failure`
    else if port.guarded then some (.invalidRight, space, port)
    else (ipcRightDestroyReceive space port name index).map fun (space, port) =>
      (.success, space, ipcPortDestroy port)

def ipcRightDeltaSendOnce (delta : Int32) : Option (RightReturn × IpcSpace × IpcPort) :=
  match space.isTable[index]? with
  | none => none
  | some entry =>
    if entry.ieBits &&& machPortTypeSendOnce = 0 then some (.invalidRight, space, port)
    else
      match ipcRightCheck space port index entry with
      | some (space, port) => some (.invalidRight, space, port.release)
      | none =>
        if delta > 0 ∨ delta < -1 then some (.invalidValue, space, port)
        else if delta = 0 then some (.success, space, port)
        else
          let (port, entry) := ipcRightRequestCancel { port with replyContext := 0 } entry
          (ipcRightFreeEntry space name index entry).map fun space => (.success, space, port)

/-- The `DEAD_NAME` case from its range check on, with the bits read again
from the entry; `relport` says whether a conversion left a port reference to
drop, which only the path through `break` does. -/
def ipcRightDeltaDeadNameUrefs (relport : Bool) (delta : Int32) :
    Option (RightReturn × IpcSpace × IpcPort) :=
  match space.isTable[index]? with
  | none => none
  | some entry =>
    let bits := entry.ieBits
    let urefs := ieBitsUrefs bits
    match ipcRightDeltaUrefs urefs delta with
    | none => some (.invalidValue, space, port)
    | some delta =>
      let released := if relport then port.release else port
      if urefs + delta.toUInt32 = 0 then
        (ipcEntryDealloc space name index).map fun space => (.success, space, released)
      else if delta ≠ 0 then
        some (.success, space.writeEntry index { entry with ieBits := bits + delta.toUInt32 }, released)
      else some (.success, space, released)

def ipcRightDeltaDeadName (delta : Int32) : Option (RightReturn × IpcSpace × IpcPort) :=
  match space.isTable[index]? with
  | none => none
  | some entry =>
    if entry.ieBits &&& machPortTypeSendRights ≠ 0 then
      match ipcRightCheck space port index entry with
      | none => some (.invalidRight, space, port)
      | some (space, port) => ipcRightDeltaDeadNameUrefs space port name index true delta
    else if entry.ieBits &&& machPortTypeDeadName = 0 then some (.invalidRight, space, port)
    else ipcRightDeltaDeadNameUrefs space port name index false delta

def ipcRightDeltaSend (delta : Int32) : Option (RightReturn × IpcSpace × IpcPort) :=
  match space.isTable[index]? with
  | none => none
  | some entry =>
    let bits := entry.ieBits
    if bits &&& machPortTypeSend = 0 then some (.invalidRight, space, port)
    else
      match ipcRightCheck space port index entry with
      | some (space, port) => some (.invalidRight, space, port.release)
      | none =>
        let urefs := ieBitsUrefs bits
        match ipcRightDeltaUrefs urefs delta with
        | none => some (.invalidValue, space, port)
        | some delta =>
          if urefs + delta.toUInt32 = 0 then
            let port := port.dropSendRight
            if bits &&& machPortTypeReceive ≠ 0 then
              some (.success, space.writeEntry index
                { entry with ieBits := bits &&& ~~~(ieBitsUrefsMask ||| machPortTypeSend) }, port)
            else
              let (port, entry) := ipcRightRequestCancel port entry
              (ipcRightFreeEntry (ipcHashDelete space) name index entry).map fun space =>
                (.success, space, port.release)
          else if delta ≠ 0 then
            some (.success, space.writeEntry index { entry with ieBits := bits + delta.toUInt32 }, port)
          else some (.success, space, port)

/-- `ipc_right_delta(space, name, entry, right, delta)` on the entry at slot
`index` and the port it names. `none` is a panic or a failed assertion. -/
def ipcRightDelta (right : MachPortRight) (delta : Int32) :
    Option (RightReturn × IpcSpace × IpcPort) :=
  match right with
  | .portSet => ipcRightDeltaPortSet space port name index delta
  | .receive => ipcRightDeltaReceive space port name index delta
  | .sendOnce => ipcRightDeltaSendOnce space port name index delta
  | .deadName => ipcRightDeltaDeadName space port name index delta
  | .send => ipcRightDeltaSend space port name index delta
  | .labelh => some (.invalidRight, space, port)

/-! `ipc_right_destruct`. -/

/-- The send part of `ipc_right_destruct`, on the entry `entry` at `index`;
`none` is `goto invalid_value`. -/
def ipcRightDestructSend (entry : IpcEntry) (srdelta : Int32) : Option (IpcSpace × IpcPort) :=
  if srdelta = 0 then some (space, port)
  else
    let urefs := ieBitsUrefs entry.ieBits
    match ipcRightDestructUrefs urefs srdelta with
    | none => none
    | some srdelta =>
      if urefs + srdelta.toUInt32 = 0 then
        some (space.writeEntry index
          { entry with ieBits := entry.ieBits &&& ~~~(ieBitsUrefsMask ||| machPortTypeSend) },
          port.dropSendRight)
      else some (space.writeEntry index { entry with ieBits := entry.ieBits + srdelta.toUInt32 }, port)

/-- `ipc_right_destruct(space, name, entry, srdelta, guard)` on the entry at
slot `index` and the port it names. -/
def ipcRightDestruct (srdelta : Int32) (guard : UInt64) :
    Option (RightReturn × IpcSpace × IpcPort) :=
  match space.isTable[index]? with
  | none => none
  | some entry =>
    let bits := entry.ieBits
    if bits &&& machPortTypeReceive = 0 then some (.invalidRight, space, port)
    else if srdelta ≠ 0 ∧ bits &&& machPortTypeSend = 0 then some (.invalidRight, space, port)
    else if srdelta > 0 then some (.invalidValue, space, port)
    else if port.guarded ∧ guard ≠ port.context then some (.invalidArgument, space, port)
    else
      match ipcRightDestructSend space port index entry srdelta with
      | none => some (.invalidValue, space, port)
      | some (space, port) =>
        (ipcRightDestroyReceive space port name index).map fun (space, port) =>
          (.success, space, ipcPortDestroy port)

end Delta

end Xnu.Ipc
