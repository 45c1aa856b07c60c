import Xnu.Ipc.Right
import Xnu.Ipc.FreeList

namespace Xnu.Ipc

/-! The user-reference arithmetic of `ipc_right_delta` and
`ipc_right_destruct` against the saturating rule it is meant to follow, and
the effect of each case on the entry, the port and the free list. -/

/-- The saturating rule for user references, on the count `urefs` and the
requested change `delta`: `none` rejects the delta, otherwise it gives the new
count. A count at the maximum is pegged: only a delta taking all of it away
moves it. -/
def urefsSaturate (urefs : Nat) (delta : Int) : Option Nat :=
  let max : Nat := machPortUrefsMax.toNat
  if delta > max ∨ delta < -max ∨ (urefs < max ∧ urefs + delta < 0) then none
  else if urefs = max then some (if delta = -max then 0 else max)
  else some (min (urefs + delta) max).toNat

@[simp] theorem machPortUrefsMax_toNat : machPortUrefsMax.toNat = 65535 := rfl

theorem urefsSaturate_le {urefs n : Nat} {delta : Int} (sat : urefsSaturate urefs delta = some n) :
    n ≤ 65535 := by
  rw [urefsSaturate, machPortUrefsMax_toNat] at sat
  split_ifs at sat <;> simp only [Option.some.injEq] at sat <;> omega

theorem ieBitsUrefs_toNat (bits : UInt32) : (ieBitsUrefs bits).toNat = bits.toNat % 65536 := by
  rw [ieBitsUrefs, UInt32.toNat_and, show ieBitsUrefsMask.toNat = 2 ^ 16 - 1 from rfl,
    Nat.and_two_pow_sub_one_eq_mod]

/-! Signed deltas through their 32 bits. -/

theorem int32_toUInt32_toNat (d : Int32) : (d.toUInt32.toNat : Int) = d.toInt % 2 ^ 32 := by
  have cond := BitVec.toInt_eq_toNat_cond d.toBitVec
  have wide := d.toBitVec.isLt
  rw [Int32.toInt_toBitVec] at cond
  rw [cond, ← Int32.toNat_toBitVec]
  split_ifs <;> omega

/-- The count the code computes, `urefs + delta` in 32 bits. -/
theorem urefs_add_toNat (urefs : UInt32) (d : Int32) :
    ((urefs + d.toUInt32).toNat : Int) = (urefs.toNat + d.toInt) % 2 ^ 32 := by
  have low := int32_toUInt32_toNat d
  rw [UInt32.toNat_add]
  omega

/-- `MACH_PORT_UREFS_UNDERFLOW` is the count going below zero, for every
delta: negating `INT_MIN` wraps to itself, whose 32 bits still exceed any
count. -/
theorem machPortUrefsUnderflow_iff (urefs : UInt32) (delta : Int32) :
    machPortUrefsUnderflow urefs delta ↔ urefs.toNat + delta.toInt < 0 := by
  have low := int32_toUInt32_toNat delta
  have lower := delta.le_toInt
  simp only [machPortUrefsUnderflow, Bool.and_eq_true, decide_eq_true_eq, Int32.lt_iff_toInt_lt,
    Int32.toInt_zero, UInt32.lt_iff_toNat_lt, Int32.toUInt32_neg, UInt32.toNat_neg, UInt32.size]
  omega

/-- `MACH_PORT_UREFS_OVERFLOW` on a 16-bit count is the count reaching the
maximum: its first test, a wrap of the 32-bit sum, never fires. -/
theorem machPortUrefsOverflow_iff {urefs : UInt32} (delta : Int32) (small : urefs.toNat ≤ 65535) :
    machPortUrefsOverflow urefs delta ↔ 0 < delta.toInt ∧ 65535 ≤ urefs.toNat + delta.toInt := by
  have low := int32_toUInt32_toNat delta
  have upper := delta.toInt_lt
  simp only [machPortUrefsOverflow, Bool.and_eq_true, Bool.or_eq_true, decide_eq_true_eq,
    Int32.lt_iff_toInt_lt, Int32.toInt_zero, UInt32.le_iff_toNat_le, UInt32.toNat_add,
    machPortUrefsMax_toNat, gt_iff_lt]
  omega

/-- The arithmetic of the `DEAD_NAME` and `SEND` cases is the saturating rule:
it rejects exactly the deltas the rule rejects, and the count it leaves is the
rule's. -/
theorem ipcRightDeltaUrefs_saturate (urefs : UInt32) (delta : Int32) (small : urefs.toNat ≤ 65535) :
    (ipcRightDeltaUrefs urefs delta).map (fun d => (urefs + d.toUInt32).toNat) =
      urefsSaturate urefs.toNat delta.toInt := by
  have maxInt : machPortUrefsMax.toInt32.toInt = 65535 := by decide
  have negMax : (-machPortUrefsMax.toInt32).toInt = -65535 := by decide
  have moved := urefs_add_toNat urefs delta
  have kept : (urefs + (0 : Int32).toUInt32).toNat = urefs.toNat := by
    rw [show (0 : Int32).toUInt32 = 0 from rfl, UInt32.add_zero]
  have capped : urefs.toNat < 65535 →
      (urefs + (machPortUrefsMax - urefs).toInt32.toUInt32).toNat = 65535 := by
    intro below
    rw [UInt32.toUInt32_toInt32, add_sub_cancel, machPortUrefsMax_toNat]
  rw [ipcRightDeltaUrefs, urefsSaturate, machPortUrefsMax_toNat]
  simp only [gt_iff_lt, ne_eq, Int32.lt_iff_toInt_lt, maxInt, negMax, ← Int32.toInt_inj,
    ← UInt32.toNat_inj, machPortUrefsMax_toNat, machPortUrefsUnderflow_iff,
    machPortUrefsOverflow_iff delta small]
  -- each branch of the code against the branch of the rule it lands in
  split_ifs <;> simp only [Option.map_some, Option.map_none, Option.some.injEq, reduceCtorEq] <;> omega

/-- The arithmetic of `ipc_right_destruct` has no range check and tests the
underflow before the pegging, yet on the nonpositive deltas it accepts it is
the same saturating rule. -/
theorem ipcRightDestructUrefs_saturate (urefs : UInt32) (srdelta : Int32) (small : urefs.toNat ≤ 65535)
    (nonpositive : srdelta.toInt ≤ 0) :
    (ipcRightDestructUrefs urefs srdelta).map (fun d => (urefs + d.toUInt32).toNat) =
      urefsSaturate urefs.toNat srdelta.toInt := by
  have negMax : (-machPortUrefsMax.toInt32).toInt = -65535 := by decide
  have moved := urefs_add_toNat urefs srdelta
  have kept : (urefs + (0 : Int32).toUInt32).toNat = urefs.toNat := by
    rw [show (0 : Int32).toUInt32 = 0 from rfl, UInt32.add_zero]
  rw [ipcRightDestructUrefs, urefsSaturate, machPortUrefsMax_toNat]
  simp only [ne_eq, negMax, ← Int32.toInt_inj, ← UInt32.toNat_inj, machPortUrefsMax_toNat,
    machPortUrefsUnderflow_iff]
  split_ifs <;> simp only [Option.map_some, Option.map_none, Option.some.injEq, reduceCtorEq] <;> omega

/-! The user-reference field of `ie_bits`. -/

theorem ieBitsUrefs_le (bits : UInt32) : (ieBitsUrefs bits).toNat ≤ 65535 := by
  rw [ieBitsUrefs_toNat]
  omega

/-- Adding to the bits a delta that takes the user-reference field from its
count to `n` writes `n` into the field and leaves every bit above it: the sum
never carries out of the field. -/
theorem ieBits_add_urefs {bits d : UInt32} {n : Nat} (moved : (ieBitsUrefs bits + d).toNat = n)
    (small : n ≤ 65535) :
    ieBitsUrefs (bits + d) = n.toUInt32 ∧ (bits + d) >>> 16 = bits >>> 16 := by
  have wide := bits.toNat_lt
  rw [UInt32.toNat_add, ieBitsUrefs_toNat] at moved
  have field : (bits + d).toNat = bits.toNat / 65536 * 65536 + n := by
    rw [UInt32.toNat_add]
    omega
  constructor
  · apply UInt32.toNat_inj.mp
    rw [ieBitsUrefs_toNat, field, UInt32.toNat_ofNat']
    omega
  · apply UInt32.toNat_inj.mp
    simp only [UInt32.toNat_shiftRight, field, UInt32.reduceToNat, Nat.reduceMod,
      Nat.shiftRight_eq_div_pow]
    omega

/-- A type bit set in the bits makes the entry's type other than NONE. -/
theorem ieBitsType_ne_zero {bits b : UInt32} (within : b &&& ieBitsTypeMask = b) (set : bits &&& b ≠ 0) :
    ieBitsType bits ≠ 0 := by
  intro none
  apply set
  calc bits &&& b = bits &&& (b &&& ieBitsTypeMask) := by rw [within]
    _ = ieBitsType bits &&& b := by rw [ieBitsType, UInt32.and_assoc, UInt32.and_comm b]
    _ = 0 := by rw [none, UInt32.zero_and]

theorem IpcSpace.writeEntry_found {space : IpcSpace} {index : Nat} {entry : IpcEntry}
    (found : space.isTable[index]? = some entry) : space.writeEntry index entry = space := by
  obtain ⟨inside, at_⟩ := List.getElem?_eq_some_iff.mp found
  rw [IpcSpace.writeEntry, ← at_, List.set_getElem_self]

theorem ipcRightRequestCancel_entry (port : IpcPort) (entry : IpcEntry) :
    (ipcRightRequestCancel port entry).2 = { entry with ieNext := 0 } := by
  unfold ipcRightRequestCancel
  split_ifs with none
  · cases entry
    simp only at none
    rw [none]
  · rfl

theorem ipcRightRequestCancel_srights (port : IpcPort) (entry : IpcEntry) :
    (ipcRightRequestCancel port entry).1.srights = port.srights := by
  unfold ipcRightRequestCancel
  split_ifs <;> rfl

/-! Freeing the entry puts its slot first on the free list. -/

section Free

variable {space : IpcSpace} {free : List Nat} {index : Nat} {name : UInt32} {entry : IpcEntry}

theorem IpcSpace.FreeList.hashed (inv : space.FreeList free) (hashed : Nat) :
    IpcSpace.FreeList { space with isTableHashed := hashed } free :=
  ⟨inv.chain, inv.none_iff, inv.object, inv.count, inv.head⟩

/-- `ipc_entry_dealloc` of the slot its name indexes, in use, with no object
and no request, frees it. -/
theorem IpcSpace.FreeList.dealloc_named (inv : space.FreeList free)
    (found : space.isTable[index]? = some entry) (inUse : ieBitsType entry.ieBits ≠ 0)
    (noObject : entry.ieObject = none) (noRequest : entry.ieNext = 0)
    (named : (machPortIndex name).toNat = index) :
    ∃ space', ipcEntryDealloc space name index = some space' ∧ space'.FreeList (index :: free) := by
  have inside : index < space.isTable.length := (List.getElem?_eq_some_iff.mp found).1
  obtain ⟨head, foundHead, -⟩ := inv.head
  have freedObject : (IpcEntry.mk entry.ieObject (entry.ieBits &&& (ieBitsGenMask ||| ieBitsRollMask))
      head.ieNext).ieObject = none := noObject
  refine ⟨_, ?_, inv.dealloc_push foundHead found inUse (ieBitsType_dealloc _) freedObject rfl⟩
  simp only [ipcEntryDealloc, found, noRequest, named, inside, foundHead, ne_eq, not_true_eq_false,
    if_false, and_self, if_true]

/-- `ipcRightFreeEntry` of an entry of the slot's type, without its request,
frees the slot. -/
theorem IpcSpace.FreeList.freeEntry (inv : space.FreeList free)
    (found : space.isTable[index]? = some entry) (inUse : ieBitsType entry.ieBits ≠ 0)
    (named : (machPortIndex name).toNat = index) {freed : IpcEntry}
    (typed : ieBitsType freed.ieBits ≠ 0) (noRequest : freed.ieNext = 0) :
    ∃ space', ipcRightFreeEntry space name index freed = some space' ∧ space'.FreeList (index :: free) := by
  have inside : index < space.isTable.length := (List.getElem?_eq_some_iff.mp found).1
  have written := inv.write_inUse found inUse
    (show ieBitsType (IpcEntry.mk none freed.ieBits freed.ieNext).ieBits ≠ 0 from typed)
  exact written.dealloc_named (List.getElem?_set_self inside) typed rfl noRequest named

end Free

/-! The outcome the saturating rule prescribes. -/

/-- The entry at `index` with its user references made `n`: the field holds
`n` and every bit above it is as it was. -/
def UrefsSet (space : IpcSpace) (index : Nat) (entry : IpcEntry) (n : Nat) (space' : IpcSpace) : Prop :=
  ∃ bits, space' = space.writeEntry index { entry with ieBits := bits } ∧
    ieBitsUrefs bits = n.toUInt32 ∧ bits >>> 16 = entry.ieBits >>> 16

/-- What the saturating rule prescribes for a change `delta` to the user
references of `entry`, the entry at `index`: a rejected delta is
`KERN_INVALID_VALUE` with the space and the port as they were; a new count of
0 is the removal `removed`; any other new count is written into the entry and
nothing else changes. -/
def SaturatingOutcome (space : IpcSpace) (port : IpcPort) (index : Nat) (entry : IpcEntry)
    (delta : Int32) (removed : IpcSpace → IpcPort → Prop)
    (result : Option (RightReturn × IpcSpace × IpcPort)) : Prop :=
  match urefsSaturate (ieBitsUrefs entry.ieBits).toNat delta.toInt with
  | none => result = some (.invalidValue, space, port)
  | some n => ∃ space' port', result = some (.success, space', port') ∧
      if n = 0 then removed space' port' else port' = port ∧ UrefsSet space index entry n space'

/-- The argument the three users of the arithmetic share: code that rejects
what its arithmetic rejects, removes the right when the count reaches 0 and
otherwise adds the adjusted delta to the bits follows the saturating rule, as
soon as its arithmetic does. -/
theorem saturatingOutcome_of_urefs {space : IpcSpace} {port : IpcPort} {index : Nat} {entry : IpcEntry}
    {delta : Int32} {removed : IpcSpace → IpcPort → Prop} {result : Option (RightReturn × IpcSpace × IpcPort)}
    {adjusted : Option Int32}
    (rule : adjusted.map (fun d => (ieBitsUrefs entry.ieBits + d.toUInt32).toNat) =
      urefsSaturate (ieBitsUrefs entry.ieBits).toNat delta.toInt)
    (rejected : adjusted = none → result = some (.invalidValue, space, port))
    (removal : ∀ d, adjusted = some d → ieBitsUrefs entry.ieBits + d.toUInt32 = 0 →
      ∃ space' port', result = some (.success, space', port') ∧ removed space' port')
    (kept : ∀ d, adjusted = some d → ieBitsUrefs entry.ieBits + d.toUInt32 ≠ 0 →
      result = some (.success, space.writeEntry index { entry with ieBits := entry.ieBits + d.toUInt32 }, port)) :
    SaturatingOutcome space port index entry delta removed result := by
  unfold SaturatingOutcome
  rw [← rule]
  cases adj : adjusted with
  | none => exact rejected adj
  | some d =>
    rw [adj, Option.map_some] at rule
    have small := urefsSaturate_le rule.symm
    by_cases zero : ieBitsUrefs entry.ieBits + d.toUInt32 = 0
    · rw [Option.map_some, zero, UInt32.toNat_zero]
      exact removal d adj zero
    · have nonzero : (ieBitsUrefs entry.ieBits + d.toUInt32).toNat ≠ 0 := fun toNatZero =>
        zero (UInt32.toNat_inj.mp (toNatZero.trans UInt32.toNat_zero.symm))
      rw [Option.map_some]
      refine ⟨_, _, kept d adj zero, ?_⟩
      rw [if_neg nonzero]
      exact ⟨rfl, _, rfl, ieBits_add_urefs rfl small⟩

/-! The `SEND` and `DEAD_NAME` cases of `ipc_right_delta` and the send part
of `ipc_right_destruct`. -/

/-- The removal of a send right: one unit of `ip_srights` goes, and the entry
either keeps its receive right, with no user references and no send bit, or
is freed and goes first on the free list. -/
def SendRemoved (space : IpcSpace) (port : IpcPort) (index : Nat) (entry : IpcEntry) (free : List Nat)
    (space' : IpcSpace) (port' : IpcPort) : Prop :=
  port'.srights = port.srights - 1 ∧
    if entry.ieBits &&& machPortTypeReceive ≠ 0 then
      space' = space.writeEntry index
        { entry with ieBits := entry.ieBits &&& ~~~(ieBitsUrefsMask ||| machPortTypeSend) }
    else space'.FreeList (index :: free)

theorem ipcRightCheck_active {space : IpcSpace} {port : IpcPort} (active : port.active = true)
    (index : Nat) (entry : IpcEntry) : ipcRightCheck space port index entry = none := by
  rw [ipcRightCheck, if_pos active]

theorem IpcPort.dropSendRight_srights (port : IpcPort) :
    port.dropSendRight.srights = port.srights - 1 := by
  unfold IpcPort.dropSendRight
  dsimp only
  split_ifs <;> rfl

/-- A zero delta skips the write of `bits + delta`, which would change
nothing. -/
theorem writeEntry_add_ite {space : IpcSpace} {index : Nat} {entry : IpcEntry}
    (found : space.isTable[index]? = some entry) (d : Int32) {r : RightReturn} {port : IpcPort} :
    (if d ≠ 0 then some (r, space.writeEntry index { entry with ieBits := entry.ieBits + d.toUInt32 }, port)
      else some (r, space, port)) =
      some (r, space.writeEntry index { entry with ieBits := entry.ieBits + d.toUInt32 }, port) := by
  by_cases moved : d = 0
  · subst moved
    rw [if_neg (not_not.mpr rfl), show (0 : Int32).toUInt32 = 0 from rfl, UInt32.add_zero]
    exact congrArg (fun space => some (r, space, port)) (IpcSpace.writeEntry_found found).symm
  · rw [if_pos moved]

section Cases

variable {space : IpcSpace} {free : List Nat} {port : IpcPort} {name : UInt32} {index : Nat}
  {entry : IpcEntry}

/-- The `SEND` case on a live port follows the saturating rule. -/
theorem ipcRightDeltaSend_saturating (inv : space.FreeList free)
    (found : space.isTable[index]? = some entry) (named : (machPortIndex name).toNat = index)
    (send : entry.ieBits &&& machPortTypeSend ≠ 0) (active : port.active = true) (delta : Int32) :
    SaturatingOutcome space port index entry delta (SendRemoved space port index entry free)
      (ipcRightDeltaSend space port name index delta) := by
  have inUse := ieBitsType_ne_zero (by decide) send
  apply saturatingOutcome_of_urefs (ipcRightDeltaUrefs_saturate _ delta (ieBitsUrefs_le _))
  · intro rejected
    simp only [ipcRightDeltaSend, found, send, if_false, ipcRightCheck_active active, rejected]
  · intro d adj zero
    simp only [ipcRightDeltaSend, found, send, if_false, ipcRightCheck_active active, adj, zero,
      if_true]
    by_cases receive : entry.ieBits &&& machPortTypeReceive ≠ 0
    · rw [if_pos receive]
      exact ⟨_, _, rfl, port.dropSendRight_srights, by rw [if_pos receive]⟩
    · -- a send right alone: the request is cancelled and the entry freed
      rcases cancel : ipcRightRequestCancel port.dropSendRight entry with ⟨cancelled, freed⟩
      have freedEntry : freed = { entry with ieNext := 0 } := by
        rw [← ipcRightRequestCancel_entry port.dropSendRight entry, cancel]
      have srights : cancelled.srights = port.srights - 1 := by
        rw [← port.dropSendRight_srights, ← ipcRightRequestCancel_srights port.dropSendRight entry,
          cancel]
      obtain ⟨space', freeEntry, pushed⟩ := (inv.hashed (space.isTableHashed - 1)).freeEntry
        found inUse named (show ieBitsType freed.ieBits ≠ 0 by rw [freedEntry]; exact inUse)
        (by rw [freedEntry])
      rw [if_neg receive]
      refine ⟨space', cancelled.release, ?_, srights, by rw [if_neg receive]; exact pushed⟩
      exact congrArg (Option.map _) freeEntry
  · intro d adj zero
    simp only [ipcRightDeltaSend, found, send, if_false, ipcRightCheck_active active, adj, zero]
    exact writeEntry_add_ite found d

/-- The `DEAD_NAME` case on a dead name follows the saturating rule; the
removal frees the entry and leaves the port as it was. -/
theorem ipcRightDeltaDeadName_saturating (inv : space.FreeList free)
    (found : space.isTable[index]? = some entry) (named : (machPortIndex name).toNat = index)
    (dead : entry.ieBits &&& machPortTypeDeadName ≠ 0)
    (noSend : entry.ieBits &&& machPortTypeSendRights = 0) (noObject : entry.ieObject = none)
    (noRequest : entry.ieNext = 0) (delta : Int32) :
    SaturatingOutcome space port index entry delta
      (fun space' port' => port' = port ∧ space'.FreeList (index :: free))
      (ipcRightDeltaDeadName space port name index delta) := by
  have inUse := ieBitsType_ne_zero (by decide) dead
  have tail : ipcRightDeltaDeadName space port name index delta =
      ipcRightDeltaDeadNameUrefs space port name index false delta := by
    simp only [ipcRightDeltaDeadName, found, noSend, dead, ne_eq, not_true_eq_false, if_false]
  rw [tail]
  apply saturatingOutcome_of_urefs (ipcRightDeltaUrefs_saturate _ delta (ieBitsUrefs_le _))
  · intro rejected
    simp only [ipcRightDeltaDeadNameUrefs, found, rejected]
  · intro d adj zero
    obtain ⟨space', dealloc, pushed⟩ := inv.dealloc_named found inUse noObject noRequest named
    simp only [ipcRightDeltaDeadNameUrefs, found, adj, zero, if_true, dealloc, Option.map_some,
      Bool.false_eq_true, if_false]
    exact ⟨_, _, rfl, rfl, pushed⟩
  · intro d adj zero
    simp only [ipcRightDeltaDeadNameUrefs, found, adj, zero, Bool.false_eq_true, if_false]
    exact writeEntry_add_ite found d

theorem ipcRightDestructUrefs_zero {urefs : UInt32} (counted : 1 ≤ urefs.toNat) :
    ipcRightDestructUrefs urefs 0 = some 0 := by
  have kept : ¬ machPortUrefsUnderflow urefs 0 := by
    rw [machPortUrefsUnderflow_iff, Int32.toInt_zero]
    omega
  rw [ipcRightDestructUrefs, if_neg kept]
  split_ifs <;> rfl

/-- The send part of `ipc_right_destruct` on an entry with at least one user
reference follows the saturating rule; its removal takes the send bit and the
references off the entry and one unit of `ip_srights` off the port. -/
theorem ipcRightDestructSend_saturating (found : space.isTable[index]? = some entry)
    (counted : 1 ≤ (ieBitsUrefs entry.ieBits).toNat) {srdelta : Int32} (nonpositive : srdelta.toInt ≤ 0) :
    SaturatingOutcome space port index entry srdelta
      (fun space' port' => port' = port.dropSendRight ∧ space' = space.writeEntry index
        { entry with ieBits := entry.ieBits &&& ~~~(ieBitsUrefsMask ||| machPortTypeSend) })
      (match ipcRightDestructSend space port index entry srdelta with
        | none => some (.invalidValue, space, port)
        | some (space', port') => some (.success, space', port')) := by
  have zeroCase := ipcRightDestructUrefs_zero counted
  apply saturatingOutcome_of_urefs
    (ipcRightDestructUrefs_saturate _ srdelta (ieBitsUrefs_le _) nonpositive)
  · intro rejected
    have moved : srdelta ≠ 0 := by
      rintro rfl
      rw [zeroCase] at rejected
      cases rejected
    simp only [ipcRightDestructSend, moved, if_false, rejected]
  · intro d adj zero
    have moved : srdelta ≠ 0 := by
      rintro rfl
      rw [zeroCase, Option.some.injEq] at adj
      subst adj
      rw [show (0 : Int32).toUInt32 = 0 from rfl, UInt32.add_zero] at zero
      rw [zero, UInt32.toNat_zero] at counted
      omega
    simp only [ipcRightDestructSend, moved, if_false, adj, zero, if_true]
    exact ⟨_, _, rfl, rfl, rfl⟩
  · intro d adj zero
    by_cases moved : srdelta = 0
    · subst moved
      rw [zeroCase, Option.some.injEq] at adj
      subst adj
      simp only [ipcRightDestructSend, if_true, show (0 : Int32).toUInt32 = 0 from rfl, UInt32.add_zero]
      rw [show ({ entry with ieBits := entry.ieBits } : IpcEntry) = entry from rfl,
        IpcSpace.writeEntry_found found]
    · simp only [ipcRightDestructSend, moved, if_false, adj, zero]

/-- `ipc_right_destruct` with a nonpositive `srdelta` and the right guard, on
a send-receive entry: its send part follows the saturating rule, and on
success the receive right is destroyed after it. -/
theorem ipcRightDestruct_saturating (found : space.isTable[index]? = some entry)
    (receive : entry.ieBits &&& machPortTypeReceive ≠ 0) (send : entry.ieBits &&& machPortTypeSend ≠ 0)
    (counted : 1 ≤ (ieBitsUrefs entry.ieBits).toNat) {srdelta : Int32} (nonpositive : srdelta.toInt ≤ 0)
    {guard : UInt64} (guarded : port.guarded = true → guard = port.context) :
    ∃ sendPart, SaturatingOutcome space port index entry srdelta
      (fun space' port' => port' = port.dropSendRight ∧ space' = space.writeEntry index
        { entry with ieBits := entry.ieBits &&& ~~~(ieBitsUrefsMask ||| machPortTypeSend) }) sendPart ∧
      ipcRightDestruct space port name index srdelta guard = sendPart.bind fun (r, space', port') =>
        if r = .success then
          (ipcRightDestroyReceive space' port' name index).map fun (space'', port'') =>
            (.success, space'', ipcPortDestroy port'')
        else some (r, space', port') := by
  refine ⟨_, ipcRightDestructSend_saturating found counted nonpositive, ?_⟩
  have notPositive : ¬ srdelta > 0 := by
    rw [gt_iff_lt, Int32.lt_iff_toInt_lt, Int32.toInt_zero]
    omega
  have guardMatches : ¬ (port.guarded = true ∧ guard ≠ port.context) := fun ⟨on, wrong⟩ =>
    wrong (guarded on)
  simp only [ipcRightDestruct, found, receive, send, notPositive, guardMatches, if_false, ne_eq,
    and_false]
  cases ipcRightDestructSend space port index entry srdelta with
  | none => rfl
  | some part => rfl

end Cases


/-! The saturating rule over the three operations. -/

/-- The user-reference arithmetic of the right operations is the saturating
rule, for an entry whose port is alive: the `SEND` case of `ipc_right_delta`
on a send right, its `DEAD_NAME` case on a dead name, and the send part of
`ipc_right_destruct` on a send-receive right, with a nonpositive delta and the
port's guard. -/
theorem ipcRight_urefs_saturating {space : IpcSpace} {free : List Nat} (inv : space.FreeList free)
    {port : IpcPort} {name : UInt32} {index : Nat} {entry : IpcEntry}
    (found : space.isTable[index]? = some entry) (named : (machPortIndex name).toNat = index)
    (counted : 1 ≤ (ieBitsUrefs entry.ieBits).toNat) (delta : Int32) :
    (entry.ieBits &&& machPortTypeSend ≠ 0 → port.active = true →
      SaturatingOutcome space port index entry delta (SendRemoved space port index entry free)
        (ipcRightDelta space port name index .send delta)) ∧
    (entry.ieBits &&& machPortTypeDeadName ≠ 0 → entry.ieBits &&& machPortTypeSendRights = 0 →
      entry.ieObject = none → entry.ieNext = 0 →
      SaturatingOutcome space port index entry delta
        (fun space' port' => port' = port ∧ space'.FreeList (index :: free))
        (ipcRightDelta space port name index .deadName delta)) ∧
    (entry.ieBits &&& machPortTypeReceive ≠ 0 → entry.ieBits &&& machPortTypeSend ≠ 0 →
      delta.toInt ≤ 0 → ∀ guard, (port.guarded = true → guard = port.context) →
      ∃ sendPart, SaturatingOutcome space port index entry delta
        (fun space' port' => port' = port.dropSendRight ∧ space' = space.writeEntry index
          { entry with ieBits := entry.ieBits &&& ~~~(ieBitsUrefsMask ||| machPortTypeSend) }) sendPart ∧
        ipcRightDestruct space port name index delta guard = sendPart.bind fun (r, space', port') =>
          if r = .success then
            (ipcRightDestroyReceive space' port' name index).map fun (space'', port'') =>
              (.success, space'', ipcPortDestroy port'')
          else some (r, space', port')) :=
  ⟨fun send active => ipcRightDeltaSend_saturating inv found named send active delta,
    fun dead noSend noObject noRequest =>
      ipcRightDeltaDeadName_saturating inv found named dead noSend noObject noRequest delta,
    fun receive send nonpositive _ guarded =>
      ipcRightDestruct_saturating found receive send counted nonpositive guarded⟩

/-- The send-receive right with three user references that
`sendReceiveSpace` holds in slot 1. -/
def sendReceiveEntry : IpcEntry := ⟨some 7, 0x03030003, 0⟩

/-- A space whose slot 1, named `0x103`, holds `sendReceiveEntry`; its free
list is empty. -/
def sendReceiveSpace : IpcSpace := ⟨[⟨none, 0, 0⟩, sendReceiveEntry], 0, 1, 0⟩

/-- The live port `sendReceiveEntry` names. -/
def livePort : IpcPort := ⟨true, 1, 0, 0, none, none, false, 0, 0, 2, []⟩

theorem sendReceiveSpace_freeList : sendReceiveSpace.FreeList [] where
  chain := .last rfl
  none_iff := by
    intro i e found pos
    match i, found with
    | 1, found =>
      cases Option.some.inj found
      decide
  object := fun _ mem => absurd mem List.not_mem_nil
  count := rfl
  head := ⟨_, rfl, rfl, by decide, by decide⟩

theorem ipcRight_urefs_saturating_sendReceive :
    SaturatingOutcome sendReceiveSpace livePort 1 sendReceiveEntry (-1)
      (SendRemoved sendReceiveSpace livePort 1 sendReceiveEntry [])
      (ipcRightDelta sendReceiveSpace livePort 0x103 1 .send (-1)) :=
  (ipcRight_urefs_saturating sendReceiveSpace_freeList rfl (by decide) (by decide) (-1)).1
    (by decide) rfl

/-- A space whose slot 1, named `0x103`, holds a send right with one user
reference. -/
def sendSpace : IpcSpace := ⟨[⟨none, 0, 0⟩, ⟨some 7, 0x03010001, 0⟩], 0, 1, 0⟩

/-- A port that has died, with the one send right and two references. -/
def deadPort : IpcPort := ⟨false, 1, 0, 0, none, none, false, 0, 0, 2, []⟩

/-- Where the code leaves the rule. A send right whose port has died is
refused with `KERN_INVALID_RIGHT` even for a delta of 0, which the rule
accepts and which keeps the count: `ipc_right_check` has already turned the
entry into a dead name, taken the send right off the port and left its
reference to be released. And `ipc_right_destruct` on a guarded port refuses a
wrong guard with `KERN_INVALID_ARGUMENT` before any arithmetic. -/
theorem ipcRightDelta_send_dead_port :
    urefsSaturate 1 0 = some 1 ∧
      ipcRightDelta sendSpace deadPort 0x103 1 .send 0 =
        some (.invalidRight, ⟨[⟨none, 0, 0⟩, ⟨none, 0x03100001, 0⟩], 0, 0, 0⟩,
          { deadPort with srights := 0, references := 1 }) ∧
      urefsSaturate 3 (-1) = some 2 ∧
      ipcRightDestruct sendReceiveSpace { livePort with guarded := true, context := 5 } 0x103 1 (-1) 0 =
        some (.invalidArgument, sendReceiveSpace, { livePort with guarded := true, context := 5 }) := by
  decide

end Xnu.Ipc
