import Xnu.Ipc.RightCorrect

namespace Xnu.Ipc

/-! What a failed `ipc_right_delta` or `ipc_right_destruct` leaves behind.
Every error leaves the space and the port as they were, except after
`ipc_right_check` has turned a send or send-once entry whose port has died
into a dead name; the entry's port reference must then be released. -/

/-- `ipc_right_check` has turned the entry at `index` of `space`, whose port
has died, into a dead name in `space'`; `port'` is the port after the check,
with the reference the entry held released when `released`, and still
counted otherwise. -/
def DeadConversion (space : IpcSpace) (port : IpcPort) (index : Nat) (space' : IpcSpace)
    (port' : IpcPort) (released : Bool) : Prop :=
  ∃ entry checked, space.isTable[index]? = some entry ∧
    ipcRightCheck space port index entry = some (space', checked) ∧
    port' = if released then checked.release else checked

theorem success_of_map {α : Type} {o : Option α} {f : α → IpcSpace × IpcPort} {r : RightReturn}
    {space : IpcSpace} {port : IpcPort}
    (result : o.map (fun a => (RightReturn.success, f a)) = some (r, space, port)) : r = .success := by
  obtain ⟨a, -, same⟩ := Option.map_eq_some_iff.mp result
  exact (Prod.mk.inj same).1.symm

section Failure

variable {space space' : IpcSpace} {port port' : IpcPort} {name : UInt32} {index : Nat}
  {r : RightReturn} {delta : Int32}

theorem ipcRightDeltaPortSet_failure
    (result : ipcRightDeltaPortSet space port name index delta = some (r, space', port'))
    (failed : r ≠ .success) : space' = space ∧ port' = port := by
  unfold ipcRightDeltaPortSet at result
  split at result
  · cases result
  · split_ifs at result
    · cases result
      exact ⟨rfl, rfl⟩
    · cases result
      exact absurd rfl failed
    · cases result
      exact ⟨rfl, rfl⟩
    · exact absurd (success_of_map result) failed

theorem ipcRightDeltaReceive_failure
    (result : ipcRightDeltaReceive space port name index delta = some (r, space', port'))
    (failed : r ≠ .success) : space' = space ∧ port' = port := by
  unfold ipcRightDeltaReceive at result
  split at result
  · cases result
  · split_ifs at result
    · cases result
      exact ⟨rfl, rfl⟩
    · cases result
      exact absurd rfl failed
    · cases result
      exact ⟨rfl, rfl⟩
    · cases result
      exact ⟨rfl, rfl⟩
    · obtain ⟨_, -, same⟩ := Option.map_eq_some_iff.mp result
      exact absurd (Prod.mk.inj same).1.symm failed

theorem ipcRightDeltaSendOnce_failure
    (result : ipcRightDeltaSendOnce space port name index delta = some (r, space', port'))
    (failed : r ≠ .success) :
    (space' = space ∧ port' = port) ∨ DeadConversion space port index space' port' true := by
  unfold ipcRightDeltaSendOnce at result
  rcases found : space.isTable[index]? with _ | entry
  · simp only [found, reduceCtorEq] at result
  simp only [found] at result
  by_cases noRight : entry.ieBits &&& machPortTypeSendOnce = 0
  · rw [if_pos noRight] at result
    cases result
    exact .inl ⟨rfl, rfl⟩
  rw [if_neg noRight] at result
  rcases check : ipcRightCheck space port index entry with _ | ⟨converted, checked⟩
  · simp only [check] at result
    split at result
    · cases result
      exact .inl ⟨rfl, rfl⟩
    split at result
    · cases result
      exact absurd rfl failed
    · exact absurd (success_of_map result) failed
  · simp only [check, Option.some.injEq] at result
    cases result
    exact .inr ⟨entry, checked, found, check, rfl⟩

/-- The `DEAD_NAME` case from its range check on fails only with
`KERN_INVALID_VALUE`, and then leaves the space and the port as they are:
in particular it does not release `relport`. -/
theorem ipcRightDeltaDeadNameUrefs_failure {relport : Bool}
    (result : ipcRightDeltaDeadNameUrefs space port name index relport delta = some (r, space', port'))
    (failed : r ≠ .success) : r = .invalidValue ∧ space' = space ∧ port' = port := by
  unfold ipcRightDeltaDeadNameUrefs at result
  rcases found : space.isTable[index]? with _ | entry
  · simp only [found, reduceCtorEq] at result
  rcases adjusted : ipcRightDeltaUrefs (ieBitsUrefs entry.ieBits) delta with _ | d
  · simp only [found, adjusted, Option.some.injEq] at result
    cases result
    exact ⟨rfl, rfl, rfl⟩
  simp only [found, adjusted] at result
  by_cases removed : ieBitsUrefs entry.ieBits + d.toUInt32 = 0
  · rw [if_pos removed] at result
    exact absurd (success_of_map result) failed
  rw [if_neg removed] at result
  by_cases moved : d ≠ 0
  · rw [if_pos moved] at result
    cases result
    exact absurd rfl failed
  · rw [if_neg moved] at result
    cases result
    exact absurd rfl failed

theorem ipcRightDeltaDeadName_failure
    (result : ipcRightDeltaDeadName space port name index delta = some (r, space', port'))
    (failed : r ≠ .success) :
    (space' = space ∧ port' = port) ∨
      r = .invalidValue ∧ DeadConversion space port index space' port' false := by
  unfold ipcRightDeltaDeadName at result
  rcases found : space.isTable[index]? with _ | entry
  · simp only [found, reduceCtorEq] at result
  simp only [found] at result
  by_cases sendRights : entry.ieBits &&& machPortTypeSendRights ≠ 0
  · rw [if_pos sendRights] at result
    rcases check : ipcRightCheck space port index entry with _ | ⟨converted, checked⟩
    · simp only [check, Option.some.injEq] at result
      cases result
      exact .inl ⟨rfl, rfl⟩
    -- the converted entry goes on to the arithmetic, which may still fail
    simp only [check] at result
    obtain ⟨invalid, sameSpace, samePort⟩ := ipcRightDeltaDeadNameUrefs_failure result failed
    rw [← sameSpace, ← samePort] at check
    exact .inr ⟨invalid, entry, port', found, check, rfl⟩
  rw [if_neg sendRights] at result
  by_cases noRight : entry.ieBits &&& machPortTypeDeadName = 0
  · rw [if_pos noRight] at result
    cases result
    exact .inl ⟨rfl, rfl⟩
  · rw [if_neg noRight] at result
    exact .inl (ipcRightDeltaDeadNameUrefs_failure result failed).2

theorem ipcRightDeltaSend_failure
    (result : ipcRightDeltaSend space port name index delta = some (r, space', port'))
    (failed : r ≠ .success) :
    (space' = space ∧ port' = port) ∨ DeadConversion space port index space' port' true := by
  unfold ipcRightDeltaSend at result
  rcases found : space.isTable[index]? with _ | entry
  · simp only [found, reduceCtorEq] at result
  simp only [found] at result
  by_cases noRight : entry.ieBits &&& machPortTypeSend = 0
  · rw [if_pos noRight] at result
    cases result
    exact .inl ⟨rfl, rfl⟩
  rw [if_neg noRight] at result
  rcases check : ipcRightCheck space port index entry with _ | ⟨converted, checked⟩
  · rcases adjusted : ipcRightDeltaUrefs (ieBitsUrefs entry.ieBits) delta with _ | d
    · simp only [check, adjusted, Option.some.injEq] at result
      cases result
      exact .inl ⟨rfl, rfl⟩
    simp only [check, adjusted] at result
    by_cases removed : ieBitsUrefs entry.ieBits + d.toUInt32 = 0
    · rw [if_pos removed] at result
      split at result
      · cases result
        exact absurd rfl failed
      · exact absurd (success_of_map result) failed
    rw [if_neg removed] at result
    split at result <;>
    · cases result
      exact absurd rfl failed
  · simp only [check, Option.some.injEq] at result
    cases result
    exact .inr ⟨entry, checked, found, check, rfl⟩

/-- A failed `ipc_right_delta` leaves the space and the port as they were,
or has turned a send or send-once entry whose port has died into a dead
name. The reference that entry held is released in every such failure but
one: `KERN_INVALID_VALUE` from the `DEAD_NAME` case. -/
theorem ipcRightDelta_failure {right : MachPortRight}
    (result : ipcRightDelta space port name index right delta = some (r, space', port'))
    (failed : r ≠ .success) :
    (space' = space ∧ port' = port) ∨ DeadConversion space port index space' port' true ∨
      right = .deadName ∧ r = .invalidValue ∧ DeadConversion space port index space' port' false := by
  cases right with
  | portSet => exact .inl (ipcRightDeltaPortSet_failure result failed)
  | receive => exact .inl (ipcRightDeltaReceive_failure result failed)
  | sendOnce => exact (ipcRightDeltaSendOnce_failure result failed).imp_right .inl
  | deadName =>
    rcases ipcRightDeltaDeadName_failure result failed with unchanged | ⟨invalid, converted⟩
    · exact .inl unchanged
    · exact .inr (.inr ⟨rfl, invalid, converted⟩)
  | send => exact (ipcRightDeltaSend_failure result failed).imp_right .inl
  | labelh =>
    cases result
    exact .inl ⟨rfl, rfl⟩

/-- A send right whose port has died, asked for a delta of 0: refused with
`KERN_INVALID_RIGHT` after `ipc_right_check` has made it a dead name and
released its reference. -/
theorem ipcRightDelta_failure_deadPort :
    let space' : IpcSpace := ⟨[⟨none, 0, 0⟩, ⟨none, 0x03100001, 0⟩], 0, 0, 0⟩
    let port' : IpcPort := { deadPort with srights := 0, references := 1 }
    (space' = sendSpace ∧ port' = deadPort) ∨ DeadConversion sendSpace deadPort 1 space' port' true ∨
      MachPortRight.send = .deadName ∧ RightReturn.invalidRight = .invalidValue ∧
        DeadConversion sendSpace deadPort 1 space' port' false :=
  ipcRightDelta_failure
    (by decide : ipcRightDelta sendSpace deadPort 0x103 1 .send 0 =
      some (.invalidRight, ⟨[⟨none, 0, 0⟩, ⟨none, 0x03100001, 0⟩], 0, 0, 0⟩,
        { deadPort with srights := 0, references := 1 }))
    (by decide)

/-- The one failure that keeps the reference: the `DEAD_NAME` case with a
delta of 70000, past the range check, on a send right whose port has died.
The entry has become a dead name that no longer names the port and the port
has lost the send right, but `KERN_INVALID_VALUE` returns without
`ip_release(relport)`: the port keeps both its references. With a delta the
range check accepts, the same call releases it. -/
theorem ipcRightDelta_dead_name_keeps_reference :
    ipcRightDelta sendSpace deadPort 0x103 1 .deadName 70000 =
        some (.invalidValue, ⟨[⟨none, 0, 0⟩, ⟨none, 0x03100001, 0⟩], 0, 0, 0⟩,
          { deadPort with srights := 0 }) ∧
      ipcRightDelta sendSpace deadPort 0x103 1 .deadName 1 =
        some (.success, ⟨[⟨none, 0, 0⟩, ⟨none, 0x03100002, 0⟩], 0, 0, 0⟩,
          { deadPort with srights := 0, references := 1 }) := by
  decide

/-- Every failure of `ipc_right_destruct` leaves the space and the port as
they were. -/
theorem ipcRightDestruct_failure {srdelta : Int32} {guard : UInt64}
    (result : ipcRightDestruct space port name index srdelta guard = some (r, space', port'))
    (failed : r ≠ .success) : space' = space ∧ port' = port := by
  unfold ipcRightDestruct at result
  rcases found : space.isTable[index]? with _ | entry
  · simp only [found, reduceCtorEq] at result
  simp only [found] at result
  -- the four refusals before the send part return the space and the port
  split at result
  · cases result
    exact ⟨rfl, rfl⟩
  split at result
  · cases result
    exact ⟨rfl, rfl⟩
  split at result
  · cases result
    exact ⟨rfl, rfl⟩
  split at result
  · cases result
    exact ⟨rfl, rfl⟩
  rcases sendPart : ipcRightDestructSend space port index entry srdelta with _ | ⟨sent, dropped⟩
  · simp only [sendPart, Option.some.injEq] at result
    cases result
    exact ⟨rfl, rfl⟩
  · simp only [sendPart] at result
    obtain ⟨_, -, same⟩ := Option.map_eq_some_iff.mp result
    exact absurd (Prod.mk.inj same).1.symm failed

end Failure

end Xnu.Ipc
