import Xnu.Bpf.Safety
import Xnu.Bpf.MbufPath

namespace Xnu.Bpf

/-! The arithmetic instructions `bpf_filter` executes on a program accepted by
`bpf_validate`. A division never divides by zero: a constant divisor of zero
is rejected by the validator and a register divisor of zero returns 0. The
validator checks nothing of a shift, so a validated program can shift `A` by a
constant of 32 or more, or by an `X` loaded from the packet, which C leaves
undefined for a 32-bit `A`; the model computes it as Lean's `UInt32` shift,
which takes the amount modulo 32. -/

/-- The right operand of an arithmetic instruction. -/
def BpfSrc.operand : BpfSrc → BpfInsn → BpfMachine → UInt32
  | .k, insn, _ => insn.k
  | .x, _, m => m.x

/-- A division in a validated program: by `X == 0` it returns 0, and
otherwise it divides by a nonzero operand. -/
theorem bpfStep_div_validated {f : List BpfInsn} {bpfMaxbufsize : UInt32} {p : BpfInput}
    {wirelen buflen : UInt32} (valid : bpfValidate f bpfMaxbufsize = true) {m : BpfMachine}
    {insn : BpfInsn} {src : BpfSrc} (fetch : f[m.pc]? = some insn)
    (decoded : bpfDecode insn.code = some (.alu .div src)) :
    (src = .x ∧ m.x = 0 ∧ bpfStep f p wirelen buflen m = some (.ret 0)) ∨
      (src.operand insn m ≠ 0 ∧
        bpfStep f p wirelen buflen m = some (.next { m.advance 0 with a := m.a / src.operand insn m })) := by
  cases src with
  | k =>
    have nonzero : insn.k ≠ 0 := bpfValidate_valid valid fetch decoded
    right
    refine ⟨nonzero, ?_⟩
    simp only [bpfStep, fetch, decoded, BpfSrc.operand, if_neg nonzero]
  | x =>
    by_cases zero : m.x = 0
    · left
      exact ⟨rfl, zero, by simp only [bpfStep, fetch, decoded, if_pos zero]⟩
    · right
      exact ⟨zero, by simp only [bpfStep, fetch, decoded, BpfSrc.operand, if_neg zero]⟩

/-- `div x; ret a` from the initial machine, where `X` is 0. -/
theorem bpfStep_div_validated_by_zero :
    let f : List BpfInsn := [⟨0x3c, 0, 0, 0⟩, ⟨0x16, 0, 0, 0⟩]
    (BpfSrc.x = .x ∧ BpfMachine.init.x = 0 ∧ bpfStep f (.bytes []) 0 0 .init = some (.ret 0)) ∨
      (BpfSrc.x.operand ⟨0x3c, 0, 0, 0⟩ .init ≠ 0 ∧
        bpfStep f (.bytes []) 0 0 .init =
          some (.next { BpfMachine.init.advance 0 with a := BpfMachine.init.a / BpfSrc.x.operand ⟨0x3c, 0, 0, 0⟩ .init })) :=
  @bpfStep_div_validated [⟨0x3c, 0, 0, 0⟩, ⟨0x16, 0, 0, 0⟩] 512 (.bytes []) 0 0 (by decide) .init ⟨0x3c, 0, 0, 0⟩ .x
    rfl (by decide)

/-- `ld #1; lsh #32; ret a`. -/
def shiftByConstant : List BpfInsn := [⟨0x00, 0, 0, 1⟩, ⟨0x64, 0, 0, 32⟩, ⟨0x16, 0, 0, 0⟩]

/-- `ldx 4*([0]&0xf); ld #1; lsh x; ret a`: the shift amount is read from the
first byte of the packet. -/
def shiftByPacket : List BpfInsn := [⟨0xb1, 0, 0, 0⟩, ⟨0x00, 0, 0, 1⟩, ⟨0x6c, 0, 0, 0⟩, ⟨0x16, 0, 0, 0⟩]

/-- Both programs pass `bpf_validate`, and their runs reach a left shift of
`A` by 32 (a constant) and by 60 (from the packet byte `0x0f`). -/
theorem bpfFilter_shift_out_of_range :
    bpfValidate shiftByConstant 0x80000 = true ∧
      (∃ m insn, BpfReach shiftByConstant (.bytes [0]) 1 1 m ∧ shiftByConstant[m.pc]? = some insn ∧
        bpfDecode insn.code = some (.alu .lsh .k) ∧ 32 ≤ BpfSrc.operand .k insn m) ∧
      bpfValidate shiftByPacket 0x80000 = true ∧
      (∃ m insn, BpfReach shiftByPacket (.bytes [0x0f]) 1 1 m ∧ shiftByPacket[m.pc]? = some insn ∧
        bpfDecode insn.code = some (.alu .lsh .x) ∧ 32 ≤ BpfSrc.operand .x insn m) := by
  refine ⟨by decide, ⟨{ BpfMachine.init.advance 0 with a := 1 }, ⟨0x64, 0, 0, 32⟩, ?_, rfl, by decide, by decide⟩,
    by decide, ⟨{ { BpfMachine.init.advance 0 with x := 60 }.advance 0 with a := 1 }, ⟨0x6c, 0, 0, 0⟩, ?_, rfl,
      by decide, by decide⟩⟩
  · exact .next .start rfl
  · exact .next (.next .start rfl) rfl

end Xnu.Bpf
