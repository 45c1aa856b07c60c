import Xnu.Bpf.Filter

namespace Xnu.Bpf

/-! What `bpf_validate` establishes about a program, and why `bpf_filter`
then runs on a contiguous buffer without a fault. -/

theorem BpfOp.mem_all (op : BpfOp) : op ∈ BpfOp.all := by
  rcases op with _ | _ | ⟨_ | _ | _⟩ | _ | _ | ⟨_ | _ | _⟩ | _ | _ | _ | _ | _ | _ | _ | _ |
    ⟨_ | _ | _ | _, _ | _⟩ | ⟨_ | _ | _ | _ | _ | _ | _ | _, _ | _⟩ | _ | _ | _ <;> decide

/-- Only the two return operations carry the class `BPF_RET`. -/
theorem BpfOp.eq_ret_of_class {op : BpfOp} (h : bpfClass op.code = bpfRet) :
    op = .retK ∨ op = .retA := by
  have table : ∀ op ∈ BpfOp.all, bpfClass op.code = bpfRet → op = .retK ∨ op = .retA := by decide
  exact table op (BpfOp.mem_all op) h

/-- The offsets, past the next instruction, at which an operation may continue. -/
def BpfOp.successors (op : BpfOp) (insn : BpfInsn) : List Nat :=
  match op with
  | .retK | .retA => []
  | .ja => [insn.k.toNat]
  | .jmp _ _ => [insn.jt.toNat, insn.jf.toNat]
  | _ => [0]

/-- What the loop of `bpf_validate` checks of instruction `i` of a program of
`len` instructions, read at its decoded operation. -/
def BpfOp.Valid (len i : Nat) (insn : BpfInsn) : BpfOp → Prop
  | .ja => i + 1 + insn.k.toNat < len
  | .jmp _ _ => i + 1 + insn.jt.toNat < len ∧ i + 1 + insn.jf.toNat < len
  | .alu .div .k => insn.k ≠ 0
  | _ => True

theorem bpfValidInsn_sound {len i : Nat} {bpfMaxbufsize : UInt32} {insn : BpfInsn} {op : BpfOp}
    (valid : bpfValidInsn len.toUInt32 bpfMaxbufsize i insn = true)
    (decoded : bpfDecode insn.code = some op) (short : len ≤ bpfMaxinsns) (inside : i < len) :
    op.Valid len i insn := by
  have code := bpfDecode_code decoded
  rcases op with _ | _ | ⟨_ | _ | _⟩ | _ | _ | ⟨_ | _ | _⟩ | _ | _ | _ | _ | _ | _ | _ | _ |
    ⟨_ | _ | _ | _, _ | _⟩ | ⟨_ | _ | _ | _ | _ | _ | _ | _, _ | _⟩ | _ | _ | _
  all_goals simp only [BpfOp.Valid]
  -- only jumps and the constant division remain; the class and operation bits
  -- of their case labels are evaluated by `decide`
  all_goals
    unfold bpfValidInsn at valid
    rw [← code] at valid
    simp +decide at valid
    have := insn.k.toNat_lt
    have := insn.jt.toNat_lt
    have := insn.jf.toNat_lt
    unfold bpfMaxinsns at short
    simp only [UInt32.le_iff_toNat_le, UInt32.lt_iff_toNat_lt, UInt32.toNat_add, UInt32.toNat_ofNat',
      UInt32.toNat_ofNat, UInt8.toNat_toUInt32, ne_eq] at valid ⊢
    omega

theorem bpfValidateLoop_spec {len bpfMaxbufsize : UInt32} {f : List BpfInsn} {i : Nat} :
    bpfValidateLoop len bpfMaxbufsize i f = true ↔
      ∀ j (h : j < f.length), bpfValidInsn len bpfMaxbufsize (i + j) f[j] = true := by
  induction f generalizing i with
  | nil => simp [bpfValidateLoop]
  | cons p rest ih =>
    simp only [bpfValidateLoop, Bool.and_eq_true, ih, List.length_cons]
    constructor
    · rintro ⟨first, later⟩ j bound
      cases j with
      | zero => simpa using first
      | succ j => simpa [Nat.add_assoc, Nat.add_comm 1 j] using later j (by omega)
    · intro every
      refine ⟨by simpa using every 0 (by omega), fun j bound => ?_⟩
      have later := every (j + 1) (by omega)
      rw [List.getElem_cons_succ] at later
      simpa [Nat.add_assoc, Nat.add_comm 1 j] using later

/-- A program accepted by `bpf_validate`: between 1 and `BPF_MAXINSNS`
instructions, each passing the loop's test, the last of class `BPF_RET`. -/
theorem bpfValidate_spec {f : List BpfInsn} {bpfMaxbufsize : UInt32}
    (valid : bpfValidate f bpfMaxbufsize = true) :
    1 ≤ f.length ∧ f.length ≤ bpfMaxinsns ∧
      (∀ j (h : j < f.length), bpfValidInsn f.length.toUInt32 bpfMaxbufsize j f[j] = true) ∧
      ∃ last, f.getLast? = some last ∧ bpfClass last.code = bpfRet := by
  unfold bpfValidate at valid
  split at valid
  · cases valid
  · rename_i bounds
    simp only [Bool.or_eq_true, decide_eq_true_eq, not_or, not_lt] at bounds
    obtain ⟨loop, last⟩ := Bool.and_eq_true_iff.mp valid
    refine ⟨bounds.1, bounds.2, fun j h => by simpa using bpfValidateLoop_spec.mp loop j h, ?_⟩
    split at last
    · rename_i p atLast
      exact ⟨p, atLast, by simpa using last⟩
    · cases last

theorem BpfOp.successor_lt {op : BpfOp} {len i off : Nat} {insn : BpfInsn}
    (sound : op.Valid len i insn) (notLast : i + 1 < len ∨ op = .retK ∨ op = .retA)
    (successor : off ∈ op.successors insn) : i + 1 + off < len := by
  rcases op with _ | _ | ⟨_ | _ | _⟩ | _ | _ | ⟨_ | _ | _⟩ | _ | _ | _ | _ | _ | _ | _ | _ |
    ⟨_ | _ | _ | _, _ | _⟩ | ⟨_ | _ | _ | _ | _ | _ | _ | _, _ | _⟩ | _ | _ | _ <;>
    simp [BpfOp.successors, BpfOp.Valid] at successor sound notLast <;> omega

theorem bpfValidate_valid {f : List BpfInsn} {bpfMaxbufsize : UInt32}
    (valid : bpfValidate f bpfMaxbufsize = true) {i : Nat} {insn : BpfInsn} {op : BpfOp}
    (fetch : f[i]? = some insn) (decoded : bpfDecode insn.code = some op) :
    op.Valid f.length i insn := by
  obtain ⟨_, short, each, _⟩ := bpfValidate_spec valid
  obtain ⟨inside, atI⟩ := List.getElem?_eq_some_iff.mp fetch
  exact bpfValidInsn_sound (by simpa [atI] using each i inside) decoded short inside

/-- Every operation of a validated program continues inside the program: a
jump lands on a later instruction, and only a return can sit last. -/
theorem bpfValidate_successor_lt {f : List BpfInsn} {bpfMaxbufsize : UInt32}
    (valid : bpfValidate f bpfMaxbufsize = true) {i : Nat} {insn : BpfInsn} {op : BpfOp}
    (fetch : f[i]? = some insn) (decoded : bpfDecode insn.code = some op) {off : Nat}
    (successor : off ∈ op.successors insn) : i + 1 + off < f.length := by
  obtain ⟨_, _, _, last, atLast, lastRet⟩ := bpfValidate_spec valid
  have inside := (List.getElem?_eq_some_iff.mp fetch).1
  refine BpfOp.successor_lt (bpfValidate_valid valid fetch decoded) ?_ successor
  by_cases final : i + 1 < f.length
  · exact Or.inl final
  · have index : f.length - 1 = i := by omega
    rw [List.getLast?_eq_getElem?, index, fetch] at atLast
    obtain rfl := Option.some.inj atLast
    exact Or.inr (BpfOp.eq_ret_of_class (by rw [bpfDecode_code decoded]; exact lastRet))

/-! One step of the interpreter. -/

theorem bpfLoad_next {buflen : UInt32} {outside : Bool} {fallback : Option (UInt32 × Bool)}
    {read : Option UInt32} {load : UInt32 → BpfMachine} {m' : BpfMachine}
    (h : bpfLoad buflen outside fallback read load = some (.next m')) : ∃ v, m' = load v := by
  unfold bpfLoad bpfFallback at h
  split at h
  · split at h
    · cases h
    · split at h
      · cases h
      · cases h
      · cases h
        exact ⟨_, rfl⟩
  · obtain ⟨v, -, same⟩ := Option.map_eq_some_iff.mp h
    cases same
    exact ⟨v, rfl⟩

theorem bpfLoad_isSome {buflen : UInt32} {outside : Bool} {fallback : Option (UInt32 × Bool)}
    {read : Option UInt32} {load : UInt32 → BpfMachine} (nonempty : buflen ≠ 0)
    (inside : outside = false → read.isSome) : (bpfLoad buflen outside fallback read load).isSome := by
  unfold bpfLoad bpfFallback
  cases outside with
  | true => simp [nonempty]
  | false => simpa using inside rfl

theorem bpfLoad_outside {buflen : UInt32} {outside : Bool} {fallback : Option (UInt32 × Bool)}
    {read : Option UInt32} {load : UInt32 → BpfMachine} (nonempty : buflen ≠ 0)
    (failed : outside = true) : bpfLoad buflen outside fallback read load = some (.ret 0) := by
  simp [bpfLoad, bpfFallback, nonempty, failed]

/-- The only ways an iteration continues: to the next instruction, or past a
jump's offset. -/
theorem bpfStep_next {prog : List BpfInsn} {p : BpfInput} {wirelen buflen : UInt32}
    {m m' : BpfMachine} (h : bpfStep prog p wirelen buflen m = some (.next m')) :
    ∃ insn op, prog[m.pc]? = some insn ∧ bpfDecode insn.code = some op ∧
      ∃ off ∈ op.successors insn, m'.pc = m.pc + 1 + off := by
  unfold bpfStep at h
  split at h
  · cases h
  · rename_i insn fetch
    split at h
    next => cases h
    all_goals
      rename_i decoded
      refine ⟨insn, _, fetch, decoded, ?_⟩
    all_goals first
      | (obtain ⟨v, rfl⟩ := bpfLoad_next h; exact ⟨0, by simp [BpfOp.successors], rfl⟩)
      | (split at h <;> cases h <;> exact ⟨0, by simp [BpfOp.successors], rfl⟩)
      | (cases h; refine ⟨_, ?_, rfl⟩; simp only [BpfOp.successors]; split <;> simp)
      | (cases h; exact ⟨_, by simp [BpfOp.successors], rfl⟩)
      | cases h

/-- On a contiguous buffer of `buflen > 0` bytes an iteration does not fault
when its instruction exists and a constant divisor is not zero: each load's own
check keeps its bytes below `buflen`. -/
theorem bpfStep_isSome {prog : List BpfInsn} {p : List UInt8} {wirelen buflen : UInt32}
    {m : BpfMachine} {insn : BpfInsn} (fetch : prog[m.pc]? = some insn)
    (divisor : bpfDecode insn.code = some (.alu .div .k) → insn.k ≠ 0)
    (sized : p.length = buflen.toNat) (nonempty : buflen ≠ 0) :
    (bpfStep prog (.bytes p) wirelen buflen m).isSome := by
  unfold bpfStep
  rw [fetch]
  dsimp only
  split
  next => rfl
  -- a load passing its check reads inside the buffer; the five shapes of check
  -- are the five guard lemmas
  all_goals first
    | rfl
    | (rename_i decoded; simp [divisor decoded])
    | (split <;> rfl)
    | (apply bpfLoad_isSome nonempty
       intro inside
       first
         | (have fits := (UInt32.sub_guard_iff _ _ _).mp inside
            simp only [BpfInput.word, BpfInput.half, Option.isSome_map, readWord_isSome_iff,
              readHalf_isSome_iff, UInt32.reduceToNat] at fits ⊢
            omega)
         | (have fits := (UInt32.ge_guard_iff _ _).mp inside
            simp only [BpfInput.byte, Option.isSome_map, isSome_getElem?]
            omega)
         | (have fits := (UInt32.ind_guard_iff _ _ _ _).mp inside
            simp only [UInt32.reduceToNat] at fits
            simp only [BpfInput.word, readWord_isSome_iff,
              UInt32.toNat_add_of_le (show m.x.toNat + insn.k.toNat ≤ buflen.toNat by omega)]
            omega)
         | (have fits := (UInt32.ind_swap_guard_iff _ _ _ _).mp inside
            simp only [UInt32.reduceToNat] at fits
            simp only [BpfInput.half, Option.isSome_map, readHalf_isSome_iff,
              UInt32.toNat_add_of_le (show m.x.toNat + insn.k.toNat ≤ buflen.toNat by omega)]
            omega)
         | (have fits := (UInt32.ind_byte_guard_iff _ _ _).mp inside
            simp only [BpfInput.byte, Option.isSome_map, isSome_getElem?,
              UInt32.toNat_add_of_le (show m.x.toNat + insn.k.toNat ≤ buflen.toNat by omega)]
            omega))

/-- The packet bytes a load reads, as offset and width; the indirect offset is
`X + k` taken without wrapping. -/
def BpfOp.loadSpan (op : BpfOp) (insn : BpfInsn) (m : BpfMachine) : Option (Nat × Nat) :=
  match op with
  | .ldAbs .w => some (insn.k.toNat, 4)
  | .ldAbs .h => some (insn.k.toNat, 2)
  | .ldAbs .b | .ldxMsh => some (insn.k.toNat, 1)
  | .ldInd .w => some (m.x.toNat + insn.k.toNat, 4)
  | .ldInd .h => some (m.x.toNat + insn.k.toNat, 2)
  | .ldInd .b => some (m.x.toNat + insn.k.toNat, 1)
  | _ => none

/-- A load whose bytes do not all lie below a nonzero `buflen` returns 0,
whatever the buffer. -/
theorem bpfStep_load_outside {prog : List BpfInsn} {p : BpfInput} {wirelen buflen : UInt32}
    {m : BpfMachine} {insn : BpfInsn} {op : BpfOp} {off n : Nat} (fetch : prog[m.pc]? = some insn)
    (decoded : bpfDecode insn.code = some op) (span : op.loadSpan insn m = some (off, n))
    (beyond : buflen.toNat < off + n) (nonempty : buflen ≠ 0) :
    bpfStep prog p wirelen buflen m = some (.ret 0) := by
  unfold bpfStep
  rw [fetch]
  dsimp only
  rw [decoded]
  rcases op with _ | _ | ⟨_ | _ | _⟩ | _ | _ | ⟨_ | _ | _⟩ | _ | _ | _ | _ | _ | _ | _ | _ |
    ⟨_ | _ | _ | _, _ | _⟩ | ⟨_ | _ | _ | _ | _ | _ | _ | _, _ | _⟩ | _ | _ | _
  all_goals simp only [BpfOp.loadSpan, Option.some.injEq, Prod.mk.injEq, reduceCtorEq] at span
  all_goals
    obtain ⟨rfl, rfl⟩ := span
    apply bpfLoad_outside nonempty
    by_contra inside
    rw [Bool.not_eq_true] at inside
    first
      | (have bound := (UInt32.sub_guard_iff _ _ _).mp inside; simp only [UInt32.reduceToNat] at bound; omega)
      | (have bound := (UInt32.ge_guard_iff _ _).mp inside; omega)
      | (have bound := (UInt32.ind_guard_iff _ _ _ _).mp inside; simp only [UInt32.reduceToNat] at bound; omega)
      | (have bound := (UInt32.ind_swap_guard_iff _ _ _ _).mp inside; simp only [UInt32.reduceToNat] at bound; omega)
      | (have bound := (UInt32.ind_byte_guard_iff _ _ _).mp inside; omega)

/-! Whole runs. -/

theorem bpfRun_mono {prog : List BpfInsn} {p : BpfInput} {wirelen buflen : UInt32} :
    ∀ {n n' : Nat} {m : BpfMachine} {v : UInt32}, bpfRun prog p wirelen buflen n m = some v →
      n ≤ n' → bpfRun prog p wirelen buflen n' m = some v := by
  intro n
  induction n with
  | zero => intro n' m v run; simp [bpfRun] at run
  | succ n ih =>
    intro n' m v run bound
    obtain ⟨n', rfl⟩ : ∃ k, n' = k + 1 := ⟨n' - 1, by omega⟩
    simp only [bpfRun] at run ⊢
    split at run
    · cases run
    · exact run
    · exact ih run (by omega)

/-- From any state inside a validated program, a run on a contiguous buffer of
`buflen > 0` bytes returns within as many iterations as instructions remain:
every iteration moves `pc` forward and stays inside the program. -/
theorem bpfRun_validated {f : List BpfInsn} {bpfMaxbufsize : UInt32} {p : List UInt8}
    {wirelen buflen : UInt32} (valid : bpfValidate f bpfMaxbufsize = true)
    (sized : p.length = buflen.toNat) (nonempty : buflen ≠ 0) :
    ∀ n (m : BpfMachine), m.pc < f.length → f.length - m.pc ≤ n →
      ∃ v, bpfRun f (.bytes p) wirelen buflen n m = some v := by
  intro n
  induction n with
  | zero => intro m inside bound; omega
  | succ n ih =>
    intro m inside bound
    have fetch : f[m.pc]? = some f[m.pc] := List.getElem?_eq_getElem inside
    have divisor (decoded : bpfDecode f[m.pc].code = some (.alu .div .k)) : f[m.pc].k ≠ 0 :=
      bpfValidate_valid valid fetch decoded
    have progress : (bpfStep f (.bytes p) wirelen buflen m).isSome :=
      bpfStep_isSome fetch divisor sized nonempty
    obtain ⟨step, stepEq⟩ := Option.isSome_iff_exists.mp progress
    cases step with
    | ret v => exact ⟨v, by simp [bpfRun, stepEq]⟩
    | next m' =>
      obtain ⟨insn, op, fetch', decoded, off, successor, advanced⟩ := bpfStep_next stepEq
      have within := bpfValidate_successor_lt valid fetch' decoded successor
      obtain ⟨v, run⟩ := ih m' (by omega) (by omega)
      exact ⟨v, by simp [bpfRun, stepEq, run]⟩

/-- `bpf_filter` on a program accepted by `bpf_validate` (for any
`bpf_maxbufsize`) and a contiguous buffer holding exactly `buflen > 0` bytes
returns after at most `len` iterations and never faults: no instruction is
fetched outside `0..len-1`, no packet byte at or past `buflen` is read, and
`mem` is only indexed below `BPF_MEMWORDS` (its index is a `Fin`). Every load
whose bytes do not all lie below `buflen` returns 0. -/
theorem bpfFilter_validated_safe {f : List BpfInsn} {bpfMaxbufsize : UInt32} {p : List UInt8}
    {wirelen buflen : UInt32} (valid : bpfValidate f bpfMaxbufsize = true)
    (sized : p.length = buflen.toNat) (nonempty : 0 < buflen) :
    (∃ v, bpfRun f (.bytes p) wirelen buflen f.length BpfMachine.init = some v ∧
        bpfFilter (some f) (.bytes p) wirelen buflen = some v) ∧
      ∀ (m : BpfMachine) insn op off n, f[m.pc]? = some insn → bpfDecode insn.code = some op →
        op.loadSpan insn m = some (off, n) → buflen.toNat < off + n →
        bpfStep f (.bytes p) wirelen buflen m = some (.ret 0) := by
  have nonzero : buflen ≠ 0 := by
    intro zero
    rw [zero] at nonempty
    exact absurd nonempty (by decide)
  have started : 0 < f.length := (bpfValidate_spec valid).1
  obtain ⟨v, run⟩ := bpfRun_validated valid sized nonzero f.length BpfMachine.init started (by omega)
  refine ⟨⟨v, run, bpfRun_mono run (by omega)⟩, ?_⟩
  intro m insn op off n fetch decoded span beyond
  exact bpfStep_load_outside fetch decoded span beyond nonzero

theorem bpfFilter_validated_safe_word :
    bpfValidate [⟨0x20, 0, 0, 0⟩, ⟨0x16, 0, 0, 0⟩] 0x80000 = true ∧
      ∃ v, bpfRun [⟨0x20, 0, 0, 0⟩, ⟨0x16, 0, 0, 0⟩] (.bytes [1, 2, 3, 4]) 4 4 2 BpfMachine.init = some v ∧
        bpfFilter (some [⟨0x20, 0, 0, 0⟩, ⟨0x16, 0, 0, 0⟩]) (.bytes [1, 2, 3, 4]) 4 4 = some v :=
  have valid : bpfValidate [⟨0x20, 0, 0, 0⟩, ⟨0x16, 0, 0, 0⟩] 0x80000 = true := by decide
  ⟨valid, (bpfFilter_validated_safe valid rfl (by decide)).1⟩

end Xnu.Bpf
