import Xnu.MachO.Loader

namespace Xnu.MachO

/-! Every command a pass hands to the switch starts after the header and lies
inside the command area with room for its `struct load_command`, whatever
each handler does; a pass that runs to its end has handed the switch the
whole unchecked walk of `ncmds` commands from the header. The rescan of
`set_code_unprotect`, which runs only in pass 3, after the other passes ran
to their end, reads a prefix of that walk. -/

section Loop

variable {buf : List UInt8} {cmdsSize : Nat} {act : LoadCommand → Bool}

/-- The prevalidation of the loop: every command handed to the switch lies
after the start and inside the command area, with `cmdsize` at least the size
of a `struct load_command`. -/
theorem commandLoop_bounds {offset n : Nat} {lc : LoadCommand}
    (examined : lc ∈ (commandLoop buf cmdsSize act offset n).1) :
    offset ≤ lc.offset ∧ loadCommandSize ≤ lc.cmdsize.toNat ∧ lc.offset + lc.cmdsize.toNat ≤ cmdsSize := by
  induction n generalizing offset with
  | zero => simp [commandLoop] at examined
  | succ n ih =>
    unfold commandLoop at examined
    dsimp only at examined
    split at examined
    · simp at examined
    rename_i header
    split at examined
    · simp at examined
    rename_i checked
    simp only [Bool.or_eq_true, decide_eq_true_eq, not_or, not_le, not_lt] at checked
    have here : lc = loadCommandAt buf offset →
        offset ≤ lc.offset ∧ loadCommandSize ≤ lc.cmdsize.toNat ∧ lc.offset + lc.cmdsize.toNat ≤ cmdsSize := by
      rintro rfl
      exact ⟨le_rfl, checked.1.2, checked.2⟩
    split at examined
    · simp only [List.mem_singleton] at examined
      exact here examined
    · rcases List.mem_cons.mp examined with first | later
      · exact here first
      · obtain ⟨after, size, inside⟩ := ih later
        exact ⟨by simp only [loadCommandAt] at after; omega, size, inside⟩

/-- A loop that runs to its end handed the switch the unchecked walk, and the
switch accepted every command. -/
theorem commandLoop_complete {offset n : Nat} (complete : (commandLoop buf cmdsSize act offset n).2 = true) :
    (commandLoop buf cmdsSize act offset n).1 = rescanLoop buf (fun _ => false) offset n ∧
      ∀ lc ∈ (commandLoop buf cmdsSize act offset n).1, act lc = true := by
  induction n generalizing offset with
  | zero => simp [commandLoop, rescanLoop]
  | succ n ih =>
    unfold commandLoop at complete ⊢
    dsimp only at complete ⊢
    split at complete
    · contradiction
    split at complete
    · contradiction
    split at complete
    · contradiction
    rename_i _ _ accepted
    obtain ⟨walk, all⟩ := ih complete
    rw [if_neg ‹_›, if_neg ‹_›, if_neg accepted]
    refine ⟨by simp only [rescanLoop, Bool.false_eq_true, if_false, walk], ?_⟩
    intro lc member
    rcases List.mem_cons.mp member with rfl | later
    · simpa using accepted
    · exact all lc later

end Loop

/-- The rescan reads a prefix of the unchecked walk, all of it where no
segment covers the range. -/
theorem rescanLoop_prefix (buf : List UInt8) (covers : LoadCommand → Bool) (offset n : Nat) :
    rescanLoop buf covers offset n <+: rescanLoop buf (fun _ => false) offset n ∧
      ((∀ lc ∈ rescanLoop buf (fun _ => false) offset n, covers lc = false) →
        rescanLoop buf covers offset n = rescanLoop buf (fun _ => false) offset n) := by
  induction n generalizing offset with
  | zero => simp [rescanLoop]
  | succ n ih =>
    simp only [rescanLoop, Bool.false_eq_true, if_false]
    obtain ⟨front, whole⟩ := ih (offset + (loadCommandAt buf offset).cmdsize.toNat)
    split
    · exact ⟨List.cons_prefix_cons.mpr ⟨rfl, List.nil_prefix⟩, fun none => by simp_all⟩
    · exact ⟨List.cons_prefix_cons.mpr ⟨rfl, front⟩,
        fun none => by rw [whole (fun lc member => none lc (List.mem_cons_of_mem _ member))]⟩

/-- Every structure a handler reads a command through, where its size check
lets it, fits inside the command. -/
theorem structRead_le {cmdsSize depth pass size : Nat} {lc : LoadCommand}
    (read : structRead cmdsSize depth pass lc = some size) : size ≤ lc.cmdsize.toNat := by
  unfold structRead at read
  dsimp only at read
  split_ifs at read <;> simp_all

/-- What `load_segment` has checked once it gets past its checks: the
command holds the segment structure and `nsects` sections, and the file range
of the segment ends inside the Mach-O, with no wrap of its 64-bit sum. -/
theorem loadSegmentChecks_spec {buf : List UInt8} {machoSize : Nat} {lc : LoadCommand}
    (accepted : loadSegmentChecks buf machoSize lc = true) :
    segmentSizeFor lc ≤ lc.cmdsize.toNat ∧
      (segmentFileoff buf lc + segmentFilesize buf lc).toNat =
        (segmentFileoff buf lc).toNat + (segmentFilesize buf lc).toNat ∧
      (segmentFileoff buf lc).toNat + (segmentFilesize buf lc).toNat ≤ machoSize ∧
      (segmentNsects buf lc).toNat * sectionSizeFor lc ≤ lc.cmdsize.toNat - segmentSizeFor lc := by
  unfold loadSegmentChecks at accepted
  dsimp only at accepted
  split at accepted
  · contradiction
  rename_i holds
  split at accepted
  · contradiction
  rename_i inside
  simp only [Bool.or_eq_true, decide_eq_true_eq, not_or, not_lt] at inside
  obtain ⟨noWrap, within⟩ := inside
  have sum : (segmentFileoff buf lc + segmentFilesize buf lc).toNat =
      (segmentFileoff buf lc).toNat + (segmentFilesize buf lc).toNat := by
    have ordered := UInt64.not_lt.mp noWrap
    rw [UInt64.le_iff_toNat_le] at ordered
    have small := (segmentFilesize buf lc).toNat_lt
    rw [UInt64.toNat_add] at ordered ⊢
    omega
  have positive : 0 < sectionSizeFor lc := by
    unfold sectionSizeFor
    split <;> decide
  simp only [Bool.not_eq_eq_eq_not, Bool.not_true, decide_eq_false_iff_not, not_lt] at accepted
  exact ⟨by omega, sum, sum ▸ within, (Nat.le_div_iff_mul_le positive).mp accepted⟩

section Passes

variable {buf : List UInt8} {cmdsSize : Nat} {preflight : Nat → Bool} {act : Nat → LoadCommand → Bool}

/-- A pass in the result of the loop over the passes is the walk of that pass,
and every pass before it in the list ran to its end. -/
theorem passLoop_mem {pass first : Nat} {passes : List Nat} {examined : List LoadCommand}
    (member : (pass, examined) ∈ (passLoop buf cmdsSize preflight act (first :: passes)).1) :
    (pass = first ∧ examined = (commandLoop buf cmdsSize (act first) (machHeaderSz buf) (ncmds buf)).1) ∨
      ((commandLoop buf cmdsSize (act first) (machHeaderSz buf) (ncmds buf)).2 = true ∧
        (pass, examined) ∈ (passLoop buf cmdsSize preflight act passes).1) := by
  unfold passLoop at member
  dsimp only at member
  split at member
  · simp at member
  split at member
  · simp only [List.mem_singleton, Prod.mk.injEq] at member
    exact .inl member
  · rename_i _ complete
    rcases List.mem_cons.mp member with here | later
    · simp only [Prod.mk.injEq] at here
      exact .inl here
    · exact .inr ⟨by simpa using complete, later⟩

theorem passLoop_walk {pass : Nat} {passes : List Nat} {examined : List LoadCommand}
    (member : (pass, examined) ∈ (passLoop buf cmdsSize preflight act passes).1) :
    examined = (commandLoop buf cmdsSize (act pass) (machHeaderSz buf) (ncmds buf)).1 := by
  induction passes with
  | nil => simp [passLoop] at member
  | cons first passes ih =>
    rcases passLoop_mem member with ⟨rfl, walk⟩ | ⟨_, later⟩
    · exact walk
    · exact ih later

/-- The first pass of a loop that got anywhere is in its result. -/
theorem passLoop_first {pass first : Nat} {passes : List Nat} {examined : List LoadCommand}
    (member : (pass, examined) ∈ (passLoop buf cmdsSize preflight act (first :: passes)).1) :
    (first, (commandLoop buf cmdsSize (act first) (machHeaderSz buf) (ncmds buf)).1) ∈
      (passLoop buf cmdsSize preflight act (first :: passes)).1 := by
  unfold passLoop at member ⊢
  dsimp only at member ⊢
  split at member
  · simp at member
  rename_i ready
  rw [if_neg ready]
  split <;> simp

/-- Pass 3 runs only after pass 0 ran to its end. -/
theorem parseMachfilePasses_pass0 {examined : List LoadCommand}
    (member : (3, examined) ∈ (parseMachfilePasses buf cmdsSize preflight act).1) :
    (commandLoop buf cmdsSize (act 0) (machHeaderSz buf) (ncmds buf)).2 = true ∧
      (0, (commandLoop buf cmdsSize (act 0) (machHeaderSz buf) (ncmds buf)).1) ∈
        (parseMachfilePasses buf cmdsSize preflight act).1 := by
  unfold parseMachfilePasses at member ⊢
  refine ⟨?_, passLoop_first member⟩
  rcases passLoop_mem member with ⟨three, -⟩ | ⟨done, -⟩
  · omega
  · exact done

/-- A command handed to the switch in some pass lies after the header and
inside the command area, with room for its `struct load_command`. -/
theorem parseMachfilePasses_bounds {pass : Nat} {examined : List LoadCommand} {lc : LoadCommand}
    (member : (pass, examined) ∈ (parseMachfilePasses buf cmdsSize preflight act).1) (examinedLc : lc ∈ examined) :
    machHeaderSz buf ≤ lc.offset ∧ loadCommandSize ≤ lc.cmdsize.toNat ∧ lc.offset + lc.cmdsize.toNat ≤ cmdsSize := by
  rw [passLoop_walk member] at examinedLc
  exact commandLoop_bounds examinedLc

end Passes

/-- The command area of a Mach-O whose header passes the checks of
`parse_machfile`, walked by the four passes with any outcome of the checks at
the top of each pass and of each handler: every command any pass hands to the
switch lies after the header and inside the command area, and every structure
its handler reads it through lies inside it. Where pass 3 is reached, so that
`set_code_unprotect` may run, pass 0 ran to its end, and the rescan visits
the commands pass 0 validated, in its order, up to the segment it looks for;
all of them where none is found, and every segment command among them is
large enough for the fields the rescan reads. A segment past the checks of
`load_segment` ends inside the Mach-O with no wrap and holds its sections. -/
theorem parseMachfile_commands_in_bounds (buf : List UInt8) {machoSize pageSize cmdsSize : Nat}
    (header : cmdsSizeOf buf machoSize pageSize = some cmdsSize)
    (preflight : Nat → Bool) (handle : Nat → LoadCommand → Bool) :
    let run := (parseMachfilePasses buf cmdsSize preflight (parseSwitch handle)).1
    let walk0 := (commandLoop buf cmdsSize (parseSwitch handle 0) (machHeaderSz buf) (ncmds buf)).1
    cmdsSize ≤ machoSize ∧
      (∀ pass examined, (pass, examined) ∈ run → ∀ lc ∈ examined,
        machHeaderSz buf ≤ lc.offset ∧ loadCommandSize ≤ lc.cmdsize.toNat ∧
          lc.offset + lc.cmdsize.toNat ≤ cmdsSize ∧
          ∀ depth size, structRead cmdsSize depth pass lc = some size → size ≤ lc.cmdsize.toNat) ∧
      (∀ examined, (3, examined) ∈ run → (0, walk0) ∈ run ∧ ∀ cryptoff cryptsize,
        setCodeUnprotectRescan buf cryptoff cryptsize <+: walk0 ∧
          ((∀ lc ∈ walk0, segmentCovers buf cryptoff cryptsize lc = false) →
            setCodeUnprotectRescan buf cryptoff cryptsize = walk0) ∧
          ∀ lc ∈ setCodeUnprotectRescan buf cryptoff cryptsize,
            machHeaderSz buf ≤ lc.offset ∧ loadCommandSize ≤ lc.cmdsize.toNat ∧
              lc.offset + lc.cmdsize.toNat ≤ cmdsSize ∧ segmentSizeOk lc = true) ∧
      ∀ lc, loadSegmentChecks buf machoSize lc = true →
        (segmentFileoff buf lc + segmentFilesize buf lc).toNat =
            (segmentFileoff buf lc).toNat + (segmentFilesize buf lc).toNat ∧
          (segmentFileoff buf lc).toNat + (segmentFilesize buf lc).toNat ≤ machoSize ∧
          (segmentNsects buf lc).toNat * sectionSizeFor lc ≤ lc.cmdsize.toNat - segmentSizeFor lc := by
  intro run walk0
  have area : cmdsSize ≤ machoSize := by
    unfold cmdsSizeOf at header
    dsimp only at header
    split at header
    · contradiction
    rename_i fits
    cases header
    simp only [Bool.or_eq_true, decide_eq_true_eq, not_or, not_lt] at fits
    exact fits.1
  refine ⟨area, ?_, ?_, ?_⟩
  · intro pass examined member lc examinedLc
    exact ⟨(parseMachfilePasses_bounds member examinedLc).1, (parseMachfilePasses_bounds member examinedLc).2.1,
      (parseMachfilePasses_bounds member examinedLc).2.2, fun _ _ read => structRead_le read⟩
  · intro examined reached
    obtain ⟨done0, member0⟩ := parseMachfilePasses_pass0 reached
    obtain ⟨unchecked, accepted⟩ := commandLoop_complete done0
    have unrolled : walk0 = rescanLoop buf (fun _ => false) (machHeaderSz buf) (ncmds buf) := unchecked
    refine ⟨member0, fun cryptoff cryptsize => ?_⟩
    obtain ⟨front, whole⟩ := rescanLoop_prefix buf (segmentCovers buf cryptoff cryptsize) (machHeaderSz buf) (ncmds buf)
    have rescanned : setCodeUnprotectRescan buf cryptoff cryptsize <+: walk0 := by
      rw [unrolled]
      exact front
    refine ⟨rescanned, fun none => ?_, fun lc visited => ?_⟩
    · rw [unrolled] at none ⊢
      exact whole none
    have validated : lc ∈ walk0 := rescanned.subset visited
    obtain ⟨after, size, inside⟩ := parseMachfilePasses_bounds member0 validated
    have switched : parseSwitch handle 0 lc = true := accepted lc validated
    simp only [parseSwitch, Bool.and_eq_true] at switched
    exact ⟨after, size, inside, switched.1⟩
  · intro lc accepted
    exact (loadSegmentChecks_spec accepted).2

/-- A 64-bit Mach-O header followed by one `LC_UUID` command. -/
def uuidImage : List UInt8 :=
  [0xcf, 0xfa, 0xed, 0xfe] ++ List.replicate 12 0 ++ [1, 0, 0, 0, 24, 0, 0, 0] ++ List.replicate 8 0 ++
    [0x1b, 0, 0, 0, 24, 0, 0, 0] ++ List.replicate 16 0

theorem parseMachfile_commands_in_bounds_uuid :
    cmdsSizeOf uuidImage 56 4096 = some 56 ∧
      ∀ lc ∈ setCodeUnprotectRescan uuidImage 0 0, lc.offset + lc.cmdsize.toNat ≤ 56 := by
  have header : cmdsSizeOf uuidImage 56 4096 = some 56 := by decide +kernel
  have reached : (3, [loadCommandAt uuidImage 32]) ∈
      (parseMachfilePasses uuidImage 56 (fun _ => true) (parseSwitch fun _ _ => true)).1 := by
    decide +kernel
  have rescan := ((parseMachfile_commands_in_bounds uuidImage header (fun _ => true) (fun _ _ => true)).2.2.1
    _ reached).2 0 0
  exact ⟨header, fun lc visited => (rescan.2.2 lc visited).2.2.1⟩

end Xnu.MachO
