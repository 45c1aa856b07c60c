import Xnu.Pipe.Pipe

namespace Xnu.Pipe

/-! The pipe buffer as a FIFO queue. Between two steps the buffer keeps
`Pipebuf.Valid`: its size is one of `pipesize_blocks`, `out` is inside it and
`in` is `out + cnt` wrapped once. Its bytes, `cnt` of them read from `out`
modulo the size, are the queue; a read takes bytes off its front, a transfer
of `pipe_write` appends to it, and a resize keeps it. Since any two sizes of
the table differ by a factor of two at least, the second copy of a wrapped
buffer fits in the grown one. -/

variable {α : Type}

/-- The bytes in the buffer, in the order they are read. -/
def Pipebuf.contents (p : Pipebuf α) : List α := ringRead p.buffer p.size p.outIdx p.cnt

/-- The layout of the buffer between two steps. -/
structure Pipebuf.Valid (p : Pipebuf α) : Prop where
  size_block : p.size = 0 ∨ p.size ∈ pipesizeBlocks
  cnt_le : p.cnt ≤ p.size
  out_lt : 0 < p.cnt → p.outIdx < p.size
  empty : p.cnt = 0 → p.inIdx = 0 ∧ p.outIdx = 0
  in_eq : p.inIdx = if p.outIdx + p.cnt ≤ p.size then p.outIdx + p.cnt else p.outIdx + p.cnt - p.size

theorem chooseIndex_le (target i : Nat) : chooseIndex target i ≤ i := by
  induction i with
  | zero => rfl
  | succ i ih =>
    unfold chooseIndex
    split <;> omega

theorem choosePipespace_mem (current expected : Nat) : choosePipespace current expected ∈ pipesizeBlocks := by
  have below : chooseIndex (if expected > current then expected else current) (pipesizeBlocks.length - 1) <
      pipesizeBlocks.length := by
    have := chooseIndex_le (if expected > current then expected else current) (pipesizeBlocks.length - 1)
    simp only [pipesizeBlocks, List.length_cons, List.length_nil] at this ⊢
    omega
  simp only [choosePipespace, List.getD_eq_getElem?_getD, List.getElem?_eq_getElem below, Option.getD_some]
  exact List.getElem_mem below

/-- Any two sizes of the table are a factor of two apart at least. -/
theorem pipesizeBlocks_double : ∀ a ∈ pipesizeBlocks, ∀ b ∈ pipesizeBlocks, a < b → 2 * a ≤ b := by
  decide

theorem pipesizeBlocks_pos : ∀ a ∈ pipesizeBlocks, 0 < a := by
  decide

namespace Pipebuf.Valid

variable {p : Pipebuf α}

theorem in_le (valid : p.Valid) : p.inIdx ≤ p.size := by
  have := valid.in_eq
  have := valid.cnt_le
  by_cases empty : p.cnt = 0
  · have := valid.empty empty
    omega
  · have := valid.out_lt (by omega)
    split at * <;> omega

theorem out_le (valid : p.Valid) : p.outIdx ≤ p.size := by
  by_cases empty : p.cnt = 0
  · have := valid.empty empty
    omega
  · exact (valid.out_lt (by omega)).le

theorem size_pos (valid : p.Valid) (nonempty : 0 < p.cnt) : 0 < p.size := by
  have := valid.out_lt nonempty
  omega

/-- `in` is the position right after the bytes, modulo the size. -/
theorem in_mod (valid : p.Valid) :
    p.inIdx % p.size = (p.outIdx + p.cnt) % p.size := by
  have in_eq := valid.in_eq
  have := valid.cnt_le
  split at in_eq
  · rw [in_eq]
  · rw [in_eq]
    exact (Nat.mod_eq_sub_mod (by omega)).symm

end Pipebuf.Valid

section Read

variable {p : Pipebuf α} {resid : Nat}

/-- One turn of `pipe_read` copies out the front of the queue and leaves the
rest, in a valid buffer. -/
theorem pipeReadChunk_fifo (valid : p.Valid) (nonempty : 0 < p.cnt) (asked : 0 < resid) :
    (pipeReadChunk p resid).2.Valid ∧ p.contents = (pipeReadChunk p resid).1 ++ (pipeReadChunk p resid).2.contents ∧
      (pipeReadChunk p resid).1 ≠ [] := by
  have out_lt := valid.out_lt nonempty
  have cnt_le := valid.cnt_le
  have in_eq := valid.in_eq
  have intMax_pos : 0 < intMax := by decide
  generalize chunk : min (min (p.size - p.outIdx) p.cnt) (min intMax resid) = k
  have positive : 0 < k := by rw [← chunk]; omega
  have within : p.outIdx + k ≤ p.size := by rw [← chunk]; omega
  have taken : k ≤ p.cnt := by rw [← chunk]; omega
  have front : readAt p.buffer p.outIdx k = ringRead p.buffer p.size p.outIdx k := (ringRead_of_le within).symm
  have split : p.contents = ringRead p.buffer p.size p.outIdx k ++ ringRead p.buffer p.size (p.outIdx + k) (p.cnt - k) := by
    rw [Pipebuf.contents, ← ringRead_add, Nat.add_sub_cancel' taken]
  unfold pipeReadChunk
  simp only [chunk]
  split
  · -- the read empties the buffer
    rename_i emptied
    refine ⟨⟨valid.size_block, by simp, by simp, fun _ => ⟨rfl, rfl⟩, by simp⟩, ?_, ?_⟩
    · rw [split, emptied, front]
      simp [Pipebuf.contents, ringRead]
    · simp [readAt]
      omega
  · rename_i left
    have next : (if p.outIdx + k ≥ p.size then 0 else p.outIdx + k) = (p.outIdx + k) % p.size := by
      split
      · rw [show p.outIdx + k = p.size by omega, Nat.mod_self]
      · rw [Nat.mod_eq_of_lt (by omega)]
    refine ⟨⟨valid.size_block, by simp; omega, ?_, by simp; omega, ?_⟩, ?_, ?_⟩
    · intro _
      simp only
      split <;> omega
    · simp only
      split <;> split <;> split at in_eq <;> omega
    · rw [split, front]
      simp only [Pipebuf.contents, next, ringRead_mod]
    · simp [readAt]
      omega

end Read

section Write

variable {p : Pipebuf α} {chunk : List α}

/-- Under the layout, the transfer of `pipe_write` of at most the free room
reaches none of its panics: it copies the bytes in from `in`, wrapping at the
end, and moves `in` past them. -/
theorem pipeWriteChunk_eq (valid : p.Valid) (room : chunk.length ≤ p.size - p.cnt) :
    pipeWriteChunk p chunk = .ok
      { p with
        buffer := ringWrite p.buffer p.size p.inIdx chunk
        cnt := p.cnt + chunk.length
        inIdx := if p.inIdx + chunk.length > p.size then p.inIdx + chunk.length - p.size
          else p.inIdx + chunk.length } := by
  have in_le := valid.in_le
  have cnt_le := valid.cnt_le
  unfold pipeWriteChunk
  dsimp only
  rw [if_pos in_le]
  by_cases wraps : p.size - p.inIdx < chunk.length
  · -- the bytes run past the end: the rest goes to the start of the buffer
    rw [min_eq_left wraps.le, if_neg (by omega), if_pos wraps, if_neg (by omega), if_pos (by omega : p.inIdx + chunk.length > p.size),
      if_neg (by omega), if_pos (by omega : p.inIdx + chunk.length > p.size)]
    congr 2
    omega
  · rw [min_eq_right (by omega), if_neg (by omega), if_neg (by omega), if_neg (by omega), if_neg (by omega),
      if_neg (by omega), ringWrite_of_le _ (by omega), List.take_of_length_le le_rfl,
      if_neg (by omega : ¬p.inIdx + chunk.length > p.size)]

/-- The position `in` writes from is the one right after the bytes, wrapped
at the end. -/
theorem Pipebuf.Valid.ringWrite_in (valid : p.Valid) (fits : chunk.length ≤ p.size) :
    ringWrite p.buffer p.size p.inIdx chunk = ringWrite p.buffer p.size ((p.outIdx + p.cnt) % p.size) chunk := by
  rw [← valid.in_mod]
  by_cases atEnd : p.inIdx = p.size
  · rw [atEnd, Nat.mod_self, ringWrite_size _ fits]
  · rw [Nat.mod_eq_of_lt (by have := valid.in_le; omega)]

/-- A transfer of `pipe_write` appends its bytes to the queue. -/
theorem pipeWriteChunk_fifo {b : Pipebuf α} (valid : p.Valid) (nonempty : chunk ≠ [])
    (room : chunk.length ≤ p.size - p.cnt) (write : pipeWriteChunk p chunk = .ok b) :
    b.Valid ∧ b.contents = p.contents ++ chunk := by
  rw [pipeWriteChunk_eq valid room, Except.ok.injEq] at write
  subst write
  have some_bytes : 0 < chunk.length := List.length_pos_iff.mpr nonempty
  have positive : 0 < p.size := by omega
  have in_eq := valid.in_eq
  have out_lt : p.outIdx < p.size := by
    by_cases empty : p.cnt = 0
    · have := valid.empty empty
      omega
    · exact valid.out_lt (by omega)
  refine ⟨⟨valid.size_block, by simp; omega, fun _ => out_lt, fun zero => by simp only at zero; omega, ?_⟩, ?_⟩
  · simp only
    split <;> split <;> split at in_eq <;> omega
  · simp only [Pipebuf.contents]
    rw [valid.ringWrite_in (by omega), ringRead_ringWrite positive (by omega)]

end Write

section Grow

variable {p b : Pipebuf α} {fresh : Nat → α} {size target : Nat}

theorem pipespace_fifo (block : size ∈ pipesizeBlocks) (alloc : pipespace fresh size = some b) :
    b.Valid ∧ b.contents = [] := by
  have positive := pipesizeBlocks_pos size block
  simp only [pipespace, if_neg (Nat.ne_of_gt positive), Option.some.injEq] at alloc
  subst alloc
  exact ⟨⟨.inr block, by simp, by simp, fun _ => ⟨rfl, rfl⟩, by simp⟩, rfl⟩

/-- The cells of a grown buffer below twice the old size: the old cells,
copied once and, for a wrapped buffer, once more after them. -/
theorem expand_cell {buffer : Nat → α} {oldSize i : Nat} (below : i < 2 * oldSize) :
    writeAt (writeAt fresh 0 (readAt buffer 0 oldSize)) oldSize (readAt buffer 0 oldSize) i =
      buffer (i % oldSize) := by
  by_cases second : oldSize ≤ i
  · rw [writeAt_readAt ⟨second, by omega⟩, Nat.mod_eq_sub_mod second, Nat.mod_eq_of_lt (by omega), Nat.zero_add]
  · rw [writeAt_of_lt _ (by omega), writeAt_readAt ⟨Nat.zero_le i, by omega⟩, Nat.mod_eq_of_lt (by omega),
      Nat.zero_add, Nat.sub_zero]

/-- `expand_pipespace` to a size of the table keeps the queue, in both
layouts: the second copy of a wrapped buffer fits since the new size is at
least twice the old one. -/
theorem expandPipespace_fifo (valid : p.Valid) (block : target ∈ pipesizeBlocks)
    (expand : expandPipespace fresh p target = some b) : b.Valid ∧ b.contents = p.contents := by
  have positive := pipesizeBlocks_pos target block
  have in_eq := valid.in_eq
  have cnt_le := valid.cnt_le
  unfold expandPipespace at expand
  split at expand
  · cases expand
    exact ⟨valid, rfl⟩
  rename_i grows
  simp only [pipespace, if_neg (Nat.ne_of_gt positive)] at expand
  split at expand
  · -- the bytes wrap: copied twice, and `in` moves past the old end
    rename_i wrapped
    simp only [Bool.and_eq_true, decide_eq_true_eq] at wrapped
    obtain ⟨nonempty, in_le_out⟩ := wrapped
    have out_lt := valid.out_lt nonempty
    have past : p.size < p.outIdx + p.cnt := by
      split at in_eq <;> omega
    have double : 2 * p.size ≤ target := by
      rcases valid.size_block with zero | block'
      · omega
      · exact pipesizeBlocks_double _ block' _ block (by omega)
    rw [if_neg (by omega), Option.some.injEq] at expand
    subst expand
    rw [if_neg (by omega)] at in_eq
    refine ⟨⟨.inr block, by simp; omega, fun _ => by simp; omega, fun zero => by simp only at zero; omega, ?_⟩, ?_⟩
    · simp only
      rw [if_pos (by omega)]
      omega
    · dsimp only [Pipebuf.contents]
      apply ringRead_congr
      intro i below
      rw [Nat.mod_eq_of_lt (by omega)]
      exact expand_cell (by omega)
  · rename_i contiguous
    simp only [Bool.and_eq_true, decide_eq_true_eq, not_and, not_le] at contiguous
    rw [Option.some.injEq] at expand
    subst expand
    by_cases empty : p.cnt = 0
    · have := valid.empty empty
      refine ⟨⟨.inr block, by simp; omega, fun _ => by simp; omega, fun _ => ⟨this.1, this.2⟩, ?_⟩, ?_⟩
      · simp only
        rw [if_pos (by omega)]
        omega
      · simp [Pipebuf.contents, empty, ringRead]
    · have out_lt := valid.out_lt (by omega)
      have inside : p.outIdx + p.cnt ≤ p.size := by
        have := contiguous (by omega)
        split at in_eq <;> omega
      refine ⟨⟨.inr block, by simp; omega, fun _ => by simp; omega, fun zero => by simp only at zero; omega, ?_⟩,
        ?_⟩
      · simp only
        rw [if_pos (by omega), in_eq, if_pos inside]
      · dsimp only [Pipebuf.contents]
        apply ringRead_congr
        intro i below
        rw [Nat.mod_eq_of_lt (by omega), Nat.mod_eq_of_lt (by omega), writeAt_readAt ⟨Nat.zero_le _, by omega⟩]
        simp

/-- `expand_pipespace` to a size of the table never runs its second copy past
the new buffer. -/
theorem expandPipespace_isSome (valid : p.Valid) (block : target ∈ pipesizeBlocks) :
    (expandPipespace fresh p target).isSome := by
  have positive := pipesizeBlocks_pos target block
  unfold expandPipespace
  split
  · rfl
  rename_i grows
  simp only [pipespace, if_neg (Nat.ne_of_gt positive)]
  split
  · rename_i wrapped
    simp only [Bool.and_eq_true, decide_eq_true_eq] at wrapped
    have out_lt := valid.out_lt wrapped.1
    have double : 2 * p.size ≤ target := by
      rcases valid.size_block with zero | block'
      · omega
      · exact pipesizeBlocks_double _ block' _ block (by omega)
    rw [if_neg (by omega)]
    rfl
  · rfl

end Grow

section Run

/-- What holds of a pipe between two steps: the layout; the bytes committed,
in commit order, are the bytes read followed by the queue; a write of at most
`PIPE_BUF` bytes was committed whole; a call in flight has bytes left, and
one of at most `PIPE_BUF` bytes has committed none. -/
structure PipeState.Inv (s : PipeState α) : Prop where
  valid : s.buf.Valid
  stream : (s.commits.map Prod.snd).flatten = s.reads ++ s.buf.contents
  atomic : ∀ e ∈ s.commits, e.1.length ≤ pipeBuf → e.2 = e.1
  calls : ∀ c ∈ s.calls, c.sent < c.data.length ∧ (c.data.length ≤ pipeBuf → c.sent = 0)

theorem Pipebuf.contents_of_empty {p : Pipebuf α} (empty : p.cnt = 0) : p.contents = [] := by
  simp [Pipebuf.contents, empty, ringRead]

/-- A commit of a write call: its bytes are appended to the queue, a write of
at most `PIPE_BUF` bytes is committed whole, and the call stays in flight only
with bytes left. -/
theorem PipeState.Inv.write {s : PipeState α} {pre post : List (WriteCall α)} {c : WriteCall α}
    {space : Nat} {b : Pipebuf α} (inv : s.Inv) (calls : s.calls = pre ++ c :: post) (positive : 0 < space)
    (room : space ≤ s.buf.size - s.buf.cnt) (atomic : c.data.length ≤ pipeBuf → c.data.length - c.sent ≤ space)
    (transfer : pipeWriteChunk s.buf ((c.data.drop c.sent).take space) = .ok b) :
    PipeState.Inv ⟨b, if c.data.length ≤ c.sent + space then pre ++ post else pre ++ ⟨c.data, c.sent + space⟩ :: post,
      s.commits ++ [(c.data, (c.data.drop c.sent).take space)], s.reads⟩ := by
  have inFlight := inv.calls c (by rw [calls]; simp)
  have chunk_ne : (c.data.drop c.sent).take space ≠ [] := by
    simp only [ne_eq, List.take_eq_nil_iff, List.drop_eq_nil_iff, not_or]
    omega
  have chunk_le : ((c.data.drop c.sent).take space).length ≤ s.buf.size - s.buf.cnt := by
    simp only [List.length_take]
    omega
  obtain ⟨valid, appended⟩ := pipeWriteChunk_fifo inv.valid chunk_ne chunk_le transfer
  refine ⟨valid, ?_, ?_, ?_⟩
  · simp only [List.map_append, List.map_cons, List.map_nil, List.flatten_append, List.flatten_cons,
      List.flatten_nil, List.append_nil, inv.stream, appended, List.append_assoc]
  · intro e member
    rcases List.mem_append.mp member with old | new
    · exact inv.atomic e old
    · simp only [List.mem_singleton] at new
      subst new
      intro small
      have none := inFlight.2 small
      simp only [none, List.drop_zero]
      exact List.take_of_length_le (by have := atomic small; omega)
  · intro d member
    have old (member : d ∈ pre ++ post) : d ∈ s.calls := by
      rw [calls]
      simp only [List.mem_append, List.mem_cons] at member ⊢
      tauto
    split at member
    · exact inv.calls d (old member)
    · rename_i left
      simp only [List.mem_append, List.mem_cons] at member
      rcases member with inPre | rfl | inPost
      · exact inv.calls d (old (List.mem_append_left _ inPre))
      · exact ⟨by simp only; omega, fun small => by have := atomic small; omega⟩
      · exact inv.calls d (old (List.mem_append_right _ inPost))

/-- Every step keeps `PipeState.Inv`. -/
theorem PipeState.Inv.step {s s' : PipeState α} (inv : s.Inv) (step : Step s s') : s'.Inv := by
  cases step with
  | call data nonempty =>
    refine ⟨inv.valid, inv.stream, inv.atomic, ?_⟩
    intro c member
    rcases List.mem_append.mp member with old | new
    · exact inv.calls c old
    · simp only [List.mem_singleton] at new
      subst new
      exact ⟨List.length_pos_iff.mpr nonempty, fun _ => rfl⟩
  | grow current expected fresh alloc =>
    have block := choosePipespace_mem current expected
    split at alloc
    · rename_i empty
      obtain ⟨valid, contents⟩ := pipespace_fifo block alloc
      exact ⟨valid, by rw [inv.stream, contents, Pipebuf.contents_of_empty empty], inv.atomic, inv.calls⟩
    · obtain ⟨valid, contents⟩ := expandPipespace_fifo inv.valid block alloc
      exact ⟨valid, by rw [inv.stream, contents], inv.atomic, inv.calls⟩
  | write calls positive room atomic transfer => exact inv.write calls positive room atomic transfer
  | abort calls =>
    refine ⟨inv.valid, inv.stream, inv.atomic, fun d member => inv.calls d ?_⟩
    rw [calls]
    simp only [List.mem_append, List.mem_cons] at member ⊢
    tauto
  | read resid asked nonempty =>
    obtain ⟨valid, split, -⟩ := pipeReadChunk_fifo inv.valid nonempty asked
    exact ⟨valid, by rw [inv.stream, split, List.append_assoc], inv.atomic, inv.calls⟩

theorem PipeState.Inv.run {s s' : PipeState α} (inv : s.Inv) (run : Relation.ReflTransGen Step s s') :
    s'.Inv := by
  induction run with
  | refl => exact inv
  | tail _ step ih => exact ih.step step

/-- Any interleaving of `pipe_write` and `pipe_read` calls on a pipe whose
buffer starts empty, with growth through `choose_pipespace`, `pipespace` and
`expand_pipespace`: `cnt`, `in` and `out` stay within the size; the committed
chunks, in commit order, are the bytes read followed by the bytes buffered
(`cnt` bytes read cyclically from `out`), so the reads return a prefix of what
was written; a write of at most `PIPE_BUF` bytes is committed as one chunk;
and no transfer nor growth reaches a panic or runs past the buffer. -/
theorem pipe_fifo_atomic (init : Pipebuf α) (empty : init.cnt = 0 ∧ init.inIdx = 0 ∧ init.outIdx = 0)
    (sized : init.size = 0 ∨ init.size ∈ pipesizeBlocks) {s : PipeState α}
    (run : Relation.ReflTransGen Step ⟨init, [], [], []⟩ s) :
    s.buf.cnt ≤ s.buf.size ∧ s.buf.inIdx ≤ s.buf.size ∧ s.buf.outIdx ≤ s.buf.size ∧
      (s.commits.map Prod.snd).flatten = s.reads ++ s.buf.contents ∧
      (∀ e ∈ s.commits, e.1.length ≤ pipeBuf → e.2 = e.1) ∧
      (∀ chunk : List α, chunk.length ≤ s.buf.size - s.buf.cnt → ∃ b, pipeWriteChunk s.buf chunk = .ok b) ∧
      (∀ (fresh : Nat → α) target, target ∈ pipesizeBlocks → (expandPipespace fresh s.buf target).isSome) := by
  obtain ⟨zero, atStart, outStart⟩ := empty
  have start : PipeState.Inv ⟨init, [], [], []⟩ :=
    ⟨⟨sized, by simp [zero], fun positive => absurd positive (by simp [zero]), fun _ => ⟨atStart, outStart⟩,
      by simp [zero, atStart, outStart]⟩,
      by simp [Pipebuf.contents_of_empty zero], by simp, by simp⟩
  have inv := start.run run
  exact ⟨inv.valid.cnt_le, inv.valid.in_le, inv.valid.out_le, inv.stream, inv.atomic,
    fun chunk room => ⟨_, pipeWriteChunk_eq inv.valid room⟩,
    fun _ _ block => expandPipespace_isSome inv.valid block⟩

/-- Two write calls of 3 and 2 bytes on a fresh 512-byte buffer, the second
committed first, then a read of 3 bytes. -/
theorem pipe_fifo_atomic_interleaved :
    let s : PipeState Nat := ⟨⟨writeAt (writeAt (fun _ => 0) 0 [4, 5]) 2 [1, 2, 3], 512, 2, 5, 3⟩, [],
      [([4, 5], [4, 5]), ([1, 2, 3], [1, 2, 3])], [4, 5, 1]⟩
    s.buf.cnt ≤ s.buf.size ∧ s.buf.inIdx ≤ s.buf.size ∧ s.buf.outIdx ≤ s.buf.size ∧
      (s.commits.map Prod.snd).flatten = s.reads ++ s.buf.contents ∧
      (∀ e ∈ s.commits, e.1.length ≤ pipeBuf → e.2 = e.1) ∧
      (∀ chunk : List Nat, chunk.length ≤ s.buf.size - s.buf.cnt → ∃ b, pipeWriteChunk s.buf chunk = .ok b) ∧
      (∀ (fresh : Nat → Nat) target, target ∈ pipesizeBlocks → (expandPipespace fresh s.buf target).isSome) := by
  intro s
  have called : Relation.ReflTransGen Step (⟨⟨fun _ => 0, 512, 0, 0, 0⟩, [], [], []⟩ : PipeState Nat)
      ⟨⟨fun _ => 0, 512, 0, 0, 0⟩, [⟨[1, 2, 3], 0⟩, ⟨[4, 5], 0⟩], [], []⟩ :=
    (Relation.ReflTransGen.single (Step.call [1, 2, 3] (by simp))).tail (Step.call [4, 5] (by simp))
  -- the later call commits first, whole, then the earlier one
  have second : Relation.ReflTransGen Step (⟨⟨fun _ => 0, 512, 0, 0, 0⟩, [], [], []⟩ : PipeState Nat)
      ⟨⟨writeAt (fun _ => 0) 0 [4, 5], 512, 2, 2, 0⟩, [⟨[1, 2, 3], 0⟩], [([4, 5], [4, 5])], []⟩ :=
    called.tail (@Step.write Nat _ [⟨[1, 2, 3], 0⟩] [] ⟨[4, 5], 0⟩ 2 _ rfl (by decide) (by decide) (by decide) rfl)
  have first : Relation.ReflTransGen Step (⟨⟨fun _ => 0, 512, 0, 0, 0⟩, [], [], []⟩ : PipeState Nat)
      ⟨⟨writeAt (writeAt (fun _ => 0) 0 [4, 5]) 2 [1, 2, 3], 512, 5, 5, 0⟩, [],
        [([4, 5], [4, 5]), ([1, 2, 3], [1, 2, 3])], []⟩ :=
    second.tail (@Step.write Nat _ [] [] ⟨[1, 2, 3], 0⟩ 3 _ rfl (by decide) (by decide) (by decide) rfl)
  exact pipe_fifo_atomic ⟨fun _ => 0, 512, 0, 0, 0⟩ ⟨rfl, rfl, rfl⟩ (.inr (by decide))
    (first.tail (Step.read 3 (by decide) (by decide)))

end Run

end Xnu.Pipe
