import Xnu.Lib.Ring

namespace Xnu.Pipe

/-! The buffer of one pipe in `bsd/kern/sys_pipe.c`: `choose_pipespace`,
`pipespace` and `expand_pipespace`, one turn of the loop of `pipe_read` and
the transfer of `pipe_write`, as the threads of a process run them. Every
transfer and every resize holds the I/O lock of the pipe (`pipeio_lock`), so
each is one step, while a `pipe_write` call may commit its bytes over many
steps with others in between. Allocations succeed, as does `uiomove`; the
buffer is a store of cells of any type, and a new one holds anything. The
wakeups, `select` and the time stamps change no byte and are left out. -/

/-- `PIPE_BUF`: the largest write that is atomic. -/
def pipeBuf : Nat := 512

/-- `PIPE_SIZE`. -/
def pipeSize : Nat := 16384

/-- `INT_MAX`. -/
def intMax : Nat := 2 ^ 31 - 1

/-- `pipesize_blocks`. -/
def pipesizeBlocks : List Nat := [512, 1024, 2048, 4096, 4096 * 2, pipeSize, pipeSize * 4]

/-- The loop of `choose_pipespace` from index `i` down: it stops at the first
index whose predecessor does not exceed `target`. -/
def chooseIndex (target : Nat) : Nat → Nat
  | 0 => 0
  | i + 1 => if pipesizeBlocks.getD i 0 > target then chooseIndex target i else i + 1

/-- `choose_pipespace(current, expected)`. -/
def choosePipespace (current expected : Nat) : Nat :=
  let target := if expected > current then expected else current
  pipesizeBlocks.getD (chooseIndex target (pipesizeBlocks.length - 1)) 0

/-- `struct pipebuf`: the cells of the buffer, its size, the bytes in it, and
`in` and `out`, where the next write and the next read start. -/
structure Pipebuf (α : Type) where
  buffer : Nat → α
  size : Nat
  cnt : Nat
  inIdx : Nat
  outIdx : Nat

variable {α : Type}

/-- `pipespace(cpipe, size)` with a new buffer `fresh`: empty, or `EINVAL`
for a size that is not positive. -/
def pipespace (fresh : Nat → α) (size : Nat) : Option (Pipebuf α) :=
  if size = 0 then none else some ⟨fresh, size, 0, 0, 0⟩

/-- `expand_pipespace(p, target_size)` with a new buffer `fresh`: the old
cells copied to its start and, where the bytes wrap (`in <= out`), once more
after them with `in` moved past the old end. `none` where the second copy
would run past the end of the new buffer, which the source does not check. -/
def expandPipespace (fresh : Nat → α) (p : Pipebuf α) (targetSize : Nat) : Option (Pipebuf α) :=
  if p.size ≥ targetSize then some p
  else match pipespace fresh targetSize with
  | none => none
  | some tmp =>
    let copied := writeAt tmp.buffer 0 (readAt p.buffer 0 p.size)
    if p.cnt > 0 && p.inIdx ≤ p.outIdx then
      if 2 * p.size > tmp.size then none
      else some ⟨writeAt copied p.size (readAt p.buffer 0 p.size), tmp.size, p.cnt, p.inIdx + p.size, p.outIdx⟩
    else some ⟨copied, tmp.size, p.cnt, p.inIdx, p.outIdx⟩

/-- One turn of the loop of `pipe_read` on a buffer with bytes in it, with
`resid` bytes still asked for: the bytes `uiomove` copies out, and the buffer
after. An emptied buffer starts again at 0. -/
def pipeReadChunk (p : Pipebuf α) (resid : Nat) : List α × Pipebuf α :=
  let size := min (min (p.size - p.outIdx) p.cnt) (min intMax resid)
  let data := readAt p.buffer p.outIdx size
  let out := if p.outIdx + size ≥ p.size then 0 else p.outIdx + size
  if p.cnt - size = 0 then (data, { p with cnt := 0, inIdx := 0, outIdx := 0 })
  else (data, { p with cnt := p.cnt - size, outIdx := out })

/-- The panics of the transfer of `pipe_write`. -/
inductive PipePanic where
  | wraparoundDisappeared
  | wraparoundBad
  | overflow
deriving DecidableEq, Repr

/-- The transfer of `pipe_write` of the bytes `chunk` into the buffer: the
segment up to the end of the buffer, the rest from 0, and the update of `in`
and `cnt`, or the panic it reaches. `size - in` is a `u_int` difference, which
wraps where `in` is past the end. -/
def pipeWriteChunk (p : Pipebuf α) (chunk : List α) : Except PipePanic (Pipebuf α) :=
  let size := chunk.length
  let segsize := if p.inIdx ≤ p.size then min (p.size - p.inIdx) size else size
  let buffer := writeAt p.buffer p.inIdx (chunk.take segsize)
  if segsize < size ∧ p.inIdx + segsize ≠ p.size then .error .wraparoundDisappeared
  else
    let buffer := if segsize < size then writeAt buffer 0 (chunk.drop segsize) else buffer
    if p.inIdx + size > p.size ∧ p.inIdx + size ≠ size - segsize + p.size then .error .wraparoundBad
    else
      let inIdx := if p.inIdx + size > p.size then size - segsize else p.inIdx + size
      if p.cnt + size > p.size then .error .overflow
      else .ok { p with buffer, cnt := p.cnt + size, inIdx }

/-- A `pipe_write` call in its loop: the bytes it was asked to write, and how
many of them it has committed. -/
structure WriteCall (α : Type) where
  data : List α
  sent : Nat

/-- A pipe buffer with the write calls in flight, and what the run has shown:
each commit with the bytes of its call, and the bytes the reads returned. -/
structure PipeState (α : Type) where
  buf : Pipebuf α
  calls : List (WriteCall α)
  commits : List (List α × List α)
  reads : List α

/-- One step of the threads on a pipe. A write call starts; the start of
`pipe_write` allocates or grows the buffer to a size `choose_pipespace`
picks from sizes it read earlier; a call commits `min(space, resid)` of its
bytes, where `space` is free room it saw and still sees under the I/O lock and
a write of at most `PIPE_BUF` bytes waits for room for all of them; a call
returns with an error; a turn of `pipe_read` copies bytes out. -/
inductive Step : PipeState α → PipeState α → Prop
  | call {s : PipeState α} (data : List α) :
      data ≠ [] → Step s { s with calls := s.calls ++ [⟨data, 0⟩] }
  | grow {s : PipeState α} (current expected : Nat) (fresh : Nat → α) {b : Pipebuf α} :
      (if s.buf.cnt = 0 then pipespace fresh (choosePipespace current expected)
        else expandPipespace fresh s.buf (choosePipespace current expected)) = some b →
      Step s { s with buf := b }
  | write {s : PipeState α} {pre post : List (WriteCall α)} {c : WriteCall α} {space : Nat} {b : Pipebuf α} :
      s.calls = pre ++ c :: post → 0 < space → space ≤ s.buf.size - s.buf.cnt →
      (c.data.length ≤ pipeBuf → c.data.length - c.sent ≤ space) →
      pipeWriteChunk s.buf ((c.data.drop c.sent).take space) = .ok b →
      Step s ⟨b, if c.data.length ≤ c.sent + space then pre ++ post else pre ++ ⟨c.data, c.sent + space⟩ :: post,
        s.commits ++ [(c.data, (c.data.drop c.sent).take space)], s.reads⟩
  | abort {s : PipeState α} {pre post : List (WriteCall α)} {c : WriteCall α} :
      s.calls = pre ++ c :: post → Step s { s with calls := pre ++ post }
  | read {s : PipeState α} (resid : Nat) :
      0 < resid → 0 < s.buf.cnt →
      Step s { s with buf := (pipeReadChunk s.buf resid).2, reads := s.reads ++ (pipeReadChunk s.buf resid).1 }

end Xnu.Pipe
