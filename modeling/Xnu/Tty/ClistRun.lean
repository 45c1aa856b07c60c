import Xnu.Tty.ClistCorrect

namespace Xnu.Tty

/-! A clist as a tty drives it: any sequence of the operations of
`tty_subr.c` on a clist that `clalloc` made runs with no access outside the
ring or its bitmap, keeps the invariant, and returns what the bounded FIFO of
its view returns. -/

/-- The operations of `tty_subr.c` that change a queue. -/
inductive Op where
  | getc
  | putc (c : Int32)
  | unputc
  | qToB (count : Int)
  | ndflush (count : Int)
  | bToQ (src : Nat → UInt8) (count : Int)

namespace Op

/-- One operation on the clist: the state after it, the `int` it returns and
the bytes `q_to_b` copies out. -/
def run : Op → Clist → Option (Clist × Int × List UInt8)
  | getc, s => s.getc.map fun (s, c) => (s, c.toInt, [])
  | putc c, s => (s.putc c).map fun (s, r) => (s, r.toInt, [])
  | unputc, s => s.unputc.map fun (s, c) => (s, c.toInt, [])
  | qToB count, s => (s.qToB count).map fun (s, n, out) => (s, n, out)
  | ndflush count, s => (s.ndflush count).map fun s => (s, 0, [])
  | bToQ src count, s => (s.bToQ src count).map fun (s, left) => (s, left, [])

/-- The operation on the bounded FIFO of capacity `cap`, whose `putc` keeps
the quote bit where `quoted`. -/
def fifo (cap : Nat) (quoted : Bool) : Op → List (UInt8 × Bool) → List (UInt8 × Bool) × Int × List UInt8
  | getc, q => ((Fifo.get q).1, (Fifo.get q).2.toInt, [])
  | putc c, q =>
    let put := Fifo.put cap ((c &&& 0xff).toUInt32.toUInt8, decide (c &&& ttyQuote ≠ 0) && quoted) q
    (put.1, put.2.toInt, [])
  | unputc, q => ((Fifo.unput q).1, (Fifo.unput q).2.toInt, [])
  | qToB count, q => (q.drop count.toNat, min count.toNat q.length, (q.take count.toNat).map Prod.fst)
  | ndflush count, q => (q.drop count.toNat, 0, [])
  | bToQ src count, q =>
    let k := min count.toNat (cap - q.length)
    (q ++ (readAt src 0 k).map (·, false), if count ≤ 0 then 0 else count - k, [])

end Op

namespace Clist

/-- A sequence of operations on the clist, with what each returns. -/
def runOps : List Op → Clist → Option (Clist × List (Int × List UInt8))
  | [], s => some (s, [])
  | op :: ops, s => do
    let (s, out) ← op.run s
    let (s, outs) ← runOps ops s
    pure (s, out :: outs)

end Clist

namespace Fifo

/-- The same sequence on the bounded FIFO. -/
def runOps (cap : Nat) (quoted : Bool) : List Op → List (UInt8 × Bool) → List (UInt8 × Bool) × List (Int × List UInt8)
  | [], q => (q, [])
  | op :: ops, q =>
    let (q, out) := op.fifo cap quoted q
    let (q, outs) := runOps cap quoted ops q
    (q, out :: outs)

end Fifo

namespace Op

open Clist

variable {s : Clist}

/-- Each operation, on an allocated clist, completes, keeps the invariant and
acts on the view as on the FIFO. -/
theorem run_refines (op : Op) (inv : s.Inv) :
    ∃ s' out, op.run s = some (s', out) ∧ s'.Inv ∧ s.Keeps s' ∧ (s'.view, out) = op.fifo s.cn s.cq.isSome s.view := by
  cases op with
  | getc =>
    obtain ⟨s', r, run, inv', keeps, fifo⟩ := getc_refines inv
    refine ⟨s', (r.toInt, []), by simp [Op.run, run], inv', keeps, ?_⟩
    simp [Op.fifo, ← fifo]
  | putc c =>
    obtain ⟨s', r, run, inv', keeps, fifo⟩ := putc_refines inv c
    refine ⟨s', (r.toInt, []), by simp [Op.run, run], inv', keeps, ?_⟩
    show (s'.view, r.toInt, []) = ((Fifo.put s.cn (s.putCell c) s.view).1, (Fifo.put s.cn (s.putCell c) s.view).2.toInt, [])
    rw [← fifo]
  | unputc =>
    obtain ⟨s', r, run, inv', keeps, fifo⟩ := unputc_refines inv
    refine ⟨s', (r.toInt, []), by simp [Op.run, run], inv', keeps, ?_⟩
    simp [Op.fifo, ← fifo]
  | qToB count =>
    obtain ⟨s', run, inv', keeps, view'⟩ := qToB_refines inv count
    refine ⟨s', ((min count.toNat s.cc : Nat), (s.view.take count.toNat).map Prod.fst), by simp [Op.run, run], inv',
      keeps, ?_⟩
    simp [Op.fifo, view', inv.length_view]
  | ndflush count =>
    obtain ⟨s', run, inv', keeps, view'⟩ := ndflush_refines inv count
    exact ⟨s', (0, []), by simp [Op.run, run], inv', keeps, by simp [Op.fifo, view']⟩
  | bToQ src count =>
    obtain ⟨s', run, inv', keeps, view'⟩ := bToQ_refines inv src count
    refine ⟨s', (if count ≤ 0 then 0 else count - min count.toNat (s.cn - s.cc), []), by simp [Op.run, run], inv',
      keeps, ?_⟩
    simp [Op.fifo, view', inv.length_view]

end Op

namespace Clist

variable {s : Clist}

/-- Every sequence of operations, from an allocated clist, completes, keeps
the invariant and returns what the FIFO returns. -/
theorem runOps_refines (ops : List Op) (inv : Inv s) :
    ∃ s' outs, runOps ops s = some (s', outs) ∧ Inv s' ∧ Keeps s s' ∧
      (s'.view, outs) = Fifo.runOps s.cn s.cq.isSome ops s.view := by
  -- induction on the operations, with the state after the first as the next start
  induction ops generalizing s with
  | nil => exact ⟨s, [], rfl, inv, Keeps.refl s, rfl⟩
  | cons op ops ih =>
    obtain ⟨s₁, out, run, inv₁, keeps₁, fifo₁⟩ := op.run_refines inv
    obtain ⟨s', outs, rest, inv', keeps', fifo'⟩ := ih inv₁
    refine ⟨s', out :: outs, by simp [runOps, run, rest], inv', keeps₁.trans keeps', ?_⟩
    rw [Fifo.runOps, ← fifo₁, ← keeps₁.cn, ← keeps₁.quoted]
    dsimp only
    rw [← fifo']

/-- `clalloc` makes an empty clist with the invariant. -/
theorem clalloc_inv {size : Nat} (pos : 0 < size) (small : size ≤ intMax) (quot : Bool) :
    Inv (clalloc size quot) :=
  ⟨pos, small, Nat.zero_le _, fun _ => ⟨rfl, rfl⟩, fun nonempty => absurd nonempty (by simp [clalloc])⟩

/-- `TTYCLSIZE`, the size `ttymalloc` gives its three clists. -/
def ttyclsize : Nat := 1024

/-- Any sequence of operations on a clist that `clalloc` made, of a size from
1 to `INT_MAX`, completes with no access outside the ring or its bitmap, keeps
the invariant and the bitmap's bits past `c_cn`, and returns what the bounded
FIFO of capacity `size` returns, whose `putc` keeps `TTY_QUOTE` only on a
clist with a bitmap. -/
theorem clalloc_runOps_refines_fifo {size : Nat} (pos : 0 < size) (small : size ≤ intMax) (quot : Bool)
    (ops : List Op) :
    ∃ s' outs, (clalloc size quot).runOps ops = some (s', outs) ∧ Inv s' ∧ Keeps (clalloc size quot) s' ∧
      (s'.view, outs) = Fifo.runOps size quot ops [] := by
  obtain ⟨s', outs, run, inv', keeps, fifo⟩ := runOps_refines ops (clalloc_inv pos small quot)
  refine ⟨s', outs, run, inv', keeps, ?_⟩
  rw [fifo]
  cases quot <;> rfl

theorem clalloc_runOps_refines_fifo_rawq :
    ∃ s' outs, (clalloc ttyclsize true).runOps [.putc 0x141, .bToQ (fun _ => 0x42) 2, .getc, .qToB 5] =
        some (s', outs) ∧ Inv s' ∧ Keeps (clalloc ttyclsize true) s' ∧
      (s'.view, outs) = Fifo.runOps ttyclsize true [.putc 0x141, .bToQ (fun _ => 0x42) 2, .getc, .qToB 5] [] :=
  clalloc_runOps_refines_fifo (by decide) (by decide) true [.putc 0x141, .bToQ (fun _ => 0x42) 2, .getc, .qToB 5]

/-- On `t_outq`, which `ttymalloc` allocates with no bitmap, a character put
with `TTY_QUOTE` is stored and read back without it, where a FIFO that kept
`c & TTY_QUOTE` would give it back. -/
theorem putc_getc_drops_quote_outq :
    ((clalloc ttyclsize false).runOps [.putc ttyQuote, .getc]).map Prod.snd = some [(0, []), (0, [])] ∧
      (Fifo.runOps ttyclsize true [.putc ttyQuote, .getc] []).2 = [(0, []), (0x100, [])] := by
  decide

end Clist

end Xnu.Tty
