import Xnu.Tty.ClistQuote

namespace Xnu.Tty

/-! A clist refines a bounded FIFO of characters with their quote bits. Its
view is the `c_cc` cells read cyclically from `c_cf`; the invariant `Inv`
keeps `c_cl` `c_cc` places after `c_cf` and both NULL on an empty queue.
Each operation, on a clist with the invariant, makes no access outside the
ring or its bitmap, keeps the invariant, and acts on the view as the FIFO
operation it stands for. -/

/-- The character `getc` returns for a byte and its quote bit. -/
def charOf (x : UInt8 × Bool) : Int32 :=
  if x.2 then x.1.toUInt32.toInt32 ||| ttyQuote else x.1.toUInt32.toInt32

/-! The bounded FIFO of characters and quote bits a clist stands for, and
its operations. -/

namespace Fifo

/-- Appending where there is room, with `0`, or `-1` and no change. -/
def put (cap : Nat) (x : UInt8 × Bool) (q : List (UInt8 × Bool)) : List (UInt8 × Bool) × Int32 :=
  if q.length < cap then (q ++ [x], 0) else (q, -1)

/-- Taking the front character, or `-1` from an empty queue. -/
def get : List (UInt8 × Bool) → List (UInt8 × Bool) × Int32
  | [] => ([], -1)
  | x :: rest => (rest, charOf x)

/-- Taking the back character, or `-1` from an empty queue. -/
def unput (q : List (UInt8 × Bool)) : List (UInt8 × Bool) × Int32 :=
  match q.getLast? with
  | none => ([], -1)
  | some x => (q.dropLast, charOf x)

end Fifo

namespace Clist

/-- The quote bit of the character at `c_cs + i`; a clist with no bitmap
keeps none. -/
def quoteBit (s : Clist) (i : Nat) : Bool :=
  match s.cq with
  | none => false
  | some q => bitAt q i

/-- The character at `c_cs + i` with its quote bit. -/
def cell (s : Clist) (i : Nat) : UInt8 × Bool := (s.cs i, s.quoteBit i)

/-- The queue a clist holds: `c_cc` cells from `c_cf`, read cyclically. -/
def view (s : Clist) : List (UInt8 × Bool) :=
  match s.cf with
  | none => []
  | some f => ringRead s.cell s.cn f s.cc

/-- A clist with its pointers set: `c_cf` at `f` inside the ring and `c_cl`
`c_cc` places after it. The loops keep this, also through an empty queue. -/
structure Cursor (s : Clist) (f : Nat) : Prop where
  pos : 0 < s.cn
  small : s.cn ≤ intMax
  le : s.cc ≤ s.cn
  first : s.cf = some f
  inRing : f < s.cn
  last : s.cl = some ((f + s.cc) % s.cn)

/-- The invariant of an allocated clist: a cursor while it holds characters,
NULL pointers when it is empty. -/
structure Inv (s : Clist) : Prop where
  pos : 0 < s.cn
  small : s.cn ≤ intMax
  le : s.cc ≤ s.cn
  empty : s.cc = 0 → s.cf = none ∧ s.cl = none
  nonempty : 0 < s.cc → ∃ f, Cursor s f

section Basics

variable {s : Clist} {f : Nat}

theorem Cursor.view_eq (cur : Cursor s f) : s.view = ringRead s.cell s.cn f s.cc := by
  simp [view, cur.first]

theorem Inv.view_eq_nil (inv : Inv s) (empty : s.cc = 0) : s.view = [] := by
  simp [view, (inv.empty empty).1]

theorem Inv.length_view (inv : Inv s) : s.view.length = s.cc := by
  by_cases empty : s.cc = 0
  · rw [inv.view_eq_nil empty, empty, List.length_nil]
  · obtain ⟨f, cur⟩ := inv.nonempty (Nat.pos_of_ne_zero empty)
    rw [cur.view_eq, length_ringRead]

theorem Cursor.inv (cur : Cursor s f) (nonempty : 0 < s.cc) : Inv s :=
  ⟨cur.pos, cur.small, cur.le, fun empty => absurd empty (Nat.pos_iff_ne_zero.mp nonempty), fun _ => ⟨f, cur⟩⟩

/-- A loop's state with its pointers reset where the queue ran empty has the
invariant and the same view. -/
theorem Cursor.resetIfEmpty (cur : Cursor s f) :
    Inv s.resetIfEmpty ∧ s.resetIfEmpty.view = s.view ∧ s.resetIfEmpty.cn = s.cn := by
  unfold Clist.resetIfEmpty
  split
  · rename_i empty
    refine ⟨⟨cur.pos, cur.small, by simp [empty], fun _ => ⟨rfl, rfl⟩, fun nonempty => ?_⟩, ?_, rfl⟩
    · simp [empty] at nonempty
    · simp [view, cur.first, empty, ringRead]
  · exact ⟨cur.inv (Nat.pos_of_ne_zero ‹_›), rfl, rfl⟩

/-- The pointer after `c_cs + i` is `i` modulo `c_cn`, up to one round. -/
theorem advance_eq {i : Nat} (le : i ≤ s.cn) : s.advance i = i % s.cn := by
  unfold advance
  split
  · rename_i atEnd
    rw [atEnd, Nat.mod_self]
  · rw [Nat.mod_eq_of_lt (by omega)]

/-- `charAt` reads the cell, for a place inside the ring. -/
theorem charAt_eq {i : Nat} (inside : i < s.cn) : s.charAt i = some (charOf (s.cell i)) := by
  have bitmapped : i / 8 < qmem s.cn := by
    unfold qmem
    omega
  unfold charAt charOf cell quoteBit
  simp only [readByte, inside, if_true, Option.bind_eq_bind, Option.bind_some]
  cases bitmap : s.cq with
  | none => simp
  | some q => simp [isset_eq bitmapped]

end Basics

/-! Taking cells off the front and adding cells at the back, the two moves of
every operation. -/

section Moves

variable {s : Clist} {f : Nat}

/-- Taking `k` cells off the front, with no wrap past `c_ce`, moves the cursor
and drops them from the view. -/
theorem Cursor.pop (cur : Cursor s f) {k : Nat} (le : k ≤ s.cc) (fits : f + k ≤ s.cn) :
    Cursor { s with cc := s.cc - k, cf := some (s.advance (f + k)) } (s.advance (f + k)) ∧
      view { s with cc := s.cc - k, cf := some (s.advance (f + k)) } = s.view.drop k := by
  have moved := advance_eq fits
  have bounded := cur.le
  refine ⟨⟨cur.pos, cur.small, by simp only; omega, rfl, by rw [moved]; exact Nat.mod_lt _ cur.pos, ?_⟩, ?_⟩
  · simp only [cur.last, moved, Option.some.injEq, Nat.mod_add_mod]
    congr 1
    omega
  · rw [cur.view_eq, ringRead_drop _ _ _ le]
    simp only [view, moved, ringRead_mod]
    rfl

/-- Cells written from `c_cl`, with no wrap past `c_ce` and within the room
left, join the view at its back. -/
theorem Cursor.push (cur : Cursor s f) {chunk : List (UInt8 × Bool)} {s' : Clist}
    (room : s.cc + chunk.length ≤ s.cn) (noWrap : (f + s.cc) % s.cn + chunk.length ≤ s.cn)
    (cells : ∀ i, s'.cell i = writeAt s.cell ((f + s.cc) % s.cn) chunk i) (sameSize : s'.cn = s.cn)
    (first : s'.cf = s.cf) (count : s'.cc = s.cc + chunk.length)
    (last : s'.cl = some (s.advance ((f + s.cc) % s.cn + chunk.length))) :
    Cursor s' f ∧ s'.view = s.view ++ chunk := by
  have moved := advance_eq noWrap
  refine ⟨⟨sameSize ▸ cur.pos, sameSize ▸ cur.small, by omega, first.trans cur.first, sameSize ▸ cur.inRing, ?_⟩, ?_⟩
  · rw [last, moved, sameSize, count, Nat.mod_add_mod, Nat.add_assoc]
  · have written : s'.cell = ringWrite s.cell s.cn ((f + s.cc) % s.cn) chunk := by
      funext i
      rw [cells i, ringWrite_of_le _ noWrap]
    rw [cur.view_eq, view, first, cur.first]
    simp only
    rw [written, sameSize, count, ringRead_ringWrite cur.pos room]

/-- One cell written at `c_cl` joins the view at its back. -/
theorem Cursor.putAt (cur : Cursor s f) (room : s.cc < s.cn) (x : UInt8 × Bool) (s' : Clist)
    (bytes : s'.cs = Function.update s.cs ((f + s.cc) % s.cn) x.1)
    (quotes : ∀ i, s'.quoteBit i = if i = (f + s.cc) % s.cn then x.2 else s.quoteBit i) (sameSize : s'.cn = s.cn)
    (first : s'.cf = s.cf) (count : s'.cc = s.cc + 1) (last : s'.cl = some (s.advance ((f + s.cc) % s.cn + 1))) :
    Cursor s' f ∧ s'.view = s.view ++ [x] := by
  have lastIn : (f + s.cc) % s.cn < s.cn := Nat.mod_lt _ cur.pos
  refine cur.push (by simp; omega) (by simp; omega) (fun i => ?_) sameSize first count last
  rw [writeAt_singleton]
  by_cases at_l : i = (f + s.cc) % s.cn
  · subst at_l
    simp [cell, bytes, quotes]
  · simp [cell, bytes, quotes, at_l]

/-- The pointers `putc` and `b_to_q` set on an empty queue give a cursor. -/
theorem Inv.opened (inv : Inv s) :
    ∃ f, Cursor (if s.cc = 0 then { s with cf := some 0, cl := some 0 } else s) f ∧
      view (if s.cc = 0 then { s with cf := some 0, cl := some 0 } else s) = s.view := by
  split
  · rename_i empty
    refine ⟨0, ⟨inv.pos, inv.small, by simp [empty], rfl, inv.pos, by simp [empty]⟩, ?_⟩
    rw [inv.view_eq_nil empty]
    simp [view, empty, ringRead]
  · obtain ⟨f, cur⟩ := inv.nonempty (Nat.pos_of_ne_zero ‹_›)
    exact ⟨f, cur, rfl⟩

end Moves

/-- What every operation keeps of a clist: its size, whether it has a quote
bitmap, and the quote bits from `c_cn` on, which no operation writes. -/
structure Keeps (s s' : Clist) : Prop where
  cn : s'.cn = s.cn
  quoted : s'.cq.isSome = s.cq.isSome
  beyond : ∀ i, s.cn ≤ i → s'.quoteBit i = s.quoteBit i

theorem Keeps.refl (s : Clist) : Keeps s s := ⟨rfl, rfl, fun _ _ => rfl⟩

theorem Keeps.trans {s₁ s₂ s₃ : Clist} (first : Keeps s₁ s₂) (second : Keeps s₂ s₃) : Keeps s₁ s₃ :=
  ⟨second.cn.trans first.cn, second.quoted.trans first.quoted,
    fun i beyond => (second.beyond i (first.cn ▸ beyond)).trans (first.beyond i beyond)⟩

/-- A state with the same size and the same bitmap keeps every quote bit. -/
theorem Keeps.of_cq {s s' : Clist} (cn : s'.cn = s.cn) (cq : s'.cq = s.cq) : Keeps s s' :=
  ⟨cn, by rw [cq], fun i _ => by simp only [quoteBit, cq]⟩

theorem Keeps.resetIfEmpty (s : Clist) : Keeps s s.resetIfEmpty := by
  unfold Clist.resetIfEmpty
  split
  · exact Keeps.of_cq rfl rfl
  · exact Keeps.refl s

/-- The cell `putc(c, clp)` appends: `c & 0xff`, quoted where `c` has
`TTY_QUOTE` and the clist a bitmap to keep it. -/
def putCell (s : Clist) (c : Int32) : UInt8 × Bool :=
  ((c &&& 0xff).toUInt32.toUInt8, decide (c &&& ttyQuote ≠ 0) && s.cq.isSome)

section Putc

variable {s : Clist}

/-- `putc` appends its character where there is room and returns 0, and
returns -1 on a full queue, which it leaves as it was. -/
theorem putc_refines (inv : Inv s) (c : Int32) :
    ∃ s' r, s.putc c = some (s', r) ∧ Inv s' ∧ Keeps s s' ∧ (s'.view, r) = Fifo.put s.cn (s.putCell c) s.view := by
  obtain ⟨f, cur, sameView⟩ := inv.opened
  by_cases full : s.cc = s.cn
  · have notEmpty : s.cc ≠ 0 := by
      have := inv.pos
      omega
    have notZero : s.cn ≠ 0 := by
      have := inv.pos
      omega
    refine ⟨s, -1, ?_, inv, Keeps.refl s, ?_⟩
    · simp [putc, notZero, full]
    · simp [Fifo.put, inv.length_view, full]
  · -- the pointers set on an empty queue change no field `putc` reads next
    have opened : ∀ s₀ : Clist, (if s.cc = 0 then { s with cf := some 0, cl := some 0 } else s) = s₀ →
        s₀.cc = s.cc ∧ s₀.cn = s.cn ∧ s₀.cs = s.cs ∧ s₀.cq = s.cq := by
      intro s₀ same
      subst same
      split <;> simp
    unfold putc
    generalize hs₀ : (if s.cc = 0 then { s with cf := some 0, cl := some 0 } else s) = s₀ at cur sameView ⊢
    obtain ⟨cc₀, cn₀, cs₀, cq₀⟩ := opened s₀ hs₀
    have room : s₀.cc < s₀.cn := by
      have := inv.le
      omega
    have lastIn : (f + s₀.cc) % s₀.cn < s₀.cn := Nat.mod_lt _ cur.pos
    have lastSmall : ¬ intMax < (f + s₀.cc) % s₀.cn := by
      have := cur.small
      omega
    have bitmapped : (f + s₀.cc) % s₀.cn / 8 < qmem s₀.cn := by
      unfold qmem
      omega
    have fifo : Fifo.put s.cn (s.putCell c) s.view = (s₀.view ++ [s.putCell c], 0) := by
      rw [Fifo.put, if_pos (by rw [inv.length_view]; omega), sameView]
    simp only [Option.bind_eq_bind, if_neg (show ¬ s₀.cc = s₀.cn by omega), cur.last, Option.bind_some, writeByte,
      if_pos lastIn, if_neg lastSmall]
    rw [fifo]
    -- the state `putc` leaves, with the quote bitmap `quotes`
    let put (quotes : Option (Nat → UInt8)) : Clist :=
      { s₀ with
        cs := Function.update s₀.cs ((f + s₀.cc) % s₀.cn) (c &&& 0xff).toUInt32.toUInt8
        cq := quotes
        cc := s₀.cc + 1
        cl := some (s₀.advance ((f + s₀.cc) % s₀.cn + 1)) }
    -- every bitmap `putc` can leave sets the one bit at `c_cl`
    have finish : ∀ quotes, quotes.isSome = s.cq.isSome →
        (∀ i, (put quotes).quoteBit i = if i = (f + s₀.cc) % s₀.cn then (s.putCell c).2 else s₀.quoteBit i) →
        Inv (put quotes) ∧ Keeps s (put quotes) ∧ (put quotes).view = s₀.view ++ [s.putCell c] := by
      intro quotes same formula
      obtain ⟨cur', view'⟩ := cur.putAt room (s.putCell c) (put quotes) rfl formula rfl rfl rfl rfl
      refine ⟨cur'.inv (by simp [put]), ⟨cn₀, same, fun i beyond => ?_⟩, view'⟩
      rw [formula i, if_neg (by omega)]
      simp only [quoteBit, cq₀]
    cases bitmap : s₀.cq with
    | none =>
      obtain ⟨inv', keeps, view'⟩ := finish none (by simp [← cq₀, bitmap])
        (fun i => by simp [put, quoteBit, bitmap, putCell, ← cq₀])
      exact ⟨put none, 0, by simp [put, advance], inv', keeps, by rw [view']⟩
    | some q =>
      by_cases quoted : c &&& ttyQuote = 0
      · obtain ⟨q', cleared, bits⟩ := clrbit_eq q bitmapped
        obtain ⟨inv', keeps, view'⟩ := finish (some q') (by simp [← cq₀, bitmap]) (fun i => by
          simp only [put, quoteBit, bits, putCell, quoted, bitmap]
          by_cases at_l : i = (f + s₀.cc) % s₀.cn <;> simp [at_l])
        exact ⟨put (some q'), 0, by simp [put, quoted, cleared, advance], inv', keeps, by rw [view']⟩
      · obtain ⟨q', set, bits⟩ := setbit_eq q bitmapped
        obtain ⟨inv', keeps, view'⟩ := finish (some q') (by simp [← cq₀, bitmap]) (fun i => by
          simp only [put, quoteBit, bits, putCell, ← cq₀, bitmap]
          by_cases at_l : i = (f + s₀.cc) % s₀.cn <;> simp [at_l, quoted])
        exact ⟨put (some q'), 0, by simp [put, quoted, set, advance], inv', keeps, by rw [view']⟩

end Putc

section Take

variable {s : Clist} {f : Nat}

/-- The view of a queue that holds characters starts at the cell at `c_cf`. -/
theorem Cursor.view_cons (cur : Cursor s f) (nonempty : 0 < s.cc) : s.view = s.cell f :: s.view.drop 1 := by
  rw [cur.view_eq]
  obtain ⟨n, more⟩ := Nat.exists_eq_succ_of_ne_zero (Nat.pos_iff_ne_zero.mp nonempty)
  rw [more]
  simp [ringRead, List.range_succ_eq_map, Nat.mod_eq_of_lt cur.inRing]

/-- The view of a queue that holds characters ends at the cell before `c_cl`. -/
theorem Cursor.view_concat (cur : Cursor s f) (nonempty : 0 < s.cc) :
    s.view = ringRead s.cell s.cn f (s.cc - 1) ++ [s.cell ((f + (s.cc - 1)) % s.cn)] := by
  rw [cur.view_eq]
  obtain ⟨n, more⟩ : ∃ n, s.cc = n + 1 := ⟨s.cc - 1, by omega⟩
  rw [more, Nat.add_sub_cancel, ringRead_add]
  simp [ringRead]

/-- `getc` takes the front character, and returns -1 on an empty queue. -/
theorem getc_refines (inv : Inv s) :
    ∃ s' r, s.getc = some (s', r) ∧ Inv s' ∧ Keeps s s' ∧ (s'.view, r) = Fifo.get s.view := by
  by_cases empty : s.cc = 0
  · exact ⟨s, -1, by simp [getc, empty], inv, Keeps.refl s, by simp [inv.view_eq_nil empty, Fifo.get]⟩
  obtain ⟨f, cur⟩ := inv.nonempty (Nat.pos_of_ne_zero empty)
  have inRing := cur.inRing
  obtain ⟨cur', view'⟩ := cur.pop (k := 1) (by omega) (by omega)
  obtain ⟨inv', sameView, -⟩ := cur'.resetIfEmpty
  have popped : Keeps s { s with cc := s.cc - 1, cf := some (s.advance (f + 1)) } := Keeps.of_cq rfl rfl
  refine ⟨_, charOf (s.cell f), ?_, inv', popped.trans (Keeps.resetIfEmpty _), ?_⟩
  · simp [getc, empty, cur.first, charAt_eq inRing]
  · rw [sameView, view', cur.view_cons (Nat.pos_of_ne_zero empty)]
    rfl

/-- `unputc` takes the back character, and returns -1 on an empty queue. -/
theorem unputc_refines (inv : Inv s) :
    ∃ s' r, s.unputc = some (s', r) ∧ Inv s' ∧ Keeps s s' ∧ (s'.view, r) = Fifo.unput s.view := by
  by_cases empty : s.cc = 0
  · exact ⟨s, -1, by simp [unputc, empty], inv, Keeps.refl s, by simp [inv.view_eq_nil empty, Fifo.unput]⟩
  obtain ⟨f, cur⟩ := inv.nonempty (Nat.pos_of_ne_zero empty)
  have inRing := cur.inRing
  have bounded := cur.le
  -- `c_cl` steps back one place, to the last character
  have back : (if (f + s.cc) % s.cn = 0 then s.cn - 1 else (f + s.cc) % s.cn - 1) = (f + (s.cc - 1)) % s.cn := by
    rw [mod_eq_ite_of_lt_two_mul (show f + s.cc < 2 * s.cn by omega),
      mod_eq_ite_of_lt_two_mul (show f + (s.cc - 1) < 2 * s.cn by omega)]
    split_ifs <;> omega
  have lastIn : (f + (s.cc - 1)) % s.cn < s.cn := Nat.mod_lt _ cur.pos
  let s₁ : Clist := { s with cl := some ((f + (s.cc - 1)) % s.cn), cc := s.cc - 1 }
  have cur₁ : Cursor s₁ f := ⟨cur.pos, cur.small, by simp [s₁]; omega, cur.first, inRing, rfl⟩
  obtain ⟨inv', sameView, -⟩ := cur₁.resetIfEmpty
  have popped : Keeps s s₁ := Keeps.of_cq rfl rfl
  refine ⟨s₁.resetIfEmpty, charOf (s.cell ((f + (s.cc - 1)) % s.cn)), ?_, inv',
    popped.trans (Keeps.resetIfEmpty s₁), ?_⟩
  · simp only [unputc, empty, if_false, cur.last, Option.bind_eq_bind, Option.bind_some, back]
    rw [charAt_eq (s := s₁) lastIn]
    rfl
  · rw [sameView, cur₁.view_eq, cur.view_concat (Nat.pos_of_ne_zero empty)]
    simp [Fifo.unput, s₁]
    rfl

end Take

/-! The loop of `q_to_b` and `ndflush`, which takes chunks off the front. -/

section Front

variable {s : Clist} {f : Nat}

theorem sizeDiff_of_le {a b : Nat} (le : b ≤ a) (small : a < 2 ^ 64) : sizeDiff a b = a - b := by
  unfold sizeDiff
  omega

theorem Cursor.length_view (cur : Cursor s f) : s.view.length = s.cc := by
  rw [cur.view_eq, length_ringRead]

/-- An allocated clist already has NULL pointers where it is empty. -/
theorem Inv.resetIfEmpty_eq (inv : Inv s) : s.resetIfEmpty = s := by
  unfold Clist.resetIfEmpty
  split
  · rename_i empty
    obtain ⟨noFirst, noLast⟩ := inv.empty empty
    cases s
    simp_all
  · rfl

/-- A pass takes the count, the queue, or the cells up to `c_ce`, whichever is
least: on a queue with characters, `c_cf >= c_cl` means that it wraps past
`c_ce` or fills the ring. -/
theorem Cursor.frontChunk_eq (cur : Cursor s f) (nonempty : 0 < s.cc) (count : Int) :
    s.frontChunk f ((f + s.cc) % s.cn) count = min count.toNat (min s.cc (s.cn - f)) := by
  have inRing := cur.inRing
  have bounded := cur.le
  have small : s.cn ≤ 2 ^ 31 - 1 := cur.small
  have run : (if f ≥ (f + s.cc) % s.cn then sizeDiff s.cn f else sizeDiff ((f + s.cc) % s.cn) f) =
      min s.cc (s.cn - f) := by
    rw [mod_eq_ite_of_lt_two_mul (show f + s.cc < 2 * s.cn by omega)]
    split_ifs with fits wraps wraps
    · omega
    · rw [sizeDiff_of_le (by omega) (by omega)]
      omega
    · rw [sizeDiff_of_le (by omega) (by omega)]
      omega
    · omega
  simp only [frontChunk, run, intMax]
  split_ifs <;> omega

/-- One pass of the front loop, on a queue with characters and a positive
count, takes the chunk of `frontChunk_eq` and, for `q_to_b`, copies its bytes. -/
theorem Cursor.frontLoop_pass (copy : Bool) (cur : Cursor s f) (nonempty : 0 < s.cc) {count : Int}
    (positive : 0 < count) (fuel : Nat) (out : List UInt8) :
    let k := min count.toNat (min s.cc (s.cn - f))
    frontLoop copy (fuel + 1) s count out =
      frontLoop copy fuel { s with cc := s.cc - k, cf := some (s.advance (f + k)) } (count - k)
        (out ++ if copy then readAt s.cs f k else []) := by
  intro k
  have inRing := cur.inRing
  have fits : f + min count.toNat (min s.cc (s.cn - f)) ≤ s.cn := by omega
  rw [frontLoop, if_pos ⟨positive, nonempty⟩]
  simp only [cur.first, cur.last, Option.bind_eq_bind, Option.bind_some, cur.frontChunk_eq nonempty count]
  cases copy
  · rfl
  · simp only [if_true, readBytes, if_pos fits, Option.bind_some]
    rfl

/-- The bytes of the first `k` characters, when they do not wrap. -/
theorem Cursor.map_fst_take_view (cur : Cursor s f) {k : Nat} (le : k ≤ s.cc) (fits : f + k ≤ s.cn) :
    (s.view.take k).map Prod.fst = readAt s.cs f k := by
  rw [cur.view_eq, ringRead_take _ _ _ le, ringRead_of_le fits]
  simp [readAt, cell]

theorem frontLoop_of_empty (copy : Bool) (empty : s.cc = 0) (fuel : Nat) (count : Int) (out : List UInt8) :
    frontLoop copy (fuel + 1) s count out = some (s, count, out) := by
  rw [frontLoop, if_neg (by omega)]

/-- With fuel for a pass per character, the front loop takes the first
`count` characters, or all of them, off the view, and `q_to_b` copies their
bytes out in order. -/
theorem Cursor.frontLoop_eq (copy : Bool) {fuel : Nat} (cur : Cursor s f) (enough : s.cc < fuel) (count : Int)
    (out : List UInt8) :
    ∃ s' f', frontLoop copy fuel s count out =
        some (s', count - min count.toNat s.cc, out ++ if copy then (s.view.take count.toNat).map Prod.fst else []) ∧
      Cursor s' f' ∧ s'.view = s.view.drop count.toNat ∧ Keeps s s' := by
  -- induction on the fuel: each pass takes at least one character
  induction fuel generalizing s f count out with
  | zero => omega
  | succ fuel ih =>
    have length := cur.length_view
    by_cases go : 0 < count ∧ 0 < s.cc
    · obtain ⟨positive, nonempty⟩ := go
      have inRing := cur.inRing
      set k := min count.toNat (min s.cc (s.cn - f)) with chunk
      have le : k ≤ s.cc := by omega
      have fits : f + k ≤ s.cn := by omega
      obtain ⟨cur', view'⟩ := cur.pop le fits
      obtain ⟨s', f', loop, cur'', view'', keeps⟩ := ih cur' (by simp only; omega) (count - k)
        (out ++ if copy then readAt s.cs f k else [])
      -- the rest of the count is taken from the view after the chunk
      have rest : count.toNat = k + (count - k).toNat := by omega
      have popped : Keeps s { s with cc := s.cc - k, cf := some (s.advance (f + k)) } := Keeps.of_cq rfl rfl
      refine ⟨s', f', ?_, cur'', ?_, popped.trans keeps⟩
      · rw [cur.frontLoop_pass copy nonempty positive, loop, view']
        have counted : count - k - min (count - k).toNat (s.cc - k) = count - min count.toNat s.cc := by omega
        simp only [counted, List.append_assoc]
        cases copy
        · rfl
        · rw [rest, List.take_add, List.map_append, cur.map_fst_take_view le fits]
          rfl
      · rw [view'', view', List.drop_drop, ← rest]
    · -- the count is used up or the queue is empty: no pass is made
      have none : count.toNat = 0 ∨ s.view = [] := by
        by_cases used : count.toNat = 0
        · exact Or.inl used
        · exact Or.inr (List.length_eq_zero_iff.mp (by omega))
      refine ⟨s, f, ?_, cur, ?_, Keeps.refl s⟩
      · rw [frontLoop, if_neg go, show min count.toNat s.cc = 0 by omega]
        rcases none with used | empty
        · simp [used]
        · simp [empty]
      · rcases none with used | empty
        · simp [used]
        · simp [empty]

/-- The front loop as `q_to_b` and `ndflush` run it, from an allocated clist:
the state it leaves, once its pointers are reset, has the invariant and the
view with the first `count` characters gone. -/
theorem Inv.frontLoop_eq (copy : Bool) (inv : Inv s) (count : Int) :
    ∃ s' rest, frontLoop copy (s.cn + 1) s count [] =
        some (s', rest, if copy then (s.view.take count.toNat).map Prod.fst else []) ∧
      Inv s'.resetIfEmpty ∧ Keeps s s'.resetIfEmpty ∧ s'.resetIfEmpty.view = s.view.drop count.toNat := by
  by_cases empty : s.cc = 0
  · refine ⟨s, count, ?_, ?_, ?_, ?_⟩
    · simp [frontLoop_of_empty copy empty, inv.view_eq_nil empty]
    · rw [inv.resetIfEmpty_eq]
      exact inv
    · rw [inv.resetIfEmpty_eq]
      exact Keeps.refl s
    · simp [inv.resetIfEmpty_eq, inv.view_eq_nil empty]
  · obtain ⟨f, cur⟩ := inv.nonempty (Nat.pos_of_ne_zero empty)
    have bounded := cur.le
    obtain ⟨s', f', loop, cur', view', keeps⟩ := cur.frontLoop_eq copy (show s.cc < s.cn + 1 by omega) count []
    obtain ⟨inv', sameView, _⟩ := cur'.resetIfEmpty
    exact ⟨s', _, by rw [loop, List.nil_append], inv', keeps.trans (Keeps.resetIfEmpty s'), sameView.trans view'⟩

/-- `q_to_b` copies out the first `count` characters, or all of them, and
returns how many. -/
theorem qToB_refines (inv : Inv s) (count : Int) :
    ∃ s', s.qToB count = some (s', min count.toNat s.cc, (s.view.take count.toNat).map Prod.fst) ∧
      Inv s' ∧ Keeps s s' ∧ s'.view = s.view.drop count.toNat := by
  obtain ⟨s', rest, loop, inv', keeps, view'⟩ := inv.frontLoop_eq true count
  have small := inv.small
  have copied : min intMax ((s.view.take count.toNat).map Prod.fst).length = min count.toNat s.cc := by
    rw [List.length_map, List.length_take, inv.length_view]
    have := inv.le
    omega
  refine ⟨s'.resetIfEmpty, ?_, inv', keeps, view'⟩
  simp only [qToB, loop, if_true, Option.bind_eq_bind, Option.bind_some, copied]
  rfl

/-- `ndflush` drops the first `count` characters, or all of them. -/
theorem ndflush_refines (inv : Inv s) (count : Int) :
    ∃ s', s.ndflush count = some s' ∧ Inv s' ∧ Keeps s s' ∧ s'.view = s.view.drop count.toNat := by
  by_cases all : count = s.cc
  · refine ⟨{ s with cc := 0, cf := none, cl := none }, by simp [ndflush, all],
      ⟨inv.pos, inv.small, Nat.zero_le _, fun _ => ⟨rfl, rfl⟩, by simp⟩, Keeps.of_cq rfl rfl, ?_⟩
    rw [all, Int.toNat_natCast, List.drop_of_length_le (le_of_eq inv.length_view)]
    rfl
  · obtain ⟨s', rest, loop, inv', keeps, view'⟩ := inv.frontLoop_eq false count
    refine ⟨s'.resetIfEmpty, ?_, inv', keeps, view'⟩
    simp only [ndflush, if_neg all, loop, Option.bind_eq_bind, Option.bind_some]
    rfl

end Front

/-! The loop of `b_to_q`, which adds chunks at the back. -/

section Back

variable {s : Clist} {f : Nat}

/-- The pointers `putc` and `b_to_q` set on an empty queue change no other
field. -/
theorem opened_fields (s s₀ : Clist) (opened : (if s.cc = 0 then { s with cf := some 0, cl := some 0 } else s) = s₀) :
    s₀.cc = s.cc ∧ s₀.cn = s.cn ∧ s₀.cs = s.cs ∧ s₀.cq = s.cq := by
  subst opened
  split <;> simp

/-- The cells after `k` bytes of `src` are copied in at `l` and their quote
bits cleared: the ring with the bytes written in, unquoted. -/
theorem cell_of_copy {s' : Clist} (src : Nat → UInt8) {l p k : Nat} (bytes : s'.cs = writeAt s.cs l (readAt src p k))
    (quotes : ∀ i, s'.quoteBit i = (s.quoteBit i && !decide (l ≤ i ∧ i < l + k))) (i : Nat) :
    s'.cell i = writeAt s.cell l ((readAt src p k).map (·, false)) i := by
  by_cases inside : l ≤ i ∧ i < l + k
  · obtain ⟨j, rfl⟩ : ∃ j, i = l + j := ⟨i - l, by omega⟩
    have within : j < k := by omega
    simp only [cell, bytes, quotes, writeAt_add (show j < (readAt src p k).length by simp [within]),
      writeAt_add (show j < ((readAt src p k).map (·, false)).length by simp [within]), inside]
    simp [readAt]
  · -- outside the copy both stores keep what they held
    have keep : ∀ {α : Type} (b : Nat → α) (chunk : List α), chunk.length = k → writeAt b l chunk i = b i := by
      intro α b chunk length
      by_cases below : i < l
      · exact writeAt_of_lt chunk below
      · exact writeAt_of_le (by omega)
    rw [keep _ _ (by simp), cell, cell, bytes, quotes, keep _ _ (by simp), decide_eq_false inside]
    simp

/-- A pass of the loop of `b_to_q`, on a queue with room and a positive
count, copies in the count, the room, or the places up to `c_ce`, whichever
is least: where `c_cf > c_cl` the room runs up to `c_cf`. -/
theorem Cursor.bToQLoop_pass (src : Nat → UInt8) (cur : Cursor s f) (room : s.cc < s.cn) {count : Int}
    (positive : 0 < count) (fuel p : Nat) :
    let k := min count.toNat (min (s.cn - s.cc) (s.cn - (f + s.cc) % s.cn))
    ∃ s₁, bToQLoop src (fuel + 1) s count p = bToQLoop src fuel s₁ (count - k) (p + k) ∧ Cursor s₁ f ∧
      s₁.view = s.view ++ (readAt src p k).map (·, false) ∧ Keeps s s₁ := by
  intro k
  have chunkSize : k = min count.toNat (min (s.cn - s.cc) (s.cn - (f + s.cc) % s.cn)) := rfl
  have inRing := cur.inRing
  have bounded := cur.le
  have small : s.cn ≤ 2 ^ 31 - 1 := cur.small
  have lastIn : (f + s.cc) % s.cn < s.cn := Nat.mod_lt _ cur.pos
  have fits : (f + s.cc) % s.cn + k ≤ s.cn := by omega
  have notBig : ¬ ((f + s.cc) % s.cn > intMax ∨ k > intMax) := by
    simp only [intMax]
    omega
  have run : (if f > (f + s.cc) % s.cn then sizeDiff f ((f + s.cc) % s.cn) else sizeDiff s.cn ((f + s.cc) % s.cn)) =
      min (s.cn - s.cc) (s.cn - (f + s.cc) % s.cn) := by
    rw [mod_eq_ite_of_lt_two_mul (show f + s.cc < 2 * s.cn by omega)]
    split_ifs with fits wraps wraps
    · omega
    · rw [sizeDiff_of_le (by omega) (by omega)]
      omega
    · rw [sizeDiff_of_le (by omega) (by omega)]
      omega
    · omega
  have chunk : (if min (s.cn - s.cc) (s.cn - (f + s.cc) % s.cn) > intMax ∨
      ((min (s.cn - s.cc) (s.cn - (f + s.cc) % s.cn) : Nat) : Int) > count then count.toNat
      else min (s.cn - s.cc) (s.cn - (f + s.cc) % s.cn)) = k := by
    have big : intMax = 2 ^ 31 - 1 := rfl
    split <;> omega
  -- the state after the pass, with the quote bitmap `quotes`
  let grown (quotes : Option (Nat → UInt8)) : Clist :=
    { s with
      cf := some f
      cs := writeAt s.cs ((f + s.cc) % s.cn) (readAt src p k)
      cq := quotes
      cc := s.cc + k
      cl := some (s.advance ((f + s.cc) % s.cn + k)) }
  -- every bitmap the pass can leave clears the bits of the chunk
  have pushed : ∀ quotes, quotes.isSome = s.cq.isSome → (∀ i, (grown quotes).quoteBit i =
      (s.quoteBit i && !decide ((f + s.cc) % s.cn ≤ i ∧ i < (f + s.cc) % s.cn + k))) →
      Cursor (grown quotes) f ∧ (grown quotes).view = s.view ++ (readAt src p k).map (·, false) ∧
        Keeps s (grown quotes) := by
    intro quotes same cleared
    obtain ⟨cur₁, view₁⟩ := cur.push (by simp; omega) (by simp; omega) (cell_of_copy src rfl cleared) rfl
      cur.first.symm (by simp [grown]) (by simp [grown])
    refine ⟨cur₁, view₁, ⟨rfl, same, fun i beyond => ?_⟩⟩
    rw [cleared i, decide_eq_false (by omega), Bool.not_false, Bool.and_true]
  rw [bToQLoop, if_pos ⟨positive, room⟩]
  simp only [cur.first, cur.last, Option.bind_eq_bind, Option.bind_some, run, chunk, writeBytes, length_readAt,
    if_pos fits]
  cases bitmap : s.cq with
  | none =>
    obtain ⟨cur₁, view₁, keeps⟩ := pushed none (by simp [bitmap]) (fun i => by simp [grown, quoteBit, bitmap])
    exact ⟨grown none, by simp; rfl, cur₁, view₁, keeps⟩
  | some q =>
    obtain ⟨q', cleared, bits⟩ := clrbits_eq q (show 0 < k by omega)
      (show (f + s.cc) % s.cn + k ≤ 8 * qmem s.cn by unfold qmem; omega)
    obtain ⟨cur₁, view₁, keeps⟩ := pushed (some q') (by simp [bitmap])
      (fun i => by simp [grown, quoteBit, bitmap, bits])
    exact ⟨grown (some q'), by simp [notBig, cleared]; rfl, cur₁, view₁, keeps⟩

/-- With fuel for a pass per free place, the loop of `b_to_q` appends the
first `count` bytes of `src` from `p`, or as many as there is room for,
unquoted, and returns the count left. -/
theorem Cursor.bToQLoop_eq (src : Nat → UInt8) {fuel : Nat} (cur : Cursor s f) (enough : s.cn - s.cc < fuel)
    (count : Int) (p : Nat) :
    ∃ s', bToQLoop src fuel s count p = some (s', count - min count.toNat (s.cn - s.cc)) ∧ Cursor s' f ∧
      s'.view = s.view ++ (readAt src p (min count.toNat (s.cn - s.cc))).map (·, false) ∧ Keeps s s' := by
  -- induction on the fuel: each pass copies at least one byte
  induction fuel generalizing s count p with
  | zero => omega
  | succ fuel ih =>
    by_cases go : 0 < count ∧ s.cc < s.cn
    · obtain ⟨positive, room⟩ := go
      have lastIn : (f + s.cc) % s.cn < s.cn := Nat.mod_lt _ cur.pos
      obtain ⟨s₁, pass, cur₁, view₁, keeps₁⟩ := cur.bToQLoop_pass src room positive fuel p
      generalize chunk : min count.toNat (min (s.cn - s.cc) (s.cn - (f + s.cc) % s.cn)) = k at pass view₁
      have grew : s₁.cc = s.cc + k := by
        rw [← cur₁.length_view, view₁, List.length_append, cur.length_view, List.length_map, length_readAt]
      have sameSize := keeps₁.cn
      have shrinks : s₁.cn - s₁.cc < fuel := by omega
      obtain ⟨s', loop, cur', view', keeps'⟩ := ih cur₁ shrinks (count - k) (p + k)
      have total : k + min (count - k).toNat (s₁.cn - s₁.cc) = min count.toNat (s.cn - s.cc) := by omega
      refine ⟨s', ?_, cur', ?_, keeps₁.trans keeps'⟩
      · rw [pass, loop, sameSize, grew]
        congr 2
        omega
      · rw [view', view₁, List.append_assoc, ← List.map_append, ← readAt_add, total]
    · refine ⟨s, ?_, cur, ?_, Keeps.refl s⟩
      · rw [bToQLoop, if_neg go, show min count.toNat (s.cn - s.cc) = 0 by omega]
        simp
      · simp [show min count.toNat (s.cn - s.cc) = 0 by omega, readAt]

/-- `b_to_q` appends the first `count` bytes of `src`, or as many as there is
room for, unquoted, and returns the count of those it could not take. -/
theorem bToQ_refines (inv : Inv s) (src : Nat → UInt8) (count : Int) :
    ∃ s', s.bToQ src count = some (s', if count ≤ 0 then 0 else count - min count.toNat (s.cn - s.cc)) ∧
      Inv s' ∧ Keeps s s' ∧ s'.view = s.view ++ (readAt src 0 (min count.toNat (s.cn - s.cc))).map (·, false) := by
  by_cases none : count ≤ 0
  · refine ⟨s, by simp [bToQ, none], inv, Keeps.refl s, ?_⟩
    simp [show count.toNat = 0 by omega, readAt]
  obtain ⟨f, cur, sameView⟩ := inv.opened
  simp only [bToQ, if_neg none]
  generalize hs₀ : (if s.cc = 0 then { s with cf := some 0, cl := some 0 } else s) = s₀ at cur sameView ⊢
  obtain ⟨cc₀, cn₀, -, cq₀⟩ := opened_fields s s₀ hs₀
  have opened : Keeps s s₀ := Keeps.of_cq cn₀ cq₀
  have bounded := inv.le
  have pos := inv.pos
  by_cases full : s₀.cc = s₀.cn
  · have noRoom : min count.toNat (s.cn - s.cc) = 0 := by omega
    refine ⟨s₀, by simp [full, noRoom], cur.inv (by omega), opened, ?_⟩
    simp [sameView, noRoom, readAt]
  · obtain ⟨s', loop, cur', view', keeps'⟩ := cur.bToQLoop_eq src (show s₀.cn - s₀.cc < s₀.cn + 1 by omega) count 0
    have grew : 0 < s'.cc := by
      rw [← cur'.length_view, view', List.length_append, List.length_map, length_readAt]
      omega
    refine ⟨s', by rw [if_neg full, loop, cc₀, cn₀], cur'.inv grew, opened.trans keeps', ?_⟩
    rw [view', sameView, cc₀, cn₀]

end Back

end Clist

end Xnu.Tty
