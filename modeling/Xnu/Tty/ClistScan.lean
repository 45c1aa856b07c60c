import Xnu.Tty.ClistRun

namespace Xnu.Tty

/-! The reads of a clist that leave it as it is: the walk of `firstc` and
`nextc` that `ttyretype` makes, and `ndqb`, the count of characters from
`c_cf` that `kmoutput` takes at once. -/

namespace Clist

variable {s : Clist} {f : Nat}

section Walk

/-- A place `i` characters after `c_cf`, short of a whole round, is `c_cf`
only for `i = 0`. -/
theorem Cursor.first_eq_iff (cur : Cursor s f) {i : Nat} (short : i < s.cn) :
    s.cf = some ((f + i) % s.cn) ↔ i = 0 := by
  have inRing := cur.inRing
  rw [cur.first, Option.some.injEq, mod_eq_ite_of_lt_two_mul (show f + i < 2 * s.cn by omega)]
  split <;> omega

/-- The static count `nextc` goes on from: `c_cc` on the first call, from
`c_cf`, and the count it was given after that. -/
theorem Cursor.nextc_static (cur : Cursor s f) {i : Nat} (inside : i < s.cc) :
    (if s.cf = some ((f + i) % s.cn) then s.cc else s.cc - i) = s.cc - i := by
  have bounded := cur.le
  split
  · rename_i first
    rw [(cur.first_eq_iff (by omega)).mp first, Nat.sub_zero]
  · rfl

/-- `nextc` from the `i`-th character, with `c_cc - i` left in its static
count, returns the next character. -/
theorem Cursor.nextc_eq (cur : Cursor s f) {i : Nat} (next : i + 1 < s.cc) :
    s.nextc (some ((f + i) % s.cn)) (s.cc - i) =
      some (s.cc - (i + 1), some ((f + (i + 1)) % s.cn), some (charOf (s.cell ((f + (i + 1)) % s.cn)))) := by
  have placeIn : (f + i) % s.cn < s.cn := Nat.mod_lt _ cur.pos
  have moved : s.advance ((f + i) % s.cn + 1) = (f + (i + 1)) % s.cn := by
    rw [advance_eq (by omega), Nat.mod_add_mod, Nat.add_assoc]
  simp only [nextc, cur.nextc_static (show i < s.cc by omega), if_neg (show s.cc - i ≠ 0 by omega),
    if_neg (show s.cc - i - 1 ≠ 0 by omega), moved, charAt_eq (Nat.mod_lt _ cur.pos), Option.bind_eq_bind,
    Option.bind_some]
  rw [show s.cc - i - 1 = s.cc - (i + 1) by omega]
  rfl

/-- `nextc` from the last character returns NULL. -/
theorem Cursor.nextc_end (cur : Cursor s f) {i : Nat} (last : i + 1 = s.cc) :
    s.nextc (some ((f + i) % s.cn)) (s.cc - i) = some (0, none, none) := by
  simp only [nextc, cur.nextc_static (show i < s.cc by omega), if_neg (show s.cc - i ≠ 0 by omega),
    if_pos (show s.cc - i - 1 = 0 by omega)]

/-- From the `i`-th character on, with fuel for each one left, the loop
visits the rest of the queue in order. -/
theorem Cursor.scanLoop_eq (cur : Cursor s f) {i fuel : Nat} (inside : i < s.cc) (enough : s.cc - i ≤ fuel) :
    s.scanLoop fuel (s.cc - i) ((f + i) % s.cn) (charOf (s.cell ((f + i) % s.cn))) =
      some ((ringRead s.cell s.cn (f + i) (s.cc - i)).map charOf) := by
  -- induction on the fuel, each call of `nextc` moving one character on
  induction fuel generalizing i with
  | zero => omega
  | succ fuel ih =>
    have split : ringRead s.cell s.cn (f + i) (s.cc - i) =
        s.cell ((f + i) % s.cn) :: ringRead s.cell s.cn (f + (i + 1)) (s.cc - (i + 1)) := by
      rw [show s.cc - i = 1 + (s.cc - (i + 1)) by omega, ringRead_add]
      simp [ringRead, Nat.add_assoc]
    by_cases last : i + 1 = s.cc
    · rw [scanLoop, cur.nextc_end last, split, show s.cc - (i + 1) = 0 by omega]
      simp [ringRead]
    · rw [scanLoop, cur.nextc_eq (by omega), split]
      simp [ih (show i + 1 < s.cc by omega) (by omega)]

/-- The loop of `ttyretype` over `firstc` and `nextc` reads nothing outside
the ring or its bitmap and visits the characters of the queue in order, each
with its quote bit. -/
theorem scan_eq (inv : Inv s) : s.scan = some (s.view.map charOf) := by
  by_cases empty : s.cc = 0
  · simp [scan, firstc, empty, inv.view_eq_nil empty]
  obtain ⟨f, cur⟩ := inv.nonempty (Nat.pos_of_ne_zero empty)
  have bounded := cur.le
  have loop := cur.scanLoop_eq (Nat.pos_of_ne_zero empty) (show s.cc - 0 ≤ s.cn + 1 by omega)
  simp only [Nat.add_zero, Nat.sub_zero, Nat.mod_eq_of_lt cur.inRing] at loop
  simp [scan, firstc, empty, cur.first, charAt_eq cur.inRing, loop, cur.view_eq]

end Walk

section Ndqb

/-- On a queue that does not wrap past `c_ce`, or fills the ring,
`ndqb(clp, 0)` returns the run of characters from `c_cf`. -/
theorem Cursor.ndqb_zero_eq (cur : Cursor s f) (nonempty : 0 < s.cc) (unwrapped : f ≤ (f + s.cc) % s.cn) :
    s.ndqb 0 = some (min s.cc (s.cn - f)) := by
  have inRing := cur.inRing
  have bounded := cur.le
  have small : s.cn ≤ 2 ^ 31 - 1 := cur.small
  have big : intMax = 2 ^ 31 - 1 := rfl
  have run : (if sizeDiff ((f + s.cc) % s.cn) f = 0 then sizeDiff s.cn f else sizeDiff ((f + s.cc) % s.cn) f) =
      min s.cc (s.cn - f) := by
    rw [mod_eq_ite_of_lt_two_mul (show f + s.cc < 2 * s.cn by omega)] at unwrapped ⊢
    by_cases fits : f + s.cc < s.cn
    · -- no wrap: `c_cl` is `c_cc` places after `c_cf`
      rw [if_pos fits] at unwrapped ⊢
      rw [sizeDiff_of_le (by omega) (by omega), if_neg (by omega)]
      omega
    · -- a full ring: `c_cl == c_cf`
      rw [if_neg fits] at unwrapped ⊢
      rw [sizeDiff_of_le (by omega) (by omega), if_pos (by omega), sizeDiff_of_le (by omega) (by omega)]
      omega
  rw [ndqb, if_neg (show s.cc ≠ 0 by omega), if_pos rfl]
  simp only [cur.first, cur.last, Option.bind_eq_bind, Option.bind_some, run]
  rw [if_neg (by omega)]
  rfl

/-- On a queue that wraps past `c_ce` and does not fill the ring,
`ndqb(clp, 0)` returns 0, though the run from `c_cf` holds at least one
character: `c_cl - c_cf` is negative, the `size_t` that holds it is past
`INT_MAX`, and the `count <= 0` test cannot see it. -/
theorem ndqb_zero_of_wrapped (cur : Cursor s f) (nonempty : 0 < s.cc) (wrapped : (f + s.cc) % s.cn < f) :
    s.ndqb 0 = some 0 ∧ 1 ≤ min s.cc (s.cn - f) := by
  have inRing := cur.inRing
  have small : s.cn ≤ 2 ^ 31 - 1 := cur.small
  have big : intMax = 2 ^ 31 - 1 := rfl
  have negative : sizeDiff ((f + s.cc) % s.cn) f = (f + s.cc) % s.cn + 2 ^ 64 - f := by
    unfold sizeDiff
    omega
  have count : (if sizeDiff ((f + s.cc) % s.cn) f = 0 then sizeDiff s.cn f else sizeDiff ((f + s.cc) % s.cn) f) =
      (f + s.cc) % s.cn + 2 ^ 64 - f := by
    rw [negative, if_neg (by omega)]
  refine ⟨?_, by omega⟩
  rw [ndqb, if_neg (show s.cc ≠ 0 by omega), if_pos rfl]
  simp only [cur.first, cur.last, Option.bind_eq_bind, Option.bind_some, count]
  rw [if_pos (by omega)]
  rfl

/-- A queue of `t_outq`'s size whose two characters wrap from the last place
of the ring to the first. -/
def wrappedOutq : Clist :=
  ⟨2, ttyclsize, some 1023, some 1, fun _ => 0x41, none⟩

theorem ndqb_zero_of_wrapped_outq : wrappedOutq.ndqb 0 = some 0 ∧ 1 ≤ min wrappedOutq.cc (wrappedOutq.cn - 1023) :=
  ndqb_zero_of_wrapped ⟨by decide, by decide, by decide, rfl, by decide, rfl⟩ (by decide) (by decide)

/-- The state is reached from `clalloc`: 1023 bytes in, 1022 out, 2 more in. -/
theorem ndqb_zero_after_wrap_outq :
    ((clalloc ttyclsize false).runOps [.bToQ (fun _ => 0x41) 1023, .qToB 1022, .bToQ (fun _ => 0x41) 2]).map
      (fun r => (r.1.cc, r.1.cf, r.1.cl, r.1.ndqb 0)) = some (3, some 1022, some 1, some 0) := by
  decide +kernel

end Ndqb

end Clist

end Xnu.Tty
