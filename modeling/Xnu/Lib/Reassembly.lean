import Mathlib

namespace Xnu

/-! Reassembly queues. Data arrives in pieces, each placed at a position of a
stream, and waits in a list of pieces kept in order of position. A new piece
is trimmed by the piece before it, which keeps what it holds, and trims or
drops the pieces after it that it overlaps. A queue stands for the partial
map `valueAt` from positions to elements. -/

/-- A run of elements placed at position `start` of a stream; `info` is what
else the queue keeps with it, carried along unchanged. -/
structure Piece (τ α : Type) where
  start : Nat
  data : List α
  info : τ
deriving DecidableEq, Repr

namespace Piece

variable {τ α : Type}

def stop (s : Piece τ α) : Nat := s.start + s.data.length

/-- The element at stream position `x`, when the piece holds it. -/
def get (s : Piece τ α) (x : Nat) : Option α :=
  if s.start ≤ x then s.data[x - s.start]? else none

/-- The first `k` elements taken off the front. -/
def trimFront (k : Nat) (s : Piece τ α) : Piece τ α := ⟨s.start + k, s.data.drop k, s.info⟩

theorem get_isSome_iff (s : Piece τ α) (x : Nat) :
    (s.get x).isSome ↔ s.start ≤ x ∧ x < s.stop := by
  unfold get stop
  split
  · rw [Option.isSome_iff_ne_none, Ne, List.getElem?_eq_none_iff]
    omega
  · simp only [Option.isSome_none, Bool.false_eq_true, false_iff]
    omega

theorem get_eq_none_of_lt {s : Piece τ α} {x : Nat} (before : x < s.start) : s.get x = none := by
  simp [get, Nat.not_le.mpr before]

theorem get_eq_none_of_le {s : Piece τ α} {x : Nat} (after : s.stop ≤ x) : s.get x = none := by
  unfold get stop at *
  split
  · exact List.getElem?_eq_none (by omega)
  · rfl

theorem stop_trimFront {k : Nat} {s : Piece τ α} (short : k ≤ s.data.length) :
    (s.trimFront k).stop = s.stop := by
  simp only [trimFront, stop, List.length_drop]
  omega

/-- What is left after trimming is what the piece held from `start + k` on. -/
theorem get_trimFront (k : Nat) (s : Piece τ α) (x : Nat) :
    (s.trimFront k).get x = if s.start + k ≤ x then s.get x else none := by
  unfold trimFront get
  dsimp only
  by_cases after : s.start + k ≤ x
  · rw [if_pos after, if_pos after, if_pos (by omega), List.getElem?_drop]
    congr 1
    omega
  · rw [if_neg after, if_neg after]

end Piece

section Queue

variable {τ α : Type}

/-- The element a queue holds at position `x`: what the first piece holding
it says. -/
def valueAt : List (Piece τ α) → Nat → Option α
  | [], _ => none
  | s :: rest, x => (s.get x).or (valueAt rest x)

/-- Pieces in order of position, each ending before the next begins, all
at or after `lo`. -/
def OrderedFrom : Nat → List (Piece τ α) → Prop
  | _, [] => True
  | lo, s :: rest => lo ≤ s.start ∧ OrderedFrom s.stop rest

@[simp] theorem valueAt_nil (x : Nat) : valueAt ([] : List (Piece τ α)) x = none := rfl

theorem valueAt_cons (s : Piece τ α) (rest : List (Piece τ α)) (x : Nat) :
    valueAt (s :: rest) x = (s.get x).or (valueAt rest x) := rfl

theorem valueAt_append (front back : List (Piece τ α)) (x : Nat) :
    valueAt (front ++ back) x = (valueAt front x).or (valueAt back x) := by
  induction front with
  | nil => rfl
  | cons s rest ih => rw [List.cons_append, valueAt_cons, valueAt_cons, ih, Option.or_assoc]

@[simp] theorem orderedFrom_nil (lo : Nat) : OrderedFrom lo ([] : List (Piece τ α)) := trivial

theorem orderedFrom_cons {lo : Nat} {s : Piece τ α} {rest : List (Piece τ α)} :
    OrderedFrom lo (s :: rest) ↔ lo ≤ s.start ∧ OrderedFrom s.stop rest := Iff.rfl

theorem OrderedFrom.mono {lo lo' : Nat} {qs : List (Piece τ α)} (lower : lo' ≤ lo)
    (ordered : OrderedFrom lo qs) : OrderedFrom lo' qs := by
  cases qs with
  | nil => trivial
  | cons s rest => exact ⟨Nat.le_trans lower ordered.1, ordered.2⟩

/-- Nothing in an ordered queue lies before its lower bound. -/
theorem OrderedFrom.valueAt_eq_none {lo x : Nat} {qs : List (Piece τ α)}
    (ordered : OrderedFrom lo qs) (before : x < lo) : valueAt qs x = none := by
  induction qs generalizing lo with
  | nil => rfl
  | cons s rest ih =>
    obtain ⟨first, later⟩ := ordered
    have startAfter : s.start ≤ s.stop := Nat.le_add_right _ _
    rw [valueAt_cons, Piece.get_eq_none_of_lt (by omega), Option.none_or]
    exact ih later (by omega)

theorem OrderedFrom.le_start {lo : Nat} {qs : List (Piece τ α)} (ordered : OrderedFrom lo qs) :
    ∀ s ∈ qs, lo ≤ s.start := by
  induction qs generalizing lo with
  | nil => simp
  | cons s rest ih =>
    intro t member
    rcases List.mem_cons.mp member with rfl | later
    · exact ordered.1
    · have after := ih ordered.2 t later
      have startAfter : s.start ≤ s.stop := Nat.le_add_right _ _
      have := ordered.1
      omega

/-- An ordered queue is sorted, and no two of its pieces overlap. -/
theorem OrderedFrom.pairwise {lo : Nat} {qs : List (Piece τ α)} (ordered : OrderedFrom lo qs) :
    qs.Pairwise fun a b => a.stop ≤ b.start := by
  induction qs generalizing lo with
  | nil => exact List.Pairwise.nil
  | cons s rest ih => exact List.Pairwise.cons ordered.2.le_start (ih ordered.2)

/-- When the first piece waits past `lo`, all of them do. -/
theorem OrderedFrom.lt_start {lo : Nat} {qs : List (Piece τ α)} (ordered : OrderedFrom lo qs)
    (waiting : ∀ s ∈ qs.head?, lo < s.start) : ∀ s ∈ qs, lo < s.start := by
  cases qs with
  | nil => simp
  | cons s rest =>
    intro t member
    have first := waiting s rfl
    rcases List.mem_cons.mp member with rfl | later
    · exact first
    · have after := ordered.2.le_start t later
      have startAfter : s.start ≤ s.stop := Nat.le_add_right _ _
      omega

end Queue

section Succ

variable {τ α : Type}

/-- The loop over the pieces after the new one: while the new one, ending at
`stop`, reaches into a piece, trim that piece's front, or drop it when it
lies inside. The count is of the pieces dropped. -/
def trimSucc (stop : Nat) : List (Piece τ α) → List (Piece τ α) × Nat
  | [] => ([], 0)
  | q :: rest =>
    if q.start < stop then
      if stop - q.start < q.data.length then (q.trimFront (stop - q.start) :: rest, 0)
      else ((trimSucc stop rest).1, (trimSucc stop rest).2 + 1)
    else (q :: rest, 0)

theorem trimSucc_ordered (stop : Nat) : ∀ (lo : Nat) (qs : List (Piece τ α)),
    OrderedFrom lo qs → OrderedFrom stop (trimSucc stop qs).1
  | _, [], _ => trivial
  | lo, q :: rest, ⟨first, later⟩ => by
    unfold trimSucc
    split
    · split
      · rename_i reaches inside
        refine ⟨by simp only [Piece.trimFront]; omega, ?_⟩
        rwa [Piece.stop_trimFront (by omega)]
      · exact trimSucc_ordered stop q.stop rest later
    · exact ⟨by omega, later⟩

theorem trimSucc_length (stop : Nat) :
    ∀ qs : List (Piece τ α), (trimSucc stop qs).1.length + (trimSucc stop qs).2 = qs.length
  | [] => rfl
  | q :: rest => by
    have ih := trimSucc_length stop rest
    unfold trimSucc
    split
    · split
      · simp
      · simp only [List.length_cons]
        omega
    · simp

/-- After the loop the pieces hold what they held from `stop` on, and
nothing before it. -/
theorem trimSucc_valueAt (stop : Nat) : ∀ (lo : Nat) (qs : List (Piece τ α)),
    OrderedFrom lo qs → ∀ x, valueAt (trimSucc stop qs).1 x = if stop ≤ x then valueAt qs x else none
  | _, [], _, x => by simp [trimSucc]
  | lo, q :: rest, ⟨first, later⟩, x => by
    have startAfter : q.start ≤ q.stop := Nat.le_add_right _ _
    unfold trimSucc
    split
    · rename_i reaches
      split
      · -- the front of `q` up to `stop` goes
        rename_i inside
        rw [valueAt_cons, valueAt_cons, Piece.get_trimFront, Nat.add_sub_cancel' reaches.le]
        split
        · rfl
        · rename_i before
          rw [Option.none_or]
          exact later.valueAt_eq_none (by unfold Piece.stop; omega)
      · -- `q` lies inside the new piece and goes
        rename_i covered
        rw [trimSucc_valueAt stop q.stop rest later x, valueAt_cons]
        split
        · rw [Piece.get_eq_none_of_le (by unfold Piece.stop at *; omega), Option.none_or]
        · rfl
    · rename_i clear
      split
      · rfl
      · rename_i before
        rw [valueAt_cons, Piece.get_eq_none_of_lt (by omega), Option.none_or]
        exact later.valueAt_eq_none (by omega)

/-- Every piece the loop keeps is one it was given, possibly without a front
part that leaves it non-empty. -/
theorem trimSucc_mem (stop : Nat) : ∀ (qs : List (Piece τ α)), ∀ s ∈ (trimSucc stop qs).1,
    s ∈ qs ∨ ∃ q ∈ qs, ∃ k < q.data.length, s = q.trimFront k
  | [], s, member => by simp [trimSucc] at member
  | q :: rest, s, member => by
    unfold trimSucc at member
    split at member
    · split at member
      · rename_i reaches inside
        rcases List.mem_cons.mp member with rfl | later
        · exact Or.inr ⟨q, List.mem_cons_self, _, inside, rfl⟩
        · exact Or.inl (List.mem_cons_of_mem q later)
      · rcases trimSucc_mem stop rest s member with kept | ⟨q', member', k, short, rfl⟩
        · exact Or.inl (List.mem_cons_of_mem q kept)
        · exact Or.inr ⟨q', List.mem_cons_of_mem q member', k, short, rfl⟩
    · exact Or.inl member

end Succ

section Insert

variable {τ α : Type}

theorem valueAt_isSome_of_mem {s : Piece τ α} {qs : List (Piece τ α)} {x : Nat}
    (member : s ∈ qs) (holds : (s.get x).isSome) : (valueAt qs x).isSome := by
  induction qs with
  | nil => simp at member
  | cons q rest ih =>
    rw [valueAt_cons]
    rcases List.mem_cons.mp member with rfl | later
    · obtain ⟨v, hv⟩ := Option.isSome_iff_exists.mp holds
      simp [hv]
    · cases q.get x with
      | none => exact ih later
      | some v => rfl

/-- The data before the new piece reaches `reach`: trim the new piece's
front up to there, or drop it when nothing of it lies beyond. -/
def trimPred (reach : Nat) (new : Piece τ α) : Option (Piece τ α) :=
  if new.start < reach then
    if new.data.length ≤ reach - new.start then none
    else some (new.trimFront (reach - new.start))
  else some new

/-- Put the trimmed new piece in front of `after` and run the loop over the
pieces it reaches into. -/
def place (reach : Nat) (new : Piece τ α) (after : List (Piece τ α)) :
    Option (List (Piece τ α) × Nat) :=
  (trimPred reach new).map fun new' =>
    (new' :: (trimSucc new'.stop after).1, (trimSucc new'.stop after).2)

/-- Insertion: walk to the first piece that begins after the new one,
`reach` being where the piece passed last ends. `none` is a new piece that
the one before it already holds; the count is of the pieces dropped. -/
def insertFrom (reach : Nat) (new : Piece τ α) :
    List (Piece τ α) → Option (List (Piece τ α) × Nat)
  | [] => place reach new []
  | q :: rest =>
    if new.start < q.start then place reach new (q :: rest)
    else (insertFrom q.stop new rest).map fun r => (q :: r.1, r.2)

theorem trimPred_start {reach : Nat} {new new' : Piece τ α}
    (trimmed : trimPred reach new = some new') : reach ≤ new'.start ∧ new.start ≤ new'.start := by
  unfold trimPred at trimmed
  split at trimmed
  · split at trimmed
    · simp at trimmed
    · cases trimmed
      simp only [Piece.trimFront]
      omega
  · cases trimmed
    omega

theorem trimPred_start_eq {reach : Nat} {new new' : Piece τ α}
    (trimmed : trimPred reach new = some new') : new'.start = max new.start reach := by
  unfold trimPred at trimmed
  split at trimmed
  · split at trimmed
    · cases trimmed
    · cases trimmed
      simp only [Piece.trimFront]
      omega
  · cases trimmed
    omega

theorem trimPred_stop {reach : Nat} {new new' : Piece τ α}
    (trimmed : trimPred reach new = some new') : new'.stop = new.stop := by
  unfold trimPred at trimmed
  split at trimmed
  · split at trimmed
    · simp at trimmed
    · cases trimmed
      exact Piece.stop_trimFront (by omega)
  · cases trimmed
    rfl

/-- The trimmed piece holds what the new one held from `reach` on. -/
theorem trimPred_get {reach : Nat} {new new' : Piece τ α}
    (trimmed : trimPred reach new = some new') (x : Nat) :
    new'.get x = if reach ≤ x then new.get x else none := by
  unfold trimPred at trimmed
  split at trimmed
  · split at trimmed
    · simp at trimmed
    · rename_i reaches inside
      cases trimmed
      rw [Piece.get_trimFront, Nat.add_sub_cancel' reaches.le]
  · rename_i clear
    cases trimmed
    split
    · rfl
    · rw [Piece.get_eq_none_of_lt (by omega)]

theorem trimPred_mem {reach : Nat} {new new' : Piece τ α}
    (trimmed : trimPred reach new = some new') :
    new' = new ∨ ∃ k < new.data.length, new' = new.trimFront k := by
  unfold trimPred at trimmed
  split at trimmed
  · split at trimmed
    · simp at trimmed
    · cases trimmed
      exact Or.inr ⟨_, by omega, rfl⟩
  · cases trimmed
    exact Or.inl rfl

theorem place_ordered {reach lo : Nat} {new : Piece τ α} {after : List (Piece τ α)}
    (ordered : OrderedFrom lo after) {r : List (Piece τ α) × Nat}
    (placed : place reach new after = some r) : OrderedFrom reach r.1 := by
  obtain ⟨new', trimmed, rfl⟩ := Option.map_eq_some_iff.mp placed
  exact ⟨(trimPred_start trimmed).1, trimSucc_ordered _ lo after ordered⟩

theorem insertFrom_ordered (new : Piece τ α) : ∀ (reach : Nat) (qs : List (Piece τ α)),
    OrderedFrom reach qs → ∀ r, insertFrom reach new qs = some r → OrderedFrom reach r.1
  | reach, [], _, r, inserted => place_ordered (orderedFrom_nil reach) inserted
  | reach, q :: rest, ordered, r, inserted => by
    unfold insertFrom at inserted
    split at inserted
    · exact place_ordered ordered inserted
    · obtain ⟨r', walked, rfl⟩ := Option.map_eq_some_iff.mp inserted
      exact ⟨ordered.1, insertFrom_ordered new q.stop rest ordered.2 r' walked⟩

theorem place_length {reach : Nat} {new : Piece τ α} {after : List (Piece τ α)}
    {r : List (Piece τ α) × Nat} (placed : place reach new after = some r) :
    r.1.length + r.2 = after.length + 1 := by
  obtain ⟨new', -, rfl⟩ := Option.map_eq_some_iff.mp placed
  have loop := trimSucc_length new'.stop after
  simp only [List.length_cons]
  omega

/-- One more piece, less those the new one covered. -/
theorem insertFrom_length (new : Piece τ α) : ∀ (reach : Nat) (qs : List (Piece τ α)) r,
    insertFrom reach new qs = some r → r.1.length + r.2 = qs.length + 1
  | reach, [], r, inserted => place_length inserted
  | reach, q :: rest, r, inserted => by
    unfold insertFrom at inserted
    split at inserted
    · exact place_length inserted
    · obtain ⟨r', walked, rfl⟩ := Option.map_eq_some_iff.mp inserted
      have ih := insertFrom_length new q.stop rest r' walked
      simp only [List.length_cons]
      omega

theorem insertFrom_ne_nil (new : Piece τ α) : ∀ (reach : Nat) (qs : List (Piece τ α)) r,
    insertFrom reach new qs = some r → r.1 ≠ []
  | reach, [], r, inserted => by
    obtain ⟨new', -, rfl⟩ := Option.map_eq_some_iff.mp inserted
    exact List.cons_ne_nil _ _
  | reach, q :: rest, r, inserted => by
    unfold insertFrom at inserted
    split at inserted
    · obtain ⟨new', -, rfl⟩ := Option.map_eq_some_iff.mp inserted
      exact List.cons_ne_nil _ _
    · obtain ⟨r', -, rfl⟩ := Option.map_eq_some_iff.mp inserted
      exact List.cons_ne_nil _ _

/-- A piece that starts at `reach`, before everything queued, goes to the
front untrimmed. -/
theorem insertFrom_at_reach {reach : Nat} {new : Piece τ α} {qs : List (Piece τ α)}
    (here : new.start = reach) (waiting : ∀ s ∈ qs.head?, reach < s.start) :
    insertFrom reach new qs = some (new :: (trimSucc new.stop qs).1, (trimSucc new.stop qs).2) := by
  have kept : trimPred reach new = some new := by
    unfold trimPred
    rw [if_neg (by omega)]
  cases qs with
  | nil => simp only [insertFrom, place, kept, Option.map_some]
  | cons q rest =>
    have after := waiting q rfl
    simp only [insertFrom, if_pos (show new.start < q.start by omega), place, kept, Option.map_some]

/-- The queue after placing holds what `after` held, except where the new
piece, from `reach` on, takes its place. -/
theorem place_valueAt {reach lo : Nat} {new : Piece τ α} {after : List (Piece τ α)}
    (ordered : OrderedFrom lo after) {r : List (Piece τ α) × Nat}
    (placed : place reach new after = some r) (x : Nat) :
    valueAt r.1 x = ((if reach ≤ x then new.get x else none).or
      (if new.stop ≤ x then valueAt after x else none)) := by
  obtain ⟨new', trimmed, rfl⟩ := Option.map_eq_some_iff.mp placed
  rw [valueAt_cons, trimPred_get trimmed, trimSucc_valueAt _ lo after ordered, trimPred_stop trimmed]

theorem OrderedFrom.le_of_isSome {lo x : Nat} {qs : List (Piece τ α)}
    (ordered : OrderedFrom lo qs) (holds : (valueAt qs x).isSome) : lo ≤ x := by
  by_contra before
  rw [ordered.valueAt_eq_none (by omega)] at holds
  exact Bool.false_ne_true holds

/-- Every element the queue holds after placing was in `after` or in the new
piece at that position. -/
theorem place_sourced {reach lo : Nat} {new : Piece τ α} {after : List (Piece τ α)}
    (ordered : OrderedFrom lo after) {r : List (Piece τ α) × Nat}
    (placed : place reach new after = some r) {x : Nat} {v : α}
    (holds : valueAt r.1 x = some v) : valueAt after x = some v ∨ new.get x = some v := by
  rw [place_valueAt ordered placed] at holds
  split at holds
  · cases fresh : new.get x with
    | some w =>
      rw [fresh, Option.some_or] at holds
      exact Or.inr holds
    | none =>
      rw [fresh, Option.none_or] at holds
      split at holds
      · exact Or.inl holds
      · simp at holds
  · rw [Option.none_or] at holds
    split at holds
    · exact Or.inl holds
    · simp at holds

theorem insertFrom_sourced (new : Piece τ α) : ∀ (reach : Nat) (qs : List (Piece τ α)),
    OrderedFrom reach qs → ∀ r, insertFrom reach new qs = some r → ∀ x v,
    valueAt r.1 x = some v → valueAt qs x = some v ∨ new.get x = some v
  | reach, [], _, r, inserted, x, v, holds => place_sourced (orderedFrom_nil reach) inserted holds
  | reach, q :: rest, ordered, r, inserted, x, v, holds => by
    unfold insertFrom at inserted
    split at inserted
    · exact place_sourced ordered inserted holds
    · obtain ⟨r', walked, rfl⟩ := Option.map_eq_some_iff.mp inserted
      rw [valueAt_cons] at holds ⊢
      cases kept : q.get x with
      | some w =>
        rw [kept, Option.some_or] at holds
        exact Or.inl (by rw [Option.some_or, holds])
      | none =>
        rw [kept, Option.none_or] at holds
        rw [Option.none_or]
        exact insertFrom_sourced new q.stop rest ordered.2 r' walked x v holds

/-- Placing covers what `after` covered and the new piece from `reach` on. -/
theorem place_covers {reach : Nat} {new : Piece τ α} {after : List (Piece τ α)}
    (ordered : OrderedFrom reach after) (later : ∀ q ∈ after.head?, new.start < q.start)
    {r : List (Piece τ α) × Nat} (placed : place reach new after = some r) (x : Nat) :
    (valueAt r.1 x).isSome ↔ (valueAt after x).isSome ∨ (reach ≤ x ∧ (new.get x).isSome) := by
  rw [place_valueAt ordered placed]
  have inNew := new.get_isSome_iff x
  -- what `after` holds lies past the new piece's start
  have afterStart : (valueAt after x).isSome → new.start < x := by
    intro holds
    cases after with
    | nil => simp at holds
    | cons q rest =>
      have first := later q rfl
      have fromQ : OrderedFrom q.start (q :: rest) := ⟨Nat.le_refl _, ordered.2⟩
      have := fromQ.le_of_isSome holds
      omega
  by_cases low : reach ≤ x <;> by_cases high : new.stop ≤ x
  · have gone : new.get x = none := Piece.get_eq_none_of_le high
    simp [low, high, gone]
  · simp only [low, high, if_true, if_false, Option.or_none, true_and]
    constructor
    · exact Or.inr
    · rintro (holds | holds)
      · exact inNew.mpr ⟨by have := afterStart holds; omega, by omega⟩
      · exact holds
  · have early : valueAt after x = none := ordered.valueAt_eq_none (by omega)
    simp [low, high, early]
  · have early : valueAt after x = none := ordered.valueAt_eq_none (by omega)
    simp [low, high, early]

/-- Insertion covers what the queue covered and the new piece from `reach`
on. -/
theorem insertFrom_covers (new : Piece τ α) : ∀ (reach : Nat) (qs : List (Piece τ α)),
    OrderedFrom reach qs → ∀ r, insertFrom reach new qs = some r → ∀ x,
    ((valueAt r.1 x).isSome ↔ (valueAt qs x).isSome ∨ (reach ≤ x ∧ (new.get x).isSome))
  | reach, [], ordered, r, inserted, x => place_covers ordered (by simp) inserted x
  | reach, q :: rest, ordered, r, inserted, x => by
    unfold insertFrom at inserted
    split at inserted
    · rename_i before
      exact place_covers ordered (fun q' first => by cases first; exact before) inserted x
    · rename_i notBefore
      obtain ⟨r', walked, rfl⟩ := Option.map_eq_some_iff.mp inserted
      have ih := insertFrom_covers new q.stop rest ordered.2 r' walked x
      have inQ := q.get_isSome_iff x
      have inNew := new.get_isSome_iff x
      simp only [valueAt_cons, Option.isSome_or] at ih ⊢
      rw [Bool.or_eq_true, Bool.or_eq_true, ih]
      -- between `reach` and the end of `q`, `q` already holds what the new one does
      constructor
      · rintro (holds | holds | ⟨_, holds⟩)
        · exact Or.inl (Or.inl holds)
        · exact Or.inl (Or.inr holds)
        · exact Or.inr ⟨by have := ordered.1; unfold Piece.stop at *; omega, holds⟩
      · rintro ((holds | holds) | ⟨_, holds⟩)
        · exact Or.inl holds
        · exact Or.inr (Or.inl holds)
        · obtain ⟨newLo, -⟩ := inNew.mp holds
          by_cases past : q.stop ≤ x
          · exact Or.inr (Or.inr ⟨past, holds⟩)
          · exact Or.inl (inQ.mpr ⟨by omega, by omega⟩)

/-- A new piece is dropped only when the queue already covers it from
`reach` on. -/
theorem insertFrom_dropped (new : Piece τ α) : ∀ (reach : Nat) (qs : List (Piece τ α)),
    OrderedFrom reach qs → insertFrom reach new qs = none → ∀ x, reach ≤ x →
    (new.get x).isSome → (valueAt qs x).isSome
  | reach, qs, ordered, dropped, x, after, holds => by
    obtain ⟨newLo, newHi⟩ := (new.get_isSome_iff x).mp holds
    -- dropped at `place`: the new piece ends before `reach`
    have placeDropped : ∀ after : List (Piece τ α), place reach new after = none → False := by
      intro after none'
      simp only [place, Option.map_eq_none_iff, trimPred] at none'
      split at none'
      · split at none'
        · unfold Piece.stop at newHi
          omega
        · simp at none'
      · simp at none'
    cases qs with
    | nil => exact (placeDropped [] dropped).elim
    | cons q rest =>
      unfold insertFrom at dropped
      split at dropped
      · exact (placeDropped _ dropped).elim
      · rename_i notBefore
        have walked := Option.map_eq_none_iff.mp dropped
        rw [valueAt_cons, Option.isSome_or, Bool.or_eq_true]
        by_cases past : q.stop ≤ x
        · exact Or.inr (insertFrom_dropped new q.stop rest ordered.2 walked x past holds)
        · exact Or.inl ((q.get_isSome_iff x).mpr ⟨by omega, by omega⟩)

/-- Every piece after insertion is one of the queue's or the new one, each
possibly without a front part that leaves it non-empty. -/
theorem insertFrom_mem (new : Piece τ α) : ∀ (reach : Nat) (qs : List (Piece τ α)) r,
    insertFrom reach new qs = some r → ∀ s ∈ r.1,
    (s ∈ qs ∨ ∃ q ∈ qs, ∃ k < q.data.length, s = q.trimFront k) ∨
      (s = new ∨ ∃ k < new.data.length, s = new.trimFront k) := by
  -- both cases of the walk end in `place`
  have placeMem : ∀ (reach : Nat) (after : List (Piece τ α)) r,
      place reach new after = some r → ∀ s ∈ r.1,
      (s ∈ after ∨ ∃ q ∈ after, ∃ k < q.data.length, s = q.trimFront k) ∨
        (s = new ∨ ∃ k < new.data.length, s = new.trimFront k) := by
    intro reach after r placed s member
    obtain ⟨new', trimmed, rfl⟩ := Option.map_eq_some_iff.mp placed
    rcases List.mem_cons.mp member with rfl | later
    · exact Or.inr (trimPred_mem trimmed)
    · exact Or.inl (trimSucc_mem _ after s later)
  intro reach qs
  induction qs generalizing reach with
  | nil => exact placeMem reach []
  | cons q rest ih =>
    intro r inserted s member
    unfold insertFrom at inserted
    split at inserted
    · exact placeMem reach _ r inserted s member
    · obtain ⟨r', walked, rfl⟩ := Option.map_eq_some_iff.mp inserted
      rcases List.mem_cons.mp member with rfl | later
      · exact Or.inl (Or.inl List.mem_cons_self)
      · rcases ih q.stop r' walked s later with (kept | ⟨q', member', k, short, rfl⟩) | fresh
        · exact Or.inl (Or.inl (List.mem_cons_of_mem q kept))
        · exact Or.inl (Or.inr ⟨q', List.mem_cons_of_mem q member', k, short, rfl⟩)
        · exact Or.inr fresh

end Insert

section Run

variable {τ α : Type}

/-- The pieces that follow one another from `pos` on, as the loops that hand
data on take them. -/
def takeRun : Nat → List (Piece τ α) → List (Piece τ α) × List (Piece τ α)
  | _, [] => ([], [])
  | pos, s :: rest =>
    if s.start = pos then ((s :: (takeRun s.stop rest).1), (takeRun s.stop rest).2)
    else ([], s :: rest)

theorem takeRun_append : ∀ (pos : Nat) (qs : List (Piece τ α)),
    (takeRun pos qs).1 ++ (takeRun pos qs).2 = qs
  | _, [] => rfl
  | pos, s :: rest => by
    unfold takeRun
    split
    · rw [List.cons_append, takeRun_append s.stop rest]
    · rfl

/-- A queue that waits past `pos` hands nothing on. -/
theorem takeRun_of_waiting {pos : Nat} {qs : List (Piece τ α)} (waiting : ∀ s ∈ qs.head?, pos < s.start) :
    takeRun pos qs = ([], qs) := by
  cases qs with
  | nil => rfl
  | cons s rest =>
    have after := waiting s rfl
    unfold takeRun
    rw [if_neg (by omega)]

/-- The data of a run, one piece after another. -/
def runData (run : List (Piece τ α)) : List α := run.flatMap (·.data)

theorem runData_map {β : Type} (f : β → Piece τ α) (qs : List β) :
    runData (qs.map f) = qs.flatMap fun q => (f q).data :=
  List.flatMap_map f _ qs

/-- A run hands on, in order, what the queue holds from `pos` on, and leaves a
queue that starts past its end. -/
theorem takeRun_spec : ∀ (pos : Nat) (qs : List (Piece τ α)), OrderedFrom pos qs →
    (∀ j, valueAt qs (pos + j) =
      if j < (runData (takeRun pos qs).1).length then (runData (takeRun pos qs).1)[j]?
      else valueAt (takeRun pos qs).2 (pos + j)) ∧
    OrderedFrom (pos + (runData (takeRun pos qs).1).length) (takeRun pos qs).2 ∧
    ∀ s ∈ (takeRun pos qs).2.head?, pos + (runData (takeRun pos qs).1).length < s.start
  | pos, [], _ => by simp [takeRun, runData]
  | pos, s :: rest, ordered => by
    unfold takeRun
    split
    · rename_i here
      obtain ⟨values, restOrdered, restAfter⟩ := takeRun_spec s.stop rest ordered.2
      generalize takeRun s.stop rest = run at values restOrdered restAfter ⊢
      obtain ⟨taken, left⟩ := run
      have dataCons : runData (s :: taken) = s.data ++ runData taken := rfl
      have total : s.stop + (runData taken).length = pos + (runData (s :: taken)).length := by
        rw [dataCons, List.length_append]
        unfold Piece.stop
        omega
      refine ⟨fun j => ?_, total ▸ restOrdered, total ▸ restAfter⟩
      rw [valueAt_cons, dataCons, List.length_append]
      by_cases inS : j < s.data.length
      · rw [if_pos (by omega), List.getElem?_append_left inS]
        unfold Piece.get
        rw [if_pos (by omega), show pos + j - s.start = j by omega, List.getElem?_eq_getElem inS,
          Option.some_or]
      · -- past `s`, the rest of the run takes over
        obtain ⟨j', rfl⟩ : ∃ j', j = s.data.length + j' := ⟨j - s.data.length, by omega⟩
        have shift : pos + (s.data.length + j') = s.stop + j' := by
          unfold Piece.stop
          omega
        rw [shift, Piece.get_eq_none_of_le (by omega), Option.none_or, values j',
          List.getElem?_append_right (by omega), Nat.add_sub_cancel_left]
        by_cases within : j' < (runData taken).length
        · rw [if_pos within, if_pos (by omega)]
        · rw [if_neg within, if_neg (by omega)]
    · rename_i notHere
      refine ⟨fun j => by simp [runData], by simpa [runData] using ordered, ?_⟩
      intro s' first
      cases first
      simp only [runData, List.flatMap_nil, List.length_nil, Nat.add_zero]
      have := ordered.1
      omega

end Run

section Abut

variable {τ α : Type}

/-- Each piece starts before `bound` or right where the piece before it stops,
`reach` standing for the stop of the one before the first. A queue whose
positions are kept modulo a word stays unambiguous under this: a piece that
starts far ahead is joined to one that starts near. -/
def AbutFrom (bound : Nat) : Nat → List (Piece τ α) → Prop
  | _, [] => True
  | reach, s :: rest => (s.start < bound ∨ s.start = reach) ∧ AbutFrom bound s.stop rest

theorem AbutFrom.mono {bound bound' reach : Nat} {qs : List (Piece τ α)} (larger : bound ≤ bound')
    (abut : AbutFrom bound reach qs) : AbutFrom bound' reach qs := by
  induction qs generalizing reach with
  | nil => trivial
  | cons s rest ih =>
    obtain ⟨first, later⟩ := abut
    exact ⟨first.imp_left fun before => by omega, ih later⟩

theorem trimSucc_abut {bound : Nat} (stop : Nat) : ∀ (reach : Nat) (qs : List (Piece τ α)),
    AbutFrom bound reach qs → reach ≤ stop → AbutFrom bound stop (trimSucc stop qs).1
  | _, [], _, _ => trivial
  | reach, q :: rest, ⟨first, later⟩, below => by
    unfold trimSucc
    split
    · split
      · rename_i reaches inside
        -- the trimmed piece starts where the new one stops
        refine ⟨Or.inr (by simp only [Piece.trimFront]; omega), ?_⟩
        rwa [Piece.stop_trimFront (by omega)]
      · rename_i reaches covered
        exact trimSucc_abut stop q.stop rest later (by unfold Piece.stop; omega)
    · rename_i clear
      exact ⟨first.imp_right fun joined => by omega, later⟩

theorem place_abut {bound reach : Nat} {new : Piece τ α} {after : List (Piece τ α)}
    (abut : AbutFrom bound reach after) (near : new.start < bound) {r : List (Piece τ α) × Nat}
    (placed : place reach new after = some r) : AbutFrom bound reach r.1 := by
  obtain ⟨new', trimmed, rfl⟩ := Option.map_eq_some_iff.mp placed
  have after' := trimSucc_abut new'.stop reach after abut
    (by have := (trimPred_start trimmed).1; unfold Piece.stop; omega)
  -- the new piece keeps its start or, trimmed, starts at `reach`
  unfold trimPred at trimmed
  split at trimmed
  · split at trimmed
    · cases trimmed
    · rename_i reaches inside
      cases trimmed
      exact ⟨Or.inr (by simp only [Piece.trimFront]; omega), after'⟩
  · cases trimmed
    exact ⟨Or.inl near, after'⟩

theorem insertFrom_abut {bound : Nat} (new : Piece τ α) (near : new.start < bound) :
    ∀ (reach : Nat) (qs : List (Piece τ α)), AbutFrom bound reach qs →
    ∀ r, insertFrom reach new qs = some r → AbutFrom bound reach r.1
  | reach, [], abut, r, inserted => place_abut abut near inserted
  | reach, q :: rest, abut, r, inserted => by
    unfold insertFrom at inserted
    split at inserted
    · exact place_abut abut near inserted
    · obtain ⟨r', walked, rfl⟩ := Option.map_eq_some_iff.mp inserted
      exact ⟨abut.1, insertFrom_abut new near q.stop rest abut.2 r' walked⟩

/-- What a run leaves starts before `bound`, whatever is taken to precede it. -/
theorem takeRun_abut {bound : Nat} : ∀ (pos : Nat) (qs : List (Piece τ α)), AbutFrom bound pos qs →
    ∀ reach, AbutFrom bound reach (takeRun pos qs).2
  | _, [], _, _ => trivial
  | pos, s :: rest, ⟨first, later⟩, reach => by
    unfold takeRun
    split
    · exact takeRun_abut s.stop rest later reach
    · rename_i notHere
      exact ⟨Or.inl (first.resolve_right notHere), later⟩

end Abut

section Deliver

variable {τ α : Type}

/-- The queue at `pos` once `new` has arrived: `new` inserted, or the queue as
it was when it already holds all of `new`. -/
def withPiece (pos : Nat) (new : Piece τ α) (qs : List (Piece τ α)) : List (Piece τ α) :=
  ((insertFrom pos new qs).map Prod.fst).getD qs

/-- A receiver's step: `new` joins the queue at `pos` and the run from `pos` is
handed on. The queue left, and the data handed on. -/
def deliver (pos : Nat) (new : Piece τ α) (qs : List (Piece τ α)) : List (Piece τ α) × List α :=
  ((takeRun pos (withPiece pos new qs)).2, runData (takeRun pos (withPiece pos new qs)).1)

variable {pos : Nat} {new : Piece τ α} {qs : List (Piece τ α)}

theorem deliver_fst : (deliver pos new qs).1 = (takeRun pos (withPiece pos new qs)).2 := rfl

theorem deliver_snd : (deliver pos new qs).2 = runData (takeRun pos (withPiece pos new qs)).1 := rfl

theorem withPiece_ordered (ordered : OrderedFrom pos qs) : OrderedFrom pos (withPiece pos new qs) := by
  unfold withPiece
  cases inserted : insertFrom pos new qs with
  | none => exact ordered
  | some r => exact insertFrom_ordered new pos qs ordered r inserted

theorem withPiece_sourced (ordered : OrderedFrom pos qs) {x : Nat} {v : α}
    (holds : valueAt (withPiece pos new qs) x = some v) : valueAt qs x = some v ∨ new.get x = some v := by
  unfold withPiece at holds
  cases inserted : insertFrom pos new qs with
  | none =>
    rw [inserted] at holds
    exact Or.inl holds
  | some r =>
    rw [inserted] at holds
    exact insertFrom_sourced new pos qs ordered r inserted x v holds

theorem withPiece_covers (ordered : OrderedFrom pos qs) (after : pos ≤ new.start) {x : Nat}
    (held : (valueAt qs x).isSome ∨ (new.get x).isSome) : (valueAt (withPiece pos new qs) x).isSome := by
  have fromNew : (new.get x).isSome → pos ≤ x := fun holds => by
    have := ((new.get_isSome_iff x).mp holds).1
    omega
  unfold withPiece
  cases inserted : insertFrom pos new qs with
  | none =>
    rcases held with old | fresh
    · exact old
    · exact insertFrom_dropped new pos qs ordered inserted x (fromNew fresh) fresh
  | some r =>
    rcases held with old | fresh
    · exact (insertFrom_covers new pos qs ordered r inserted x).mpr (Or.inl old)
    · exact (insertFrom_covers new pos qs ordered r inserted x).mpr (Or.inr ⟨fromNew fresh, fresh⟩)

theorem withPiece_abut {bound : Nat} (abut : AbutFrom bound pos qs) (near : new.start < bound) :
    AbutFrom bound pos (withPiece pos new qs) := by
  unfold withPiece
  cases inserted : insertFrom pos new qs with
  | none => exact abut
  | some r => exact insertFrom_abut new near pos qs abut r inserted

theorem deliver_ordered (ordered : OrderedFrom pos qs) :
    OrderedFrom (pos + (deliver pos new qs).2.length) (deliver pos new qs).1 :=
  (takeRun_spec pos _ (withPiece_ordered ordered)).2.1

/-- What is left waits past what was handed on. -/
theorem deliver_waiting (ordered : OrderedFrom pos qs) :
    ∀ s ∈ (deliver pos new qs).1.head?, pos + (deliver pos new qs).2.length < s.start :=
  (takeRun_spec pos _ (withPiece_ordered ordered)).2.2

theorem deliver_sourced (ordered : OrderedFrom pos qs) {x : Nat} {v : α}
    (holds : valueAt (deliver pos new qs).1 x = some v) : valueAt qs x = some v ∨ new.get x = some v := by
  obtain ⟨values, left, -⟩ := takeRun_spec pos (withPiece pos new qs) (withPiece_ordered ordered)
  rw [deliver_fst] at holds
  have past := left.le_of_isSome (by rw [holds]; rfl)
  obtain ⟨j, rfl⟩ : ∃ j, x = pos + j := ⟨x - pos, by omega⟩
  apply withPiece_sourced ordered
  rw [values j, if_neg (by omega)]
  exact holds

/-- The data handed on is, byte by byte, what the queue held at `pos` on or
what `new` carried there. -/
theorem deliver_out (ordered : OrderedFrom pos qs) {j : Nat} {b : α}
    (byte : (deliver pos new qs).2[j]? = some b) : valueAt qs (pos + j) = some b ∨ new.get (pos + j) = some b := by
  obtain ⟨values, -, -⟩ := takeRun_spec pos (withPiece pos new qs) (withPiece_ordered ordered)
  rw [deliver_snd] at byte
  have inside := (List.getElem?_eq_some_iff.mp byte).1
  apply withPiece_sourced ordered
  rw [values j, if_pos inside]
  exact byte

/-- Nothing is lost: what the queue or `new` held is handed on or still held. -/
theorem deliver_covers (ordered : OrderedFrom pos qs) (after : pos ≤ new.start) {x : Nat}
    (held : (valueAt qs x).isSome ∨ (new.get x).isSome) :
    x < pos + (deliver pos new qs).2.length ∨ (valueAt (deliver pos new qs).1 x).isSome := by
  have covered := withPiece_covers ordered after held
  obtain ⟨values, -, -⟩ := takeRun_spec pos (withPiece pos new qs) (withPiece_ordered ordered)
  obtain ⟨j, rfl⟩ : ∃ j, x = pos + j := ⟨x - pos, by have := (withPiece_ordered ordered).le_of_isSome covered; omega⟩
  rw [deliver_snd, deliver_fst]
  by_cases inside : j < (runData (takeRun pos (withPiece pos new qs)).1).length
  · exact Or.inl (by omega)
  · rw [values j, if_neg inside] at covered
    exact Or.inr covered

/-- A piece at `pos`, before everything queued, is handed on at once. -/
theorem deliver_takes (here : new.start = pos) (waiting : ∀ s ∈ qs.head?, pos < s.start) :
    (takeRun pos (withPiece pos new qs)).1 ≠ [] := by
  unfold withPiece
  rw [insertFrom_at_reach here waiting, Option.map_some, Option.getD_some]
  unfold takeRun
  rw [if_pos here]
  exact List.cons_ne_nil _ _

theorem deliver_abut {bound : Nat} (abut : AbutFrom bound pos qs) (near : new.start < bound) (reach : Nat) :
    AbutFrom bound reach (deliver pos new qs).1 :=
  takeRun_abut pos _ (withPiece_abut abut near) reach

end Deliver

end Xnu
