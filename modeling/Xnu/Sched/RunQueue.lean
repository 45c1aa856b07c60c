import Mathlib

namespace Xnu.Sched

/-! The run queue of `osfmk/kern/sched_prim.c`: `run_queue_init`,
`run_queue_enqueue`, `run_queue_dequeue` and `run_queue_remove`, over `NRQS`
priority levels and the scheduler's `priority_is_urgent`. A
`circle_queue_head_t` is the list of its threads from head to tail, and the
bitmap is read one bit at a time. The `runq_stats` bookkeeping changes nothing
the queue reads and is left out. -/

/-- `NOPRI`. -/
def noPri : Int := -1

/-- `struct run_queue`. -/
structure RunQueue (θ : Type) where
  highq : Int
  bitmap : Nat → Bool
  count : Int
  urgency : Int
  queues : Nat → List θ

variable {θ : Type}

/-- `bitmap_first(map, nbits)`: the highest bit set below `nbits`, or `-1`
when there is none. -/
def bitmapFirst (map : Nat → Bool) : Nat → Int
  | 0 => -1
  | n + 1 => if map n then n else bitmapFirst map n

/-- `run_queue_init`. -/
def runQueueInit : RunQueue θ := ⟨noPri, fun _ => false, 0, 0, fun _ => []⟩

/-- The end of `run_queue_enqueue`: one thread more, and one urgent thread
more when its level is urgent. -/
def enterLevel (urgent : Nat → Bool) (pri : Nat) (rq : RunQueue θ) : RunQueue θ :=
  let rq := if urgent pri then { rq with urgency := rq.urgency + 1 } else rq
  { rq with count := rq.count + 1 }

/-- `run_queue_enqueue(rq, thread, options)` for a thread at `sched_pri = pri`;
`tailq` is `SCHED_TAILQ`. The flag is `TRUE` when the thread raised `highq`. -/
def runQueueEnqueue (urgent : Nat → Bool) (rq : RunQueue θ) (thread : θ) (pri : Nat) (tailq : Bool) :
    RunQueue θ × Bool :=
  let queue := rq.queues pri
  if queue.isEmpty then
    let rq' := { rq with
      queues := Function.update rq.queues pri [thread]
      bitmap := Function.update rq.bitmap pri true }
    if (pri : Int) > rq.highq then (enterLevel urgent pri { rq' with highq := pri }, true)
    else (enterLevel urgent pri rq', false)
  else
    (enterLevel urgent pri
      { rq with queues := Function.update rq.queues pri (if tailq then queue ++ [thread] else thread :: queue) },
      false)

/-- What `run_queue_dequeue` and `run_queue_remove` do once a thread has left
level `pri`, `rest` being what is left there: one thread fewer, one urgent
thread fewer when the level is urgent, and an emptied level's bit cleared with
`highq` found again from the bitmap. -/
def leaveLevel (nrqs : Nat) (urgent : Nat → Bool) (rq : RunQueue θ) (pri : Nat) (rest : List θ) : RunQueue θ :=
  let rq := { rq with queues := Function.update rq.queues pri rest, count := rq.count - 1 }
  let rq := if urgent pri then { rq with urgency := rq.urgency - 1 } else rq
  if rest.isEmpty then
    let bitmap := Function.update rq.bitmap pri false
    { rq with bitmap := bitmap, highq := bitmapFirst bitmap nrqs }
  else rq

/-- `run_queue_dequeue(rq, options)`: the head (`SCHED_HEADQ`) or the tail of
level `highq`, and the thread taken. -/
def runQueueDequeue (nrqs : Nat) (urgent : Nat → Bool) (rq : RunQueue θ) (headq : Bool) :
    RunQueue θ × Option θ :=
  let queue := rq.queues rq.highq.toNat
  if headq then (leaveLevel nrqs urgent rq rq.highq.toNat queue.tail, queue.head?)
  else (leaveLevel nrqs urgent rq rq.highq.toNat queue.dropLast, queue.getLast?)

/-- `run_queue_remove(rq, thread)` for a thread at `sched_pri = pri`. -/
def runQueueRemove [DecidableEq θ] (nrqs : Nat) (urgent : Nat → Bool) (rq : RunQueue θ) (thread : θ) (pri : Nat) :
    RunQueue θ :=
  leaveLevel nrqs urgent rq pri ((rq.queues pri).erase thread)

section Fields

variable {nrqs : Nat} {urgent : Nat → Bool} {rq : RunQueue θ} {pri : Nat} {rest : List θ}

@[simp] theorem enterLevel_queues : (enterLevel urgent pri rq).queues = rq.queues := by
  unfold enterLevel
  split <;> rfl

@[simp] theorem enterLevel_bitmap : (enterLevel urgent pri rq).bitmap = rq.bitmap := by
  unfold enterLevel
  split <;> rfl

@[simp] theorem enterLevel_highq : (enterLevel urgent pri rq).highq = rq.highq := by
  unfold enterLevel
  split <;> rfl

@[simp] theorem enterLevel_count : (enterLevel urgent pri rq).count = rq.count + 1 := by
  unfold enterLevel
  split <;> rfl

@[simp] theorem enterLevel_urgency :
    (enterLevel urgent pri rq).urgency = rq.urgency + if urgent pri then 1 else 0 := by
  unfold enterLevel
  split <;> simp [*]

@[simp] theorem leaveLevel_queues : (leaveLevel nrqs urgent rq pri rest).queues = Function.update rq.queues pri rest := by
  unfold leaveLevel
  split <;> split <;> rfl

@[simp] theorem leaveLevel_bitmap :
    (leaveLevel nrqs urgent rq pri rest).bitmap =
      if rest.isEmpty then Function.update rq.bitmap pri false else rq.bitmap := by
  unfold leaveLevel
  split <;> split <;> simp [*]

@[simp] theorem leaveLevel_highq :
    (leaveLevel nrqs urgent rq pri rest).highq =
      if rest.isEmpty then bitmapFirst (Function.update rq.bitmap pri false) nrqs else rq.highq := by
  unfold leaveLevel
  split <;> split <;> simp [*]

@[simp] theorem leaveLevel_count : (leaveLevel nrqs urgent rq pri rest).count = rq.count - 1 := by
  unfold leaveLevel
  split <;> split <;> rfl

@[simp] theorem leaveLevel_urgency :
    (leaveLevel nrqs urgent rq pri rest).urgency = rq.urgency - if urgent pri then 1 else 0 := by
  unfold leaveLevel
  split <;> split <;> simp [*]

@[simp] theorem runQueueEnqueue_count {thread : θ} {tailq : Bool} :
    (runQueueEnqueue urgent rq thread pri tailq).1.count = rq.count + 1 := by
  unfold runQueueEnqueue
  dsimp only
  split_ifs <;> simp

@[simp] theorem runQueueRemove_count [DecidableEq θ] {thread : θ} :
    (runQueueRemove nrqs urgent rq thread pri).count = rq.count - 1 :=
  leaveLevel_count

end Fields

section BitmapFirst

/-- `bitmap_first` finds the highest set bit below `nbits`, or reports that
there is none. -/
theorem bitmapFirst_spec (map : Nat → Bool) (n : Nat) :
    (bitmapFirst map n = -1 ∧ ∀ p < n, map p = false) ∨
      ∃ h < n, bitmapFirst map n = h ∧ map h = true ∧ ∀ p, h < p → p < n → map p = false := by
  induction n with
  | zero => exact Or.inl ⟨rfl, fun p below => absurd below (Nat.not_lt_zero p)⟩
  | succ n ih =>
    unfold bitmapFirst
    by_cases top : map n = true
    · rw [if_pos top]
      exact Or.inr ⟨n, Nat.lt_succ_self n, rfl, top, fun p above below => absurd below (by omega)⟩
    · rw [if_neg top]
      have topClear : map n = false := by simpa using top
      rcases ih with ⟨none, clear⟩ | ⟨h, below, found, set, clear⟩
      · refine Or.inl ⟨none, fun p below => ?_⟩
        rcases Nat.lt_succ_iff_lt_or_eq.mp below with lower | rfl
        · exact clear p lower
        · exact topClear
      · refine Or.inr ⟨h, by omega, found, set, fun p above below' => ?_⟩
        rcases Nat.lt_succ_iff_lt_or_eq.mp below' with lower | rfl
        · exact clear p above lower
        · exact topClear

theorem bitmapFirst_lt (map : Nat → Bool) (n : Nat) : bitmapFirst map n < n := by
  rcases bitmapFirst_spec map n with ⟨none, _⟩ | ⟨h, below, found, _⟩
  · omega
  · omega

/-- Setting a bit below `nbits` raises `bitmap_first` to it at least. -/
theorem bitmapFirst_set (map : Nat → Bool) {n pri : Nat} (inside : pri < n) :
    bitmapFirst (Function.update map pri true) n = max (pri : Int) (bitmapFirst map n) := by
  induction n with
  | zero => exact absurd inside (Nat.not_lt_zero pri)
  | succ n ih =>
    unfold bitmapFirst
    by_cases top : pri = n
    · subst top
      have below := bitmapFirst_lt map pri
      rw [Function.update_self, if_pos rfl]
      split <;> omega
    · have lower : pri < n := by omega
      rw [Function.update_of_ne (Ne.symm top), ih lower]
      have below := bitmapFirst_lt map n
      split <;> omega

end BitmapFirst

end Xnu.Sched
