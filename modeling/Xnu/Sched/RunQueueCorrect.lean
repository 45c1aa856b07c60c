import Xnu.Sched.RunQueue

namespace Xnu.Sched

/-! A run queue's summary fields (`bitmap`, `highq`, `count`, `urgency`) agree
with its levels after every sequence of operations from `run_queue_init`, so
`run_queue_dequeue` takes a thread of the highest priority queued and
`run_queue_enqueue` reports exactly when it raised `highq`. -/

/-- Changing one level below `n` changes a sum over the levels by the
difference at that level. -/
theorem sum_range_update {β M : Type} [AddCommGroup M] (g : Nat → β → M) (q : Nat → β) {pri n : Nat}
    (inside : pri < n) (l : β) :
    ∑ p ∈ Finset.range n, g p (Function.update q pri l p) =
      ∑ p ∈ Finset.range n, g p (q p) + (g pri l - g pri (q pri)) := by
  have member : pri ∈ Finset.range n := Finset.mem_range.mpr inside
  have others : ∑ p ∈ Finset.range n \ {pri}, g p (Function.update q pri l p) =
      ∑ p ∈ Finset.range n \ {pri}, g p (q p) := by
    refine Finset.sum_congr rfl fun p other => ?_
    have apart : p ≠ pri := Finset.notMem_singleton.mp (Finset.mem_sdiff.mp other).2
    rw [Function.update_of_ne apart]
  rw [Finset.sum_eq_add_sum_sdiff_singleton_of_mem member, Finset.sum_eq_add_sum_sdiff_singleton_of_mem member (fun p => g p (q p)),
    others, Function.update_self]
  abel

variable {θ : Type} (nrqs : Nat) (urgent : Nat → Bool)

/-- A run queue whose summary fields agree with its levels: a level's bit is
set exactly when it holds a thread, no level at or past `NRQS` holds one,
`highq` is what `bitmap_first` finds, and `count` and `urgency` count the
threads queued and those at urgent levels. -/
structure RunQueue.Ok (rq : RunQueue θ) : Prop where
  bitmap_iff : ∀ p, rq.bitmap p = true ↔ p < nrqs ∧ rq.queues p ≠ []
  above : ∀ p, nrqs ≤ p → rq.queues p = []
  highq_eq : rq.highq = bitmapFirst rq.bitmap nrqs
  count_eq : rq.count = ∑ p ∈ Finset.range nrqs, ((rq.queues p).length : Int)
  urgency_eq : rq.urgency = ∑ p ∈ Finset.range nrqs, if urgent p then ((rq.queues p).length : Int) else 0

variable {nrqs urgent}

theorem runQueueInit_ok : RunQueue.Ok nrqs urgent (runQueueInit : RunQueue θ) := by
  refine ⟨fun p => by simp [runQueueInit], fun _ _ => rfl, ?_, by simp [runQueueInit], by simp [runQueueInit]⟩
  rcases bitmapFirst_spec (fun _ => false) nrqs with ⟨none, _⟩ | ⟨h, _, _, set, _⟩
  · exact none.symm
  · cases set

/-- The invariant survives replacing level `pri` by `l`, when the level's bit,
`highq`, `count` and `urgency` follow. Every operation is such a replacement. -/
theorem RunQueue.Ok.setLevel {rq rq' : RunQueue θ} {pri : Nat} (ok : RunQueue.Ok nrqs urgent rq)
    (inside : pri < nrqs) (l : List θ) (queues : rq'.queues = Function.update rq.queues pri l)
    (bitmap : rq'.bitmap = Function.update rq.bitmap pri (!l.isEmpty))
    (highq : rq'.highq = bitmapFirst rq'.bitmap nrqs)
    (count : rq'.count = rq.count + ((l.length : Int) - (rq.queues pri).length))
    (urgency : rq'.urgency = rq.urgency + if urgent pri then (l.length : Int) - (rq.queues pri).length else 0) :
    RunQueue.Ok nrqs urgent rq' := by
  refine ⟨fun p => ?_, fun p past => ?_, highq, ?_, ?_⟩
  · rw [bitmap, queues]
    by_cases here : p = pri
    · subst here
      simp [inside]
    · rw [Function.update_of_ne here, Function.update_of_ne here]
      exact ok.bitmap_iff p
  · rw [queues, Function.update_of_ne (by omega)]
    exact ok.above p past
  · rw [count, queues, sum_range_update (fun _ (l : List θ) => (l.length : Int)) rq.queues inside, ← ok.count_eq]
  · rw [urgency, queues, sum_range_update (fun p (l : List θ) => if urgent p then (l.length : Int) else 0)
      rq.queues inside, ← ok.urgency_eq]
    split <;> simp

section Levels

variable {rq : RunQueue θ}

theorem RunQueue.Ok.queues_eq_nil (ok : RunQueue.Ok nrqs urgent rq) {p : Nat} (clear : rq.bitmap p = false) :
    rq.queues p = [] := by
  by_contra held
  by_cases inside : p < nrqs
  · have set := (ok.bitmap_iff p).mpr ⟨inside, held⟩
    rw [clear] at set
    cases set
  · exact held (ok.above p (by omega))

theorem RunQueue.Ok.lt_of_ne_nil (ok : RunQueue.Ok nrqs urgent rq) {p : Nat} (held : rq.queues p ≠ []) : p < nrqs := by
  by_contra past
  exact held (ok.above p (by omega))

/-- `highq` is the highest level holding a thread, or `NOPRI` when none does. -/
theorem RunQueue.Ok.highq_spec (ok : RunQueue.Ok nrqs urgent rq) :
    (rq.highq = noPri ∧ ∀ p, rq.queues p = []) ∨
      ∃ h : Nat, rq.highq = h ∧ h < nrqs ∧ rq.queues h ≠ [] ∧ ∀ p, h < p → rq.queues p = [] := by
  rw [ok.highq_eq]
  rcases bitmapFirst_spec rq.bitmap nrqs with ⟨none, clear⟩ | ⟨h, below, found, set, clear⟩
  · refine Or.inl ⟨none, fun p => ?_⟩
    by_cases inside : p < nrqs
    · exact ok.queues_eq_nil (clear p inside)
    · exact ok.above p (by omega)
  · refine Or.inr ⟨h, found, below, ((ok.bitmap_iff h).mp set).2, fun p above => ?_⟩
    by_cases inside : p < nrqs
    · exact ok.queues_eq_nil (clear p above inside)
    · exact ok.above p (by omega)

theorem RunQueue.Ok.le_highq (ok : RunQueue.Ok nrqs urgent rq) {p : Nat} (held : rq.queues p ≠ []) :
    (p : Int) ≤ rq.highq := by
  rcases ok.highq_spec with ⟨_, empty⟩ | ⟨h, highq, _, _, clear⟩
  · exact absurd (empty p) held
  · rw [highq]
    by_contra above
    exact held (clear p (by omega))

theorem RunQueue.Ok.count_nonneg (ok : RunQueue.Ok nrqs urgent rq) : 0 ≤ rq.count := by
  rw [ok.count_eq]
  exact Finset.sum_nonneg fun p _ => Int.natCast_nonneg _

/-- A run queue counts no thread exactly when every level is empty. -/
theorem RunQueue.Ok.count_eq_zero_iff (ok : RunQueue.Ok nrqs urgent rq) : rq.count = 0 ↔ ∀ p, rq.queues p = [] := by
  rw [ok.count_eq, Finset.sum_eq_zero_iff_of_nonneg fun p _ => Int.natCast_nonneg _]
  constructor
  · intro zero p
    by_cases inside : p < nrqs
    · exact List.eq_nil_of_length_eq_zero (by exact_mod_cast zero p (Finset.mem_range.mpr inside))
    · exact ok.above p (by omega)
  · intro empty p _
    rw [empty p]
    rfl

/-- A run queue counting a thread has one at level `highq`. -/
theorem RunQueue.Ok.highq_held (ok : RunQueue.Ok nrqs urgent rq) (held : rq.count ≠ 0) :
    ∃ h : Nat, rq.highq = h ∧ rq.queues h ≠ [] := by
  rcases ok.highq_spec with ⟨_, empty⟩ | ⟨h, highq, _, nonempty, _⟩
  · exact absurd (ok.count_eq_zero_iff.mpr empty) held
  · exact ⟨h, highq, nonempty⟩

/-- An empty run queue has `highq` at `NOPRI`. -/
theorem RunQueue.Ok.highq_of_count_eq_zero (ok : RunQueue.Ok nrqs urgent rq) (empty : rq.count = 0) :
    rq.highq = noPri := by
  rcases ok.highq_spec with ⟨none, _⟩ | ⟨h, _, _, held, _⟩
  · exact none
  · exact absurd (ok.count_eq_zero_iff.mp empty h) held

end Levels

section Operations

variable {rq : RunQueue θ}

theorem RunQueue.Ok.enqueue (ok : RunQueue.Ok nrqs urgent rq) (thread : θ) {pri : Nat} (tailq : Bool)
    (inside : pri < nrqs) : RunQueue.Ok nrqs urgent (runQueueEnqueue urgent rq thread pri tailq).1 := by
  unfold runQueueEnqueue
  dsimp only
  by_cases empty : (rq.queues pri).isEmpty
  · -- the level was empty: its bit is set and `highq` may rise to it
    rw [if_pos empty]
    have wasEmpty : rq.queues pri = [] := List.isEmpty_iff.mp empty
    have raised : bitmapFirst (Function.update rq.bitmap pri true) nrqs = max (pri : Int) rq.highq := by
      rw [bitmapFirst_set rq.bitmap inside, ← ok.highq_eq]
    split
    · refine ok.setLevel inside [thread] (by simp) (by simp) ?_ (by simp [wasEmpty]) (by simp [wasEmpty])
      simp only [enterLevel_highq, enterLevel_bitmap]
      rw [raised]
      omega
    · refine ok.setLevel inside [thread] (by simp) (by simp) ?_ (by simp [wasEmpty]) (by simp [wasEmpty])
      simp only [enterLevel_highq, enterLevel_bitmap]
      rw [raised]
      omega
  · -- the level already held threads: its bit and `highq` stay
    rw [if_neg empty]
    have held : rq.queues pri ≠ [] := fun nil => empty (List.isEmpty_iff.mpr nil)
    have set : rq.bitmap pri = true := (ok.bitmap_iff pri).mpr ⟨inside, held⟩
    refine ok.setLevel inside (if tailq then rq.queues pri ++ [thread] else thread :: rq.queues pri) (by simp) ?_
      (by simpa using ok.highq_eq) ?_ ?_
    · cases tailq <;> simp [set]
    · cases tailq <;> simp
    · cases tailq <;> simp

/-- `run_queue_enqueue` returns `TRUE` exactly when the thread's level is
above `highq`. -/
theorem RunQueue.Ok.enqueue_raises (ok : RunQueue.Ok nrqs urgent rq) (thread : θ) {pri : Nat} (tailq : Bool) :
    (runQueueEnqueue urgent rq thread pri tailq).2 = true ↔ (pri : Int) > rq.highq := by
  unfold runQueueEnqueue
  dsimp only
  by_cases empty : (rq.queues pri).isEmpty
  · rw [if_pos empty]
    split <;> simp [*]
  · rw [if_neg empty]
    have atMost := ok.le_highq fun nil => empty (List.isEmpty_iff.mpr nil)
    simp only [Bool.false_eq_true, false_iff]
    omega

/-- A thread leaving level `pri` keeps the invariant. -/
theorem RunQueue.Ok.leaveLevel (ok : RunQueue.Ok nrqs urgent rq) {pri : Nat} (inside : pri < nrqs) (rest : List θ)
    (shrink : rest.length + 1 = (rq.queues pri).length) :
    RunQueue.Ok nrqs urgent (leaveLevel nrqs urgent rq pri rest) := by
  have held : rq.queues pri ≠ [] := by
    intro empty
    rw [empty] at shrink
    simp at shrink
  have set : rq.bitmap pri = true := (ok.bitmap_iff pri).mpr ⟨inside, held⟩
  refine ok.setLevel inside rest (by simp) ?_ ?_ ?_ ?_
  · by_cases emptied : rest.isEmpty
    · simp [emptied]
    · simp [emptied, set]
  · by_cases emptied : rest.isEmpty
    · simp [emptied]
    · simpa [emptied] using ok.highq_eq
  · simp only [leaveLevel_count]
    omega
  · simp only [leaveLevel_urgency]
    split <;> omega

/-- `run_queue_dequeue` on a queue holding a thread takes one from level
`highq`, which no queued thread's level exceeds, and keeps the invariant. -/
theorem RunQueue.Ok.dequeue (ok : RunQueue.Ok nrqs urgent rq) (headq : Bool) (nonempty : ∃ p, rq.queues p ≠ []) :
    RunQueue.Ok nrqs urgent (runQueueDequeue nrqs urgent rq headq).1 ∧
      ∃ t h, (runQueueDequeue nrqs urgent rq headq).2 = some t ∧ t ∈ rq.queues h ∧
        ∀ p, rq.queues p ≠ [] → p ≤ h := by
  rcases ok.highq_spec with ⟨_, empty⟩ | ⟨h, highq, inside, held, clear⟩
  · obtain ⟨p, held⟩ := nonempty
    exact absurd (empty p) held
  have top : ∀ p, rq.queues p ≠ [] → p ≤ h := fun p held' => by
    by_contra above
    exact held' (clear p (by omega))
  have level : rq.highq.toNat = h := by omega
  obtain ⟨first, rest, split⟩ := List.exists_cons_of_ne_nil held
  unfold runQueueDequeue
  dsimp only
  rw [level, split]
  cases headq with
  | true =>
    refine ⟨ok.leaveLevel inside rest (by rw [split]; rfl), first, h, rfl, by rw [split]; exact List.mem_cons_self, top⟩
  | false =>
    rw [if_neg Bool.false_ne_true]
    refine ⟨ok.leaveLevel inside (first :: rest).dropLast (by rw [split, List.length_dropLast]; simp),
      (first :: rest).getLast (List.cons_ne_nil first rest), h, List.getLast?_eq_some_getLast (List.cons_ne_nil first rest),
      by rw [split]; exact List.getLast_mem _, top⟩

theorem RunQueue.Ok.remove [DecidableEq θ] (ok : RunQueue.Ok nrqs urgent rq) {thread : θ} {pri : Nat}
    (member : thread ∈ rq.queues pri) : RunQueue.Ok nrqs urgent (runQueueRemove nrqs urgent rq thread pri) := by
  have held : rq.queues pri ≠ [] := List.ne_nil_of_mem member
  have positive := List.length_pos_of_mem member
  exact ok.leaveLevel (ok.lt_of_ne_nil held) _ (by rw [List.length_erase_of_mem member]; omega)

end Operations

section Membership

variable {rq : RunQueue θ} {thread t : θ} {pri p : Nat}

/-- `run_queue_enqueue` puts the thread at its level and moves no other. -/
theorem mem_runQueueEnqueue (tailq : Bool) :
    t ∈ (runQueueEnqueue urgent rq thread pri tailq).1.queues p ↔ (p = pri ∧ t = thread) ∨ t ∈ rq.queues p := by
  unfold runQueueEnqueue
  dsimp only
  by_cases here : p = pri
  · subst here
    split_ifs with empty <;> simp_all [List.isEmpty_iff, or_comm]
  · split_ifs <;> simp [here]

theorem nodup_runQueueEnqueue (tailq : Bool) (nodup : ∀ p, (rq.queues p).Nodup) (fresh : thread ∉ rq.queues pri) :
    ∀ p, ((runQueueEnqueue urgent rq thread pri tailq).1.queues p).Nodup := by
  intro p
  unfold runQueueEnqueue
  dsimp only
  by_cases here : p = pri
  · subst here
    have apart : ∀ a ∈ rq.queues p, a ≠ thread := fun a member same => fresh (same ▸ member)
    split_ifs <;> simp_all [List.nodup_append]
  · split_ifs <;> simp [here, nodup p]

/-- `run_queue_remove` takes the thread off its level and moves no other. -/
theorem mem_runQueueRemove [DecidableEq θ] (nodup : (rq.queues pri).Nodup) :
    t ∈ (runQueueRemove nrqs urgent rq thread pri).queues p ↔ t ∈ rq.queues p ∧ ¬(p = pri ∧ t = thread) := by
  unfold runQueueRemove
  by_cases here : p = pri
  · subst here
    simp [nodup.mem_erase_iff, and_comm]
  · simp [here]

theorem nodup_runQueueRemove [DecidableEq θ] (nodup : ∀ p, (rq.queues p).Nodup) :
    ∀ p, ((runQueueRemove nrqs urgent rq thread pri).queues p).Nodup := by
  intro p
  unfold runQueueRemove
  by_cases here : p = pri
  · subst here
    simpa using (nodup p).erase thread
  · simp [here, nodup p]

/-- `run_queue_dequeue(rq, SCHED_HEADQ)` takes the head of level `highq`: it is
`run_queue_remove` of that thread. -/
theorem runQueueDequeue_headq [DecidableEq θ] (taken : (runQueueDequeue nrqs urgent rq true).2 = some t) :
    t ∈ rq.queues rq.highq.toNat ∧
      (runQueueDequeue nrqs urgent rq true).1 = runQueueRemove nrqs urgent rq t rq.highq.toNat := by
  obtain ⟨rest, head⟩ := List.head?_eq_some_iff.mp taken
  refine ⟨by rw [head]; exact List.mem_cons_self, ?_⟩
  simp only [runQueueDequeue, runQueueRemove, if_true, head, List.tail_cons, List.erase_cons_head]

end Membership

section Counting

variable {rq : RunQueue θ}

theorem RunQueue.Ok.queued_finite (ok : RunQueue.Ok nrqs urgent rq) : {t | ∃ p, t ∈ rq.queues p}.Finite := by
  classical
  refine (Set.Finite.biUnion (Finset.range nrqs).finite_toSet fun p _ => (rq.queues p).finite_toSet).subset ?_
  rintro t ⟨p, member⟩
  have inside : p < nrqs := ok.lt_of_ne_nil (List.ne_nil_of_mem member)
  exact Set.mem_biUnion (Finset.mem_coe.mpr (Finset.mem_range.mpr inside)) member

/-- A run queue that holds each thread once, at one level, counts its threads. -/
theorem RunQueue.Ok.count_eq_ncard (ok : RunQueue.Ok nrqs urgent rq) (nodup : ∀ p, (rq.queues p).Nodup)
    (single : ∀ t p p', t ∈ rq.queues p → t ∈ rq.queues p' → p = p') :
    rq.count = ({t | ∃ p, t ∈ rq.queues p}.ncard : Int) := by
  classical
  -- no thread sits at two levels, so the levels' threads make a disjoint union
  have disjoint : (Finset.range nrqs : Set Nat).PairwiseDisjoint fun p => (rq.queues p).toFinset := by
    intro p _ q _ differ
    rw [Function.onFun, Finset.disjoint_left]
    intro t atP atQ
    exact differ (single t p q (List.mem_toFinset.mp atP) (List.mem_toFinset.mp atQ))
  have asSet : {t | ∃ p, t ∈ rq.queues p} = ↑((Finset.range nrqs).biUnion fun p => (rq.queues p).toFinset) := by
    ext t
    simp only [Set.mem_ofPred_eq, Finset.coe_biUnion, Finset.coe_range, Set.mem_iUnion, Set.mem_Iio,
      List.coe_toFinset, exists_prop]
    constructor
    · rintro ⟨p, member⟩
      exact ⟨p, ok.lt_of_ne_nil (List.ne_nil_of_mem member), member⟩
    · rintro ⟨p, -, member⟩
      exact ⟨p, member⟩
  rw [asSet, Set.ncard_coe_finset, Finset.card_biUnion disjoint, ok.count_eq]
  push_cast
  exact Finset.sum_congr rfl fun p _ => by rw [List.toFinset_card_of_nodup (nodup p)]

/-- `urgency` is positive exactly when a thread sits at an urgent level. -/
theorem RunQueue.Ok.urgency_pos_iff (ok : RunQueue.Ok nrqs urgent rq) :
    0 < rq.urgency ↔ ∃ p t, t ∈ rq.queues p ∧ urgent p = true := by
  rw [ok.urgency_eq, Finset.sum_pos_iff_of_nonneg fun p _ => by split <;> omega]
  constructor
  · rintro ⟨p, -, positive⟩
    split at positive
    · rename_i isUrgent
      obtain ⟨t, member⟩ := List.exists_mem_of_length_pos (by exact_mod_cast positive)
      exact ⟨p, t, member, isUrgent⟩
    · exact absurd positive (lt_irrefl 0)
  · rintro ⟨p, t, member, isUrgent⟩
    refine ⟨p, Finset.mem_range.mpr (ok.lt_of_ne_nil (List.ne_nil_of_mem member)), ?_⟩
    rw [if_pos isUrgent]
    exact_mod_cast List.length_pos_of_mem member

end Counting

/-- The run queues reached from `run_queue_init` by `run_queue_enqueue` of a
thread at a level below `NRQS`, `run_queue_dequeue` on a queue holding a
thread, and `run_queue_remove` of a thread queued at the level given. -/
inductive RunQueueReach [DecidableEq θ] (nrqs : Nat) (urgent : Nat → Bool) : RunQueue θ → Prop
  | init : RunQueueReach nrqs urgent runQueueInit
  | enqueue {rq : RunQueue θ} (thread : θ) (pri : Nat) (tailq : Bool) :
      RunQueueReach nrqs urgent rq → pri < nrqs → RunQueueReach nrqs urgent (runQueueEnqueue urgent rq thread pri tailq).1
  | dequeue {rq : RunQueue θ} (headq : Bool) :
      RunQueueReach nrqs urgent rq → (∃ p, rq.queues p ≠ []) →
      RunQueueReach nrqs urgent (runQueueDequeue nrqs urgent rq headq).1
  | remove {rq : RunQueue θ} (thread : θ) (pri : Nat) :
      RunQueueReach nrqs urgent rq → thread ∈ rq.queues pri →
      RunQueueReach nrqs urgent (runQueueRemove nrqs urgent rq thread pri)

theorem RunQueueReach.ok [DecidableEq θ] {rq : RunQueue θ} (reach : RunQueueReach nrqs urgent rq) :
    RunQueue.Ok nrqs urgent rq := by
  induction reach with
  | init => exact runQueueInit_ok
  | enqueue thread pri tailq _ inside ih => exact ih.enqueue thread tailq inside
  | dequeue headq _ nonempty ih => exact (ih.dequeue headq nonempty).1
  | remove thread pri _ member ih => exact ih.remove member

/-- On every run queue reached from `run_queue_init`: a level's bit is set
exactly when the level holds a thread; `highq` is the highest such level, or
`NOPRI`; `count` and `urgency` count the threads queued and those at urgent
levels, so `urgency` is never negative; `run_queue_dequeue` takes a thread from
a level no queued thread's level exceeds; and `run_queue_enqueue` returns
`TRUE` exactly when the thread's level is above `highq`. -/
theorem runQueue_consistent [DecidableEq θ] {rq : RunQueue θ} (reach : RunQueueReach nrqs urgent rq) :
    (∀ p, rq.bitmap p = true ↔ p < nrqs ∧ rq.queues p ≠ []) ∧
      ((rq.highq = noPri ∧ ∀ p, rq.queues p = []) ∨
        ∃ h : Nat, rq.highq = h ∧ h < nrqs ∧ rq.queues h ≠ [] ∧ ∀ p, h < p → rq.queues p = []) ∧
      rq.count = ∑ p ∈ Finset.range nrqs, ((rq.queues p).length : Int) ∧
      rq.urgency = ∑ p ∈ Finset.range nrqs, (if urgent p then ((rq.queues p).length : Int) else 0) ∧
      0 ≤ rq.urgency ∧
      (∀ headq, (∃ p, rq.queues p ≠ []) → ∃ t h, (runQueueDequeue nrqs urgent rq headq).2 = some t ∧
        t ∈ rq.queues h ∧ ∀ p, rq.queues p ≠ [] → p ≤ h) ∧
      (∀ thread pri tailq, (runQueueEnqueue urgent rq thread pri tailq).2 = true ↔ (pri : Int) > rq.highq) := by
  have ok := reach.ok
  have nonneg : 0 ≤ rq.urgency := by
    rw [ok.urgency_eq]
    exact Finset.sum_nonneg fun p _ => by split <;> omega
  exact ⟨ok.bitmap_iff, ok.highq_spec, ok.count_eq, ok.urgency_eq, nonneg,
    fun headq nonempty => (ok.dequeue headq nonempty).2, fun thread _ tailq => ok.enqueue_raises thread tailq⟩

theorem runQueue_consistent_two :
    let urgent : Nat → Bool := fun p => decide (2 ≤ p)
    let rq := (runQueueEnqueue urgent (runQueueEnqueue urgent (runQueueInit : RunQueue Nat) 7 1 true).1 8 3 true).1
    (runQueueDequeue 4 urgent rq true).2 = some 8 ∧
      ∃ t h, (runQueueDequeue 4 urgent rq true).2 = some t ∧ t ∈ rq.queues h ∧ ∀ p, rq.queues p ≠ [] → p ≤ h := by
  intro urgent rq
  have reach : RunQueueReach 4 urgent rq := .enqueue 8 3 true (.enqueue 7 1 true .init (by decide)) (by decide)
  exact ⟨by decide, (runQueue_consistent reach).2.2.2.2.2.1 true ⟨3, by decide⟩⟩

end Xnu.Sched
