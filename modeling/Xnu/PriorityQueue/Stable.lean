import Xnu.PriorityQueue.Run

namespace Xnu.PriorityQueue

/-! The stable scheduler queues, `priority_queue_sched_stable_max`: keys set by
`priority_queue_entry_set_sched_pri` and compared by
`pqueue_entry_traits<_, priority_queue_entry_stable_t>::compare`. The
comparator agrees with the scheduler's documented order, so a queue empties in
that order. -/

/-- `priority_queue_entry_sched_modifier_t`. -/
inductive SchedModifier where
  | none
  | preempted
  deriving DecidableEq, Repr

/-- `PRIORITY_QUEUE_ENTRY_NONE` and `PRIORITY_QUEUE_ENTRY_PREEMPTED`. -/
def SchedModifier.toNat : SchedModifier → Nat
  | .none => 0
  | .preempted => 1

/-- `priority_queue_entry_set_sched_pri(pq, elt, pri, modifier)`:
`(pri << 8) + modifier` cast to `priority_queue_key_t`, stored in the signed
16-bit `key` bit-field of the entry. -/
def prioritySchedKey (pri modifier : Nat) : Int16 := ((pri <<< 8) + modifier).toUInt16.toInt16

/-- Below priority 128 the key is not negative. -/
theorem prioritySchedKey_toInt {pri modifier : Nat} (low : pri ≤ 127) (flag : modifier ≤ 1) :
    (prioritySchedKey pri modifier).toInt = pri * 256 + modifier := by
  unfold prioritySchedKey
  rw [Nat.shiftLeft_eq, Int16.toInt, UInt16.toBitVec_toInt16]
  simp only [BitVec.toInt]
  simp
  rw [if_pos (by omega)]
  omega

/-- `key & PRIORITY_QUEUE_ENTRY_PREEMPTED` is the modifier. -/
theorem prioritySchedKey_preempted {pri modifier : Nat} (flag : modifier ≤ 1) :
    prioritySchedKey pri modifier &&& priorityQueueEntryPreempted ≠ 0 ↔ modifier = 1 := by
  rw [ne_eq, ← Int16.toBitVec_inj]
  simp only [priorityQueueEntryPreempted, Int16.toBitVec_and, prioritySchedKey, UInt16.toBitVec_toInt16,
    Nat.shiftLeft_eq]
  rw [← BitVec.toNat_inj]
  simp [Nat.and_one_is_mod]
  omega

/-- The scheduler's order of stable entries: higher priority first, at equal
priority a preempted entry first, then among preempted entries the younger
stamp and among the others the older one. -/
def schedPolicyRank (pri : Nat → Fin 128) (modifier : Nat → SchedModifier) (stamp : Nat → UInt64)
    (e : Nat) : Nat ×ₗ Nat ×ₗ Int :=
  toLex ((pri e).val, toLex ((modifier e).toNat,
    if modifier e = .preempted then ((stamp e).toNat : Int) else -((stamp e).toNat : Int)))

section Policy

variable (pri : Nat → Fin 128) (modifier : Nat → SchedModifier) (stamp : Nat → UInt64)

/-- The keys `priority_queue_entry_set_sched_pri` gives the entries. -/
def schedKeys (e : Nat) : Int16 := prioritySchedKey (pri e).val (modifier e).toNat

theorem schedKeys_toInt (e : Nat) : (schedKeys pri modifier e).toInt = (pri e).val * 256 + (modifier e).toNat := by
  have low : (pri e).val ≤ 127 := Nat.le_of_lt_succ (pri e).isLt
  have flag : (modifier e).toNat ≤ 1 := by cases modifier e <;> simp [SchedModifier.toNat]
  exact prioritySchedKey_toInt low flag

theorem schedKeys_preempted (e : Nat) :
    schedKeys pri modifier e &&& priorityQueueEntryPreempted ≠ 0 ↔ modifier e = .preempted := by
  have flag : (modifier e).toNat ≤ 1 := by cases modifier e <;> simp [SchedModifier.toNat]
  rw [schedKeys, prioritySchedKey_preempted flag]
  cases modifier e <;> simp [SchedModifier.toNat]

/-- The comparator's rank, key then signed stamp, orders entries as the
policy does. -/
theorem stableRank_lt_iff (a b : Nat) :
    stableRank (schedKeys pri modifier) stamp a < stableRank (schedKeys pri modifier) stamp b ↔
      schedPolicyRank pri modifier stamp a < schedPolicyRank pri modifier stamp b := by
  have keyA := schedKeys_toInt pri modifier a
  have keyB := schedKeys_toInt pri modifier b
  have flagA : (modifier a).toNat ≤ 1 := by cases modifier a <;> simp [SchedModifier.toNat]
  have flagB : (modifier b).toNat ≤ 1 := by cases modifier b <;> simp [SchedModifier.toNat]
  simp only [stableRank, schedPolicyRank, Prod.Lex.toLex_lt_toLex, schedKeys_preempted, keyA, keyB]
  -- equal keys are equal priorities and equal modifiers, so both sides pick the same stamp order
  by_cases samePri : (pri a).val = (pri b).val
  · by_cases sameModifier : modifier a = modifier b
    · rw [sameModifier]
      split_ifs <;> omega
    · have differ : (modifier a).toNat ≠ (modifier b).toNat := by
        cases hA : modifier a <;> cases hB : modifier b <;> simp_all [SchedModifier.toNat]
      constructor
      · intro lt
        omega
      · intro lt
        omega
  · omega

/-- The stable comparator follows the policy. -/
theorem stableCompare_sound_policy :
    CompareSound (stableCompare (schedKeys pri modifier) stamp) (schedPolicyRank pri modifier stamp) :=
  (stableCompare_sound (schedKeys pri modifier) stamp).of_rank (stableRank_lt_iff pri modifier stamp)

end Policy

/-- The loop of `T_DECL(priority_queue_sched_stable_max)`:
`priority_queue_max` then `priority_queue_remove_max`, `count` times, with the
elements in the order they come out. -/
def removeMaxAll (compare : Nat → Nat → Int) (fuel : Nat) : Nat → PqState → Option (List Nat)
  | 0, _ => some []
  | count + 1, q => do
    let (q', root) ← priorityQueueRemoveRoot true compare fuel q
    let rest ← removeMaxAll compare fuel count q'
    pure (root :: rest)

variable {β : Type} [LinearOrder β]

/-- A reachable max queue whose elements have distinct ranks empties in
decreasing rank. -/
theorem Reachable.removeMaxAll_sorted {compare : Nat → Nat → Int} {rank : Nat → β} {fuel : Nat} :
    ∀ {q : PqState} {contents : List Nat}, Reachable true q compare rank contents →
      (∀ a ∈ contents, ∀ b ∈ contents, rank a = rank b → a = b) → contents.length ≤ fuel →
      ∃ removed, removeMaxAll compare fuel contents.length q = some removed ∧ removed.Perm contents ∧
        removed.Pairwise fun a b => rank b < rank a := by
  intro q contents reach distinct enough
  induction hsize : contents.length generalizing q contents with
  | zero =>
    rw [List.length_eq_zero_iff.mp hsize]
    exact ⟨[], rfl, List.Perm.refl _, List.Pairwise.nil⟩
  | succ count ih =>
    obtain ⟨top, member⟩ := List.exists_mem_of_length_pos (by omega : 0 < contents.length)
    obtain ⟨sound, good⟩ := reach.good
    obtain ⟨h, holds, perm, ordered⟩ := good.holds_some member
    have heapEnough : h.members.length ≤ fuel := by
      rw [perm.length_eq]
      exact enough
    obtain ⟨q', removed, _, _⟩ := priorityQueueRemoveRoot_spec true compare holds heapEnough
    have rootIn : h.root ∈ contents := perm.subset List.mem_cons_self
    have nodup : contents.Nodup := perm.nodup_iff.mp holds.2.2.2.2
    -- the root outranks every other element
    have above : ∀ b ∈ contents.erase h.root, rank b < rank h.root := by
      intro b erased
      have inContents : b ∈ contents := List.mem_of_mem_erase erased
      have other : b ≠ h.root := (nodup.mem_erase_iff.mp erased).1
      have below : rank b ≤ rank h.root := ordered.le_root b (perm.symm.subset inContents)
      exact lt_of_le_of_ne below fun same => other (distinct b inContents h.root rootIn same)
    have next := reach.removeRoot fuel (List.ne_nil_of_mem member) enough
    rw [removed, holds.1, PqState.after_some, Option.getD_some] at next
    have shorter : (contents.erase h.root).length = count := by
      rw [List.length_erase_of_mem rootIn, hsize]
      rfl
    obtain ⟨rest, run, restPerm, restSorted⟩ :=
      ih next (fun a inA b inB same => distinct a (List.mem_of_mem_erase inA) b (List.mem_of_mem_erase inB) same)
        (by rw [shorter]; omega) shorter
    refine ⟨h.root :: rest, ?_, ?_, ?_⟩
    · simp [removeMaxAll, removed, run]
    · exact (restPerm.cons h.root).trans (List.perm_cons_erase rootIn).symm
    · exact List.Pairwise.cons (fun b inRest => above b (restPerm.subset inRest)) restSorted

/-- The stable comparator on keys set by `priority_queue_entry_set_sched_pri`
is a strict weak order that follows the scheduler's policy, and any stable
max queue built with it, whose entries differ in priority, modifier or stamp,
empties in the order of that policy. -/
theorem stableCompare_sched_order (pri : Nat → Fin 128) (modifier : Nat → SchedModifier) (stamp : Nat → UInt64) :
    IsStrictWeakOrder Nat (fun a b => 0 < stableCompare (schedKeys pri modifier) stamp a b) ∧
      CompareSound (stableCompare (schedKeys pri modifier) stamp) (schedPolicyRank pri modifier stamp) ∧
      ∀ {q : PqState} {contents : List Nat} {fuel : Nat},
        Reachable true q (stableCompare (schedKeys pri modifier) stamp) (schedPolicyRank pri modifier stamp)
          contents →
        (∀ a ∈ contents, ∀ b ∈ contents, pri a = pri b → modifier a = modifier b → stamp a = stamp b → a = b) →
        contents.length ≤ fuel →
        ∃ removed, removeMaxAll (stableCompare (schedKeys pri modifier) stamp) fuel contents.length q = some removed ∧
          removed.Perm contents ∧
          removed.Pairwise fun a b => schedPolicyRank pri modifier stamp b < schedPolicyRank pri modifier stamp a := by
  have sound := stableCompare_sound_policy pri modifier stamp
  refine ⟨sound.isStrictWeakOrder, sound, ?_⟩
  intro q contents fuel reach distinct enough
  refine reach.removeMaxAll_sorted (fun a inA b inB same => ?_) enough
  -- equal policy ranks are equal priorities, modifiers and stamps
  simp only [schedPolicyRank, toLex_inj, Prod.mk.injEq] at same
  obtain ⟨samePri, sameModifier, sameStamp⟩ := same
  have priEq : pri a = pri b := Fin.ext samePri
  have modifierEq : modifier a = modifier b := by
    cases hA : modifier a <;> cases hB : modifier b <;> simp_all [SchedModifier.toNat]
  have stampEq : stamp a = stamp b := by
    rw [modifierEq] at sameStamp
    apply UInt64.toNat_inj.mp
    split_ifs at sameStamp <;> omega
  exact distinct a inA b inB priEq modifierEq stampEq

theorem stableCompare_sched_order_pair :
    let pri : Nat → Fin 128 := fun _ => 5
    let modifier : Nat → SchedModifier := fun e => if e = 1 then .preempted else .none
    let stamp : Nat → UInt64 := fun e => e.toUInt64
    let compare := stableCompare (schedKeys pri modifier) stamp
    let q := (insert true compare (insert true compare ⟨none, fun _ => PriorityQueueEntry.init⟩ 1).1 2).1
    Reachable true q compare (schedPolicyRank pri modifier stamp) [2, 1] ∧
      ∃ removed, removeMaxAll compare 2 2 q = some removed ∧ removed.Perm [2, 1] ∧
        removed.Pairwise fun a b => schedPolicyRank pri modifier stamp b < schedPolicyRank pri modifier stamp a := by
  intro pri modifier stamp compare q
  have reach : Reachable true q compare (schedPolicyRank pri modifier stamp) [2, 1] :=
    Reachable.insert 2 (Reachable.insert 1 (Reachable.init _ (stableCompare_sound_policy pri modifier stamp))
      (by simp) rfl) (by simp) rfl
  have distinct : ∀ a ∈ [2, 1], ∀ b ∈ [2, 1], pri a = pri b → modifier a = modifier b → stamp a = stamp b → a = b := by
    simp [stamp]
  have emptied := (stableCompare_sched_order pri modifier stamp).2.2 reach distinct (le_refl 2)
  exact ⟨reach, emptied⟩

end Xnu.PriorityQueue
