import Xnu.Net.IpReassQueues
import Xnu.Lib.Serial

namespace Xnu.IpReass

/-! The limits of `ip_reass` and `frag_timeout` whatever fragments arrive:
`nipq` counts the queues and stays within `maxnipq + 1`, `ipq_nfrags` counts a
queue's fragments modulo `2 ^ 32` and stays within `maxfragsperpacket`, and no
queue lives through `IPFRAGTTL` runs of the timer. Nothing is assumed of the
fragments. -/

/-- What reaches the reassembly queues: a fragment from `ip_input`, with
whether its `ipq_alloc` would succeed, or a run of the timer. -/
inductive Event where
  | fragment (m : Packet) (allocOk : Bool)
  | timeout

def Event.isTimeout : Event → Bool
  | .timeout => true
  | .fragment _ _ => false

def Event.apply (s : Reass) : Event → Reass
  | .fragment m allocOk => (ipReass s m allocOk).1
  | .timeout => fragTimeout s

def runEvents (s : Reass) (es : List Event) : Reass := es.foldl Event.apply s

theorem runEvents_append (s : Reass) (es later : List Event) :
    runEvents s (es ++ later) = runEvents (runEvents s es) later := List.foldl_append

/-- The runs of the timer among the events. -/
def ticks (es : List Event) : Nat := es.countP Event.isTimeout

/-- The queues linked in the `IPREASS_NHASH` buckets. -/
def queueCount (s : Reass) : Nat := ∑ i ∈ Finset.range ipreassNhash, (s.ipq i).length

/-- A queue of the datagram with key `k` is linked. -/
def Holds (s : Reass) (k : UInt16 × UInt32 × UInt32 × UInt8) : Prop := ∃ h, ∃ fp ∈ s.ipq h, fp.key = k

section Count

theorem ipreassHash_lt (src : UInt32) (id : UInt16) : ipreassHash src id < ipreassNhash := by
  unfold ipreassHash ipreassNhash
  rw [UInt32.toNat_and]
  exact Nat.lt_of_le_of_lt Nat.and_le_right (by decide)

/-- A change to bucket `i` alone changes the count by the change of its length. -/
theorem queueCount_update {s t : Reass} {i : Nat} (inside : i < ipreassNhash) (same : ∀ j, j ≠ i → t.ipq j = s.ipq j) :
    queueCount t + (s.ipq i).length = queueCount s + (t.ipq i).length := by
  unfold queueCount
  have mem : i ∈ Finset.range ipreassNhash := Finset.mem_range.mpr inside
  rw [← Finset.add_sum_erase _ _ mem, ← Finset.add_sum_erase _ _ mem]
  have rest : ∑ j ∈ (Finset.range ipreassNhash).erase i, (t.ipq j).length =
      ∑ j ∈ (Finset.range ipreassNhash).erase i, (s.ipq j).length :=
    Finset.sum_congr rfl fun j member => by rw [same j (Finset.ne_of_mem_erase member)]
  rw [rest]
  omega

theorem length_le_queueCount (s : Reass) {i : Nat} (inside : i < ipreassNhash) : (s.ipq i).length ≤ queueCount s := by
  unfold queueCount
  exact Finset.single_le_sum (f := fun j => (s.ipq j).length) (fun j _ => Nat.zero_le _) (Finset.mem_range.mpr inside)

/-- What adding a fragment to the queue at position `k` does to the state:
nothing, a store of the queue, or its free. -/
theorem addFragment_cases (s : Reass) (hash k : Nat) (m : Packet) :
    (addFragment s hash k m).1 = s ∨ (∃ fp, (addFragment s hash k m).1 = setQueue s hash k fp) ∨
      k < (s.ipq hash).length ∧ (addFragment s hash k m).1 = fragFreef s hash k := by
  dsimp only [addFragment]
  split
  · exact Or.inl rfl
  · rename_i fp found
    have at_k : k < (s.ipq hash).length := (List.getElem?_eq_some_iff.mp found).1
    split
    · exact Or.inl rfl
    · split
      · exact Or.inl rfl
      · split
        · exact Or.inr (Or.inl ⟨_, rfl⟩)
        · rcases complete_fst s hash k _ with freed | ⟨stored, -⟩
          · exact Or.inr (Or.inr ⟨at_k, freed⟩)
          · exact Or.inr (Or.inl ⟨_, stored⟩)

/-- Neither the trim nor a fragment added changes a limit. -/
theorem trimQueues_keeps_limits (s : Reass) (hash : Nat) :
    (trimQueues s hash).maxnipq = s.maxnipq ∧ (trimQueues s hash).maxfragsperpacket = s.maxfragsperpacket := by
  unfold trimQueues
  split
  · split
    · exact ⟨rfl, rfl⟩
    · split <;> exact ⟨rfl, rfl⟩
  · exact ⟨rfl, rfl⟩

theorem addFragment_keeps_limits (s : Reass) (hash k : Nat) (m : Packet) :
    (addFragment s hash k m).1.maxnipq = s.maxnipq ∧
      (addFragment s hash k m).1.maxfragsperpacket = s.maxfragsperpacket := by
  rcases addFragment_cases s hash k m with same | ⟨fp, stored⟩ | ⟨-, freed⟩
  · rw [same]
    exact ⟨rfl, rfl⟩
  · rw [stored]
    exact ⟨rfl, rfl⟩
  · rw [freed]
    exact ⟨rfl, rfl⟩

theorem ipReass_keeps_limits (s : Reass) (m : Packet) (allocOk : Bool) :
    (ipReass s m allocOk).1.maxnipq = s.maxnipq ∧
      (ipReass s m allocOk).1.maxfragsperpacket = s.maxfragsperpacket := by
  have trimmed : ∀ c : Bool, (if c = true then trimQueues s (ipreassHash m.ip.src m.ip.id) else s).maxnipq =
      s.maxnipq ∧ (if c = true then trimQueues s (ipreassHash m.ip.src m.ip.id) else s).maxfragsperpacket =
        s.maxfragsperpacket := by
    intro c
    split
    · exact trimQueues_keeps_limits s _
    · exact ⟨rfl, rfl⟩
  unfold ipReass
  split
  · exact ⟨rfl, rfl⟩
  · dsimp only
    split
    · exact trimmed _
    · split
      · split
        · exact trimmed _
        · exact trimmed _
      · obtain ⟨sameMax, sameFrags⟩ := addFragment_keeps_limits
          (if (findQueue (s.ipq (ipreassHash m.ip.src m.ip.id)) m.ip).isNone = true then
            trimQueues s (ipreassHash m.ip.src m.ip.id) else s) (ipreassHash m.ip.src m.ip.id) ‹_› ‹_›
        rw [sameMax, sameFrags]
        exact trimmed _

/-- `nipq` counts the linked queues. -/
def Counted (s : Reass) : Prop := s.nipq.toNat = queueCount s

theorem Counted.setQueue {s : Reass} (counted : Counted s) (hash k : Nat) (fp : Ipq) :
    Counted (IpReass.setQueue s hash k fp) ∧ queueCount (IpReass.setQueue s hash k fp) = queueCount s := by
  have same : queueCount (IpReass.setQueue s hash k fp) = queueCount s := by
    unfold queueCount
    refine Finset.sum_congr rfl fun j _ => ?_
    simp only [IpReass.setQueue, Function.update_apply]
    split
    · rename_i at_hash
      rw [at_hash, List.length_set]
    · rfl
  refine ⟨?_, same⟩
  unfold Counted
  rw [same]
  exact counted

theorem Counted.fragFreef {s : Reass} (counted : Counted s) {hash k : Nat} (inside : hash < ipreassNhash)
    (at_k : k < (s.ipq hash).length) :
    Counted (IpReass.fragFreef s hash k) ∧ queueCount (IpReass.fragFreef s hash k) + 1 = queueCount s := by
  have update := queueCount_update (s := s) (t := IpReass.fragFreef s hash k) inside fun j other => by
    simp [IpReass.fragFreef, Function.update_of_ne other]
  have shorter : ((IpReass.fragFreef s hash k).ipq hash).length = (s.ipq hash).length - 1 := by
    simp [IpReass.fragFreef, List.length_eraseIdx, at_k]
  have bucket := length_le_queueCount s inside
  have one : 1 ≤ s.nipq := by
    rw [UInt32.le_iff_toNat_le, counted, UInt32.toNat_one]
    omega
  refine ⟨?_, by omega⟩
  show (s.nipq - 1).toNat = queueCount (IpReass.fragFreef s hash k)
  rw [UInt32.toNat_sub_of_le _ _ one, counted, UInt32.toNat_one]
  omega

/-- The trim before a new queue frees one queue when `nipq` is over a
positive `maxnipq`, and none otherwise. -/
theorem Counted.trimQueues {s : Reass} (counted : Counted s) {hash : Nat} (inside : hash < ipreassNhash) :
    Counted (IpReass.trimQueues s hash) ∧ queueCount (IpReass.trimQueues s hash) +
      (if s.nipq > s.maxnipq.toUInt32 ∧ 0 < s.maxnipq then 1 else 0) = queueCount s := by
  unfold IpReass.trimQueues
  split
  · rename_i overLimit
    split
    · rename_i nonempty
      exact counted.fragFreef inside (by have := List.length_pos_of_ne_nil nonempty; omega)
    · split
      · rename_i i found
        have inRange := List.mem_range.mp (List.mem_of_find?_eq_some found)
        have nonempty : s.ipq i ≠ [] := by simpa using List.find?_some found
        exact counted.fragFreef inRange (by have := List.length_pos_of_ne_nil nonempty; omega)
      · -- `nipq` is over the limit, so some bucket holds a queue
        rename_i missing
        exfalso
        have empty : ∀ i ∈ Finset.range ipreassNhash, (s.ipq i).length = 0 := by
          intro i member
          have clear := List.find?_eq_none.mp missing i (List.mem_range.mpr (Finset.mem_range.mp member))
          simpa using clear
        have zero : queueCount s = 0 := Finset.sum_eq_zero empty
        have positive : 0 < s.nipq.toNat := by
          have above : s.maxnipq.toUInt32.toNat < s.nipq.toNat := UInt32.lt_iff_toNat_lt.mp overLimit.1
          omega
        unfold Counted at counted
        omega
  · exact ⟨counted, Nat.add_zero _⟩

/-- A new queue linked at the head of bucket `hash`. -/
theorem Counted.linkQueue {s : Reass} (counted : Counted s) {hash : Nat} (inside : hash < ipreassNhash) (fp : Ipq)
    (room : queueCount s + 1 < 2 ^ 32) :
    Counted { s with ipq := Function.update s.ipq hash (fp :: s.ipq hash), nipq := s.nipq + 1 } ∧
      queueCount { s with ipq := Function.update s.ipq hash (fp :: s.ipq hash), nipq := s.nipq + 1 } =
        queueCount s + 1 := by
  have update := queueCount_update (s := s)
    (t := { s with ipq := Function.update s.ipq hash (fp :: s.ipq hash), nipq := s.nipq + 1 }) inside
    fun j other => by simp [Function.update_of_ne other]
  simp only [Function.update_self, List.length_cons] at update
  refine ⟨?_, by omega⟩
  show (s.nipq + 1).toNat = _
  rw [UInt32.toNat_add, UInt32.toNat_one, counted, Nat.mod_eq_of_lt room]
  omega

end Count

section Limits

/-- What a linked queue keeps: it sits in the bucket of its hash, `ipq_nfrags`
counts its fragments modulo `2 ^ 32` and stays within `maxfragsperpacket`, so
does the count itself below `2 ^ 32 - 1`, and `ipq_ttl` is in `1 .. IPFRAGTTL`. -/
structure QueueLimited (maxfrags : UInt32) (h : Nat) (fp : Ipq) : Prop where
  hashed : ipreassHash fp.src fp.id = h
  counted : fp.nfrags = fp.frags.length.toUInt32
  capped : fp.nfrags ≤ maxfrags
  short : maxfrags.toNat < 2 ^ 32 - 1 → fp.frags.length ≤ maxfrags.toNat
  alive : 0 < fp.ttl
  fresh : fp.ttl ≤ ipfragttl

/-- The invariant of the reassembly state under positive limits. -/
structure Limited (s : Reass) : Prop where
  maxnipq_pos : 0 < s.maxnipq
  maxfrags_pos : 0 < s.maxfragsperpacket
  counted : Counted s
  bounded : queueCount s ≤ s.maxnipq.toUInt32.toNat + 1
  queues : ∀ h, ∀ fp ∈ s.ipq h, QueueLimited s.maxfragsperpacket h fp

variable {s : Reass}

theorem Limited.outside (lim : Limited s) : ∀ i, ipreassNhash ≤ i → s.ipq i = [] := by
  intro i past
  rw [List.eq_nil_iff_forall_not_mem]
  intro fp member
  have hashed := (lim.queues i fp member).hashed
  have := ipreassHash_lt fp.src fp.id
  omega

theorem Limited.maxnipq_lt (lim : Limited s) : s.maxnipq.toUInt32.toNat < 2 ^ 31 := by
  have pos := Int32.lt_iff_toInt_lt.mp lim.maxnipq_pos
  rw [Int32.toInt_zero] at pos
  rw [Int32.toNat_toUInt32_of_nonneg _ pos.le]
  have := Int32.toInt_lt s.maxnipq
  omega

theorem newQueue_limited {maxfrags : UInt32} (pos : 0 < maxfrags) {m m' : Packet} (prepared : prepare m = some m') :
    QueueLimited maxfrags (ipreassHash m.ip.src m.ip.id) (newQueue m') where
  hashed := by rw [(prepare_eq_some prepared).1]; rfl
  counted := rfl
  capped := by
    rw [UInt32.le_iff_toNat_le]
    exact UInt32.lt_iff_toNat_lt.mp pos
  short := fun _ => UInt32.lt_iff_toNat_lt.mp pos
  alive := show (0 : UInt8) < 30 by decide
  fresh := show ipfragttl ≤ ipfragttl by decide

/-- A queue grown by a fragment keeps its limits, given the cap that
`ip_reass` checks or the count it had. Below `2 ^ 32 - 1` fragments
`ipq_nfrags` is the exact count, so the cap bounds the fragments too. -/
theorem QueueLimited.grown {maxfrags : UInt32} {h : Nat} {fp fp' : Ipq} {m : Packet}
    (lim : QueueLimited maxfrags h fp) (grown : Grown fp m fp')
    (capped : fp'.nfrags ≤ maxfrags ∨ fp'.nfrags = fp.nfrags) : QueueLimited maxfrags h fp' where
  hashed := grown.hash.trans lim.hashed
  counted := grown.counted lim.counted
  capped := capped.elim id fun same => same ▸ lim.capped
  short := fun below => by
    have longer := grown.length_le
    have before := lim.short below
    have exact' : fp'.nfrags.toNat = fp'.frags.length := by
      rw [grown.counted lim.counted, Nat.toUInt32_eq, UInt32.toNat_ofNat']
      exact Nat.mod_eq_of_lt (by omega)
    rcases capped with within | same
    · have := UInt32.le_iff_toNat_le.mp within
      omega
    · have exact : fp.nfrags.toNat = fp.frags.length := by
        rw [lim.counted, Nat.toUInt32_eq, UInt32.toNat_ofNat']
        exact Nat.mod_eq_of_lt (by omega)
      rw [same] at exact'
      omega
  alive := grown.ttl ▸ lim.alive
  fresh := grown.ttl ▸ lim.fresh

theorem Counted.addFragment (counted : Counted s) {hash k : Nat} (inside : hash < ipreassNhash) (m : Packet) :
    Counted (IpReass.addFragment s hash k m).1 ∧ queueCount (IpReass.addFragment s hash k m).1 ≤ queueCount s := by
  rcases addFragment_cases s hash k m with same | ⟨fp, stored⟩ | ⟨at_k, freed⟩
  · rw [same]
    exact ⟨counted, le_refl _⟩
  · rw [stored]
    obtain ⟨storedOk, same⟩ := counted.setQueue hash k fp
    exact ⟨storedOk, same.le⟩
  · rw [freed]
    obtain ⟨freedOk, count⟩ := counted.fragFreef inside at_k
    exact ⟨freedOk, by omega⟩

/-- Where no queue matches, the trim leaves room for one under `maxnipq + 1`. -/
theorem Limited.trimQueues_room (lim : Limited s) {hash : Nat} (inside : hash < ipreassNhash) :
    Counted (trimQueues s hash) ∧ queueCount (trimQueues s hash) ≤ s.maxnipq.toUInt32.toNat := by
  obtain ⟨counted, count⟩ := lim.counted.trimQueues inside
  refine ⟨counted, ?_⟩
  have bounded := lim.bounded
  split at count
  · omega
  · rename_i notOver
    have within : ¬s.maxnipq.toUInt32 < s.nipq := fun overLimit => notOver ⟨overLimit, lim.maxnipq_pos⟩
    rw [UInt32.lt_iff_toNat_lt, show s.nipq.toNat = queueCount s from lim.counted] at within
    omega

theorem Limited.ipReass_count (lim : Limited s) (m : Packet) (allocOk : Bool) :
    Counted (ipReass s m allocOk).1 ∧ queueCount (ipReass s m allocOk).1 ≤ s.maxnipq.toUInt32.toNat + 1 := by
  have inside := ipreassHash_lt m.ip.src m.ip.id
  obtain ⟨trimmed, room⟩ := lim.trimQueues_room inside
  have small := lim.maxnipq_lt
  unfold ipReass
  split
  · exact ⟨lim.counted, lim.bounded⟩
  · dsimp only
    split
    · split
      · exact ⟨trimmed, by dsimp only; omega⟩
      · exact ⟨lim.counted, lim.bounded⟩
    · split
      · rename_i notFound
        rw [notFound, Option.isNone_none, if_pos rfl]
        split
        · obtain ⟨linked, count⟩ := trimmed.linkQueue inside _ (by omega)
          exact ⟨linked, by dsimp only; omega⟩
        · exact ⟨trimmed, by dsimp only; omega⟩
      · rename_i k found
        rw [found, if_neg (by simp)]
        obtain ⟨added, count⟩ := lim.counted.addFragment inside _
        exact ⟨added, by have := lim.bounded; omega⟩

theorem Limited.ipReass_queues (lim : Limited s) (m : Packet) (allocOk : Bool) :
    ∀ h, ∀ fp' ∈ (ipReass s m allocOk).1.ipq h, QueueLimited s.maxfragsperpacket h fp' := by
  intro h fp' member
  rcases ipReass_queue member with old | ⟨m', prepared, rfl, ⟨rfl, -⟩ | ⟨fp, member0, -, grown, capped⟩⟩
  · exact lim.queues h fp' old
  · exact newQueue_limited lim.maxfrags_pos prepared
  · exact (lim.queues _ fp member0).grown grown capped

theorem Limited.ipReass (lim : Limited s) (m : Packet) (allocOk : Bool) : Limited (ipReass s m allocOk).1 := by
  obtain ⟨sameMax, sameFrags⟩ := ipReass_keeps_limits s m allocOk
  obtain ⟨counted, bounded⟩ := lim.ipReass_count m allocOk
  refine ⟨?_, ?_, counted, ?_, ?_⟩
  · rw [sameMax]
    exact lim.maxnipq_pos
  · rw [sameFrags]
    exact lim.maxfrags_pos
  · rw [sameMax]
    exact bounded
  · rw [sameFrags]
    exact lim.ipReass_queues m allocOk

end Limits

section Timeout

variable {s : Reass}

theorem toNat_sub_count {x : UInt32} {n : Nat} (le : n ≤ x.toNat) : (x - n.toUInt32).toNat = x.toNat - n := by
  have small : n.toUInt32.toNat = n := by
    rw [Nat.toUInt32_eq, UInt32.toNat_ofNat']
    exact Nat.mod_eq_of_lt (by have := x.toNat_lt; omega)
  rw [UInt32.toNat_sub_of_le _ _ (UInt32.le_iff_toNat_le.mpr (by omega)), small]

theorem ageBucket_length : ∀ qs : List Ipq, (ageBucket qs).1.length + (ageBucket qs).2 = qs.length
  | [] => rfl
  | fp :: rest => by
    have := ageBucket_length rest
    simp only [ageBucket]
    split <;> simp only [List.length_cons] <;> omega

/-- A queue kept by the ageing of its bucket is one from before with a
lower `ipq_ttl` that did not reach 0. -/
theorem mem_ageBucket {fp' : Ipq} : ∀ {qs : List Ipq}, fp' ∈ (ageBucket qs).1 →
    ∃ fp ∈ qs, fp.ttl - 1 ≠ 0 ∧ fp' = { fp with ttl := fp.ttl - 1 }
  | [], member => by cases member
  | fp :: rest, member => by
    simp only [ageBucket] at member
    split at member
    · obtain ⟨fp0, member0, kept⟩ := mem_ageBucket member
      exact ⟨fp0, List.mem_cons_of_mem fp member0, kept⟩
    · rename_i kept
      rcases List.mem_cons.mp member with rfl | later
      · exact ⟨fp, List.mem_cons_self, kept, rfl⟩
      · obtain ⟨fp0, member0, kept0⟩ := mem_ageBucket later
        exact ⟨fp0, List.mem_cons_of_mem fp member0, kept0⟩

/-- The first `n` buckets aged in turn, the others as they were. -/
theorem foldl_ageStep_ipq (s : Reass) (n i : Nat) :
    ((List.range n).foldl ageStep s).ipq i = if i < n then (ageBucket (s.ipq i)).1 else s.ipq i := by
  induction n generalizing i with
  | zero => simp
  | succ n ih =>
    rw [List.range_succ, List.foldl_append, List.foldl_cons, List.foldl_nil]
    simp only [ageStep, Function.update_apply, ih, lt_irrefl, if_false]
    split_ifs <;> first | subst i; rfl | rfl | omega

theorem Counted.ageStep (counted : Counted s) {i : Nat} (inside : i < ipreassNhash) :
    Counted (IpReass.ageStep s i) ∧ queueCount (IpReass.ageStep s i) ≤ queueCount s := by
  have update := queueCount_update (s := s) (t := IpReass.ageStep s i) inside fun j other => by
    simp [IpReass.ageStep, Function.update_of_ne other]
  have bucket : (IpReass.ageStep s i).ipq i = (ageBucket (s.ipq i)).1 := by simp [IpReass.ageStep]
  rw [bucket] at update
  have aged := ageBucket_length (s.ipq i)
  have within := length_le_queueCount s inside
  refine ⟨?_, by omega⟩
  show (s.nipq - (ageBucket (s.ipq i)).2.toUInt32).toNat = _
  rw [toNat_sub_count (by unfold Counted at counted; omega), counted]
  omega

/-- The drain of a bucket frees queues from its head, each one `nipq--`. -/
theorem drainBucket_eq (maxnipq : UInt32) : ∀ (qs : List Ipq) (nipq : UInt32),
    ∃ d, (drainBucket maxnipq qs nipq).1 = qs.drop d ∧ (drainBucket maxnipq qs nipq).2.toNat + d = nipq.toNat ∧
      d ≤ qs.length
  | [], nipq => ⟨0, rfl, rfl, le_refl _⟩
  | fp :: rest, nipq => by
    simp only [drainBucket]
    split
    · rename_i overLimit
      -- `nipq` is over `maxnipq`, so at least 1
      have one : 1 ≤ nipq.toNat := by
        have := UInt32.lt_iff_toNat_lt.mp overLimit
        omega
      obtain ⟨d, kept, count, le⟩ := drainBucket_eq maxnipq rest (nipq - 1)
      rw [UInt32.toNat_sub_of_le _ _ (UInt32.le_iff_toNat_le.mpr (by simpa using one)), UInt32.toNat_one] at count
      exact ⟨d + 1, kept, by omega, by simp only [List.length_cons]; omega⟩
    · exact ⟨0, rfl, rfl, Nat.zero_le _⟩

theorem mem_drainStep {i h : Nat} {fp : Ipq} (member : fp ∈ (drainStep s i).ipq h) : fp ∈ s.ipq h := by
  simp only [drainStep, Function.update_apply] at member
  split at member
  · rename_i same
    subst same
    obtain ⟨d, kept, -, -⟩ := drainBucket_eq s.maxnipq.toUInt32 (s.ipq h) s.nipq
    rw [kept] at member
    exact List.mem_of_mem_drop member
  · exact member

theorem mem_drainAll {h : Nat} {fp : Ipq} :
    ∀ (is : List Nat) {s : Reass}, fp ∈ (is.foldl drainStep s).ipq h → fp ∈ s.ipq h
  | [], _, member => member
  | _ :: rest, _, member => mem_drainStep (mem_drainAll rest member)

theorem Counted.drainStep (counted : Counted s) {i : Nat} (inside : i < ipreassNhash) :
    Counted (IpReass.drainStep s i) ∧ queueCount (IpReass.drainStep s i) ≤ queueCount s := by
  obtain ⟨d, kept, count, le⟩ := drainBucket_eq s.maxnipq.toUInt32 (s.ipq i) s.nipq
  have update := queueCount_update (s := s) (t := IpReass.drainStep s i) inside fun j other => by
    simp [IpReass.drainStep, Function.update_of_ne other]
  have bucket : (IpReass.drainStep s i).ipq i = (s.ipq i).drop d := by
    simp [IpReass.drainStep, kept]
  rw [bucket, List.length_drop] at update
  have within := length_le_queueCount s inside
  unfold Counted at counted
  refine ⟨?_, by omega⟩
  show (drainBucket s.maxnipq.toUInt32 (s.ipq i) s.nipq).2.toNat = _
  omega

/-- The passes of `frag_timeout` over the buckets in turn keep the count
and never raise it. -/
theorem Counted.foldl {f : Reass → Nat → Reass}
    (step : ∀ {t : Reass} {i : Nat}, Counted t → i < ipreassNhash → Counted (f t i) ∧ queueCount (f t i) ≤ queueCount t)
    (counted : Counted s) :
    ∀ is : List Nat, (∀ i ∈ is, i < ipreassNhash) → Counted (is.foldl f s) ∧ queueCount (is.foldl f s) ≤ queueCount s := by
  intro is
  induction is generalizing s with
  | nil => exact fun _ => ⟨counted, le_refl _⟩
  | cons i rest ih =>
    intro inside
    obtain ⟨passed, count⟩ := step counted (inside i List.mem_cons_self)
    obtain ⟨passedAll, countAll⟩ := ih passed fun j member => inside j (List.mem_cons_of_mem i member)
    exact ⟨passedAll, countAll.trans count⟩

theorem Counted.fragTimeout (counted : Counted s) :
    Counted (IpReass.fragTimeout s) ∧ queueCount (IpReass.fragTimeout s) ≤ queueCount s := by
  have inRange : ∀ i ∈ List.range ipreassNhash, i < ipreassNhash := fun i member => List.mem_range.mp member
  obtain ⟨aged, agedCount⟩ := counted.foldl (fun c inside => c.ageStep inside) _ inRange
  dsimp only [IpReass.fragTimeout]
  split
  · obtain ⟨drained, drainedCount⟩ := aged.foldl (fun c inside => c.drainStep inside) _ inRange
    exact ⟨drained, drainedCount.trans agedCount⟩
  · exact ⟨aged, agedCount⟩

/-- A queue after `frag_timeout` is one from before, in the same bucket, whose
`ipq_ttl` was lowered without reaching 0. -/
theorem mem_fragTimeout (outside : ∀ i, ipreassNhash ≤ i → s.ipq i = []) {h : Nat} {fp' : Ipq}
    (member : fp' ∈ (fragTimeout s).ipq h) : ∃ fp ∈ s.ipq h, fp.ttl - 1 ≠ 0 ∧ fp' = { fp with ttl := fp.ttl - 1 } := by
  have aged : fp' ∈ ((List.range ipreassNhash).foldl ageStep s).ipq h := by
    dsimp only [fragTimeout] at member
    split at member
    · exact mem_drainAll _ member
    · exact member
  rw [foldl_ageStep_ipq] at aged
  split at aged
  · exact mem_ageBucket aged
  · rw [outside h (by omega)] at aged
    cases aged

theorem foldl_keeps_limits {ι : Type} {f : Reass → ι → Reass}
    (keeps : ∀ t i, (f t i).maxnipq = t.maxnipq ∧ (f t i).maxfragsperpacket = t.maxfragsperpacket) :
    ∀ (is : List ι) (s : Reass), (is.foldl f s).maxnipq = s.maxnipq ∧
      (is.foldl f s).maxfragsperpacket = s.maxfragsperpacket
  | [], _ => ⟨rfl, rfl⟩
  | i :: rest, s => by
    obtain ⟨sameMax, sameFrags⟩ := foldl_keeps_limits keeps rest (f s i)
    rw [List.foldl_cons, sameMax, sameFrags]
    exact keeps s i

theorem fragTimeout_keeps_limits (s : Reass) :
    (fragTimeout s).maxnipq = s.maxnipq ∧ (fragTimeout s).maxfragsperpacket = s.maxfragsperpacket := by
  obtain ⟨agedMax, agedFrags⟩ := foldl_keeps_limits (fun _ _ => ⟨rfl, rfl⟩) (List.range ipreassNhash) s (f := ageStep)
  dsimp only [fragTimeout]
  split
  · obtain ⟨drainedMax, drainedFrags⟩ := foldl_keeps_limits (fun _ _ => ⟨rfl, rfl⟩) (List.range ipreassNhash)
      ((List.range ipreassNhash).foldl ageStep s) (f := drainStep)
    rw [drainedMax, drainedFrags]
    exact ⟨agedMax, agedFrags⟩
  · exact ⟨agedMax, agedFrags⟩

theorem ttl_pred {t : UInt8} (pos : 0 < t) : (t - 1).toNat + 1 = t.toNat := by
  have := UInt8.lt_iff_toNat_lt.mp pos
  rw [UInt8.toNat_zero] at this
  rw [UInt8.toNat_sub_of_le _ _ (UInt8.le_iff_toNat_le.mpr (by rw [UInt8.toNat_one]; omega)), UInt8.toNat_one]
  omega

theorem QueueLimited.aged {maxfrags : UInt32} {h : Nat} {fp : Ipq} (lim : QueueLimited maxfrags h fp)
    (kept : fp.ttl - 1 ≠ 0) : QueueLimited maxfrags h { fp with ttl := fp.ttl - 1 } where
  hashed := lim.hashed
  counted := lim.counted
  capped := lim.capped
  short := lim.short
  alive := UInt8.pos_iff_ne_zero.mpr kept
  fresh := by
    have := ttl_pred lim.alive
    have := UInt8.le_iff_toNat_le.mp lim.fresh
    exact UInt8.le_iff_toNat_le.mpr (by dsimp only; omega)

theorem Limited.fragTimeout (lim : Limited s) : Limited (fragTimeout s) := by
  obtain ⟨sameMax, sameFrags⟩ := fragTimeout_keeps_limits s
  obtain ⟨counted, count⟩ := lim.counted.fragTimeout
  refine ⟨?_, ?_, counted, ?_, ?_⟩
  · rw [sameMax]
    exact lim.maxnipq_pos
  · rw [sameFrags]
    exact lim.maxfrags_pos
  · rw [sameMax]
    exact count.trans lim.bounded
  · intro h fp' member
    obtain ⟨fp, member0, kept, rfl⟩ := mem_fragTimeout lim.outside member
    rw [sameFrags]
    exact (lim.queues h fp member0).aged kept

end Timeout

section Run

variable {s : Reass}

theorem Event.apply_keeps_limits (s : Reass) (e : Event) :
    (e.apply s).maxnipq = s.maxnipq ∧ (e.apply s).maxfragsperpacket = s.maxfragsperpacket := by
  cases e with
  | fragment m allocOk => exact ipReass_keeps_limits s m allocOk
  | timeout => exact fragTimeout_keeps_limits s

theorem Limited.apply (lim : Limited s) : ∀ e : Event, Limited (e.apply s)
  | .fragment m allocOk => lim.ipReass m allocOk
  | .timeout => lim.fragTimeout

theorem Limited.runEvents (lim : Limited s) (es : List Event) : Limited (IpReass.runEvents s es) := by
  induction es generalizing s with
  | nil => exact lim
  | cons e es ih => exact ih (lim.apply e)

/-- The queue made for a fragment holds a key that no queue held before: a
queue with it would sit in the fragment's bucket and match the fragment. -/
theorem Limited.newQueue_fresh (lim : Limited s) {m m' : Packet} (prepared : prepare m = some m')
    (missing : findQueue (s.ipq (ipreassHash m.ip.src m.ip.id)) m.ip = none) : ¬Holds s (newQueue m').key := by
  rintro ⟨h, fp, member, same⟩
  rw [(prepare_eq_some prepared).1] at same
  simp only [Ipq.key, newQueue, Prod.mk.injEq] at same
  obtain ⟨sameId, sameSrc, sameDst, sameP⟩ := same
  have bucket : h = ipreassHash m.ip.src m.ip.id := by
    rw [← (lim.queues h fp member).hashed, sameSrc, sameId]
  subst bucket
  have unmatched := List.findIdx?_eq_none_iff.mp missing fp member
  simp [Ipq.matches, sameId, sameSrc, sameDst, sameP] at unmatched

/-- Each queue after an event was there before it with the same key, in the
same bucket, and an `ipq_ttl` one higher where the event was a run of the
timer; or it holds a key no queue held before. -/
theorem Limited.apply_queue (lim : Limited s) (e : Event) {h : Nat} {fp' : Ipq}
    (member : fp' ∈ (e.apply s).ipq h) :
    (∃ fp ∈ s.ipq h, fp.key = fp'.key ∧ fp'.ttl.toNat + (if e.isTimeout then 1 else 0) = fp.ttl.toNat) ∨
      ¬Holds s fp'.key := by
  cases e with
  | fragment m allocOk =>
    rcases ipReass_queue member with old | ⟨m', prepared, rfl, ⟨rfl, missing⟩ | ⟨fp, member0, -, grown, -⟩⟩
    · exact Or.inl ⟨fp', old, rfl, rfl⟩
    · exact Or.inr (lim.newQueue_fresh prepared missing)
    · exact Or.inl ⟨fp, member0, grown.key.symm, by rw [grown.ttl]; rfl⟩
  | timeout =>
    obtain ⟨fp, member0, -, rfl⟩ := mem_fragTimeout lim.outside member
    exact Or.inl ⟨fp, member0, rfl, ttl_pred (lim.queues h fp member0).alive⟩

/-- Along a stretch of events at each state of which a queue holds the key
`k`, the queue is the same one: at the end it holds `k` with an `ipq_ttl`
lower by the runs of the timer than at the start. -/
theorem Limited.runEvents_ttl {k : UInt16 × UInt32 × UInt32 × UInt8} :
    ∀ (es : List Event) {s : Reass}, Limited s → (∀ n ≤ es.length, Holds (IpReass.runEvents s (es.take n)) k) →
      ∀ h, ∀ fp' ∈ (IpReass.runEvents s es).ipq h, fp'.key = k →
        ∃ h0, ∃ fp ∈ s.ipq h0, fp.key = k ∧ fp'.ttl.toNat + ticks es = fp.ttl.toNat
  | [], _, _, _, h, fp', member, key => ⟨h, fp', member, key, rfl⟩
  | e :: es, s, lim, held, h, fp', member, key => by
    have heldAfter : ∀ n ≤ es.length, Holds (IpReass.runEvents (e.apply s) (es.take n)) k :=
      fun n le => held (n + 1) (by simp only [List.length_cons]; omega)
    obtain ⟨h1, fp1, member1, key1, ttl1⟩ := Limited.runEvents_ttl es (lim.apply e) heldAfter h fp' member key
    rcases lim.apply_queue e member1 with ⟨fp0, member0, key0, ttl0⟩ | fresh
    · refine ⟨h1, fp0, member0, key0.trans key1, ?_⟩
      simp only [ticks, List.countP_cons] at ttl1 ⊢
      omega
    · exact absurd (key1 ▸ held 0 (Nat.zero_le _)) fresh

/-- A queue lives through fewer than `IPFRAGTTL` runs of the timer. -/
theorem Limited.ticks_lt (lim : Limited s) {k : UInt16 × UInt32 × UInt32 × UInt8} (es : List Event)
    (held : ∀ n ≤ es.length, Holds (IpReass.runEvents s (es.take n)) k) : ticks es < ipfragttl.toNat := by
  have last := held es.length (le_refl _)
  rw [List.take_length] at last
  obtain ⟨h, fp', member, key⟩ := last
  obtain ⟨h0, fp, member0, -, ttl⟩ := lim.runEvents_ttl es held h fp' member key
  have alive := UInt8.lt_iff_toNat_lt.mp ((lim.runEvents es).queues h fp' member).alive
  have fresh := UInt8.le_iff_toNat_le.mp (lim.queues h0 fp member0).fresh
  rw [UInt8.toNat_zero] at alive
  omega

/-- The queues as `ip_init` leaves them, under the limits the sysctls set. -/
def initReass (maxnipq : Int32) (maxfrags : UInt32) : Reass := ⟨fun _ => [], 0, maxnipq, maxfrags⟩

theorem initReass_limited {maxnipq : Int32} {maxfrags : UInt32} (pos : 0 < maxnipq) (fragsPos : 0 < maxfrags) :
    Limited (initReass maxnipq maxfrags) where
  maxnipq_pos := pos
  maxfrags_pos := fragsPos
  counted := by simp [Counted, queueCount, initReass]
  bounded := by simp [queueCount, initReass]
  queues := fun _ _ member => by cases member

/-- From no queues, with positive `maxnipq` and `maxfragsperpacket`, whatever
fragments arrive and whenever the timer runs: `nipq` counts the linked
queues and stays within `maxnipq + 1`; each queue's `ipq_nfrags` stays within
`maxfragsperpacket`, and so does its number of fragments when
`maxfragsperpacket` is below `2 ^ 32 - 1`; and a queue lives through fewer
than `IPFRAGTTL` runs of the timer. -/
theorem ipReass_limits_of_events {maxnipq : Int32} {maxfrags : UInt32} (pos : 0 < maxnipq)
    (fragsPos : 0 < maxfrags) (es : List Event) :
    (runEvents (initReass maxnipq maxfrags) es).nipq.toNat = queueCount (runEvents (initReass maxnipq maxfrags) es) ∧
      (runEvents (initReass maxnipq maxfrags) es).nipq.toNat ≤ maxnipq.toInt.toNat + 1 ∧
      (∀ h, ∀ fp ∈ (runEvents (initReass maxnipq maxfrags) es).ipq h, fp.nfrags ≤ maxfrags ∧
        (maxfrags.toNat < 2 ^ 32 - 1 → fp.frags.length ≤ maxfrags.toNat)) ∧
      ∀ (later : List Event) (k : UInt16 × UInt32 × UInt32 × UInt8),
        (∀ n ≤ later.length, Holds (runEvents (initReass maxnipq maxfrags) (es ++ later.take n)) k) →
          ticks later < ipfragttl.toNat := by
  have lim := (initReass_limited pos fragsPos).runEvents es
  have nonneg : 0 ≤ maxnipq.toInt := by
    have := Int32.lt_iff_toInt_lt.mp pos
    rw [Int32.toInt_zero] at this
    omega
  obtain ⟨sameMax, sameFrags⟩ := foldl_keeps_limits Event.apply_keeps_limits es (initReass maxnipq maxfrags)
  refine ⟨lim.counted, ?_, fun h fp member => ?_, fun later k held => ?_⟩
  · have bounded := lim.bounded
    rw [show (runEvents (initReass maxnipq maxfrags) es).nipq.toNat = _ from lim.counted]
    rw [show (runEvents (initReass maxnipq maxfrags) es).maxnipq = maxnipq from sameMax,
      Int32.toNat_toUInt32_of_nonneg _ nonneg] at bounded
    exact bounded
  · have queue := lim.queues h fp member
    rw [show (runEvents (initReass maxnipq maxfrags) es).maxfragsperpacket = maxfrags from sameFrags] at queue
    exact ⟨queue.capped, queue.short⟩
  · refine lim.ticks_lt later (k := k) fun n le => ?_
    rw [← runEvents_append]
    exact held n le


/-- With room for one queue of two fragments: the third fragment of a datagram
frees its queue and a fourth opens it again, a second datagram takes the count
one past the limit, a third evicts a queue to stay there, and the timer tick
drains the count back to the limit. -/
theorem ipReass_limits_of_events_overflow :
    let first : Packet := ⟨⟨0x45, 0, 20, 1, 1, 17, 1, 2⟩, false, []⟩
    let es : List Event := [.fragment first true, .fragment first true, .fragment first true,
      .fragment first true, .fragment ⟨⟨0x45, 0, 20, 2, 1, 17, 1, 2⟩, false, []⟩ true,
      .fragment ⟨⟨0x45, 0, 20, 3, 1, 17, 1, 2⟩, false, []⟩ true, .timeout]
    (runEvents (initReass 1 2) es).nipq.toNat = queueCount (runEvents (initReass 1 2) es) ∧
      (runEvents (initReass 1 2) es).nipq.toNat ≤ (1 : Int32).toInt.toNat + 1 ∧
      (∀ h, ∀ fp ∈ (runEvents (initReass 1 2) es).ipq h, fp.nfrags ≤ 2 ∧
        ((2 : UInt32).toNat < 2 ^ 32 - 1 → fp.frags.length ≤ (2 : UInt32).toNat)) ∧
      ∀ (later : List Event) (k : UInt16 × UInt32 × UInt32 × UInt8),
        (∀ n ≤ later.length, Holds (runEvents (initReass 1 2) (es ++ later.take n)) k) →
          ticks later < ipfragttl.toNat := by
  intro first es
  exact ipReass_limits_of_events (by decide) (by decide) es

/-- A fragment of no data at offset 8 and without `IP_MF`: no fragment of its
datagram starts at offset 0, so its queue never completes. -/
def idleFrag : Packet := ⟨⟨0x45, 0, 20, 1, 1, 17, 1, 2⟩, false, []⟩

/-- `idleFrag` as `ip_reass` queues it. -/
def idlePiece : Packet := ⟨⟨0x45, 0, 0, 1, 8, 17, 1, 2⟩, false, []⟩

def idleQueue (n : Nat) : Ipq := ⟨ipfragttl, 17, 1, 1, 2, List.replicate n idlePiece, n.toUInt32⟩

/-- One queue of `n` copies of `idleFrag` in bucket 0. -/
def idleState (maxnipq : Int32) (maxfrags : UInt32) (n : Nat) : Reass :=
  { initReass maxnipq maxfrags with ipq := Function.update (fun _ => []) 0 [idleQueue n], nipq := 1 }

theorem insertFrag_idle (p : Option Packet) (prev : p = none ∨ p = some idlePiece) :
    ∀ n, insertFrag p idlePiece (List.replicate n idlePiece) = some (List.replicate (n + 1) idlePiece, 0)
  | 0 => by rcases prev with rfl | rfl <;> rfl
  | n + 1 => by
    rw [List.replicate_succ, insertFrag, if_neg (by decide), insertFrag_idle (some idlePiece) (Or.inr rfl) n]
    rfl

theorem ipReass_idle {maxnipq : Int32} (nonzero : maxnipq ≠ 0) (n : Nat) :
    ipReass (idleState maxnipq 0xffffffff (n + 1)) idleFrag true = (idleState maxnipq 0xffffffff (n + 2), none) := by
  have hash : ipreassHash idleFrag.ip.src idleFrag.ip.id = 0 := by decide
  have found : findQueue ((idleState maxnipq 0xffffffff (n + 1)).ipq 0) idleFrag.ip = some 0 := by
    simp [idleState, findQueue, Ipq.matches, idleQueue, idleFrag]
  have prepared : prepare idleFrag = some idlePiece := rfl
  unfold ipReass
  rw [if_neg (by simp [idleState, initReass, nonzero]), hash]
  dsimp only
  rw [found, prepared]
  simp only [Option.isNone_some, Bool.false_eq_true, if_false]
  have atZero : ((idleState maxnipq 0xffffffff (n + 1)).ipq 0)[0]? = some (idleQueue (n + 1)) := by
    simp [idleState]
  have marked : ecnCheck idlePiece idlePiece = some idlePiece := rfl
  -- the fragment goes after the others, and no fragment starts at offset 0
  unfold addFragment
  rw [atZero]
  dsimp only [idleQueue]
  rw [List.replicate_succ]
  dsimp only
  rw [marked]
  dsimp only
  rw [← List.replicate_succ, insertFrag_idle none (Or.inl rfl)]
  dsimp only [complete]
  rw [List.replicate_succ, show scanNext 0 (idlePiece :: List.replicate (n + 1) idlePiece) = none from rfl]
  dsimp only
  have count : (n + 1).toUInt32 + 1 - Nat.toUInt32 0 = (n + 2).toUInt32 := by
    rw [show Nat.toUInt32 0 = 0 from rfl, sub_zero, Nat.toUInt32_eq, Nat.toUInt32_eq, UInt32.ofNat_add,
      UInt32.ofNat_add, add_assoc]
    rfl
  have within : ¬(n + 2).toUInt32 > (0xffffffff : UInt32) := by
    rw [gt_iff_lt, UInt32.lt_iff_toNat_lt]
    have := (n + 2).toUInt32.toNat_lt
    simp only [UInt32.reduceToNat]
    omega
  rw [count, List.replicate_succ.symm]
  simp only [idleState, initReass] at within ⊢
  simp only [within, ↓reduceIte]
  simp [setQueue, idleQueue, Function.update_idem]

theorem ipReass_idle_first {maxnipq : Int32} (pos : 0 < maxnipq) :
    ipReass (initReass maxnipq 0xffffffff) idleFrag true = (idleState maxnipq 0xffffffff 1, none) := by
  have hash : ipreassHash idleFrag.ip.src idleFrag.ip.id = 0 := by decide
  have prepared : prepare idleFrag = some idlePiece := rfl
  have notOver : ¬((0 : UInt32) > maxnipq.toUInt32 ∧ 0 < maxnipq) := fun above => by
    have := UInt32.lt_iff_toNat_lt.mp above.1
    simp at this
  unfold ipReass
  have nonzero : maxnipq ≠ 0 := by
    rintro rfl
    exact absurd pos (by decide)
  rw [if_neg (by simp [initReass, nonzero]), hash]
  dsimp only
  rw [prepared]
  simp only [initReass, findQueue, List.findIdx?_nil, Option.isNone_none, ↓reduceIte, trimQueues, notOver]
  simp [idleState, initReass, newQueue, idleQueue, idlePiece]

theorem runEvents_idle {maxnipq : Int32} (pos : 0 < maxnipq) (n : Nat) :
    runEvents (initReass maxnipq 0xffffffff) (List.replicate (n + 1) (.fragment idleFrag true)) =
      idleState maxnipq 0xffffffff (n + 1) := by
  have nonzero : maxnipq ≠ 0 := by
    rintro rfl
    exact absurd pos (by decide)
  induction n with
  | zero => exact congrArg Prod.fst (ipReass_idle_first pos)
  | succ n ih =>
    rw [List.replicate_succ', runEvents_append, ih]
    exact congrArg Prod.fst (ipReass_idle nonzero n)

/-- Under `maxfragsperpacket = 0xffffffff`, what a sysctl write of `-1`
stores, `ipq_nfrags` wraps to 0 at the `2 ^ 32`-th fragment, and the queue
then holds more fragments than `maxfragsperpacket`. -/
theorem ipReass_frags_over_limit :
    ∃ fp ∈ (runEvents (initReass 1 0xffffffff) (List.replicate (2 ^ 32) (.fragment idleFrag true))).ipq 0,
      (0xffffffff : UInt32).toNat < fp.frags.length ∧ fp.nfrags = 0 := by
  have run := runEvents_idle (show (0 : Int32) < 1 by decide) (2 ^ 32 - 1)
  rw [show 2 ^ 32 - 1 + 1 = 2 ^ 32 from rfl] at run
  rw [run]
  refine ⟨idleQueue (2 ^ 32), ?_, ?_, ?_⟩
  · simp only [idleState, Function.update_self]
    exact List.mem_singleton_self _
  · simp only [idleQueue, List.length_replicate]
    decide
  · show (2 ^ 32 : Nat).toUInt32 = 0
    decide

end Run

end Xnu.IpReass
