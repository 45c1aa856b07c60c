import Xnu.Net.IpReassCorrect

namespace Xnu.IpReass

/-! What holds of the queues of `ip_reass` between calls, for fragments as
`ip_input` hands them on, and what a reassembled datagram is made of. The
invariant is carried over a whole run of calls by one step lemma. -/

/-- The fields a fragment's queue is looked up by. -/
def Packet.key (m : Packet) : UInt16 × UInt32 × UInt32 × UInt8 := (m.ip.id, m.ip.src, m.ip.dst, m.ip.p)

def Ipq.key (fp : Ipq) : UInt16 × UInt32 × UInt32 × UInt8 := (fp.id, fp.src, fp.dst, fp.p)

/-- Where a fragment's data belongs in its datagram: `ip_off & IP_OFFMASK`
units of eight bytes. -/
def Packet.fragPiece (m : Packet) : Piece Bool UInt8 :=
  ⟨(m.ip.off &&& 0x1fff).toNat * 8, m.payload, m.ip.off &&& ipMf != 0⟩

/-- A fragment as `ip_input` hands it on, its chain trimmed to `ip_len` bytes
of which the header is the first `hlen`; and, which `ip_input` does not check,
data that ends within 65535 bytes. -/
structure PacketOk (m : Packet) : Prop where
  chain : m.ip.hlen + m.payload.length = m.ip.len.toNat
  fits : m.fragPiece.stop ≤ 65535

section Prepare

theorem Ip.hlen_le (ip : Ip) : ip.hlen ≤ 60 := by
  have low : ip.vhl.toNat &&& (0x0f : UInt8).toNat ≤ 15 := Nat.and_le_right
  unfold Ip.hlen
  rw [UInt8.toNat_and, Nat.shiftLeft_eq]
  omega

/-- `ip_off <<= 3` in 16 bits drops the flag bits. -/
theorem toNat_off_shift (off : UInt16) : (off <<< 3).toNat = (off &&& 0x1fff).toNat * 8 := by
  rw [UInt16.toNat_shiftLeft, UInt16.toNat_and]
  have mask : (0x1fff : UInt16).toNat = 2 ^ 13 - 1 := rfl
  have three : (3 : UInt16).toNat % 16 = 3 := rfl
  rw [mask, three, Nat.and_two_pow_sub_one_eq_mod, Nat.shiftLeft_eq]
  have := off.toNat_lt
  omega

theorem prepare_eq_some {m m' : Packet} (prepared : prepare m = some m') :
    m' = ⟨{ m.ip with len := m.ip.len - m.ip.hlen.toUInt16, off := m.ip.off <<< 3 }, m'.mFrag,
      m.payload⟩ ∧
      (m'.mFrag = true → m.ip.len - m.ip.hlen.toUInt16 ≠ 0) := by
  dsimp only [prepare] at prepared
  split at prepared
  · split at prepared
    · cases prepared
    · rename_i _ notBad
      cases prepared
      exact ⟨rfl, fun _ zero => notBad (Or.inl zero)⟩
  · cases prepared
    exact ⟨rfl, fun frag => Bool.false_ne_true frag |>.elim⟩

/-- The fragment `ip_reass` goes on with is well formed, sits where its data
belongs, and keeps its key and header length. -/
theorem prepare_spec {m m' : Packet} (ok : PacketOk m) (prepared : prepare m = some m') :
    FragOk m' ∧ m'.toPiece.start = m.fragPiece.start ∧ m'.payload = m.payload ∧ m'.key = m.key ∧
      m'.ip.hlen = m.ip.hlen := by
  obtain ⟨shape, nonzero⟩ := prepare_eq_some prepared
  have hlenSmall : m.ip.hlen.toUInt16.toNat = m.ip.hlen := toNat_toUInt16 (by have := m.ip.hlen_le; omega)
  have len : (m.ip.len - m.ip.hlen.toUInt16).toNat = m.payload.length := by
    rw [UInt16.toNat_sub_of_le _ _ (by rw [UInt16.le_iff_toNat_le, hlenSmall]; have := ok.chain; omega),
      hlenSmall]
    have := ok.chain
    omega
  have off : (m.ip.off <<< 3).toNat = m.fragPiece.start := toNat_off_shift m.ip.off
  rw [shape]
  refine ⟨⟨len, ?_, fun frag => ?_⟩, off, rfl, rfl, rfl⟩
  · have fits := ok.fits
    simp only [Piece.stop, Packet.fragPiece] at fits off
    simp only [off, len]
    omega
  · have ne := nonzero frag
    have zero : (m.ip.len - m.ip.hlen.toUInt16).toNat ≠ 0 := fun z => ne (UInt16.toNat_inj.mp z)
    simp only
    omega

theorem toPiece_get_of_prepare {m m' : Packet} (ok : PacketOk m) (prepared : prepare m = some m')
    (x : Nat) : m'.toPiece.get x = m.fragPiece.get x := by
  obtain ⟨-, start, payload, -⟩ := prepare_spec ok prepared
  unfold Piece.get
  rw [start, show m'.toPiece.data = m.fragPiece.data from payload]

end Prepare

section Queues

/-- A queue between calls: non-empty, its fragments well formed and of its
datagram, in order without overlap, and counted by `ipq_nfrags`. -/
structure QueueOk (fp : Ipq) : Prop where
  nonempty : fp.frags ≠ []
  frags : ∀ f ∈ fp.frags, FragOk f ∧ f.key = fp.key
  ordered : OrderedFrom 0 (fp.frags.map Packet.toPiece)
  nfrags : fp.nfrags = fp.frags.length.toUInt32

/-- Every byte the queue holds at a position of its datagram was carried there
by a fragment of that datagram among `inputs`. -/
def QueueSourced (inputs : List Packet) (fp : Ipq) : Prop :=
  ∀ x v, valueAt (fp.frags.map Packet.toPiece) x = some v →
    ∃ g ∈ inputs, g.key = fp.key ∧ g.fragPiece.get x = some v

def ReassOk (s : Reass) : Prop := ∀ h, ∀ fp ∈ s.ipq h, QueueOk fp

def Sourced (inputs : List Packet) (s : Reass) : Prop := ∀ h, ∀ fp ∈ s.ipq h, QueueSourced inputs fp

/-- In `ip_off` terms: each fragment ends before the next begins. -/
theorem QueueOk.sorted {fp : Ipq} (ok : QueueOk fp) :
    fp.frags.Pairwise fun a b => a.ip.off.toNat + a.ip.len.toNat ≤ b.ip.off.toNat := by
  have segs := List.pairwise_map.mp ok.ordered.pairwise
  refine segs.imp_of_mem fun {a b} aIn _ before => ?_
  rw [← toPiece_stop (ok.frags a aIn).1]
  exact before

theorem Ipq.key_of_matches {fp : Ipq} {m : Packet} (same : fp.matches m.ip = true) : m.key = fp.key := by
  simp only [Ipq.matches, Bool.and_eq_true, beq_iff_eq] at same
  obtain ⟨⟨⟨id, src⟩, dst⟩, p⟩ := same
  simp only [Packet.key, Ipq.key, id, src, dst, p]

theorem findQueue_spec {head : List Ipq} {ip : Ip} {k : Nat} (found : findQueue head ip = some k) :
    ∃ fp, head[k]? = some fp ∧ fp.matches ip = true := by
  obtain ⟨inside, hit, -⟩ := List.findIdx?_eq_some_iff_getElem.mp found
  exact ⟨head[k], List.getElem?_eq_getElem inside, hit⟩

theorem mem_setQueue {s : Reass} {hash k h : Nat} {fp fp' : Ipq}
    (member : fp' ∈ (setQueue s hash k fp).ipq h) : fp' ∈ s.ipq h ∨ h = hash ∧ fp' = fp := by
  simp only [setQueue, Function.update_apply] at member
  split at member
  · rename_i same
    subst same
    rcases List.mem_or_eq_of_mem_set member with old | new
    · exact Or.inl old
    · exact Or.inr ⟨rfl, new⟩
  · exact Or.inl member

theorem mem_fragFreef {s : Reass} {hash k h : Nat} {fp' : Ipq}
    (member : fp' ∈ (fragFreef s hash k).ipq h) : fp' ∈ s.ipq h := by
  simp only [fragFreef, Function.update_apply] at member
  split at member
  · rename_i same
    subst same
    exact List.mem_of_mem_eraseIdx member
  · exact member

theorem mem_trimQueues {s : Reass} {hash h : Nat} {fp' : Ipq}
    (member : fp' ∈ (trimQueues s hash).ipq h) : fp' ∈ s.ipq h := by
  unfold trimQueues at member
  split at member
  · split at member
    · exact mem_fragFreef member
    · split at member
      · exact mem_fragFreef member
      · exact member
  · exact member

theorem newQueue_ok {m : Packet} (ok : FragOk m) : QueueOk (newQueue m) where
  nonempty := List.cons_ne_nil _ _
  frags := fun f member => by
    cases List.mem_singleton.mp member
    exact ⟨ok, rfl⟩
  ordered := ⟨Nat.zero_le _, trivial⟩
  nfrags := rfl

theorem ecnCheck_tos {first m first' : Packet} (marked : ecnCheck first m = some first') :
    ∃ tos, first' = { first with ip := { first.ip with tos := tos } } := by
  dsimp only [ecnCheck] at marked
  split_ifs at marked <;> cases marked
  all_goals exact ⟨_, rfl⟩

/-- The CE mark changes neither where the first fragment sits nor its key. -/
theorem ecnCheck_queue {fp : Ipq} {first first' m : Packet} {others : List Packet} (ok : QueueOk fp)
    (shape : fp.frags = first :: others) (marked : ecnCheck first m = some first') :
    (first' :: others).map Packet.toPiece = fp.frags.map Packet.toPiece ∧
      ∀ f ∈ first' :: others, FragOk f ∧ f.key = fp.key := by
  obtain ⟨tos, rfl⟩ := ecnCheck_tos marked
  have firstOk := ok.frags first (by rw [shape]; exact List.mem_cons_self)
  refine ⟨by rw [shape]; rfl, fun f member => ?_⟩
  rcases List.mem_cons.mp member with rfl | later
  · exact ⟨⟨firstOk.1.len_eq, firstOk.1.fits, firstOk.1.nonempty⟩, firstOk.2⟩
  · exact ok.frags f (by rw [shape]; exact List.mem_cons_of_mem first later)

/-- `fp'` is the queue `fp` after `m` was added to it: the first fragment
takes the new one's CE mark, and `m` is inserted, or dropped where the queue
already holds all of it. -/
inductive Grown (fp : Ipq) (m : Packet) : Ipq → Prop
  | inserted {first first' : Packet} {others frags : List Packet} {dropped : Nat} :
      fp.frags = first :: others → ecnCheck first m = some first' →
      insertFrag none m (first' :: others) = some (frags, dropped) →
      Grown fp m { fp with frags := frags, nfrags := fp.nfrags + 1 - dropped.toUInt32 }
  | dropped {first first' : Packet} {others : List Packet} :
      fp.frags = first :: others → ecnCheck first m = some first' →
      insertFrag none m (first' :: others) = none →
      Grown fp m { fp with frags := first' :: others, nfrags := fp.nfrags + 1 - 1 }

theorem Grown.key {fp fp' : Ipq} {m : Packet} (grown : Grown fp m fp') : fp'.key = fp.key := by
  cases grown <;> rfl

theorem Grown.hash {fp fp' : Ipq} {m : Packet} (grown : Grown fp m fp') :
    ipreassHash fp'.src fp'.id = ipreassHash fp.src fp.id := by
  cases grown <;> rfl

theorem Grown.ttl {fp fp' : Ipq} {m : Packet} (grown : Grown fp m fp') : fp'.ttl = fp.ttl := by
  cases grown <;> rfl

/-- The loop over the fragments after the new one keeps those it does not dequeue. -/
theorem trimSuccs_length (m : Packet) :
    ∀ qs : List Packet, (trimSuccs m qs).1.length + (trimSuccs m qs).2 = qs.length
  | [] => rfl
  | q :: rest => by
    simp only [trimSuccs]
    split_ifs
    · simp
    · have := trimSuccs_length m rest
      simp only [List.length_cons]
      omega
    · simp

theorem placeFrag_length {p : Option Packet} {m : Packet} {after : List Packet} {r : List Packet × Nat}
    (placed : placeFrag p m after = some r) : r.1.length + r.2 = after.length + 1 := by
  obtain ⟨m', -, rfl⟩ := Option.map_eq_some_iff.mp placed
  have := trimSuccs_length m' after
  simp only [List.length_cons]
  omega

/-- An insertion adds one fragment and dequeues as many as it counts. -/
theorem insertFrag_length (m : Packet) :
    ∀ (p : Option Packet) (qs : List Packet) {r : List Packet × Nat}, insertFrag p m qs = some r →
      r.1.length + r.2 = qs.length + 1
  | _, [], _, placed => placeFrag_length placed
  | p, q :: rest, r, inserted => by
    simp only [insertFrag] at inserted
    split at inserted
    · exact placeFrag_length inserted
    · obtain ⟨r', rest', rfl⟩ := Option.map_eq_some_iff.mp inserted
      have := insertFrag_length m (some q) rest rest'
      simp only [List.length_cons]
      omega

theorem Grown.length_le {fp fp' : Ipq} {m : Packet} (grown : Grown fp m fp') :
    fp'.frags.length ≤ fp.frags.length + 1 := by
  cases grown with
  | @inserted first first' others frags dropped shape marked walked =>
    have count := insertFrag_length m none _ walked
    simp only [shape, List.length_cons] at count ⊢
    omega
  | @dropped first first' others shape marked walked =>
    simp [shape]

/-- `ipq_nfrags++`, and one decrement for each fragment dequeued or for the
new one dropped, keep `ipq_nfrags` the count of the fragments modulo `2 ^ 32`. -/
theorem Grown.counted {fp fp' : Ipq} {m : Packet} (counted : fp.nfrags = fp.frags.length.toUInt32)
    (grown : Grown fp m fp') : fp'.nfrags = fp'.frags.length.toUInt32 := by
  cases grown with
  | @inserted first first' others frags dropped shape marked walked =>
    have count := insertFrag_length m none _ walked
    simp only [List.length_cons] at count
    show fp.nfrags + 1 - dropped.toUInt32 = frags.length.toUInt32
    have le : dropped ≤ fp.frags.length + 1 := by
      rw [shape, List.length_cons]
      omega
    rw [counted, show frags.length = fp.frags.length + 1 - dropped by rw [shape, List.length_cons]; omega]
    simp only [Nat.toUInt32]
    rw [UInt32.ofNat_sub le, UInt32.ofNat_add]
    rfl
  | @dropped first first' others shape marked walked =>
    show fp.nfrags + 1 - 1 = (first' :: others).length.toUInt32
    rw [UInt32.add_sub_cancel, counted, shape, List.length_cons, List.length_cons]

/-- An insertion into a queue is the library's insertion at reach 0, and
leaves only well-formed fragments of the queue's or the new one's key. -/
theorem insert_spec {fp : Ipq} {first first' m : Packet} {others frags : List Packet} {dropped : Nat}
    (ok : QueueOk fp) (mOk : FragOk m) (shape : fp.frags = first :: others)
    (marked : ecnCheck first m = some first')
    (walked : insertFrag none m (first' :: others) = some (frags, dropped)) :
    insertFrom 0 m.toPiece (fp.frags.map Packet.toPiece) = some (frags.map Packet.toPiece, dropped) ∧
      ∀ f ∈ frags, FragOk f ∧ (f.key = m.key ∨ f.key = fp.key) := by
  obtain ⟨segs, oks⟩ := ecnCheck_queue ok shape marked
  obtain ⟨walk, walkOk⟩ := insertFrag_toPiece m mOk none (first' :: others) (fun _ none' => nomatch none')
    (fun f member => (oks f member).1)
  rw [walked, segs] at walk
  refine ⟨walk.symm, fun f member => ⟨walkOk _ walked f member, ?_⟩⟩
  obtain ⟨g, fromG, k, rfl⟩ := insertFrag_cut m none _ _ walked f member
  rcases List.mem_cons.mp fromG with rfl | queued
  · exact Or.inl rfl
  · exact Or.inr (oks g queued).2

theorem Grown.queueOk {fp fp' : Ipq} {m : Packet} (ok : QueueOk fp) (mOk : FragOk m)
    (same : m.key = fp.key) (grown : Grown fp m fp') : QueueOk fp' := by
  cases grown with
  | @inserted first first' others frags dropped shape marked walked =>
    obtain ⟨inserted, oks⟩ := insert_spec ok mOk shape marked walked
    have count := insertFrom_length m.toPiece 0 _ _ inserted
    simp only [List.length_map] at count
    refine ⟨fun empty => ?_, fun f member => ?_, ?_,
      (Grown.inserted shape marked walked).counted ok.nfrags⟩
    · change frags = [] at empty
      exact insertFrom_ne_nil m.toPiece 0 _ _ inserted (by rw [empty]; rfl)
    · obtain ⟨fOk, key⟩ := oks f member
      exact ⟨fOk, key.elim (fun fromM => fromM.trans same) id⟩
    · exact insertFrom_ordered m.toPiece 0 _ ok.ordered _ inserted
  | @dropped first first' others shape marked walked =>
    obtain ⟨segs, oks⟩ := ecnCheck_queue ok shape marked
    exact ⟨List.cons_ne_nil _ _, oks, segs ▸ ok.ordered, (Grown.dropped shape marked walked).counted ok.nfrags⟩

/-- After `m` is added, a byte the queue holds is one it held before or one
`m` carries there. -/
theorem Grown.valueAt {fp fp' : Ipq} {m : Packet} (ok : QueueOk fp) (mOk : FragOk m)
    (grown : Grown fp m fp') {x : Nat} {v : UInt8} (holds : valueAt (fp'.frags.map Packet.toPiece) x = some v) :
    valueAt (fp.frags.map Packet.toPiece) x = some v ∨ m.toPiece.get x = some v := by
  cases grown with
  | @inserted first first' others frags dropped shape marked walked =>
    obtain ⟨inserted, -⟩ := insert_spec ok mOk shape marked walked
    exact insertFrom_sourced m.toPiece 0 _ ok.ordered _ inserted x v holds
  | @dropped first first' others shape marked walked =>
    obtain ⟨segs, -⟩ := ecnCheck_queue ok shape marked
    exact Or.inl (segs ▸ holds)

end Queues

section Step

/-- The completion test passed on `fp`, and `d` is the datagram made of it. -/
def Completes (fp : Ipq) (d : Packet) : Prop :=
  ∃ next first last, scanNext 0 fp.frags = some next ∧ fp.frags.head? = some first ∧
    fp.frags.getLast? = some last ∧ last.mFrag = false ∧ next + first.ip.hlen ≤ ipMaxpacket ∧
    d = reassemble fp first next

/-- Each outcome of the completion test frees the queue or stores it back,
and it stores back only a queue within `maxfragsperpacket`. -/
theorem complete_fst (s : Reass) (hash k : Nat) (fp : Ipq) :
    (complete s hash k fp).1 = fragFreef s hash k ∨
      (complete s hash k fp).1 = setQueue s hash k fp ∧ fp.nfrags ≤ s.maxfragsperpacket := by
  have incomplete : ∀ r : Reass × Option Packet,
      r = (if fp.nfrags > s.maxfragsperpacket then (fragFreef s hash k, none)
        else (setQueue s hash k fp, none)) →
        r.1 = fragFreef s hash k ∨ r.1 = setQueue s hash k fp ∧ fp.nfrags ≤ s.maxfragsperpacket := by
    intro r chosen
    split at chosen <;> subst chosen
    · exact Or.inl rfl
    · exact Or.inr ⟨rfl, Nat.not_lt.mp ‹_›⟩
  dsimp only [complete]
  split
  · split
    · exact incomplete _ rfl
    · split
      · exact Or.inl rfl
      · exact Or.inl rfl
  · exact incomplete _ rfl

theorem complete_datagram {s : Reass} {hash k : Nat} {fp : Ipq} {d : Packet}
    (out : (complete s hash k fp).2 = some d) : Completes fp d := by
  dsimp only [complete] at out
  split at out
  · rename_i next last first scanned lastIs firstIs
    split at out
    · split at out <;> cases out
    · split at out
      · cases out
      · rename_i clear fits
        cases out
        exact ⟨next, first, last, scanned, firstIs, lastIs, by simpa using clear, by omega, rfl⟩
  · split at out <;> cases out

/-- A queue after a fragment is added is one from before, or, in the
fragment's bucket, its queue grown by it: within `maxfragsperpacket` where
the fragment was inserted, with the count it had where it was dropped. -/
theorem addFragment_queue {s : Reass} {hash k h : Nat} {m : Packet} {fp' : Ipq}
    (member : fp' ∈ (addFragment s hash k m).1.ipq h) :
    fp' ∈ s.ipq h ∨ h = hash ∧ ∃ fp, (s.ipq hash)[k]? = some fp ∧ Grown fp m fp' ∧
      (fp'.nfrags ≤ s.maxfragsperpacket ∨ fp'.nfrags = fp.nfrags) := by
  dsimp only [addFragment] at member
  split at member
  · exact Or.inl member
  · rename_i fp found
    split at member
    · exact Or.inl member
    · rename_i first others shape
      split at member
      · exact Or.inl member
      · rename_i first' marked
        split at member
        · rename_i walked
          rcases mem_setQueue member with old | ⟨rfl, rfl⟩
          · exact Or.inl old
          · exact Or.inr ⟨rfl, fp, found, Grown.dropped shape marked walked, Or.inr (by simp)⟩
        · rename_i frags dropped walked
          rcases complete_fst s hash k _ with freed | ⟨stored, within⟩
          · rw [freed] at member
            exact Or.inl (mem_fragFreef member)
          · rw [stored] at member
            rcases mem_setQueue member with old | ⟨rfl, rfl⟩
            · exact Or.inl old
            · exact Or.inr ⟨rfl, fp, found, Grown.inserted shape marked walked, Or.inl within⟩

theorem addFragment_datagram {s : Reass} {hash k : Nat} {m d : Packet}
    (out : (addFragment s hash k m).2 = some d) :
    ∃ fp fp', (s.ipq hash)[k]? = some fp ∧ Grown fp m fp' ∧ Completes fp' d := by
  dsimp only [addFragment] at out
  split at out
  · cases out
  · rename_i fp found
    split at out
    · cases out
    · rename_i first others shape
      split at out
      · cases out
      · rename_i first' marked
        split at out
        · cases out
        · rename_i frags dropped walked
          exact ⟨fp, _, found, Grown.inserted shape marked walked, complete_datagram out⟩

/-- What one call does to the queues: each queue after it is one from before,
or, in the fragment's bucket, the new queue of a fragment whose datagram had
none, or the fragment's queue with it added. -/
theorem ipReass_queue {s : Reass} {m : Packet} {allocOk : Bool} {h : Nat} {fp' : Ipq}
    (member : fp' ∈ (ipReass s m allocOk).1.ipq h) :
    fp' ∈ s.ipq h ∨ ∃ m', prepare m = some m' ∧ h = ipreassHash m.ip.src m.ip.id ∧
      (fp' = newQueue m' ∧ findQueue (s.ipq h) m.ip = none ∨
        ∃ fp ∈ s.ipq h, fp.matches m.ip = true ∧ Grown fp m' fp' ∧
          (fp'.nfrags ≤ s.maxfragsperpacket ∨ fp'.nfrags = fp.nfrags)) := by
  -- the trim before a new queue only frees queues
  have trimmed : ∀ t : Reass, t = (if (findQueue (s.ipq (ipreassHash m.ip.src m.ip.id)) m.ip).isNone
      then trimQueues s (ipreassHash m.ip.src m.ip.id) else s) → ∀ h fp', fp' ∈ t.ipq h → fp' ∈ s.ipq h := by
    intro t chosen h fp' member
    split at chosen
    · rw [chosen] at member
      exact mem_trimQueues member
    · rw [chosen] at member
      exact member
  unfold ipReass at member
  split at member
  · exact Or.inl member
  · dsimp only at member
    split at member
    · exact Or.inl (trimmed _ rfl h fp' member)
    · rename_i m' prepared
      split at member
      · rename_i notFound
        split at member
        · simp only [Function.update_apply] at member
          split at member
          · rename_i same
            rcases List.mem_cons.mp member with rfl | old
            · exact Or.inr ⟨m', prepared, same, Or.inl ⟨rfl, same ▸ notFound⟩⟩
            · subst same
              exact Or.inl (trimmed _ rfl _ fp' old)
          · exact Or.inl (trimmed _ rfl h fp' member)
        · exact Or.inl (trimmed _ rfl h fp' member)
      · rename_i k found
        -- a queue was found, so nothing was trimmed
        rw [found, if_neg (show ¬(some k).isNone = true by simp)] at member
        rcases addFragment_queue member with old | ⟨rfl, fp, atK, grown, counted⟩
        · exact Or.inl old
        · obtain ⟨fp0, atK0, hit⟩ := findQueue_spec found
          rw [atK0] at atK
          cases atK
          exact Or.inr ⟨m', prepared, rfl, Or.inr ⟨fp, List.mem_of_getElem? atK0, hit, grown, counted⟩⟩

theorem ipReass_completes {s : Reass} {m : Packet} {allocOk : Bool} {d : Packet}
    (out : (ipReass s m allocOk).2 = some d) :
    ∃ m', prepare m = some m' ∧ ∃ h0, ∃ fp ∈ s.ipq h0, fp.matches m.ip = true ∧
      ∃ fp', Grown fp m' fp' ∧ Completes fp' d := by
  unfold ipReass at out
  split at out
  · cases out
  · dsimp only at out
    split at out
    · cases out
    · rename_i m' prepared
      split at out
      · split at out <;> cases out
      · rename_i k found
        rw [found, if_neg (show ¬(some k).isNone = true by simp)] at out
        obtain ⟨fp, fp', atK, grown, completes⟩ := addFragment_datagram out
        obtain ⟨fp0, atK0, hit⟩ := findQueue_spec found
        rw [atK0] at atK
        cases atK
        exact ⟨m', prepared, _, fp, List.mem_of_getElem? atK0, hit, fp', grown, completes⟩

end Step

section Datagram

/-- What a datagram `ip_reass` hands on is made of: fragments of `ip_len`
bytes each, one after another from offset 0 to a last one without `IP_MF`;
an `ip_len` that counts the header and those bytes, within `IP_MAXPACKET`;
and bytes that fragments of this datagram among `inputs` carried at their
positions. -/
structure DatagramOk (inputs : List Packet) (d : Packet) : Prop where
  contiguous : ∃ frags : List Packet, d.payload = frags.flatMap (·.payload) ∧
    (∀ f ∈ frags, f.ip.len.toNat = f.payload.length) ∧
    (frags.head?.map fun f => f.ip.off.toNat) = some 0 ∧
    frags.IsChain (fun a b => a.ip.off.toNat + a.ip.len.toNat = b.ip.off.toNat) ∧
    (frags.getLast?.map (·.mFrag)) = some false
  fits : d.ip.hlen + d.payload.length ≤ ipMaxpacket
  len : d.ip.len.toNat = d.ip.hlen + d.payload.length
  bytes : ∀ k b, d.payload[k]? = some b → ∃ g ∈ inputs, g.key = d.key ∧ g.fragPiece.get k = some b

/-- The completion scan passes only fragments that start at `pos` and each
end where the next begins. -/
theorem scanNext_chain : ∀ (pos : Nat) (qs : List Packet) (next : Nat), scanNext pos qs = some next →
    (∀ q ∈ qs.head?, q.ip.off.toNat = pos) ∧
      qs.IsChain (fun a b => a.ip.off.toNat + a.ip.len.toNat = b.ip.off.toNat)
  | pos, [], next, _ => ⟨by simp, List.IsChain.nil⟩
  | pos, q :: rest, next, scanned => by
    unfold scanNext at scanned
    split at scanned
    · cases scanned
    · rename_i here
      have start : q.ip.off.toNat = pos := by omega
      obtain ⟨restHead, restChain⟩ := scanNext_chain (pos + q.ip.len.toNat) rest next scanned
      refine ⟨fun q' first => ?_, ?_⟩
      · rw [List.head?_cons, Option.mem_some_iff] at first
        rw [← first, start]
      · cases rest with
        | nil => exact List.isChain_singleton q
        | cons r rest' => exact List.isChain_cons_cons.mpr ⟨by rw [restHead r rfl, start], restChain⟩

theorem Completes.datagramOk {inputs : List Packet} {fp : Ipq} {d : Packet} (ok : QueueOk fp)
    (src : QueueSourced inputs fp) (completes : Completes fp d) : DatagramOk inputs d := by
  obtain ⟨next, first, last, scanned, firstIs, lastIs, clear, fits, rfl⟩ := completes
  have oks : ∀ f ∈ fp.frags, FragOk f := fun f member => (ok.frags f member).1
  obtain ⟨run, total⟩ := scanNext_spec 0 fp.frags oks next scanned
  obtain ⟨start, chain⟩ := scanNext_chain 0 fp.frags next scanned
  have firstKey := (ok.frags first (List.mem_of_mem_head? firstIs)).2
  have payload : (reassemble fp first next).payload = fp.frags.flatMap (·.payload) := rfl
  have length : (reassemble fp first next).payload.length = next := by rw [payload, total, Nat.zero_add]
  have hlen : (reassemble fp first next).ip.hlen = first.ip.hlen := rfl
  unfold ipMaxpacket at fits
  refine ⟨⟨fp.frags, payload, fun f member => (oks f member).len_eq, ?_, chain, ?_⟩, ?_, ?_, ?_⟩
  · rw [firstIs, Option.map_some, start first firstIs]
  · rw [lastIs, Option.map_some, clear]
  · rw [hlen, length]
    unfold ipMaxpacket
    omega
  · show (first.ip.hlen + next).toUInt16.toNat = _
    rw [hlen, length, toNat_toUInt16 (by omega)]
  · intro k b byte
    have inside : k < next := by
      rw [← length]
      exact (List.getElem?_eq_some_iff.mp byte).1
    -- the scan took every fragment, so the queue holds the datagram's bytes
    have held := (takeRun_spec 0 (fp.frags.map Packet.toPiece) ok.ordered).1 k
    simp only [run, Nat.zero_add, runData_map_toPiece] at held
    rw [← payload, length, if_pos inside, byte] at held
    obtain ⟨g, gIn, gKey, gGet⟩ := src k b held
    refine ⟨g, gIn, ?_, gGet⟩
    -- the datagram has the first fragment's `ip_id` and `ip_p` and the queue's addresses
    rw [gKey]
    simp only [Packet.key, Ipq.key, Prod.mk.injEq] at firstKey
    simp only [Packet.key, Ipq.key, reassemble, firstKey]

end Datagram

section Run

variable {s : Reass} {m : Packet} {inputs : List Packet}

/-- The queue `m` was added to holds bytes from earlier fragments of its
datagram or from `m`. -/
theorem Grown.sourced {fp fp' : Ipq} {m' : Packet} (ok : QueueOk fp) (mOk : PacketOk m)
    (prepared : prepare m = some m') (same : fp.matches m.ip = true) (grown : Grown fp m' fp')
    (src : QueueSourced inputs fp) : QueueSourced (inputs ++ [m]) fp' := by
  intro x v holds
  rw [grown.key]
  rcases grown.valueAt ok (prepare_spec mOk prepared).1 holds with old | fresh
  · obtain ⟨g, gIn, gKey, gGet⟩ := src x v old
    exact ⟨g, List.mem_append_left _ gIn, gKey, gGet⟩
  · rw [toPiece_get_of_prepare mOk prepared] at fresh
    exact ⟨m, List.mem_append_right _ List.mem_cons_self, Ipq.key_of_matches same, fresh⟩

theorem ipReass_ok (allocOk : Bool) (ok : ReassOk s) (mOk : PacketOk m) :
    ReassOk (ipReass s m allocOk).1 := by
  intro h fp' member
  rcases ipReass_queue member with old | ⟨m', prepared, -, ⟨rfl, -⟩ | ⟨fp, member0, same, grown, -⟩⟩
  · exact ok h fp' old
  · exact newQueue_ok (prepare_spec mOk prepared).1
  · have spec := prepare_spec mOk prepared
    exact grown.queueOk (ok h fp member0) spec.1 (spec.2.2.2.1.trans (Ipq.key_of_matches same))

theorem ipReass_sourced (allocOk : Bool) (ok : ReassOk s) (src : Sourced inputs s) (mOk : PacketOk m) :
    Sourced (inputs ++ [m]) (ipReass s m allocOk).1 := by
  intro h fp' member
  rcases ipReass_queue member with old | ⟨m', prepared, -, ⟨rfl, -⟩ | ⟨fp, member0, same, grown, -⟩⟩
  · intro x v holds
    obtain ⟨g, gIn, gKey, gGet⟩ := src h fp' old x v holds
    exact ⟨g, List.mem_append_left _ gIn, gKey, gGet⟩
  · -- a new queue holds the fragment alone
    intro x v holds
    have single : (newQueue m').frags.map Packet.toPiece = [m'.toPiece] := rfl
    rw [single, valueAt_cons, valueAt_nil, Option.or_none, toPiece_get_of_prepare mOk prepared] at holds
    exact ⟨m, List.mem_append_right _ List.mem_cons_self, (prepare_spec mOk prepared).2.2.2.1.symm, holds⟩
  · exact grown.sourced (ok h fp member0) mOk prepared same (src h fp member0)

theorem ipReass_datagram (allocOk : Bool) (ok : ReassOk s) (src : Sourced inputs s) (mOk : PacketOk m)
    {d : Packet} (out : (ipReass s m allocOk).2 = some d) : DatagramOk (inputs ++ [m]) d := by
  obtain ⟨m', prepared, h0, fp, member0, same, fp', grown, completes⟩ := ipReass_completes out
  have spec := prepare_spec mOk prepared
  have queue := grown.queueOk (ok h0 fp member0) spec.1 (spec.2.2.2.1.trans (Ipq.key_of_matches same))
  exact completes.datagramOk queue (grown.sourced (ok h0 fp member0) mOk prepared same (src h0 fp member0))

/-- Over a whole run, the queues stay well formed and hold only bytes the
fragments given so far carried. -/
theorem run_invariant (steps : List (Packet × Bool)) (oks : ∀ st ∈ steps, PacketOk st.1) :
    ∀ (s : Reass) (inputs : List Packet), ReassOk s → Sourced inputs s →
      ReassOk (run s steps).1 ∧ Sourced (inputs ++ steps.map Prod.fst) (run s steps).1 := by
  induction steps with
  | nil =>
    intro s inputs ok src
    refine ⟨ok, ?_⟩
    rw [List.map_nil, List.append_nil]
    exact src
  | cons st rest ih =>
    intro s inputs ok src
    obtain ⟨m, allocOk⟩ := st
    have mOk := oks (m, allocOk) List.mem_cons_self
    have later := ih (fun st member => oks st (List.mem_cons_of_mem _ member)) (ipReass s m allocOk).1
      (inputs ++ [m]) (ipReass_ok allocOk ok mOk) (ipReass_sourced allocOk ok src mOk)
    rw [List.append_assoc, List.singleton_append] at later
    exact later

theorem empty_invariant (empty : ∀ h, s.ipq h = []) : ReassOk s ∧ Sourced [] s := by
  refine ⟨fun h fp member => ?_, fun h fp member => ?_⟩ <;> rw [empty h] at member <;> cases member

/-- A fragment that fails the `IP_MF` check is handed on nowhere and adds no
queue: the queues after the call are among those before it. -/
theorem ipReass_of_prepare_none (allocOk : Bool) (bad : prepare m = none) :
    (ipReass s m allocOk).2 = none ∧ ∀ h, ∀ fp ∈ (ipReass s m allocOk).1.ipq h, fp ∈ s.ipq h := by
  refine ⟨?_, fun h fp member => ?_⟩
  · cases out : (ipReass s m allocOk).2 with
    | none => rfl
    | some d =>
      obtain ⟨m', prepared, -⟩ := ipReass_completes out
      rw [bad] at prepared
      cases prepared
  · rcases ipReass_queue member with old | ⟨m', prepared, -⟩
    · exact old
    · rw [bad] at prepared
      cases prepared

theorem prepare_eq_none_iff (m : Packet) :
    prepare m = none ↔ m.ip.off &&& ipMf ≠ 0 ∧
      (m.ip.len - m.ip.hlen.toUInt16 = 0 ∨ (m.ip.len - m.ip.hlen.toUInt16) &&& 7 ≠ 0) := by
  dsimp only [prepare]
  split_ifs with flag bad <;> simp_all

end Run

theorem ipReass_correct :
    (∀ (s : Reass) (steps : List (Packet × Bool)), (∀ h, s.ipq h = []) → (∀ st ∈ steps, PacketOk st.1) →
      ∀ h, ∀ fp ∈ (run s steps).1.ipq h,
        fp.frags.Pairwise (fun a b => a.ip.off.toNat + a.ip.len.toNat ≤ b.ip.off.toNat) ∧
        (∀ f ∈ fp.frags, f.key = fp.key ∧ f.ip.len.toNat = f.payload.length ∧
          (f.mFrag = true → 0 < f.ip.len.toNat)) ∧
        fp.nfrags = fp.frags.length.toUInt32) ∧
    (∀ (s : Reass) (steps : List (Packet × Bool)) (m : Packet) (allocOk : Bool) (d : Packet),
      (∀ h, s.ipq h = []) → (∀ st ∈ steps, PacketOk st.1) → PacketOk m →
      (ipReass (run s steps).1 m allocOk).2 = some d → DatagramOk (steps.map Prod.fst ++ [m]) d) ∧
    (∀ (s : Reass) (m : Packet) (allocOk : Bool), m.ip.off &&& ipMf ≠ 0 →
      (m.ip.len - m.ip.hlen.toUInt16 = 0 ∨ (m.ip.len - m.ip.hlen.toUInt16) &&& 7 ≠ 0) →
      (ipReass s m allocOk).2 = none ∧ ∀ h, ∀ fp ∈ (ipReass s m allocOk).1.ipq h, fp ∈ s.ipq h) := by
  refine ⟨fun s steps empty oks h fp member => ?_, fun s steps m allocOk d empty oks mOk out => ?_,
    fun s m allocOk flag bad => ipReass_of_prepare_none allocOk ((prepare_eq_none_iff m).mpr ⟨flag, bad⟩)⟩
  · obtain ⟨ok0, src0⟩ := empty_invariant empty
    have ok := (run_invariant steps oks s [] ok0 src0).1 h fp member
    refine ⟨ok.sorted, fun f inQueue => ?_, ok.nfrags⟩
    obtain ⟨fOk, key⟩ := ok.frags f inQueue
    exact ⟨key, fOk.len_eq, fOk.nonempty⟩
  · obtain ⟨ok0, src0⟩ := empty_invariant empty
    obtain ⟨ok, src⟩ := run_invariant steps oks s [] ok0 src0
    rw [List.nil_append] at src
    exact ipReass_datagram allocOk ok src mOk out

theorem ipReass_correct_pair :
    let frag0 : Packet := ⟨⟨0x45, 0, 28, 1, 0x2000, 17, 1, 2⟩, false, [1, 2, 3, 4, 5, 6, 7, 8]⟩
    let frag1 : Packet := ⟨⟨0x45, 0, 28, 1, 1, 17, 1, 2⟩, false, [9, 10, 11, 12, 13, 14, 15, 16]⟩
    let bad : Packet := ⟨⟨0x45, 0, 20, 2, 0x2000, 17, 1, 2⟩, false, []⟩
    let d : Packet := ⟨⟨0x45, 0, 36, 1, 0, 17, 1, 2⟩, true, (List.range 16).map fun i => (i + 1).toUInt8⟩
    let s : Reass := ⟨fun _ => [], 0, 16, 16⟩
    (∀ h, ∀ fp ∈ (run s [(frag0, true)]).1.ipq h, fp.nfrags = fp.frags.length.toUInt32) ∧
      (ipReass (run s [(frag0, true)]).1 frag1 true).2 = some d ∧ DatagramOk [frag0, frag1] d ∧
      (ipReass (run s [(frag0, true)]).1 bad true).2 = none := by
  intro frag0 frag1 bad d s
  have empty : ∀ h, s.ipq h = [] := fun _ => rfl
  have ok0 : PacketOk frag0 := ⟨by decide +kernel, by decide +kernel⟩
  have ok1 : PacketOk frag1 := ⟨by decide +kernel, by decide +kernel⟩
  have oks : ∀ st ∈ [(frag0, true)], PacketOk st.1 := by
    intro st member
    rw [List.mem_singleton.mp member]
    exact ok0
  have out : (ipReass (run s [(frag0, true)]).1 frag1 true).2 = some d := by decide +kernel
  refine ⟨fun h fp member => (ipReass_correct.1 s _ empty oks h fp member).2.2, out,
    ipReass_correct.2.1 s _ frag1 true d empty oks ok1 out, ?_⟩
  exact (ipReass_correct.2.2 (run s [(frag0, true)]).1 bad true (by decide) (Or.inl (by decide))).1

/-- Three runs the claim as first stated does not cover: a fragment whose data
ends past byte 65535 makes a trimmed offset wrap, and the queue is no longer
sorted; a last fragment with no data is queued; and a fragment that fails the
`IP_MF` check still lets the trim before a new queue free another datagram's
queue. -/
theorem ipReass_wrap_empty_trim :
    ((run ⟨fun _ => [], 0, 16, 16⟩
        [(⟨⟨0x45, 0, 30, 1, 0x1fff, 17, 1, 2⟩, false, List.replicate 10 7⟩, true),
         (⟨⟨0x45, 0, 40, 1, 0x1fff, 17, 1, 2⟩, false, List.replicate 20 9⟩, true)]).1.ipq
        (ipreassHash 1 1)).map (fun fp => fp.frags.map fun f => (f.ip.off, f.ip.len)) =
      [[(65528, 10), (2, 10)]] ∧
    ((run ⟨fun _ => [], 0, 16, 16⟩ [(⟨⟨0x45, 0, 20, 1, 1, 17, 1, 2⟩, false, []⟩, true)]).1.ipq
        (ipreassHash 1 1)).map (fun fp => fp.frags.map fun f => f.ip.len) = [[0]] ∧
    ((run ⟨fun _ => [], 0, 1, 16⟩
        [(⟨⟨0x45, 0, 28, 0, 0x2000, 17, 0, 1⟩, false, List.replicate 8 1⟩, true),
         (⟨⟨0x45, 0, 28, 0, 0x2000, 17, 0, 2⟩, false, List.replicate 8 2⟩, true)]).1.ipq 0).length = 2 ∧
    ((ipReass (run ⟨fun _ => [], 0, 1, 16⟩
        [(⟨⟨0x45, 0, 28, 0, 0x2000, 17, 0, 1⟩, false, List.replicate 8 1⟩, true),
         (⟨⟨0x45, 0, 28, 0, 0x2000, 17, 0, 2⟩, false, List.replicate 8 2⟩, true)]).1
        ⟨⟨0x45, 0, 20, 0, 0x2000, 17, 0, 3⟩, false, []⟩ true).1.ipq 0).length = 1 := by
  exact ⟨by decide +kernel, by decide +kernel, by decide +kernel, by decide +kernel⟩

end Xnu.IpReass
