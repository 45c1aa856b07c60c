import Xnu.Bpf.Safety

namespace Xnu.Bpf

/-! The mbuf path of `bpf_filter` against the contiguous one: where
`m_hdr_offset` lands in the flattened packet, what the three readers return,
and when a whole run agrees with a run on the flattened bytes. -/

@[simp] theorem Mbuf.flatten_nil : Mbuf.flatten [] = [] := rfl

@[simp] theorem Mbuf.flatten_cons (m : Mbuf) (rest : List Mbuf) :
    Mbuf.flatten (m :: rest) = m.mData ++ Mbuf.flatten rest := rfl

@[simp] theorem Mbuf.flatten_append (pre rest : List Mbuf) :
    Mbuf.flatten (pre ++ rest) = Mbuf.flatten pre ++ Mbuf.flatten rest := by
  simp [Mbuf.flatten]

/-- The walk stops in an mbuf of the chain, at an offset inside it, after
passing exactly the bytes before it. -/
theorem mChainOffset_some {chain : List Mbuf} {k j : Nat} {cur : List UInt8} {next : List Mbuf}
    (found : mChainOffset chain k = some (cur, j, next)) :
    ∃ pre : List Mbuf, chain = pre ++ ⟨cur⟩ :: next ∧ k = (Mbuf.flatten pre).length + j ∧
      j < cur.length := by
  induction chain generalizing k with
  | nil => simp [mChainOffset] at found
  | cons m rest ih =>
    simp only [mChainOffset] at found
    split at found
    · rename_i past
      obtain ⟨pre, shape, offset, inside⟩ := ih found
      exact ⟨m :: pre, by simp [shape], by simp; omega, inside⟩
    · rename_i here
      cases found
      exact ⟨[], by simp, by simp, by omega⟩

theorem mChainOffset_none {chain : List Mbuf} {k : Nat} :
    mChainOffset chain k = none ↔ (Mbuf.flatten chain).length ≤ k := by
  induction chain generalizing k with
  | nil => simp [mChainOffset]
  | cons m rest ih =>
    simp only [mChainOffset, Mbuf.flatten_cons, List.length_append]
    split
    · rw [ih]
      omega
    · simp only [reduceCtorEq, false_iff]
      omega

/-- `m_hdr_offset` points at offset `j` of a buffer that sits in the flattened
packet after `pre`, and `*m_p` is the chain after that buffer. -/
theorem mHdrOffset_some {chain : List Mbuf} {hdr cur : List UInt8} {k j : Nat} {next : List Mbuf}
    (found : mHdrOffset chain hdr k = some (cur, j, next)) :
    ∃ pre : List UInt8, hdr ++ Mbuf.flatten chain = pre ++ cur ++ Mbuf.flatten next ∧
      k = pre.length + j ∧ j < cur.length ∧ ∃ skipped, chain = skipped ++ next := by
  unfold mHdrOffset at found
  split at found
  · rename_i past
    obtain ⟨pre, shape, offset, inside⟩ := mChainOffset_some found
    refine ⟨hdr ++ Mbuf.flatten pre, by simp [shape], by simp; omega, inside,
      pre ++ [⟨cur⟩], by simp [shape]⟩
  · rename_i here
    cases found
    exact ⟨[], by simp, by simp, by omega, [], by simp⟩

theorem mHdrOffset_none {chain : List Mbuf} {hdr : List UInt8} {k : Nat} :
    mHdrOffset chain hdr k = none ↔ (hdr ++ Mbuf.flatten chain).length ≤ k := by
  unfold mHdrOffset
  split
  · rw [mChainOffset_none, List.length_append]
    omega
  · simp only [reduceCtorEq, false_iff, List.length_append]
    omega


/-! What a `bp_x*` reader owes: the value read out of the flattened packet with
`*err == 0`, or `0` with `*err == 1` when the read does not fit. -/

def xResult {α : Type} [Zero α] : Option α → α × Bool
  | some v => (v, false)
  | none => (0, true)

theorem map_eq_xResult {α : Type} [Zero α] {r : Option α} (found : r.isSome) :
    r.map (fun v => (v, false)) = some (xResult r) := by
  obtain ⟨v, rfl⟩ := Option.isSome_iff_exists.mp found
  rfl

theorem xResult_map {α β : Type} [Zero α] [Zero β] (f : α → β) (zero : f 0 = 0) (r : Option α) :
    (fun p : α × Bool => (f p.1, p.2)) (xResult r) = xResult (r.map f) := by
  cases r with
  | none => simp [xResult, zero]
  | some v => rfl

/-- Every mbuf holds a byte, and every mbuf that another follows holds at least
three: no word then straddles three buffers and no half-word runs into an
empty one. -/
def Mbuf.WellSpread : List Mbuf → Prop
  | [] => True
  | m :: rest => 0 < m.mData.length ∧ (rest ≠ [] → 3 ≤ m.mData.length) ∧ Mbuf.WellSpread rest

instance Mbuf.decWellSpread : (chain : List Mbuf) → Decidable (Mbuf.WellSpread chain)
  | [] => isTrue trivial
  | _ :: rest =>
    have := Mbuf.decWellSpread rest
    inferInstanceAs (Decidable (_ ∧ _ ∧ _))

theorem Mbuf.WellSpread.next {skipped : List Mbuf} {n : Mbuf} {rest : List Mbuf}
    (spread : Mbuf.WellSpread (skipped ++ n :: rest)) :
    0 < n.mData.length ∧ (rest ≠ [] → 3 ≤ n.mData.length) := by
  induction skipped with
  | nil => exact ⟨spread.1, spread.2.1⟩
  | cons m skipped ih => exact ih spread.2.2

/-! Splicing the current and the next buffer. -/

theorem getWordFromBuffers_drop (cur np : List UInt8) (j n : Nat) :
    getWordFromBuffers cur j np n = getWordFromBuffers (cur.drop j) 0 np n := by
  unfold getWordFromBuffers
  split <;> simp only [List.getElem?_drop, Nat.add_zero]

theorem getWordFromBuffers_head {cp np tail : List UInt8} (nonempty : 0 < cp.length)
    (short : cp.length < 4) (enough : 4 ≤ cp.length + np.length) :
    getWordFromBuffers cp 0 np cp.length = readWord (cp ++ (np ++ tail)) 0 := by
  rcases cp with _ | ⟨c0, _ | ⟨c1, _ | ⟨c2, _ | ⟨c3, rest⟩⟩⟩⟩
  · simp at nonempty
  · rcases np with _ | ⟨n0, _ | ⟨n1, _ | ⟨n2, rest⟩⟩⟩ <;> simp at enough
    rfl
  · rcases np with _ | ⟨n0, _ | ⟨n1, rest⟩⟩ <;> simp at enough
    rfl
  · rcases np with _ | ⟨n0, rest⟩
    · simp at enough
    · rfl
  · simp at short
    omega

theorem readWord_drop (cur rest : List UInt8) {j : Nat} (inside : j ≤ cur.length) :
    readWord (cur ++ rest) j = readWord (cur.drop j ++ rest) 0 := by
  have split : cur ++ rest = cur.take j ++ (cur.drop j ++ rest) := by
    rw [← List.append_assoc, List.take_append_drop]
  have len : (cur.take j).length = j := List.length_take_of_le inside
  rw [split, ← readWord_append_offset (cur.take j) _ 0, len, Nat.add_zero]

/-! The three readers against the flattened packet. `m_xbyte` is exact on
every chain; `m_xword` and `m_xhalf` are exact on well-spread ones. -/

theorem mXbyte_eq (chain : List Mbuf) (hdr : List UInt8) (k : Nat) :
    mXbyte chain hdr k = some (xResult (hdr ++ Mbuf.flatten chain)[k]?) := by
  unfold mXbyte
  split
  · rename_i past
    rw [mHdrOffset_none] at past
    rw [List.getElem?_eq_none past]
    rfl
  · rename_i cur j next found
    obtain ⟨pre, shape, rfl, inside, -⟩ := mHdrOffset_some found
    have read : (hdr ++ Mbuf.flatten chain)[pre.length + j]? = cur[j]? := by
      rw [shape, List.append_assoc, getElem?_append_offset, List.getElem?_append_left inside]
    rw [read, List.getElem?_eq_getElem inside]
    rfl

theorem mXword_eq {chain : List Mbuf} (spread : Mbuf.WellSpread chain) (hdr : List UInt8) (k : Nat) :
    mXword chain hdr k = some (xResult (readWord (hdr ++ Mbuf.flatten chain) k)) := by
  unfold mXword
  split
  · rename_i past
    rw [mHdrOffset_none] at past
    rw [readWord_eq_none (by omega)]
    rfl
  · rename_i cur j next found
    obtain ⟨pre, shape, rfl, inside, skipped, rfl⟩ := mHdrOffset_some found
    rw [shape, List.append_assoc, readWord_append_offset]
    split
    · rename_i fits
      rw [readWord_append_inside _ (by omega)]
      exact map_eq_xResult (readWord_isSome_iff.mpr (by omega))
    · rename_i short
      split
      · rw [readWord_eq_none (by simp; omega)]
        rfl
      · rename_i n rest
        obtain ⟨_, three⟩ := Mbuf.WellSpread.next spread
        split
        · rename_i few
          have last : rest = [] := by
            by_contra more
            have := three more
            omega
          subst last
          rw [readWord_eq_none (by simp; omega)]
          rfl
        · rename_i enough
          have len : (cur.drop j).length = cur.length - j := List.length_drop
          rw [Mbuf.flatten_cons, readWord_drop _ _ (by omega), getWordFromBuffers_drop, ← len,
            getWordFromBuffers_head (by omega) (by omega) (by omega)]
          exact map_eq_xResult (readWord_isSome_iff.mpr (by simp; omega))

theorem mXhalf_eq {chain : List Mbuf} (spread : Mbuf.WellSpread chain) (hdr : List UInt8) (k : Nat) :
    mXhalf chain hdr k = some (xResult (readHalf (hdr ++ Mbuf.flatten chain) k)) := by
  unfold mXhalf
  split
  · rename_i past
    rw [mHdrOffset_none] at past
    rw [readHalf_eq_none (by omega)]
    rfl
  · rename_i cur j next found
    obtain ⟨pre, shape, rfl, inside, skipped, rfl⟩ := mHdrOffset_some found
    rw [shape, List.append_assoc, readHalf_append_offset]
    split
    · rename_i fits
      rw [readHalf_append_inside _ (by omega)]
      exact map_eq_xResult (readHalf_isSome_iff.mpr (by omega))
    · rename_i short
      split
      · rw [readHalf_eq_none (by simp; omega)]
        rfl
      · rename_i n rest
        obtain ⟨full, -⟩ := Mbuf.WellSpread.next spread
        have last : j + 1 = cur.length + 0 := by omega
        have first : (n.mData ++ Mbuf.flatten rest)[0]? = n.mData[0]? :=
          List.getElem?_append_left full
        simp only [readHalf, Mbuf.flatten_cons, List.getElem?_append_left inside, last,
          getElem?_append_offset, first, List.getElem?_eq_getElem inside,
          List.getElem?_eq_getElem full]
        rfl

/-! The readers of a packet whose chain is well spread. -/

section Packet

variable {bp : BpfPacket} (mbuf : bp.bpfpType = .mbuf)

include mbuf in
theorem BpfInput.packet_xbyte (k : UInt32) :
    (BpfInput.packet bp).xbyte k = some (xResult (bp.bytes[k.toNat]?.map UInt8.toUInt32)) := by
  simp only [BpfInput.xbyte, bpXbyte, mbuf, mXbyte_eq, Option.map_some]
  exact congrArg some (xResult_map _ rfl _)

variable (spread : Mbuf.WellSpread bp.bpfpMbuf)

include mbuf spread in
theorem BpfInput.packet_xword (k : UInt32) :
    (BpfInput.packet bp).xword k = some (xResult (readWord bp.bytes k.toNat)) := by
  simp only [BpfInput.xword, bpXword, mbuf, mXword_eq spread]
  rfl

include mbuf spread in
theorem BpfInput.packet_xhalf (k : UInt32) :
    (BpfInput.packet bp).xhalf k = some (xResult ((readHalf bp.bytes k.toNat).map UInt16.toUInt32)) := by
  simp only [BpfInput.xhalf, bpXhalf, mbuf, mXhalf_eq spread, Option.map_some]
  exact congrArg some (xResult_map _ rfl _)

end Packet

/-! One step of the packet run against one step of the flattened run. -/

/-- `X + k` of an indirect load at `m.pc` does not wrap. -/
def IndirectFits (prog : List BpfInsn) (m : BpfMachine) : Prop :=
  ∀ insn size, prog[m.pc]? = some insn → bpfDecode insn.code = some (.ldInd size) →
    m.x.toNat + insn.k.toNat < 2 ^ 32

/-- The states a run of `bpf_filter` passes through. -/
inductive BpfReach (prog : List BpfInsn) (p : BpfInput) (wirelen buflen : UInt32) :
    BpfMachine → Prop
  | start : BpfReach prog p wirelen buflen BpfMachine.init
  | next {m m' : BpfMachine} : BpfReach prog p wirelen buflen m →
      bpfStep prog p wirelen buflen m = some (.next m') → BpfReach prog p wirelen buflen m'

/-- A load that is carried out: the register is set, or the packet rejected. -/
def bpfLoadResult (read : Option UInt32) (load : UInt32 → BpfMachine) : Option BpfStep :=
  some (match read with
    | some v => .next (load v)
    | none => .ret 0)

theorem bpfLoad_packet {outside : Bool} (guard : outside = true) (read : Option UInt32)
    (contiguous : Option UInt32) (load : UInt32 → BpfMachine) :
    bpfLoad 0 outside (some (xResult read)) contiguous load = bpfLoadResult read load := by
  subst guard
  cases read <;> rfl

theorem bpfLoad_bytes {buflen : UInt32} (nonzero : buflen ≠ 0) {outside : Bool}
    {read : Option UInt32} (guard : outside = read.isNone) (fallback : Option (UInt32 × Bool))
    (load : UInt32 → BpfMachine) :
    bpfLoad buflen outside fallback read load = bpfLoadResult read load := by
  cases read with
  | none => simp [guard, bpfLoad, bpfFallback, nonzero, bpfLoadResult]
  | some v => simp [guard, bpfLoad, bpfLoadResult]

theorem guard_eq_isNone {α : Type} {outside : Bool} {read : Option α}
    (fits : outside = false ↔ read.isSome) : outside = read.isNone := by
  cases outside <;> cases read <;> simp_all

section Contiguous

variable {p : List UInt8} (fits : p.length < 2 ^ 32)

include fits in
theorem length_toUInt32_toNat : p.length.toUInt32.toNat = p.length :=
  UInt32.toNat_ofNat_of_lt' fits

include fits in
theorem sub_guard_eq_isNone (k : UInt32) :
    (k > p.length.toUInt32 || 4 > p.length.toUInt32 - k) = (readWord p k.toNat).isNone := by
  apply guard_eq_isNone
  rw [UInt32.sub_guard_iff, readWord_isSome_iff, length_toUInt32_toNat fits]
  rfl

include fits in
theorem sub_half_guard_eq_isNone (k : UInt32) :
    (k > p.length.toUInt32 || 2 > p.length.toUInt32 - k) =
      ((readHalf p k.toNat).map UInt16.toUInt32).isNone := by
  apply guard_eq_isNone
  rw [UInt32.sub_guard_iff, Option.isSome_map, readHalf_isSome_iff, length_toUInt32_toNat fits]
  rfl

include fits in
theorem ge_guard_eq_isNone (k : UInt32) :
    decide (k ≥ p.length.toUInt32) = (p[k.toNat]?.map UInt8.toUInt32).isNone := by
  apply guard_eq_isNone
  rw [UInt32.ge_guard_iff, Option.isSome_map, isSome_getElem?, length_toUInt32_toNat fits]

variable {x k : UInt32} (noWrap : x.toNat + k.toNat < 2 ^ 32)

include noWrap in
theorem toNat_add_of_noWrap : (x + k).toNat = x.toNat + k.toNat := by
  rw [UInt32.toNat_add, Nat.mod_eq_of_lt noWrap]

include fits noWrap in
theorem ind_guard_eq_isNone :
    (k > p.length.toUInt32 || x > p.length.toUInt32 - k || 4 > p.length.toUInt32 - (x + k)) =
      (readWord p (x + k).toNat).isNone := by
  apply guard_eq_isNone
  rw [UInt32.ind_guard_iff, readWord_isSome_iff, length_toUInt32_toNat fits,
    toNat_add_of_noWrap noWrap]
  rfl

include fits noWrap in
theorem ind_swap_guard_eq_isNone :
    (x > p.length.toUInt32 || k > p.length.toUInt32 - x || 2 > p.length.toUInt32 - (x + k)) =
      ((readHalf p (x + k).toNat).map UInt16.toUInt32).isNone := by
  apply guard_eq_isNone
  rw [UInt32.ind_swap_guard_iff, Option.isSome_map, readHalf_isSome_iff,
    length_toUInt32_toNat fits, toNat_add_of_noWrap noWrap]
  rfl

include fits noWrap in
theorem ind_byte_guard_eq_isNone :
    (k ≥ p.length.toUInt32 || x ≥ p.length.toUInt32 - k) =
      (p[(x + k).toNat]?.map UInt8.toUInt32).isNone := by
  apply guard_eq_isNone
  rw [UInt32.ind_byte_guard_iff, Option.isSome_map, isSome_getElem?, length_toUInt32_toNat fits,
    toNat_add_of_noWrap noWrap]

end Contiguous

section Lockstep

variable {prog : List BpfInsn} {bp : BpfPacket} {wirelen : UInt32}
  (mbuf : bp.bpfpType = .mbuf) (spread : Mbuf.WellSpread bp.bpfpMbuf)
  (nonempty : 0 < bp.bytes.length) (fits : bp.bytes.length < 2 ^ 32)

include fits nonempty in
theorem length_toUInt32_ne_zero : bp.bytes.length.toUInt32 ≠ 0 := by
  intro zero
  have len := length_toUInt32_toNat fits
  rw [zero, UInt32.toNat_zero] at len
  omega

include mbuf spread nonempty fits in
/-- A step with no wrapping indirect load does the same on the packet with
`buflen == 0` and on its flattened bytes. -/
theorem bpfStep_packet_eq {m : BpfMachine} (noWrap : IndirectFits prog m) :
    bpfStep prog (.packet bp) wirelen 0 m =
      bpfStep prog (.bytes bp.bytes) wirelen bp.bytes.length.toUInt32 m := by
  have nonzero := length_toUInt32_ne_zero nonempty fits
  cases fetch : prog[m.pc]? with
  | none => simp only [bpfStep, fetch]
  | some insn =>
    cases decode : bpfDecode insn.code with
    | none => simp only [bpfStep, fetch, decode]
    | some op =>
      -- only the loads read `p` and `buflen`
      cases op with
      | ldAbs size =>
        cases size <;> simp only [bpfStep, fetch, decode]
        · rw [BpfInput.packet_xword mbuf spread, bpfLoad_packet (UInt32.sub_guard_zero _ _ (by decide))]
          exact (bpfLoad_bytes nonzero (sub_guard_eq_isNone fits _) _ _).symm
        · rw [BpfInput.packet_xhalf mbuf spread, bpfLoad_packet (UInt32.sub_guard_zero _ _ (by decide))]
          exact (bpfLoad_bytes nonzero (sub_half_guard_eq_isNone fits _) _ _).symm
        · rw [BpfInput.packet_xbyte mbuf, bpfLoad_packet (UInt32.ge_guard_zero _)]
          exact (bpfLoad_bytes nonzero (ge_guard_eq_isNone fits _) _ _).symm
      | ldInd size =>
        have bound := noWrap insn size fetch decode
        cases size <;> simp only [bpfStep, fetch, decode]
        · rw [BpfInput.packet_xword mbuf spread, bpfLoad_packet (UInt32.ind_guard_zero _ _ _ (by decide))]
          exact (bpfLoad_bytes nonzero (ind_guard_eq_isNone fits bound) _ _).symm
        · rw [BpfInput.packet_xhalf mbuf spread,
            bpfLoad_packet (UInt32.ind_swap_guard_zero _ _ _ (by decide))]
          exact (bpfLoad_bytes nonzero (ind_swap_guard_eq_isNone fits bound) _ _).symm
        · rw [BpfInput.packet_xbyte mbuf, bpfLoad_packet (UInt32.ind_byte_guard_zero _ _)]
          exact (bpfLoad_bytes nonzero (ind_byte_guard_eq_isNone fits bound) _ _).symm
      | ldxMsh =>
        simp only [bpfStep, fetch, decode]
        rw [BpfInput.packet_xbyte mbuf, bpfLoad_packet (UInt32.ge_guard_zero _)]
        exact (bpfLoad_bytes nonzero (ge_guard_eq_isNone fits _) _ _).symm
      | jmp op src => cases src <;> simp only [bpfStep, fetch, decode]
      | alu op src => cases op <;> cases src <;> simp only [bpfStep, fetch, decode]
      | _ => simp only [bpfStep, fetch, decode]

include mbuf spread nonempty fits in
theorem bpfRun_packet_eq
    (noWrap : ∀ m, BpfReach prog (.bytes bp.bytes) wirelen bp.bytes.length.toUInt32 m →
      IndirectFits prog m)
    (fuel : Nat) {m : BpfMachine}
    (reach : BpfReach prog (.bytes bp.bytes) wirelen bp.bytes.length.toUInt32 m) :
    bpfRun prog (.packet bp) wirelen 0 fuel m =
      bpfRun prog (.bytes bp.bytes) wirelen bp.bytes.length.toUInt32 fuel m := by
  induction fuel generalizing m with
  | zero => rfl
  | succ fuel ih =>
    simp only [bpfRun]
    rw [bpfStep_packet_eq mbuf spread nonempty fits (noWrap m reach)]
    cases step : bpfStep prog (.bytes bp.bytes) wirelen bp.bytes.length.toUInt32 m with
    | none => rfl
    | some s =>
      cases s with
      | ret v => rfl
      | next m' => exact ih (reach.next step)

end Lockstep

theorem IndirectFits.of_direct {prog : List BpfInsn}
    (direct : ∀ insn ∈ prog, ∀ size, bpfDecode insn.code ≠ some (.ldInd size)) (m : BpfMachine) :
    IndirectFits prog m := by
  intro insn size fetch decode
  exact absurd decode (direct insn (List.mem_of_getElem? fetch) size)

/-- On an mbuf packet whose chain is well spread, `m_xword`, `m_xhalf` and
`m_xbyte` return the big-endian reads of the flattened packet and fail exactly
when the read does not fit, and `bpf_filter` with `buflen == 0` returns what it
returns on the flattened bytes, as long as no indirect load of that run wraps
`X + k`. -/
theorem bpfFilter_mbuf_agrees {f : List BpfInsn} {bp : BpfPacket} {wirelen : UInt32}
    (mbuf : bp.bpfpType = .mbuf) (spread : Mbuf.WellSpread bp.bpfpMbuf)
    (nonempty : 0 < bp.bytes.length) (fits : bp.bytes.length < 2 ^ 32)
    (noWrap : ∀ m, BpfReach f (.bytes bp.bytes) wirelen bp.bytes.length.toUInt32 m →
      IndirectFits f m) :
    (∀ k, mXword bp.bpfpMbuf bp.bpfpHeader k = some (xResult (readWord bp.bytes k))) ∧
      (∀ k, mXhalf bp.bpfpMbuf bp.bpfpHeader k = some (xResult (readHalf bp.bytes k))) ∧
      (∀ k, mXbyte bp.bpfpMbuf bp.bpfpHeader k = some (xResult bp.bytes[k]?)) ∧
      bpfFilter (some f) (.packet bp) wirelen 0 =
        bpfFilter (some f) (.bytes bp.bytes) wirelen bp.bytes.length.toUInt32 := by
  refine ⟨mXword_eq spread bp.bpfpHeader, mXhalf_eq spread bp.bpfpHeader,
    mXbyte_eq bp.bpfpMbuf bp.bpfpHeader, ?_⟩
  exact bpfRun_packet_eq mbuf spread nonempty fits noWrap _ .start

theorem bpfFilter_mbuf_agrees_split :
    Mbuf.WellSpread [⟨[1, 2, 3]⟩, ⟨[4, 5]⟩] ∧
      bpfFilter (some [⟨0x20, 0, 0, 1⟩, ⟨0x16, 0, 0, 0⟩])
          (.packet ⟨.mbuf, [0x45], [⟨[1, 2, 3]⟩, ⟨[4, 5]⟩], by simp⟩) 6 0 =
        bpfFilter (some [⟨0x20, 0, 0, 1⟩, ⟨0x16, 0, 0, 0⟩]) (.bytes [0x45, 1, 2, 3, 4, 5]) 6 6 := by
  have spread : Mbuf.WellSpread [⟨[1, 2, 3]⟩, ⟨[4, 5]⟩] := by decide
  have direct : ∀ insn ∈ ([⟨0x20, 0, 0, 1⟩, ⟨0x16, 0, 0, 0⟩] : List BpfInsn), ∀ size,
      bpfDecode insn.code ≠ some (.ldInd size) := by
    intro insn mem size
    simp only [List.mem_cons, List.not_mem_nil, or_false] at mem
    rcases mem with rfl | rfl <;> cases size <;> decide
  exact ⟨spread, (bpfFilter_mbuf_agrees rfl spread (by decide) (by decide)
    fun m _ => IndirectFits.of_direct direct m).2.2.2⟩

/-- Three validated programs on which the packet run and the flattened run
differ: a word over three mbufs, a half-word running into an empty mbuf, and an
indirect load whose `X + k` wraps. -/
theorem bpfFilter_mbuf_disagrees :
    bpfValidate [⟨0x20, 0, 0, 0⟩, ⟨0x16, 0, 0, 0⟩] 0x80000 = true ∧
      bpfFilter (some [⟨0x20, 0, 0, 0⟩, ⟨0x16, 0, 0, 0⟩])
        (.packet ⟨.mbuf, [], [⟨[1]⟩, ⟨[2]⟩, ⟨[3, 4]⟩], by simp⟩) 4 0 = some 0 ∧
      bpfFilter (some [⟨0x20, 0, 0, 0⟩, ⟨0x16, 0, 0, 0⟩]) (.bytes [1, 2, 3, 4]) 4 4 =
        some 0x01020304 ∧
      bpfValidate [⟨0x28, 0, 0, 2⟩, ⟨0x16, 0, 0, 0⟩] 0x80000 = true ∧
      bpfFilter (some [⟨0x28, 0, 0, 2⟩, ⟨0x16, 0, 0, 0⟩])
        (.packet ⟨.mbuf, [], [⟨[1, 2, 3]⟩, ⟨[]⟩], by simp⟩) 3 0 = none ∧
      bpfFilter (some [⟨0x28, 0, 0, 2⟩, ⟨0x16, 0, 0, 0⟩]) (.bytes [1, 2, 3]) 3 3 = some 0 ∧
      bpfValidate [⟨0x01, 0, 0, 0xFFFFFFFF⟩, ⟨0x40, 0, 0, 1⟩, ⟨0x16, 0, 0, 0⟩] 0x80000 = true ∧
      bpfFilter (some [⟨0x01, 0, 0, 0xFFFFFFFF⟩, ⟨0x40, 0, 0, 1⟩, ⟨0x16, 0, 0, 0⟩])
        (.packet ⟨.mbuf, [], [⟨[1, 2, 3, 4]⟩], by simp⟩) 4 0 = some 0x01020304 ∧
      bpfFilter (some [⟨0x01, 0, 0, 0xFFFFFFFF⟩, ⟨0x40, 0, 0, 1⟩, ⟨0x16, 0, 0, 0⟩])
        (.bytes [1, 2, 3, 4]) 4 4 = some 0 := by
  decide

end Xnu.Bpf
