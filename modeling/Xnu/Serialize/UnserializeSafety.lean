import Xnu.Serialize.Unserialize

namespace Xnu.Serialize

/-! What `OSUnserializeBinary` does on every buffer: it stops, it reads only
inside the buffer, its stack holds fewer than `stackCapacityMax` parents and
`objsArray` at most `objsCapacityMax` objects. And what it does not do: keep an
array or a set out of itself. -/

section Record

variable {buffer : List UInt8} {indexed : Bool} {heap : List OSObject} {objs : List Nat}
  {bufferPos len wordLen : Nat}

theorem readWordLE_eq_some_of_le {buf : List UInt8} {i : Nat} (fits : i + 4 ≤ buf.length) :
    ∃ w, readWordLE buf i = some w :=
  Option.isSome_iff_exists.mp (readWordLE_isSome_iff.mpr fits)

theorem readBytes_eq_some_of_le {buf : List UInt8} {i n : Nat} (fits : i + n ≤ buf.length) :
    ∃ bytes, readBytes buf i n = some bytes :=
  Option.isSome_iff_exists.mp (readBytes_isSome_iff.mpr fits)

theorem unserializeNumber_isSome : (unserializeNumber buffer heap bufferPos len).isSome := by
  unfold unserializeNumber
  split_ifs with past size
  · rfl
  · rfl
  · obtain ⟨lo, readLo⟩ := readWordLE_eq_some_of_le (show bufferPos + 4 ≤ buffer.length by omega)
    obtain ⟨hi, readHi⟩ := readWordLE_eq_some_of_le (show bufferPos + 4 + 4 ≤ buffer.length by omega)
    simp [readLo, readHi]

variable (words : len ≤ wordLen * 4)

include words in
theorem unserializeSymbol_isSome : (unserializeSymbol buffer heap bufferPos len wordLen).isSome := by
  unfold unserializeSymbol
  split_ifs with past short
  · rfl
  · rfl
  · obtain ⟨bytes, read⟩ := readBytes_eq_some_of_le (show bufferPos + len ≤ buffer.length by omega)
    simp only [read, Option.bind_eq_bind, Option.bind_some]
    split_ifs <;> rfl

include words in
theorem unserializeString_isSome : (unserializeString buffer heap bufferPos len wordLen).isSome := by
  unfold unserializeString
  split_ifs with past
  · rfl
  · obtain ⟨bytes, read⟩ := readBytes_eq_some_of_le (show bufferPos + len ≤ buffer.length by omega)
    simp only [read, Option.bind_eq_bind, Option.bind_some]
    split_ifs <;> rfl

include words in
theorem unserializeData_isSome : (unserializeData buffer heap bufferPos len wordLen).isSome := by
  unfold unserializeData
  split_ifs with past
  · rfl
  · obtain ⟨bytes, read⟩ := readBytes_eq_some_of_le (show bufferPos + len ≤ buffer.length by omega)
    simp [read]

include words in
/-- No record reads past the buffer. -/
theorem unserializeRecord_isSome (type : Option OSSerializeType) :
    (unserializeRecord buffer indexed heap objs bufferPos len wordLen type).isSome := by
  unfold unserializeRecord
  split
  · rfl
  · rfl
  · rfl
  · split <;> rfl
  · exact unserializeNumber_isSome
  · exact unserializeSymbol_isSome words
  · exact unserializeString_isSome words
  · exact unserializeData_isSome words
  · rfl
  · rfl

omit words

theorem unserializeNumber_bufferPos {r : UnserializedRecord}
    (found : unserializeNumber buffer heap bufferPos len = some (some r)) :
    r.bufferPos = bufferPos + 8 ∧ bufferPos + 8 ≤ buffer.length := by
  unfold unserializeNumber at found
  split_ifs at found with past size
  · simp at found
  · simp at found
  · obtain ⟨lo, readLo⟩ := readWordLE_eq_some_of_le (show bufferPos + 4 ≤ buffer.length by omega)
    obtain ⟨hi, readHi⟩ :=
      readWordLE_eq_some_of_le (show bufferPos + 4 + 4 ≤ buffer.length by omega)
    simp only [readLo, readHi, Option.bind_eq_bind, Option.bind_some, Option.pure_def,
      Option.some.injEq] at found
    subst found
    exact ⟨rfl, by omega⟩

/-- The payload records move `next` past their words, which the check before
them keeps inside the buffer. -/
theorem unserializePayload_bufferPos {r : UnserializedRecord}
    (found : unserializeSymbol buffer heap bufferPos len wordLen = some (some r) ∨
      unserializeString buffer heap bufferPos len wordLen = some (some r) ∨
      unserializeData buffer heap bufferPos len wordLen = some (some r)) :
    r.bufferPos = bufferPos + wordLen * 4 ∧ bufferPos + wordLen * 4 ≤ buffer.length := by
  rcases found with found | found | found
  · unfold unserializeSymbol at found
    split_ifs at found with past short
    · simp at found
    · simp at found
    · cases read : readBytes buffer bufferPos len with
      | none => simp [read] at found
      | some bytes =>
        simp only [read, Option.bind_eq_bind, Option.bind_some] at found
        split_ifs at found
        · simp at found
        · simp at found
        · cases found
          exact ⟨rfl, by omega⟩
  · unfold unserializeString at found
    split_ifs at found with past
    · simp at found
    · cases read : readBytes buffer bufferPos len with
      | none => simp [read] at found
      | some bytes =>
        simp only [read, Option.bind_eq_bind, Option.bind_some] at found
        split_ifs at found
        · simp at found
        · cases found
          exact ⟨rfl, by omega⟩
  · unfold unserializeData at found
    split_ifs at found with past
    · simp at found
    · cases read : readBytes buffer bufferPos len with
      | none => simp [read] at found
      | some bytes =>
        simp only [read, Option.bind_eq_bind, Option.bind_some, Option.pure_def,
          Option.some.injEq] at found
        subst found
        exact ⟨rfl, by omega⟩

/-- A record leaves `next` no earlier than it found it and inside the buffer. -/
theorem unserializeRecord_bufferPos (inside : bufferPos ≤ buffer.length) {type : Option OSSerializeType}
    {r : UnserializedRecord}
    (found : unserializeRecord buffer indexed heap objs bufferPos len wordLen type = some (some r)) :
    bufferPos ≤ r.bufferPos ∧ r.bufferPos ≤ buffer.length := by
  unfold unserializeRecord at found
  split at found
  · cases found
    exact ⟨le_refl _, inside⟩
  · cases found
    exact ⟨le_refl _, inside⟩
  · cases found
    exact ⟨le_refl _, inside⟩
  · split at found
    · cases found
      exact ⟨le_refl _, inside⟩
    · cases found
  · obtain ⟨moved, fits⟩ := unserializeNumber_bufferPos found
    exact ⟨by omega, by omega⟩
  · obtain ⟨moved, fits⟩ := unserializePayload_bufferPos (.inl found)
    exact ⟨by omega, by omega⟩
  · obtain ⟨moved, fits⟩ := unserializePayload_bufferPos (.inr (.inl found))
    exact ⟨by omega, by omega⟩
  · obtain ⟨moved, fits⟩ := unserializePayload_bufferPos (.inr (.inr found))
    exact ⟨by omega, by omega⟩
  · cases found
    exact ⟨le_refl _, inside⟩
  · cases found

end Record

section Step

variable {buffer : List UInt8} {indexed : Bool}

theorem len_le_words (len : Nat) : len ≤ (len + 3) / 4 * 4 := by omega

theorem unserializeLength_isSome (r : UnserializedRecord) : (unserializeLength buffer r).isSome := by
  unfold unserializeLength
  split_ifs with hasLength past
  · rfl
  · obtain ⟨w, read⟩ := readWordLE_eq_some_of_le (show r.bufferPos + 4 ≤ buffer.length by omega)
    simp [read]
  · rfl

theorem unserializeLength_bufferPos {r : UnserializedRecord} {bufferPos : Nat}
    (inside : r.bufferPos ≤ buffer.length) (found : unserializeLength buffer r = some (some bufferPos)) :
    r.bufferPos ≤ bufferPos ∧ bufferPos ≤ buffer.length := by
  unfold unserializeLength at found
  split_ifs at found with hasLength past
  · simp at found
  · obtain ⟨w, read⟩ := readWordLE_eq_some_of_le (show r.bufferPos + 4 ≤ buffer.length by omega)
    simp only [read, Option.map_some, Option.some.injEq] at found
    omega
  · cases found
    omega

/-- A pass never reads past the buffer: every read stands behind a check of
`bufferPos` against `bufferSize`. -/
theorem unserializeStep_isSome (st : UnserializeState) :
    (unserializeStep buffer indexed st).isSome := by
  unfold unserializeStep
  split_ifs with past
  · rfl
  · obtain ⟨key, readKey⟩ :=
      readWordLE_eq_some_of_le (show st.bufferPos + 4 ≤ buffer.length by omega)
    simp only [readKey]
    split
    · rename_i missing
      exact absurd missing (Option.isSome_iff_ne_none.mp (unserializeRecord_isSome (len_le_words _) _))
    · rfl
    · rename_i r found
      split
      · rename_i missing
        exact absurd missing (Option.isSome_iff_ne_none.mp (unserializeLength_isSome r))
      · rfl
      · split
        · rfl
        · split <;> rfl

/-- A pass that goes on ends in `unserializeNest` from a state that has moved
`next` forward inside the buffer, kept the stack and registered the object. -/
theorem unserializeStep_nest {st : UnserializeState} {s : UnserializeStep}
    (step : unserializeStep buffer indexed st = some s) (going : s ≠ .fail) :
    ∃ (mid : UnserializeState) (isEnd : Bool) (o : Nat) (newCollect : Option OSCollectionKind),
      s = unserializeNest mid isEnd o newCollect ∧ st.bufferPos + 4 ≤ mid.bufferPos ∧
        mid.bufferPos ≤ buffer.length ∧ mid.stack = st.stack ∧
        mid.stackCapacity = st.stackCapacity ∧
        ∃ r, unserializeRegister st r = some (mid.objs, mid.objsCapacity) := by
  unfold unserializeStep at step
  split_ifs at step with past
  · cases step
    exact absurd rfl going
  · split at step
    · cases step
    · rename_i key readKey
      dsimp only at step
      split at step
      · cases step
      · cases step
        exact absurd rfl going
      · rename_i r found
        have moved := unserializeRecord_bufferPos (by omega) found
        split at step
        · cases step
        · cases step
          exact absurd rfl going
        · rename_i bufferPos length
          have movedLength := unserializeLength_bufferPos moved.2 length
          split at step
          · cases step
            exact absurd rfl going
          · rename_i objs objsCapacity register
            split at step
            · cases step
              exact absurd rfl going
            · cases step
              exact ⟨_, _, _, _, rfl, by simp only; omega, movedLength.2, rfl, rfl, r, register⟩

theorem unserializeRegister_cases {st : UnserializeState} {r : UnserializedRecord}
    {objs : List Nat} {objsCapacity : Nat}
    (register : unserializeRegister st r = some (objs, objsCapacity)) :
    (objs = st.objs ∧ objsCapacity = st.objsCapacity) ∨
      (setAtIndexCapacity st.objsCapacity objsCapacityMax st.objs.length = some objsCapacity ∧
        objs = st.objs ++ [r.o]) := by
  unfold unserializeRegister at register
  split_ifs at register
  · cases register
    exact .inl ⟨rfl, rfl⟩
  · obtain ⟨capacity, grow, made⟩ := Option.map_eq_some_iff.mp register
    cases made
    exact .inr ⟨grow, rfl⟩

theorem popParent_length_le (stack : List (Option Nat)) :
    (popParent stack).2.length ≤ stack.length := by
  fun_induction popParent stack with
  | case1 => simp
  | case2 p rest => simp
  | case3 rest ih =>
    simp only [List.length_cons]
    omega

theorem unserializeNest_next {mid st' : UnserializeState} {isEnd : Bool} {o : Nat}
    {newCollect : Option OSCollectionKind} (nest : unserializeNest mid isEnd o newCollect = .next st') :
    st'.bufferPos = mid.bufferPos ∧ st'.objs = mid.objs ∧ st'.objsCapacity = mid.objsCapacity ∧
      ((st'.stack.length ≤ mid.stack.length ∧ st'.stackCapacity = mid.stackCapacity) ∨
        (setAtIndexCapacity mid.stackCapacity stackCapacityMax (mid.stack.length + 1) =
            some st'.stackCapacity ∧ st'.stack.length = mid.stack.length + 1)) := by
  unfold unserializeNest at nest
  cases newCollect with
  | some kind =>
    dsimp only at nest
    split at nest
    · cases nest
    · rename_i capacity grow
      cases nest
      exact ⟨rfl, rfl, rfl, .inr ⟨grow, rfl⟩⟩
  | none =>
    cases isEnd with
    | false =>
      cases nest
      exact ⟨rfl, rfl, rfl, .inl ⟨le_refl _, rfl⟩⟩
    | true =>
      rw [if_pos rfl] at nest
      dsimp only at nest
      rw [if_pos rfl] at nest
      split at nest
      · cases nest
      · rename_i parent stack popped
        split at nest
        · cases nest
          have shorter := popParent_length_le mid.stack
          rw [popped] at shorter
          exact ⟨rfl, rfl, rfl, .inl ⟨shorter, rfl⟩⟩
        · cases nest

end Step

/-! The bounds on `stackArray` and `objsArray` over a whole run. -/

/-- `setAtIndex` grows by 64 slots up to a maximum that is itself a multiple
of 64, so an index at most one past the end always fits after it. -/
theorem setAtIndexCapacity_spec {capacity capacityMax idx capacity' : Nat}
    (grow : setAtIndexCapacity capacity capacityMax idx = some capacity') (near : idx < capacity + 64)
    (dvd : 64 ∣ capacity) (dvdMax : 64 ∣ capacityMax) (le : capacity ≤ capacityMax) :
    idx < capacity' ∧ capacity' ≤ capacityMax ∧ 64 ∣ capacity' := by
  unfold setAtIndexCapacity at grow
  split_ifs at grow with past full
  · cases grow
    refine ⟨by omega, by omega, ?_⟩
    exact Nat.dvd_add dvd (dvd_refl 64)
  · cases grow
    exact ⟨by omega, le, dvd⟩

/-- The states the loop of `OSUnserializeBinary` passes through. -/
inductive UnserializeReach (buffer : List UInt8) (indexed : Bool) : UnserializeState → Prop
  | start : UnserializeReach buffer indexed UnserializeState.init
  | next {st st' : UnserializeState} : UnserializeReach buffer indexed st →
      unserializeStep buffer indexed st = some (.next st') → UnserializeReach buffer indexed st'

/-- The capacities only take the values `setAtIndex` gives them, and each
array holds no more than its capacity. -/
structure UnserializeState.Bounded (st : UnserializeState) : Prop where
  stack_lt : st.stack = [] ∨ st.stack.length < st.stackCapacity
  stackCapacity_le : st.stackCapacity ≤ stackCapacityMax
  stackCapacity_dvd : 64 ∣ st.stackCapacity
  objs_le : st.objs.length ≤ st.objsCapacity
  objsCapacity_le : st.objsCapacity ≤ objsCapacityMax
  objsCapacity_dvd : 64 ∣ st.objsCapacity

theorem UnserializeState.init_bounded : UnserializeState.init.Bounded :=
  ⟨.inl rfl, by decide, by decide, le_refl _, by decide, by decide⟩

theorem UnserializeState.Bounded.step {buffer : List UInt8} {indexed : Bool} {st st' : UnserializeState}
    (bounded : st.Bounded) (step : unserializeStep buffer indexed st = some (.next st')) :
    st'.Bounded := by
  obtain ⟨mid, isEnd, o, newCollect, nest, -, -, sameStack, sameCapacity, r, register⟩ :=
    unserializeStep_nest step (by simp)
  obtain ⟨-, sameObjs, sameObjsCapacity, stacked⟩ := unserializeNest_next nest.symm
  have objsBound : st'.objs.length ≤ st'.objsCapacity ∧ st'.objsCapacity ≤ objsCapacityMax ∧
      64 ∣ st'.objsCapacity := by
    rw [sameObjs, sameObjsCapacity]
    rcases unserializeRegister_cases register with ⟨same, sameCap⟩ | ⟨grow, added⟩
    · rw [same, sameCap]
      exact ⟨bounded.objs_le, bounded.objsCapacity_le, bounded.objsCapacity_dvd⟩
    · obtain ⟨fits, le, dvd⟩ := setAtIndexCapacity_spec grow (by have := bounded.objs_le; omega)
        bounded.objsCapacity_dvd (by decide) bounded.objsCapacity_le
      rw [added, List.length_append, List.length_singleton]
      exact ⟨fits, le, dvd⟩
  rcases stacked with ⟨shorter, sameCap⟩ | ⟨grow, pushed⟩
  · have stackLt : st'.stack = [] ∨ st'.stack.length < st'.stackCapacity := by
      rcases bounded.stack_lt with empty | lt
      · left
        rw [sameStack, empty] at shorter
        exact List.eq_nil_of_length_eq_zero (by simpa using shorter)
      · right
        rw [sameCap, sameCapacity]
        rw [sameStack] at shorter
        omega
    exact ⟨stackLt, by rw [sameCap, sameCapacity]; exact bounded.stackCapacity_le,
      by rw [sameCap, sameCapacity]; exact bounded.stackCapacity_dvd, objsBound.1, objsBound.2.1,
      objsBound.2.2⟩
  · rw [sameStack, sameCapacity] at grow
    rw [sameStack] at pushed
    have near : st.stack.length + 1 < st.stackCapacity + 64 := by
      rcases bounded.stack_lt with empty | lt
      · rw [empty]
        simp
      · omega
    obtain ⟨fits, le, dvd⟩ := setAtIndexCapacity_spec grow near bounded.stackCapacity_dvd
      (by decide) bounded.stackCapacity_le
    exact ⟨.inr (by omega), le, dvd, objsBound.1, objsBound.2.1, objsBound.2.2⟩

theorem UnserializeReach.bounded {buffer : List UInt8} {indexed : Bool} {st : UnserializeState}
    (reach : UnserializeReach buffer indexed st) : st.Bounded := by
  induction reach with
  | start => exact UnserializeState.init_bounded
  | next _ step ih => exact ih.step step

/-- Decoding never holds `stackCapacityMax` parents on its stack nor more than
`objsCapacityMax` objects in `objsArray`. -/
theorem UnserializeReach.stack_objs_lt {buffer : List UInt8} {indexed : Bool} {st : UnserializeState}
    (reach : UnserializeReach buffer indexed st) :
    st.stack.length < stackCapacityMax ∧ st.objs.length ≤ objsCapacityMax := by
  have bounded := reach.bounded
  constructor
  · rcases bounded.stack_lt with empty | lt
    · rw [empty]
      decide
    · exact lt_of_lt_of_le lt bounded.stackCapacity_le
  · exact le_trans bounded.objs_le bounded.objsCapacity_le

/-! Termination, and no read past `bufferSize`. -/

theorem unserializeStep_next_bufferPos {buffer : List UInt8} {indexed : Bool} {st st' : UnserializeState}
    (step : unserializeStep buffer indexed st = some (.next st')) :
    st.bufferPos + 4 ≤ st'.bufferPos ∧ st'.bufferPos ≤ buffer.length := by
  obtain ⟨mid, isEnd, o, newCollect, nest, moved, inside, -⟩ := unserializeStep_nest step (by simp)
  obtain ⟨same, -⟩ := unserializeNest_next nest.symm
  omega

/-- Every pass moves `next` forward by a word at least, so the loop stops
within the passes the buffer's words allow, and it never reads past it. -/
theorem unserializeLoop_isSome {buffer : List UInt8} {indexed : Bool} (fuel : Nat) {st : UnserializeState}
    (inside : st.bufferPos ≤ buffer.length) (enough : buffer.length < st.bufferPos + 4 * fuel) :
    (unserializeLoop buffer indexed fuel st).isSome := by
  induction fuel generalizing st with
  | zero => omega
  | succ fuel ih =>
    unfold unserializeLoop
    have progress : (unserializeStep buffer indexed st).isSome := unserializeStep_isSome st
    obtain ⟨s, step⟩ := Option.isSome_iff_exists.mp progress
    rw [step]
    cases s with
    | next st' =>
      obtain ⟨moved, inside'⟩ := unserializeStep_next_bufferPos step
      exact ih inside' (by omega)
    | done st' => rfl
    | fail => rfl

/-- `OSUnserializeBinary` terminates on every buffer without reading past it. -/
theorem osUnserializeBinary_isSome (buffer : List UInt8) : (osUnserializeBinary buffer).isSome := by
  unfold osUnserializeBinary
  split
  · rename_i b0 b1 b2 b3 rest
    dsimp only
    split_ifs
    · rfl
    · have start : UnserializeState.init.bufferPos = 4 := rfl
      have run : (unserializeLoop (b0 :: b1 :: b2 :: b3 :: rest) (b0 == kOSSerializeIndexedBinarySignature)
          (b0 :: b1 :: b2 :: b3 :: rest).length UnserializeState.init).isSome :=
        unserializeLoop_isSome _ (by simp only [start, List.length_cons]; omega)
          (by simp only [start, List.length_cons]; omega)
      obtain ⟨found, loop⟩ := Option.isSome_iff_exists.mp run
      rw [loop]
      cases found with
      | none => rfl
      | some st => rfl
  · rfl

/-! What decoding does not keep out: an array or a set may be made a member of
itself, and any collection may hold a reference to one that encloses it. -/

/-- An array of one member whose member is a reference to object 0, the array
itself. -/
theorem osUnserializeBinary_array_holds_self :
    osUnserializeBinary [0xD3, 0, 0, 0, 0x01, 0, 0, 0x02, 0, 0, 0, 0x8C] =
        some (some ⟨[.array [0]], 0⟩) ∧
      ¬ Acyclic [.array [0]] := by
  have holds : Holds [.array [0]] 0 0 := ⟨.array [0], rfl, by simp [OSObject.members]⟩
  exact ⟨by decide, not_acyclic_of_holds_self holds⟩

end Xnu.Serialize
