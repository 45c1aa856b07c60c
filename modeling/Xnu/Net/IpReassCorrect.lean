import Xnu.Lib.Reassembly
import Xnu.Net.IpReass

namespace Xnu.IpReass

/-! The queues of `ip_reass` are reassembly queues in the sense of
`Xnu.Lib.Reassembly`: a queued fragment is the piece of its data at its
byte offset, tagged with `M_FRAG`. The `u_short` offsets agree with those
positions as long as no fragment ends past byte 65535; a fragment that does
makes a trimmed offset wrap. -/

/-- A queued fragment as a piece of the datagram. -/
def Packet.toPiece (f : Packet) : Piece Bool UInt8 := ⟨f.ip.off.toNat, f.payload, f.mFrag⟩

/-- A queued fragment: `ip_len` counts its bytes, it ends within 16 bits of
offset, and one with `M_FRAG` holds data. -/
structure FragOk (f : Packet) : Prop where
  len_eq : f.ip.len.toNat = f.payload.length
  fits : f.ip.off.toNat + f.ip.len.toNat ≤ 65535
  nonempty : f.mFrag = true → 0 < f.ip.len.toNat

/-- Where the piece before the walk's position ends, `0` before the first. -/
def reach : Option Packet → Nat
  | none => 0
  | some p => p.toPiece.stop

theorem toPiece_stop {f : Packet} (ok : FragOk f) : f.toPiece.stop = f.ip.off.toNat + f.ip.len.toNat := by
  simp only [Packet.toPiece, Piece.stop, ok.len_eq]

/-- `m_adj(m, k)` with the header's offset and length moved along, as both
trimming loops do it. -/
def Packet.cutFront (k : Nat) (f : Packet) : Packet where
  ip := { f.ip with off := f.ip.off + k.toUInt16, len := f.ip.len - k.toUInt16 }
  mFrag := f.mFrag
  payload := f.payload.drop k

theorem toNat_toUInt16 {k : Nat} (small : k < 2 ^ 16) : k.toUInt16.toNat = k := by
  rw [Nat.toUInt16, UInt16.toNat_ofNat']
  exact Nat.mod_eq_of_lt small

theorem cutFront_spec {f : Packet} (k : Nat) (ok : FragOk f) (short : k < f.ip.len.toNat) :
    (f.cutFront k).toPiece = f.toPiece.trimFront k ∧ FragOk (f.cutFront k) := by
  have small : k.toUInt16.toNat = k := toNat_toUInt16 (by have := f.ip.len.toNat_lt; omega)
  have off : (f.ip.off + k.toUInt16).toNat = f.ip.off.toNat + k := by
    rw [UInt16.toNat_add, small]
    exact Nat.mod_eq_of_lt (by have := ok.fits; omega)
  have len : (f.ip.len - k.toUInt16).toNat = f.ip.len.toNat - k := by
    rw [UInt16.toNat_sub_of_le _ _ (by rw [UInt16.le_iff_toNat_le, small]; omega), small]
  refine ⟨?_, ⟨?_, ?_, fun frag => ?_⟩⟩
  · simp only [Packet.toPiece, Packet.cutFront, Piece.trimFront, off]
  · simp only [Packet.cutFront, len, List.length_drop, ok.len_eq]
  · simp only [Packet.cutFront, off, len]
    have := ok.fits
    omega
  · simp only [Packet.cutFront, len]
    omega

section Refines

theorem trimByPred_toPiece (m : Packet) (ok : FragOk m) (p : Option Packet)
    (pOk : ∀ q, p = some q → FragOk q) :
    (trimByPred p m).map Packet.toPiece = trimPred (reach p) m.toPiece ∧
      ∀ m', trimByPred p m = some m' → FragOk m' := by
  cases p with
  | none =>
    refine ⟨?_, fun m' kept => ?_⟩
    · simp [trimByPred, trimPred, reach]
    · cases kept
      exact ok
  | some q =>
    have reachEq : reach (some q) = q.ip.off.toNat + q.ip.len.toNat := toPiece_stop (pOk q rfl)
    have start : m.toPiece.start = m.ip.off.toNat := rfl
    have dataLen : m.toPiece.data.length = m.ip.len.toNat := ok.len_eq.symm
    unfold trimByPred trimPred
    simp only [reachEq, start, dataLen]
    by_cases reaches : m.ip.off.toNat < q.ip.off.toNat + q.ip.len.toNat
    · by_cases covered : m.ip.len.toNat ≤ q.ip.off.toNat + q.ip.len.toNat - m.ip.off.toNat
      · rw [if_pos (by omega), if_pos (by omega), if_pos reaches, if_pos (by omega)]
        simp
      · -- the new fragment loses the bytes `q` holds
        have cut := cutFront_spec (q.ip.off.toNat + q.ip.len.toNat - m.ip.off.toNat) ok (by omega)
        have index : ((q.ip.off.toNat : Int) + q.ip.len.toNat - m.ip.off.toNat).toNat =
            q.ip.off.toNat + q.ip.len.toNat - m.ip.off.toNat := by omega
        rw [if_pos (by omega), if_neg (by omega), if_pos reaches, if_neg covered, index]
        refine ⟨?_, fun m' kept => ?_⟩
        · exact congrArg some cut.1
        · cases kept
          exact cut.2
    · rw [if_neg (by omega), if_neg reaches]
      refine ⟨rfl, fun m' kept => ?_⟩
      cases kept
      exact ok

theorem trimSuccs_toPiece (m : Packet) : ∀ qs : List Packet, (∀ q ∈ qs, FragOk q) →
    ((trimSuccs m qs).1.map Packet.toPiece, (trimSuccs m qs).2) =
        trimSucc (m.ip.off.toNat + m.ip.len.toNat) (qs.map Packet.toPiece) ∧
      ∀ q ∈ (trimSuccs m qs).1, FragOk q
  | [], _ => ⟨rfl, by simp [trimSuccs]⟩
  | q :: rest, oks => by
    have qOk := oks q List.mem_cons_self
    have restOks : ∀ q' ∈ rest, FragOk q' := fun q' member => oks q' (List.mem_cons_of_mem q member)
    obtain ⟨ih, ihOk⟩ := trimSuccs_toPiece m rest restOks
    have qStart : q.toPiece.start = q.ip.off.toNat := rfl
    have qData : q.toPiece.data.length = q.ip.len.toNat := qOk.len_eq.symm
    simp only [trimSuccs, List.map_cons, trimSucc, qStart, qData]
    by_cases reaches : q.ip.off.toNat < m.ip.off.toNat + m.ip.len.toNat
    · rw [if_pos reaches, if_pos reaches]
      by_cases inside : m.ip.off.toNat + m.ip.len.toNat - q.ip.off.toNat < q.ip.len.toNat
      · -- `q` loses its front
        have cut := cutFront_spec (m.ip.off.toNat + m.ip.len.toNat - q.ip.off.toNat) qOk inside
        rw [if_pos inside, if_pos inside]
        refine ⟨?_, ?_⟩
        · show (((q.cutFront (m.ip.off.toNat + m.ip.len.toNat - q.ip.off.toNat)).toPiece ::
            rest.map Packet.toPiece), 0) = _
          rw [cut.1]
        · intro q' member
          rcases List.mem_cons.mp member with rfl | later
          · exact cut.2
          · exact restOks q' later
      · rw [if_neg inside, if_neg inside, ← ih]
        exact ⟨rfl, ihOk⟩
    · rw [if_neg reaches, if_neg reaches]
      exact ⟨rfl, oks⟩

theorem placeFrag_toPiece (m : Packet) (ok : FragOk m) (p : Option Packet)
    (pOk : ∀ q, p = some q → FragOk q) (after : List Packet) (afterOk : ∀ q ∈ after, FragOk q) :
    (placeFrag p m after).map (fun r => (r.1.map Packet.toPiece, r.2)) =
        place (reach p) m.toPiece (after.map Packet.toPiece) ∧
      ∀ r, placeFrag p m after = some r → ∀ f ∈ r.1, FragOk f := by
  obtain ⟨pred, predOk⟩ := trimByPred_toPiece m ok p pOk
  unfold placeFrag place
  rw [← pred]
  cases trimmed : trimByPred p m with
  | none => exact ⟨rfl, fun r dropped => by simp at dropped⟩
  | some m' =>
    have mOk := predOk m' trimmed
    obtain ⟨succ, succOk⟩ := trimSuccs_toPiece m' after afterOk
    refine ⟨?_, ?_⟩
    · simp only [Option.map_some, List.map_cons]
      rw [toPiece_stop mOk, ← succ]
    · intro r placed f member
      cases placed
      rcases List.mem_cons.mp member with rfl | later
      · exact mOk
      · exact succOk f later

/-- The walk of `ip_reass` over a queue of well-formed fragments is the
library's insertion, and keeps every fragment well formed. -/
theorem insertFrag_toPiece (m : Packet) (ok : FragOk m) : ∀ (p : Option Packet) (qs : List Packet),
    (∀ q, p = some q → FragOk q) → (∀ q ∈ qs, FragOk q) →
    (insertFrag p m qs).map (fun r => (r.1.map Packet.toPiece, r.2)) =
        insertFrom (reach p) m.toPiece (qs.map Packet.toPiece) ∧
      ∀ r, insertFrag p m qs = some r → ∀ f ∈ r.1, FragOk f
  | p, [], pOk, _ => by
    simpa only [insertFrag, insertFrom, List.map_nil] using placeFrag_toPiece m ok p pOk [] (by simp)
  | p, q :: rest, pOk, oks => by
    have qOk := oks q List.mem_cons_self
    have restOks : ∀ q' ∈ rest, FragOk q' := fun q' member => oks q' (List.mem_cons_of_mem q member)
    unfold insertFrag
    rw [List.map_cons, insertFrom]
    by_cases later : m.ip.off < q.ip.off
    · rw [if_pos later, if_pos (show m.toPiece.start < q.toPiece.start from UInt16.lt_iff_toNat_lt.mp later)]
      exact placeFrag_toPiece m ok p pOk (q :: rest) oks
    · rw [if_neg later, if_neg (show ¬ m.toPiece.start < q.toPiece.start from
        fun before => later (UInt16.lt_iff_toNat_lt.mpr before))]
      obtain ⟨walk, walkOk⟩ := insertFrag_toPiece m ok (some q) rest
        (fun q' found => by cases found; exact qOk) restOks
      refine ⟨?_, ?_⟩
      · rw [show q.toPiece.stop = reach (some q) from rfl, ← walk]
        cases insertFrag (some q) m rest <;> rfl
      · intro r walked f member
        obtain ⟨r', walked', rfl⟩ := Option.map_eq_some_iff.mp walked
        rcases List.mem_cons.mp member with rfl | inRest
        · exact qOk
        · exact walkOk r' walked' f inRest

theorem runData_map_toPiece (qs : List Packet) :
    runData (qs.map Packet.toPiece) = qs.flatMap (·.payload) := by
  induction qs with
  | nil => rfl
  | cons q rest ih =>
    rw [List.map_cons, List.flatMap_cons, ← ih]
    rfl

/-- The completion scan succeeds only on fragments that follow one another
from `pos`, and `next` is where they end. -/
theorem scanNext_spec : ∀ (pos : Nat) (qs : List Packet), (∀ q ∈ qs, FragOk q) → ∀ next,
    scanNext pos qs = some next →
    takeRun pos (qs.map Packet.toPiece) = (qs.map Packet.toPiece, []) ∧
      next = pos + (qs.flatMap (·.payload)).length
  | pos, [], _, next, scanned => by
    cases scanned
    exact ⟨rfl, rfl⟩
  | pos, q :: rest, oks, next, scanned => by
    have qOk := oks q List.mem_cons_self
    unfold scanNext at scanned
    split at scanned
    · cases scanned
    · rename_i here
      have start : q.toPiece.start = pos := by
        simp only [Packet.toPiece]
        omega
      obtain ⟨run, total⟩ := scanNext_spec (pos + q.ip.len.toNat) rest
        (fun q' member => oks q' (List.mem_cons_of_mem q member)) next scanned
      have stop : q.toPiece.stop = pos + q.ip.len.toNat := by
        rw [toPiece_stop qOk]
        omega
      refine ⟨?_, ?_⟩
      · rw [List.map_cons, takeRun, if_pos start, stop, run]
      · rw [total, List.flatMap_cons, List.length_append, ← qOk.len_eq]
        omega

end Refines

section Pieces

/-! Whatever the walk leaves in a queue is a fragment it was given, cut at the
front or not: the header fields other than the offset and the length stay. -/

theorem cutFront_zero (f : Packet) : f.cutFront 0 = f := by
  simp [Packet.cutFront]

theorem trimByPred_cut {p : Option Packet} {m m' : Packet} (kept : trimByPred p m = some m') :
    ∃ k, m' = m.cutFront k := by
  cases p with
  | none =>
    cases kept
    exact ⟨0, (cutFront_zero m).symm⟩
  | some q =>
    dsimp only [trimByPred] at kept
    split at kept
    · split at kept
      · cases kept
      · cases kept
        exact ⟨_, rfl⟩
    · cases kept
      exact ⟨0, (cutFront_zero m).symm⟩

theorem trimSuccs_cut (m : Packet) : ∀ qs : List Packet, ∀ f ∈ (trimSuccs m qs).1,
    ∃ g ∈ qs, ∃ k, f = g.cutFront k
  | [], f, member => by simp [trimSuccs] at member
  | q :: rest, f, member => by
    dsimp only [trimSuccs] at member
    split at member
    · split at member
      · rcases List.mem_cons.mp member with rfl | later
        · exact ⟨q, List.mem_cons_self, _, rfl⟩
        · exact ⟨f, List.mem_cons_of_mem q later, 0, (cutFront_zero f).symm⟩
      · obtain ⟨g, member', k, rfl⟩ := trimSuccs_cut m rest f member
        exact ⟨g, List.mem_cons_of_mem q member', k, rfl⟩
    · exact ⟨f, member, 0, (cutFront_zero f).symm⟩

theorem insertFrag_cut (m : Packet) : ∀ (p : Option Packet) (qs : List Packet) r,
    insertFrag p m qs = some r → ∀ f ∈ r.1, ∃ g ∈ m :: qs, ∃ k, f = g.cutFront k := by
  -- both cases of the walk end in `placeFrag`
  have placed : ∀ p after r, placeFrag p m after = some r → ∀ f ∈ r.1,
      ∃ g ∈ m :: after, ∃ k, f = g.cutFront k := by
    intro p after r placedSome f member
    obtain ⟨m', kept, rfl⟩ := Option.map_eq_some_iff.mp placedSome
    rcases List.mem_cons.mp member with rfl | later
    · obtain ⟨k, rfl⟩ := trimByPred_cut kept
      exact ⟨m, List.mem_cons_self, k, rfl⟩
    · obtain ⟨g, member', k, rfl⟩ := trimSuccs_cut m' after f later
      exact ⟨g, List.mem_cons_of_mem m member', k, rfl⟩
  intro p qs
  induction qs generalizing p with
  | nil => exact placed p []
  | cons q rest ih =>
    intro r inserted f member
    unfold insertFrag at inserted
    split at inserted
    · exact placed p _ r inserted f member
    · obtain ⟨r', walked, rfl⟩ := Option.map_eq_some_iff.mp inserted
      rcases List.mem_cons.mp member with rfl | later
      · exact ⟨f, List.mem_cons_of_mem m List.mem_cons_self, 0, (cutFront_zero f).symm⟩
      · obtain ⟨g, member', k, rfl⟩ := ih (some q) r' walked f later
        rcases List.mem_cons.mp member' with rfl | inRest
        · exact ⟨g, List.mem_cons_self, k, rfl⟩
        · exact ⟨g, List.mem_cons_of_mem m (List.mem_cons_of_mem q inRest), k, rfl⟩

end Pieces

end Xnu.IpReass
