import Mathlib

namespace Xnu.Socket

/-! `sbdrop` of `uipc_socket2.c` and `m_freem_list` of `uipc_mbuf.c`, on a
heap of mbufs addressed by index: `m_next` chains the mbufs of a record and
`m_nextpkt` links the records of a socket buffer. Freeing marks an mbuf
`MT_FREE`, so freeing it twice is the panic of `m_freem_list`. The MPTCP
hooks, the send byte count and the global `total_sbmb_cnt` are left out. -/

def mtFree : Nat := 0
def mtData : Nat := 1
def mtHeader : Nat := 2
def mtOobdata : Nat := 7

def msize : Nat := 256

/-- The fields of `struct mbuf` these routines read and write; `mExtSize` is
`m_ext.ext_size` of an mbuf with `M_EXT`. -/
structure Mbuf where
  mNext : Option Nat
  mNextpkt : Option Nat
  mLen : Nat
  mData : Nat
  mType : Nat
  mExtSize : Option Nat
  deriving DecidableEq, Repr

/-- The fields of `struct sockbuf` `sbdrop` reads and writes. -/
structure Sockbuf where
  sbMb : Option Nat
  sbMbtail : Option Nat
  sbLastrecord : Option Nat
  sbCc : Nat
  sbCtl : Nat
  sbMbcnt : Nat
  deriving DecidableEq, Repr

/-- Data that `sb_ctl` counts: every type but `MT_DATA`, `MT_HEADER` and
`MT_OOBDATA`. -/
def Mbuf.isControl (m : Mbuf) : Prop := m.mType ≠ mtData ∧ m.mType ≠ mtHeader ∧ m.mType ≠ mtOobdata

instance (m : Mbuf) : Decidable m.isControl := inferInstanceAs (Decidable (_ ∧ _ ∧ _))

/-- `sbfree(sb, m)`: the counters without `m`. -/
def sbfree (sb : Sockbuf) (m : Mbuf) : Sockbuf :=
  let sb := { sb with sbCc := sb.sbCc - m.mLen }
  let sb := if m.isControl then { sb with sbCtl := sb.sbCtl - m.mLen } else sb
  match m.mExtSize with
  | none => { sb with sbMbcnt := sb.sbMbcnt - msize }
  | some size => { sb with sbMbcnt := sb.sbMbcnt - msize - size }

/-! `m_freem_list`. -/

/-- The inner loop of `m_freem_list`: the mbufs of one packet along `m_next`,
each marked free and recorded in `freed`. `none` is the panic on an mbuf
already free, or a pointer outside the heap. -/
def mFreemChain (heap : List Mbuf) (freed : List Nat) : Nat → Option Nat → Option (List Mbuf × List Nat)
  | _, none => some (heap, freed)
  | 0, some _ => none
  | fuel + 1, some p =>
    match heap[p]? with
    | none => none
    | some mb =>
      if mb.mType = mtFree then none
      else mFreemChain (heap.set p { mb with mType := mtFree }) (freed ++ [p]) fuel mb.mNext

/-- `m_freem_list(m)`: each packet along `m_nextpkt` is unlinked and freed
along `m_next`. -/
def mFreemList (heap : List Mbuf) (freed : List Nat) : Nat → Option Nat → Option (List Mbuf × List Nat)
  | _, none => some (heap, freed)
  | 0, some _ => none
  | fuel + 1, some p =>
    match heap[p]? with
    | none => none
    | some mb =>
      match mFreemChain (heap.set p { mb with mNextpkt := none }) freed (heap.length + 1) (some p) with
      | none => none
      | some (heap, freed) => mFreemList heap freed fuel mb.mNextpkt

/-! `sbdrop`. -/

/-- The locals of `sbdrop` and the state it changes. -/
structure SbdropState where
  m : Option Nat
  next : Option Nat
  last : Option Nat
  ml : Option Nat
  len : Nat
  heap : List Mbuf
  sb : Sockbuf
  deriving DecidableEq, Repr

/-- The `while (len > 0)` loop of `sbdrop`: whole mbufs are dropped along
`m_next`; at the end of a record it moves on to the next one, `last`; a
partly dropped mbuf is trimmed and ends the loop. `none` is a pointer outside
the heap, or a run longer than `fuel`. -/
def sbdropLoop : Nat → SbdropState → Option SbdropState
  | 0, _ => none
  | fuel + 1, s =>
    if s.len = 0 then some s
    else
      match s.m with
      | none =>
        match s.next with
        | none => some { s with len := 0, sb := { s.sb with sbCc := 0, sbMbcnt := 0 } }
        | some next =>
          match s.heap[next]? with
          | none => none
          | some mb => sbdropLoop fuel { s with m := some next, last := some next, next := mb.mNextpkt }
      | some m =>
        match s.heap[m]? with
        | none => none
        | some mb =>
          if mb.mLen > s.len then
            let sb := { s.sb with sbCc := s.sb.sbCc - s.len }
            let sb := if mb.isControl then { sb with sbCtl := sb.sbCtl - s.len } else sb
            some { s with
              heap := s.heap.set m { mb with mLen := mb.mLen - s.len, mData := mb.mData + s.len },
              sb := sb }
          else
            sbdropLoop fuel
              { s with len := s.len - mb.mLen, sb := sbfree s.sb mb, ml := some m, m := mb.mNext }

/-- The `while (m && m->m_len == 0)` loop of `sbdrop`: empty mbufs after the
dropped bytes go too. -/
def sbdropEmpty : Nat → SbdropState → Option SbdropState
  | 0, _ => none
  | fuel + 1, s =>
    match s.m with
    | none => some s
    | some m =>
      match s.heap[m]? with
      | none => none
      | some mb =>
        if mb.mLen = 0 then
          sbdropEmpty fuel { s with sb := sbfree s.sb mb, ml := some m, m := mb.mNext }
        else some s

/-- The cut before `m_freem_list(free_list)`: `ml->m_next` and
`last->m_nextpkt` are cleared. -/
def sbdropCut (heap : List Mbuf) (ml last : Nat) : List Mbuf :=
  let heap := heap.modify ml fun mb => { mb with mNext := none }
  heap.modify last fun mb => { mb with mNextpkt := none }

/-- `sbdrop(sb, len)`: the heap and the socket buffer after it, and the mbufs
`m_freem_list` freed, in order. The two loops run on fuel of twice and once
the heap's size. -/
def sbdrop (heap : List Mbuf) (sb : Sockbuf) (len : Nat) : Option (List Mbuf × Sockbuf × List Nat) := do
  let next ← match sb.sbMb with
    | none => some none
    | some m => (heap[m]?).map (·.mNextpkt)
  let s ← sbdropLoop (2 * heap.length + 2) ⟨sb.sbMb, next, sb.sbMb, none, len, heap, sb⟩
  let s ← sbdropEmpty (heap.length + 1) s
  let (heap, freed) ← match s.ml, s.last with
    | none, _ => some (s.heap, [])
    | some _, none => none
    | some ml, some last => mFreemList (sbdropCut s.heap ml last) [] (heap.length + 1) sb.sbMb
  let (heap, sb) := match s.m with
    | some m => (heap.modify m fun mb => { mb with mNextpkt := s.next }, { s.sb with sbMb := some m })
    | none => (heap, { s.sb with sbMb := s.next })
  -- `SB_EMPTY_FIXUP`, and `sb_lastrecord` once part of the last record is dropped
  let sb := match sb.sbMb with
    | none => { sb with sbMbtail := none, sbLastrecord := none }
    | some m => if (heap[m]?.bind (·.mNextpkt)).isNone then { sb with sbLastrecord := some m } else sb
  pure (heap, sb, freed)

end Xnu.Socket
