import Xnu.Lib.Bytes

namespace Xnu.Bpf

/-- `struct bpf_insn`. -/
structure BpfInsn where
  code : UInt16
  jt : UInt8
  jf : UInt8
  k : UInt32
  deriving DecidableEq, Repr

/-! The instruction encodings of `bpf.h`. -/

def bpfLd : UInt16 := 0x00
def bpfLdx : UInt16 := 0x01
def bpfSt : UInt16 := 0x02
def bpfStx : UInt16 := 0x03
def bpfAlu : UInt16 := 0x04
def bpfJmp : UInt16 := 0x05
def bpfRet : UInt16 := 0x06
def bpfMisc : UInt16 := 0x07

def bpfW : UInt16 := 0x00
def bpfH : UInt16 := 0x08
def bpfB : UInt16 := 0x10

def bpfImm : UInt16 := 0x00
def bpfAbs : UInt16 := 0x20
def bpfInd : UInt16 := 0x40
def bpfMem : UInt16 := 0x60
def bpfLen : UInt16 := 0x80
def bpfMsh : UInt16 := 0xa0

def bpfAdd : UInt16 := 0x00
def bpfSub : UInt16 := 0x10
def bpfMul : UInt16 := 0x20
def bpfDiv : UInt16 := 0x30
def bpfOr : UInt16 := 0x40
def bpfAnd : UInt16 := 0x50
def bpfLsh : UInt16 := 0x60
def bpfRsh : UInt16 := 0x70
def bpfNeg : UInt16 := 0x80
def bpfJa : UInt16 := 0x00
def bpfJeq : UInt16 := 0x10
def bpfJgt : UInt16 := 0x20
def bpfJge : UInt16 := 0x30
def bpfJset : UInt16 := 0x40

def bpfK : UInt16 := 0x00
def bpfX : UInt16 := 0x08
def bpfA : UInt16 := 0x10
def bpfTax : UInt16 := 0x00
def bpfTxa : UInt16 := 0x80

def bpfClass (code : UInt16) : UInt16 := code &&& 0x07
def bpfMode (code : UInt16) : UInt16 := code &&& 0xe0
def bpfOp (code : UInt16) : UInt16 := code &&& 0xf0
def bpfSrc (code : UInt16) : UInt16 := code &&& 0x08

def bpfMemwords : Nat := 16
def bpfMaxinsns : Nat := 512

/-! The case labels of the `switch (pc->code)` in `bpf_filter`, as operations. -/

inductive BpfSize where
  | w | h | b
  deriving DecidableEq, Repr

inductive BpfSrc where
  | k | x
  deriving DecidableEq, Repr

inductive BpfAluOp where
  | add | sub | mul | div | and | or | lsh | rsh
  deriving DecidableEq, Repr

inductive BpfJmpOp where
  | jgt | jge | jeq | jset
  deriving DecidableEq, Repr

inductive BpfOp where
  | retK | retA
  | ldAbs (size : BpfSize) | ldLen | ldxLen | ldInd (size : BpfSize) | ldxMsh
  | ldImm | ldxImm | ldMem | ldxMem | st | stx
  | ja | jmp (op : BpfJmpOp) (src : BpfSrc)
  | alu (op : BpfAluOp) (src : BpfSrc) | neg | tax | txa
  deriving DecidableEq, Repr

def BpfSize.bits : BpfSize → UInt16
  | .w => bpfW
  | .h => bpfH
  | .b => bpfB

def BpfSrc.bits : BpfSrc → UInt16
  | .k => bpfK
  | .x => bpfX

def BpfAluOp.bits : BpfAluOp → UInt16
  | .add => bpfAdd
  | .sub => bpfSub
  | .mul => bpfMul
  | .div => bpfDiv
  | .and => bpfAnd
  | .or => bpfOr
  | .lsh => bpfLsh
  | .rsh => bpfRsh

def BpfJmpOp.bits : BpfJmpOp → UInt16
  | .jgt => bpfJgt
  | .jge => bpfJge
  | .jeq => bpfJeq
  | .jset => bpfJset

/-- The `case` label under which `bpf_filter` executes each operation. -/
def BpfOp.code : BpfOp → UInt16
  | .retK => bpfRet ||| bpfK
  | .retA => bpfRet ||| bpfA
  | .ldAbs size => bpfLd ||| size.bits ||| bpfAbs
  | .ldLen => bpfLd ||| bpfW ||| bpfLen
  | .ldxLen => bpfLdx ||| bpfW ||| bpfLen
  | .ldInd size => bpfLd ||| size.bits ||| bpfInd
  | .ldxMsh => bpfLdx ||| bpfMsh ||| bpfB
  | .ldImm => bpfLd ||| bpfImm
  | .ldxImm => bpfLdx ||| bpfImm
  | .ldMem => bpfLd ||| bpfMem
  | .ldxMem => bpfLdx ||| bpfMem
  | .st => bpfSt
  | .stx => bpfStx
  | .ja => bpfJmp ||| bpfJa
  | .jmp op src => bpfJmp ||| op.bits ||| src.bits
  | .alu op src => bpfAlu ||| op.bits ||| src.bits
  | .neg => bpfAlu ||| bpfNeg
  | .tax => bpfMisc ||| bpfTax
  | .txa => bpfMisc ||| bpfTxa

/-- Every case of the switch, in the order of the source. -/
def BpfOp.all : List BpfOp :=
  [.retK, .retA, .ldAbs .w, .ldAbs .h, .ldAbs .b, .ldLen, .ldxLen, .ldInd .w, .ldInd .h,
    .ldInd .b, .ldxMsh, .ldImm, .ldxImm, .ldMem, .ldxMem, .st, .stx, .ja,
    .jmp .jgt .k, .jmp .jge .k, .jmp .jeq .k, .jmp .jset .k,
    .jmp .jgt .x, .jmp .jge .x, .jmp .jeq .x, .jmp .jset .x,
    .alu .add .x, .alu .sub .x, .alu .mul .x, .alu .div .x, .alu .and .x, .alu .or .x,
    .alu .lsh .x, .alu .rsh .x,
    .alu .add .k, .alu .sub .k, .alu .mul .k, .alu .div .k, .alu .and .k, .alu .or .k,
    .alu .lsh .k, .alu .rsh .k, .neg, .tax, .txa]

/-- The case whose label equals `code`; `none` is the `default` branch. -/
def bpfDecode (code : UInt16) : Option BpfOp :=
  BpfOp.all.find? (fun op => op.code == code)

theorem bpfDecode_code {code : UInt16} {op : BpfOp} (h : bpfDecode code = some op) :
    op.code = code := by
  simpa using List.find?_some h

/-! `bpf_validate`. -/

/-- The body of the loop of `bpf_validate` for instruction `i` (`from` is
`i + 1`); `len` is the program length as `u_int`. -/
def bpfValidInsn (len bpfMaxbufsize : UInt32) (i : Nat) (p : BpfInsn) : Bool :=
  let cls := bpfClass p.code
  if cls = bpfLd || cls = bpfLdx then
    let mode := bpfMode p.code
    if mode = bpfImm then true
    else if mode = bpfAbs || mode = bpfInd || mode = bpfMsh then !(p.k ≥ bpfMaxbufsize)
    else if mode = bpfMem then !(p.k ≥ 16)
    else if mode = bpfLen then true
    else false
  else if cls = bpfSt || cls = bpfStx then !(p.k ≥ 16)
  else if cls = bpfAlu then
    let op := bpfOp p.code
    if op = bpfAdd || op = bpfSub || op = bpfMul || op = bpfOr || op = bpfAnd ||
        op = bpfLsh || op = bpfRsh || op = bpfNeg then true
    else if op = bpfDiv then !(bpfSrc p.code = bpfK && p.k = 0)
    else false
  else if cls = bpfJmp then
    let start : UInt32 := (i + 1 : Nat).toUInt32
    let op := bpfOp p.code
    if op = bpfJa then !(start + p.k < start || start + p.k ≥ len)
    else if op = bpfJeq || op = bpfJgt || op = bpfJge || op = bpfJset then
      !(start + p.jt.toUInt32 ≥ len || start + p.jf.toUInt32 ≥ len)
    else false
  else if cls = bpfRet then true
  else if cls = bpfMisc then true
  else false

/-- The `for` loop of `bpf_validate`, from instruction `i` on. -/
def bpfValidateLoop (len bpfMaxbufsize : UInt32) : Nat → List BpfInsn → Bool
  | _, [] => true
  | i, p :: rest => bpfValidInsn len bpfMaxbufsize i p && bpfValidateLoop len bpfMaxbufsize (i + 1) rest

/-- `bpf_validate(f, len)` for the array `f` of `len` instructions that
`bpf_setf` copies in. -/
def bpfValidate (f : List BpfInsn) (bpfMaxbufsize : UInt32) : Bool :=
  if f.length < 1 || f.length > bpfMaxinsns then false
  else
    bpfValidateLoop f.length.toUInt32 bpfMaxbufsize 0 f &&
      match f.getLast? with
      | some p => bpfClass p.code == bpfRet
      | none => false

end Xnu.Bpf
