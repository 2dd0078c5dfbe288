import Rhubarb.Asm.Registers

/-!
How the architecture encodes instructions on the lower eight registers.

The definitions here are not those of the source: they are the encodings of the manual in 64-bit
mode, for the instructions that the disassembler knows.  No bit of a REX prefix but `REX.W` is set.

* `Address`, `Rm`: operands, and the ModR/M and SIB bytes of them.
* `Size`, `lead`: operand sizes, and the prefixes that choose them.
* `Canonical`: an instruction and its bytes.
-/

namespace Rhubarb.Asm

open Foundations

/-! ### Values -/

/-- The bytes of a value. -/
def ImmediateValue.bytes : ImmediateValue → List UInt8
  | I8 value => leBytes 1 value.toUInt8.toNat
  | I16 value => leBytes 2 value.toUInt16.toNat
  | I32 value => leBytes 4 value.toUInt32.toNat
  | I64 value => leBytes 8 value.toUInt64.toNat

/-! ### Operands -/

/-- The lower registers, by their numbers. -/
abbrev Low : Type := Fin 8

/-- The register of a number. -/
def Low.register (r : Low) : Register :=
  match r with
  | 0 => .RAX
  | 1 => .RCX
  | 2 => .RDX
  | 3 => .RBX
  | 4 => .RSP
  | 5 => .RBP
  | 6 => .RSI
  | 7 => .RDI

/-- An index: a register that is not `RSP`, and the exponent of its scale. -/
structure Index where
  register : Low
  scale : Fin 4
  ne : register ≠ 4
  deriving DecidableEq

/-- Addresses: relative to `RIP`, or a sum of a base, an index and a displacement. -/
inductive Address where
  | rip (disp : Int32)
  | sum (base : Option Low) (index : Option Index) (disp : Int32)
  deriving DecidableEq

def Address.operand : Address → Operand
  | rip disp => .Memory (some .RIP) none 1 disp
  | sum base index disp =>
    .Memory (base.map Low.register) (index.map (·.register.register))
      (index.elim 1 fun index => 2 ^ (index.scale : ℕ)) disp

/-- Three fields in a byte. -/
def fieldsByte (high : Fin 4) (middle low : Low) : UInt8 :=
  UInt8.ofNat (64 * high + 8 * middle + low)

/-- `ModR/M.mod` and the displacement behind a base: as short as it can be; `RBP` has no form
without a displacement. -/
def dispFields (base : Low) (disp : Int32) : Fin 4 × List UInt8 :=
  if disp = 0 ∧ base ≠ 5 then (0, [])
  else if -128 ≤ disp.toInt ∧ disp.toInt ≤ 127 then (1, (ImmediateValue.I8 disp.toInt8).bytes)
  else (2, (ImmediateValue.I32 disp).bytes)

/-- `ModR/M.mod`, `ModR/M.rm` and the bytes behind the ModR/M byte. -/
structure RmFields where
  md : Fin 4
  rm : Low
  tail : List UInt8

/-- An address is encoded with a SIB byte if it has an index, or the base `RSP`, or no base. -/
def Address.fields : Address → RmFields
  | rip disp => ⟨0, 5, (ImmediateValue.I32 disp).bytes⟩
  | sum none index disp =>
    ⟨0, 4, fieldsByte (index.elim 0 (·.scale)) (index.elim 4 (·.register)) 5
      :: (ImmediateValue.I32 disp).bytes⟩
  | sum (some base) none disp =>
    if base = 4 then ⟨(dispFields base disp).1, 4, fieldsByte 0 4 4 :: (dispFields base disp).2⟩
    else ⟨(dispFields base disp).1, base, (dispFields base disp).2⟩
  | sum (some base) (some index) disp =>
    ⟨(dispFields base disp).1, 4,
      fieldsByte index.scale index.register base :: (dispFields base disp).2⟩

/-- The operand of `ModR/M.rm`. -/
inductive Rm where
  | register (r : Low)
  | memory (address : Address)
  deriving DecidableEq

namespace Rm

def operand : Rm → Operand
  | register r => .Register r.register
  | memory address => address.operand

def fields : Rm → RmFields
  | register r => ⟨3, r, []⟩
  | memory address => address.fields

/-- The ModR/M byte with `reg`, the SIB byte and the displacement. -/
def bytes (rm : Rm) (reg : Low) : List UInt8 :=
  fieldsByte rm.fields.md reg rm.fields.rm :: rm.fields.tail

/-- The registers that are operands themselves. -/
def registers : Rm → List Low
  | register r => [r]
  | memory _ => []

end Rm

/-! ### Operand sizes -/

/-- The operand sizes: a byte, two bytes, the default, and eight bytes by `REX.W`. -/
inductive Size where
  | byte | word | plain | wide
  deriving DecidableEq, Repr

/-- The REX prefix.  Without one, the byte registers from number 4 on are not those of `RSP` to
`RDI`. -/
def Size.rex (s : Size) (registers : List Low) : Option UInt8 :=
  match s with
  | byte => if registers.any (4 ≤ ·) then some 0x40 else none
  | wide => some 0x48
  | _ => none

/-- The prefixes before the opcode. -/
def lead (f3 : Bool) (s : Size) (registers : List Low) : List UInt8 :=
  (if s = .word then [0x66] else []) ++ (if f3 then [0xF3] else []) ++ (s.rex registers).toList

/-- The immediate values of a size: at most four bytes. -/
def Size.takes : Size → ImmediateValue → Bool
  | byte, .I8 _ | word, .I16 _ | plain, .I32 _ | wide, .I32 _ => true
  | _, _ => false

/-- The immediate values that `MOV` takes: as large as the register. -/
def Size.takesFull : Size → ImmediateValue → Bool
  | word, .I16 _ | plain, .I32 _ | wide, .I64 _ => true
  | _, _ => false

/-! ### Instructions -/

/-- `op r/m, r`: the opcode for bytes, if there is one, and that for the other sizes. -/
def rmRegRows : List ((Option UInt8 × UInt8) × (Operand → Operand → Instruction)) :=
  [((none, 0x01), .ADD), ((none, 0x09), .OR), ((none, 0x21), .AND), ((none, 0x29), .SUB),
    ((none, 0x31), .XOR), ((none, 0x39), .CMP), ((some 0x84, 0x85), .TEST),
    ((some 0x86, 0x87), .XCHG), ((some 0x88, 0x89), .MOV)]

/-- `op r, r/m`. -/
def regRmRows : List ((Option UInt8 × UInt8) × (Operand → Operand → Instruction)) :=
  [((none, 0x0B), .OR), ((none, 0x23), .AND), ((some 0x8A, 0x8B), .MOV)]

/-- The opcode of a row for a size. -/
def Size.opcode (s : Size) (row : Option UInt8 × UInt8) : Option UInt8 :=
  match s with
  | byte => row.1
  | _ => some row.2

/-- `op r/m, imm`, by `ModR/M.reg`. -/
def group1Rows : List (Low × (Operand → Operand → Instruction)) :=
  [(0, .ADD), (1, .OR), (2, .ADC), (3, .SBB), (4, .AND), (5, .SUB), (6, .XOR), (7, .CMP)]

/-- `op r/m, imm8`. -/
def group2Rows : List (Low × (Operand → Operand → Instruction)) := [(4, .SHL), (5, .SHR), (7, .SAR)]

/-- `op r/m`, opcodes `F6` and `F7`. -/
def group3Rows : List (Low × (Operand → Instruction)) :=
  [(2, .NOT), (3, .NEG), (4, .MUL), (5, .IMUL), (7, .IDIV)]

/-- `op r/m`, opcodes `FE` and `FF`. -/
def group4Rows : List (Low × (Operand → Instruction)) := [(0, .INC), (1, .DEC)]

/-- `op r/m`, opcode `FF`. -/
def nearRows : List (Low × (Operand → Instruction)) := [(2, .CALL), (4, .JMP), (6, .PUSH)]

/-- `op m`, opcode `FF`. -/
def farRows : List (Low × (Operand → Instruction)) := [(3, .CALL), (5, .JMP)]

/-- `op imm8`. -/
def imm8Rows : List (UInt8 × (ImmediateValue → Instruction)) :=
  [(0x1C, fun imm => .SBB (.Register .RAX) (.ImmediateValue imm)),
    (0x6A, fun imm => .PUSH (.ImmediateValue imm)),
    (0xCD, .INT),
    (0xE4, fun imm => .IN .RAX (.ImmediateValue imm)),
    (0xE5, fun imm => .IN .RAX (.ImmediateValue imm)),
    (0xE6, fun imm => .OUT .RAX (.ImmediateValue imm)),
    (0xE7, fun imm => .OUT .RAX (.ImmediateValue imm)),
    (0xEB, fun imm => .JMP (.ImmediateValue imm))]

/-- Instructions whose bytes are fixed. -/
def fixedRows : List (List UInt8 × Instruction) :=
  [([0x90], .NOP), ([0xF3, 0x90], .PAUSE), ([0xC3], .RET), ([0xCB], .RET), ([0xCC], .INT3),
    ([0xEC], .IN .RAX (.Register .RDX)), ([0xED], .IN .RAX (.Register .RDX)),
    ([0x66, 0xED], .IN .RAX (.Register .RDX)), ([0xEE], .OUT .RAX (.Register .RDX)),
    ([0xEF], .OUT .RAX (.Register .RDX)), ([0x66, 0xEF], .OUT .RAX (.Register .RDX)),
    ([0xF1], .INT1), ([0xF4], .HLT), ([0xF5], .CMC), ([0xF8], .CLC), ([0xF9], .STC), ([0xFA], .CLI),
    ([0xFB], .STI), ([0xFC], .CLD), ([0xFD], .STD), ([0x0F, 0x05], .SYSCALL),
    ([0x0F, 0x07], .SYSRET), ([0x48, 0x0F, 0x07], .SYSRET), ([0x0F, 0x31], .RDTSC),
    ([0x0F, 0x32], .RDMSR), ([0x0F, 0x33], .RDPMC), ([0x0F, 0x34], .SYSENTER),
    ([0x0F, 0x35], .SYSEXIT), ([0x48, 0x0F, 0x35], .SYSEXIT), ([0x0F, 0xA2], .CPUID), ([0xF2, 0x0F, 0x01, 0xC6], .RDMSRLIST),
    ([0x0F, 0x01, 0xC8], .MONITOR), ([0x0F, 0x01, 0xC9], .MWAIT), ([0x0F, 0x01, 0xEE], .RDPKRU),
    ([0x0F, 0x01, 0xF8], .SWAPGS), ([0x0F, 0x01, 0xF9], .RDTSCP)]

/-- `op r, r/m` after `0F`, with a prefix `F3` or without. -/
def regRm0fRows : List (Bool × UInt8 × (Operand → Operand → Instruction)) :=
  [(false, 0xBC, .BSF), (true, 0xBC, .TZCNT), (false, 0xBD, .BSR), (true, 0xBD, .LZCNT)]

/-- `op r` after `0F C7`, by the prefix `F3` and `ModR/M.reg`. -/
def randomRows : List (Bool × Low × (Register → Instruction)) :=
  [(false, 6, .RDRAND), (false, 7, .RDSEED), (true, 7, .RDPID)]

/-- **Canonical encodings**: the bytes of an instruction. -/
inductive Canonical : List UInt8 → Instruction → Prop
  | rmReg {row mk opcode} (s : Size) (dst : Rm) (src : Low) : (row, mk) ∈ rmRegRows →
      s.opcode row = some opcode →
      Canonical (lead false s (src :: dst.registers) ++ opcode :: dst.bytes src)
        (mk dst.operand (.Register src.register))
  | regRm {row mk opcode} (s : Size) (dst : Low) (src : Rm) : (row, mk) ∈ regRmRows →
      s.opcode row = some opcode →
      Canonical (lead false s (dst :: src.registers) ++ opcode :: src.bytes dst)
        (mk (.Register dst.register) src.operand)
  | lea (s : Size) (dst : Low) (src : Address) : s ≠ .byte →
      Canonical (lead false s [] ++ 0x8D :: (Rm.memory src).bytes dst)
        (.LEA (.Register dst.register) src.operand)
  | push (s : Size) (r : Low) : s = .word ∨ s = .plain →
      Canonical (lead false s [] ++ [0x50 + UInt8.ofNat r]) (.PUSH (.Register r.register))
  | pop (s : Size) (r : Low) : s = .word ∨ s = .plain →
      Canonical (lead false s [] ++ [0x58 + UInt8.ofNat r]) (.POP (.Register r.register))
  | xchg (s : Size) (r : Low) : s ≠ .byte → r ≠ 0 →
      Canonical (lead false s [] ++ [0x90 + UInt8.ofNat r])
        (.XCHG (.Register .RAX) (.Register r.register))
  | mov (s : Size) (r : Low) (imm : ImmediateValue) : s.takesFull imm = true →
      Canonical (lead false s [] ++ (0xB8 + UInt8.ofNat r) :: imm.bytes)
        (.MOV (.Register r.register) (.ImmediateValue imm))
  | imm8 {opcode mk} (s : Size) (value : Int8) : (opcode, mk) ∈ imm8Rows →
      s = .plain ∨ s = .word ∧ opcode ∈ [0xE5, 0xE7] →
      Canonical (lead false s [] ++ opcode :: (ImmediateValue.I8 value).bytes) (mk (.I8 value))
  | pushImm (s : Size) (imm : ImmediateValue) : s = .word ∨ s = .plain → s.takes imm = true →
      Canonical (lead false s [] ++ 0x68 :: imm.bytes) (.PUSH (.ImmediateValue imm))
  | jmp (value : Int32) :
      Canonical (0xE9 :: (ImmediateValue.I32 value).bytes) (.JMP (.ImmediateValue (.I32 value)))
  | jcc {cc} (n : Fin 16) (value : Int8) : ConditionCode.new n = some cc →
      Canonical ((0x70 + UInt8.ofNat n) :: (ImmediateValue.I8 value).bytes) (.JCC cc (.I8 value))
  | group1 {reg mk} (s : Size) (dst : Rm) (imm : ImmediateValue) : (reg, mk) ∈ group1Rows →
      s.takes imm = true →
      Canonical (lead false s dst.registers
          ++ (if s = .byte then 0x80 else 0x81) :: (dst.bytes reg ++ imm.bytes))
        (mk dst.operand (.ImmediateValue imm))
  | group1Short {reg mk} (s : Size) (dst : Rm) (value : Int8) : (reg, mk) ∈ group1Rows → s ≠ .byte →
      Canonical (lead false s dst.registers
          ++ 0x83 :: (dst.bytes reg ++ (ImmediateValue.I8 value).bytes))
        (mk dst.operand (.ImmediateValue (.I8 value)))
  | group2 {reg mk} (s : Size) (dst : Rm) (value : Int8) : (reg, mk) ∈ group2Rows →
      Canonical (lead false s dst.registers ++ (if s = .byte then 0xC0 else 0xC1)
          :: (dst.bytes reg ++ (ImmediateValue.I8 value).bytes))
        (mk dst.operand (.ImmediateValue (.I8 value)))
  | test (s : Size) (dst : Rm) (imm : ImmediateValue) : s.takes imm = true →
      Canonical (lead false s dst.registers
          ++ (if s = .byte then 0xF6 else 0xF7) :: (dst.bytes 0 ++ imm.bytes))
        (.TEST dst.operand (.ImmediateValue imm))
  | group3 {reg mk} (s : Size) (dst : Rm) : (reg, mk) ∈ group3Rows →
      Canonical (lead false s dst.registers ++ (if s = .byte then 0xF6 else 0xF7) :: dst.bytes reg)
        (mk dst.operand)
  | group4 {reg mk} (s : Size) (dst : Rm) : (reg, mk) ∈ group4Rows →
      Canonical (lead false s dst.registers ++ (if s = .byte then 0xFE else 0xFF) :: dst.bytes reg)
        (mk dst.operand)
  | near {reg mk} (s : Size) (dst : Rm) : (reg, mk) ∈ nearRows → s = .plain ∨ s = .word ∧ reg = 6 →
      Canonical (lead false s [] ++ 0xFF :: dst.bytes reg) (mk dst.operand)
  | far {reg mk} (s : Size) (dst : Address) : (reg, mk) ∈ farRows → s ≠ .byte →
      Canonical (lead false s [] ++ 0xFF :: (Rm.memory dst).bytes reg) (mk dst.operand)
  | ret {opcode} (value : Int16) : opcode = 0xC2 ∨ opcode = 0xCA →
      Canonical (opcode :: (ImmediateValue.I16 value).bytes) .RET
  | fixed {bytes i} : (bytes, i) ∈ fixedRows → Canonical bytes i
  | cmov {cc} (s : Size) (n : Fin 16) (dst : Low) (src : Rm) : ConditionCode.new n = some cc →
      s ≠ .byte →
      Canonical (lead false s [] ++ 0x0F :: (0x40 + UInt8.ofNat n) :: src.bytes dst)
        (.CMOVCC cc (.Register dst.register) src.operand)
  | setcc {cc} (n : Fin 16) (dst : Rm) : ConditionCode.new n = some cc →
      Canonical (lead false .byte dst.registers ++ 0x0F :: (0x90 + UInt8.ofNat n) :: dst.bytes 0)
        (.SETCC cc dst.operand)
  | regRm0f {f3 opcode mk} (s : Size) (dst : Low) (src : Rm) : (f3, opcode, mk) ∈ regRm0fRows →
      s ≠ .byte →
      Canonical (lead f3 s [] ++ 0x0F :: opcode :: src.bytes dst)
        (mk (.Register dst.register) src.operand)
  | random {f3 reg mk} (s : Size) (dst : Low) : (f3, reg, mk) ∈ randomRows → s ≠ .byte →
      Canonical (lead f3 s [] ++ 0x0F :: 0xC7 :: (Rm.register dst).bytes reg) (mk dst.register)

/-- `MOV rsi, [rbp - 0x38]`. -/
example : Canonical [0x48, 0x8B, 0x75, 0xC8]
    (.MOV (.Register .RSI) (.Memory (some .RBP) none 1 (-0x38))) :=
  .regRm .wide 6 (.memory (.sum (some 5) none (-0x38)))
    (show ((some 0x8A, 0x8B), Instruction.MOV) ∈ regRmRows by simp [regRmRows]) rfl

end Rhubarb.Asm
