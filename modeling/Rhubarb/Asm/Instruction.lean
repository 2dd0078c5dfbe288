import Mathlib.Tactic.Common

/-!
Instructions of the x86-64 disassembler and the bytes they are decoded from
(`crates/abi/src/asm.rs`).

* `Register`, `ImmediateValue`, `Operand`, `ConditionCode`, `Instruction`, `DisassemblyError`.
* `Rex`, `ModRm`, `Sib`: the bytes around the opcode, and the registers they name.
-/

namespace Rhubarb.Asm

/-! ### Instructions -/

inductive Register where
  | RAX | RCX | RDX | RBX | RSP | RBP | RSI | RDI
  | R8 | R9 | R10 | R11 | R12 | R13 | R14 | R15
  | RIP
  deriving DecidableEq, Repr

inductive ImmediateValue where
  | I8 (value : Int8)
  | I16 (value : Int16)
  | I32 (value : Int32)
  | I64 (value : Int64)
  deriving DecidableEq

inductive Operand where
  | Register (register : Register)
  | ImmediateValue (value : ImmediateValue)
  | Memory (base index : Option Register) (scale : ℕ) (disp : Int32)
  deriving DecidableEq

inductive ConditionCode where
  | O | NO | B | NB | Z | NZ | BE | A | S | NS | P | NP | L | GE | LE | G
  deriving DecidableEq, Repr

/-- `ConditionCode::new`. -/
def ConditionCode.new : ℕ → Option ConditionCode
  | 0x0 => some .O
  | 0x1 => some .NO
  | 0x2 => some .B
  | 0x3 => some .NB
  | 0x4 => some .Z
  | 0x5 => some .NZ
  | 0x6 => some .BE
  | 0x7 => some .A
  | 0x8 => some .S
  | 0x9 => some .NS
  | 0xA => some .P
  | 0xB => some .NP
  | 0xC => some .L
  | 0xD => some .GE
  | 0xE => some .LE
  | 0xF => some .G
  | _ => none

inductive Instruction where
  | ADC (dst src : Operand)
  | ADD (dst src : Operand)
  | AND (dst src : Operand)
  | BSF (dst src : Operand)
  | BSR (dst src : Operand)
  | CALL (operand : Operand)
  | CLC
  | CLD
  | CLI
  | CMC
  | CMOVCC (cc : ConditionCode) (dst src : Operand)
  | CMP (src1 src2 : Operand)
  | CPUID
  | DEC (operand : Operand)
  | HLT
  | IDIV (operand : Operand)
  | IMUL (operand : Operand)
  | IN (dst : Register) (port : Operand)
  | INC (operand : Operand)
  | INT (vector : ImmediateValue)
  | INVLPG (src : Operand)
  | INT1
  | INT3
  | INTO
  | JCC (cc : ConditionCode) (offset : ImmediateValue)
  | JMP (operand : Operand)
  | LEA (dst src : Operand)
  | LZCNT (dst src : Operand)
  | MONITOR
  | MOV (dst src : Operand)
  | MUL (operand : Operand)
  | MWAIT
  | NEG (operand : Operand)
  | NOP
  | NOT (operand : Operand)
  | OR (dst src : Operand)
  | OUT (src : Register) (port : Operand)
  | PAUSE
  | PUSH (operand : Operand)
  | POP (operand : Operand)
  | RDMSR
  | RDMSRLIST
  | RDPID (dst : Register)
  | RDPKRU
  | RDPMC
  | RDTSC
  | RDTSCP
  | RDRAND (dst : Register)
  | RDSEED (dst : Register)
  | RET
  | SAR (dst src : Operand)
  | SBB (dst src : Operand)
  | SETCC (cc : ConditionCode) (byte : Operand)
  | SHL (dst src : Operand)
  | SHR (dst src : Operand)
  | STC
  | STD
  | STI
  | SUB (dst src : Operand)
  | SWAPGS
  | SYSCALL
  | SYSENTER
  | SYSEXIT
  | SYSRET
  | TEST (src1 src2 : Operand)
  | TZCNT (dst src : Operand)
  | XCHG (dst src : Operand)
  | XOR (dst src : Operand)
  deriving DecidableEq

inductive DisassemblyError where
  | InvalidByte
  | PartialInstruction
  | UnsupportedOpcode (opcode : UInt8)
  deriving DecidableEq, Repr

/-- The panics of the disassembler: `unwrap` and `expect` on a register that does not exist. -/
inductive Panic where
  | register
  deriving DecidableEq, Repr

/-! ### The bytes around the opcode -/

/-- `parse_register`. -/
def parseRegister : ℕ → Bool → Option Register
  | 0, false => some .RAX
  | 1, false => some .RCX
  | 2, false => some .RDX
  | 3, false => some .RBX
  | 4, false => some .RSP
  | 5, false => some .RBP
  | 6, false => some .RSI
  | 7, false => some .RDI
  | 0, true => some .R8
  | 1, true => some .R9
  | 2, true => some .R10
  | 3, true => some .R11
  | 4, true => some .R12
  | 5, true => some .R13
  | 6, true => some .R14
  | 7, true => some .R15
  | _, _ => none

/-- `parse_register(..).unwrap()`. -/
def registerOf (index : ℕ) (rex : Bool) : Except Panic Register :=
  match parseRegister index rex with
  | some register => .ok register
  | none => .error .register

/-- The REX prefix of an instruction. -/
structure Rex where
  byte : UInt8
  deriving DecidableEq, Repr

namespace Rex

/-- `REX.W`. -/
def w (rex : Rex) : Bool := rex.byte &&& 0b1000 ≠ 0

/-- `REX.R`. -/
def r (rex : Rex) : Bool := rex.byte &&& 0b0100 ≠ 0

/-- `REX.X`. -/
def x (rex : Rex) : Bool := rex.byte &&& 0b0010 ≠ 0

/-- `REX.B`. -/
def b (rex : Rex) : Bool := rex.byte &&& 0b0001 ≠ 0

end Rex

/-- `rex.is_some_and(|rex| ..)`. -/
def rexBit (rex : Option Rex) (bit : Rex → Bool) : Bool := rex.elim false bit

/-- The ModR/M byte of an instruction. -/
structure ModRm where
  md : ℕ
  reg : ℕ
  rm : ℕ
  deriving DecidableEq, Repr

namespace ModRm

/-- `ModRm::new`. -/
def new (byte : UInt8) : ModRm :=
  ⟨(byte.toNat >>> 6) &&& 0b11, (byte.toNat >>> 3) &&& 0b111, byte.toNat &&& 0b111⟩

def isMemory (m : ModRm) : Bool := m.md ≠ 3

def hasSib (m : ModRm) : Bool := m.isMemory && m.rm = 4

def isRipRelative (m : ModRm) : Bool := m.md = 0 && m.rm = 5

/-- `ModRm::disp_size`. -/
def dispSize (m : ModRm) : ℕ :=
  if m.md = 0 ∧ m.rm = 5 then 4
  else if m.md = 1 then 1
  else if m.md = 2 then 4
  else 0

/-- `ModRm::rm_register`. -/
def rmRegister (m : ModRm) (rex : Bool) : Except Panic Register := registerOf m.rm rex

/-- The bit of the prefix that extends a register: `REX.R`, or `REX.B`. -/
def rexFor (rex : Option Rex) (useRexR : Bool) : Bool :=
  match rex with
  | some rex => if useRexR then rex.r else rex.b
  | none => false

/-- `ModRm::r64_reg_operand`. -/
def r64RegOperand (m : ModRm) (rex : Option Rex) (useRexR : Bool) : Except Panic Operand :=
  (registerOf m.reg (rexFor rex useRexR)).map .Register

end ModRm

/-- The SIB byte of an instruction. -/
structure Sib where
  scale : ℕ
  index : ℕ
  base : ℕ
  deriving DecidableEq, Repr

namespace Sib

/-- `Sib::new`. -/
def new (byte : UInt8) : Sib :=
  ⟨(byte.toNat >>> 6) &&& 0b11, (byte.toNat >>> 3) &&& 0b111, byte.toNat &&& 0b111⟩

/-- `Sib::scale_factor`. -/
def scaleFactor (sib : Sib) : ℕ :=
  match sib.scale with
  | 1 => 2
  | 2 => 4
  | 3 => 8
  | _ => 1

/-- `Sib::disp_size`. -/
def dispSize (sib : Sib) (m : ModRm) : ℕ :=
  if m.md = 0 ∧ sib.base = 5 then 4
  else if m.md = 1 then 1
  else if m.md = 2 then 4
  else 0

/-- `Sib::index_register`. -/
def indexRegister (sib : Sib) (rexX : Bool) : Option Register :=
  if sib.index = 4 then none else parseRegister sib.index rexX

/-- `Sib::base_register`. -/
def baseRegister (sib : Sib) (md : ℕ) (rexB : Bool) : Option Register :=
  if sib.base = 5 ∧ md = 0 then none else parseRegister sib.base rexB

end Sib

end Rhubarb.Asm
