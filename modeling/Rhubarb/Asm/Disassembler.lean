import Rhubarb.Asm.Instruction
import Rhubarb.Foundations.Bytes
import Rhubarb.Foundations.Readers

/-!
The x86-64 disassembler (`Disassembler` of `crates/abi/src/asm.rs`).

`next` reads prefixes up to an opcode and then does what the arm of that opcode says.  Arms that
differ in a constructor or a flag only are one `Arm` with parameters.

* `advance`: the next byte; `parseRm64Operand`: the operand a ModR/M byte names.
* `Arm`, `arm`, `Arm.run`: the arms of `next`; `Arm0f`, `arm0f`, `Arm0f.run`: those of
  `parse_0f_instruction`.
* `next`.
-/

namespace Rhubarb.Asm

open Foundations Comp

/-- `Disassembler`: the bytes and the offset of the next one. -/
abbrev Disassembler : Type := Cursor UInt8

/-- A function of the disassembler. -/
abbrev Decode : Type → Type := Comp Panic Disassembler DisassemblyError

/-! ### Reading bytes -/

/-- `Disassembler::advance`. -/
def advance : Decode UInt8 := token .PartialInstruction

/-- The next `n` bytes. -/
def advanceN : ℕ → Decode (List UInt8)
  | 0 => pure []
  | n + 1 => do
    let byte ← advance
    let bytes ← advanceN n
    pure (byte :: bytes)

/-- `Disassembler::advance_i8`. -/
def advanceI8 : Decode Int8 := do pure (Int8.ofNat (leNat (← advanceN 1)))

/-- `Disassembler::advance_i16`. -/
def advanceI16 : Decode Int16 := do pure (Int16.ofNat (leNat (← advanceN 2)))

/-- `Disassembler::advance_i32`. -/
def advanceI32 : Decode Int32 := do pure (Int32.ofNat (leNat (← advanceN 4)))

/-- `Disassembler::advance_i64`. -/
def advanceI64 : Decode Int64 := do pure (Int64.ofNat (leNat (← advanceN 8)))

/-- An immediate value of one byte. -/
def immediate8 : Decode ImmediateValue := do pure (.I8 (← advanceI8))

/-- An immediate value of four bytes. -/
def immediate32 : Decode ImmediateValue := do pure (.I32 (← advanceI32))

/-- `ModRm::new(self.advance()?)`. -/
def advanceModRm : Decode ModRm := do pure (.new (← advance))

/-- The displacement of an address, by its size. -/
def displacement (size : ℕ) : Decode Int32 :=
  if size = 1 then do pure (← advanceI8).toInt32
  else if size = 4 then advanceI32
  else pure 0

/-- `Disassembler::parse_rm64_operand`. -/
def parseRm64Operand (m : ModRm) (rex : Option Rex) (useRexR : Bool) : Decode Operand :=
  if m.isMemory then
    if m.hasSib then do
      let sib := Sib.new (← advance)
      let disp ← displacement (sib.dispSize m)
      pure (.Memory (sib.baseRegister m.md (rexBit rex Rex.b)) (sib.indexRegister (rexBit rex Rex.x))
        sib.scaleFactor disp)
    else do
      let disp ← displacement m.dispSize
      pure (.Memory
        (if m.isRipRelative then some .RIP else parseRegister m.rm (ModRm.rexFor rex useRexR))
        none 1 disp)
  else do
    pure (.Register (← lift (m.rmRegister (ModRm.rexFor rex useRexR))))

/-! ### Instruction groups -/

/-- The instructions of immediate group 1, by `ModR/M.reg`. -/
def group1 (reg : ℕ) (dst src : Operand) : Option Instruction :=
  match reg with
  | 0x0 => some (.ADD dst src)
  | 0x1 => some (.OR dst src)
  | 0x2 => some (.ADC dst src)
  | 0x3 => some (.SBB dst src)
  | 0x4 => some (.AND dst src)
  | 0x5 => some (.SUB dst src)
  | 0x6 => some (.XOR dst src)
  | 0x7 => some (.CMP dst src)
  | _ => none

/-- The instructions of group 2. -/
def group2 (reg : ℕ) (dst src : Operand) : Option Instruction :=
  match reg with
  | 0x4 => some (.SHL dst src)
  | 0x5 => some (.SHR dst src)
  | 0x7 => some (.SAR dst src)
  | _ => none

/-- The instructions of group 3 without an immediate value. -/
def group3 (reg : ℕ) (operand : Operand) : Option Instruction :=
  match reg with
  | 0x2 => some (.NOT operand)
  | 0x3 => some (.NEG operand)
  | 0x4 => some (.MUL operand)
  | 0x5 => some (.IMUL operand)
  | 0x7 => some (.IDIV operand)
  | _ => none

/-- The instructions of group 4. -/
def group4 (reg : ℕ) (operand : Operand) : Option Instruction :=
  match reg with
  | 0x0 => some (.INC operand)
  | 0x1 => some (.DEC operand)
  | _ => none

/-- The instructions of group 5. -/
def group5 (reg : ℕ) (operand : Operand) : Option Instruction :=
  match reg with
  | 0x0 => some (.INC operand)
  | 0x1 => some (.DEC operand)
  | 0x2 => some (.CALL operand)
  | 0x3 => some (.CALL operand)
  | 0x4 => some (.JMP operand)
  | 0x5 => some (.JMP operand)
  | 0x6 => some (.PUSH operand)
  | _ => none

/-- An instruction of a group, or `InvalidByte`. -/
def grouped : Option Instruction → Decode Instruction
  | some i => pure i
  | none => fail .InvalidByte

/-- `ConditionCode::new(opcode & 0x0F).ok_or(InvalidByte)?`. -/
def conditionOf (opcode : UInt8) : Decode ConditionCode :=
  match ConditionCode.new (opcode.toNat &&& 0x0F) with
  | some cc => pure cc
  | none => fail .InvalidByte

/-! ### Prefixes -/

/-- The prefixes of an instruction. -/
structure Prefixes where
  size : Bool := false
  f2 : Bool := false
  f3 : Bool := false
  rex : Option Rex := none
  deriving DecidableEq, Repr

/-- `is_rex_prefix`. -/
def isRexPrefix (byte : UInt8) : Bool := byte &&& 0xF0 = 0x40

/-- One turn of the loop of `next` that reads prefixes and the opcode; `again` is the next turn. -/
def prefixTurn (again : Prefixes → Decode (Prefixes × UInt8)) (p : Prefixes) (byte : UInt8) :
    Decode (Prefixes × UInt8) :=
  if byte = 0xC4 ∨ byte = 0xC5 then fail (.UnsupportedOpcode byte)
  else if byte = 0x66 then again { p with size := true }
  else if byte = 0xF0 then fail (.UnsupportedOpcode byte)
  else if byte = 0xF2 then again { p with f2 := true }
  else if byte = 0xF3 then again { p with f3 := true }
  else if isRexPrefix byte then do
    let opcode ← advance
    pure ({ p with rex := some ⟨byte⟩ }, opcode)
  else pure (p, byte)

/-- The loop of `next`, over the bytes that are left. -/
def prefixes : List UInt8 → Prefixes → Decode (Prefixes × UInt8)
  | [], _ => fail .PartialInstruction
  | _ :: left, p => do prefixTurn (prefixes left) p (← advance)

/-! ### Opcodes after `0F` -/

/-- The arms of `parse_0f_instruction`. -/
inductive Arm0f where
  /-- An instruction without operands. -/
  | plain (i : Instruction)
  /-- Group 7. -/
  | group7
  /-- `CMOVcc`. -/
  | cmov
  /-- `SETcc`. -/
  | setcc
  /-- The operands `ModR/M.reg` and `ModR/M.rm`. -/
  | regRm (mk : Operand → Operand → Instruction)
  /-- `RDRAND`, `RDPID` and `RDSEED`. -/
  | random
  | unsupported

/-- The arm of an opcode after `0F`. -/
def arm0f (f3 : Bool) (opcode : UInt8) : Arm0f :=
  if opcode = 0x00 then .unsupported
  else if opcode = 0x01 then .group7
  else if opcode = 0x05 then .plain .SYSCALL
  else if opcode = 0x07 then .plain .SYSRET
  else if opcode = 0x31 then .plain .RDTSC
  else if opcode = 0x32 then .plain .RDMSR
  else if opcode = 0x33 then .plain .RDPMC
  else if opcode = 0x34 then .plain .SYSENTER
  else if opcode = 0x35 then .plain .SYSEXIT
  else if 0x40 ≤ opcode ∧ opcode ≤ 0x4F then .cmov
  else if 0x90 ≤ opcode ∧ opcode ≤ 0x9F then .setcc
  else if opcode = 0xA2 then .plain .CPUID
  else if opcode = 0xBC then .regRm (if f3 then .TZCNT else .BSF)
  else if opcode = 0xBD then .regRm (if f3 then .LZCNT else .BSR)
  else if opcode = 0xC7 then .random
  else .unsupported

/-- The instructions of group 7. -/
def group7 (f2 : Bool) (byte : UInt8) : Decode Instruction :=
  if byte = 0xC6 ∧ f2 = true then pure .RDMSRLIST
  else if byte = 0xC8 then pure .MONITOR
  else if byte = 0xC9 then pure .MWAIT
  else if byte = 0xEE then pure .RDPKRU
  else if byte = 0xF8 then pure .SWAPGS
  else if byte = 0xF9 then pure .RDTSCP
  else if (ModRm.new byte).isMemory then fail (.UnsupportedOpcode byte)
  else fail .InvalidByte

/-- What an arm of `parse_0f_instruction` does. -/
def Arm0f.run (p : Prefixes) (opcode : UInt8) : Arm0f → Decode Instruction
  | plain i => pure i
  | group7 => do Asm.group7 p.f2 (← advance)
  | cmov => do
    let cc ← conditionOf opcode
    let m ← advanceModRm
    let dst ← lift (m.r64RegOperand p.rex false)
    let src ← parseRm64Operand m p.rex false
    pure (.CMOVCC cc dst src)
  | setcc => do
    let cc ← conditionOf opcode
    let m ← advanceModRm
    let byte ← parseRm64Operand m p.rex false
    pure (.SETCC cc byte)
  | regRm mk => do
    let m ← advanceModRm
    let dst ← lift (m.r64RegOperand p.rex false)
    let src ← parseRm64Operand m p.rex false
    pure (mk dst src)
  | random => do
    let m ← advanceModRm
    if m.reg = 0x6 then do pure (.RDRAND (← lift (m.rmRegister (rexBit p.rex Rex.b))))
    else if m.reg = 0x7 then
      if p.f3 then do pure (.RDPID (← lift (m.rmRegister false)))
      else do pure (.RDSEED (← lift (m.rmRegister (rexBit p.rex Rex.b))))
    else fail .InvalidByte
  | unsupported => fail (.UnsupportedOpcode opcode)

/-- `Disassembler::parse_0f_instruction`. -/
def parse0fInstruction (p : Prefixes) : Decode Instruction := do
  let opcode ← advance
  (arm0f p.f3 opcode).run p opcode

/-! ### Opcodes -/

/-- The arms of `next`. -/
inductive Arm where
  /-- The operands `ModR/M.rm` and `ModR/M.reg`. -/
  | rmReg (mk : Operand → Operand → Instruction)
  /-- The operands `ModR/M.reg` and `ModR/M.rm`, the second with `use_rex_r` as given. -/
  | regRm (mk : Operand → Operand → Instruction) (useRexR : Bool)
  /-- The register in the opcode, with `REX.R`. -/
  | opcodeReg (mk : Operand → Instruction)
  /-- A byte as immediate value. -/
  | imm8 (mk : ImmediateValue → Instruction)
  /-- Four bytes as immediate value. -/
  | imm32 (mk : ImmediateValue → Instruction)
  | jcc
  /-- The register in the opcode, with `REX.B`, and an immediate value. -/
  | movImm
  | group1
  | group2
  | group3
  | group4
  | group5
  /-- `RET` with two bytes that are passed over. -/
  | retImm
  /-- An instruction without operands of its own. -/
  | plain (i : Instruction)
  /-- `0F`. -/
  | escape
  | invalid
  | unsupported

/-- The arm of an opcode. -/
def arm (f3 : Bool) (opcode : UInt8) : Arm :=
  if opcode = 0x01 then .rmReg .ADD
  else if opcode = 0x09 then .rmReg .OR
  else if opcode = 0x0B then .regRm .OR true
  else if opcode = 0x0F then .escape
  else if opcode = 0x1C then .imm8 fun imm => .SBB (.Register .RAX) (.ImmediateValue imm)
  else if opcode = 0x21 then .rmReg .AND
  else if opcode = 0x23 then .regRm .AND true
  else if opcode = 0x29 then .rmReg .SUB
  else if opcode = 0x31 then .rmReg .XOR
  else if opcode = 0x39 then .rmReg .CMP
  else if 0x40 ≤ opcode ∧ opcode ≤ 0x4F then .invalid
  else if 0x50 ≤ opcode ∧ opcode ≤ 0x57 then .opcodeReg .PUSH
  else if 0x58 ≤ opcode ∧ opcode ≤ 0x5F then .opcodeReg .POP
  else if opcode = 0x60 then .invalid
  else if opcode = 0x61 then .invalid
  else if opcode = 0x68 then .imm32 fun imm => .PUSH (.ImmediateValue imm)
  else if opcode = 0x6A then .imm8 fun imm => .PUSH (.ImmediateValue imm)
  else if 0x70 ≤ opcode ∧ opcode ≤ 0x7F then .jcc
  else if 0x80 ≤ opcode ∧ opcode ≤ 0x83 then if opcode = 0x82 then .invalid else .group1
  else if opcode = 0x84 then .rmReg .TEST
  else if opcode = 0x85 then .rmReg .TEST
  else if opcode = 0x86 then .rmReg .XCHG
  else if opcode = 0x87 then .rmReg .XCHG
  else if opcode = 0x88 then .rmReg .MOV
  else if opcode = 0x89 then .rmReg .MOV
  else if opcode = 0x8A then .regRm .MOV true
  else if opcode = 0x8B then .regRm .MOV true
  else if opcode = 0x8D then .regRm .LEA false
  else if opcode = 0x90 then .plain (if f3 then .PAUSE else .NOP)
  else if 0x91 ≤ opcode ∧ opcode ≤ 0x97 then .opcodeReg fun r => .XCHG (.Register .RAX) r
  else if opcode = 0x98 then .unsupported
  else if opcode = 0x99 then .unsupported
  else if 0xB8 ≤ opcode ∧ opcode ≤ 0xBF then .movImm
  else if opcode = 0xC0 ∨ opcode = 0xC1 then .group2
  else if opcode = 0xC2 ∨ opcode = 0xCA then .retImm
  else if opcode = 0xC3 ∨ opcode = 0xCB then .plain .RET
  else if opcode = 0xCC then .plain .INT3
  else if opcode = 0xCD then .imm8 .INT
  else if opcode = 0xCE then .invalid
  else if 0xE4 ≤ opcode ∧ opcode ≤ 0xE5 then .imm8 fun imm => .IN .RAX (.ImmediateValue imm)
  else if 0xE6 ≤ opcode ∧ opcode ≤ 0xE7 then .imm8 fun imm => .IN .RAX (.ImmediateValue imm)
  else if opcode = 0xE9 then .imm32 fun imm => .JMP (.ImmediateValue imm)
  else if opcode = 0xEA then .invalid
  else if opcode = 0xEB then .imm8 fun imm => .JMP (.ImmediateValue imm)
  else if 0xEC ≤ opcode ∧ opcode ≤ 0xED then .plain (.IN .RAX (.Register .RDX))
  else if 0xEE ≤ opcode ∧ opcode ≤ 0xEF then .plain (.OUT .RAX (.Register .RDX))
  else if opcode = 0xF1 then .plain .INT1
  else if opcode = 0xF4 then .plain .HLT
  else if opcode = 0xF5 then .plain .CMC
  else if opcode = 0xF6 ∨ opcode = 0xF7 then .group3
  else if opcode = 0xF8 then .plain .CLC
  else if opcode = 0xF9 then .plain .STC
  else if opcode = 0xFA then .plain .CLI
  else if opcode = 0xFB then .plain .STI
  else if opcode = 0xFC then .plain .CLD
  else if opcode = 0xFD then .plain .STD
  else if opcode = 0xFE then .group4
  else if opcode = 0xFF then .group5
  else .unsupported

/-- The immediate value of `TEST` in group 3. -/
def testImmediate (p : Prefixes) (opcode : UInt8) : Decode ImmediateValue :=
  if opcode = 0xF6 then immediate8
  else if rexBit p.rex Rex.w then do pure (.I64 (← advanceI64))
  else if p.size then do pure (.I16 (← advanceI16))
  else immediate32

/-- The immediate value of `MOV`. -/
def movImmediate (p : Prefixes) : Decode ImmediateValue :=
  if p.rex.isSome then do pure (.I64 (← advanceI64)) else immediate32

/-- The immediate value of group 1. -/
def group1Immediate (opcode : UInt8) : Decode ImmediateValue :=
  if opcode = 0x80 ∨ opcode = 0x83 then immediate8 else immediate32

/-- What an arm of `next` does. -/
def Arm.run (p : Prefixes) (opcode : UInt8) : Arm → Decode Instruction
  | rmReg mk => do
    let m ← advanceModRm
    let dst ← parseRm64Operand m p.rex true
    let src ← lift (m.r64RegOperand p.rex true)
    pure (mk dst src)
  | regRm mk useRexR => do
    let m ← advanceModRm
    let dst ← lift (m.r64RegOperand p.rex true)
    let src ← parseRm64Operand m p.rex useRexR
    pure (mk dst src)
  | opcodeReg mk => do
    pure (mk (.Register (← lift (registerOf (opcode.toNat &&& 7) (rexBit p.rex Rex.r)))))
  | imm8 mk => do pure (mk (← immediate8))
  | imm32 mk => do pure (mk (← immediate32))
  | jcc => do
    let cc ← conditionOf opcode
    pure (.JCC cc (← immediate8))
  | movImm => do
    let dst ← lift (registerOf (opcode.toNat &&& 7) (rexBit p.rex Rex.b))
    let src ← movImmediate p
    pure (.MOV (.Register dst) (.ImmediateValue src))
  | group1 => do
    let m ← advanceModRm
    let dst ← parseRm64Operand m p.rex true
    let src ← group1Immediate opcode
    grouped (Asm.group1 m.reg dst (.ImmediateValue src))
  | group2 => do
    let m ← advanceModRm
    let dst ← parseRm64Operand m p.rex true
    let src ← immediate8
    grouped (Asm.group2 m.reg dst (.ImmediateValue src))
  | group3 => do
    let m ← advanceModRm
    let operand ← parseRm64Operand m p.rex true
    if m.reg = 0x0 then do
      let src ← testImmediate p opcode
      pure (.TEST operand (.ImmediateValue src))
    else grouped (Asm.group3 m.reg operand)
  | group4 => do
    let m ← advanceModRm
    let operand ← parseRm64Operand m p.rex true
    grouped (Asm.group4 m.reg operand)
  | group5 => do
    let m ← advanceModRm
    let operand ← parseRm64Operand m p.rex true
    grouped (Asm.group5 m.reg operand)
  | retImm => do
    modify fun d => { d with offset := d.offset + 2 }
    pure .RET
  | plain i => pure i
  | escape => parse0fInstruction p
  | invalid => fail .InvalidByte
  | unsupported => fail (.UnsupportedOpcode opcode)

/-- `Disassembler::next`. -/
def next : Decode Instruction := do
  let d ← read
  if d.offset = d.input.length then fail .PartialInstruction
  else do
    let (p, opcode) ← prefixes d.rest {}
    (arm p.f3 opcode).run p opcode

/-- The bytes of the test `smoke`, one instruction after the other. -/
example : next ⟨[0x48, 0x89, 0xe5, 0x48, 0x8b, 0x06], 0⟩
    = .ok (.ok (.MOV (.Register .RBP) (.Register .RSP)), ⟨[0x48, 0x89, 0xe5, 0x48, 0x8b, 0x06], 3⟩) := by
  decide +kernel

end Rhubarb.Asm
