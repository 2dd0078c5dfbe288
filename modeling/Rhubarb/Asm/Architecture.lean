import Rhubarb.Asm.Disassembler

/-!
What the architecture says of the instructions that the disassembler knows.

The definitions here are not those of the source: they state what the manual says of the bytes of an
instruction in 64-bit mode, to be compared with what `next` does.

* `scan`: the prefixes and the opcode.
* `Format`, `format`, `format0f`: which opcodes have a ModR/M byte and an immediate value.
* `addressLength`, `archLength`: how long an instruction is.
-/

namespace Rhubarb.Asm

/-! ### Prefixes and opcode -/

/-- The legacy prefixes: lock and repeat, segments, operand size and address size. -/
def isLegacyPrefix (byte : UInt8) : Bool :=
  byte ∈ [0xF0, 0xF2, 0xF3, 0x2E, 0x36, 0x3E, 0x26, 0x64, 0x65, 0x66, 0x67]

/-- The prefixes, the opcode and the bytes behind it.  A REX prefix counts only if it stands right
before the opcode. -/
def scan (p : Prefixes) : List UInt8 → Option (Prefixes × UInt8 × List UInt8)
  | [] => none
  | byte :: rest =>
    if isLegacyPrefix byte then
      scan ⟨p.size || byte = 0x66, p.f2 || byte = 0xF2, p.f3 || byte = 0xF3, none⟩ rest
    else if isRexPrefix byte then scan { p with rex := some ⟨byte⟩ } rest
    else some (p, byte, rest)

/-- The opcode of an instruction. -/
def opcodeOf (bytes : List UInt8) : Option UInt8 := (scan {} bytes).map fun h => h.2.1

/-! ### Lengths -/

/-- The immediate values of instructions: none, one or two bytes, two or four bytes by the operand
size, or up to eight. -/
inductive Immediate where
  | none | ib | iw | id | iz | iv
  deriving DecidableEq, Repr

/-- How long an immediate value is.  The operand size is 16 bits with the prefix `66`, unless `REX.W`
makes it 64 bits. -/
def Immediate.length (p : Prefixes) : Immediate → ℕ
  | none => 0
  | ib => 1
  | iw => 2
  | id => 4
  | iz => if p.size && !rexBit p.rex Rex.w then 2 else 4
  | iv => if rexBit p.rex Rex.w then 8 else if p.size then 2 else 4

/-- What stands behind the opcode: a ModR/M byte with its address, and an immediate value. -/
structure Format where
  modrm : Bool
  immediate : Immediate
  deriving DecidableEq, Repr

/-- The format of an opcode.  In group 3 it depends on `ModR/M.reg`, which is given as `reg`. -/
def format (reg : Option ℕ) (opcode : UInt8) : Option Format :=
  if opcode ∈ [0x01, 0x09, 0x0B, 0x21, 0x23, 0x29, 0x31, 0x39, 0x84, 0x85, 0x86, 0x87, 0x88, 0x89,
    0x8A, 0x8B, 0x8D, 0xFE, 0xFF] then some ⟨true, .none⟩
  else if opcode ∈ [0x80, 0x83, 0xC0, 0xC1] then some ⟨true, .ib⟩
  else if opcode = 0x81 then some ⟨true, .iz⟩
  else if opcode = 0xF6 then some ⟨true, if reg = some 0 ∨ reg = some 1 then .ib else .none⟩
  else if opcode = 0xF7 then some ⟨true, if reg = some 0 ∨ reg = some 1 then .iz else .none⟩
  else if opcode ∈ [0x1C, 0x6A, 0xCD, 0xE4, 0xE5, 0xE6, 0xE7, 0xEB]
    ∨ 0x70 ≤ opcode ∧ opcode ≤ 0x7F then some ⟨false, .ib⟩
  else if opcode = 0xC2 ∨ opcode = 0xCA then some ⟨false, .iw⟩
  -- near jumps have 32-bit displacements whatever the operand size
  else if opcode = 0xE9 then some ⟨false, .id⟩
  else if opcode = 0x68 then some ⟨false, .iz⟩
  else if 0xB8 ≤ opcode ∧ opcode ≤ 0xBF then some ⟨false, .iv⟩
  else if 0x50 ≤ opcode ∧ opcode ≤ 0x5F ∨ 0x90 ≤ opcode ∧ opcode ≤ 0x97
    ∨ 0xEC ≤ opcode ∧ opcode ≤ 0xEF ∨ 0xF8 ≤ opcode ∧ opcode ≤ 0xFD
    ∨ opcode ∈ [0xC3, 0xCB, 0xCC, 0xF1, 0xF4, 0xF5] then some ⟨false, .none⟩
  else none

/-- The format of an opcode after `0F`. -/
def format0f (opcode : UInt8) : Option Format :=
  if 0x40 ≤ opcode ∧ opcode ≤ 0x4F ∨ 0x90 ≤ opcode ∧ opcode ≤ 0x9F
    ∨ opcode ∈ [0x01, 0xBC, 0xBD, 0xC7] then some ⟨true, .none⟩
  else if opcode ∈ [0x05, 0x07, 0x31, 0x32, 0x33, 0x34, 0x35, 0xA2] then some ⟨false, .none⟩
  else none

/-- How long the SIB byte and the displacement are that a ModR/M byte asks for. -/
def addressLength (m : ModRm) (rest : List UInt8) : Option ℕ :=
  if m.md = 3 then some 0
  else if m.rm = 4 then
    rest.head?.map fun sib =>
      1 + if m.md = 1 then 1 else if m.md = 2 ∨ sib.toNat % 8 = 5 then 4 else 0
  else some (if m.md = 1 then 1 else if m.md = 2 ∨ m.rm = 5 then 4 else 0)

/-- How many bytes stand behind an opcode of a format. -/
def Format.length (p : Prefixes) (f : Format) (rest : List UInt8) : Option ℕ :=
  if f.modrm then
    match rest with
    | [] => none
    | byte :: rest => (addressLength (.new byte) rest).map (1 + · + f.immediate.length p)
  else some (f.immediate.length p)

/-- How many bytes stand behind an opcode. -/
def tailLength (p : Prefixes) (opcode : UInt8) (rest : List UInt8) : Option ℕ :=
  if opcode = 0x0F then
    match rest with
    | [] => none
    | opcode :: rest => (format0f opcode).bind fun f => (f.length p rest).map (1 + ·)
  else
    (format (rest.head?.map fun byte => (ModRm.new byte).reg) opcode).bind fun f => f.length p rest

/-- **The length of the instruction that a string starts with**, if it is there: its prefixes, the
opcode, the ModR/M and the SIB byte, the displacement and the immediate value. -/
def archLength (bytes : List UInt8) : Option ℕ :=
  (scan {} bytes).bind fun (p, opcode, rest) =>
    (tailLength p opcode rest).bind fun n =>
      if n ≤ rest.length then some (bytes.length - rest.length + n) else none

/-- Instructions of the manual and their lengths. -/
example : [[0x48, 0x8B, 0x75, 0xC8], [0x4A, 0x89, 0x84, 0xED, 0x28, 0xFD, 0xFF, 0xFF],
    [0x66, 0xB8, 0x01, 0x02], [0x48, 0xF7, 0xC0, 1, 2, 3, 4]].map archLength
    = [some 4, some 8, some 4, some 7] := by
  decide +kernel

end Rhubarb.Asm
