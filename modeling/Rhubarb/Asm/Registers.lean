import Rhubarb.Asm.Streaming

/-!
The registers of a decoded instruction.

The architecture extends the three bits of `ModR/M.reg` by `REX.R`, those of `ModR/M.rm`, of a base
and of an opcode by `REX.B`, and those of an index by `REX.X`.

* `Role`, `roles`, `roles0f`: where the operands of an instruction come from.
* `Named`: its registers have the numbers the architecture says.
* `Straight`: the instructions for which `next` takes the right bits; `next_registers_iff`.
-/

namespace Rhubarb.Asm

open Foundations Comp

/-! ### Operands and their registers -/

/-- The number of a register; that of `RIP` is none of the sixteen. -/
def Register.number : Register → ℕ
  | RAX => 0
  | RCX => 1
  | RDX => 2
  | RBX => 3
  | RSP => 4
  | RBP => 5
  | RSI => 6
  | RDI => 7
  | R8 => 8
  | R9 => 9
  | R10 => 10
  | R11 => 11
  | R12 => 12
  | R13 => 13
  | R14 => 14
  | R15 => 15
  | RIP => 16

/-- The numbers of the register or base of an operand, and of its index. -/
def Operand.numbers : Operand → Option ℕ × Option ℕ
  | Register r => (some r.number, none)
  | ImmediateValue _ => (none, none)
  | Memory base index _ _ => (base.map Register.number, index.map Register.number)

/-- The operands of an instruction, in the order of its fields. -/
def Instruction.operands : Instruction → List Operand
  | ADC dst src | ADD dst src | AND dst src | BSF dst src | BSR dst src | CMOVCC _ dst src
  | CMP dst src | LEA dst src | LZCNT dst src | MOV dst src | OR dst src | SAR dst src
  | SBB dst src | SHL dst src | SHR dst src | SUB dst src | TEST dst src | TZCNT dst src
  | XCHG dst src | XOR dst src => [dst, src]
  | CALL operand | DEC operand | IDIV operand | IMUL operand | INC operand | INVLPG operand
  | JMP operand | MUL operand | NEG operand | NOT operand | PUSH operand | POP operand
  | SETCC _ operand => [operand]
  | IN register port | OUT register port => [.Register register, port]
  | RDPID dst | RDRAND dst | RDSEED dst => [.Register dst]
  | INT value | JCC _ value => [.ImmediateValue value]
  | _ => []

/-! ### What the architecture says -/

/-- Where an operand comes from. -/
inductive Role where
  /-- `ModR/M.reg`. -/
  | reg
  /-- `ModR/M.rm`: a register, or an address. -/
  | rm
  /-- `ModR/M.rm`, always a register. -/
  | register
  /-- The lower bits of the opcode. -/
  | opcode
  /-- None of these. -/
  | other
  deriving DecidableEq, Repr

/-- The first operands of an opcode.  Immediate values that follow are left out. -/
def roles (opcode : UInt8) : List Role :=
  if opcode ∈ [0x01, 0x09, 0x21, 0x29, 0x31, 0x39, 0x84, 0x85, 0x86, 0x87, 0x88, 0x89] then
    [.rm, .reg]
  else if opcode ∈ [0x0B, 0x23, 0x8A, 0x8B, 0x8D] then [.reg, .rm]
  else if opcode ∈ [0x80, 0x81, 0x83, 0xC0, 0xC1, 0xF6, 0xF7, 0xFE, 0xFF] then [.rm]
  else if 0x50 ≤ opcode ∧ opcode ≤ 0x5F ∨ 0xB8 ≤ opcode ∧ opcode ≤ 0xBF then [.opcode]
  else if 0x91 ≤ opcode ∧ opcode ≤ 0x97 then [.other, .opcode]
  else []

/-- The first operands of an opcode after `0F`. -/
def roles0f (opcode : UInt8) : List Role :=
  if 0x40 ≤ opcode ∧ opcode ≤ 0x4F ∨ opcode = 0xBC ∨ opcode = 0xBD then [.reg, .rm]
  else if 0x90 ≤ opcode ∧ opcode ≤ 0x9F then [.rm]
  else if opcode = 0xC7 then [.register]
  else []

/-- Three bits and the bit of the REX prefix that extends them. -/
def extended (rex : Option Rex) (bit : Rex → Bool) (n : ℕ) : ℕ := n + 8 * (rexBit rex bit).toNat

/-- The registers of the operand of `ModR/M.rm`, with the bytes behind the ModR/M byte. -/
def rmNumbers (rex : Option Rex) (m : ModRm) (us : List UInt8) : Option ℕ × Option ℕ :=
  if m.md = 3 then (some (extended rex Rex.b m.rm), none)
  else if m.rm = 4 then
    match us with
    | [] => (none, none)
    | byte :: _ =>
      let sib := Sib.new byte
      (if sib.base = 5 ∧ m.md = 0 then none else some (extended rex Rex.b sib.base),
        if extended rex Rex.x sib.index = 4 then none else some (extended rex Rex.x sib.index))
  else if m.md = 0 ∧ m.rm = 5 then (some Register.RIP.number, none)
  else (some (extended rex Rex.b m.rm), none)

/-- An operand has the registers that its role gives it; `rest` is what stands behind the opcode. -/
def Names (p : Prefixes) (opcode : UInt8) (rest : List UInt8) (role : Role) (op : Operand) : Prop :=
  match role with
  | .reg => ∀ byte us, rest = byte :: us →
      op.numbers = (some (extended p.rex Rex.r (ModRm.new byte).reg), none)
  | .rm => ∀ byte us, rest = byte :: us → op.numbers = rmNumbers p.rex (.new byte) us
  | .register => ∀ byte us, rest = byte :: us →
      op.numbers = (some (extended p.rex Rex.b (ModRm.new byte).rm), none)
  | .opcode => op.numbers = (some (extended p.rex Rex.b (opcode.toNat % 8)), none)
  | .other => True

/-- The first operands of an instruction have the registers that their roles give them. -/
def NamedBy (p : Prefixes) (opcode : UInt8) (rest : List UInt8) (roles : List Role)
    (i : Instruction) : Prop :=
  List.Forall₂ (Names p opcode rest) roles (i.operands.take roles.length)

/-- **Register extension**: the registers of an instruction have the numbers that the architecture
gives them. -/
def Named (p : Prefixes) (opcode : UInt8) (rest : List UInt8) (i : Instruction) : Prop :=
  if opcode = 0x0F then
    ∀ opcode' us, rest = opcode' :: us → NamedBy p opcode' us (roles0f opcode') i
  else NamedBy p opcode rest (roles opcode) i

/-! ### What the source does -/

/-- `ModR/M.rm` is a register or a base. -/
def ModRm.isPlain (m : ModRm) : Prop := m.md = 3 ∨ m.rm ≠ 4 ∧ ¬(m.md = 0 ∧ m.rm = 5)

/-- The index of an address is not `R12`. -/
def Indexed (rex : Option Rex) (m : ModRm) (us : List UInt8) : Prop :=
  m.md ≠ 3 → m.rm = 4 → ∀ byte more, us = byte :: more → (Sib.new byte).index = 4 →
    rexBit rex Rex.x = false

/-- `REX.R` and `REX.B` are equal. -/
def SameBits (rex : Option Rex) : Prop := rexBit rex Rex.r = rexBit rex Rex.b

/-- **The instructions after `0F` whose registers are right**: where `REX.B` is taken for
`ModR/M.reg` it is `REX.R`, the index is not `R12`, and the register of `RDPID` is not extended. -/
def Straight0f (p : Prefixes) (opcode byte : UInt8) (us : List UInt8) : Prop :=
  (.reg ∈ roles0f opcode → SameBits p.rex)
    ∧ (.rm ∈ roles0f opcode → Indexed p.rex (.new byte) us)
    ∧ (opcode = 0xC7 → (ModRm.new byte).reg = 7 → p.f3 = true → rexBit p.rex Rex.b = false)

/-- **The instructions whose registers are right**: where `REX.R` is taken for an opcode or for
`ModR/M.rm` it is `REX.B`, and the index is not `R12`. -/
def Straight (p : Prefixes) (opcode : UInt8) (rest : List UInt8) : Prop :=
  if opcode = 0x0F then
    ∀ opcode' byte us, rest = opcode' :: byte :: us → Straight0f p opcode' byte us
  else
    (.opcode ∈ roles opcode → opcode < 0xB8 → SameBits p.rex)
      ∧ (.rm ∈ roles opcode → ∀ byte us, rest = byte :: us →
        (opcode ≠ 0x8D → (ModRm.new byte).isPlain → SameBits p.rex) ∧ Indexed p.rex (.new byte) us)

variable {d d' : Disassembler} {p : Prefixes} {opcode byte : UInt8} {i : Instruction} {r : Register}
  {op : Operand} {rex : Option Rex} {bit useRexR : Bool} {n : ℕ} {us more rest : List UInt8}

/-! ### Registers -/

lemma parseRegister_number (hn : n < 8) (bit : Bool) :
    (parseRegister n bit).map Register.number = some (n + 8 * bit.toNat) := by
  cases bit <;> interval_cases n <;> rfl

lemma registerOf_number (hn : n < 8) (h : registerOf n bit = .ok r) :
    r.number = n + 8 * bit.toNat := by
  have hnumber := parseRegister_number hn bit
  unfold registerOf at h
  cases hr : parseRegister n bit with
  | none =>
    rw [hr] at h
    cases h
  | some r' =>
    rw [hr] at h hnumber
    cases h
    exact Option.some_inj.mp hnumber

variable {bit' : Rex → Bool} {m : ModRm} {reg : ℕ} {ops : List Operand}

/-- Two extensions of the same bits are equal if the bits of the prefix are. -/
lemma extended_iff :
    n + 8 * bit.toNat = extended rex bit' n ↔ bit = rexBit rex bit' := by
  rw [extended]
  cases bit <;> cases rexBit rex bit' <;> simp

lemma rexFor_true : ModRm.rexFor rex true = rexBit rex Rex.r := by
  cases rex <;> rfl

lemma rexFor_false : ModRm.rexFor rex false = rexBit rex Rex.b := by
  cases rex <;> rfl

lemma and_seven_lt (n : ℕ) : n &&& 0b111 < 8 := Nat.lt_succ_of_le Nat.and_le_right

lemma ModRm.reg_lt (byte : UInt8) : (ModRm.new byte).reg < 8 := and_seven_lt _

lemma ModRm.rm_lt (byte : UInt8) : (ModRm.new byte).rm < 8 := and_seven_lt _

lemma numbers_register_iff (hn : n < 8) (h : registerOf n bit = .ok r) :
    (Operand.Register r).numbers = (some (extended rex bit' n), none) ↔ bit = rexBit rex bit' := by
  rw [Operand.numbers, Prod.mk.injEq, Option.some_inj, registerOf_number hn h, extended_iff,
    and_iff_left rfl]

lemma names_reg_iff (h : registerOf (ModRm.new byte).reg bit = .ok r) :
    Names p opcode (byte :: us) .reg (.Register r) ↔ bit = rexBit p.rex Rex.r := by
  rw [← numbers_register_iff (ModRm.reg_lt byte) h, Names]
  simp

lemma names_register_iff (h : registerOf (ModRm.new byte).rm bit = .ok r) :
    Names p opcode (byte :: us) .register (.Register r) ↔ bit = rexBit p.rex Rex.b := by
  rw [← numbers_register_iff (ModRm.rm_lt byte) h, Names]
  simp

lemma names_opcode_iff (h : registerOf (opcode.toNat &&& 7) bit = .ok r) :
    Names p opcode rest .opcode (.Register r) ↔ bit = rexBit p.rex Rex.b := by
  rw [← numbers_register_iff (and_seven_lt _) h, Names, Nat.and_two_pow_sub_one_eq_mod _ 3]

/-- The numbers of the base and the index in a SIB byte. -/
lemma sib_numbers_iff {sib : Sib} {md : ℕ} (hbase : sib.base < 8) (hindex : sib.index < 8) :
    ((sib.baseRegister md (rexBit rex Rex.b)).map Register.number,
        (sib.indexRegister (rexBit rex Rex.x)).map Register.number)
      = (if sib.base = 5 ∧ md = 0 then none else some (extended rex Rex.b sib.base),
        if extended rex Rex.x sib.index = 4 then none else some (extended rex Rex.x sib.index))
      ↔ (sib.index = 4 → rexBit rex Rex.x = false) := by
  have hfirst : (sib.baseRegister md (rexBit rex Rex.b)).map Register.number
      = if sib.base = 5 ∧ md = 0 then none else some (extended rex Rex.b sib.base) := by
    rw [Sib.baseRegister]
    split_ifs
    · rfl
    · exact parseRegister_number hbase _
  rw [Prod.mk.injEq, and_iff_right hfirst, Sib.indexRegister, extended]
  by_cases hi : sib.index = 4
  · cases rexBit rex Rex.x <;> simp [hi]
  · have hne : sib.index + 8 * (rexBit rex Rex.x).toNat ≠ 4 := by
      cases rexBit rex Rex.x with
      | false => simpa using hi
      | true =>
        rw [Bool.toNat_true]
        omega
    rw [if_neg hi, if_neg hne, parseRegister_number hindex]
    simp [hi]

lemma rmNumbers_register (hmd : m.md = 3) :
    rmNumbers rex m us = (some (extended rex Rex.b m.rm), none) := by
  unfold rmNumbers
  rw [if_pos hmd]

lemma rmNumbers_sib (hmd : m.md ≠ 3) (hrm : m.rm = 4) :
    rmNumbers rex m (byte :: us)
      = (if (Sib.new byte).base = 5 ∧ m.md = 0 then none
          else some (extended rex Rex.b (Sib.new byte).base),
        if extended rex Rex.x (Sib.new byte).index = 4 then none
          else some (extended rex Rex.x (Sib.new byte).index)) := by
  unfold rmNumbers
  rw [if_neg hmd, if_pos hrm]

lemma rmNumbers_base (hmd : m.md ≠ 3) (hrm : m.rm ≠ 4) :
    rmNumbers rex m us
      = if m.md = 0 ∧ m.rm = 5 then (some Register.RIP.number, none)
        else (some (extended rex Rex.b m.rm), none) := by
  unfold rmNumbers
  rw [if_neg hmd, if_neg hrm]

/-- **The operand of `ModR/M.rm`** has the right registers if the right bit of the prefix was taken
and its index is not `R12`. -/
lemma RmOperand.names_iff (h : RmOperand (.new byte) p.rex useRexR us op) :
    Names p opcode (byte :: (us ++ more)) .rm op
      ↔ ((ModRm.new byte).isPlain → ModRm.rexFor p.rex useRexR = rexBit p.rex Rex.b)
        ∧ Indexed p.rex (.new byte) (us ++ more) := by
  have hnames : Names p opcode (byte :: (us ++ more)) .rm op
      ↔ op.numbers = rmNumbers p.rex (.new byte) (us ++ more) := by
    rw [Names]
    simp
  rw [hnames]
  cases h with
  | register hmd hr =>
    rw [rmNumbers_register hmd, numbers_register_iff (ModRm.rm_lt byte) hr]
    simp [ModRm.isPlain, Indexed, hmd]
  | sib hmd hrm hus =>
    rw [List.cons_append, rmNumbers_sib hmd hrm, Operand.numbers]
    refine (sib_numbers_iff (and_seven_lt _) (and_seven_lt _)).trans ?_
    simp [ModRm.isPlain, Indexed, hmd, hrm]
  | base hmd hrm hus =>
    rw [rmNumbers_base hmd hrm, Operand.numbers]
    by_cases hrip : (ModRm.new byte).md = 0 ∧ (ModRm.new byte).rm = 5
    · simp [ModRm.isPlain, Indexed, ModRm.isRipRelative, hrip]
    · have hfalse : (ModRm.new byte).isRipRelative = false := by
        simpa [ModRm.isRipRelative] using hrip
      rw [hfalse, if_neg Bool.false_ne_true, if_neg hrip, parseRegister_number (ModRm.rm_lt byte),
        Prod.mk.injEq, Option.some_inj, extended_iff]
      simp [ModRm.isPlain, Indexed, hrm, hrip]

/-! ### Arms -/

/-- The arms and the roles of their operands. -/
def Arm.takes (opcode : UInt8) : Arm → Bool
  | rmReg _ => opcode ≠ 0x0F && roles opcode = [.rm, .reg] && opcode ≠ 0x8D
  | regRm _ useRexR =>
    opcode ≠ 0x0F && roles opcode = [.reg, .rm] && useRexR = decide (opcode ≠ 0x8D)
  | opcodeReg _ =>
    opcode ≠ 0x0F && roles opcode = (if opcode < 0x60 then [.opcode] else [.other, .opcode])
      && opcode < 0xB8
  | movImm => opcode ≠ 0x0F && roles opcode = [.opcode] && 0xB8 ≤ opcode
  | group1 | group2 | group3 | group4 | group5 =>
    opcode ≠ 0x0F && roles opcode = [.rm] && opcode ≠ 0x8D
  | escape => opcode = 0x0F
  | invalid | unsupported => true
  | _ => opcode ≠ 0x0F && roles opcode = []

lemma arm_takes (f3 : Bool) (opcode : UInt8) : (arm f3 opcode).takes opcode = true := by
  by_cases h : opcode = 0x90
  · rw [h]
    rfl
  · rw [arm_eq_of_ne f3 h]
    exact forall_byte (P := fun b => (arm false b).takes b = true) (by decide +kernel) opcode

/-- The arms after `0F` and the roles of their operands. -/
def Arm0f.takes (opcode : UInt8) : Arm0f → Bool
  | cmov | regRm _ => roles0f opcode = [.reg, .rm] && opcode ≠ 0xC7
  | setcc => roles0f opcode = [.rm] && opcode ≠ 0xC7
  | random => roles0f opcode = [.register] && opcode = 0xC7
  | unsupported => true
  | _ => roles0f opcode = [] && opcode ≠ 0xC7

lemma arm0f_takes (f3 : Bool) : ∀ opcode, (arm0f f3 opcode).takes opcode = true := by
  refine forall_byte ?_
  cases f3 <;> decide +kernel

/-- The operands of the instructions that an arm makes. -/
def Arm.Makes (opcode : UInt8) : Arm → Prop
  | rmReg mk | regRm mk _ => ∀ a b, (mk a b).operands = [a, b]
  | opcodeReg mk =>
    ∀ a, (mk a).operands = if opcode < 0x60 then [a] else [.Register .RAX, a]
  | _ => True

lemma arm_makes (f3 : Bool) (opcode : UInt8) : (arm f3 opcode).Makes opcode := by
  rw [arm]
  repeat' refine iteInduction (motive := Arm.Makes opcode) (fun hopcode => ?_) (fun _ => ?_)
  all_goals first
    | exact True.intro
    | exact fun _ _ => rfl
    | exact fun _ => (if_pos (UInt8.lt_of_le_of_lt hopcode.2 (by decide))).symm
    | exact fun _ =>
        (if_neg fun hlt => absurd (UInt8.lt_of_le_of_lt hopcode.1 hlt) (by decide)).symm

/-- The operands of the instructions that an arm after `0F` makes. -/
def Arm0f.Makes : Arm0f → Prop
  | regRm mk => ∀ a b, (mk a b).operands = [a, b]
  | _ => True

lemma arm0f_makes (f3 : Bool) (opcode : UInt8) : (arm0f f3 opcode).Makes := by
  rw [arm0f]
  repeat' refine iteInduction (motive := Arm0f.Makes) (fun _ => ?_) (fun _ => ?_)
  all_goals first
    | exact True.intro
    | cases f3 <;> exact fun _ _ => rfl

lemma group1_operands {dst src : Operand} (h : group1 reg dst src = some i) :
    i.operands = [dst, src] := by
  unfold group1 at h
  split at h <;> cases h <;> rfl

lemma group2_operands {dst src : Operand} (h : group2 reg dst src = some i) :
    i.operands = [dst, src] := by
  unfold group2 at h
  split at h <;> cases h <;> rfl

lemma group3_operands (h : group3 reg op = some i) : i.operands = [op] := by
  unfold group3 at h
  split at h <;> cases h <;> rfl

lemma group4_operands (h : group4 reg op = some i) : i.operands = [op] := by
  unfold group4 at h
  split at h <;> cases h <;> rfl

lemma group5_operands (h : group5 reg op = some i) : i.operands = [op] := by
  unfold group5 at h
  split at h <;> cases h <;> rfl

/-! ### Instructions -/

lemma namedBy_nil : NamedBy p opcode rest [] i := .nil

lemma namedBy_one {role : Role} (h : i.operands = op :: ops) :
    NamedBy p opcode rest [role] i ↔ Names p opcode rest role op := by
  simp [NamedBy, h]

lemma namedBy_two {role role' : Role} {op' : Operand} (h : i.operands = op :: op' :: ops) :
    NamedBy p opcode rest [role, role'] i
      ↔ Names p opcode rest role op ∧ Names p opcode rest role' op' := by
  simp [NamedBy, h]

lemma named_0f : Named p 0x0F (opcode :: us) i ↔ NamedBy p opcode us (roles0f opcode) i := by
  simp [Named]

lemma straight_0f :
    Straight p 0x0F (opcode :: us) ↔ ∀ byte vs, us = byte :: vs → Straight0f p opcode byte vs := by
  rw [Straight, if_pos rfl]
  constructor
  · rintro h byte vs rfl
    exact h opcode byte vs rfl
  · rintro h opcode' byte vs heq
    cases heq
    exact h byte vs rfl

lemma straight_0f_cons :
    Straight p 0x0F (opcode :: byte :: us) ↔ Straight0f p opcode byte us := by
  simp [straight_0f]

lemma straight0f_of_nil (hroles : roles0f opcode = []) (hne : opcode ≠ 0xC7) :
    Straight0f p opcode byte us := by
  simp [Straight0f, hroles, hne]

/-- `RDRAND`, `RDSEED` and `RDPID`. -/
lemma straight0f_random_iff :
    Straight0f p 0xC7 byte us
      ↔ ((ModRm.new byte).reg = 7 → p.f3 = true → rexBit p.rex Rex.b = false) := by
  have hroles : roles0f 0xC7 = [.register] := rfl
  simp [Straight0f, hroles]

/-- An instruction after `0F` with the operands `ModR/M.reg` and `ModR/M.rm`. -/
lemma named_regRm_iff (hroles : roles0f opcode = [.reg, .rm]) (hne : opcode ≠ 0xC7)
    (hr : registerOf (ModRm.new byte).reg (ModRm.rexFor p.rex false) = .ok r)
    (hop : RmOperand (.new byte) p.rex false us op) (hi : i.operands = [.Register r, op]) :
    NamedBy p opcode (byte :: (us ++ more)) (roles0f opcode) i
      ↔ Straight0f p opcode byte (us ++ more) := by
  have hsame : ModRm.rexFor p.rex false = rexBit p.rex Rex.r ↔ SameBits p.rex := by
    rw [rexFor_false]
    exact eq_comm
  rw [hroles, namedBy_two hi, names_reg_iff hr, hop.names_iff, hsame]
  simp [Straight0f, hroles, hne, rexFor_false]

/-- **Instructions after `0F`.** -/
lemma Decodes0f.named_iff (h : Decodes0f p opcode (arm0f p.f3 opcode) us i) (more : List UInt8) :
    Named p 0x0F (opcode :: (us ++ more)) i ↔ Straight p 0x0F (opcode :: (us ++ more)) := by
  have htakes := arm0f_takes p.f3 opcode
  have hmakes := arm0f_makes p.f3 opcode
  rw [named_0f]
  generalize arm0f p.f3 opcode = a at h htakes hmakes
  cases h with
  | plain | group7 _ =>
    simp only [Arm0f.takes, Bool.and_eq_true, decide_eq_true_eq] at htakes
    rw [htakes.1, straight_0f]
    exact iff_of_true namedBy_nil fun _ _ _ => straight0f_of_nil htakes.1 htakes.2
  | cmov _ hr hop =>
    simp only [Arm0f.takes, Bool.and_eq_true, decide_eq_true_eq] at htakes
    rw [List.cons_append, straight_0f_cons]
    exact named_regRm_iff htakes.1 htakes.2 hr hop rfl
  | setcc _ hop =>
    simp only [Arm0f.takes, Bool.and_eq_true, decide_eq_true_eq] at htakes
    rw [htakes.1, namedBy_one rfl, List.cons_append, hop.names_iff, straight_0f_cons]
    simp [Straight0f, htakes, rexFor_false]
  | regRm hr hop =>
    simp only [Arm0f.takes, Bool.and_eq_true, decide_eq_true_eq] at htakes
    rw [List.cons_append, straight_0f_cons]
    exact named_regRm_iff htakes.1 htakes.2 hr hop (hmakes _ _)
  | rdrand h6 hr =>
    simp only [Arm0f.takes, Bool.and_eq_true, decide_eq_true_eq] at htakes
    obtain ⟨hroles, rfl⟩ := htakes
    rw [hroles, namedBy_one rfl, List.cons_append, names_register_iff hr, straight_0f_cons,
      straight0f_random_iff]
    simp [h6]
  | rdpid h7 hf3 hr =>
    simp only [Arm0f.takes, Bool.and_eq_true, decide_eq_true_eq] at htakes
    obtain ⟨hroles, rfl⟩ := htakes
    rw [hroles, namedBy_one rfl, List.cons_append, names_register_iff hr, straight_0f_cons,
      straight0f_random_iff, forall_prop_of_true h7, forall_prop_of_true hf3]
    exact eq_comm
  | rdseed h7 hf3 hr =>
    simp only [Arm0f.takes, Bool.and_eq_true, decide_eq_true_eq] at htakes
    obtain ⟨hroles, rfl⟩ := htakes
    rw [hroles, namedBy_one rfl, List.cons_append, names_register_iff hr, straight_0f_cons,
      straight0f_random_iff]
    simp [hf3]

lemma named_of_ne (h0f : opcode ≠ 0x0F) :
    Named p opcode rest i ↔ NamedBy p opcode rest (roles opcode) i := by
  rw [Named, if_neg h0f]

lemma straight_of_nil (h0f : opcode ≠ 0x0F) (hroles : roles opcode = []) :
    Straight p opcode rest := by
  simp [Straight, h0f, hroles]

/-- An instruction whose register is in the opcode. -/
lemma straight_opcode_iff (h0f : opcode ≠ 0x0F) (hop : .opcode ∈ roles opcode)
    (hrm : .rm ∉ roles opcode) :
    Straight p opcode rest ↔ (opcode < 0xB8 → SameBits p.rex) := by
  simp [Straight, h0f, hrm, hop]

/-- An instruction with an operand in `ModR/M.rm`. -/
lemma straight_rm_iff (h0f : opcode ≠ 0x0F) (hrm : .rm ∈ roles opcode)
    (hop : .opcode ∉ roles opcode) :
    Straight p opcode (byte :: us)
      ↔ (opcode ≠ 0x8D → (ModRm.new byte).isPlain → SameBits p.rex)
        ∧ Indexed p.rex (.new byte) us := by
  simp [Straight, h0f, hrm, hop]

/-- The operand of `ModR/M.rm` where `REX.R` is taken for it. -/
lemma RmOperand.names_iff_straight (h0f : opcode ≠ 0x0F) (hlea : opcode ≠ 0x8D)
    (hrm : .rm ∈ roles opcode) (hopcode : .opcode ∉ roles opcode)
    (hop : RmOperand (.new byte) p.rex true us op) :
    Names p opcode (byte :: (us ++ more)) .rm op ↔ Straight p opcode (byte :: (us ++ more)) := by
  rw [hop.names_iff, straight_rm_iff h0f hrm hopcode, forall_prop_of_true hlea, rexFor_true]
  rfl

/-- **The instructions whose registers are right.** -/
lemma Decodes.named_iff (h : Decodes p opcode (arm p.f3 opcode) us i) (more : List UInt8) :
    Named p opcode (us ++ more) i ↔ Straight p opcode (us ++ more) := by
  have htakes := arm_takes p.f3 opcode
  have hmakes := arm_makes p.f3 opcode
  generalize arm p.f3 opcode = a at h htakes hmakes
  -- arms without a register in their bytes
  have hnone : (opcode ≠ 0x0F ∧ roles opcode = []) →
      (Named p opcode (us ++ more) i ↔ Straight p opcode (us ++ more)) := by
    rintro ⟨h0f, hroles⟩
    rw [named_of_ne h0f, hroles]
    exact iff_of_true namedBy_nil (straight_of_nil h0f hroles)
  -- groups, whose first operand is in `ModR/M.rm`
  have hgroup : ∀ {byte us op ops more}, opcode ≠ 0x0F ∧ roles opcode = [.rm] ∧ opcode ≠ 0x8D →
      RmOperand (.new byte) p.rex true us op → i.operands = op :: ops →
      (Named p opcode (byte :: (us ++ more)) i ↔ Straight p opcode (byte :: (us ++ more))) := by
    rintro byte us op ops more ⟨h0f, hroles, hlea⟩ hop hi
    rw [named_of_ne h0f, hroles, namedBy_one hi]
    exact hop.names_iff_straight h0f hlea (by simp [hroles]) (by simp [hroles])
  cases h <;> simp only [Arm.takes, Bool.and_eq_true, decide_eq_true_eq, and_assoc] at htakes
  case rmReg mk byte us r op hop hr =>
    obtain ⟨h0f, hroles, hlea⟩ := htakes
    rw [named_of_ne h0f, hroles, namedBy_two (hmakes op (.Register r)), List.cons_append,
      names_reg_iff hr, rexFor_true, and_iff_left rfl]
    exact hop.names_iff_straight h0f hlea (by simp [hroles]) (by simp [hroles])
  case regRm mk useRexR byte us r op hr hop =>
    obtain ⟨h0f, hroles, huse⟩ := htakes
    rw [named_of_ne h0f, hroles, namedBy_two (hmakes (.Register r) op), List.cons_append,
      names_reg_iff hr, rexFor_true, and_iff_right rfl, hop.names_iff,
      straight_rm_iff h0f (by simp [hroles]) (by simp [hroles])]
    by_cases hlea : opcode = 0x8D
    · simp [huse, hlea, rexFor_false]
    · simp [huse, hlea, rexFor_true, SameBits]
  case opcodeReg mk r hr =>
    obtain ⟨h0f, hroles, hlt⟩ := htakes
    have hmk := hmakes (.Register r)
    rw [named_of_ne h0f]
    split_ifs at hroles hmk
    · rw [hroles, namedBy_one hmk, names_opcode_iff hr,
        straight_opcode_iff h0f (by simp [hroles]) (by simp [hroles]), forall_prop_of_true hlt]
      rfl
    · rw [hroles, namedBy_two hmk, names_opcode_iff hr,
        straight_opcode_iff h0f (by simp [hroles]) (by simp [hroles]), forall_prop_of_true hlt]
      exact and_iff_right trivial
  case movImm hr hus =>
    obtain ⟨h0f, hroles, hle⟩ := htakes
    rw [named_of_ne h0f, hroles, namedBy_one rfl, names_opcode_iff hr,
      straight_opcode_iff h0f (by simp [hroles]) (by simp [hroles])]
    exact iff_of_true rfl fun hlt => absurd hle (UInt8.not_le.mpr hlt)
  case group1 hop hvs hi =>
    rw [List.cons_append, List.append_assoc]
    exact hgroup htakes hop (group1_operands hi)
  case group2 hop hvs hi =>
    rw [List.cons_append, List.append_assoc]
    exact hgroup htakes hop (group2_operands hi)
  case test hop hreg hvs =>
    rw [List.cons_append, List.append_assoc]
    exact hgroup htakes hop rfl
  case group3 hop hi => exact hgroup htakes hop (group3_operands hi)
  case group4 hop hi => exact hgroup htakes hop (group4_operands hi)
  case group5 hop hi => exact hgroup htakes hop (group5_operands hi)
  case escape hdec =>
    subst htakes
    exact hdec.named_iff more
  all_goals exact hnone htakes

/-- **Registers of instructions.**  The registers of a decoded instruction have the numbers that the
architecture gives them exactly on the instructions that are `Straight`. -/
theorem next_registers_iff (h : next d = .ok (.ok i, d')) :
    (∀ p opcode rest, scan {} d.rest = some (p, opcode, rest) → Named p opcode rest i)
      ↔ ∀ p opcode rest, scan {} d.rest = some (p, opcode, rest) → Straight p opcode rest := by
  obtain ⟨ts, rest, p, opcode, hrest, hts, hrun⟩ := next_eq_ok h
  have hscan := scan_of_next hts hrun rest
  have hiff : Named p opcode rest i ↔ Straight p opcode rest := by
    by_cases harm : arm p.f3 opcode = .retImm
    · have htakes := arm_takes p.f3 opcode
      rw [harm] at htakes
      simp only [Arm.takes, Bool.and_eq_true, decide_eq_true_eq] at htakes
      rw [named_of_ne htakes.1, htakes.2]
      exact iff_of_true namedBy_nil (straight_of_nil htakes.1 htakes.2)
    · obtain ⟨us, more, hus, -, hdec⟩ := (Arm.parses p opcode harm).reads _ _ _ hrun
      rw [Cursor.rest_skip_of_eq hrest] at hus
      rw [hus]
      exact hdec.named_iff more
  rw [hrest, hscan]
  simpa using hiff

/-- `LEA r8, [rdx + rcx]`. -/
theorem next_registers_iff_lea :
    next ⟨[0x4C, 0x8D, 0x04, 0x0A], 0⟩ = .ok (.ok (.LEA (.Register .R8)
        (.Memory (some .RDX) (some .RCX) 1 0)), ⟨[0x4C, 0x8D, 0x04, 0x0A], 4⟩)
      ∧ ∀ p opcode rest, scan {} [0x4C, 0x8D, 0x04, 0x0A] = some (p, opcode, rest) →
        Named p opcode rest (.LEA (.Register .R8) (.Memory (some .RDX) (some .RCX) 1 0)) := by
  have h : next ⟨[0x4C, 0x8D, 0x04, 0x0A], 0⟩ = .ok (.ok (.LEA (.Register .R8)
      (.Memory (some .RDX) (some .RCX) 1 0)), ⟨[0x4C, 0x8D, 0x04, 0x0A], 4⟩) := by
    decide +kernel
  have hscan : scan {} [0x4C, 0x8D, 0x04, 0x0A]
      = some (⟨false, false, false, some ⟨0x4C⟩⟩, 0x8D, [0x04, 0x0A]) := by decide +kernel
  refine ⟨h, (next_registers_iff h).mpr fun p opcode rest hp => ?_⟩
  cases hscan.symm.trans hp
  refine (straight_rm_iff (by decide) (by decide) (by decide)).mpr ⟨fun hne => absurd rfl hne, ?_⟩
  rintro - - byte more heq hindex
  cases heq
  revert hindex
  decide

/-- `MOV rax, r8` is decoded as `MOV r8, r8`, and `PUSH r8` as `PUSH rax`. -/
theorem next_registers_rex :
    (next ⟨[0x4C, 0x89, 0xC0], 0⟩
        = .ok (.ok (.MOV (.Register .R8) (.Register .R8)), ⟨[0x4C, 0x89, 0xC0], 3⟩)
      ∧ scan {} [0x4C, 0x89, 0xC0] = some (⟨false, false, false, some ⟨0x4C⟩⟩, 0x89, [0xC0])
      ∧ ¬Named ⟨false, false, false, some ⟨0x4C⟩⟩ 0x89 [0xC0]
        (.MOV (.Register .R8) (.Register .R8)))
    ∧ next ⟨[0x41, 0x50], 0⟩ = .ok (.ok (.PUSH (.Register .RAX)), ⟨[0x41, 0x50], 2⟩)
      ∧ scan {} [0x41, 0x50] = some (⟨false, false, false, some ⟨0x41⟩⟩, 0x50, [])
      ∧ ¬Named ⟨false, false, false, some ⟨0x41⟩⟩ 0x50 [] (.PUSH (.Register .RAX)) := by
  refine ⟨⟨by decide +kernel, by decide +kernel, fun hnamed => ?_⟩, by decide +kernel,
    by decide +kernel, fun hnamed => ?_⟩
  · have hroles : roles 0x89 = [.rm, .reg] := rfl
    rw [named_of_ne (by decide), hroles, namedBy_two rfl] at hnamed
    have hnumbers := hnamed.1 0xC0 [] rfl
    revert hnumbers
    decide
  · have hroles : roles 0x50 = [.opcode] := rfl
    rw [named_of_ne (by decide), hroles, namedBy_one rfl] at hnamed
    revert hnamed
    unfold Names
    decide

end Rhubarb.Asm
