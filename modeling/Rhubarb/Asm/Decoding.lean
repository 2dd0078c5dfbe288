import Rhubarb.Asm.Disassembler

/-!
What instructions are decoded from.

The relations here say once, for every arm of `next`, which bytes it reads and which instruction it
makes of them; nothing else is read, and no shorter input suffices.

* `RmOperand`: the operand that a ModR/M byte names, with the bytes behind it.
* `Decodes`, `Decodes0f`: the arms; `Arm.parses`, `Arm0f.parses`.
-/

namespace Rhubarb.Asm

open Foundations Comp

variable {α : Type} {opcode : UInt8}

/-- The bytes that a function of the disassembler reads, and the value it makes of them. -/
abbrev ParsesBytes (R : List UInt8 → α → Prop) (c : Decode α) : Prop :=
  Parses .PartialInstruction R c

/-! ### Values -/

/-- The immediate value of some bytes. -/
def ImmediateValue.ofBytes (us : List UInt8) : ImmediateValue :=
  if us.length = 1 then .I8 (.ofNat (leNat us))
  else if us.length = 2 then .I16 (.ofNat (leNat us))
  else if us.length = 8 then .I64 (.ofNat (leNat us))
  else .I32 (.ofNat (leNat us))

/-- The displacement of some bytes. -/
def dispOf (us : List UInt8) : Int32 :=
  if us.length = 1 then (Int8.ofNat (leNat us)).toInt32
  else if us.length = 4 then .ofNat (leNat us)
  else 0

/-- An immediate value of a number of bytes. -/
abbrev Immediately (n : ℕ) (us : List UInt8) (imm : ImmediateValue) : Prop :=
  us.length = n ∧ imm = .ofBytes us

lemma parses_advanceN (n : ℕ) :
    ParsesBytes (fun us bytes => us.length = n ∧ bytes = us) (advanceN n) := by
  induction n with
  | zero => exact (parses_pure _).congr fun us bytes => by simp +contextual
  | succ n ih =>
    refine parses_token_bind (fun byte => (ih.map (byte :: ·)).congr fun us bytes => ?_) (by simp)
    simp

lemma parses_immediate {β : Type} {n : ℕ} {g : ℕ → β} {k : β → ImmediateValue}
    (h : ∀ us : List UInt8, us.length = n → .ofBytes us = k (g (leNat us))) :
    ParsesBytes (Immediately n)
      ((advanceN n >>= fun bytes => pure (g (leNat bytes))) >>= fun b => pure (k b)) := by
  refine (((parses_advanceN n).map _).map _).congr fun us imm => ?_
  constructor
  · rintro ⟨_, ⟨_, ⟨hlen, rfl⟩, rfl⟩, rfl⟩
    exact ⟨hlen, (h _ hlen).symm⟩
  · rintro ⟨hlen, rfl⟩
    exact ⟨_, ⟨us, ⟨hlen, rfl⟩, rfl⟩, h us hlen⟩

lemma parses_immediate8 : ParsesBytes (Immediately 1) immediate8 :=
  parses_immediate fun us h => by simp [ImmediateValue.ofBytes, h]

lemma parses_immediate32 : ParsesBytes (Immediately 4) immediate32 :=
  parses_immediate fun us h => by simp [ImmediateValue.ofBytes, h]

lemma parses_immediate64 : ParsesBytes (Immediately 8) (do pure (.I64 (← advanceI64))) :=
  parses_immediate fun us h => by simp [ImmediateValue.ofBytes, h]

lemma parses_displacement {size : ℕ} (h : size = 0 ∨ size = 1 ∨ size = 4) :
    ParsesBytes (fun us disp => us.length = size ∧ disp = dispOf us) (displacement size) := by
  rcases h with rfl | rfl | rfl
  · exact (parses_pure _).congr fun us disp => by simp +contextual [dispOf]
  · exact (((parses_advanceN 1).map _).map _).congr fun us disp => by simp +contextual [dispOf]
  · exact ((parses_advanceN 4).map _).congr fun us disp => by simp +contextual [dispOf]

/-! ### Operands -/

/-- The operand of `ModR/M.rm`, read from the bytes behind the ModR/M byte. -/
inductive RmOperand (m : ModRm) (rex : Option Rex) (useRexR : Bool) : List UInt8 → Operand → Prop
  | register {r : Register} : m.md = 3 → registerOf m.rm (ModRm.rexFor rex useRexR) = .ok r →
      RmOperand m rex useRexR [] (.Register r)
  | sib {byte : UInt8} {us : List UInt8} : m.md ≠ 3 → m.rm = 4 →
      us.length = (Sib.new byte).dispSize m →
      RmOperand m rex useRexR (byte :: us)
        (.Memory ((Sib.new byte).baseRegister m.md (rexBit rex Rex.b))
          ((Sib.new byte).indexRegister (rexBit rex Rex.x)) (Sib.new byte).scaleFactor (dispOf us))
  | base {us : List UInt8} : m.md ≠ 3 → m.rm ≠ 4 → us.length = m.dispSize →
      RmOperand m rex useRexR us
        (.Memory (if m.isRipRelative then some .RIP
          else parseRegister m.rm (ModRm.rexFor rex useRexR)) none 1 (dispOf us))

lemma ModRm.dispSize_cases (m : ModRm) : m.dispSize = 0 ∨ m.dispSize = 1 ∨ m.dispSize = 4 := by
  rw [ModRm.dispSize]
  split_ifs <;> simp

lemma Sib.dispSize_cases (sib : Sib) (m : ModRm) :
    sib.dispSize m = 0 ∨ sib.dispSize m = 1 ∨ sib.dispSize m = 4 := by
  rw [Sib.dispSize]
  split_ifs <;> simp

/-- **`parse_rm64_operand`**. -/
lemma parses_parseRm64Operand (m : ModRm) (rex : Option Rex) (useRexR : Bool) :
    ParsesBytes (RmOperand m rex useRexR) (parseRm64Operand m rex useRexR) := by
  rw [parseRm64Operand]
  by_cases hmd : m.md = 3
  · have hmem : ¬m.isMemory = true := by simp [ModRm.isMemory, hmd]
    rw [if_neg hmem]
    refine (parses_lift_bind fun r _ => parses_pure _).congr fun us op => ?_
    constructor
    · rintro ⟨r, hr, rfl, rfl⟩
      exact .register hmd hr
    · rintro (⟨-, hr⟩ | ⟨hne, -, -⟩ | ⟨hne, -, -⟩)
      · exact ⟨_, hr, rfl, rfl⟩
      · exact absurd hmd hne
      · exact absurd hmd hne
  have hmem : m.isMemory = true := by simp [ModRm.isMemory, hmd]
  rw [if_pos hmem]
  by_cases hrm : m.rm = 4
  · rw [if_pos (by simp [ModRm.hasSib, hmem, hrm])]
    refine parses_token_bind (fun byte => ((parses_displacement (Sib.dispSize_cases _ _)).map _).congr
      fun us op => ?_) ?_
    · constructor
      · rintro ⟨_, ⟨hus, rfl⟩, rfl⟩
        exact .sib hmd hrm hus
      · rintro (_ | ⟨-, -, hus⟩ | ⟨-, hne, -⟩)
        · exact ⟨_, ⟨hus, rfl⟩, rfl⟩
        · exact absurd hrm hne
    · rintro op (⟨heq, -⟩ | _ | ⟨-, hne, -⟩)
      · exact hmd heq
      · exact hne hrm
  · rw [if_neg (by simp [ModRm.hasSib, hrm])]
    refine ((parses_displacement m.dispSize_cases).map _).congr fun us op => ?_
    constructor
    · rintro ⟨_, ⟨hus, rfl⟩, rfl⟩
      exact .base hmd hrm hus
    · rintro (⟨heq, -⟩ | ⟨-, heq, -⟩ | ⟨-, -, hus⟩)
      · exact absurd heq hmd
      · exact absurd heq hrm
      · exact ⟨_, ⟨hus, rfl⟩, rfl⟩

/-- The ModR/M byte and what is read behind it. -/
lemma parses_modRm_bind {f : ModRm → Decode α} {T : List UInt8 → α → Prop}
    (h : ∀ byte, ParsesBytes (fun us a => T (byte :: us) a) (f (.new byte)))
    (hnil : ∀ a, ¬T [] a) : ParsesBytes T (advanceModRm >>= f) := by
  rw [advanceModRm, bind_assoc]
  exact parses_token_bind h hnil

variable {m : ModRm} {rex : Option Rex}

/-- The register of `ModR/M.reg`. -/
lemma parses_r64RegOperand_bind {useRexR : Bool} {f : Operand → Decode α}
    {S : Register → List UInt8 → α → Prop} (h : ∀ r, ParsesBytes (S r) (f (.Register r))) :
    ParsesBytes (fun us a => ∃ r, registerOf m.reg (ModRm.rexFor rex useRexR) = .ok r ∧ S r us a)
      (lift (m.r64RegOperand rex useRexR) >>= f) := by
  rw [ModRm.r64RegOperand]
  cases registerOf m.reg (ModRm.rexFor rex useRexR) with
  | error p => exact ⟨reads_panic p, fun _ _ ⟨_, h, _⟩ => nomatch h⟩
  | ok r => exact (h r).congr fun us a => by simp

lemma parses_grouped (i? : Option Instruction) :
    ParsesBytes (fun us i => us = [] ∧ i? = some i) (grouped i?) := by
  cases i? with
  | some i => exact (parses_pure i).congr fun us j => by simp [eq_comm]
  | none => exact parses_fail (by simp) _

lemma parses_conditionOf_bind {f : ConditionCode → Decode α}
    {S : ConditionCode → List UInt8 → α → Prop} (h : ∀ cc, ParsesBytes (S cc) (f cc)) :
    ParsesBytes (fun us a => ∃ cc, ConditionCode.new (opcode.toNat &&& 0x0F) = some cc ∧ S cc us a)
      (conditionOf opcode >>= f) := by
  rw [conditionOf]
  cases ConditionCode.new (opcode.toNat &&& 0x0F) with
  | some cc => exact (h cc).congr fun us a => by simp
  | none => exact parses_fail (by simp) _

/-- An operand, an immediate value, and an instruction of a group made of them. -/
lemma parses_rm_imm_grouped {c : Decode ImmediateValue} {n : ℕ}
    {g : Operand → Operand → Option Instruction} (hc : ParsesBytes (Immediately n) c) :
    ParsesBytes (fun us i => ∃ vs ws op imm, us = vs ++ ws ∧ RmOperand m rex true vs op
        ∧ Immediately n ws imm ∧ g op (.ImmediateValue imm) = some i)
      (parseRm64Operand m rex true >>= fun op => c >>= fun imm =>
        grouped (g op (.ImmediateValue imm))) := by
  refine ((parses_parseRm64Operand m rex true).bind fun _ op _ => hc.bind fun _ imm _ =>
    parses_grouped (g op (.ImmediateValue imm))).congr fun us i => ?_
  constructor
  · rintro ⟨vs, _, op, rfl, hop, ws, _, imm, rfl, hws, rfl, hi⟩
    exact ⟨vs, ws, op, imm, by rw [List.append_nil], hop, hws, hi⟩
  · rintro ⟨vs, ws, op, imm, rfl, hop, hws, hi⟩
    exact ⟨vs, ws, op, rfl, hop, ws, [], imm, (List.append_nil ws).symm, hws, rfl, hi⟩

/-- An operand, and an instruction of a group made of it. -/
lemma parses_rm_grouped {g : Operand → Option Instruction} :
    ParsesBytes (fun us i => ∃ op, RmOperand m rex true us op ∧ g op = some i)
      (parseRm64Operand m rex true >>= fun op => grouped (g op)) := by
  refine ((parses_parseRm64Operand m rex true).bind fun _ op _ => parses_grouped (g op)).congr
    fun us i => ?_
  constructor
  · rintro ⟨vs, _, op, rfl, hop, rfl, hi⟩
    exact ⟨op, by rwa [List.append_nil], hi⟩
  · rintro ⟨op, hop, hi⟩
    exact ⟨us, [], op, (List.append_nil us).symm, hop, rfl, hi⟩

/-! ### Opcodes after `0F` -/

/-- An arm of `parse_0f_instruction`, the bytes it reads and the instruction it makes. -/
inductive Decodes0f (p : Prefixes) (opcode : UInt8) : Arm0f → List UInt8 → Instruction → Prop
  | plain {i} : Decodes0f p opcode (.plain i) [] i
  | group7 {byte i} : group7 p.f2 byte = pure i → Decodes0f p opcode .group7 [byte] i
  | cmov {cc byte us r op} : ConditionCode.new (opcode.toNat &&& 0x0F) = some cc →
      registerOf (ModRm.new byte).reg (ModRm.rexFor p.rex false) = .ok r →
      RmOperand (.new byte) p.rex false us op →
      Decodes0f p opcode .cmov (byte :: us) (.CMOVCC cc (.Register r) op)
  | setcc {cc byte us op} : ConditionCode.new (opcode.toNat &&& 0x0F) = some cc →
      RmOperand (.new byte) p.rex false us op →
      Decodes0f p opcode .setcc (byte :: us) (.SETCC cc op)
  | regRm {mk byte us r op} :
      registerOf (ModRm.new byte).reg (ModRm.rexFor p.rex false) = .ok r →
      RmOperand (.new byte) p.rex false us op →
      Decodes0f p opcode (.regRm mk) (byte :: us) (mk (.Register r) op)
  | rdrand {byte r} : (ModRm.new byte).reg = 6 →
      registerOf (ModRm.new byte).rm (rexBit p.rex Rex.b) = .ok r →
      Decodes0f p opcode .random [byte] (.RDRAND r)
  | rdpid {byte r} : (ModRm.new byte).reg = 7 → p.f3 = true →
      registerOf (ModRm.new byte).rm false = .ok r → Decodes0f p opcode .random [byte] (.RDPID r)
  | rdseed {byte r} : (ModRm.new byte).reg = 7 → p.f3 = false →
      registerOf (ModRm.new byte).rm (rexBit p.rex Rex.b) = .ok r →
      Decodes0f p opcode .random [byte] (.RDSEED r)

/-- The instructions of group 7 have no address. -/
lemma group7_cases (f2 : Bool) (byte : UInt8) :
    (∃ i, group7 f2 byte = pure i ∧ (ModRm.new byte).md = 3) ∨ ∃ e, group7 f2 byte = fail e := by
  rw [group7]
  split_ifs with h₁ h₂ h₃ h₄ h₅ h₆
  · exact .inl ⟨_, rfl, by rw [h₁.1]; rfl⟩
  · exact .inl ⟨_, rfl, by rw [h₂]; rfl⟩
  · exact .inl ⟨_, rfl, by rw [h₃]; rfl⟩
  · exact .inl ⟨_, rfl, by rw [h₄]; rfl⟩
  · exact .inl ⟨_, rfl, by rw [h₅]; rfl⟩
  · exact .inl ⟨_, rfl, by rw [h₆]; rfl⟩
  · exact .inr ⟨_, rfl⟩
  · exact .inr ⟨_, rfl⟩

lemma group7_md {f2 : Bool} {byte : UInt8} {i : Instruction} (h : group7 f2 byte = pure i) :
    (ModRm.new byte).md = 3 := by
  rcases group7_cases f2 byte with ⟨_, -, hmd⟩ | ⟨e, he⟩
  · exact hmd
  · rw [he] at h
    cases congrFun h ⟨[], 0⟩

/-- The destination `ModR/M.reg` and the source `ModR/M.rm`. -/
lemma parses_reg_rm {T : List UInt8 → Instruction → Prop} {useRexR useRexR' : Bool}
    {mk : Operand → Operand → Instruction}
    (hT : ∀ us i, T us i ↔ ∃ r op, registerOf m.reg (ModRm.rexFor rex useRexR) = .ok r ∧ RmOperand m
      rex useRexR' us op ∧ i = mk (.Register r) op) :
    ParsesBytes T (lift (m.r64RegOperand rex useRexR) >>= fun dst =>
      parseRm64Operand m rex useRexR' >>= fun src => pure (mk dst src)) := by
  refine (parses_r64RegOperand_bind fun r => (parses_parseRm64Operand m rex useRexR').map
    (mk (.Register r))).congr fun us i => ?_
  rw [hT]
  simp only [exists_and_left]

/-- **The arms of `parse_0f_instruction`.** -/
lemma Arm0f.parses (p : Prefixes) (opcode : UInt8) (a : Arm0f) :
    ParsesBytes (Decodes0f p opcode a) (a.run p opcode) := by
  cases a with
  | plain i =>
    refine (parses_pure i).congr fun us j => ⟨?_, ?_⟩
    · rintro ⟨rfl, rfl⟩
      exact .plain
    · rintro ⟨⟩
      exact ⟨rfl, rfl⟩
  | group7 =>
    rw [run]
    refine parses_token_bind (fun byte => ?_) fun _ h => by cases h
    rcases group7_cases p.f2 byte with ⟨i, hi, -⟩ | ⟨e, he⟩
    · rw [hi]
      refine (parses_pure i).congr fun us j => ⟨?_, ?_⟩
      · rintro ⟨rfl, rfl⟩
        exact .group7 hi
      · rintro (_ | hj)
        rw [hi] at hj
        cases congrFun hj ⟨[], 0⟩
        exact ⟨rfl, rfl⟩
    · rw [he]
      refine parses_fail (fun us j h => ?_) e
      cases h with
      | group7 hj =>
        rw [he] at hj
        cases congrFun hj ⟨[], 0⟩
  | cmov =>
    rw [run, conditionOf]
    cases hcc : ConditionCode.new (opcode.toNat &&& 0x0F) with
    | none =>
      refine parses_fail (fun us i h => ?_) _
      cases h with
      | cmov hsome => exact nomatch hcc.symm.trans hsome
    | some cc =>
      simp only [pure_bind]
      refine parses_modRm_bind (fun byte => parses_reg_rm fun us i => ⟨?_, ?_⟩) fun _ h => by cases h
      · rintro (_ | _ | ⟨hsome, hr, hop⟩)
        cases hcc.symm.trans hsome
        exact ⟨_, _, hr, hop, rfl⟩
      · rintro ⟨r, op, hr, hop, rfl⟩
        exact .cmov hcc hr hop
  | setcc =>
    rw [run, conditionOf]
    cases hcc : ConditionCode.new (opcode.toNat &&& 0x0F) with
    | none =>
      refine parses_fail (fun us i h => ?_) _
      cases h with
      | setcc hsome => exact nomatch hcc.symm.trans hsome
    | some cc =>
      simp only [pure_bind]
      refine parses_modRm_bind (fun byte => ((parses_parseRm64Operand _ _ _).map _).congr
        fun us i => ⟨?_, ?_⟩) fun _ h => by cases h
      · rintro ⟨op, hop, rfl⟩
        exact .setcc hcc hop
      · rintro (_ | _ | _ | ⟨hsome, hop⟩)
        cases hcc.symm.trans hsome
        exact ⟨_, hop, rfl⟩
  | regRm mk =>
    rw [run]
    refine parses_modRm_bind (fun byte => parses_reg_rm fun us i => ⟨?_, ?_⟩) fun _ h => by cases h
    · rintro (_ | _ | _ | _ | ⟨hr, hop⟩)
      exact ⟨_, _, hr, hop, rfl⟩
    · rintro ⟨r, op, hr, hop, rfl⟩
      exact .regRm hr hop
  | random =>
    rw [run]
    refine parses_modRm_bind (fun byte => ?_) fun _ h => by cases h
    split_ifs with h6 h7 hf3
    · refine (parses_lift_bind fun r _ => parses_pure _).congr fun us i => ⟨?_, ?_⟩
      · rintro ⟨r, hr, rfl, rfl⟩
        exact .rdrand h6 hr
      · rintro h
        cases h with
        | rdrand _ hr => exact ⟨_, hr, rfl, rfl⟩
        | rdpid h7 => omega
        | rdseed h7 => omega
    · refine (parses_lift_bind fun r _ => parses_pure _).congr fun us i => ⟨?_, ?_⟩
      · rintro ⟨r, hr, rfl, rfl⟩
        exact .rdpid h7 hf3 hr
      · rintro h
        cases h with
        | rdrand h6' => exact absurd h6' h6
        | rdpid _ _ hr => exact ⟨_, hr, rfl, rfl⟩
        | rdseed _ hfalse => exact nomatch hf3.symm.trans hfalse
    · refine (parses_lift_bind fun r _ => parses_pure _).congr fun us i => ⟨?_, ?_⟩
      · rintro ⟨r, hr, rfl, rfl⟩
        exact .rdseed h7 (by simpa using hf3) hr
      · rintro h
        cases h with
        | rdrand h6' => exact absurd h6' h6
        | rdpid _ htrue => exact absurd htrue hf3
        | rdseed _ _ hr => exact ⟨_, hr, rfl, rfl⟩
    · refine parses_fail (fun us i h => ?_) _
      cases h with
      | rdrand h6' => exact h6 h6'
      | rdpid h7' => exact h7 h7'
      | rdseed h7' => exact h7 h7'
  | unsupported => exact parses_fail (fun _ _ h => nomatch h) _

/-! ### Opcodes -/

/-- How many bytes the immediate value of `TEST` has. -/
def testLength (p : Prefixes) (opcode : UInt8) : ℕ :=
  if opcode = 0xF6 then 1 else if rexBit p.rex Rex.w then 8 else if p.size then 2 else 4

/-- An arm of `next`, the bytes it reads and the instruction it makes. -/
inductive Decodes (p : Prefixes) (opcode : UInt8) : Arm → List UInt8 → Instruction → Prop
  | rmReg {mk byte us r op} : RmOperand (.new byte) p.rex true us op →
      registerOf (ModRm.new byte).reg (ModRm.rexFor p.rex true) = .ok r →
      Decodes p opcode (.rmReg mk) (byte :: us) (mk op (.Register r))
  | regRm {mk useRexR byte us r op} :
      registerOf (ModRm.new byte).reg (ModRm.rexFor p.rex true) = .ok r →
      RmOperand (.new byte) p.rex useRexR us op →
      Decodes p opcode (.regRm mk useRexR) (byte :: us) (mk (.Register r) op)
  | opcodeReg {mk r} : registerOf (opcode.toNat &&& 7) (rexBit p.rex Rex.r) = .ok r →
      Decodes p opcode (.opcodeReg mk) [] (mk (.Register r))
  | imm8 {mk us imm} : Immediately 1 us imm → Decodes p opcode (.imm8 mk) us (mk imm)
  | imm32 {mk us imm} : Immediately 4 us imm → Decodes p opcode (.imm32 mk) us (mk imm)
  | jcc {us cc imm} : ConditionCode.new (opcode.toNat &&& 0x0F) = some cc → Immediately 1 us imm →
      Decodes p opcode .jcc us (.JCC cc imm)
  | movImm {us r imm} : registerOf (opcode.toNat &&& 7) (rexBit p.rex Rex.b) = .ok r →
      Immediately (if p.rex.isSome then 8 else 4) us imm →
      Decodes p opcode .movImm us (.MOV (.Register r) (.ImmediateValue imm))
  | group1 {byte us vs op imm i} : RmOperand (.new byte) p.rex true us op →
      Immediately (if opcode = 0x80 ∨ opcode = 0x83 then 1 else 4) vs imm →
      group1 (ModRm.new byte).reg op (.ImmediateValue imm) = some i →
      Decodes p opcode .group1 (byte :: (us ++ vs)) i
  | group2 {byte us vs op imm i} : RmOperand (.new byte) p.rex true us op → Immediately 1 vs imm →
      group2 (ModRm.new byte).reg op (.ImmediateValue imm) = some i →
      Decodes p opcode .group2 (byte :: (us ++ vs)) i
  | test {byte us vs op imm} : RmOperand (.new byte) p.rex true us op →
      (ModRm.new byte).reg = 0 → Immediately (testLength p opcode) vs imm →
      Decodes p opcode .group3 (byte :: (us ++ vs)) (.TEST op (.ImmediateValue imm))
  | group3 {byte us op i} : RmOperand (.new byte) p.rex true us op →
      group3 (ModRm.new byte).reg op = some i → Decodes p opcode .group3 (byte :: us) i
  | group4 {byte us op i} : RmOperand (.new byte) p.rex true us op →
      group4 (ModRm.new byte).reg op = some i → Decodes p opcode .group4 (byte :: us) i
  | group5 {byte us op i} : RmOperand (.new byte) p.rex true us op →
      group5 (ModRm.new byte).reg op = some i → Decodes p opcode .group5 (byte :: us) i
  | plain {i} : Decodes p opcode (.plain i) [] i
  | escape {opcode' us i} : Decodes0f p opcode' (arm0f p.f3 opcode') us i →
      Decodes p opcode .escape (opcode' :: us) i

lemma parses_movImmediate (p : Prefixes) :
    ParsesBytes (Immediately (if p.rex.isSome then 8 else 4)) (movImmediate p) := by
  rw [movImmediate]
  split_ifs
  · exact parses_immediate64
  · exact parses_immediate32

lemma parses_group1Immediate (opcode : UInt8) :
    ParsesBytes (Immediately (if opcode = 0x80 ∨ opcode = 0x83 then 1 else 4))
      (group1Immediate opcode) := by
  rw [group1Immediate]
  split_ifs
  · exact parses_immediate8
  · exact parses_immediate32

lemma parses_testImmediate (p : Prefixes) (opcode : UInt8) :
    ParsesBytes (Immediately (testLength p opcode)) (testImmediate p opcode) := by
  rw [testImmediate, testLength]
  split_ifs
  · exact parses_immediate8
  · exact parses_immediate64
  · exact parses_immediate fun us h => by simp [ImmediateValue.ofBytes, h]
  · exact parses_immediate32

/-- **The arms of `next`**, but for `RET imm16`. -/
lemma Arm.parses (p : Prefixes) (opcode : UInt8) {a : Arm} (ha : a ≠ .retImm) :
    ParsesBytes (Decodes p opcode a) (a.run p opcode) := by
  cases a with
  | rmReg mk =>
    rw [run]
    refine parses_modRm_bind (fun byte => ((parses_parseRm64Operand _ _ _).bind fun _ op _ =>
      parses_r64RegOperand_bind fun r => parses_pure (mk op (.Register r))).congr
        fun us i => ⟨?_, ?_⟩) fun _ h => by cases h
    · rintro ⟨vs, _, op, rfl, hop, r, hr, rfl, rfl⟩
      rw [List.append_nil]
      exact .rmReg hop hr
    · rintro (⟨hop, hr⟩)
      exact ⟨us, [], _, (List.append_nil us).symm, hop, _, hr, rfl, rfl⟩
  | regRm mk useRexR =>
    rw [run]
    refine parses_modRm_bind (fun byte => parses_reg_rm fun us i => ⟨?_, ?_⟩) fun _ h => by cases h
    · rintro (_ | ⟨hr, hop⟩)
      exact ⟨_, _, hr, hop, rfl⟩
    · rintro ⟨r, op, hr, hop, rfl⟩
      exact .regRm hr hop
  | opcodeReg mk =>
    refine (parses_lift_bind fun r _ => parses_pure _).congr fun us i => ⟨?_, ?_⟩
    · rintro ⟨r, hr, rfl, rfl⟩
      exact .opcodeReg hr
    · rintro (_ | _ | hr)
      exact ⟨_, hr, rfl, rfl⟩
  | imm8 mk =>
    refine (parses_immediate8.map mk).congr fun us i => ⟨?_, ?_⟩
    · rintro ⟨_, hus, rfl⟩
      exact .imm8 hus
    · rintro (_ | _ | _ | hus)
      exact ⟨_, hus, rfl⟩
  | imm32 mk =>
    refine (parses_immediate32.map mk).congr fun us i => ⟨?_, ?_⟩
    · rintro ⟨_, hus, rfl⟩
      exact .imm32 hus
    · rintro (_ | _ | _ | _ | hus)
      exact ⟨_, hus, rfl⟩
  | jcc =>
    rw [run]
    refine (parses_conditionOf_bind fun cc => parses_immediate8.map (Instruction.JCC cc)).congr
      fun us i => ⟨?_, ?_⟩
    · rintro ⟨cc, hcc, _, hus, rfl⟩
      exact .jcc hcc hus
    · rintro (_ | _ | _ | _ | _ | ⟨hcc, hus⟩)
      exact ⟨_, hcc, _, hus, rfl⟩
  | movImm =>
    rw [run]
    refine (parses_lift_bind fun r _ => (parses_movImmediate p).map _).congr fun us i => ⟨?_, ?_⟩
    · rintro ⟨r, hr, _, hus, rfl⟩
      exact .movImm hr hus
    · intro h
      cases h with
      | movImm hr hus => exact ⟨_, hr, _, hus, rfl⟩
  | group1 =>
    rw [run]
    refine parses_modRm_bind (fun byte => (parses_rm_imm_grouped
      (parses_group1Immediate opcode)).congr fun us i => ⟨?_, ?_⟩) fun _ h => by cases h
    · rintro ⟨vs, ws, op, imm, rfl, hop, hws, hi⟩
      exact .group1 hop hws hi
    · intro h
      cases h with
      | group1 hop hws hi => exact ⟨_, _, _, _, rfl, hop, hws, hi⟩
  | group2 =>
    rw [run]
    refine parses_modRm_bind (fun byte => (parses_rm_imm_grouped parses_immediate8).congr
      fun us i => ⟨?_, ?_⟩) fun _ h => by cases h
    · rintro ⟨vs, ws, op, imm, rfl, hop, hws, hi⟩
      exact .group2 hop hws hi
    · intro h
      cases h with
      | group2 hop hws hi => exact ⟨_, _, _, _, rfl, hop, hws, hi⟩
  | group3 =>
    rw [run]
    refine parses_modRm_bind (fun byte => ?_) fun _ h => by cases h
    by_cases hreg : (ModRm.new byte).reg = 0
    · simp only [hreg, if_true]
      refine ((parses_parseRm64Operand _ _ _).bind fun _ op _ =>
        (parses_testImmediate p opcode).map _).congr fun us i => ⟨?_, ?_⟩
      · rintro ⟨vs, ws, op, rfl, hop, _, hws, rfl⟩
        exact .test hop hreg hws
      · intro h
        cases h with
        | test hop _ hws => exact ⟨_, _, _, rfl, hop, _, hws, rfl⟩
        | group3 _ hi =>
          rw [hreg] at hi
          cases hi
    · simp only [hreg, if_false]
      refine parses_rm_grouped.congr fun us i => ⟨?_, ?_⟩
      · rintro ⟨op, hop, hi⟩
        exact .group3 hop hi
      · intro h
        cases h with
        | test _ hzero => exact absurd hzero hreg
        | group3 hop hi => exact ⟨_, hop, hi⟩
  | group4 =>
    rw [run]
    refine parses_modRm_bind (fun byte => parses_rm_grouped.congr fun us i => ⟨?_, ?_⟩)
      fun _ h => by cases h
    · rintro ⟨op, hop, hi⟩
      exact .group4 hop hi
    · intro h
      cases h with
      | group4 hop hi => exact ⟨_, hop, hi⟩
  | group5 =>
    rw [run]
    refine parses_modRm_bind (fun byte => parses_rm_grouped.congr fun us i => ⟨?_, ?_⟩)
      fun _ h => by cases h
    · rintro ⟨op, hop, hi⟩
      exact .group5 hop hi
    · intro h
      cases h with
      | group5 hop hi => exact ⟨_, hop, hi⟩
  | retImm => exact absurd rfl ha
  | plain i =>
    refine (parses_pure i).congr fun us j => ⟨?_, ?_⟩
    · rintro ⟨rfl, rfl⟩
      exact .plain
    · rintro ⟨⟩
      exact ⟨rfl, rfl⟩
  | escape =>
    rw [run, parse0fInstruction]
    refine parses_token_bind (fun byte => (Arm0f.parses p byte _).congr fun us i => ⟨.escape, ?_⟩)
      fun _ h => by cases h
    intro h
    cases h with
    | escape h => exact h
  | invalid => exact parses_fail (fun _ _ h => nomatch h) _
  | unsupported => exact parses_fail (fun _ _ h => nomatch h) _

end Rhubarb.Asm
