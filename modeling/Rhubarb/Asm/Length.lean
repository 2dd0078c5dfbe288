import Rhubarb.Asm.Streaming

/-!
The length of a decoded instruction.

`next` moves over as many bytes as the architecture says unless the size of an immediate value
depends on a prefix that it does not look at, or an operand is not looked at at all.

* `RmOperand.addressLength`: the bytes behind a ModR/M byte.
* `Arm.fits`: the arms and the formats of the architecture.
* `Sized`: the instructions whose length is right; `next_length_iff`.
-/

namespace Rhubarb.Asm

open Foundations Comp

variable {d d' : Disassembler} {p : Prefixes} {opcode : UInt8} {i : Instruction}
  {ts us more rest : List UInt8}

/-! ### Addresses -/

lemma ModRm.md_lt (byte : UInt8) : (ModRm.new byte).md < 4 := by
  show (byte.toNat >>> 6) &&& (2 ^ 2 - 1) < 4
  rw [Nat.and_two_pow_sub_one_eq_mod]
  omega

lemma Sib.base_eq (byte : UInt8) : (Sib.new byte).base = byte.toNat % 8 :=
  Nat.and_two_pow_sub_one_eq_mod _ 3

variable {byte : UInt8} {rex : Option Rex} {f : Format}

/-- **The bytes of an operand** are those that the ModR/M byte asks for. -/
lemma RmOperand.addressLength {useRexR : Bool} {op : Operand}
    (h : RmOperand (.new byte) rex useRexR us op) (more : List UInt8) :
    addressLength (.new byte) (us ++ more) = some us.length := by
  have hlt := ModRm.md_lt byte
  cases h with
  | register hmd _ => rw [Asm.addressLength, if_pos hmd, List.length_nil]
  | @sib sib us hmd hrm hus =>
    rw [Asm.addressLength, if_neg hmd, if_pos hrm, List.cons_append, List.head?_cons,
      Option.map_some, List.length_cons, hus, Sib.dispSize, Sib.base_eq]
    congr 1
    split_ifs <;> omega
  | base hmd hrm hus =>
    rw [Asm.addressLength, if_neg hmd, if_neg hrm, hus, ModRm.dispSize]
    congr 1
    split_ifs <;> omega

/-- An instruction with a ModR/M byte is as long as it should be if its immediate value is. -/
lemma RmOperand.length_iff {useRexR : Bool} {op : Operand} {imm : Immediate} {vs : List UInt8}
    (h : RmOperand (.new byte) rex useRexR us op) :
    Format.length p ⟨true, imm⟩ (byte :: (us ++ vs) ++ more) = some (byte :: (us ++ vs)).length
      ↔ imm.length p = vs.length := by
  simp only [Format.length, if_true, List.cons_append, List.append_assoc, h.addressLength,
    Option.map_some, Option.some_inj, List.length_cons, List.length_append]
  omega

/-! ### Formats -/

/-- **The instructions that are as long as the architecture says**: the operand size does not change
their immediate value, or they look at it. -/
structure Sized (p : Prefixes) (opcode : UInt8) (rest : List UInt8) : Prop where
  /-- Group 1 and `PUSH` with four bytes. -/
  full : opcode = 0x81 ∨ opcode = 0x68 → p.size = true → rexBit p.rex Rex.w = true
  /-- `MOV` to a register. -/
  mov : 0xB8 ≤ opcode → opcode ≤ 0xBF →
    if p.rex.isSome then rexBit p.rex Rex.w = true else p.size = false
  /-- `TEST` with four bytes. -/
  test : opcode = 0xF7 → rexBit p.rex Rex.w = true →
    ∀ byte ∈ rest.head?, (ModRm.new byte).reg ≠ 0
  /-- `RET` with an immediate value. -/
  ret : opcode = 0xC2 ∨ opcode = 0xCA → 2 ≤ rest.length
  /-- `RDRAND`, `RDSEED` and `RDPID`. -/
  random : ∀ byte us, opcode = 0x0F → rest = 0xC7 :: byte :: us →
    (ModRm.new byte).md = 3
      ∨ (ModRm.new byte).md = 0 ∧ (ModRm.new byte).rm ≠ 4 ∧ (ModRm.new byte).rm ≠ 5

/-- `next` and the architecture agree on the length of the instruction a string starts with. -/
def InStep (bytes : List UInt8) : Prop :=
  ∀ p opcode rest, scan {} bytes = some (p, opcode, rest) → Sized p opcode rest

/-- The opcodes whose length does not depend on more than the opcode and the ModR/M byte. -/
def isRegular (opcode : UInt8) : Bool :=
  opcode ∉ [0x0F, 0x68, 0x81, 0xC2, 0xCA, 0xF6, 0xF7] && !(0xB8 ≤ opcode && opcode ≤ 0xBF)

lemma sized_of_isRegular (h : isRegular opcode = true) : Sized p opcode rest := by
  simp only [isRegular, List.mem_cons, List.not_mem_nil, or_false, not_or, Bool.and_eq_true,
    decide_eq_true_eq, Bool.not_eq_true', Bool.and_eq_false_iff, decide_eq_false_iff_not] at h
  obtain ⟨⟨h0f, h68, h81, hc2, hca, -, hf7⟩, hb⟩ := h
  refine ⟨fun hop => ?_, fun hle hge => ?_, fun hop => absurd hop hf7, fun hop => ?_,
    fun _ _ hop => absurd hop h0f⟩
  · exact absurd hop (not_or.mpr ⟨h81, h68⟩)
  · exact absurd (hb.resolve_left (not_not.mpr hle)) (not_not.mpr hge)
  · exact absurd hop (not_or.mpr ⟨hc2, hca⟩)

lemma tailLength_of_ne (h : opcode ≠ 0x0F) :
    tailLength p opcode rest
      = (format (rest.head?.map fun byte => (ModRm.new byte).reg) opcode).bind (·.length p rest) := by
  unfold tailLength
  rw [if_neg h]

/-- Outside of group 3 the format does not depend on `ModR/M.reg`. -/
lemma tailLength_of_format (h0f : opcode ≠ 0x0F) (hf6 : opcode ≠ 0xF6) (hf7 : opcode ≠ 0xF7)
    (hf : format none opcode = some f) :
    tailLength p opcode rest = f.length p rest := by
  have hreg : ∀ reg, format reg opcode = some f := by
    intro reg
    rw [← hf]
    simp only [format, hf6, hf7, if_false]
  rw [tailLength_of_ne h0f, hreg, Option.bind_some]

lemma tailLength_of_isRegular (h : isRegular opcode = true) (hf : format none opcode = some f) :
    tailLength p opcode rest = f.length p rest := by
  simp only [isRegular, List.mem_cons, List.not_mem_nil, or_false, not_or, Bool.and_eq_true,
    decide_eq_true_eq] at h
  obtain ⟨⟨h0f, -, -, -, -, hf6, hf7⟩, -⟩ := h
  exact tailLength_of_format h0f hf6 hf7 hf

/-- **The arms and the formats**: a regular opcode with a format, or one of the others. -/
def Arm.fits (opcode : UInt8) : Arm → Bool
  | rmReg _ | regRm _ _ | group4 | group5 =>
    isRegular opcode && format none opcode = some ⟨true, .none⟩
  | opcodeReg _ | plain _ => isRegular opcode && format none opcode = some ⟨false, .none⟩
  | imm8 _ | jcc => isRegular opcode && format none opcode = some ⟨false, .ib⟩
  | group2 => isRegular opcode && format none opcode = some ⟨true, .ib⟩
  | group1 =>
    if opcode = 0x80 ∨ opcode = 0x83 then
      isRegular opcode && format none opcode = some ⟨true, .ib⟩
    else opcode = 0x81
  | imm32 _ => isRegular opcode && format none opcode = some ⟨false, .id⟩ || opcode = 0x68
  | movImm => 0xB8 ≤ opcode && opcode ≤ 0xBF && format none opcode = some ⟨false, .iv⟩
  | group3 => opcode = 0xF6 || opcode = 0xF7
  | retImm => opcode = 0xC2 || opcode = 0xCA
  | escape => opcode = 0x0F
  | invalid | unsupported => true

lemma arm_fits (f3 : Bool) (opcode : UInt8) : (arm f3 opcode).fits opcode = true := by
  by_cases h : opcode = 0x90
  · rw [h]
    rfl
  · rw [arm_eq_of_ne f3 h]
    exact forall_byte (P := fun b => (arm false b).fits b = true) (by decide +kernel) opcode

/-- The arms after `0F` and their formats. -/
def Arm0f.fits (opcode : UInt8) : Arm0f → Bool
  | plain _ => format0f opcode = some ⟨false, .none⟩
  | group7 | cmov | setcc | regRm _ => format0f opcode = some ⟨true, .none⟩ && opcode ≠ 0xC7
  | random => opcode = 0xC7
  | unsupported => true

lemma arm0f_fits (f3 : Bool) : ∀ opcode, (arm0f f3 opcode).fits opcode = true := by
  refine forall_byte ?_
  cases f3 <;> decide +kernel

/-! ### Instructions -/

lemma sized_escape_iff : Sized p 0x0F rest ↔ ∀ byte us, rest = 0xC7 :: byte :: us →
    (ModRm.new byte).md = 3
      ∨ (ModRm.new byte).md = 0 ∧ (ModRm.new byte).rm ≠ 4 ∧ (ModRm.new byte).rm ≠ 5 :=
  ⟨fun h byte us => h.random byte us rfl, fun h => ⟨fun hop => absurd hop (by decide),
    fun hop => absurd hop (by decide), fun hop => absurd hop (by decide),
    fun hop => absurd hop (by decide), fun byte us _ => h byte us⟩⟩

/-- No bytes stand behind a ModR/M byte. -/
lemma addressLength_eq_zero_iff : addressLength (.new byte) rest = some 0
    ↔ (ModRm.new byte).md = 3
      ∨ (ModRm.new byte).md = 0 ∧ (ModRm.new byte).rm ≠ 4 ∧ (ModRm.new byte).rm ≠ 5 := by
  have hlt := ModRm.md_lt byte
  rw [addressLength]
  by_cases h₃ : (ModRm.new byte).md = 3
  · simp [h₃]
  by_cases h₄ : (ModRm.new byte).rm = 4
  · cases rest <;> simp [h₃, h₄]
  rw [if_neg h₃, if_neg h₄, Option.some_inj]
  split_ifs with h₁ h₂
  · rw [false_iff]
    omega
  · rw [false_iff]
    omega
  · rw [eq_self_iff_true, true_iff]
    omega

/-- Opcodes after `0F`. -/
lemma Decodes0f.length_iff {opcode' : UInt8}
    (h : Decodes0f p opcode' (arm0f p.f3 opcode') us i) (more : List UInt8) :
    tailLength p 0x0F (opcode' :: us ++ more) = some (opcode' :: us).length
      ↔ Sized p 0x0F (opcode' :: us ++ more) := by
  have htail : tailLength p 0x0F (opcode' :: us ++ more)
      = (format0f opcode').bind fun f => (f.length p (us ++ more)).map (1 + ·) := rfl
  have hfits := arm0f_fits p.f3 opcode'
  have hsized : opcode' ≠ 0xC7 → Sized p 0x0F (opcode' :: us ++ more) := fun hne =>
    sized_escape_iff.mpr fun byte vs heq => absurd (List.cons.inj heq).1 hne
  -- an operand that is looked at is as long as its ModR/M byte says
  have hrm : ∀ {byte vs}, us = byte :: vs → addressLength (.new byte) (vs ++ more) = some vs.length →
      (format0f opcode' = some ⟨true, .none⟩ && decide (opcode' ≠ 0xC7)) = true →
      (tailLength p 0x0F (opcode' :: us ++ more) = some (opcode' :: us).length
        ↔ Sized p 0x0F (opcode' :: us ++ more)) := by
    rintro byte vs rfl hlen hf
    simp only [Bool.and_eq_true, decide_eq_true_eq] at hf
    refine iff_of_true ?_ (hsized hf.2)
    rw [htail, hf.1]
    simp [Format.length, hlen, Immediate.length, Nat.add_comm]
  -- `RDRAND` and the like do not look at theirs
  have hrandom : ∀ {byte}, us = [byte] → opcode' = 0xC7 →
      (tailLength p 0x0F (opcode' :: us ++ more) = some (opcode' :: us).length
        ↔ Sized p 0x0F (opcode' :: us ++ more)) := by
    rintro byte rfl rfl
    have hlen : tailLength p 0x0F (0xC7 :: [byte] ++ more)
        = (addressLength (.new byte) more).map fun n => 1 + (1 + n + 0) := by
      rw [htail, show format0f 0xC7 = some ⟨true, .none⟩ by decide]
      simp [Format.length, Immediate.length, Function.comp_def]
    rw [hlen, sized_escape_iff]
    constructor
    · intro h byte' vs heq
      cases heq
      obtain ⟨n, hn, hsum⟩ := Option.map_eq_some_iff.mp h
      have hzero : n = 0 := by
        simp only [List.length_cons, List.length_nil] at hsum
        omega
      rw [hzero] at hn
      exact addressLength_eq_zero_iff.mp hn
    · intro h
      rw [addressLength_eq_zero_iff.mpr (h byte more rfl)]
      rfl
  generalize harm : arm0f p.f3 opcode' = a at h
  rw [harm] at hfits
  cases h with
  | plain =>
    have hf : format0f opcode' = some ⟨false, .none⟩ := of_decide_eq_true hfits
    refine iff_of_true (by rw [htail, hf]; rfl) (hsized ?_)
    rintro rfl
    exact absurd hf (by decide)
  | group7 hi => exact hrm rfl (addressLength_eq_zero_iff.mpr (.inl (group7_md hi))) hfits
  | cmov _ hr hop => exact hrm rfl (hop.addressLength more) hfits
  | setcc _ hop => exact hrm rfl (hop.addressLength more) hfits
  | regRm hr hop => exact hrm rfl (hop.addressLength more) hfits
  | rdrand hreg hr => exact hrandom rfl (of_decide_eq_true hfits)
  | rdpid hreg hf3 hr => exact hrandom rfl (of_decide_eq_true hfits)
  | rdseed hreg hf3 hr => exact hrandom rfl (of_decide_eq_true hfits)

/-- A regular instruction is as long as its format says. -/
lemma length_iff_of_isRegular
    (hf : (isRegular opcode && decide (format none opcode = some f)) = true)
    (hlen : f.length p (us ++ more) = some us.length) :
    tailLength p opcode (us ++ more) = some us.length ↔ Sized p opcode (us ++ more) := by
  simp only [Bool.and_eq_true, decide_eq_true_eq] at hf
  exact iff_of_true (by rw [tailLength_of_isRegular hf.1 hf.2, hlen]) (sized_of_isRegular hf.1)

lemma iz_length_eq_four_iff :
    Immediate.iz.length p = 4 ↔ (p.size = true → rexBit p.rex Rex.w = true) := by
  rw [Immediate.length]
  cases p.size <;> cases rexBit p.rex Rex.w <;> simp

lemma iz_length_eq_testLength_iff :
    Immediate.iz.length p = testLength p 0xF7 ↔ rexBit p.rex Rex.w = false := by
  rw [Immediate.length, testLength, if_neg (show ¬(0xF7 : UInt8) = 0xF6 by decide)]
  cases p.size <;> cases rexBit p.rex Rex.w <;> simp

lemma iv_length_iff : Immediate.iv.length p = (if p.rex.isSome then 8 else 4)
    ↔ if p.rex.isSome then rexBit p.rex Rex.w = true else p.size = false := by
  rw [Immediate.length]
  cases hrex : p.rex with
  | none => cases p.size <;> simp [rexBit]
  | some rex => cases p.size <;> cases hw : rexBit (some rex) Rex.w <;> simp

lemma sized_full_iff (h : opcode = 0x81 ∨ opcode = 0x68) :
    Sized p opcode rest ↔ (p.size = true → rexBit p.rex Rex.w = true) := by
  refine ⟨fun hs => hs.full h, fun hs => ⟨fun _ => hs, ?_, ?_, ?_, ?_⟩⟩ <;> rcases h with rfl | rfl
  all_goals first
    | exact fun hop => absurd hop (by decide)
    | exact fun _ _ hop => absurd hop (by decide)

/-- The opcodes of `MOV r, imm` are none of the others that are told apart. -/
lemma movImm_ne (hle : 0xB8 ≤ opcode) (hge : opcode ≤ 0xBF) : opcode ≠ 0x0F ∧ opcode ≠ 0x68
    ∧ opcode ≠ 0x81 ∧ opcode ≠ 0xC2 ∧ opcode ≠ 0xCA ∧ opcode ≠ 0xF6 ∧ opcode ≠ 0xF7 := by
  refine ⟨?_, ?_, ?_, ?_, ?_, ?_, ?_⟩ <;> rintro rfl
  all_goals first | exact absurd hle (by decide) | exact absurd hge (by decide)

lemma sized_mov_iff (hle : 0xB8 ≤ opcode) (hge : opcode ≤ 0xBF) : Sized p opcode rest
    ↔ if p.rex.isSome then rexBit p.rex Rex.w = true else p.size = false := by
  obtain ⟨h0f, h68, h81, hc2, hca, -, hf7⟩ := movImm_ne hle hge
  refine ⟨fun hs => hs.mov hle hge, fun hs => ⟨fun hop => ?_, fun _ _ => hs,
    fun hop => absurd hop hf7, fun hop => ?_, fun _ _ hop => absurd hop h0f⟩⟩
  · exact absurd hop (not_or.mpr ⟨h81, h68⟩)
  · exact absurd hop (not_or.mpr ⟨hc2, hca⟩)

lemma sized_ret_iff (h : opcode = 0xC2 ∨ opcode = 0xCA) :
    Sized p opcode rest ↔ 2 ≤ rest.length := by
  refine ⟨fun hs => hs.ret h, fun hs => ⟨?_, ?_, ?_, fun _ => hs, ?_⟩⟩ <;> rcases h with rfl | rfl
  all_goals first
    | exact fun hop => absurd hop (by decide)
    | exact fun _ hop => absurd hop (by decide)
    | exact fun _ _ hop => absurd hop (by decide)

lemma sized_test : Sized p 0xF6 rest :=
  ⟨fun hop => absurd hop (by decide), fun _ hop => absurd hop (by decide),
    fun hop => absurd hop (by decide), fun hop => absurd hop (by decide),
    fun _ _ hop => absurd hop (by decide)⟩

lemma sized_test_iff : Sized p 0xF7 rest
    ↔ (rexBit p.rex Rex.w = true → ∀ byte ∈ rest.head?, (ModRm.new byte).reg ≠ 0) :=
  ⟨fun h => h.test rfl, fun h => ⟨fun hop => absurd hop (by decide),
    fun _ hop => absurd hop (by decide), fun _ => h, fun hop => absurd hop (by decide),
    fun _ _ hop => absurd hop (by decide)⟩⟩

/-- In group 3 only `TEST` has an immediate value. -/
lemma tailLength_group3 (h : opcode = 0xF6 ∨ opcode = 0xF7) (hreg : (ModRm.new byte).reg ≠ 1) :
    tailLength p opcode (byte :: rest) = Format.length p ⟨true, if (ModRm.new byte).reg = 0 then
      (if opcode = 0xF6 then .ib else .iz) else .none⟩ (byte :: rest) := by
  have h0f : opcode ≠ 0x0F := by rcases h with rfl | rfl <;> decide
  have hf : ∀ reg, reg ≠ 1 → format (some reg) opcode = some ⟨true, if reg = 0 then
      (if opcode = 0xF6 then .ib else .iz) else .none⟩ := by
    intro reg hne
    rcases h with rfl | rfl
    · simp [format, hne]
    · simp [format, hne]
  rw [tailLength_of_ne h0f, List.head?_cons, Option.map_some, hf _ hreg, Option.bind_some]

/-- **The bytes behind an opcode.** -/
lemma Decodes.length_iff (h : Decodes p opcode (arm p.f3 opcode) us i) (more : List UInt8) :
    tailLength p opcode (us ++ more) = some us.length ↔ Sized p opcode (us ++ more) := by
  have hfits := arm_fits p.f3 opcode
  -- operands without and with an immediate value
  have hrm : ∀ {byte vs useRexR op}, RmOperand (.new byte) p.rex useRexR vs op →
      Format.length p ⟨true, .none⟩ (byte :: vs ++ more) = some (byte :: vs).length := by
    intro byte vs useRexR op hop
    have hlen : Format.length p ⟨true, .none⟩ (byte :: (vs ++ []) ++ more)
        = some (byte :: (vs ++ [])).length := hop.length_iff.mpr rfl
    rwa [List.append_nil] at hlen
  generalize harm : arm p.f3 opcode = a at h
  rw [harm] at hfits
  cases h with
  | rmReg hop hr => exact length_iff_of_isRegular hfits (hrm hop)
  | regRm hr hop => exact length_iff_of_isRegular hfits (hrm hop)
  | opcodeReg hr => exact length_iff_of_isRegular hfits rfl
  | imm8 hus => exact length_iff_of_isRegular hfits (congrArg some hus.1.symm)
  | imm32 hus =>
    simp only [Arm.fits, Bool.or_eq_true, decide_eq_true_eq] at hfits
    rcases hfits with hfits | rfl
    · exact length_iff_of_isRegular hfits (congrArg some hus.1.symm)
    · rw [tailLength_of_format (by decide) (by decide) (by decide) rfl, sized_full_iff (by simp),
        ← iz_length_eq_four_iff, hus.1]
      exact Option.some_inj
  | jcc _ hus => exact length_iff_of_isRegular hfits (congrArg some hus.1.symm)
  | movImm hr hus =>
    simp only [Arm.fits, Bool.and_eq_true, decide_eq_true_eq] at hfits
    obtain ⟨⟨hle, hge⟩, hf⟩ := hfits
    obtain ⟨h0f, -, -, -, -, hf6, hf7⟩ := movImm_ne hle hge
    rw [tailLength_of_format h0f hf6 hf7 hf, sized_mov_iff hle hge, ← iv_length_iff, hus.1]
    exact Option.some_inj
  | @group1 byte vs ws op imm i hop hvs hi =>
    obtain ⟨hvs, -⟩ := hvs
    rw [Arm.fits] at hfits
    split_ifs at hfits hvs with hop'
    · exact length_iff_of_isRegular hfits (hop.length_iff.mpr hvs.symm)
    · obtain rfl : opcode = 0x81 := of_decide_eq_true hfits
      rw [tailLength_of_format (by decide) (by decide) (by decide) rfl, sized_full_iff (by simp),
        ← iz_length_eq_four_iff, ← hvs]
      exact hop.length_iff
  | group2 hop hvs hi => exact length_iff_of_isRegular hfits (hop.length_iff.mpr hvs.1.symm)
  | @test byte vs ws op imm hop hreg hvs =>
    simp only [Arm.fits, Bool.or_eq_true, decide_eq_true_eq] at hfits
    rw [List.cons_append, tailLength_group3 hfits (by rw [hreg]; decide), if_pos hreg]
    rcases hfits with rfl | rfl
    · exact iff_of_true (hop.length_iff.mpr hvs.1.symm) sized_test
    · rw [sized_test_iff]
      refine hop.length_iff.trans ?_
      rw [hvs.1, if_neg (show ¬(0xF7 : UInt8) = 0xF6 by decide), iz_length_eq_testLength_iff]
      simp [hreg]
  | @group3 byte vs op i hop hi =>
    simp only [Arm.fits, Bool.or_eq_true, decide_eq_true_eq] at hfits
    have hreg : (ModRm.new byte).reg ≠ 0 ∧ (ModRm.new byte).reg ≠ 1 := by
      constructor <;> intro hreg <;> rw [hreg] at hi <;> cases hi
    rw [List.cons_append, tailLength_group3 hfits hreg.2, if_neg hreg.1]
    refine iff_of_true (hrm hop) ?_
    rcases hfits with rfl | rfl
    · exact sized_test
    · exact sized_test_iff.mpr fun _ byte' hbyte => by cases hbyte; exact hreg.1
  | group4 hop hi => exact length_iff_of_isRegular hfits (hrm hop)
  | group5 hop hi => exact length_iff_of_isRegular hfits (hrm hop)
  | plain => exact length_iff_of_isRegular hfits rfl
  | escape h =>
    obtain rfl : opcode = 0x0F := of_decide_eq_true hfits
    exact h.length_iff more

/-- The length of an instruction from its parts. -/
lemma archLength_iff {n : ℕ} (hscan : scan {} (ts ++ rest) = some (p, opcode, rest)) :
    archLength (ts ++ rest) = some (ts.length + n)
      ↔ tailLength p opcode rest = some n ∧ n ≤ rest.length := by
  have hlen : (ts ++ rest).length - rest.length = ts.length := by
    rw [List.length_append, Nat.add_sub_cancel]
  rw [archLength, hscan, Option.bind_some]
  dsimp only
  cases tailLength p opcode rest with
  | none => simp
  | some m =>
    rw [Option.bind_some, hlen, Option.some_inj]
    split_ifs with hle
    · rw [Option.some_inj]
      omega
    · rw [false_iff]
      omega

/-- **Disassembly stays in sync** with the architecture exactly on the instructions that are
`Sized`. -/
theorem next_length_iff (h : next d = .ok (.ok i, d')) :
    archLength d.rest = some (d'.offset - d.offset) ↔ InStep d.rest := by
  obtain ⟨ts, rest, p, opcode, hrest, hts, hrun⟩ := next_eq_ok h
  have hscan := scan_of_next hts hrun rest
  have hstep : InStep d.rest ↔ Sized p opcode rest := by
    rw [hrest]
    constructor
    · exact fun hs => hs p opcode rest hscan
    · intro hs p' opcode' rest' hscan'
      rw [hscan] at hscan'
      cases hscan'
      exact hs
  rw [hstep]
  by_cases harm : arm p.f3 opcode = .retImm
  · rw [harm] at hrun
    cases hrun
    have hconsumed : d.offset + ts.length + 2 - d.offset = ts.length + 2 := by omega
    show archLength d.rest = some (d.offset + ts.length + 2 - d.offset) ↔ _
    rw [hconsumed, hrest, archLength_iff hscan]
    have hopcode := (arm_eq_retImm_iff p.f3).mp harm
    have htail : tailLength p opcode rest = some 2 := by
      rcases hopcode with rfl | rfl <;>
        rw [tailLength_of_format (by decide) (by decide) (by decide) rfl] <;> rfl
    rw [htail, sized_ret_iff hopcode]
    simp
  · obtain ⟨us, more, hus, rfl, hdec⟩ := (Arm.parses p opcode harm).reads _ _ _ hrun
    rw [Cursor.rest_skip_of_eq hrest] at hus
    subst hus
    have hconsumed : ((d.skip ts.length).skip us.length).offset - d.offset = ts.length + us.length := by
      show d.offset + ts.length + us.length - d.offset = _
      omega
    rw [hconsumed, hrest, archLength_iff hscan, ← hdec.length_iff more]
    simp

theorem next_length_iff_mov :
    next ⟨[0x48, 0x8B, 0x75, 0xC8, 0xC3], 0⟩ = .ok (.ok (.MOV (.Register .RSI)
        (.Memory (some .RBP) none 1 (-0x38))), ⟨[0x48, 0x8B, 0x75, 0xC8, 0xC3], 4⟩)
      ∧ InStep [0x48, 0x8B, 0x75, 0xC8, 0xC3] := by
  have h : next ⟨[0x48, 0x8B, 0x75, 0xC8, 0xC3], 0⟩ = .ok (.ok (.MOV (.Register .RSI)
      (.Memory (some .RBP) none 1 (-0x38))), ⟨[0x48, 0x8B, 0x75, 0xC8, 0xC3], 4⟩) := by
    decide +kernel
  exact ⟨h, (next_length_iff h).mp (by decide +kernel)⟩

/-- `MOV r8d, 1` has an immediate value of four bytes, but eight are read, since there is a REX
prefix; and `TEST rax, 1` has four bytes, but eight are read with `REX.W`. -/
theorem next_length_rex :
    (next ⟨[0x41, 0xB8, 1, 0, 0, 0, 0xC3, 0x90, 0x90, 0x90], 0⟩
        = .ok (.ok (.MOV (.Register .R8) (.ImmediateValue (.I64 (-0x6F6F6F3CFFFFFFFF)))),
          ⟨[0x41, 0xB8, 1, 0, 0, 0, 0xC3, 0x90, 0x90, 0x90], 10⟩)
      ∧ archLength [0x41, 0xB8, 1, 0, 0, 0, 0xC3, 0x90, 0x90, 0x90] = some 6)
    ∧ (next ⟨[0x48, 0xF7, 0xC0, 1, 0, 0, 0, 0xC3, 0x90, 0x90, 0x90], 0⟩
        = .ok (.ok (.TEST (.Register .RAX) (.ImmediateValue (.I64 (-0x6F6F6F3CFFFFFFFF)))),
          ⟨[0x48, 0xF7, 0xC0, 1, 0, 0, 0, 0xC3, 0x90, 0x90, 0x90], 11⟩)
      ∧ archLength [0x48, 0xF7, 0xC0, 1, 0, 0, 0, 0xC3, 0x90, 0x90, 0x90] = some 7) := by
  decide +kernel

end Rhubarb.Asm
