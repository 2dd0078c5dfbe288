import Rhubarb.Asm.Encoding

/-!
Decoding what the architecture encodes.

What an arm of `next` reads is known exactly (`Arm.parses`), so a canonical encoding is decoded if
its parts stand in the relations of that arm.

* `Rm.rmOperand`: operands; `accepts_next`: prefixes and opcode.
* `kept`: the encodings that are decoded; `next_canonical_iff`.
-/

namespace Rhubarb.Asm

open Foundations Comp

variable {α : Type} {d d' : Disassembler} {p : Prefixes} {opcode : UInt8} {i : Instruction}
  {rex : Option Rex} {useRexR f3 : Bool} {s : Size} {regs : List Low} {us more bytes : List UInt8}

/-! ### Values -/

/-- **A value is read back from its bytes.** -/
lemma ImmediateValue.ofBytes_bytes (imm : ImmediateValue) : .ofBytes imm.bytes = imm := by
  cases imm with
  | I8 value =>
    have h : leNat (leBytes 1 value.toUInt8.toNat) = value.toUInt8.toNat :=
      (leNat_leBytes _ _).trans (Nat.mod_eq_of_lt value.toUInt8.toNat_lt)
    rw [bytes, ofBytes, length_leBytes, h]
    exact congrArg (fun v => I8 (.ofUInt8 v)) UInt8.ofNat_toNat
  | I16 value =>
    have h : leNat (leBytes 2 value.toUInt16.toNat) = value.toUInt16.toNat :=
      (leNat_leBytes _ _).trans (Nat.mod_eq_of_lt value.toUInt16.toNat_lt)
    rw [bytes, ofBytes, length_leBytes, h]
    exact congrArg (fun v => I16 (.ofUInt16 v)) UInt16.ofNat_toNat
  | I32 value =>
    have h : leNat (leBytes 4 value.toUInt32.toNat) = value.toUInt32.toNat :=
      (leNat_leBytes _ _).trans (Nat.mod_eq_of_lt value.toUInt32.toNat_lt)
    rw [bytes, ofBytes, length_leBytes, h]
    exact congrArg (fun v => I32 (.ofUInt32 v)) UInt32.ofNat_toNat
  | I64 value =>
    have h : leNat (leBytes 8 value.toUInt64.toNat) = value.toUInt64.toNat :=
      (leNat_leBytes _ _).trans (Nat.mod_eq_of_lt value.toUInt64.toNat_lt)
    rw [bytes, ofBytes, length_leBytes, h]
    exact congrArg (fun v => I64 (.ofUInt64 v)) UInt64.ofNat_toNat

@[simp] lemma ImmediateValue.length_bytes (imm : ImmediateValue) :
    imm.bytes.length = match imm with
      | I8 _ => 1
      | I16 _ => 2
      | I32 _ => 4
      | I64 _ => 8 := by
  cases imm <;> exact length_leBytes _ _

/-- The bytes of a value. -/
lemma immediately_bytes (imm : ImmediateValue) : Immediately imm.bytes.length imm.bytes imm :=
  ⟨rfl, imm.ofBytes_bytes.symm⟩

/-- Only two bytes make a value of two bytes. -/
lemma ImmediateValue.length_of_ofBytes {value : Int16} (h : .ofBytes us = I16 value) :
    us.length = 2 := by
  unfold ofBytes at h
  split_ifs at h with h1 h2
  exact h2

lemma dispOf_bytes8 {disp : Int32} (hge : -128 ≤ disp.toInt) (hle : disp.toInt ≤ 127) :
    dispOf (ImmediateValue.I8 disp.toInt8).bytes = disp := by
  have hbytes := ImmediateValue.ofBytes_bytes (.I8 disp.toInt8)
  have hlen := ImmediateValue.length_bytes (.I8 disp.toInt8)
  rw [ImmediateValue.ofBytes, if_pos hlen] at hbytes
  rw [dispOf, if_pos hlen, ImmediateValue.I8.inj hbytes]
  refine Int32.toInt_inj.mp ?_
  rw [Int8.toInt_toInt32, Int32.toInt_toInt8]
  exact Int.bmod_eq_of_le (by simpa using hge) (by simpa using (by omega : disp.toInt < 128))

lemma dispOf_bytes32 (disp : Int32) : dispOf (ImmediateValue.I32 disp).bytes = disp := by
  have hbytes := ImmediateValue.ofBytes_bytes (.I32 disp)
  have hlen := ImmediateValue.length_bytes (.I32 disp)
  dsimp only at hlen
  rw [ImmediateValue.ofBytes, hlen] at hbytes
  rw [dispOf, hlen]
  exact ImmediateValue.I32.inj hbytes

/-! ### Operands -/

/-- No bit of the REX prefix extends a register. -/
structure Lower (rex : Option Rex) : Prop where
  r : rexBit rex Rex.r = false
  x : rexBit rex Rex.x = false
  b : rexBit rex Rex.b = false

lemma Lower.rexFor (h : Lower rex) (useRexR : Bool) : ModRm.rexFor rex useRexR = false := by
  cases useRexR with
  | false => rw [rexFor_false, h.b]
  | true => rw [rexFor_true, h.r]

lemma parseRegister_low (r : Low) : parseRegister r false = some r.register := by
  revert r
  decide

lemma registerOf_low (r : Low) : registerOf r false = .ok r.register := by
  unfold registerOf
  rw [parseRegister_low]

/-- The fields of a byte are read back. -/
lemma new_fieldsByte (a : Fin 4) (b c : Low) :
    ModRm.new (fieldsByte a b c) = ⟨(a : ℕ), (b : ℕ), (c : ℕ)⟩
      ∧ Sib.new (fieldsByte a b c) = ⟨(a : ℕ), (b : ℕ), (c : ℕ)⟩ := by
  have hnat : (fieldsByte a b c).toNat = 64 * a + 8 * b + c :=
    UInt8.toNat_ofNat_of_lt' (show _ < 256 by omega)
  have hthree (n : ℕ) : n &&& 0b11 = n % 4 := Nat.and_two_pow_sub_one_eq_mod n 2
  have hseven (n : ℕ) : n &&& 0b111 = n % 8 := Nat.and_two_pow_sub_one_eq_mod n 3
  simp only [ModRm.new, Sib.new, hnat, hthree, hseven, Nat.shiftRight_eq_div_pow, ModRm.mk.injEq,
    Sib.mk.injEq]
  omega

/-- How long the displacement is that `ModR/M.mod` asks for. -/
def dispLength (md : ℕ) : ℕ := if md = 1 then 1 else if md = 2 then 4 else 0

/-- **The displacement behind a base**, which has no form that stands for another address. -/
lemma dispFields_spec (base : Low) (disp : Int32) :
    (dispFields base disp).2.length = dispLength (dispFields base disp).1
      ∧ dispOf (dispFields base disp).2 = disp
      ∧ ((dispFields base disp).1 : ℕ) ≠ 3
      ∧ (((dispFields base disp).1 : ℕ) = 0 → (base : ℕ) ≠ 5) := by
  by_cases hzero : disp = 0 ∧ base ≠ 5
  · rw [dispFields, if_pos hzero]
    exact ⟨rfl, hzero.1.symm, by decide, fun _ h => hzero.2 (Fin.ext h)⟩
  · by_cases hshort : -128 ≤ disp.toInt ∧ disp.toInt ≤ 127
    · rw [dispFields, if_neg hzero, if_pos hshort]
      exact ⟨length_leBytes _ _, dispOf_bytes8 hshort.1 hshort.2, show (1 : ℕ) ≠ 3 by decide,
        fun h => absurd h (show (1 : ℕ) ≠ 0 by decide)⟩
    · rw [dispFields, if_neg hzero, if_neg hshort]
      exact ⟨length_leBytes _ _, dispOf_bytes32 disp, show (2 : ℕ) ≠ 3 by decide,
        fun h => absurd h (show (2 : ℕ) ≠ 0 by decide)⟩

variable {reg : Low} {a : Arm} {row : Option UInt8 × UInt8} {mk : Operand → Operand → Instruction}

/-- An address with a SIB byte. -/
lemma rmOperand_sib {md : Fin 4} {disp : Int32} {base? index? : Option Register} (hrex : Lower rex)
    (hmd : (md : ℕ) ≠ 3) (scale : Fin 4) (index base : Low)
    (hlen : us.length = Sib.dispSize ⟨(scale : ℕ), (index : ℕ), (base : ℕ)⟩ ⟨(md : ℕ), (reg : ℕ),
      4⟩) (hdisp : dispOf us = disp)
    (hbase : Sib.baseRegister ⟨(scale : ℕ), (index : ℕ), (base : ℕ)⟩ md false = base?)
    (hindex : Sib.indexRegister ⟨(scale : ℕ), (index : ℕ), (base : ℕ)⟩ false = index?) :
    RmOperand ⟨(md : ℕ), (reg : ℕ), 4⟩ rex useRexR (fieldsByte scale index base :: us)
      (.Memory base? index? (2 ^ (scale : ℕ)) disp) := by
  have hscale : Sib.scaleFactor ⟨(scale : ℕ), (index : ℕ), (base : ℕ)⟩ = 2 ^ (scale : ℕ) := by
    fin_cases scale <;> rfl
  have h : RmOperand ⟨(md : ℕ), (reg : ℕ), 4⟩ rex useRexR (fieldsByte scale index base :: us) _ :=
    .sib hmd rfl (by rw [(new_fieldsByte _ _ _).2]; exact hlen)
  rwa [(new_fieldsByte _ _ _).2, hrex.b, hrex.x, hbase, hindex, hscale, hdisp] at h

/-- The base and the displacement of a SIB byte. -/
lemma sib_base {scale index reg : ℕ} {md : Fin 4} (base : Low)
    (hmd : (md : ℕ) = 0 → (base : ℕ) ≠ 5) :
    Sib.baseRegister ⟨scale, index, (base : ℕ)⟩ md false = some base.register
      ∧ Sib.dispSize ⟨scale, index, (base : ℕ)⟩ ⟨(md : ℕ), reg, 4⟩ = dispLength md := by
  constructor
  · rw [Sib.baseRegister, if_neg fun h => hmd h.2 h.1, parseRegister_low]
  · rw [Sib.dispSize, if_neg fun h => hmd h.1 h.2, dispLength]

lemma indexRegister_low {scale base : ℕ} (index : Index) :
    Sib.indexRegister ⟨scale, (index.register : ℕ), base⟩ false = some index.register.register := by
  have hne : ¬(index.register : ℕ) = 4 := fun h => index.ne (Fin.ext h)
  rw [Sib.indexRegister, if_neg hne, parseRegister_low]

/-- **The operand of `ModR/M.rm`** is read from its bytes. -/
lemma Rm.rmOperand (rm : Rm) (reg : Low) (hrex : Lower rex) :
    RmOperand (.new (fieldsByte rm.fields.md reg rm.fields.rm)) rex useRexR rm.fields.tail
      rm.operand := by
  rw [(new_fieldsByte _ _ _).1]
  match rm with
  | .register r => exact .register rfl (by rw [hrex.rexFor]; exact registerOf_low r)
  | .memory (.rip disp) =>
    have h : RmOperand ⟨0, (reg : ℕ), 5⟩ rex useRexR (ImmediateValue.I32 disp).bytes _ :=
      .base (show (0 : ℕ) ≠ 3 by decide) (show (5 : ℕ) ≠ 4 by decide) (length_leBytes _ _)
    rwa [dispOf_bytes32] at h
  | .memory (.sum none none disp) =>
    exact rmOperand_sib hrex (show (0 : ℕ) ≠ 3 by decide) 0 4 5 (length_leBytes _ _)
      (dispOf_bytes32 disp) rfl rfl
  | .memory (.sum none (some index) disp) =>
    exact rmOperand_sib hrex (show (0 : ℕ) ≠ 3 by decide) index.scale index.register 5
      (length_leBytes _ _) (dispOf_bytes32 disp) rfl (indexRegister_low index)
  | .memory (.sum (some base) (some index) disp) =>
    obtain ⟨hlen, hdisp, hmd, hbase⟩ := dispFields_spec base disp
    obtain ⟨hreg, hsize⟩ := sib_base base hbase
    exact rmOperand_sib hrex hmd index.scale index.register base (hlen.trans hsize.symm) hdisp
      hreg (indexRegister_low index)
  | .memory (.sum (some base) none disp) =>
    obtain ⟨hlen, hdisp, hmd, hbase⟩ := dispFields_spec base disp
    by_cases h4 : base = 4
    · subst h4
      obtain ⟨hreg, hsize⟩ := sib_base 4 hbase
      exact rmOperand_sib hrex hmd 0 4 4 (hlen.trans hsize.symm) hdisp hreg rfl
    · have hfields : Rm.fields (.memory (.sum (some base) none disp))
          = ⟨(dispFields base disp).1, base, (dispFields base disp).2⟩ := if_neg h4
      have hrip : ¬(((dispFields base disp).1 : ℕ) = 0 ∧ (base : ℕ) = 5) := fun h => hbase h.1 h.2
      have h : RmOperand ⟨((dispFields base disp).1 : ℕ), (reg : ℕ), (base : ℕ)⟩ rex useRexR
          (dispFields base disp).2 _ :=
        .base hmd (fun h => h4 (Fin.ext h)) (hlen.trans (by rw [ModRm.dispSize, if_neg hrip]; rfl))
      rw [if_neg (by simpa [ModRm.isRipRelative] using hrip), hrex.rexFor, parseRegister_low,
        hdisp] at h
      rw [hfields]
      exact h

lemma reg_fieldsByte (md : Fin 4) (reg rm : Low) :
    (ModRm.new (fieldsByte md reg rm)).reg = reg := by
  rw [(new_fieldsByte _ _ _).1]

/-- The register of `ModR/M.reg`. -/
lemma registerOf_reg (md : Fin 4) (reg rm : Low) (hrex : Lower rex) (useRexR : Bool) :
    registerOf (ModRm.new (fieldsByte md reg rm)).reg (ModRm.rexFor rex useRexR)
      = .ok reg.register := by
  rw [reg_fieldsByte, hrex.rexFor, registerOf_low]

/-! ### Prefixes and opcode -/

/-- The prefixes that `next` has read before the opcode. -/
def prefixesOf (f3 : Bool) (s : Size) (regs : List Low) : Prefixes :=
  ⟨s = .word, false, f3, (s.rex regs).map Rex.mk⟩

/-- The opcode is not a prefix. -/
def isOpcode (byte : UInt8) : Bool :=
  byte ∉ [0xC4, 0xC5, 0x66, 0xF0, 0xF2, 0xF3] && !isRexPrefix byte

lemma Size.rex_mem (s : Size) (regs : List Low) : s.rex regs ∈ [none, some 0x40, some 0x48] := by
  unfold Size.rex
  cases s <;> split_ifs <;> simp

lemma lower_prefixesOf (f3 : Bool) (s : Size) (regs : List Low) :
    Lower (prefixesOf f3 s regs).rex := by
  have hlower : ∀ byte? ∈ [none, some (0x40 : UInt8), some 0x48],
      rexBit (byte?.map Rex.mk) Rex.r = false ∧ rexBit (byte?.map Rex.mk) Rex.x = false
        ∧ rexBit (byte?.map Rex.mk) Rex.b = false := by
    simp only [List.forall_mem_cons]
    exact ⟨⟨rfl, rfl, rfl⟩, ⟨rfl, rfl, rfl⟩, ⟨rfl, rfl, rfl⟩, nofun⟩
  obtain ⟨hr, hx, hb⟩ := hlower _ (s.rex_mem regs)
  exact ⟨hr, hx, hb⟩

lemma headOf_opcode (h : isOpcode opcode = true) (rex? : Option UInt8)
    (hrex : ∀ byte ∈ rex?, isRexPrefix byte = true) (hp : p.rex = none) :
    HeadOf p (rex?.toList ++ [opcode]) { p with rex := rex?.map Rex.mk } opcode := by
  obtain ⟨size, f2, f3, rex⟩ := p
  obtain rfl : rex = none := hp
  simp only [isOpcode, Bool.and_eq_true, decide_eq_true_eq, Bool.not_eq_true'] at h
  cases rex? with
  | none => exact .opcode h.1 h.2
  | some byte => exact .rex opcode (hrex byte rfl)

lemma headOf_lead (h : isOpcode opcode = true) :
    HeadOf {} (lead f3 s regs ++ [opcode]) (prefixesOf f3 s regs) opcode := by
  have hmem : ∀ byte? ∈ [none, some (0x40 : UInt8), some 0x48], ∀ byte ∈ byte?,
      isRexPrefix byte = true := by
    simp only [List.forall_mem_cons]
    exact ⟨nofun, fun _ h => Option.some.inj h ▸ rfl, fun _ h => Option.some.inj h ▸ rfl, nofun⟩
  have hrex : ∀ p : Prefixes, p.rex = none →
      HeadOf p ((s.rex regs).toList ++ [opcode]) { p with rex := (s.rex regs).map Rex.mk } opcode :=
    fun p hp => headOf_opcode h (s.rex regs) (hmem _ (s.rex_mem regs)) hp
  rw [lead, List.append_assoc, List.append_assoc, prefixesOf]
  by_cases hs : s = .word
  · rw [if_pos hs, decide_eq_true hs]
    cases f3 with
    | false => exact .size (hrex _ rfl)
    | true => exact .size (.f3 (hrex _ rfl))
  · rw [if_neg hs, decide_eq_false hs]
    cases f3 with
    | false => exact hrex _ rfl
    | true => exact .f3 (hrex _ rfl)

/-- **The prefixes and the opcode**, and then what its arm reads. -/
lemma accepts_next (hopcode : isOpcode opcode = true) (harm : arm f3 opcode = a)
    (h : Accepts (a.run (prefixesOf f3 s regs) opcode) us i) :
    Accepts next (lead f3 s regs ++ opcode :: us) i := by
  subst harm
  rw [next_eq, List.append_cons]
  exact (needs_head (headOf_lead hopcode)).accepts.bind h

/-- An arm that does not make an instruction. -/
lemma lost_of_decodes (hopcode : isOpcode opcode = true) (harm : arm f3 opcode = a)
    (ha : a ≠ .retImm) (h : ∀ vs, ¬Decodes (prefixesOf f3 s regs) opcode a vs i) :
    ∀ d d' more, d.rest = (lead f3 s regs ++ opcode :: us) ++ more → next d ≠ .ok (.ok i, d') := by
  intro d d' more hd hnext
  subst harm
  have hhead : HeadOf {} (lead f3 s regs ++ [opcode]) (prefixesOf f3 s regs) opcode :=
    headOf_lead hopcode
  rw [List.append_cons, List.append_assoc] at hd
  rw [hhead.next hd] at hnext
  obtain ⟨vs, _, _, _, hdec⟩ := (Arm.parses _ opcode ha).reads _ _ _ hnext
  exact h vs hdec

/-! ### What is not decoded -/

/-- The operand is an immediate value of two bytes. -/
def Operand.isWord : Operand → Bool
  | ImmediateValue (.I16 _) => true
  | _ => false

@[simp] lemma Operand.isWord_register (r : Asm.Register) : (Register r).isWord = false := rfl

@[simp] lemma Operand.isWord_i8 (value : Int8) : (ImmediateValue (.I8 value)).isWord = false := rfl

@[simp] lemma Operand.isWord_i16 (value : Int16) :
    (ImmediateValue (.I16 value)).isWord = true := rfl

@[simp] lemma Operand.isWord_i32 (value : Int32) :
    (ImmediateValue (.I32 value)).isWord = false := rfl

@[simp] lemma Operand.isWord_i64 (value : Int64) :
    (ImmediateValue (.I64 value)).isWord = false := rfl

/-- **The canonical encodings that are decoded**: not `OUT` with an immediate port, not `TEST` with
`REX.W` and an immediate value, and no immediate value of two bytes but that of `TEST`. -/
def kept (bytes : List UInt8) : Instruction → Bool
  | .OUT _ (.ImmediateValue _) => false
  | .TEST _ (.ImmediateValue (.I32 _)) => bytes.head? ≠ some 0x48
  | .TEST _ _ => true
  | i => !i.operands.any Operand.isWord

@[simp] lemma Rm.isWord_operand (rm : Rm) : rm.operand.isWord = false := by
  rcases rm with r | (_ | _) <;> rfl

/-- An encoding is decoded and `kept`, or neither. -/
def Settled (bytes : List UInt8) (i : Instruction) : Prop :=
  Accepts next bytes i ∧ kept bytes i = true
    ∨ (∀ d d' more, d.rest = bytes ++ more → next d ≠ .ok (.ok i, d')) ∧ kept bytes i = false

lemma settled_of_decodes (hopcode : isOpcode opcode = true) (harm : arm f3 opcode = a)
    (hkept : kept (lead f3 s regs ++ opcode :: us) i = true)
    (h : Decodes (prefixesOf f3 s regs) opcode a us i) :
    Settled (lead f3 s regs ++ opcode :: us) i := by
  have ha : a ≠ .retImm := by
    rintro rfl
    cases h
  exact .inl ⟨accepts_next hopcode harm ((Arm.parses _ opcode ha).needs us i h).accepts, hkept⟩

/-- The same for an opcode after `0F`. -/
lemma settled_of_decodes0f {a : Arm0f} (harm : arm0f f3 opcode = a)
    (hkept : kept (lead f3 s regs ++ 0x0F :: opcode :: us) i = true)
    (h : Decodes0f (prefixesOf f3 s regs) opcode a us i) :
    Settled (lead f3 s regs ++ 0x0F :: opcode :: us) i := by
  subst harm
  exact settled_of_decodes (by decide) rfl hkept (.escape h)

/-- An instruction with an immediate value of two bytes, from an arm that reads another length. -/
lemma settled_word (value : Int16) (hopcode : isOpcode opcode = true) (harm : arm f3 opcode = a)
    (ha : a ≠ .retImm)
    (h : ∀ vs, Decodes (prefixesOf f3 s regs) opcode a vs i → ∃ n ws, n ≠ 2 ∧ Immediately n ws (.I16
      value)) (hkept : kept (lead f3 s regs ++ opcode :: us) i = false) :
    Settled (lead f3 s regs ++ opcode :: us) i := by
  refine .inr ⟨lost_of_decodes hopcode harm ha fun vs hdec => ?_, hkept⟩
  obtain ⟨n, ws, hn, hws, himm⟩ := h vs hdec
  exact hn (hws.symm.trans (ImmediateValue.length_of_ofBytes himm.symm))

/-! ### Rows -/

lemma Size.opcode_cases (h : s.opcode row = some opcode) :
    row.1 = some opcode ∨ row.2 = opcode := by
  cases s with
  | byte => exact .inl h
  | word | plain | wide => exact .inr (Option.some_inj.mp h)

lemma rmRegRows_arm (h : (row, mk) ∈ rmRegRows) (hopcode : s.opcode row = some opcode) :
    arm false opcode = .rmReg mk ∧ isOpcode opcode = true
      ∧ ∀ a r, a.isWord = false → kept bytes (mk a (.Register r)) = true := by
  have hcases := Size.opcode_cases hopcode
  simp only [rmRegRows, List.mem_cons, List.not_mem_nil, or_false, Prod.mk.injEq] at h
  rcases h with ⟨rfl, rfl⟩ | ⟨rfl, rfl⟩ | ⟨rfl, rfl⟩ | ⟨rfl, rfl⟩ | ⟨rfl, rfl⟩ | ⟨rfl, rfl⟩
    | ⟨rfl, rfl⟩ | ⟨rfl, rfl⟩ | ⟨rfl, rfl⟩ <;>
  rcases hcases with hbyte | rfl <;> (try cases hbyte) <;>
  exact ⟨rfl, by decide, fun a r ha => by simp [kept, Instruction.operands, ha]⟩

lemma regRmRows_arm (h : (row, mk) ∈ regRmRows) (hopcode : s.opcode row = some opcode) :
    arm false opcode = .regRm mk true ∧ isOpcode opcode = true
      ∧ ∀ r a, a.isWord = false → kept bytes (mk (.Register r) a) = true := by
  have hcases := Size.opcode_cases hopcode
  simp only [regRmRows, List.mem_cons, List.not_mem_nil, or_false, Prod.mk.injEq] at h
  rcases h with ⟨rfl, rfl⟩ | ⟨rfl, rfl⟩ | ⟨rfl, rfl⟩ <;>
  rcases hcases with hbyte | rfl <;> (try cases hbyte) <;>
  exact ⟨rfl, by decide, fun r a ha => by simp [kept, Instruction.operands, ha]⟩

/-- `OUT` with an immediate port is decoded as `IN`; the other rows are decoded. -/
lemma imm8Rows_arm {mk : ImmediateValue → Instruction} (h : (opcode, mk) ∈ imm8Rows)
    (value : Int8) :
    isOpcode opcode = true
      ∧ (arm false opcode = .imm8 mk ∧ kept bytes (mk (.I8 value)) = true
        ∨ arm false opcode = .imm8 (fun imm => .IN .RAX (.ImmediateValue imm))
          ∧ (∀ imm, Instruction.IN .RAX (.ImmediateValue imm) ≠ mk (.I8 value))
          ∧ kept bytes (mk (.I8 value)) = false) := by
  simp only [imm8Rows, List.mem_cons, List.not_mem_nil, or_false, Prod.mk.injEq] at h
  rcases h with ⟨rfl, rfl⟩ | ⟨rfl, rfl⟩ | ⟨rfl, rfl⟩ | ⟨rfl, rfl⟩ | ⟨rfl, rfl⟩ | ⟨rfl, rfl⟩
    | ⟨rfl, rfl⟩ | ⟨rfl, rfl⟩
  · exact ⟨by decide, .inl ⟨rfl, rfl⟩⟩
  · exact ⟨by decide, .inl ⟨rfl, rfl⟩⟩
  · exact ⟨by decide, .inl ⟨rfl, rfl⟩⟩
  · exact ⟨by decide, .inl ⟨rfl, rfl⟩⟩
  · exact ⟨by decide, .inl ⟨rfl, rfl⟩⟩
  · exact ⟨by decide, .inr ⟨rfl, nofun, rfl⟩⟩
  · exact ⟨by decide, .inr ⟨rfl, nofun, rfl⟩⟩
  · exact ⟨by decide, .inl ⟨rfl, rfl⟩⟩

lemma group1Rows_group (h : (reg, mk) ∈ group1Rows) (dst src : Operand) :
    group1 reg dst src = some (mk dst src) := by
  simp only [group1Rows, List.mem_cons, List.not_mem_nil, or_false, Prod.mk.injEq] at h
  rcases h with ⟨rfl, rfl⟩ | ⟨rfl, rfl⟩ | ⟨rfl, rfl⟩ | ⟨rfl, rfl⟩ | ⟨rfl, rfl⟩ | ⟨rfl, rfl⟩
    | ⟨rfl, rfl⟩ | ⟨rfl, rfl⟩ <;> rfl

lemma group2Rows_group (h : (reg, mk) ∈ group2Rows) (dst src : Operand) :
    group2 reg dst src = some (mk dst src) := by
  simp only [group2Rows, List.mem_cons, List.not_mem_nil, or_false, Prod.mk.injEq] at h
  rcases h with ⟨rfl, rfl⟩ | ⟨rfl, rfl⟩ | ⟨rfl, rfl⟩ <;> rfl

/-- What is `kept` of the rows of groups 1 and 2. -/
lemma group1Rows_kept (h : (reg, mk) ∈ group1Rows ∨ (reg, mk) ∈ group2Rows) (dst : Rm)
    (imm : ImmediateValue) :
    kept bytes (mk dst.operand (.ImmediateValue imm)) = !(Operand.ImmediateValue imm).isWord := by
  simp only [group1Rows, group2Rows, List.mem_cons, List.not_mem_nil, or_false, Prod.mk.injEq] at h
  rcases h with (⟨-, rfl⟩ | ⟨-, rfl⟩ | ⟨-, rfl⟩ | ⟨-, rfl⟩ | ⟨-, rfl⟩ | ⟨-, rfl⟩ | ⟨-, rfl⟩
    | ⟨-, rfl⟩) | (⟨-, rfl⟩ | ⟨-, rfl⟩ | ⟨-, rfl⟩) <;> simp [kept, Instruction.operands]

/-- The rows with one operand. -/
lemma unaryRows_kept {mk : Operand → Instruction}
    (h : (reg, mk) ∈ group3Rows ∨ (reg, mk) ∈ group4Rows ∨ (reg, mk) ∈ nearRows ∨ (reg, mk) ∈
      farRows) (dst : Rm) :
    kept bytes (mk dst.operand) = true := by
  simp only [group3Rows, group4Rows, nearRows, farRows, List.mem_cons, List.not_mem_nil, or_false,
    Prod.mk.injEq] at h
  rcases h with (⟨-, rfl⟩ | ⟨-, rfl⟩ | ⟨-, rfl⟩ | ⟨-, rfl⟩ | ⟨-, rfl⟩) | (⟨-, rfl⟩ | ⟨-, rfl⟩)
    | (⟨-, rfl⟩ | ⟨-, rfl⟩ | ⟨-, rfl⟩) | ⟨-, rfl⟩ | ⟨-, rfl⟩ <;> simp [kept, Instruction.operands]

variable {md : Fin 4} {rm : Low}

/-- The rows of opcode `FF`. -/
lemma group5_row {mk : Operand → Instruction}
    (h : (reg, mk) ∈ group4Rows ∨ (reg, mk) ∈ nearRows ∨ (reg, mk) ∈ farRows) (op : Operand) :
    group5 (ModRm.new (fieldsByte md reg rm)).reg op = some (mk op) := by
  rw [reg_fieldsByte]
  simp only [group4Rows, nearRows, farRows, List.mem_cons, List.not_mem_nil, or_false,
    Prod.mk.injEq] at h
  rcases h with (⟨rfl, rfl⟩ | ⟨rfl, rfl⟩) | (⟨rfl, rfl⟩ | ⟨rfl, rfl⟩ | ⟨rfl, rfl⟩)
    | ⟨rfl, rfl⟩ | ⟨rfl, rfl⟩ <;> rfl

lemma group3_row {mk : Operand → Instruction} (h : (reg, mk) ∈ group3Rows) (op : Operand) :
    group3 (ModRm.new (fieldsByte md reg rm)).reg op = some (mk op) := by
  rw [reg_fieldsByte]
  simp only [group3Rows, List.mem_cons, List.not_mem_nil, or_false, Prod.mk.injEq] at h
  rcases h with ⟨rfl, rfl⟩ | ⟨rfl, rfl⟩ | ⟨rfl, rfl⟩ | ⟨rfl, rfl⟩ | ⟨rfl, rfl⟩ <;> rfl

lemma group4_row {mk : Operand → Instruction} (h : (reg, mk) ∈ group4Rows) (op : Operand) :
    group4 (ModRm.new (fieldsByte md reg rm)).reg op = some (mk op) := by
  rw [reg_fieldsByte]
  simp only [group4Rows, List.mem_cons, List.not_mem_nil, or_false, Prod.mk.injEq] at h
  rcases h with ⟨rfl, rfl⟩ | ⟨rfl, rfl⟩ <;> rfl

lemma fixedRows_settled : ∀ row ∈ fixedRows,
    next ⟨row.1, 0⟩ = .ok (.ok row.2, ⟨row.1, row.1.length⟩)
      ∧ (opcodeOf row.1 ≠ some 0xC2 ∧ opcodeOf row.1 ≠ some 0xCA) ∧ kept row.1 row.2 = true := by
  decide +kernel

lemma randomRows_kept {mk : Register → Instruction} {r : Register}
    (h : (f3, reg, mk) ∈ randomRows) : kept bytes (mk r) = true := by
  simp only [randomRows, List.mem_cons, List.not_mem_nil, or_false, Prod.mk.injEq] at h
  rcases h with ⟨-, -, rfl⟩ | ⟨-, -, rfl⟩ | ⟨-, -, rfl⟩ <;> rfl

lemma regRm0fRows_arm (h : (f3, opcode, mk) ∈ regRm0fRows) :
    arm0f f3 opcode = .regRm mk
      ∧ ∀ r a, a.isWord = false → kept bytes (mk (.Register r) a) = true := by
  simp only [regRm0fRows, List.mem_cons, List.not_mem_nil, or_false, Prod.mk.injEq] at h
  rcases h with ⟨rfl, rfl, rfl⟩ | ⟨rfl, rfl, rfl⟩ | ⟨rfl, rfl, rfl⟩ | ⟨rfl, rfl, rfl⟩ <;>
  exact ⟨rfl, fun r a ha => by simp [kept, Instruction.operands, ha]⟩

lemma Size.takes_cases {imm : ImmediateValue} (h : s.takes imm = true) :
    (s = .byte ∧ ∃ v, imm = .I8 v) ∨ (s = .word ∧ ∃ v, imm = .I16 v)
      ∨ (s = .plain ∨ s = .wide) ∧ ∃ v, imm = .I32 v := by
  cases s <;> cases imm <;> simp_all [Size.takes]

lemma Size.takesFull_cases {imm : ImmediateValue} (h : s.takesFull imm = true) :
    (s = .word ∧ ∃ v, imm = .I16 v) ∨ (s = .plain ∧ ∃ v, imm = .I32 v)
      ∨ s = .wide ∧ ∃ v, imm = .I64 v := by
  cases s <;> cases imm <;> simp_all [Size.takesFull]

/-! ### What an arm makes -/

lemma Decodes.imm8_eq {mk : ImmediateValue → Instruction} (h : Decodes p opcode (.imm8 mk) us i) :
    ∃ imm, i = mk imm := by
  cases h with
  | imm8 _ => exact ⟨_, rfl⟩

lemma Decodes.group1_operands (h : Decodes p 0x81 .group1 us i) :
    ∃ op ws imm, Immediately 4 ws imm ∧ i.operands = [op, .ImmediateValue imm] := by
  cases h with
  | group1 _ himm hi => exact ⟨_, _, _, himm, Asm.group1_operands hi⟩

lemma group3_ne_test {reg : ℕ} {op a b : Operand} : group3 reg op ≠ some (.TEST a b) := by
  intro h
  unfold group3 at h
  split at h <;> cases h

lemma ImmediateValue.ofBytes_ne_i32 {value : Int32} (h : us.length = 8) :
    .ofBytes us ≠ I32 value := by
  rw [ofBytes, h]
  simp

/-! ### Instructions -/

lemma and_seven_add (base : UInt8) (hbase : base ∈ [0x50, 0x58, 0x90, 0xB8]) (r : Low) :
    (base + UInt8.ofNat r).toNat &&& 7 = r := by
  simp only [List.mem_cons, List.not_mem_nil, or_false] at hbase
  rcases hbase with rfl | rfl | rfl | rfl <;> fin_cases r <;> rfl

lemma registerOf_opcode {base : UInt8} {bit : Bool} {r : Low}
    (hbase : base ∈ [0x50, 0x58, 0x90, 0xB8]) (hbit : bit = false) :
    registerOf ((base + UInt8.ofNat r).toNat &&& 7) bit = .ok r.register := by
  rw [and_seven_add base hbase, hbit, registerOf_low]

/-- The condition in an opcode. -/
lemma conditionCode_add (base : UInt8) (hbase : base ∈ [0x40, 0x70, 0x90]) (n : Fin 16) :
    (base + UInt8.ofNat n).toNat &&& 0x0F = n := by
  simp only [List.mem_cons, List.not_mem_nil, or_false] at hbase
  rcases hbase with rfl | rfl | rfl <;> fin_cases n <;> rfl

/-- Opcodes with a register or a condition in them. -/
lemma arm_low (r : Low) :
    (arm false (0x50 + UInt8.ofNat r) = .opcodeReg .PUSH ∧ isOpcode (0x50 + UInt8.ofNat r) = true)
      ∧ (arm false (0x58 + UInt8.ofNat r) = .opcodeReg .POP
        ∧ isOpcode (0x58 + UInt8.ofNat r) = true)
      ∧ (r ≠ 0 → arm false (0x90 + UInt8.ofNat r) = .opcodeReg (fun r => .XCHG (.Register .RAX) r))
      ∧ isOpcode (0x90 + UInt8.ofNat r) = true
      ∧ arm false (0xB8 + UInt8.ofNat r) = .movImm ∧ isOpcode (0xB8 + UInt8.ofNat r) = true := by
  fin_cases r
  · exact ⟨⟨rfl, rfl⟩, ⟨rfl, rfl⟩, fun h => absurd rfl h, rfl, rfl, rfl⟩
  all_goals exact ⟨⟨rfl, rfl⟩, ⟨rfl, rfl⟩, fun _ => rfl, rfl, rfl, rfl⟩

lemma arm_condition (n : Fin 16) :
    arm false (0x70 + UInt8.ofNat n) = .jcc ∧ isOpcode (0x70 + UInt8.ofNat n) = true
      ∧ arm0f false (0x40 + UInt8.ofNat n) = .cmov
      ∧ arm0f false (0x90 + UInt8.ofNat n) = .setcc := by
  fin_cases n <;> exact ⟨rfl, rfl, rfl, rfl⟩

/-- **An instruction that is decoded from a string alone** is decoded wherever the string stands. -/
lemma accepts_of_next (hbytes : next ⟨bytes, 0⟩ = .ok (.ok i, ⟨bytes, bytes.length⟩))
    (hret : opcodeOf bytes ≠ some 0xC2 ∧ opcodeOf bytes ≠ some 0xCA) : Accepts next bytes i := by
  obtain ⟨ts, rest, p, opcode, hrest, hts, hrun⟩ := next_eq_ok hbytes
  have hopcode : opcodeOf bytes = some opcode := by
    have hscan := scan_of_next hts hrun rest
    rw [← hrest] at hscan
    exact congrArg (Option.map fun h => h.2.1) hscan
  have harm : arm p.f3 opcode ≠ .retImm := by
    rw [hopcode, ← not_or, Option.some_inj, Option.some_inj] at hret
    rwa [ne_eq, arm_eq_retImm_iff p.f3]
  obtain ⟨us, rest', hrest', hskip, hdec⟩ := (Arm.parses p opcode harm).reads _ _ _ hrun
  rw [Cursor.rest_skip_of_eq hrest] at hrest'
  have hnil : rest' = [] := by
    have hlen := congrArg Cursor.offset hskip
    have hall := congrArg List.length hrest
    rw [hrest'] at hall
    simp only [Cursor.skip, Cursor.rest, List.drop_zero, List.length_append] at hlen hall
    exact List.eq_nil_of_length_eq_zero (by omega)
  have hnext : Accepts next (ts ++ us) i := by
    rw [next_eq]
    exact (needs_head hts).accepts.bind ((Arm.parses p opcode harm).needs us i hdec).accepts
  have hbytes' : bytes = ts ++ us := by
    rw [hrest', hnil, List.append_nil] at hrest
    exact hrest
  rwa [hbytes']

/-- **Every canonical encoding** is decoded and `kept`, or neither. -/
lemma Canonical.settled (h : Canonical bytes i) : Settled bytes i := by
  have hlow := lower_prefixesOf
  cases h with
  | rmReg s dst src hrow hopcode =>
    obtain ⟨harm, hop, hkept⟩ := rmRegRows_arm hrow hopcode
    exact settled_of_decodes hop harm (hkept _ _ (by simp))
      (.rmReg (dst.rmOperand src (hlow _ _ _)) (registerOf_reg _ _ _ (hlow _ _ _) _))
  | regRm s dst src hrow hopcode =>
    obtain ⟨harm, hop, hkept⟩ := regRmRows_arm hrow hopcode
    exact settled_of_decodes hop harm (hkept _ _ (by simp))
      (.regRm (registerOf_reg _ _ _ (hlow _ _ _) _) (src.rmOperand dst (hlow _ _ _)))
  | lea s dst src _ =>
    have hsrc : src.operand.isWord = false := (Rm.memory src).isWord_operand
    exact settled_of_decodes (by decide) rfl (by simp [kept, Instruction.operands, hsrc])
      (.regRm (registerOf_reg _ _ _ (hlow _ _ _) _) ((Rm.memory src).rmOperand dst (hlow _ _ _)))
  | push s r _ =>
    obtain ⟨⟨harm, hop⟩, -⟩ := arm_low r
    exact settled_of_decodes hop harm rfl (.opcodeReg (registerOf_opcode (by simp) (hlow _ _ _).r))
  | pop s r _ =>
    obtain ⟨-, ⟨harm, hop⟩, -⟩ := arm_low r
    exact settled_of_decodes hop harm rfl (.opcodeReg (registerOf_opcode (by simp) (hlow _ _ _).r))
  | xchg s r _ hr =>
    obtain ⟨-, -, harm, hop, -⟩ := arm_low r
    exact settled_of_decodes hop (harm hr) rfl
      (.opcodeReg (registerOf_opcode (by simp) (hlow _ _ _).r))
  | mov s r imm htakes =>
    obtain ⟨-, -, -, -, harm, hop⟩ := arm_low r
    have hr : registerOf ((0xB8 + UInt8.ofNat r).toNat &&& 7) false = .ok r.register :=
      registerOf_opcode (by simp) rfl
    rcases Size.takesFull_cases htakes with ⟨rfl, v, rfl⟩ | ⟨rfl, v, rfl⟩ | ⟨rfl, v, rfl⟩
    · refine settled_word v hop harm nofun (fun vs hdec => ?_) rfl
      cases hdec with
      | movImm _ himm => exact ⟨4, vs, by decide, himm⟩
    · exact settled_of_decodes hop harm rfl (.movImm hr (immediately_bytes _))
    · exact settled_of_decodes hop harm rfl (.movImm hr (immediately_bytes _))
  | imm8 s value hrow _ =>
    obtain ⟨hop, ⟨harm, hkept⟩ | ⟨harm, hne, hkept⟩⟩ := imm8Rows_arm hrow value
    · exact settled_of_decodes hop harm hkept (.imm8 (immediately_bytes _))
    · refine .inr ⟨lost_of_decodes hop harm nofun fun vs hdec => ?_, hkept⟩
      obtain ⟨imm, hi⟩ := hdec.imm8_eq
      exact hne imm hi.symm
  | pushImm s imm hs htakes =>
    rcases Size.takes_cases htakes with ⟨rfl, v, rfl⟩ | ⟨rfl, v, rfl⟩ | ⟨rfl | rfl, v, rfl⟩
    · exact absurd hs (by decide)
    · refine settled_word v (by decide) rfl nofun (fun vs hdec => ?_) rfl
      cases hdec with
      | imm32 himm => exact ⟨4, vs, by decide, himm⟩
    · exact settled_of_decodes (by decide) rfl rfl (.imm32 (immediately_bytes _))
    · exact absurd hs (by decide)
  | jmp value =>
    have h : Settled (lead false .plain [] ++ 0xE9 :: (ImmediateValue.I32 value).bytes)
        (.JMP (.ImmediateValue (.I32 value))) :=
      settled_of_decodes (by decide) rfl rfl (.imm32 (immediately_bytes _))
    exact h
  | @jcc cc n value hcc =>
    obtain ⟨harm, hop, -⟩ := arm_condition n
    have h : Settled (lead false .plain [] ++ (0x70 + UInt8.ofNat n)
        :: (ImmediateValue.I8 value).bytes) (.JCC cc (.I8 value)) :=
      settled_of_decodes hop harm rfl (.jcc (by rwa [conditionCode_add 0x70 (by simp)])
        (immediately_bytes _))
    exact h
  | @group1 reg mk s dst imm hrow htakes =>
    have hkept : ∀ bytes, kept bytes (mk dst.operand (.ImmediateValue imm)) = _ :=
      fun bytes => group1Rows_kept (.inl hrow) dst imm
    have hmk := group1Rows_group hrow dst.operand (.ImmediateValue imm)
    rw [← reg_fieldsByte dst.fields.md _ dst.fields.rm] at hmk
    rcases Size.takes_cases htakes with ⟨rfl, v, rfl⟩ | ⟨rfl, v, rfl⟩ | ⟨rfl | rfl, v, rfl⟩
    on_goal 2 =>
      refine settled_word v (by decide) rfl nofun (fun vs hdec => ?_) (hkept _)
      obtain ⟨op, ws, imm, himm, hi⟩ := hdec.group1_operands
      rw [group1_operands hmk] at hi
      cases hi
      exact ⟨4, ws, by decide, himm⟩
    all_goals
      exact settled_of_decodes (by decide) rfl (hkept _)
        (.group1 (dst.rmOperand reg (hlow _ _ _)) (immediately_bytes _) hmk)
  | group1Short s dst value hrow _ =>
    refine settled_of_decodes (by decide) rfl (group1Rows_kept (.inl hrow) dst _)
      (.group1 (dst.rmOperand _ (hlow _ _ _)) (immediately_bytes _) ?_)
    rw [reg_fieldsByte, group1Rows_group hrow]
  | group2 s dst value hrow =>
    split_ifs <;>
    refine settled_of_decodes (by decide) rfl (group1Rows_kept (.inr hrow) dst _)
      (.group2 (dst.rmOperand _ (hlow _ _ _)) (immediately_bytes _) ?_) <;>
    rw [reg_fieldsByte, group2Rows_group hrow]
  | test s dst imm htakes =>
    have hreg := reg_fieldsByte dst.fields.md 0 dst.fields.rm
    rcases Size.takes_cases htakes with ⟨rfl, v, rfl⟩ | ⟨rfl, v, rfl⟩ | ⟨rfl | rfl, v, rfl⟩
    on_goal 4 =>
      refine .inr ⟨lost_of_decodes (by decide) rfl nofun fun vs hdec => ?_, rfl⟩
      cases hdec with
      | test _ _ himm => exact ImmediateValue.ofBytes_ne_i32 himm.1 himm.2.symm
      | group3 _ hi => exact group3_ne_test hi
    all_goals
      exact settled_of_decodes (by decide) rfl rfl
        (.test (dst.rmOperand 0 (hlow _ _ _)) hreg (immediately_bytes _))
  | group3 s dst hrow =>
    split_ifs <;>
    exact settled_of_decodes (by decide) rfl (unaryRows_kept (.inl hrow) dst)
      (.group3 (dst.rmOperand _ (hlow _ _ _)) (group3_row hrow _))
  | group4 s dst hrow =>
    have hkept : ∀ bytes, kept bytes _ = true := fun _ => unaryRows_kept (.inr (.inl hrow)) dst
    split_ifs
    · exact settled_of_decodes (by decide) rfl (hkept _)
        (.group4 (dst.rmOperand _ (hlow _ _ _)) (group4_row hrow _))
    · exact settled_of_decodes (by decide) rfl (hkept _)
        (.group5 (dst.rmOperand _ (hlow _ _ _)) (group5_row (.inl hrow) _))
  | near s dst hrow _ =>
    exact settled_of_decodes (by decide) rfl (unaryRows_kept (.inr (.inr (.inl hrow))) dst)
      (.group5 (dst.rmOperand _ (hlow _ _ _)) (group5_row (.inr (.inl hrow)) _))
  | far s dst hrow _ =>
    exact settled_of_decodes (by decide) rfl
      (unaryRows_kept (.inr (.inr (.inr hrow))) (.memory dst))
      (.group5 ((Rm.memory dst).rmOperand _ (hlow _ _ _)) (group5_row (.inr (.inr hrow)) _))
  | ret value hopcode =>
    have hret : ∀ opcode, Accepts (Arm.retImm.run (prefixesOf false .plain []) opcode)
        (ImmediateValue.I16 value).bytes .RET := fun opcode d rest hd => by
      rw [ImmediateValue.bytes, length_leBytes]
      rfl
    have hnext : ∀ opcode, isOpcode opcode = true → arm false opcode = .retImm →
        Accepts next (opcode :: (ImmediateValue.I16 value).bytes) .RET :=
      fun opcode hop harm => accepts_next hop harm (hret opcode)
    rcases hopcode with rfl | rfl <;> exact .inl ⟨hnext _ (by decide) rfl, rfl⟩
  | fixed hrow =>
    obtain ⟨hnext, hret, hkept⟩ := fixedRows_settled _ hrow
    exact .inl ⟨accepts_of_next hnext hret, hkept⟩
  | cmov s n dst src hcc _ =>
    exact settled_of_decodes0f (arm_condition n).2.2.1 (by simp [kept, Instruction.operands])
      (.cmov (by rwa [conditionCode_add 0x40 (by simp)]) (registerOf_reg _ _ _ (hlow _ _ _) _)
        (src.rmOperand dst (hlow _ _ _)))
  | setcc n dst hcc =>
    exact settled_of_decodes0f (arm_condition n).2.2.2 (by simp [kept, Instruction.operands])
      (.setcc (by rwa [conditionCode_add 0x90 (by simp)]) (dst.rmOperand 0 (hlow _ _ _)))
  | regRm0f s dst src hrow _ =>
    obtain ⟨harm, hkept⟩ := regRm0fRows_arm hrow
    exact settled_of_decodes0f harm (hkept _ _ (by simp))
      (.regRm (registerOf_reg _ _ _ (hlow _ _ _) _) (src.rmOperand dst (hlow _ _ _)))
  | random s dst hrow _ =>
    have hr : ∀ {reg}, registerOf (ModRm.new (fieldsByte 3 reg dst)).rm false
        = .ok dst.register := by
      intro reg
      rw [(new_fieldsByte _ _ _).1, registerOf_low]
    refine settled_of_decodes0f rfl (randomRows_kept hrow) ?_
    simp only [randomRows, List.mem_cons, List.not_mem_nil, or_false, Prod.mk.injEq] at hrow
    rcases hrow with ⟨rfl, rfl, rfl⟩ | ⟨rfl, rfl, rfl⟩ | ⟨rfl, rfl, rfl⟩
    · exact .rdrand (reg_fieldsByte _ _ _) (by rw [(hlow _ _ _).b]; exact hr)
    · exact .rdseed (reg_fieldsByte _ _ _) rfl (by rw [(hlow _ _ _).b]; exact hr)
    · exact .rdpid (reg_fieldsByte _ _ _) rfl hr

/-- **Decoding inverts encoding** exactly on the encodings that are `kept`. -/
theorem next_canonical_iff (h : Canonical bytes i) (hd : d.rest = bytes ++ more) :
    next d = .ok (.ok i, d.skip bytes.length) ↔ kept bytes i = true := by
  rcases h.settled with ⟨haccepts, hkept⟩ | ⟨hlost, hkept⟩
  · exact iff_of_true (haccepts d more hd) hkept
  · refine iff_of_false (hlost d _ more hd) ?_
    rw [hkept]
    decide

/-- `MOV rsi, [rbp - 0x38]` before a `RET`. -/
theorem next_canonical_iff_mov :
    Canonical [0x48, 0x8B, 0x75, 0xC8] (.MOV (.Register .RSI) (.Memory (some .RBP) none 1 (-0x38)))
      ∧ next ⟨[0x48, 0x8B, 0x75, 0xC8, 0xC3], 0⟩ = .ok (.ok (.MOV (.Register .RSI)
        (.Memory (some .RBP) none 1 (-0x38))), ⟨[0x48, 0x8B, 0x75, 0xC8, 0xC3], 4⟩) := by
  have h : Canonical [0x48, 0x8B, 0x75, 0xC8]
      (.MOV (.Register .RSI) (.Memory (some .RBP) none 1 (-0x38))) :=
    .regRm .wide 6 (.memory (.sum (some 5) none (-0x38)))
      (show ((some 0x8A, 0x8B), Instruction.MOV) ∈ regRmRows by simp [regRmRows]) rfl
  have hd : Cursor.rest ⟨([0x48, 0x8B, 0x75, 0xC8, 0xC3] : List UInt8), 0⟩
      = [0x48, 0x8B, 0x75, 0xC8] ++ [0xC3] := rfl
  exact ⟨h, (next_canonical_iff h hd).mpr rfl⟩

/-- `OUT 0x20, al` is decoded as `IN al, 0x20`, and of `TEST rax, 1` eight bytes are read as the
immediate value. -/
theorem next_canonical_out :
    (Canonical [0xE6, 0x20] (.OUT .RAX (.ImmediateValue (.I8 0x20)))
      ∧ next ⟨[0xE6, 0x20], 0⟩
        = .ok (.ok (.IN .RAX (.ImmediateValue (.I8 0x20))), ⟨[0xE6, 0x20], 2⟩))
    ∧ Canonical [0x48, 0xF7, 0xC0, 1, 0, 0, 0] (.TEST (.Register .RAX) (.ImmediateValue (.I32 1)))
      ∧ next ⟨[0x48, 0xF7, 0xC0, 1, 0, 0, 0, 0xC3, 0x90, 0x90, 0x90], 0⟩
        = .ok (.ok (.TEST (.Register .RAX) (.ImmediateValue (.I64 (-0x6F6F6F3CFFFFFFFF)))),
          ⟨[0x48, 0xF7, 0xC0, 1, 0, 0, 0, 0xC3, 0x90, 0x90, 0x90], 11⟩) := by
  refine ⟨⟨?_, by decide +kernel⟩, ?_, by decide +kernel⟩
  · exact .imm8 .plain 0x20 (show (0xE6, fun imm => .OUT .RAX (.ImmediateValue imm)) ∈ imm8Rows by
      simp [imm8Rows]) (.inl rfl)
  · exact .test .wide (.register 0) (.I32 1) rfl

end Rhubarb.Asm
