import Rhubarb.Asm.Architecture
import Rhubarb.Asm.Decoding

/-!
What the disassembler reads of its input.

All parts of `next` move the offset through `advance`, apart from the arm of `RET imm16`, which moves
it by two without looking.  So what is read decides what is decoded, and no shorter input suffices,
exactly if the opcode is not one of that arm.

* `HeadOf`: the prefixes and the opcode that `next` reads; `needs_head`.
* `next_bounded_iff`: bounds, independence of what follows, and prefixes.
-/

namespace Rhubarb.Asm

open Foundations Comp

/-! ### The head -/

/-- The prefixes and the opcode that `next` reads from `ts`, after prefixes `p`. -/
inductive HeadOf : Prefixes → List UInt8 → Prefixes → UInt8 → Prop where
  | size {p q ts opcode} : HeadOf { p with size := true } ts q opcode →
      HeadOf p (0x66 :: ts) q opcode
  | f2 {p q ts opcode} : HeadOf { p with f2 := true } ts q opcode → HeadOf p (0xF2 :: ts) q opcode
  | f3 {p q ts opcode} : HeadOf { p with f3 := true } ts q opcode → HeadOf p (0xF3 :: ts) q opcode
  | rex {p byte} (opcode) : isRexPrefix byte = true →
      HeadOf p [byte, opcode] { p with rex := some ⟨byte⟩ } opcode
  | opcode {p byte} : byte ∉ [0xC4, 0xC5, 0x66, 0xF0, 0xF2, 0xF3] → isRexPrefix byte = false →
      HeadOf p [byte] p byte

/-- `next` up to the opcode. -/
def head : Decode (Prefixes × UInt8) := do
  let d ← read
  if d.offset = d.input.length then fail .PartialInstruction else prefixes d.rest {}

lemma next_eq : next = head >>= fun (p, opcode) => (arm p.f3 opcode).run p opcode := by
  rw [next, head, bind_assoc]
  refine congrArg (read >>= ·) (funext fun d => ?_)
  split_ifs <;> rfl

variable {d d' : Disassembler} {p q : Prefixes} {byte opcode : UInt8} {ts left rest : List UInt8}

lemma isRexPrefix_of_mem (h : byte ∈ [0xC4, 0xC5, 0x66, 0xF0, 0xF2, 0xF3]) :
    isRexPrefix byte = false := by
  simp only [List.mem_cons, List.not_mem_nil, or_false] at h
  rcases h with rfl | rfl | rfl | rfl | rfl | rfl <;> decide

lemma advance_cons (hd : d.rest = byte :: rest) : advance d = .ok (.ok byte, d.skip 1) :=
  token_cons hd

lemma advance_nil (hd : d.rest = []) : advance d = .ok (.error .PartialInstruction, d) :=
  token_nil hd

lemma prefixes_cons (hd : d.rest = byte :: rest) :
    prefixes (byte :: left) p d = prefixTurn (prefixes left) p byte (d.skip 1) :=
  bind_apply_ok (advance_cons hd)

/-- A turn that reads a REX prefix reads the opcode, too. -/
lemma prefixTurn_rex {again : Prefixes → Decode (Prefixes × UInt8)} (h : isRexPrefix byte = true) :
    prefixTurn again p byte
      = advance >>= fun opcode => pure ({ p with rex := some ⟨byte⟩ }, opcode) := by
  have hmem : byte ∉ [0xC4, 0xC5, 0x66, 0xF0, 0xF2, 0xF3] := fun hmem => by
    rw [isRexPrefix_of_mem hmem] at h
    cases h
  simp only [List.mem_cons, List.not_mem_nil, or_false, not_or] at hmem
  simp only [prefixTurn, hmem, or_self, if_false, h, if_true]

lemma rest_skip_one (hd : d.rest = byte :: rest) : (d.skip 1).rest = rest := by
  rw [Cursor.rest_skip, hd, List.drop_one, List.tail_cons]

/-- What the loop has read. -/
lemma prefixes_reads (hd : d.rest = left) (h : prefixes left p d = .ok (.ok (q, opcode), d')) :
    ∃ ts rest, left = ts ++ rest ∧ d' = d.skip ts.length ∧ HeadOf p ts q opcode := by
  induction left generalizing p d with
  | nil => cases h
  | cons byte left ih =>
    have hleft := rest_skip_one hd
    -- a turn that goes on puts its byte before what the rest of the loop reads
    have hturn : ∀ {p'}, prefixes left p' (d.skip 1) = .ok (.ok (q, opcode), d') →
        (∀ ts, HeadOf p' ts q opcode → HeadOf p (byte :: ts) q opcode) →
        ∃ ts rest, byte :: left = ts ++ rest ∧ d' = d.skip ts.length ∧ HeadOf p ts q opcode := by
      intro p' h' hhead
      obtain ⟨ts, rest, rfl, rfl, hts⟩ := ih hleft h'
      exact ⟨byte :: ts, rest, rfl, by rw [Cursor.skip_skip, Nat.add_comm]; rfl, hhead ts hts⟩
    rw [prefixes_cons hd, prefixTurn] at h
    split_ifs at h with h₁ h₂ h₃ h₄ h₅ h₆
    · cases h
    · subst h₂
      exact hturn h fun ts => .size
    · cases h
    · subst h₄
      exact hturn h fun ts => .f2
    · subst h₅
      exact hturn h fun ts => .f3
    · rcases bind_eq_ok h with ⟨byte', d₁, hbyte, hpure⟩ | ⟨_, _, _, heq⟩
      swap
      · cases heq
      cases hpure
      obtain ⟨ts, rest, hrest, rfl, rfl⟩ := reads_token _ _ _ hbyte
      rw [hleft] at hrest
      exact ⟨[byte, opcode], rest, by rw [hrest]; rfl, by rw [Cursor.skip_skip]; rfl,
        .rex opcode h₆⟩
    · cases h
      push Not at h₁
      exact ⟨[opcode], left, rfl, rfl, .opcode (by simp [h₁, h₂, h₃, h₄, h₅]) (by simpa using h₆)⟩

lemma HeadOf.ne_nil (h : HeadOf p ts q opcode) : ts ≠ [] := by
  cases h <;> exact List.cons_ne_nil _ _

/-- The loop yields the head that stands at the offset. -/
lemma HeadOf.runs (h : HeadOf p ts q opcode) (hd : d.rest = ts ++ rest) :
    prefixes d.rest p d = .ok (.ok (q, opcode), d.skip ts.length) := by
  induction h generalizing d with
  | @size p q ts opcode _ ih | @f2 p q ts opcode _ ih | @f3 p q ts opcode _ ih =>
    have hleft := rest_skip_one hd
    rw [hd, List.cons_append, prefixes_cons hd]
    refine Eq.trans ?_ ((ih hleft).trans ?_)
    · rw [hleft]
      rfl
    · rw [Cursor.skip_skip, Nat.add_comm]
      rfl
  | @rex p byte opcode hrex =>
    have hleft := rest_skip_one hd
    rw [hd, List.cons_append, prefixes_cons hd, prefixTurn_rex hrex,
      bind_apply_ok (advance_cons hleft), Cursor.skip_skip]
    rfl
  | @opcode p byte hmem hrex =>
    simp only [List.mem_cons, List.not_mem_nil, or_false, not_or] at hmem
    rw [hd, List.cons_append, prefixes_cons hd]
    simp only [prefixTurn, hmem, or_self, if_false, hrex, Bool.false_eq_true]
    rfl

/-- The loop comes to the end of an input that ends within a head. -/
lemma HeadOf.starves {us : List UInt8} (h : HeadOf p ts q opcode) (hus : us <+: ts)
    (hne : us ≠ ts) (hd : d.rest = us) :
    ∃ d', prefixes us p d = .ok (.error .PartialInstruction, d') := by
  cases us with
  | nil => exact ⟨d, rfl⟩
  | cons byte us =>
    induction h generalizing d byte us with
    | @size p q ts opcode _ ih | @f2 p q ts opcode _ ih | @f3 p q ts opcode _ ih =>
      obtain ⟨rfl, hvs⟩ := List.cons_prefix_cons.mp hus
      have hleft := rest_skip_one hd
      rw [prefixes_cons hd]
      cases us with
      | nil => exact ⟨d.skip 1, rfl⟩
      | cons byte us => exact ih byte us hvs (fun heq => hne (by rw [heq])) hleft
    | @rex p byte' opcode hrex =>
      obtain ⟨rfl, hvs⟩ := List.cons_prefix_cons.mp hus
      have hleft := rest_skip_one hd
      rcases List.prefix_cons_iff.mp hvs with rfl | ⟨ws, rfl, hws⟩
      · rw [prefixes_cons hd, prefixTurn_rex hrex]
        exact ⟨d.skip 1, bind_apply_error (advance_nil hleft)⟩
      · rw [List.prefix_nil.mp hws] at hne
        exact absurd rfl hne
    | @opcode p byte' hmem hrex =>
      obtain ⟨rfl, hvs⟩ := List.cons_prefix_cons.mp hus
      rw [List.prefix_nil.mp hvs] at hne
      exact absurd rfl hne

lemma head_of_rest_ne_nil (h : d.rest ≠ []) : head d = prefixes d.rest {} d := by
  have hne : d.offset ≠ d.input.length := by
    intro heq
    exact h (by rw [Cursor.rest, heq, List.drop_length])
  rw [head, bind_apply_ok (read_apply d), if_neg hne]

lemma head_of_rest_nil (h : d.rest = []) : head d = .ok (.error .PartialInstruction, d) := by
  rw [head, bind_apply_ok (read_apply d)]
  split_ifs
  · rfl
  · rw [h]
    rfl

/-- **The head of an instruction needs its bytes.** -/
lemma needs_head (h : HeadOf {} ts p opcode) :
    Needs .PartialInstruction head ts (p, opcode) := by
  constructor
  · intro d rest hd
    rw [head_of_rest_ne_nil (by rw [hd]; simp [h.ne_nil]), h.runs hd]
  · intro us hus hne d hd
    by_cases hnil : us = []
    · exact ⟨d, head_of_rest_nil (hd.trans hnil)⟩
    · obtain ⟨d', hd'⟩ := h.starves hus hne hd
      exact ⟨d', by rw [head_of_rest_ne_nil (by rw [hd]; exact hnil), hd, hd']⟩

/-- What was read up to the opcode. -/
lemma head_reads : Reads (fun ts r => HeadOf {} ts r.1 r.2) head := by
  intro d r d' h
  obtain ⟨p, opcode⟩ := r
  by_cases hnil : d.rest = []
  · rw [head_of_rest_nil hnil] at h
    cases h
  · rw [head_of_rest_ne_nil hnil] at h
    exact prefixes_reads rfl h

/-! ### Instructions -/

/-- How `next` has come to an instruction. -/
lemma next_eq_ok {i : Instruction} (h : next d = .ok (.ok i, d')) :
    ∃ ts rest p opcode, d.rest = ts ++ rest ∧ HeadOf {} ts p opcode
      ∧ (arm p.f3 opcode).run p opcode (d.skip ts.length) = .ok (.ok i, d') := by
  rw [next_eq] at h
  rcases bind_eq_ok h with ⟨⟨p, opcode⟩, d₁, hhead, hrun⟩ | ⟨_, _, _, heq⟩
  swap
  · cases heq
  obtain ⟨ts, rest, hrest, rfl, hts⟩ := head_reads _ _ _ hhead
  exact ⟨ts, rest, p, opcode, hrest, hts, hrun⟩

/-- `next` on an instruction whose head stands at the offset. -/
lemma HeadOf.next (h : HeadOf {} ts p opcode) (hd : d.rest = ts ++ rest) :
    next d = (arm p.f3 opcode).run p opcode (d.skip ts.length) := by
  rw [next_eq, bind_apply_ok ((needs_head h).accepts d rest hd)]

/-- A prefix is not an opcode. -/
lemma arm_of_isLegacyPrefix {f3 : Bool} (h : isLegacyPrefix opcode = true) :
    arm f3 opcode = .unsupported := by
  simp only [isLegacyPrefix, List.mem_cons, List.not_mem_nil, or_false, decide_eq_true_eq] at h
  rcases h with rfl | rfl | rfl | rfl | rfl | rfl | rfl | rfl | rfl | rfl | rfl <;> rfl

lemma arm_of_isRexPrefix {f3 : Bool} (h : isRexPrefix opcode = true) : arm f3 opcode = .invalid := by
  have hcases : ∀ byte, isRexPrefix byte = true → byte ∈ (List.range' 0x40 0x10).map UInt8.ofNat :=
    forall_byte (by decide +kernel)
  obtain ⟨n, hn, rfl⟩ := List.mem_map.mp (hcases opcode h)
  obtain ⟨hle, hlt⟩ := List.mem_range'_1.mp hn
  interval_cases n <;> rfl

lemma isRexPrefix_of_isLegacyPrefix {byte : UInt8} (h : isLegacyPrefix byte = true) :
    isRexPrefix byte = false := by
  simp only [isLegacyPrefix, List.mem_cons, List.not_mem_nil, or_false, decide_eq_true_eq] at h
  rcases h with rfl | rfl | rfl | rfl | rfl | rfl | rfl | rfl | rfl | rfl | rfl <;> rfl

/-- The architecture sees the prefixes and the opcode that `next` has read. -/
lemma HeadOf.scan (h : HeadOf p ts q opcode) (hp : p.rex = none)
    (hlegacy : isLegacyPrefix opcode = false) (hrex : isRexPrefix opcode = false) (rest : List UInt8) :
    scan p (ts ++ rest) = some (q, opcode, rest) := by
  induction h with
  | @size p q ts opcode _ ih | @f2 p q ts opcode _ ih | @f3 p q ts opcode _ ih =>
    obtain ⟨size, f2, f3, rex⟩ := p
    obtain rfl : rex = none := hp
    rw [List.cons_append, Asm.scan]
    simpa [isLegacyPrefix] using ih rfl hlegacy hrex
  | @rex p byte opcode hbyte =>
    have hlegacy' : isLegacyPrefix byte = false := by
      by_contra hc
      rw [isRexPrefix_of_isLegacyPrefix (by simpa using hc)] at hbyte
      cases hbyte
    simp [Asm.scan, hlegacy', hbyte, hlegacy, hrex]
  | @opcode p byte _ _ => simp [Asm.scan, hlegacy, hrex]

/-- **The prefixes and the opcode of an instruction** that `next` has decoded. -/
lemma scan_of_next {i : Instruction} (hts : HeadOf {} ts p opcode)
    (h : (arm p.f3 opcode).run p opcode d = .ok (.ok i, d')) (rest : List UInt8) :
    scan {} (ts ++ rest) = some (p, opcode, rest) := by
  refine hts.scan rfl ?_ ?_ rest
  · by_contra hlegacy
    rw [arm_of_isLegacyPrefix (by simpa using hlegacy)] at h
    cases h
  · by_contra hrex
    rw [arm_of_isRexPrefix (by simpa using hrex)] at h
    cases h

/-- The prefix `F3` only tells `PAUSE` from `NOP`. -/
lemma arm_eq_of_ne (f3 : Bool) (h : opcode ≠ 0x90) : arm f3 opcode = arm false opcode := by
  simp only [arm, h, if_false]

lemma arm_eq_retImm_iff (f3 : Bool) : arm f3 opcode = .retImm ↔ opcode = 0xC2 ∨ opcode = 0xCA := by
  constructor
  · rw [arm]
    repeat' refine iteInduction (motive := fun a => a = Arm.retImm → _) (fun hop => ?_) fun _ => ?_
    all_goals first | exact fun _ => hop | nofun
  · rintro (rfl | rfl) <;> rfl

/-- **Bounds and prefixes of decoding.**  An instruction ends within the input, is the same whatever
follows it, and is not decoded from fewer bytes, exactly if it is not a `RET` with an immediate
value. -/
theorem next_bounded_iff {i : Instruction} (h : next d = .ok (.ok i, d')) :
    ((d.offset < d'.offset ∧ d'.offset ≤ d.input.length)
      ∧ (∀ more, next ⟨d.input ++ more, d.offset⟩ = .ok (.ok i, ⟨d.input ++ more, d'.offset⟩))
      ∧ ∀ bytes, bytes <+: d.rest.take (d'.offset - d.offset) →
        bytes ≠ d.rest.take (d'.offset - d.offset) →
        ∃ d'', next ⟨bytes, 0⟩ = .ok (.error .PartialInstruction, d''))
      ↔ opcodeOf d.rest ≠ some 0xC2 ∧ opcodeOf d.rest ≠ some 0xCA := by
  obtain ⟨ts, rest, p, opcode, hrest, hts, hrun⟩ := next_eq_ok h
  have hopcode : opcodeOf d.rest = some opcode := by
    rw [opcodeOf, hrest, scan_of_next hts hrun]
    rfl
  rw [hopcode, ← not_or, Option.some_inj, Option.some_inj, ← arm_eq_retImm_iff p.f3]
  constructor
  · -- the bytes up to the opcode are decoded alone
    rintro ⟨⟨-, hle⟩, -, hpre⟩ harm
    rw [harm] at hrun
    cases hrun
    have hoffset : d.offset + ts.length + 2 ≤ d.input.length := hle
    have htake : d.rest.take (d.offset + ts.length + 2 - d.offset) = ts ++ rest.take 2 := by
      rw [show d.offset + ts.length + 2 - d.offset = ts.length + 2 by omega, hrest, List.take_append,
        List.take_of_length_le (by omega), Nat.add_sub_cancel_left]
    have hlong : 2 ≤ rest.length := by
      have hlen := congrArg List.length hrest
      simp only [Cursor.rest, List.length_drop, List.length_append] at hlen
      omega
    obtain ⟨d'', hpartial⟩ := hpre ts (by rw [show (Cursor.skip d ts.length).offset + 2 - d.offset
      = d.offset + ts.length + 2 - d.offset from rfl, htake]; exact List.prefix_append _ _) (by
        rw [show (Cursor.skip d ts.length).offset + 2 - d.offset
          = d.offset + ts.length + 2 - d.offset from rfl, htake]
        intro heq
        have hlen := congrArg List.length heq
        simp only [List.length_append, List.length_take] at hlen
        omega)
    have halone : Cursor.rest ⟨ts, 0⟩ = ts ++ [] := by simp [Cursor.rest]
    rw [hts.next halone, harm] at hpartial
    cases hpartial
  · intro harm
    obtain ⟨us, rest', hrest', rfl, hdec⟩ := (Arm.parses p opcode harm).reads _ _ _ hrun
    have hneeds := (Arm.parses p opcode harm).needs us i hdec
    rw [Cursor.rest_skip_of_eq hrest] at hrest'
    have hall : d.rest = (ts ++ us) ++ rest' := by rw [hrest, hrest', List.append_assoc]
    have hnext : Needs .PartialInstruction next (ts ++ us) i := by
      rw [next_eq]
      exact (needs_head hts).bind hneeds
    have hne : ts ++ us ≠ [] := by simp [hts.ne_nil]
    have hlen : 0 < (ts ++ us).length := List.length_pos_iff.mpr hne
    have hle := Cursor.skip_le_length hall hne
    rw [Cursor.skip_skip, ← List.length_append]
    refine ⟨⟨?_, hle⟩, fun more => ?_, fun bytes hpre hproper => ?_⟩
    · show d.offset < d.offset + (ts ++ us).length
      omega
    · refine hnext.accepts ⟨d.input ++ more, d.offset⟩ (rest' ++ more) ?_
      have hdrop : (d.input ++ more).drop d.offset = d.rest ++ more :=
        List.drop_append_of_le_length (by omega)
      rw [← List.append_assoc, ← hall, ← hdrop]
      rfl
    · have htake : d.rest.take ((d.skip (ts ++ us).length).offset - d.offset) = ts ++ us := by
        rw [show (d.skip (ts ++ us).length).offset - d.offset = (ts ++ us).length from
          Nat.add_sub_cancel_left _ _, hall, List.take_left]
      rw [htake] at hpre hproper
      exact hnext.starves bytes hpre hproper ⟨bytes, 0⟩ rfl

theorem next_bounded_iff_mov :
    next ⟨[0x48, 0x89, 0xE5, 0xC3], 0⟩
        = .ok (.ok (.MOV (.Register .RBP) (.Register .RSP)), ⟨[0x48, 0x89, 0xE5, 0xC3], 3⟩)
      ∧ ∀ bytes, bytes <+: [0x48, 0x89, 0xE5] → bytes ≠ [0x48, 0x89, 0xE5] →
        ∃ d'', next ⟨bytes, 0⟩ = .ok (.error .PartialInstruction, d'') := by
  have h : next ⟨[0x48, 0x89, 0xE5, 0xC3], 0⟩
      = .ok (.ok (.MOV (.Register .RBP) (.Register .RSP)), ⟨[0x48, 0x89, 0xE5, 0xC3], 3⟩) := by
    decide +kernel
  exact ⟨h, ((next_bounded_iff h).mpr (by decide +kernel)).2.2⟩

/-- The operand of `RET imm16` is passed over without looking whether it is there: the offset leaves
the input, and one byte is decoded as well as all three. -/
theorem next_bounded_ret :
    next ⟨[0xC2], 0⟩ = .ok (.ok .RET, ⟨[0xC2], 3⟩) ∧ ¬3 ≤ [0xC2].length
      ∧ next ⟨[0xC2, 0x08, 0x00], 0⟩ = .ok (.ok .RET, ⟨[0xC2, 0x08, 0x00], 3⟩)
      ∧ ¬∃ d'', next ⟨[0xC2], 0⟩ = .ok (.error .PartialInstruction, d'') := by
  have h : next ⟨[0xC2], 0⟩ = .ok (.ok .RET, ⟨[0xC2], 3⟩) := by decide +kernel
  refine ⟨h, by decide, by decide +kernel, ?_⟩
  rintro ⟨d'', h'⟩
  rw [h] at h'
  cases h'

end Rhubarb.Asm
