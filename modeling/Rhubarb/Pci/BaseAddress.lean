import Rhubarb.Pci.Config

/-!
The base address registers of a PCI device (`Device::bar`).

The size of a memory region is found by a protocol with the device: ones are written to the register,
and only the bits above the size can be read back.

* `Device.bar`: the function, with the registers as it leaves them.
* `Region`, `Region.InSlot`: a region of a device, and what its registers are like.
* `write_write`, `write_comm`, `write_eq_self`: the laws of the registers.
* `bar_iff`: when the region is described as it is.
* `bitRange_lens`: the fields of words.
-/

namespace Rhubarb.Pci

/-! ### The function -/

/-- `Bar`. -/
inductive Bar where
  | mem32 (address size : BitVec 32) (prefetchable : Bool)
  | mem64 (address size : BitVec 64) (prefetchable : Bool)
  | io (address : BitVec 32)
  deriving DecidableEq, Repr

/-- `u32_set_range` and `u64_set_range`. -/
def setRange {w : ℕ} (num : BitVec w) (start stop : ℕ) (value : BitVec w) : BitVec w :=
  if start ≠ stop then
    let bitmask := ~~~(((BitVec.allOnes w <<< (w - stop)) >>> (w - stop)) >>> start <<< start)
    (num &&& bitmask) ||| (value <<< start)
  else num

/-- `u32_set_range`. -/
def u32SetRange (num : BitVec 32) (start stop : ℕ) (value : BitVec 32) : BitVec 32 :=
  setRange num start stop value

/-- `u64_set_range`. -/
def u64SetRange (num : BitVec 64) (start stop : ℕ) (value : BitVec 64) : BitVec 64 :=
  setRange num start stop value

section Fields

variable {w start stop i : ℕ} (num : BitVec w) {value : BitVec w}

/-- A field is the digits it stands for. -/
lemma toNat_bitRange (h : start < stop) (hw : stop ≤ w) :
    (bitRange num start stop).toNat = num.toNat / 2 ^ start % 2 ^ (stop - start) := by
  apply Nat.eq_of_testBit_eq
  intro i
  rw [Nat.testBit_mod_two_pow, Nat.testBit_div_two_pow, BitVec.testBit_toNat, BitVec.testBit_toNat,
    getLsbD_bitRange num h hw, Nat.add_comm i start]
  congr 1
  rw [decide_eq_decide]
  omega

/-- A value that fits in a field has no bits beyond it. -/
lemma getLsbD_of_fits {n : ℕ} (h : value.toNat < 2 ^ n) (hi : n ≤ i) : value.getLsbD i = false := by
  rw [← BitVec.testBit_toNat]
  exact Nat.testBit_lt_two_pow (h.trans_le (Nat.pow_le_pow_right two_pos hi))

/-- **The bits after a field is set.** -/
lemma getLsbD_setRange (h : start < stop) (hw : stop ≤ w)
    (hv : value.toNat < 2 ^ (stop - start)) :
    (setRange num start stop value).getLsbD i =
      if start ≤ i ∧ i < stop then value.getLsbD (i - start) else num.getLsbD i := by
  have hmask : (BitVec.allOnes w <<< (w - stop) >>> (w - stop) >>> start <<< start).getLsbD i
      = decide (start ≤ i ∧ i < stop) := by
    simp only [BitVec.getLsbD_shiftLeft, BitVec.getLsbD_ushiftRight, BitVec.getLsbD_allOnes]
    grind
  rw [setRange, if_pos h.ne]
  simp only [BitVec.getLsbD_or, BitVec.getLsbD_and, BitVec.getLsbD_not, hmask,
    BitVec.getLsbD_shiftLeft]
  have hfit := getLsbD_of_fits (i := i - start) hv
  have hout : w ≤ i → num.getLsbD i = false := BitVec.getLsbD_of_ge num i
  grind

/-- **The laws of a lens** for the fields of a word: a field that is set is read back, every field
apart from it is read as before, and to set it to what it holds changes nothing. -/
def Lens (set : BitVec w → ℕ → ℕ → BitVec w → BitVec w) : Prop :=
  ∀ num start stop, start < stop → stop ≤ w →
    (∀ value : BitVec w, value.toNat < 2 ^ (stop - start) →
      bitRange (set num start stop value) start stop = value
        ∧ ∀ start' stop', start' < stop' → stop' ≤ w → stop' ≤ start ∨ stop ≤ start' →
          bitRange (set num start stop value) start' stop' = bitRange num start' stop')
      ∧ set num start stop (bitRange num start stop) = num

lemma setRange_lens : Lens (setRange (w := w)) := by
  intro num start stop h hw
  refine ⟨fun value hv => ⟨?_, fun start' stop' h' hw' hdisj => ?_⟩, ?_⟩ <;>
    refine BitVec.eq_of_getLsbD_eq fun i hi => ?_
  · have hfit := getLsbD_of_fits (i := i) hv
    rw [getLsbD_bitRange _ h hw, getLsbD_setRange num h hw hv]
    grind
  · rw [getLsbD_bitRange _ h' hw', getLsbD_bitRange _ h' hw', getLsbD_setRange num h hw hv]
    grind
  · have hv : (bitRange num start stop).toNat < 2 ^ (stop - start) := by
      rw [toNat_bitRange num h hw]
      exact Nat.mod_lt _ (Nat.two_pow_pos _)
    rw [getLsbD_setRange num h hw hv, getLsbD_bitRange num h hw]
    grind

end Fields

/-- **Fields of words**: a range is read as the digits it stands for, and the setters of both
widths obey the laws of a lens. -/
theorem bitRange_lens :
    (∀ w ∈ [8, 16, 32, 64], ∀ (num : BitVec w) (start stop : ℕ), start < stop → stop ≤ w →
      (bitRange num start stop).toNat = num.toNat / 2 ^ start % 2 ^ (stop - start))
    ∧ Lens u32SetRange ∧ Lens u64SetRange :=
  ⟨fun _ _ num _ _ h hw => toNat_bitRange num h hw, setRange_lens, setRange_lens⟩

/-- The second byte of a register. -/
theorem bitRange_lens_byte :
    (bitRange 0x12345678#32 8 16).toNat = 0x56
      ∧ bitRange (u32SetRange 0x12345678#32 8 16 0xAB#32) 8 16 = 0xAB#32
      ∧ bitRange (u64SetRange 0x12345678#64 8 16 0xAB#64) 16 32 = 0x1234#64 := by
  obtain ⟨hget, hset32, hset64⟩ := bitRange_lens
  refine ⟨hget 32 (by decide) _ 8 16 (by decide) (by decide), ?_, ?_⟩
  · exact ((hset32 _ 8 16 (by decide) (by decide)).1 _ (by decide)).1
  · exact ((hset64 _ 8 16 (by decide) (by decide)).1 _ (by decide)).2 16 32 (by decide) (by decide)
      (.inr le_rfl)

/-- `trailing_zeros`. -/
def trailingZeros {w : ℕ} (num : BitVec w) : ℕ :=
  ((List.range w).find? fun i => num.getLsbD i).getD w

/-- `1 << n` in `w` bits, where the shift is taken modulo the width. -/
def oneShl (w n : ℕ) : BitVec w := 1#w <<< (n % w)

/-- `RawBaseAddressRegister`. -/
abbrev RawBaseAddressRegister : Type := BitVec 32

namespace RawBaseAddressRegister

def io (r : RawBaseAddressRegister) : Bool := bitAt r 0
def ioAddress (r : RawBaseAddressRegister) : BitVec 32 := bitRange r 2 32
def memType (r : RawBaseAddressRegister) : BitVec 8 := (bitRange r 1 3).setWidth 8
def memPrefetchable (r : RawBaseAddressRegister) : Bool := bitAt r 3
def memAddress (r : RawBaseAddressRegister) : BitVec 32 := bitRange r 4 32

end RawBaseAddressRegister

namespace Device

/-- The size of a 32-bit region, if it is implemented: ones are written, what could be written is
read back, and the address is written again. -/
def sizeMem32 (c : ConfigSpace) (d : Device) (offset : BitVec 8) (address : BitVec 32) :
    Option (BitVec 32) × ConfigSpace :=
  let c := d.write c offset 0xFFFFFFFF#32
  let readback := d.read c offset
  let c := d.write c offset address
  if readback = 0 then (none, c)
  else (some (oneShl 32 (trailingZeros (u32SetRange readback 0 4 0))), c)

/-- The size of a 64-bit region.  The literal that is shifted by the zeros of the low register is an
`i32`, and the cast extends its sign. -/
def sizeMem64 (c : ConfigSpace) (d : Device) (offset : BitVec 8) (address addressUpper : BitVec 32) :
    BitVec 64 × ConfigSpace :=
  let c := d.write c offset 0xFFFFFFFF#32
  let c := d.write c (offset + 4) 0xFFFFFFFF#32
  let readbackLow := d.read c offset
  let readbackHigh := d.read c (offset + 4)
  let c := d.write c offset address
  let c := d.write c (offset + 4) addressUpper
  let readbackLow := u32SetRange readbackLow 0 4 0
  if readbackLow ≠ 0 then ((oneShl 32 (trailingZeros readbackLow)).signExtend 64, c)
  else (oneShl 64 (trailingZeros readbackHigh + 32), c)

open RawBaseAddressRegister in
/-- `Device::bar`: what is returned, and the registers; or the panic. -/
def bar (c : ConfigSpace) (d : Device) (slot : ℕ) : Except String (Option Bar × ConfigSpace) :=
  if slot ≥ 6 then .ok (none, c)
  else if d.cls = .bridgeDevice ∧ (¬d.headerType.isPciBridge ∨ slot ≥ 2) then .ok (none, c)
  else
    let offset := BitVec.ofNat 8 (16 + slot * 4)
    let bar := d.read c offset
    if ¬io bar then
      let prefetchable := memPrefetchable bar
      let address := memAddress bar <<< 4
      if memType bar = 0 then
        match d.sizeMem32 c offset address with
        | (none, c) => .ok (none, c)
        | (some size, c) => .ok (some (.mem32 address size prefetchable), c)
      else if memType bar = 2 then
        if slot ≥ 5 then .ok (none, c)
        else
          let addressUpper := d.read c (offset + 4)
          let (size, c) := d.sizeMem64 c offset address addressUpper
          let address := u64SetRange (address.setWidth 64) 32 64 (addressUpper.setWidth 64)
          .ok (some (.mem64 address size prefetchable), c)
      else .error "unknown PCI BAR memory type"
    else .ok (some (.io (ioAddress bar)), c)

end Device

/-! ### The laws of the registers -/

section Registers

variable (c : ConfigSpace) (d : Device) {o o' : BitVec 8} (v v' : BitVec 32)

namespace Device

/-- The address word of a register of the device. -/
def address (o : BitVec 8) : BitVec 32 := configAddress d.bus d.device d.function o

/-- The bits of a register that can be written. -/
def writable (o : BitVec 8) : BitVec 32 := c.writable (d.address o)

end Device

lemma address_ne (h : o &&& 0xFC#8 ≠ o' &&& 0xFC#8) : d.address o ≠ d.address o' := by
  intro heq
  rw [← configAddress_setWidth d.bus d.device d.function o,
    ← configAddress_setWidth d.bus d.device d.function o'] at h
  exact h (congrArg (BitVec.setWidth 8) heq)

@[simp] lemma writable_write (o o' : BitVec 8) :
    d.writable (d.write c o v) o' = d.writable c o' := rfl

lemma read_write_self (o : BitVec 8) :
    d.read (d.write c o v) o = (d.read c o &&& ~~~d.writable c o) ||| (v &&& d.writable c o) :=
  Function.update_self ..

lemma read_write_of_ne (h : d.address o' ≠ d.address o) :
    d.read (d.write c o v) o' = d.read c o' :=
  Function.update_of_ne h ..

/-- The last write to a register counts. -/
lemma write_write (o : BitVec 8) : d.write (d.write c o v) o v' = d.write c o v' := by
  have hbits (r w : BitVec 32) : (((r &&& ~~~w) ||| (v &&& w)) &&& ~~~w) ||| (v' &&& w) =
      (r &&& ~~~w) ||| (v' &&& w) := by
    ext i hi
    simp only [BitVec.getElem_or, BitVec.getElem_and, BitVec.getElem_not]
    cases w[i] <;> simp
  simp only [Device.write, Pci.write, Function.update_self, Function.update_idem, hbits]

lemma write_comm (h : d.address o ≠ d.address o') :
    d.write (d.write c o v) o' v' = d.write (d.write c o' v') o v := by
  rw [Device.address, Device.address] at h
  simp only [Device.write, Pci.write, Function.update_of_ne h, Function.update_of_ne h.symm]
  rw [Function.update_comm h]

/-- To write what is in the register does nothing. -/
lemma write_eq_self (o : BitVec 8) (h : v &&& d.writable c o = d.read c o &&& d.writable c o) :
    d.write c o v = c := by
  have hbits : (d.read c o &&& ~~~d.writable c o) ||| (v &&& d.writable c o) = d.read c o := by
    rw [h]
    ext i hi
    simp only [BitVec.getElem_or, BitVec.getElem_and, BitVec.getElem_not]
    cases (d.writable c o)[i] <;> simp
  change
    { c with
      regs := Function.update c.regs (d.address o)
        ((d.read c o &&& ~~~d.writable c o) ||| (v &&& d.writable c o)) } = c
  rw [hbits]
  exact congrArg (fun regs => { c with regs := regs }) (Function.update_eq_self ..)

end Registers

/-! ### Regions -/

/-- A region of a device: its size as a power of two, and its base. -/
inductive Region where
  | mem32 (k : ℕ) (base : BitVec 32) (prefetchable : Bool)
  | mem64 (k : ℕ) (base : BitVec 64) (prefetchable : Bool)
  | io (k : ℕ) (base : BitVec 32)

/-- The flags of a memory region. -/
def memFlags (type : BitVec 32) (prefetchable : Bool) : BitVec 32 :=
  type <<< 1 ||| if prefetchable then 0x8#32 else 0

/-- The register of a slot. -/
def barOffset (slot : ℕ) : BitVec 8 := BitVec.ofNat 8 (16 + slot * 4)

namespace Region

/-- **The region has this slot**: the base is a multiple of the size, the bits of its address from
the size on can be written, and no other bits. -/
def InSlot (c : ConfigSpace) (d : Device) (slot : ℕ) : Region → Prop
  | mem32 k base prefetchable =>
    4 ≤ k ∧ k < 32 ∧ 2 ^ k ∣ base.toNat ∧ slot < 6 ∧
    d.read c (barOffset slot) = base ||| memFlags 0 prefetchable ∧
    d.writable c (barOffset slot) = BitVec.allOnes 32 <<< k
  | mem64 k base prefetchable =>
    4 ≤ k ∧ k < 64 ∧ 2 ^ k ∣ base.toNat ∧ slot ≤ 4 ∧
    d.read c (barOffset slot) = base.setWidth 32 ||| memFlags 2 prefetchable ∧
    d.read c (barOffset slot + 4) = (base >>> 32).setWidth 32 ∧
    d.writable c (barOffset slot) = (BitVec.allOnes 64 <<< k).setWidth 32 ∧
    d.writable c (barOffset slot + 4) = ((BitVec.allOnes 64 <<< k) >>> 32).setWidth 32
  | io k base =>
    2 ≤ k ∧ k < 32 ∧ 2 ^ k ∣ base.toNat ∧ slot < 6 ∧
    d.read c (barOffset slot) = base ||| 0x1#32 ∧
    d.writable c (barOffset slot) = BitVec.allOnes 32 <<< k

/-- What is to be said about a region. -/
def bar : Region → Bar
  | mem32 k base prefetchable => .mem32 base (BitVec.ofNat 32 (2 ^ k)) prefetchable
  | mem64 k base prefetchable => .mem64 base (BitVec.ofNat 64 (2 ^ k)) prefetchable
  | io _ base => .io base

end Region

/-! ### Memory registers -/

variable {i k : ℕ} {type base : BitVec 32}

/-- The low register of a memory region: the address in the bits that can be written, and the flags
below. -/
structure MemRegister (r w b f : BitVec 32) : Prop where
  eq : r = b ||| f
  flags : ∀ i, 4 ≤ i → f.getLsbD i = false
  low : ∀ i < 4, w.getLsbD i = false
  base : ∀ i, w.getLsbD i = false → b.getLsbD i = false

namespace MemRegister

variable {r w b f : BitVec 32}

lemma getLsbD_of_lt (h : MemRegister r w b f) (hi : i < 4) : r.getLsbD i = f.getLsbD i := by
  rw [h.eq, BitVec.getLsbD_or, h.base i (h.low i hi), Bool.false_or]

lemma getLsbD_of_le (h : MemRegister r w b f) (hi : 4 ≤ i) : r.getLsbD i = b.getLsbD i := by
  rw [h.eq, BitVec.getLsbD_or, h.flags i hi, Bool.or_false]

lemma memAddress_shiftLeft (h : MemRegister r w b f) :
    RawBaseAddressRegister.memAddress r <<< 4 = b := by
  apply BitVec.eq_of_getLsbD_eq
  intro i hi
  rw [BitVec.getLsbD_shiftLeft, RawBaseAddressRegister.memAddress,
    getLsbD_bitRange _ (by decide) le_rfl]
  by_cases h4 : i < 4
  · simp [h4, h.base i (h.low i h4)]
  · rw [show 4 + (i - 4) = i by omega, h.getLsbD_of_le (by omega)]
    simp [hi, h4]

lemma memType_eq (h : MemRegister r w b f) :
    RawBaseAddressRegister.memType r = RawBaseAddressRegister.memType f := by
  have hbits : bitRange r 1 3 = bitRange f 1 3 := by
    apply BitVec.eq_of_getLsbD_eq
    intro i hi
    rw [getLsbD_bitRange _ (by decide) (by decide), getLsbD_bitRange _ (by decide) (by decide)]
    by_cases h3 : 1 + i < 3
    · rw [h.getLsbD_of_lt (by omega)]
    · simp [h3]
  rw [RawBaseAddressRegister.memType, hbits]
  rfl

lemma bitAt_eq (h : MemRegister r w b f) (hi : i < 4) : bitAt r i = bitAt f i := by
  rw [Pci.bitAt_eq _ (by omega), Pci.bitAt_eq _ (by omega), h.getLsbD_of_lt hi]

/-- What is read back without the flags: the bits that can be written. -/
lemma setRange_readback (h : MemRegister r w b f) :
    u32SetRange ((r &&& ~~~w) ||| (0xFFFFFFFF#32 &&& w)) 0 4 0 = w := by
  have hones : 0xFFFFFFFF#32 = BitVec.allOnes 32 := rfl
  apply BitVec.eq_of_getLsbD_eq
  intro i hi
  rw [u32SetRange, getLsbD_setRange _ (by decide) (by decide) (by decide), hones,
    BitVec.allOnes_and, BitVec.getLsbD_or, BitVec.getLsbD_and, BitVec.getLsbD_not]
  by_cases h4 : i < 4
  · simp [h4, h.low i h4]
  · rw [h.getLsbD_of_le (by omega)]
    cases hw : w.getLsbD i with
    | true => simp [h4]
    | false => simp [h4, h.base i hw]

/-- The address is what was in the register before. -/
lemma restores (h : MemRegister r w b f) : b &&& w = r &&& w := by
  apply BitVec.eq_of_getLsbD_eq
  intro i hi
  rw [BitVec.getLsbD_and, BitVec.getLsbD_and]
  by_cases h4 : 4 ≤ i
  · rw [h.getLsbD_of_le h4]
  · rw [h.low i (by omega), Bool.and_false, Bool.and_false]

end MemRegister

/-! ### Sizes -/

/-- The first bit that is set. -/
lemma trailingZeros_eq {w : ℕ} {num : BitVec w} (hk : k < w) (hset : num.getLsbD k = true)
    (hclear : ∀ i < k, num.getLsbD i = false) : trailingZeros num = k := by
  have hfind : (List.range w).find? (fun i => num.getLsbD i) = some k := by
    rw [List.find?_range_eq_some]
    refine ⟨hset, List.mem_range.mpr hk, fun j hj => ?_⟩
    rw [hclear j hj]
    rfl
  rw [trailingZeros, hfind, Option.getD_some]

lemma oneShl_eq {w : ℕ} (hk : k < w) : oneShl w k = BitVec.ofNat w (2 ^ k) := by
  rw [oneShl, Nat.mod_eq_of_lt hk, ← BitVec.twoPow_eq]
  apply BitVec.eq_of_toNat_eq
  rw [BitVec.toNat_twoPow, BitVec.toNat_ofNat]

/-- The bits below the size are clear in a multiple of it. -/
lemma getLsbD_of_dvd {w : ℕ} {base : BitVec w} (h : 2 ^ k ∣ base.toNat) (hi : i < k) :
    base.getLsbD i = false := by
  obtain ⟨m, hm⟩ := h
  rw [BitVec.getLsbD, hm, Nat.testBit_two_pow_mul]
  simp [hi]

lemma getLsbD_sizeMask (w k i : ℕ) :
    (BitVec.allOnes w <<< k).getLsbD i = (decide (i < w) && decide (k ≤ i)) := by
  by_cases hi : i < w <;> by_cases hk : i < k <;> simp [hi, hk]
  all_goals omega

/-- A shifted `i32` is its sign in the bit `31`. -/
lemma signExtend_oneShl_iff (hk : k < 32) :
    (oneShl 32 k).signExtend 64 = BitVec.ofNat 64 (2 ^ k) ↔ k ≠ 31 := by
  have hall : ∀ k < 32, (oneShl 32 k).signExtend 64 = BitVec.ofNat 64 (2 ^ k) ↔ k ≠ 31 := by
    decide
  exact hall k hk

lemma MemRegister.of_bits {w b : BitVec 32} (prefetchable : Bool) (htype : type = 0 ∨ type = 2)
    (hlow : ∀ i < 4, w.getLsbD i = false) (hbase : ∀ i, w.getLsbD i = false → b.getLsbD i = false) :
    MemRegister (b ||| memFlags type prefetchable) w b (memFlags type prefetchable) := by
  refine ⟨rfl, fun i hi => ?_, hlow, hbase⟩
  have hlt : (memFlags type prefetchable).toNat < 2 ^ 4 := by
    rcases htype with rfl | rfl <;> cases prefetchable <;> decide
  exact Nat.testBit_lt_two_pow (hlt.trans_le (Nat.pow_le_pow_right (by decide) hi))

/-! ### The function, kind by kind -/

section Sizes

variable {c : ConfigSpace} {d : Device} {o : BitVec 8} {b f : BitVec 32} {k : ℕ}

/-- A 32-bit region has the size of its mask, and its register is restored. -/
lemma sizeMem32_eq (h : MemRegister (d.read c o) (d.writable c o) b f) (hk : k < 32)
    (hw : d.writable c o = BitVec.allOnes 32 <<< k) :
    d.sizeMem32 c o b = (some (BitVec.ofNat 32 (2 ^ k)), c) := by
  have hset := h.setRange_readback
  rw [← read_write_self] at hset
  have hne : d.read (d.write c o 0xFFFFFFFF#32) o ≠ 0 := by
    intro hzero
    rw [hzero, show u32SetRange 0 0 4 0 = 0#32 by decide, hw] at hset
    have hbit := congrArg (fun x => x.getLsbD k) hset
    simp [hk] at hbit
  have hzeros : trailingZeros (BitVec.allOnes 32 <<< k) = k := by
    refine trailingZeros_eq hk ?_ fun i hi => ?_
    · simp [hk]
    · simp [hi]
  rw [Device.sizeMem32]
  simp only [if_neg hne, hset, hw, hzeros, oneShl_eq hk]
  rw [write_write, write_eq_self _ _ _ _ h.restores]

lemma getLsbD_lowMask (k i : ℕ) :
    ((BitVec.allOnes 64 <<< k).setWidth 32).getLsbD i = (decide (i < 32) && decide (k ≤ i)) := by
  rw [BitVec.getLsbD_setWidth, getLsbD_sizeMask]
  by_cases hi : i < 32
  · simp [hi, show i < 64 by omega]
  · simp [hi]

lemma getLsbD_highMask (k i : ℕ) :
    (((BitVec.allOnes 64 <<< k) >>> 32).setWidth 32).getLsbD i =
      (decide (i < 32) && decide (k ≤ 32 + i)) := by
  rw [BitVec.getLsbD_setWidth, BitVec.getLsbD_ushiftRight, getLsbD_sizeMask]
  by_cases hi : i < 32
  · simp [hi, show 32 + i < 64 by omega]
  · simp [hi]

/-- The registers of a 64-bit region are restored, and its size is that of the masks, but for the
sign of the low one. -/
lemma sizeMem64_eq (h : MemRegister (d.read c o) (d.writable c o) b f) (hk : k < 64)
    (hne : d.address o ≠ d.address (o + 4))
    (hw : d.writable c o = (BitVec.allOnes 64 <<< k).setWidth 32)
    (hw' : d.writable c (o + 4) = ((BitVec.allOnes 64 <<< k) >>> 32).setWidth 32)
    (hupper : ∀ i, 32 + i < k → (d.read c (o + 4)).getLsbD i = false) :
    d.sizeMem64 c o b (d.read c (o + 4)) =
      (if k < 32 then (oneShl 32 k).signExtend 64 else BitVec.ofNat 64 (2 ^ k), c) := by
  have hlow : d.read (d.write (d.write c o 0xFFFFFFFF#32) (o + 4) 0xFFFFFFFF#32) o =
      (d.read c o &&& ~~~d.writable c o) ||| (0xFFFFFFFF#32 &&& d.writable c o) := by
    rw [read_write_of_ne _ _ _ hne, read_write_self]
  have hhigh : d.read (d.write (d.write c o 0xFFFFFFFF#32) (o + 4) 0xFFFFFFFF#32) (o + 4) =
      d.writable c (o + 4) := by
    rw [read_write_self, read_write_of_ne _ _ _ hne.symm, writable_write]
    apply BitVec.eq_of_getLsbD_eq
    intro i hi
    rw [show 0xFFFFFFFF#32 = BitVec.allOnes 32 from rfl, BitVec.allOnes_and, BitVec.getLsbD_or,
      BitVec.getLsbD_and, hw', getLsbD_highMask]
    by_cases hki : k ≤ 32 + i
    · simp [hi, hki]
    · rw [hupper i (by omega)]
      simp [hki]
  have hrestored : d.write (d.write (d.write (d.write c o 0xFFFFFFFF#32) (o + 4) 0xFFFFFFFF#32)
      o b) (o + 4) (d.read c (o + 4)) = c := by
    rw [write_comm _ _ _ _ hne.symm, write_write, write_write, write_eq_self _ _ _ _ h.restores,
      write_eq_self _ _ _ _ rfl]
  rw [Device.sizeMem64]
  simp only [hlow, h.setRange_readback, hhigh, hrestored]
  by_cases hlt : k < 32
  · have hne0 : d.writable c o ≠ 0 := by
      intro hzero
      have hbit := congrArg (fun x => x.getLsbD k) (hw.symm.trans hzero)
      simp [hlt] at hbit
    have hzeros : trailingZeros (d.writable c o) = k := by
      rw [hw]
      refine trailingZeros_eq hlt ?_ fun i hi => ?_
      · simp [hlt]
      · simp [hi]
    rw [if_pos hne0, if_pos hlt, hzeros]
  · have heq0 : d.writable c o = 0 := by
      rw [hw]
      apply BitVec.eq_of_getLsbD_eq
      intro i hi
      rw [getLsbD_lowMask]
      simp
      omega
    have hzeros : trailingZeros (d.writable c (o + 4)) = k - 32 := by
      rw [hw']
      refine trailingZeros_eq (by omega) ?_ fun i hi => ?_
      · rw [getLsbD_highMask]
        simp
        omega
      · rw [getLsbD_highMask]
        simp
        omega
    rw [if_neg (not_not.mpr heq0), if_neg hlt, hzeros, show k - 32 + 32 = k by omega, oneShl_eq hk]

/-- The address is put together from its halves. -/
lemma u64SetRange_halves (base : BitVec 64) :
    u64SetRange ((base.setWidth 32).setWidth 64) 32 64 (((base >>> 32).setWidth 32).setWidth 64) =
      base := by
  have hfits : (((base >>> 32).setWidth 32).setWidth 64).toNat < 2 ^ (64 - 32) := by
    rw [BitVec.toNat_setWidth_of_le (by decide)]
    exact BitVec.isLt _
  apply BitVec.eq_of_getLsbD_eq
  intro i hi
  rw [u64SetRange, getLsbD_setRange _ (by decide) (by decide) hfits]
  simp only [BitVec.getLsbD_setWidth, BitVec.getLsbD_ushiftRight]
  by_cases hlt : i < 32
  · simp [hi, hlt]
  · simp [hi, show 32 ≤ i by omega, show 32 + (i - 32) = i by omega, show i - 32 < 64 by omega,
      show i - 32 < 32 by omega]

end Sizes

namespace Region

variable {c : ConfigSpace} {d : Device} {slot k : ℕ} {prefetchable : Bool}

/-- What is read off the flags of a memory region. -/
lemma flags_eq {r w b : BitVec 32} (h : MemRegister r w b (memFlags type prefetchable))
    (htype : type = 0 ∨ type = 2) :
    RawBaseAddressRegister.io r = false ∧
      RawBaseAddressRegister.memType r = type.setWidth 8 ∧
      RawBaseAddressRegister.memPrefetchable r = prefetchable := by
  rw [RawBaseAddressRegister.io, h.bitAt_eq (by decide), h.memType_eq,
    RawBaseAddressRegister.memPrefetchable, h.bitAt_eq (by decide)]
  rcases htype with rfl | rfl <;> cases prefetchable <;> decide

lemma bar_mem32 (hclass : d.cls ≠ .bridgeDevice) (h : (mem32 k base prefetchable).InSlot c d slot) :
    d.bar c slot = .ok (some (mem32 k base prefetchable).bar, c) := by
  obtain ⟨hk4, hk, hbase, hslot, hread, hwritable⟩ := h
  have hreg : MemRegister (d.read c (barOffset slot)) (d.writable c (barOffset slot)) base
      (memFlags 0 prefetchable) := by
    rw [hread]
    refine .of_bits _ (.inl rfl) (fun i hi => ?_) fun i hi => ?_
    · simp [hwritable]
      omega
    · rw [hwritable, getLsbD_sizeMask] at hi
      by_cases hik : i < k
      · exact getLsbD_of_dvd hbase hik
      · exact BitVec.getLsbD_of_ge _ _ (by simp at hi; omega)
  obtain ⟨hio, htype, hpre⟩ := flags_eq hreg (.inl rfl)
  rw [barOffset] at *
  simp only [Device.bar, ge_iff_le, if_neg (show ¬6 ≤ slot by omega), hclass, false_and, if_false,
    hio, htype, hpre, hreg.memAddress_shiftLeft, sizeMem32_eq hreg hk hwritable]
  rfl

lemma bar_mem64 {base : BitVec 64} (hclass : d.cls ≠ .bridgeDevice)
    (h : (mem64 k base prefetchable).InSlot c d slot) :
    d.bar c slot = .ok (some (.mem64 base
      (if k < 32 then (oneShl 32 k).signExtend 64 else BitVec.ofNat 64 (2 ^ k)) prefetchable), c) := by
  obtain ⟨hk4, hk, hbase, hslot, hread, hupper, hwritable, hwritable'⟩ := h
  have hreg : MemRegister (d.read c (barOffset slot)) (d.writable c (barOffset slot))
      (base.setWidth 32) (memFlags 2 prefetchable) := by
    rw [hread]
    refine .of_bits _ (.inr rfl) (fun i hi => ?_) fun i hi => ?_
    · simp [hwritable]
      omega
    · rw [hwritable, getLsbD_lowMask] at hi
      rw [BitVec.getLsbD_setWidth]
      by_cases hik : i < k
      · rw [getLsbD_of_dvd hbase hik, Bool.and_false]
      · simp at hi
        simp [show ¬i < 32 by omega]
  have hne : d.address (barOffset slot) ≠ d.address (barOffset slot + 4) := by
    have hall : ∀ slot < 5, barOffset slot &&& 0xFC#8 ≠ barOffset slot + 4 &&& 0xFC#8 := by decide
    exact address_ne d (hall slot (by omega))
  have hbits : ∀ i, 32 + i < k → (d.read c (barOffset slot + 4)).getLsbD i = false := by
    intro i hi
    rw [hupper, BitVec.getLsbD_setWidth, BitVec.getLsbD_ushiftRight, getLsbD_of_dvd hbase hi,
      Bool.and_false]
  obtain ⟨hio, htype, hpre⟩ := flags_eq hreg (.inr rfl)
  have hsize := sizeMem64_eq hreg hk hne hwritable hwritable' hbits
  have haddress := u64SetRange_halves base
  rw [← hupper] at haddress
  rw [barOffset] at *
  simp only [Device.bar, ge_iff_le, if_neg (show ¬6 ≤ slot by omega), hclass, false_and, if_false,
    hio, htype, hpre, hreg.memAddress_shiftLeft, hsize, haddress,
    if_neg (show ¬5 ≤ slot by omega)]
  rfl

/-- An I/O region is described by its base without the two low bits, and not shifted back. -/
lemma bar_io (hclass : d.cls ≠ .bridgeDevice) (h : (io k base).InSlot c d slot) :
    d.bar c slot = .ok (some (.io (base >>> 2)), c) := by
  obtain ⟨hk2, hk, hbase, hslot, hread, -⟩ := h
  have hio : RawBaseAddressRegister.io (d.read c (barOffset slot)) = true := by
    rw [RawBaseAddressRegister.io, bitAt_eq _ (by decide), hread, BitVec.getLsbD_or]
    simp
  have haddress : RawBaseAddressRegister.ioAddress (d.read c (barOffset slot)) = base >>> 2 := by
    apply BitVec.eq_of_getLsbD_eq
    intro i hi
    have hone : ∀ i < 32, (1#32).getLsbD (2 + i) = false := by decide
    rw [RawBaseAddressRegister.ioAddress, getLsbD_bitRange _ (by decide) le_rfl, hread,
      BitVec.getLsbD_or, hone i hi, Bool.or_false, BitVec.getLsbD_ushiftRight]
    by_cases h30 : 2 + i < 32
    · simp [h30]
    · rw [BitVec.getLsbD_of_ge base _ (by omega), Bool.and_false]
  rw [barOffset] at *
  simp only [Device.bar, ge_iff_le, if_neg (show ¬6 ≤ slot by omega), hclass, false_and, if_false,
    hio, haddress]
  rfl

/-- Which regions are described as they are. -/
def Described : Region → Prop
  | mem32 .. => True
  | mem64 k .. => k ≠ 31
  | io _ base => base = 0

end Region

/-- **When a region is described as it is**, and its registers are left as they were: a 64-bit
region has not the size `2 ^ 31`, and an I/O region has the base `0`. -/
theorem bar_iff (c : ConfigSpace) (d : Device) (slot : ℕ) (region : Region)
    (hclass : d.cls ≠ .bridgeDevice) (h : region.InSlot c d slot) :
    d.bar c slot = .ok (some region.bar, c) ↔ region.Described := by
  cases region with
  | mem32 k base prefetchable => exact iff_of_true (Region.bar_mem32 hclass h) trivial
  | mem64 k base prefetchable =>
    rw [Region.bar_mem64 hclass h, Region.bar, Region.Described]
    simp only [Except.ok.injEq, Prod.mk.injEq, Option.some.injEq, Bar.mem64.injEq, true_and,
      and_true]
    by_cases hk : k < 32
    · rw [if_pos hk, signExtend_oneShl_iff hk]
    · rw [if_neg hk]
      exact iff_of_true rfl (by omega)
  | io k base =>
    rw [Region.bar_io hclass h, Region.bar, Region.Described]
    simp only [Except.ok.injEq, Prod.mk.injEq, Option.some.injEq, Bar.io.injEq, and_true]
    constructor
    · intro heq
      have hnat := congrArg BitVec.toNat heq
      rw [BitVec.toNat_ushiftRight, Nat.shiftRight_eq_div_pow] at hnat
      exact BitVec.eq_of_toNat_eq (by simp; omega)
    · rintro rfl
      rfl

/-- A network controller whose first two base address registers have these contents and masks. -/
def networkSpace (low lowMask high highMask : BitVec 32) : ConfigSpace where
  regs a := if a.setWidth 8 = 0x10#8 then low else if a.setWidth 8 = 0x14#8 then high else 0
  writable a :=
    if a.setWidth 8 = 0x10#8 then lowMask else if a.setWidth 8 = 0x14#8 then highMask else 0

def network : Device := ⟨0, 3, 0, 0x100E, 0x8086, .networkController, 0, 0, 0, 0, 0⟩

/-- 128 KiB at `0xFEBC0000`. -/
theorem bar_iff_mem32 :
    network.bar (networkSpace 0xFEBC0000 0xFFFE0000 0 0) 0 =
      .ok (some (.mem32 0xFEBC0000 0x20000 false), networkSpace 0xFEBC0000 0xFFFE0000 0 0) :=
  (bar_iff (networkSpace 0xFEBC0000 0xFFFE0000 0 0) network 0 (.mem32 17 0xFEBC0000 false)
    (by decide) ⟨by decide, by decide, by decide, by decide, by decide, by decide⟩).mpr trivial

/-- The I/O ports from `0xC000` on are said to be at `0x3000`, and 2 GiB of memory to be
`2 ^ 64 - 2 ^ 31` bytes. -/
theorem bar_misdescribes :
    (Region.io 6 0xC000).InSlot (networkSpace 0xC001 0xFFFFFFC0 0 0) network 0 ∧
      network.bar (networkSpace 0xC001 0xFFFFFFC0 0 0) 0 =
        .ok (some (.io 0x3000), networkSpace 0xC001 0xFFFFFFC0 0 0) ∧
      (Region.mem64 31 0x100000000 true).InSlot
        (networkSpace 0xC 0x80000000 0x1 0xFFFFFFFF) network 0 ∧
      network.bar (networkSpace 0xC 0x80000000 0x1 0xFFFFFFFF) 0 =
        .ok (some (.mem64 0x100000000 0xFFFFFFFF80000000 true),
          networkSpace 0xC 0x80000000 0x1 0xFFFFFFFF) := by
  have hio : (Region.io 6 0xC000).InSlot (networkSpace 0xC001 0xFFFFFFC0 0 0) network 0 :=
    ⟨by decide, by decide, by decide, by decide, by decide, by decide⟩
  have hmem : (Region.mem64 31 0x100000000 true).InSlot
      (networkSpace 0xC 0x80000000 0x1 0xFFFFFFFF) network 0 :=
    ⟨by decide, by decide, by decide, by decide, by decide, by decide, by decide, by decide⟩
  refine ⟨hio, ?_, hmem, ?_⟩
  · rw [Region.bar_io (by decide) hio]
    rfl
  · rw [Region.bar_mem64 (by decide) hmem]
    rfl

end Rhubarb.Pci
