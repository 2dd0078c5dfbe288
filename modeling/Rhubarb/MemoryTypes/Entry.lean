import Rhubarb.MemoryTypes.Address

/-!
`memory-types`: page-table flags and entries (the first half of `paging.rs`).

An entry is one 64-bit word; the bits of `addressMask` hold an address and the other bits the
flags.  `PageTableFlags` carries the proof that it has no address bit, so that `addr | flags`
never mixes the two, and the lemmas of this file read both halves back: `addr_setFlags`,
`addr_ofFrame` and `flags_ofFrame` are all that the page-table walk needs to know about bits.
-/

namespace Rhubarb

/-- `PageTableEntry::ADDRESS_MASK`. -/
def addressMask : BitVec 64 := 0x000FFFFFFFFFF000

/-- A set of page-table flags: a word with no address bit. -/
@[ext]
structure PageTableFlags where
  bits : BitVec 64
  noAddr : bits &&& addressMask = 0

namespace PageTableFlags

instance : DecidableEq PageTableFlags := fun a b =>
  decidable_of_iff (a.bits = b.bits) (PageTableFlags.ext_iff).symm

def present : PageTableFlags := ⟨1 <<< 0, by decide⟩

def writable : PageTableFlags := ⟨1 <<< 1, by decide⟩

def userAccessible : PageTableFlags := ⟨1 <<< 2, by decide⟩

def hugePage : PageTableFlags := ⟨1 <<< 7, by decide⟩

def noExecute : PageTableFlags := ⟨1 <<< 63, by decide⟩

def none : PageTableFlags := ⟨0, by decide⟩

/-- `BitOr`. -/
def or (a b : PageTableFlags) : PageTableFlags :=
  ⟨a.bits ||| b.bits, by
    rw [BitVec.and_or_distrib_right, a.noAddr, b.noAddr]
    rfl⟩

/-- `BitAnd`. -/
def and (a b : PageTableFlags) : PageTableFlags :=
  ⟨a.bits &&& b.bits, by
    rw [BitVec.and_assoc, b.noAddr]
    simp⟩

/-- Whether all the flags of `b` are in `a`. -/
def get (a b : PageTableFlags) : Bool := a.bits &&& b.bits = b.bits

end PageTableFlags

/-- An entry of a page table. -/
@[ext]
structure PageTableEntry where
  value : BitVec 64
  deriving DecidableEq, Repr

/-- `EntryFrameError`. -/
inductive EntryFrameError where
  | notPresent
  | hugePage
  deriving DecidableEq, Repr

namespace PageTableEntry

/-- `PageTableEntry::UNUSED`. -/
def unused : PageTableEntry := ⟨0⟩

def isUnused (e : PageTableEntry) : Bool := e.value = 0

/-- The flags of this entry. -/
def flags (e : PageTableEntry) : PageTableFlags :=
  ⟨e.value &&& ~~~addressMask, by
    rw [BitVec.and_assoc, show ~~~addressMask &&& addressMask = 0 from by decide]
    simp⟩

def isPresent (e : PageTableEntry) : Bool := e.flags.get .present

def isHugePage (e : PageTableEntry) : Bool := e.flags.get .hugePage

/-- The address mapped by this entry, might be zero. -/
def addr (e : PageTableEntry) : Address := Address.new (e.value &&& addressMask).toNat

/-- The frame mapped by this entry. -/
def frame (e : PageTableEntry) : Except Panic (Except EntryFrameError Frame) :=
  if e.isPresent = false then .ok (.error .notPresent)
  else if e.isHugePage then .ok (.error .hugePage)
  else (Frame.containingAddr e.addr).map .ok

/-- The entry `set_addr` and `set_frame` write once their assertions hold. -/
def ofAddr (addr : Address) (flags : PageTableFlags) : PageTableEntry :=
  ⟨BitVec.ofNat 64 addr.toRaw ||| flags.bits⟩

/-- Set this entry's address with the given flags. -/
def setAddr (addr : Address) (flags : PageTableFlags) : Except Panic PageTableEntry :=
  if addr.isPageAligned ∧ addr.isPhysical then .ok (ofAddr addr flags)
  else .error .entryAddr

/-- Set this entry's frame with the given flags. -/
def setFrame (frame : Frame) (flags : PageTableFlags) : Except Panic PageTableEntry :=
  if flags.and .hugePage ≠ .hugePage then setAddr frame.baseAddr flags
  else .error .entryHuge

/-- Set this entry's flags. -/
def setFlags (e : PageTableEntry) (flags : PageTableFlags) : PageTableEntry :=
  ofAddr e.addr flags

end PageTableEntry

/-! ### The address half -/

/-- Masking keeps the bits 12 to 51. -/
lemma and_addressMask_toNat (b : BitVec 64) :
    (b &&& addressMask).toNat = b.toNat % 2 ^ 52 / 2 ^ 12 * 2 ^ 12 := by
  rw [BitVec.toNat_and, show addressMask.toNat = (2 ^ 40 - 1) * 2 ^ 12 from by decide]
  apply Nat.eq_of_testBit_eq
  intro i
  rw [Nat.testBit_and, Nat.testBit_mul_two_pow, Nat.testBit_two_pow_sub_one,
    Nat.testBit_mul_two_pow, Nat.testBit_div_two_pow, Nat.testBit_mod_two_pow]
  by_cases h12 : 12 ≤ i
  · have h40 : decide (i - 12 < 40) = decide (i < 52) := by
      rw [decide_eq_decide]
      omega
    rw [show i - 12 + 12 = i from by omega, h40]
    simp [h12, Bool.and_comm]
  · simp [h12]

namespace PageTableEntry

variable {e : PageTableEntry} {fl : PageTableFlags}

/-- The address half of a word put together from an address and flags. -/
lemma ofAddr_and_addressMask (a : Address) (fl : PageTableFlags) :
    (ofAddr a fl).value &&& addressMask = BitVec.ofNat 64 a.toRaw &&& addressMask := by
  rw [ofAddr, BitVec.and_or_distrib_right, fl.noAddr]
  simp

/-- The address of an entry, in arithmetic. -/
lemma addr_toRaw (e : PageTableEntry) :
    e.addr.toRaw = (Address.new (e.value.toNat % 2 ^ 52 / 2 ^ 12 * 2 ^ 12)).toRaw := by
  rw [addr, and_addressMask_toNat]

/-- The address of an entry is page-aligned and below `2^64`. -/
lemma addr_toRaw_bounds (e : PageTableEntry) :
    e.addr.toRaw % 4096 = 0 ∧ e.addr.toRaw < 2 ^ 64 := by
  rw [addr_toRaw, Address.new_toRaw]
  split <;> omega

lemma addr_ofAddr_toRaw (a : Address) (fl : PageTableFlags) (hal : a.toRaw % 4096 = 0) :
    (ofAddr a fl).addr.toRaw = (Address.new a.toRaw).toRaw := by
  have hval : ((ofAddr a fl).value &&& addressMask).toNat = a.toRaw % 2 ^ 52 / 2 ^ 12 * 2 ^ 12 := by
    rw [ofAddr_and_addressMask, and_addressMask_toNat, BitVec.toNat_ofNat]
    omega
  rw [addr, hval, Address.new_toRaw, Address.new_toRaw]
  -- the sign extension reads the low 48 bits only
  have hmod : a.toRaw % 2 ^ 52 / 2 ^ 12 * 2 ^ 12 % 2 ^ 48 = a.toRaw % 2 ^ 48 := by omega
  rw [hmod]

/-- **Changing the flags keeps the address.** -/
lemma addr_setFlags (e : PageTableEntry) (fl : PageTableFlags) :
    (e.setFlags fl).addr = e.addr := by
  have hb := e.addr_toRaw_bounds
  have hraw : (e.setFlags fl).addr.toRaw = e.addr.toRaw := by
    rw [setFlags, addr_ofAddr_toRaw _ _ hb.1, addr_toRaw, Address.new_toRaw, Address.new_toRaw]
    split <;> split <;> omega
  cases hx : (e.setFlags fl).addr
  cases hy : e.addr
  rw [hx, hy] at hraw
  exact congrArg Address.mk hraw

end PageTableEntry

/-! ### The flag half -/

variable {a : Address} {e : PageTableEntry} {f : Frame} {fl : PageTableFlags}

/-- Testing for a single flag reads its bit. -/
lemma get_single_bit (b : BitVec 64) {n : ℕ} (hn : n < 64) :
    decide (b &&& (1#64 <<< n) = 1#64 <<< n) = b.getLsbD n := by
  rw [← BitVec.twoPow_eq, BitVec.and_twoPow]
  cases h : b.getLsbD n with
  | true => simp
  | false =>
    have hne : 0#64 ≠ BitVec.twoPow 64 n := by
      intro h0
      have := congrArg (fun x : BitVec 64 => x.getLsbD n) h0
      simp [hn] at this
    simp [hne]

namespace PageTableFlags

lemma get_present (fl : PageTableFlags) : fl.get .present = fl.bits.getLsbD 0 :=
  get_single_bit fl.bits (by norm_num)

lemma get_writable (fl : PageTableFlags) : fl.get .writable = fl.bits.getLsbD 1 :=
  get_single_bit fl.bits (by norm_num)

lemma get_userAccessible (fl : PageTableFlags) : fl.get .userAccessible = fl.bits.getLsbD 2 :=
  get_single_bit fl.bits (by norm_num)

lemma get_hugePage (fl : PageTableFlags) : fl.get .hugePage = fl.bits.getLsbD 7 :=
  get_single_bit fl.bits (by norm_num)

lemma get_present_or (a b : PageTableFlags) :
    (a.or b).get .present = (a.get .present || b.get .present) := by
  rw [get_present, get_present, get_present]
  exact BitVec.getLsbD_or

lemma get_userAccessible_or (a b : PageTableFlags) :
    (a.or b).get .userAccessible = (a.get .userAccessible || b.get .userAccessible) := by
  rw [get_userAccessible, get_userAccessible, get_userAccessible]
  exact BitVec.getLsbD_or

/-- The assertion of `set_frame` is that the huge-page flag is absent. -/
lemma and_hugePage_ne_iff (fl : PageTableFlags) :
    fl.and .hugePage ≠ .hugePage ↔ fl.get .hugePage = false := by
  rw [get, ne_eq, PageTableFlags.ext_iff, decide_eq_false_iff_not]
  rfl

/-- Flags are untouched by masking the address away. -/
lemma bits_and_not_mask (fl : PageTableFlags) : fl.bits &&& ~~~addressMask = fl.bits := by
  have h := BitVec.and_or_distrib_left (x := fl.bits) (y := addressMask) (z := ~~~addressMask)
  rw [fl.noAddr, show addressMask ||| ~~~addressMask = BitVec.allOnes 64 from by decide,
    BitVec.and_allOnes] at h
  simpa using h.symm

end PageTableFlags

namespace PageTableEntry

/-- The bits below the address are flag bits. -/
lemma flags_getLsbD (e : PageTableEntry) {n : ℕ} (hn : n < 12) :
    e.flags.bits.getLsbD n = e.value.getLsbD n := by
  have hmask : addressMask.getLsbD n = false := by
    interval_cases n <;> rfl
  have hlt : n < 64 := by omega
  rw [flags, BitVec.getLsbD_and, BitVec.getLsbD_not, hmask]
  simp [hlt]

lemma isPresent_eq (e : PageTableEntry) : e.isPresent = e.value.getLsbD 0 := by
  rw [isPresent, PageTableFlags.get_present, flags_getLsbD e (by norm_num)]

lemma isHugePage_eq (e : PageTableEntry) : e.isHugePage = e.value.getLsbD 7 := by
  rw [isHugePage, PageTableFlags.get_hugePage, flags_getLsbD e (by norm_num)]

/-- The low bits of a word put together from an aligned address and flags. -/
lemma ofAddr_getLsbD (fl : PageTableFlags) (hal : a.toRaw % 4096 = 0) {n : ℕ} (hn : n < 12) :
    (ofAddr a fl).value.getLsbD n = fl.bits.getLsbD n := by
  have hbit : (BitVec.ofNat 64 a.toRaw).getLsbD n = false := by
    rw [BitVec.getLsbD_ofNat]
    have hmul : a.toRaw = a.toRaw / 2 ^ 12 * 2 ^ 12 := by omega
    rw [hmul, Nat.testBit_mul_two_pow]
    simp [Nat.not_le.mpr hn]
  rw [ofAddr, BitVec.getLsbD_or, hbit, Bool.false_or]

lemma isPresent_ofAddr (fl : PageTableFlags) (hal : a.toRaw % 4096 = 0) :
    (ofAddr a fl).isPresent = fl.get .present := by
  rw [isPresent_eq, ofAddr_getLsbD fl hal (by norm_num), PageTableFlags.get_present]

lemma isHugePage_ofAddr (fl : PageTableFlags) (hal : a.toRaw % 4096 = 0) :
    (ofAddr a fl).isHugePage = fl.get .hugePage := by
  rw [isHugePage_eq, ofAddr_getLsbD fl hal (by norm_num), PageTableFlags.get_hugePage]

/-- The flags of a word put together from a physical address and flags. -/
lemma flags_ofAddr (fl : PageTableFlags) (hal : a.toRaw % 4096 = 0) (hphys : a.toRaw < 2 ^ 47) :
    (ofAddr a fl).flags = fl := by
  have hself : BitVec.ofNat 64 a.toRaw &&& addressMask = BitVec.ofNat 64 a.toRaw := by
    apply BitVec.eq_of_toNat_eq
    rw [and_addressMask_toNat, BitVec.toNat_ofNat]
    omega
  have hzero : BitVec.ofNat 64 a.toRaw &&& ~~~addressMask = 0 := by
    rw [← hself, BitVec.and_assoc, show addressMask &&& ~~~addressMask = 0 from by decide]
    simp
  apply PageTableFlags.ext
  show (BitVec.ofNat 64 a.toRaw ||| fl.bits) &&& ~~~addressMask = fl.bits
  rw [BitVec.and_or_distrib_right, hzero, fl.bits_and_not_mask]
  simp

@[simp] lemma isPresent_setFlags (e : PageTableEntry) (fl : PageTableFlags) :
    (e.setFlags fl).isPresent = fl.get .present :=
  isPresent_ofAddr fl e.addr_toRaw_bounds.1

@[simp] lemma isHugePage_setFlags (e : PageTableEntry) (fl : PageTableFlags) :
    (e.setFlags fl).isHugePage = fl.get .hugePage :=
  isHugePage_ofAddr fl e.addr_toRaw_bounds.1

/-- An entry with a present flag is not unused. -/
lemma isUnused_of_isPresent (h : e.isPresent = true) :
    e.isUnused = false := by
  rw [isPresent_eq] at h
  rw [isUnused, decide_eq_false_iff_not]
  intro h0
  rw [h0] at h
  simp at h

lemma isUnused_of_isHugePage (h : e.isHugePage = true) :
    e.isUnused = false := by
  rw [isHugePage_eq] at h
  rw [isUnused, decide_eq_false_iff_not]
  intro h0
  rw [h0] at h
  simp at h

/-! ### The frame of an entry -/

/-- The table an entry refers to, if it refers to one: the entry is present, not huge, and
its address is physical. -/
def table (e : PageTableEntry) : Option Frame :=
  match e.frame with
  | .ok (.ok f) => some f
  | _ => none

lemma frame_eq_ok (h : e.frame = .ok (.ok f)) :
    e.isPresent = true ∧ e.isHugePage = false ∧ e.addr.toRaw < 2 ^ 47
      ∧ f = ⟨e.addr.toRaw / 4096⟩ := by
  by_cases hp : e.isPresent = false
  · rw [frame, if_pos hp] at h
    cases h
  rw [Bool.not_eq_false] at hp
  by_cases hh : e.isHugePage = true
  · rw [frame, if_neg (by simp [hp]), if_pos hh] at h
    cases h
  rw [frame, if_neg (by simp [hp]), if_neg hh] at h
  cases hc : Frame.containingAddr e.addr with
  | error p => rw [hc] at h; cases h
  | ok f' =>
    rw [hc] at h
    cases h
    exact ⟨hp, by simpa using hh, Frame.containingAddr_eq_ok hc⟩

lemma table_eq_some :
    e.table = some f ↔ e.frame = .ok (.ok f) := by
  rw [table]
  split
  · next f' hf => rw [hf]; simp
  · next hne =>
      constructor
      · intro h
        cases h
      · intro h
        exact absurd h (hne f)

lemma frame_ne_hugePage (h : e.isHugePage = false) :
    e.frame ≠ .ok (.error .hugePage) := by
  rw [frame, h, if_neg (by simp : ¬false = true)]
  split
  · simp
  · cases Frame.containingAddr e.addr <;> simp [Except.map]

/-- The frame of an entry depends on its present flag, its huge flag and its address. -/
lemma frame_congr {e' : PageTableEntry} (hp : e.isPresent = e'.isPresent)
    (hh : e.isHugePage = e'.isHugePage) (ha : e.addr = e'.addr) : e.frame = e'.frame := by
  rw [frame, frame, hp, hh, ha]

/-! ### Entries made from frames -/

/-- The entry for a frame. -/
def ofFrame (f : Frame) (fl : PageTableFlags) : PageTableEntry := ofAddr f.baseAddr fl

lemma baseAddr_aligned (f : Frame) : f.baseAddr.toRaw % 4096 = 0 := by
  show f.number * 4096 % 2 ^ 64 % 4096 = 0
  omega

lemma isPresent_ofFrame (f : Frame) (fl : PageTableFlags) :
    (ofFrame f fl).isPresent = fl.get .present :=
  isPresent_ofAddr fl (baseAddr_aligned f)

lemma isHugePage_ofFrame (f : Frame) (fl : PageTableFlags) :
    (ofFrame f fl).isHugePage = fl.get .hugePage :=
  isHugePage_ofAddr fl (baseAddr_aligned f)

lemma addr_ofFrame (hf : f.Physical) (fl : PageTableFlags) :
    (ofFrame f fl).addr.toRaw = f.number * 4096 := by
  have hf' : f.number < 2 ^ 35 := hf
  rw [ofFrame, addr_ofAddr_toRaw _ _ (baseAddr_aligned f), Frame.baseAddr_toRaw hf,
    Address.new_of_lt (by omega)]

lemma flags_ofFrame (hf : f.Physical) (fl : PageTableFlags) :
    (ofFrame f fl).flags = fl := by
  have hf' : f.number < 2 ^ 35 := hf
  refine flags_ofAddr fl (baseAddr_aligned f) ?_
  rw [Frame.baseAddr_toRaw hf]
  omega

/-- Only the frame `0` without flags makes an unused entry. -/
lemma isUnused_ofFrame (hf : f.Physical) (h : fl.bits ≠ 0 ∨ f.number ≠ 0) :
    (ofFrame f fl).isUnused = false := by
  by_contra hu
  rw [Bool.not_eq_false, isUnused, decide_eq_true_eq] at hu
  rcases h with h | h
  · have hflags := congrArg PageTableFlags.bits (flags_ofFrame hf fl)
    refine h (hflags.symm.trans ?_)
    change (ofFrame f fl).value &&& ~~~addressMask = 0
    rw [hu]
    decide
  · have haddr := addr_ofFrame hf fl
    rw [addr, hu] at haddr
    refine h ?_
    have hzero : (Address.new (0 &&& addressMask : BitVec 64).toNat).toRaw = 0 := by decide
    omega

/-- The frame an entry was made from is the frame it refers to. -/
lemma frame_ofFrame (hf : f.Physical) (hp : fl.get .present = true) (hh : fl.get .hugePage = false) :
    (ofFrame f fl).frame = .ok (.ok f) := by
  have hf' : f.number < 2 ^ 35 := hf
  have haddr := addr_ofFrame hf fl
  rw [frame, isPresent_ofFrame, isHugePage_ofFrame, hp, hh, if_neg (by simp), if_neg (by simp),
    Frame.containingAddr_of_physical (by omega), haddr,
    show f.number * 4096 / 4096 = f.number from by omega]
  rfl

lemma setFrame_eq_ok (h : setFrame f fl = .ok e) : e = ofFrame f fl ∧ fl.get .hugePage = false := by
  by_cases hh : fl.and .hugePage ≠ .hugePage
  · rw [setFrame, if_pos hh, setAddr] at h
    split at h
    · exact ⟨(Except.ok.inj h).symm, fl.and_hugePage_ne_iff.mp hh⟩
    · cases h
  · rw [setFrame, if_neg hh] at h
    cases h

lemma setFrame_of_physical (hf : f.Physical) (hh : fl.get .hugePage = false) :
    setFrame f fl = .ok (ofFrame f fl) := by
  have hf' : f.number < 2 ^ 35 := hf
  have hbase := Frame.baseAddr_toRaw hf
  rw [setFrame, if_pos (fl.and_hugePage_ne_iff.mpr hh), setAddr, if_pos]
  · rfl
  · exact ⟨(Address.isPageAligned_iff _).mpr (baseAddr_aligned f),
      (Address.isPhysical_iff _).mpr (by omega)⟩

end PageTableEntry

end Rhubarb
