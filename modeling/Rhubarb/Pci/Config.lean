import Mathlib.Tactic

/-!
The configuration space of the PCI bus and its devices (`drivers/pci/src/pci.rs`, `pci_class.rs`).

A register is reached through its address word, and holds 32 bits.  What a write does to it is up
to the device: some of its bits can be written, the others stay as they are.

* `read`, `write`: the two accesses.
* `Class`, `HeaderType`, `Device`, `Device.open_`: a function of a device, as it is found.
-/

namespace Rhubarb.Pci

/-! ### The configuration space -/

/-- The registers by their address word, and which of their bits can be written. -/
structure ConfigSpace where
  regs : BitVec 32 → BitVec 32
  writable : BitVec 32 → BitVec 32

/-- The word that is written to `CONFIG_ADDRESS`. -/
def configAddress (bus device function : ℕ) (offset : BitVec 8) : BitVec 32 :=
  BitVec.ofNat 32 bus <<< 16 ||| BitVec.ofNat 32 device <<< 11 ||| BitVec.ofNat 32 function <<< 8
    ||| (offset.setWidth 32 &&& 0xFC#32) ||| 0x80000000#32

def read (c : ConfigSpace) (bus device function : ℕ) (offset : BitVec 8) : BitVec 32 :=
  c.regs (configAddress bus device function offset)

/-- The bits that can be written are, the others stay. -/
def write (c : ConfigSpace) (bus device function : ℕ) (offset : BitVec 8) (value : BitVec 32) :
    ConfigSpace :=
  let a := configAddress bus device function offset
  { c with
    regs := Function.update c.regs a
      ((c.regs a &&& ~~~c.writable a) ||| (value &&& c.writable a)) }

/-- `bit_range!(num[start..stop])`. -/
def bitRange {w : ℕ} (num : BitVec w) (start stop : ℕ) : BitVec w :=
  if start = stop then num &&& (1#w <<< start)
  else (num <<< (w - stop) >>> (w - stop)) >>> start

/-- `bit_range!(num[index])`. -/
def bitAt {w : ℕ} (num : BitVec w) (index : ℕ) : Bool := num &&& (1#w <<< index) ≠ 0

/-- The offset is in the low byte of the address word. -/
lemma configAddress_setWidth (bus device function : ℕ) (o : BitVec 8) :
    (configAddress bus device function o).setWidth 8 = o &&& 0xFC#8 := by
  apply BitVec.eq_of_getLsbD_eq
  intro i hi
  have hmask : ∀ i < 8, (0xFC#32).getLsbD i = (0xFC#8).getLsbD i := by decide
  have henable : ∀ i < 8, (0x80000000#32).getLsbD i = false := by decide
  simp only [configAddress, BitVec.getLsbD_setWidth, BitVec.getLsbD_or, BitVec.getLsbD_shiftLeft,
    BitVec.getLsbD_and, hmask i hi, henable i hi]
  simp [hi, show i < 16 by omega, show i < 11 by omega, show i < 32 by omega]

lemma getLsbD_bitRange {w : ℕ} (num : BitVec w) {start stop i : ℕ} (h : start < stop)
    (hw : stop ≤ w) :
    (bitRange num start stop).getLsbD i =
      (decide (start + i < stop) && num.getLsbD (start + i)) := by
  rw [bitRange, if_neg h.ne]
  simp only [BitVec.getLsbD_ushiftRight, BitVec.getLsbD_shiftLeft]
  by_cases hs : start + i < stop
  · rw [show w - stop + (start + i) - (w - stop) = start + i by omega]
    simp [hs]
    omega
  · simp [hs]
    omega

lemma bitAt_eq {w : ℕ} (num : BitVec w) {i : ℕ} (hi : i < w) : bitAt num i = num.getLsbD i := by
  have hne : BitVec.twoPow w i ≠ 0#w := by
    intro h
    have := congrArg (fun x => x.getLsbD i) h
    simp [hi] at this
  rw [bitAt, ← BitVec.twoPow_eq, BitVec.and_twoPow]
  cases num.getLsbD i <;> simp [hne]

/-! ### Classes and header types -/

/-- `Class`. -/
inductive Class where
  | unclassified
  | massStorageController
  | networkController
  | displayController
  | multimediaDevice
  | memoryController
  | bridgeDevice
  | simpleCommunicationController
  | baseSystemPeripheral
  | inputDevice
  | dockingStation
  | processor
  | serialBus
  | wirelessController
  | intelligentIoController
  | satelliteCommunicationController
  | encryptionController
  | signalProcessingController
  | processingAccelerator
  | nonEssentialInstrumentation
  | coProcessor
  | vendorSpecific
  deriving DecidableEq, Repr

/-- `Class::from_raw`. -/
def Class.fromRaw (raw : BitVec 8) : Option Class :=
  match raw.toNat with
  | 0x00 => some unclassified
  | 0x01 => some massStorageController
  | 0x02 => some networkController
  | 0x03 => some displayController
  | 0x04 => some multimediaDevice
  | 0x05 => some memoryController
  | 0x06 => some bridgeDevice
  | 0x07 => some simpleCommunicationController
  | 0x08 => some baseSystemPeripheral
  | 0x09 => some inputDevice
  | 0x0A => some dockingStation
  | 0x0B => some processor
  | 0x0C => some serialBus
  | 0x0D => some wirelessController
  | 0x0E => some intelligentIoController
  | 0x0F => some satelliteCommunicationController
  | 0x10 => some encryptionController
  | 0x11 => some signalProcessingController
  | 0x12 => some processingAccelerator
  | 0x13 => some nonEssentialInstrumentation
  | 0x40 => some coProcessor
  | 0xFF => some vendorSpecific
  | _ => none

/-- `HeaderType`. -/
abbrev HeaderType : Type := BitVec 8

/-- `HEADER_TYPE_MULTIPLE_FUNCTIONS_BIT`. -/
def headerTypeMultipleFunctionsBit : BitVec 8 := 1#8 <<< 7

namespace HeaderType

def get (h : HeaderType) : BitVec 8 := h &&& ~~~headerTypeMultipleFunctionsBit

def multipleFunctions (h : HeaderType) : Bool :=
  h &&& headerTypeMultipleFunctionsBit = headerTypeMultipleFunctionsBit

def isPciBridge (h : HeaderType) : Bool := get h = 1

end HeaderType

/-! ### Devices -/

/-- `Device`. -/
structure Device where
  bus : ℕ
  device : ℕ
  function : ℕ
  deviceId : BitVec 16
  vendorId : BitVec 16
  cls : Class
  subclass : BitVec 8
  headerType : HeaderType
  interface : BitVec 8
  interruptLine : BitVec 8
  interruptPin : BitVec 8
  deriving DecidableEq, Repr

/-- `NONEXISTENT_VENDOR_ID`. -/
def nonexistentVendorId : BitVec 16 := 0xFFFF

namespace Device

/-- Which function of which device it is. -/
def location (d : Device) : ℕ × ℕ × ℕ := (d.bus, d.device, d.function)

/-- `Device::open`; the interrupt is that of the function `0`. -/
def open_ (c : ConfigSpace) (bus device function : ℕ) : Option Device :=
  let reg0 := Pci.read c bus device function 0x00
  let vendorId := (bitRange reg0 0 16).setWidth 16
  if vendorId = nonexistentVendorId then none
  else
    let reg2 := Pci.read c bus device function 0x08
    let reg3 := Pci.read c bus device function 0x0C
    (Class.fromRaw ((bitRange reg2 24 32).setWidth 8)).map fun cls =>
      let lastRow := Pci.read c bus device 0 0x3C
      { bus, device, function
        deviceId := (bitRange reg0 16 32).setWidth 16
        vendorId
        cls
        subclass := (bitRange reg2 16 24).setWidth 8
        headerType := (bitRange reg3 16 24).setWidth 8
        interface := (bitRange reg2 8 16).setWidth 8
        interruptLine := (lastRow &&& 0xFF#32).setWidth 8
        interruptPin := (lastRow >>> 8 &&& 0xFF#32).setWidth 8 }

/-- A device is found where it was looked for. -/
lemma location_of_open {c : ConfigSpace} {bus device function : ℕ} {d : Device}
    (h : Device.open_ c bus device function = some d) : d.location = (bus, device, function) := by
  rw [Device.open_] at h
  simp only at h
  split_ifs at h
  obtain ⟨cls, -, rfl⟩ := Option.map_eq_some_iff.mp h
  rfl

/-- `Device::read`. -/
def read (c : ConfigSpace) (d : Device) (offset : BitVec 8) : BitVec 32 :=
  Pci.read c d.bus d.device d.function offset

/-- `Device::write`. -/
def write (c : ConfigSpace) (d : Device) (offset : BitVec 8) (value : BitVec 32) : ConfigSpace :=
  Pci.write c d.bus d.device d.function offset value

end Device

end Rhubarb.Pci
