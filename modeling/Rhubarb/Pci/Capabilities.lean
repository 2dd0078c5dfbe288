import Rhubarb.Foundations.Iterators
import Rhubarb.Pci.Config

/-!
The capabilities of a PCI device (`drivers/pci/src/pci_capability.rs`, `CapabilityIter`).

The capabilities are a linked list in the configuration space: the head pointer is in the register
`0x34`, and the first two bytes of an entry are its id and the pointer to the next one.  The iterator
does not look for the null pointer at the end of the list.  It follows it to the register `0`, and
takes the low byte of the vendor id for the id of an entry.

* `CapabilityIter.next`: one call of the iterator.
* `CapList`: the list, from a pointer on.
* `capabilities_iff`: when the iterator yields the list.
-/

namespace Rhubarb.Pci

open Foundations

/-! ### The ids -/

/-- `Capability`. -/
inductive Capability where
  | null
  | pmi
  | agp
  | vpd
  | slotIdentification
  | msi
  | compactPciHotSwap
  | pciX
  | hyperTransport
  | vendorSpecific
  | debugPort
  | compactPciCentralResourceControl
  | hotPlug
  | bridgeSubsystemVendorId
  | agp8x
  | secureDevice
  | pciExpress
  | msiX
  | serialAta
  | advancedFeatures
  | enhancedAllocation
  | flatteningPortalBridge
  deriving DecidableEq, Repr

/-- `Capability::from_raw`. -/
def Capability.fromRaw (raw : BitVec 8) : Option Capability :=
  match raw.toNat with
  | 0x00 => some null
  | 0x01 => some pmi
  | 0x02 => some agp
  | 0x03 => some vpd
  | 0x04 => some slotIdentification
  | 0x05 => some msi
  | 0x06 => some compactPciHotSwap
  | 0x07 => some pciX
  | 0x08 => some hyperTransport
  | 0x09 => some vendorSpecific
  | 0x0A => some debugPort
  | 0x0B => some compactPciCentralResourceControl
  | 0x0C => some hotPlug
  | 0x0D => some bridgeSubsystemVendorId
  | 0x0E => some agp8x
  | 0x0F => some secureDevice
  | 0x10 => some pciExpress
  | 0x11 => some msiX
  | 0x12 => some serialAta
  | 0x13 => some advancedFeatures
  | 0x14 => some enhancedAllocation
  | 0x15 => some flatteningPortalBridge
  | _ => none

/-- `DeviceCapability`. -/
structure DeviceCapability where
  id : Capability
  offset : BitVec 8
  deriving DecidableEq, Repr

/-! ### The iterator -/

/-- `u32_set_bit`, for a bit of the word. -/
def u32SetBit (word : BitVec 32) (bit : Fin 32) (value : Bool) : BitVec 32 :=
  if value then word ||| 1#32 <<< bit.val else word &&& ~~~(1#32 <<< bit.val)

/-- `CapabilityIter`. -/
structure CapabilityIter where
  bus : ℕ
  device : ℕ
  function : ℕ
  offset : BitVec 8
  deriving DecidableEq, Repr

namespace CapabilityIter

/-- `CapabilityIter::new`. -/
def new (c : ConfigSpace) (bus device function : ℕ) : CapabilityIter where
  bus
  device
  function
  offset :=
    let word := read c bus device function 0x34
    (bitRange (u32SetBit (u32SetBit word 0 false) 1 false) 0 8).setWidth 8

/-- `CapabilityIter::next`. -/
def next (c : ConfigSpace) (it : CapabilityIter) : Option DeviceCapability × CapabilityIter :=
  let word := read c it.bus it.device it.function it.offset
  ((Capability.fromRaw ((bitRange word 0 8).setWidth 8)).map fun id => ⟨id, it.offset⟩,
    { it with offset := (bitRange word 8 16).setWidth 8 })

end CapabilityIter

/-- `Device::capabilities`. -/
def Device.capabilities (c : ConfigSpace) (d : Device) : CapabilityIter :=
  .new c d.bus d.device d.function

/-! ### The list -/

/-- The id at a pointer, as it is in the register. -/
def capId (c : ConfigSpace) (d : Device) (pointer : BitVec 8) : BitVec 8 :=
  (bitRange (d.read c pointer) 0 8).setWidth 8

/-- The pointer to the next entry. -/
def capNext (c : ConfigSpace) (d : Device) (pointer : BitVec 8) : BitVec 8 :=
  (bitRange (d.read c pointer) 8 16).setWidth 8

/-- **The capability list of a device from a pointer on**: its ids are known, and its last pointer
is null. -/
inductive CapList (c : ConfigSpace) (d : Device) : BitVec 8 → List DeviceCapability → Prop
  | null : CapList c d 0 []
  | entry {pointer : BitVec 8} {id : Capability} {entries : List DeviceCapability}
      (hne : pointer ≠ 0) (hid : Capability.fromRaw (capId c d pointer) = some id)
      (hrest : CapList c d (capNext c d pointer) entries) :
      CapList c d pointer (⟨id, pointer⟩ :: entries)

variable {c : ConfigSpace} {d : Device} {pointer : BitVec 8} {entries : List DeviceCapability}

lemma next_eq (c : ConfigSpace) (d : Device) (pointer : BitVec 8) :
    CapabilityIter.next c ⟨d.bus, d.device, d.function, pointer⟩ =
      ((Capability.fromRaw (capId c d pointer)).map fun id => ⟨id, pointer⟩,
        ⟨d.bus, d.device, d.function, capNext c d pointer⟩) :=
  rfl

/-- The walk along a list ends behind it exactly if the register `0` does not look like an entry. -/
lemma CapList.yields_iff (h : CapList c d pointer entries) :
    (∃ t, Yields (CapabilityIter.next c) ⟨d.bus, d.device, d.function, pointer⟩ entries t) ↔
      Capability.fromRaw (capId c d 0) = none := by
  induction h with
  | null =>
    constructor
    · rintro ⟨t, hstop | _⟩
      rw [next_eq, Prod.mk.injEq, Option.map_eq_none_iff] at hstop
      exact hstop.1
    · intro hnone
      exact ⟨_, .stop (by rw [next_eq, hnone]; rfl)⟩
  | @entry pointer id entries hne hid hrest ih =>
    have hnext : CapabilityIter.next c ⟨d.bus, d.device, d.function, pointer⟩ =
        (some ⟨id, pointer⟩, ⟨d.bus, d.device, d.function, capNext c d pointer⟩) := by
      rw [next_eq, hid]
      rfl
    rw [← ih]
    constructor
    · rintro ⟨t, _ | ⟨hitem, hyields⟩⟩
      rw [hnext] at hitem
      cases hitem
      exact ⟨t, hyields⟩
    · rintro ⟨t, hyields⟩
      exact ⟨t, .item hnext hyields⟩

/-- **When the iterator yields the capability list**: if and only if the low byte of the vendor id
is not the id of a capability. -/
theorem capabilities_iff (c : ConfigSpace) (d : Device) (entries : List DeviceCapability)
    (h : CapList c d (d.capabilities c).offset entries) :
    (∃ t, Yields (CapabilityIter.next c) (d.capabilities c) entries t) ↔
      Capability.fromRaw ((bitRange (d.read c 0x00) 0 8).setWidth 8) = none :=
  h.yields_iff

/-- A display controller with a vendor id and one entry in its capability list, behind its header:
one that is specific to the vendor. -/
def displaySpace (vendorId : BitVec 16) : ConfigSpace where
  regs a :=
    if a.setWidth 8 = 0x00#8 then vendorId.setWidth 32
    else if a.setWidth 8 = 0x08#8 then 0x03000000#32
    else if a.setWidth 8 = 0x34#8 then 0x40#32
    else if a.setWidth 8 = 0x40#8 then 0x09#32
    else 0
  writable _ := 0

def display (vendorId : BitVec 16) : Device :=
  ⟨0, 1, 0, 0, vendorId, .displayController, 0, 0, 0, 0, 0⟩

/-- With the vendor id of the virtio devices. -/
theorem capabilities_iff_virtio :
    Device.open_ (displaySpace 0x1AF4) 0 1 0 = some (display 0x1AF4) ∧
      ∃ t, Yields (CapabilityIter.next (displaySpace 0x1AF4))
        ((display 0x1AF4).capabilities (displaySpace 0x1AF4)) [⟨.vendorSpecific, 0x40⟩] t :=
  ⟨by decide, (capabilities_iff _ _ _ (.entry (by decide) (by decide) .null)).mpr (by decide)⟩

/-- With `0x1002` the low byte of the vendor id is the id of an AGP capability: behind the end of
the list there is an entry at the offset `0`. -/
theorem capabilities_agp :
    Device.open_ (displaySpace 0x1002) 0 1 0 = some (display 0x1002) ∧
      CapList (displaySpace 0x1002) (display 0x1002)
        ((display 0x1002).capabilities (displaySpace 0x1002)).offset [⟨.vendorSpecific, 0x40⟩] ∧
      (∃ it, CapabilityIter.next (displaySpace 0x1002)
          ((display 0x1002).capabilities (displaySpace 0x1002)) =
            (some ⟨.vendorSpecific, 0x40⟩, it) ∧
        (CapabilityIter.next (displaySpace 0x1002) it).1 = some ⟨.agp, 0⟩) ∧
      ¬∃ t, Yields (CapabilityIter.next (displaySpace 0x1002))
        ((display 0x1002).capabilities (displaySpace 0x1002)) [⟨.vendorSpecific, 0x40⟩] t := by
  have hlist : CapList (displaySpace 0x1002) (display 0x1002)
      ((display 0x1002).capabilities (displaySpace 0x1002)).offset [⟨.vendorSpecific, 0x40⟩] :=
    .entry (by decide) (by decide) .null
  refine ⟨by decide, hlist, ⟨⟨0, 1, 0, 0⟩, by decide, by decide⟩, ?_⟩
  intro hyields
  exact absurd (hlist.yields_iff.mp hyields) (by decide)

end Rhubarb.Pci
