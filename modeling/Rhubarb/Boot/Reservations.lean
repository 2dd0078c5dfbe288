import Rhubarb.Boot.Init
import Rhubarb.Memory.FrameRanges

/-!
The frames that are left after the reservation phase of `memory::init`.

The size handed to `reserve_range` for the framebuffer is where the framebuffer ends, not how long
it is, so the reservation goes on behind it for as many bytes as lie below it.

* `reserve_exact_iff`: what is left is what should be, exactly if no spare frame lies there.
-/

namespace Rhubarb

open Foundations FrameAllocator

namespace BootInfo

/-- The addresses of the boot info are physical, and its ranges do not wrap around. -/
structure Physical (info : BootInfo) : Prop where
  map : ∀ region ∈ info.memoryMap, region.base + region.size < 2 ^ 47
  kernel : info.kernelStart ≤ info.kernelEnd ∧ info.kernelEnd < 2 ^ 47
  framebuffer : info.displayInfo.framebufferAddr + info.displayInfo.framebufferSize < 2 ^ 47

/-- The frame intersects one of the three ranges. -/
def Occupied (info : BootInfo) (n : ℕ) : Prop :=
  Touches ⟨0, mebibyte⟩ n
    ∨ Touches ⟨info.kernelStart, info.kernelEnd - info.kernelStart⟩ n
    ∨ Touches ⟨info.displayInfo.framebufferAddr, info.displayInfo.framebufferSize⟩ n

/-- The frame should be free: it is below 1 GiB, wholly inside a `Free` region, and intersects
none of the three ranges. -/
def Spare (info : BootInfo) (n : ℕ) : Prop :=
  n < maxFrames ∧ InFreeRegion info.memoryMap n ∧ ¬info.Occupied n

/-- The frame lies behind the framebuffer, by less than the address of the framebuffer. -/
def Overreserved (info : BootInfo) (n : ℕ) : Prop :=
  info.displayInfo.framebufferAddr + info.displayInfo.framebufferSize ≤ 4096 * n
    ∧ 4096 * n < 2 * info.displayInfo.framebufferAddr + info.displayInfo.framebufferSize

end BootInfo

/-- A range that starts at a page boundary is reserved exactly. -/
lemma reserves_iff_touches {base size n : ℕ} (hbase : base < 2 ^ 47) (halign : base % 4096 = 0) :
    Reserves (Address.new base) size n ↔ Touches ⟨base, size⟩ n := by
  rw [Reserves, Address.new_of_lt hbase, touches_iff]
  simp only
  omega

/-- The three reservations: the ranges themselves, and what lies behind the framebuffer. -/
lemma BootInfo.Physical.reserved_iff {info : BootInfo} (hinfo : info.Physical)
    (hkernel : info.kernelStart % 4096 = 0)
    (hfb : info.displayInfo.framebufferAddr % 4096 = 0) (n : ℕ) :
    info.Reserved n ↔ info.Occupied n ∨ info.Overreserved n := by
  obtain ⟨hle, hend⟩ := hinfo.kernel
  have hlen := hinfo.framebuffer
  have hwrap : wrappingAdd info.displayInfo.framebufferAddr info.displayInfo.framebufferSize =
      info.displayInfo.framebufferAddr + info.displayInfo.framebufferSize :=
    wrappingAdd_eq (hlen.trans (by norm_num [usizeRange]))
  have hlast : Touches ⟨info.displayInfo.framebufferAddr,
      info.displayInfo.framebufferAddr + info.displayInfo.framebufferSize⟩ n ↔
        Touches ⟨info.displayInfo.framebufferAddr, info.displayInfo.framebufferSize⟩ n
          ∨ info.Overreserved n := by
    rw [touches_iff, touches_iff, BootInfo.Overreserved]
    simp only
    omega
  rw [BootInfo.Reserved, BootInfo.Occupied, wrappingSub_eq hle, hwrap,
    reserves_iff_touches (by norm_num) (by norm_num), reserves_iff_touches (by omega) hkernel,
    reserves_iff_touches (by omega) hfb, hlast, or_assoc, or_assoc]

lemma BootInfo.Physical.reserve_ok {info : BootInfo} (hinfo : info.Physical)
    (a : FrameAllocator) : ∃ a', a.reserve info = .ok a' :=
  a.reserve_of_physical hinfo.map (hinfo.kernel.1.trans_lt hinfo.kernel.2)
    ((Nat.le_add_right _ _).trans_lt hinfo.framebuffer)

/-- **The frames that are left** after the reservation phase are the spare ones, exactly if none of
them lies in what is reserved behind the framebuffer. -/
theorem reserve_exact_iff (a : FrameAllocator) {info : BootInfo} (hinfo : info.Physical)
    (hkernel : info.kernelStart % 4096 = 0)
    (hfb : info.displayInfo.framebufferAddr % 4096 = 0) :
    ∃ a', a.reserve info = .ok a'
      ∧ ((∀ n, n < maxFrames ∧ a'.isAllocated n = false ↔ info.Spare n) ↔
        ∀ n, info.Spare n → ¬info.Overreserved n) := by
  obtain ⟨a', h⟩ := hinfo.reserve_ok a
  have hfree : ∀ n < maxFrames, a'.isAllocated n = false ↔
      info.Spare n ∧ ¬info.Overreserved n := by
    intro n hn
    have hused := isAllocated_reserve h hn
    rw [exists_frees_iff hinfo.map, hinfo.reserved_iff hkernel hfb] at hused
    rw [← Bool.not_eq_true, hused, BootInfo.Spare]
    tauto
  refine ⟨a', h, fun hexact n hn => ?_, fun hnone n => ⟨fun hn => ?_, fun hn => ?_⟩⟩
  · obtain ⟨hlt, hclear⟩ := (hexact n).mpr hn
    exact ((hfree n hlt).mp hclear).2
  · exact ((hfree n hn.1).mp hn.2).1
  · exact ⟨hn.1, (hfree n hn.1).mpr ⟨hn, hnone n hn⟩⟩

/-- Four megabytes of memory from the first one on, with the framebuffer in the middle. -/
def lowFramebuffer : BootInfo where
  kernelStart := 0x100000
  kernelEnd := 0x101000
  memoryMap := [⟨0x100000, 0x400000, .free⟩]
  rootObjectMap := []
  displayInfo := ⟨0x200000, 0x1000⟩

lemma lowFramebuffer_physical : lowFramebuffer.Physical := ⟨by decide, by decide, by decide⟩

theorem reserve_exact_iff_low :
    lowFramebuffer.Physical ∧ ∃ a', FrameAllocator.new.reserve lowFramebuffer = .ok a'
      ∧ ((∀ n, n < maxFrames ∧ a'.isAllocated n = false ↔ lowFramebuffer.Spare n) ↔
        ∀ n, lowFramebuffer.Spare n → ¬lowFramebuffer.Overreserved n) :=
  ⟨lowFramebuffer_physical,
    reserve_exact_iff FrameAllocator.new lowFramebuffer_physical (by decide) (by decide)⟩

/-- A frame a megabyte behind the framebuffer is lost. -/
theorem reserve_loses_frame :
    ∃ a', FrameAllocator.new.reserve lowFramebuffer = .ok a' ∧ lowFramebuffer.Spare 0x300
      ∧ a'.isAllocated 0x300 = true := by
  have hspare : lowFramebuffer.Spare 0x300 := by
    refine ⟨by decide, ⟨_, List.mem_singleton_self _, by decide, by decide, by decide⟩, ?_⟩
    simp only [BootInfo.Occupied, touches_iff, lowFramebuffer, mebibyte]
    omega
  obtain ⟨a', h⟩ := lowFramebuffer_physical.reserve_ok FrameAllocator.new
  have hover : lowFramebuffer.Overreserved 0x300 := by
    simp only [BootInfo.Overreserved, lowFramebuffer]
    omega
  refine ⟨a', h, hspare, (isAllocated_reserve h hspare.1).mpr (Or.inr ?_)⟩
  exact (lowFramebuffer_physical.reserved_iff (by decide) (by decide) _).mpr (Or.inr hover)

end Rhubarb
