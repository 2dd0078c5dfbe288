import Rhubarb.Memory.LeafFlags
import Rhubarb.Boot.RootObjects
import Rhubarb.Kernel.SchedulerInvariant
import Rhubarb.Kernel.ShellLocks
import Rhubarb.Virtio.Blocks
import Rhubarb.Kernel.FaultProgress
import Rhubarb.Kernel.RoundRobin
import Rhubarb.Kernel.QueueOrder
import Rhubarb.Boot.Reservations
import Rhubarb.Pci.Enumeration
import Rhubarb.Pci.BaseAddress
import Rhubarb.Pci.Capabilities
import Rhubarb.Kernel.MappingMetadata
import Rhubarb.Heap.DoubleFree
import Rhubarb.Virtio.DeviceBuffers
import Rhubarb.Loader.Containment
import Rhubarb.Loader.Assertions
import Rhubarb.Asm.Length
import Rhubarb.Asm.RoundTrip
import Rhubarb.Time.Instant
import Rhubarb.Time.Rtc
import Rhubarb.Loader.CrateNames
import Rhubarb.Elf.Panics
