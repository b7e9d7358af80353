import Coconut.Scan
import Coconut.ByteMemory
import Coconut.Bitmap
import Coconut.RoundRobin
import Coconut.Paging
import Coconut.PageForest
import Coconut.Stores
import Coconut.Layout
import Coconut.Shared
import Coconut.Frame
import Coconut.Vmm
import Coconut.UserCopy
import Coconut.AddressSpace
import Coconut.State
import Coconut.Elf
import Coconut.Ext2
import Coconut.UserBuffer
import Coconut.Fs
import Coconut.Capability
import Coconut.Shard
import Coconut.Channel
import Coconut.Gpu
import Coconut.Scheduler
import Coconut.Syscall
import Coconut.Boot
import Coconut.System
import Coconut.Effects
import Coconut.Control
import Coconut.Refinement
import Coconut.BootEffects
import Coconut.Blocking
import Coconut.Scheduling
import Coconut.Provenance
import Coconut.Replay
import Coconut.Fairness
import Coconut.Messages
import Coconut.Mediation
import Coconut.Footprint
import Coconut.Spaces
import Coconut.BootSpaces
import Coconut.Dma
import Coconut.Isolation
import Coconut.Validation
import Coconut.Delivery
import Coconut.Files
import Coconut.Faults
import Coconut.Restriction
import Coconut.Permissions
import Coconut.TableWalk
import Coconut.Reclaim
import Coconut.Registers
import Coconut.Rootfs
import Coconut.RoundTrip
import Coconut.ArrayLoops
import Coconut.Transformer
import Coconut.Layers
import Coconut.Exchange
import Coconut.Pipeline
import Coconut.FrameLedger
import Coconut.PmmInit
import Coconut.Vram
import Coconut.PageTree
import Coconut.PageMap
import Coconut.ImageLoad
import Coconut.Windows
import Coconut.Aslr
import Coconut.Mmap
import Coconut.BootTables
import Coconut.Supply
import Coconut.Mmio
import Coconut.HalWindow
import Coconut.FileRead
import Coconut.Directory
import Coconut.ElfParse
import Coconut.Pci
import Coconut.BarProbe
import Coconut.PciScan
import Coconut.Acpi
import Coconut.Dmar
import Coconut.BootLoader
import Coconut.Handoff
import Coconut.Packing
import Coconut.RunBuffers
import Coconut.MmapPanic
import Coconut.RamdiskReads
import Coconut.NoPanic
import Coconut.Asm
import Coconut.EntryCode
import Coconut.Resumption
import Coconut.Segments
import Coconut.Roster
import Coconut.Progress
import Coconut.Realisation
