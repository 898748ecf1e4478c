import WengShiOS.Drivers.KeyboardQueue
import WengShiOS.Drivers.Scancodes
import WengShiOS.Fs.Ext2.CreateFailure
import WengShiOS.Fs.Ext2.Mount
import WengShiOS.Fs.Ext2.SharedFile
import WengShiOS.Fs.Ext2.Leaks
import WengShiOS.Fs.Ext2.ListedDirectories
import WengShiOS.Kernel.StdinSafety
import WengShiOS.Kernel.SpawnSafety
import WengShiOS.Kernel.Exec
import WengShiOS.Kernel.MemoryMap
import WengShiOS.Mm.HeapLimits
import WengShiOS.Mm.HeapConservation
import WengShiOS.Scheduler.TaskCreation
import WengShiOS.Shell.Focus
import WengShiOS.Shell.LineEditor
import WengShiOS.Kernel.DescriptorSafety
import WengShiOS.Kernel.Brk
import WengShiOS.FileFormats.TarStores
import WengShiOS.FileFormats.ElfSafety
import WengShiOS.Fs.Ext2.BlockGrowth
import WengShiOS.Libc.HexToU64
import WengShiOS.Libc.Memmove
import WengShiOS.Libc.Printf
