import RpiBsp.Support.Memory
import RpiBsp.Support.Outcome
import RpiBsp.Support.Radix
import RpiBsp.Support.Span
import RpiBsp.Support.Word
import RpiBsp.Startup.Asinfo.Definitions
import RpiBsp.Startup.Asinfo.Table
import RpiBsp.Startup.Ram.Definitions
import RpiBsp.Startup.Ram.Table
import RpiBsp.Startup.Ram.FreeList
import RpiBsp.Startup.Ram.Search
import RpiBsp.Startup.Ram.Apart
import RpiBsp.Startup.Ram.Sysram
import RpiBsp.Startup.Syspage.Definitions
import RpiBsp.Startup.Syspage.Frame
import RpiBsp.Startup.Mmu.Definitions
import RpiBsp.Startup.Mmu.Tables
import RpiBsp.Startup.Mmu.Map
import RpiBsp.Startup.Mmu.Calls
import RpiBsp.Startup.Mmu.Contig
import RpiBsp.Support.Prog
import RpiBsp.Sdmmc.Definitions
import RpiBsp.Sdmmc.Command.Definitions
import RpiBsp.Sdmmc.Command.Caps
import RpiBsp.Sdmmc.Sim.Definitions
import RpiBsp.Sdmmc.Sim.Upkeep
import RpiBsp.Sdmmc.Sim.Requests
import RpiBsp.Sdmmc.Sim.Bus
import RpiBsp.Sdmmc.Sim.Erase
import RpiBsp.Sdmmc.Sim.WriteProtect
import RpiBsp.Sdmmc.Sim.Selection
import RpiBsp.Sdmmc.Sim.Cache
import RpiBsp.Sdmmc.Sim.Reuse
import RpiBsp.Startup.Syspage.Sections
import RpiBsp.Startup.Syspage.Strings
import RpiBsp.Startup.Syspage.TypedStrings
import RpiBsp.I2c.Definitions
import RpiBsp.I2c.Frame
import RpiBsp.I2c.Transfer
import RpiBsp.I2c.Fifo
import RpiBsp.I2c.Runs
import RpiBsp.I2c.Speed
import RpiBsp.Spi.Definitions
import RpiBsp.Spi.Exchange
import RpiBsp.Sdmmc.Sdhci
import RpiBsp.Sdmmc.BlockLength
import RpiBsp.Sdmmc.Removal
import RpiBsp.Sdmmc.SpeedMode
import RpiBsp.Ota.Version
import RpiBsp.Sdmmc.Sim.Status
import RpiBsp.Ota.Files
import RpiBsp.Ota.Pending
import RpiBsp.Ota.Config
import RpiBsp.Startup.Gic
import RpiBsp.Wdtkick.Definitions
import RpiBsp.Wdtkick.Mapping
import RpiBsp.Fan.Resmgr
import RpiBsp.Devc.Definitions
import RpiBsp.Devc.Tto
import RpiBsp.Spi.Config
import RpiBsp.Devc.Dma
import RpiBsp.Startup.RestoreIfs
import RpiBsp.Ota.Client
import RpiBsp.Ota.Way
import RpiBsp.Ota.Slots
import RpiBsp.Ota.Committed
import RpiBsp.Ota.Reboots
import RpiBsp.Ota.Commit
import RpiBsp.Startup.Time
import RpiBsp.Startup.Fdt
import RpiBsp.Startup.Timer
import RpiBsp.Startup.Bootargs
import RpiBsp.Startup.Cmdline
import RpiBsp.Startup.Asinfo.Containing
import RpiBsp.Startup.Ram.Range
import RpiBsp.Startup.Ram.Limit
import RpiBsp.Sdmmc.Adma
import RpiBsp.Sdmmc.Devctl
import RpiBsp.Sdmmc.Scatter
import RpiBsp.Sdmmc.Sim.Reliable
import RpiBsp.Sdmmc.Capacity
import RpiBsp.Sdmmc.EraseTime
import RpiBsp.Sdmmc.Clock
import RpiBsp.Sdmmc.Negotiate
import RpiBsp.Sdmmc.Options
import RpiBsp.I2c.Timing
import RpiBsp.Spi.Baud
import RpiBsp.Startup.Syspage.Hwinfo
import RpiBsp.Startup.Syspage.HwiAlloc
import RpiBsp.Startup.Syspage.HwiWalk
import RpiBsp.Startup.Syspage.Callouts
import RpiBsp.Devc.Baud
import RpiBsp.Wdtkick.Registers
import RpiBsp.Mbox.Definitions
import RpiBsp.Mbox.Requests
import RpiBsp.Support.Chain
import RpiBsp.Startup.IntrCells
import RpiBsp.Startup.Kprintf
import RpiBsp.Startup.Its.Mapc
import RpiBsp.Startup.Its.Initialize
import RpiBsp.Startup.Asinfo.Covered
import RpiBsp.Startup.Ram.Reserve
import RpiBsp.Startup.Uefi.Definitions
import RpiBsp.Startup.Uefi.Raminfo
import RpiBsp.Startup.Mmu.Keeps
import RpiBsp.Startup.Elf.Definitions
import RpiBsp.Startup.Elf.Copy
import RpiBsp.Startup.Elf.Segment
import RpiBsp.Startup.Elf.Load
import RpiBsp.Startup.Elf.Image
import RpiBsp.Sdmmc.Response
import RpiBsp.Startup.Syspage.HwiGrow
import RpiBsp.Startup.Syspage.HwiGrowRun
import RpiBsp.Gpio.Definitions
import RpiBsp.Gpio.PinList
import RpiBsp.Gpio.BcmRegisters
import RpiBsp.Gpio.Rp1Registers
import RpiBsp.Startup.CacheFlush
import RpiBsp.Startup.Getopt
import RpiBsp.Startup.GicV2
import RpiBsp.Startup.Ipi
import RpiBsp.Startup.Memmove
import RpiBsp.Startup.Options
import RpiBsp.Startup.Smp.Definitions
import RpiBsp.Startup.Smp.Handout
import RpiBsp.Startup.Smp.Protocol
import RpiBsp.Startup.Uefi.EfiMap
import RpiBsp.Startup.Uefi.EfiRaminfo
