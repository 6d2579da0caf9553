import QemuTest.Lib.Text
import QemuTest.Lib.Xml
import QemuTest.Junit
import QemuTest.JunitReport
import QemuTest.Lib.Lines
import QemuTest.Lib.Utf8
import QemuTest.Process.Serial
import QemuTest.Lib.Runs
import QemuTest.Main.Select
import QemuTest.Config
import QemuTest.Main.Run
import QemuTest.Lib.FreeList
import QemuTest.Util.TapPool
import QemuTest.Lib.Product
import QemuTest.Macro.Expand
import QemuTest.Macro.Exact
import QemuTest.Main.Label
import QemuTest.Macro.Distinct
import QemuTest.Lib.Poll
import QemuTest.Process.Spawn
import QemuTest.Lib.X86.Memory
import QemuTest.Lib.X86.Float80
import QemuTest.Lib.X86.Machine
import QemuTest.Lib.X86.Flow
import QemuTest.Asm.Serial64
import QemuTest.Lib.X86.Constants
import QemuTest.Asm.Guest
import QemuTest.Lib.X86.Observe
import QemuTest.Asm.BootScalar
import QemuTest.Asm.Compare
import QemuTest.Asm.BootAvx2
import QemuTest.Lib.X86.FpuStack
import QemuTest.Asm.BootFpSse
import QemuTest.Lib.Words
import QemuTest.Util.FilterParse
import QemuTest.Main.Tokens
import QemuTest.Lib.Path
import QemuTest.Util.Net
import QemuTest.Process.Command
import QemuTest.Lib.Options
import QemuTest.Process.OptionArgs
import QemuTest.Macro.Selectable
import QemuTest.Process.KeepLogs
import QemuTest.Process.SerialBytes
import QemuTest.Main.TapSupply
import QemuTest.Lib.Ipv4
import QemuTest.Util.TapAddress
import QemuTest.Macro.SkipPlacement
import QemuTest.Lib.X86.Polling
import QemuTest.Lib.X86.Progress
import QemuTest.Asm.Messages
import QemuTest.Asm.ScalarPass
import QemuTest.Asm.Avx2Verdict
import QemuTest.Tests.Migration
import QemuTest.Lib.X86.Eflags
import QemuTest.MmioRegs
import QemuTest.Lib.Base64
import QemuTest.Lib.Yaml
import QemuTest.CloudInit
import QemuTest.Lib.Scope
import QemuTest.Tests.Bodies
import QemuTest.Tests.Exclusion
import QemuTest.Lib.Emulation
import QemuTest.MmioRegs.Mapping
import QemuTest.Lib.X86.Straight
import QemuTest.Lib.X86.Replay
import QemuTest.Asm.Rounds
import QemuTest.Asm.FpSsePass
import QemuTest.Process.PollFinds
import QemuTest.Tests.IntactMigration
import QemuTest.Lib.X86.Paging
import QemuTest.Lib.Sends
import QemuTest.Lib.X86.Protected
import QemuTest.Lib.X86.ProtectedRuns
import QemuTest.Asm.Pm32
import QemuTest.Asm.Serial32
import QemuTest.Asm.BootPioStr
import QemuTest.Asm.PioStrOutput
import QemuTest.Tests.GuestBin
import QemuTest.Asm.Reports
import QemuTest.Asm.BootGuest
import QemuTest.Asm.BootPioVmport
import QemuTest.Tests.GuestReports
import QemuTest.Tests.UnseenLoss
