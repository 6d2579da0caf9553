import QemuTest.CloudInit
import QemuTest.Process.Command
import QemuTest.Util.TapPool

/-!
# Tests — Bodies

What the test functions of `basic.rs`, `full_os.rs` and `migration.rs` acquire,
in the order of their statements: temporary directories, a pair of taps, QEMU
processes with their configurations. Every other fallible statement is a `Call`:
it succeeds or leaves the function. Dropped values are not in a body; they are
the scope's.

`Body.Fits` is the discipline of the bodies: a directory or a device is given
to one process at most, and only after it was acquired.
-/

namespace QemuTest

open Text Path

/-! ## Bodies -/

/-- The fallible statements that start and end nothing. -/
inductive Call where
  | Write
  | QueryStatus
  | PollLine
  | Accel
  | CloudInitNew
  | CloudInitCreate
  | Pattern
  | SshPort
  | SshCommand
  | Ensure
  | ParseUptime
  | MigrateIncoming
  | Migrate
  | PollStatus
  deriving DecidableEq, Repr

inductive Body where
  | done
  | call (c : Call) (next : Body)
  | tempdir (next : Str → Body)
  | allocateTaps (next : TapPair → Body)
  | spawn (cfg : QemuConfig Str) (next : Body)
  /-- `quit_and_wait` consumes the process spawned last. -/
  | quitAndWait (timeout : Nat) (next : Body)

/-! ## Resources -/

/-- What a QEMU process has for itself: the directory of its QMP socket and its
serial log, and its tap device. -/
inductive Resource where
  | dir (path : Str)
  | device (name : Str)
  deriving DecidableEq, Repr

def NetConfig.devices : NetConfig → List Str
  | .UserNet _ => []
  | .Tap _ ifname _ _ => [ifname]

def QemuConfig.resources (cfg : QemuConfig Str) : List Resource :=
  .dir cfg.temp_dir :: (cfg.net.elim [] NetConfig.devices).map .device

def TapPair.resources (taps : TapPair) : List Resource := taps.devices.map .device

/-- `free` is what was acquired and is not in use yet. -/
def Body.Fits : Body → List Resource → Prop
  | .done, _ => True
  | .call _ next, free => next.Fits free
  | .tempdir next, free => ∀ path, (next path).Fits (.dir path :: free)
  | .allocateTaps next, free => ∀ taps, (next taps).Fits (taps.resources ++ free)
  | .spawn cfg next, free => ∃ rest, free.Perm (cfg.resources ++ rest) ∧ next.Fits rest
  | .quitAndWait _ next, free => next.Fits free

namespace Body

/-! ## basic.rs -/

def guestBin (tmp_dir name : Str) : QemuPayload Str := .GuestBin (PathBuf.join tmp_dir name)

/-- The tests that run a guest binary and look for its output. -/
def guestBinTest (name : Str) : Body :=
  .tempdir fun tmp_dir => .call .Write <|
  .spawn (.new tmp_dir (guestBin tmp_dir name)) <|
  .call .QueryStatus <| .call .PollLine .done

def testSimpleGuestBin : Body := guestBinTest (lit "guest.bin")

/-- `test_pio_str_guest_bin` compiles its pattern before it polls. -/
def testPioStrGuestBin : Body :=
  .tempdir fun tmp_dir => .call .Write <|
  .spawn (.new tmp_dir (guestBin tmp_dir (lit "guest_pio_str.bin"))) <|
  .call .QueryStatus <| .call .Pattern <| .call .PollLine .done

def testMmioGuestBin : Body := guestBinTest (lit "guest_mmio.bin")

def testPioVmport : Body := guestBinTest (lit "guest_pio_vmport.bin")

def testMmioRegs : Body := guestBinTest (lit "guest_mmio_regs.bin")

/-- `KERNEL`. -/
def kernel : Str := lit "payload/vmlinuz-virt"

def testKernelBoot (machine : Machine) (smp : UInt8) (cpu : Option CpuModel) : Body :=
  .tempdir fun tmp_dir =>
  let cfg := (QemuConfig.new tmp_dir (.Kernel kernel none)).withMachine machine |>.withSmp smp
  .spawn (cpu.elim cfg cfg.withCpuModel) <|
  .call .QueryStatus <| .call .Accel <| .call .PollLine .done

def testQuitTerminates (machine : Machine) (smp : UInt8) : Body :=
  .tempdir fun tmp_dir => .call .Write <|
  .spawn ((QemuConfig.new tmp_dir (guestBin tmp_dir (lit "guest.bin"))).withMachine machine
    |>.withSmp smp) <|
  .quitAndWait 10000 .done

/-! ## full_os.rs -/

/-- `OS_IMAGE`. -/
def osImage : QemuPayload Str := .DiskImage (lit "payload/os-image.qcow2")

/-- `CloudInitDisk::path`. -/
def cidata (dir : Str) : Str := PathBuf.join dir (lit "cidata.img")

def testOsBoot (cpu : CpuModel) (machine : Machine) (smp : UInt8) (ovmf : Option Str)
    (io_thread : Bool) (mac : Str) : Body :=
  .tempdir fun tmp_dir => .call .CloudInitNew <| .call .CloudInitCreate <|
  let cfg := (QemuConfig.new tmp_dir osImage).withMachine machine |>.withSmp smp
    |>.withCloudInit (cidata tmp_dir) |>.withNet (.UserNet mac) |>.withCpuModel cpu
  let cfg := ovmf.elim cfg cfg.withOvmf
  .spawn (if io_thread then cfg.withIoThread else cfg) <|
  .call .SshPort <| .call .QueryStatus <| .call .Pattern <| .call .PollLine <|
  .call .SshCommand <| .call .Ensure .done

def testOsReboot (smp : UInt8) (mac : Str) : Body :=
  .tempdir fun tmp_dir => .call .CloudInitNew <| .call .CloudInitCreate <|
  .spawn ((QemuConfig.new tmp_dir osImage).withSmp smp |>.withCpuModel .HaswellV2
    |>.withCloudInit (cidata tmp_dir) |>.withNet (.UserNet mac) |>.withAllowReboot) <|
  .call .SshPort <| .call .Pattern <| .call .PollLine <| .call .SshCommand <|
  -- `ssh_fire_and_forget` cannot fail
  .call .Pattern <| .call .PollLine <| .call .SshCommand <| .call .ParseUptime <|
  .call .Ensure .done

/-! ## migration.rs -/

/-- `do_migration`. -/
def doMigration (next : Body) : Body :=
  .call .MigrateIncoming <| .call .Migrate <| .call .PollStatus <| .call .PollStatus next

/-- The three directories of a migration test. -/
def migrationDirs (next : Str → Str → Body) : Body :=
  .tempdir fun src_dir => .tempdir fun dst_dir => .tempdir fun _ => next src_dir dst_dir

def testLiveMigrationSimple : Body :=
  migrationDirs fun src_dir dst_dir => .call .Write <|
  let cfg := QemuConfig.new src_dir (guestBin src_dir (lit "guest.bin"))
  .spawn cfg <| .spawn (cfg.withIncoming dst_dir) <| doMigration <| .call .PollLine .done

def testLiveMigrationKernel (cpu : CpuModel) (smp : UInt8) : Body :=
  migrationDirs fun src_dir dst_dir =>
  let cfg := (QemuConfig.new src_dir (.Kernel kernel (some (lit "payload/initrd.img"))))
    |>.withCpuModel cpu |>.withSmp smp
  .spawn cfg <| .call .PollLine <| .spawn (cfg.withIncoming dst_dir) <|
  doMigration <| .call .PollLine .done

/-- `GATEWAY`. -/
def gateway : Str := lit "192.168.100.1"

/-- `NetConfig::tap` for one side of a pair. -/
def tapNet (ifname mac : Str) (taps : TapPair) : NetConfig :=
  .Tap mac ifname taps.guest_ip_cidr gateway

def testLiveMigrationOs (machine : Machine) (smp : UInt8) (stress_ng : Bool) (mac : Str) :
    Body :=
  migrationDirs fun src_dir dst_dir => .allocateTaps fun taps =>
  .call .CloudInitNew <| .call .CloudInitCreate <|
  let base_cfg := (QemuConfig.new src_dir osImage).withMachine machine |>.withCpuModel .Host
    |>.withSmp smp |>.withCloudInit (cidata src_dir)
    |>.withNet (tapNet taps.src_tap mac taps) |>.withRtcClock .Vm
  .spawn base_cfg <| .call .Pattern <| .call .PollLine <| .call .SshCommand <|
  let migrate := .spawn ((base_cfg.withIncoming dst_dir).withNet (tapNet taps.dst_tap mac taps)) <|
    doMigration <|
      if stress_ng then .call .SshCommand <| .call .Ensure .done else .done
  if stress_ng then .call .SshCommand migrate else migrate

/-- The tests that check processor state. -/
def stateTest (name : Str) (smp : UInt8) (after : Body) : Body :=
  migrationDirs fun src_dir dst_dir => .call .Write <|
  let cfg := (QemuConfig.new src_dir (guestBin src_dir name)).withCpuModel .Host
    |>.withMachine .Pc |>.withSmp smp
  .spawn cfg <| .call .PollLine <| .spawn (cfg.withIncoming dst_dir) <| doMigration after

def testLiveMigrationAvx2 (smp : UInt8) : Body :=
  stateTest (lit "guest_avx2.bin") smp (.call .PollLine .done)

def testLiveMigrationScalarState (smp : UInt8) : Body :=
  stateTest (lit "guest_scalar.bin") smp (.call .PollLine .done)

def testLiveMigrationFpSseState (smp : UInt8) : Body :=
  stateTest (lit "guest_fp_sse.bin") smp
    (.call .Pattern <| .call .PollLine <| .call .Ensure .done)

end Body

/-! ## All of them -/

/-- A test function with its arguments and the MAC it draws. -/
inductive Test where
  | SimpleGuestBin
  | PioStrGuestBin
  | MmioGuestBin
  | PioVmport
  | MmioRegs
  | KernelBoot (machine : Machine) (smp : UInt8) (cpu : Option CpuModel)
  | QuitTerminates (machine : Machine) (smp : UInt8)
  | OsBoot (cpu : CpuModel) (machine : Machine) (smp : UInt8) (ovmf : Option Str)
      (io_thread : Bool) (mac : Str)
  | OsReboot (smp : UInt8) (mac : Str)
  | LiveMigrationSimple
  | LiveMigrationKernel (cpu : CpuModel) (smp : UInt8)
  | LiveMigrationOs (machine : Machine) (smp : UInt8) (stress_ng : Bool) (mac : Str)
  | LiveMigrationAvx2 (smp : UInt8)
  | LiveMigrationScalarState (smp : UInt8)
  | LiveMigrationFpSseState (smp : UInt8)

def Test.body : Test → Body
  | .SimpleGuestBin => Body.testSimpleGuestBin
  | .PioStrGuestBin => Body.testPioStrGuestBin
  | .MmioGuestBin => Body.testMmioGuestBin
  | .PioVmport => Body.testPioVmport
  | .MmioRegs => Body.testMmioRegs
  | .KernelBoot machine smp cpu => Body.testKernelBoot machine smp cpu
  | .QuitTerminates machine smp => Body.testQuitTerminates machine smp
  | .OsBoot cpu machine smp ovmf io_thread mac =>
      Body.testOsBoot cpu machine smp ovmf io_thread mac
  | .OsReboot smp mac => Body.testOsReboot smp mac
  | .LiveMigrationSimple => Body.testLiveMigrationSimple
  | .LiveMigrationKernel cpu smp => Body.testLiveMigrationKernel cpu smp
  | .LiveMigrationOs machine smp stress_ng mac => Body.testLiveMigrationOs machine smp stress_ng mac
  | .LiveMigrationAvx2 smp => Body.testLiveMigrationAvx2 smp
  | .LiveMigrationScalarState smp => Body.testLiveMigrationScalarState smp
  | .LiveMigrationFpSseState smp => Body.testLiveMigrationFpSseState smp

/-! ## The bodies fit -/

/-- A process takes the directory acquired first, and the devices acquired last. -/
theorem fits_spawn {cfg : QemuConfig Str} {next : Body} {tmp_dir : Str}
    {free : List Resource} (taken rest : List Resource)
    (hcfg : cfg.resources = .dir tmp_dir :: taken)
    (hfree : free = taken ++ rest ++ [.dir tmp_dir]) (h : next.Fits rest) :
    (Body.spawn cfg next).Fits free := by
  refine ⟨rest, ?_, h⟩
  rw [hcfg, hfree]
  exact List.perm_append_singleton _ _

theorem fits_guestBinTest (name : Str) : (Body.guestBinTest name).Fits [] :=
  fun _ => fits_spawn [] [] rfl rfl trivial

theorem fits_stateTest (name : Str) (smp : UInt8) {after : Body}
    (h : ∀ free, after.Fits free) : (Body.stateTest name smp after).Fits [] := by
  intro src_dir dst_dir mig_dir
  refine fits_spawn [] [.dir mig_dir, .dir dst_dir] rfl rfl ?_
  exact fits_spawn [] [.dir mig_dir] rfl rfl (h _)

/-- With taps, the source takes the first device of the pair, and the
destination the second. -/
theorem fits_testLiveMigrationOs (machine : Machine) (smp : UInt8) (stress_ng : Bool)
    (mac : Str) : (Body.testLiveMigrationOs machine smp stress_ng mac).Fits [] := by
  intro src_dir dst_dir mig_dir taps
  refine fits_spawn [.device taps.src_tap]
    [.device taps.dst_tap, .dir mig_dir, .dir dst_dir] rfl rfl ?_
  have hdst : ∀ {cfg : QemuConfig Str} {after : Body},
      cfg.resources = [.dir dst_dir, .device taps.dst_tap] → (∀ free, after.Fits free) →
        (Body.spawn cfg after).Fits [.device taps.dst_tap, .dir mig_dir, .dir dst_dir] :=
    fun hcfg h => fits_spawn [.device taps.dst_tap] [.dir mig_dir] hcfg rfl (h _)
  cases stress_ng with
  | true => exact hdst rfl fun _ => trivial
  | false => exact hdst rfl fun _ => trivial

/-- **Every test fits**: no statement of a test function gives a directory or a
device to two processes, or to one before it is acquired. -/
theorem fits_body (t : Test) : t.body.Fits [] := by
  cases t with
  | SimpleGuestBin => exact fits_guestBinTest _
  | PioStrGuestBin => exact fun _ => fits_spawn [] [] rfl rfl trivial
  | MmioGuestBin => exact fits_guestBinTest _
  | PioVmport => exact fits_guestBinTest _
  | MmioRegs => exact fits_guestBinTest _
  | KernelBoot machine smp cpu =>
      intro _
      cases cpu <;> exact fits_spawn [] [] rfl rfl trivial
  | QuitTerminates machine smp => exact fun _ => fits_spawn [] [] rfl rfl trivial
  | OsBoot cpu machine smp ovmf io_thread mac =>
      intro _
      cases ovmf <;> cases io_thread <;> exact fits_spawn [] [] rfl rfl trivial
  | OsReboot smp mac => exact fun _ => fits_spawn [] [] rfl rfl trivial
  | LiveMigrationSimple =>
      intro src_dir dst_dir mig_dir
      refine fits_spawn [] [.dir mig_dir, .dir dst_dir] rfl rfl ?_
      exact fits_spawn [] [.dir mig_dir] rfl rfl trivial
  | LiveMigrationKernel cpu smp =>
      intro src_dir dst_dir mig_dir
      refine fits_spawn [] [.dir mig_dir, .dir dst_dir] rfl rfl ?_
      exact fits_spawn [] [.dir mig_dir] rfl rfl trivial
  | LiveMigrationOs machine smp stress_ng mac => exact fits_testLiveMigrationOs _ _ _ _
  | LiveMigrationAvx2 smp => exact fits_stateTest _ _ fun _ => trivial
  | LiveMigrationScalarState smp => exact fits_stateTest _ _ fun _ => trivial
  | LiveMigrationFpSseState smp => exact fits_stateTest _ _ fun _ => trivial

end QemuTest
