import QemuTest.Lib.Path
import QemuTest.Process.Spawn
import QemuTest.Util.Net

/-!
# Process — Command

The QEMU command line of `process.rs`: `QemuConfig` with its builder, the
`GuestConfig` that `spawn` copies it to, and the arguments rendered from that.

Paths stay abstract: the arguments hold what a path displays as.
-/

namespace QemuTest

open Text Path

/-! ## Settings -/

inductive Machine where
  | Pc
  | Q35
  deriving DecidableEq, Repr

inductive CpuModel where
  | Host
  | Qemu64
  | HaswellV2
  deriving DecidableEq, Repr

inductive RtcClock where
  | Vm
  deriving DecidableEq, Repr

def Accelerator.display : Accelerator → Str
  | .Kvm => lit "kvm"
  | .Mshv => lit "mshv"

def Machine.display : Machine → Str
  | .Pc => lit "pc"
  | .Q35 => lit "q35"

def CpuModel.display : CpuModel → Str
  | .Host => lit "host"
  | .Qemu64 => lit "qemu64"
  | .HaswellV2 => lit "Haswell-v2"

def RtcClock.display : RtcClock → Str
  | .Vm => lit "vm"

inductive QemuPayload (P : Type) where
  | GuestBin (path : P)
  | Kernel (kernel : P) (initrd : Option P)
  | DiskImage (path : P)

structure GuestConfig (P : Type) where
  ram_mb : UInt16
  qmp_sock_path : P
  serial_log_path : P
  accel : Accelerator
  machine : Machine
  payload : Option (QemuPayload P)
  smp : Option UInt8
  incoming : Bool
  cpu_model : Option CpuModel
  cloud_init : Option P
  net : Option NetConfig
  ovmf : Option P
  io_thread : Bool
  rtc_clock : Option RtcClock
  allow_reboot : Bool

variable {P : Type} [PathBuf P]

/-! ## Arguments -/

def qmpArg (path : P) : Str :=
  lit "unix:" ++ PathBuf.display path ++ lit ",server=on,wait=off"

def serialArg (path : P) : Str := lit "file:" ++ PathBuf.display path

def netdevArg (ifname : Str) : Str :=
  lit "tap,id=net0,ifname=" ++ ifname ++ lit ",script=no,downscript=no"

def buildOsdiskArg (cfg : GuestConfig P) (path : P) : List Str :=
  let io_thread_option := if cfg.io_thread then lit ",iothread=io0" else []
  [lit "-drive",
    lit "file=" ++ PathBuf.display path ++ lit ",format=qcow2,if=none,id=os,snapshot=on",
    lit "-device", lit "virtio-blk-pci,drive=os" ++ io_thread_option]

def buildKernelArgs (kernel : P) (initrd : Option P) : List Str :=
  [lit "-kernel", PathBuf.display kernel, lit "-append",
    lit "console=ttyS0 earlyprintk=serial panic=-1"]
    ++ initrd.elim [] fun initrd => [lit "-initrd", PathBuf.display initrd]

def payloadArgs (cfg : GuestConfig P) : QemuPayload P → List Str
  | .GuestBin path =>
      [lit "-drive", lit "format=raw,file=" ++ PathBuf.display path ++ lit ",media=disk"]
  | .Kernel kernel initrd => buildKernelArgs kernel initrd
  | .DiskImage path => buildOsdiskArg cfg path

def ovmfArgs (path : P) : List Str :=
  [lit "-drive",
    lit "file=" ++ PathBuf.display path ++ lit ",format=raw,if=pflash,readonly=on"]

def cloudInitArgs (ci : P) : List Str :=
  [lit "-drive",
    lit "file=" ++ PathBuf.display ci ++ lit ",format=raw,if=none,id=cidata,readonly=on",
    lit "-device", lit "virtio-blk-pci,drive=cidata"]

def netArgs (net_config : NetConfig) : List Str :=
  (match net_config with
    | .UserNet _ => [lit "-netdev", lit "type=user,id=net0,hostfwd=tcp::0-:22"]
    | .Tap _ ifname _ _ => [lit "-netdev", netdevArg ifname])
    ++ [lit "-device", lit "virtio-net-pci,mac=" ++ net_config.mac ++ lit ",netdev=net0"]

/-- `From<&GuestConfig> for Vec<String>`. -/
def GuestConfig.args (cfg : GuestConfig P) : List Str :=
  [lit "-display", lit "none"]
    ++ (if cfg.allow_reboot then [] else [lit "-no-reboot"])
    ++ (cfg.cpu_model.elim [] fun cpu => [lit "-cpu", cpu.display])
    ++ [lit "-qmp", qmpArg cfg.qmp_sock_path]
    ++ [lit "-serial", serialArg cfg.serial_log_path]
    ++ [lit "-accel", cfg.accel.display]
    ++ [lit "-M", cfg.machine.display]
    ++ (if cfg.io_thread then [lit "-object", lit "iothread,id=io0"] else [])
    ++ (cfg.payload.elim [] fun payload => payloadArgs cfg payload)
    ++ [lit "-m", decimal cfg.ram_mb.toNat ++ lit "m"]
    ++ (cfg.smp.elim [] fun smp => [lit "-smp", decimal smp.toNat])
    ++ (if cfg.incoming then [lit "-incoming", lit "defer"] else [])
    ++ (cfg.rtc_clock.elim [] fun rtc_clock => [lit "-rtc", lit "clock=" ++ rtc_clock.display])
    ++ (cfg.ovmf.elim [] fun path => ovmfArgs path)
    ++ (cfg.cloud_init.elim [] fun ci => cloudInitArgs ci)
    ++ (cfg.net.elim [] fun net_config => netArgs net_config)

/-! ## The builder -/

/-- The directory is the path of the `TempDir`. -/
structure QemuConfig (P : Type) where
  temp_dir : P
  payload : QemuPayload P
  ram_mb : UInt16
  incoming : Bool
  machine : Machine
  smp : Option UInt8
  cpu_model : Option CpuModel
  cloud_init : Option P
  net : Option NetConfig
  ovmf : Option P
  io_thread : Bool
  rtc_clock : Option RtcClock
  allow_reboot : Bool

namespace QemuConfig

def new (temp_dir : P) (payload : QemuPayload P) : QemuConfig P where
  temp_dir := temp_dir
  payload := payload
  ram_mb := match payload with
    | .GuestBin _ => 32
    | .Kernel _ _ => 256
    | .DiskImage _ => 1536
  incoming := false
  machine := .Pc
  smp := none
  cpu_model := none
  cloud_init := none
  net := none
  ovmf := none
  io_thread := false
  rtc_clock := none
  allow_reboot := false

def withIncoming (cfg : QemuConfig P) (temp_dir : P) : QemuConfig P :=
  { cfg with incoming := true, temp_dir }

def withMachine (cfg : QemuConfig P) (machine : Machine) : QemuConfig P :=
  { cfg with machine }

def withSmp (cfg : QemuConfig P) (smp : UInt8) : QemuConfig P :=
  { cfg with smp := some smp }

def withCpuModel (cfg : QemuConfig P) (cpu_model : CpuModel) : QemuConfig P :=
  { cfg with cpu_model := some cpu_model }

def withCloudInit (cfg : QemuConfig P) (path : P) : QemuConfig P :=
  { cfg with cloud_init := some path }

def withNet (cfg : QemuConfig P) (config : NetConfig) : QemuConfig P :=
  { cfg with net := some config }

def withOvmf (cfg : QemuConfig P) (path : P) : QemuConfig P :=
  { cfg with ovmf := some path }

def withIoThread (cfg : QemuConfig P) : QemuConfig P :=
  { cfg with io_thread := true }

def withRtcClock (cfg : QemuConfig P) (clock : RtcClock) : QemuConfig P :=
  { cfg with rtc_clock := some clock }

def withAllowReboot (cfg : QemuConfig P) : QemuConfig P :=
  { cfg with allow_reboot := true }

end QemuConfig

/-- A `with_*` call. -/
inductive BuilderCall (P : Type) where
  | withIncoming (temp_dir : P)
  | withMachine (machine : Machine)
  | withSmp (smp : UInt8)
  | withCpuModel (cpu_model : CpuModel)
  | withCloudInit (path : P)
  | withNet (config : NetConfig)
  | withOvmf (path : P)
  | withIoThread
  | withRtcClock (clock : RtcClock)
  | withAllowReboot

def BuilderCall.run (cfg : QemuConfig P) : BuilderCall P → QemuConfig P
  | .withIncoming temp_dir => cfg.withIncoming temp_dir
  | .withMachine machine => cfg.withMachine machine
  | .withSmp smp => cfg.withSmp smp
  | .withCpuModel cpu_model => cfg.withCpuModel cpu_model
  | .withCloudInit path => cfg.withCloudInit path
  | .withNet config => cfg.withNet config
  | .withOvmf path => cfg.withOvmf path
  | .withIoThread => cfg.withIoThread
  | .withRtcClock clock => cfg.withRtcClock clock
  | .withAllowReboot => cfg.withAllowReboot

/-- A configuration built by `new` and a chain of calls. -/
def QemuConfig.build (temp_dir : P) (payload : QemuPayload P)
    (calls : List (BuilderCall P)) : QemuConfig P :=
  calls.foldl BuilderCall.run (.new temp_dir payload)

/-- The guest configuration `spawn` makes of its argument. -/
def QemuConfig.guest (accel : Accelerator) (cfg : QemuConfig P) : GuestConfig P where
  ram_mb := cfg.ram_mb
  qmp_sock_path := PathBuf.join cfg.temp_dir (lit "qmp.sock")
  serial_log_path := PathBuf.join cfg.temp_dir (lit "serial.log")
  accel := accel
  machine := cfg.machine
  payload := some cfg.payload
  smp := cfg.smp
  incoming := cfg.incoming
  cpu_model := cfg.cpu_model
  cloud_init := cfg.cloud_init
  net := cfg.net
  ovmf := cfg.ovmf
  io_thread := cfg.io_thread
  rtc_clock := cfg.rtc_clock
  allow_reboot := cfg.allow_reboot

/-- The arguments `spawn` starts QEMU with. -/
def spawnArgs (accel : Accelerator) (cfg : QemuConfig P) : List Str :=
  (cfg.guest accel).args

/-! ## Source and destination -/

omit [PathBuf P] in
/-- Only `with_incoming` sets the flag. -/
theorem incoming_run {cfg : QemuConfig P} {call : BuilderCall P}
    (h : ∀ d, call ≠ .withIncoming d) : (call.run cfg).incoming = cfg.incoming := by
  cases call with
  | withIncoming d => exact absurd rfl (h d)
  | _ => rfl

omit [PathBuf P] in
/-- A configuration built without `with_incoming` is not incoming. -/
theorem incoming_build (temp_dir : P) (payload : QemuPayload P)
    {calls : List (BuilderCall P)} (h : ∀ call ∈ calls, ∀ d, call ≠ .withIncoming d) :
    (QemuConfig.build temp_dir payload calls).incoming = false := by
  suffices hrun : ∀ cfg : QemuConfig P,
      (calls.foldl BuilderCall.run cfg).incoming = cfg.incoming from hrun _
  induction calls with
  | nil => exact fun _ => rfl
  | cons call calls ih =>
      intro cfg
      rw [List.foldl_cons, ih fun c hc => h c (List.mem_cons_of_mem _ hc),
        incoming_run (h call List.mem_cons_self)]

/-- The arguments in front of the two paths under the directory. -/
def headArgs (cfg : QemuConfig P) : List Str :=
  [lit "-display", lit "none"]
    ++ (if cfg.allow_reboot then [] else [lit "-no-reboot"])
    ++ (cfg.cpu_model.elim [] fun cpu => [lit "-cpu", cpu.display])

/-- The two options with a path under the directory. -/
def dirArgs (temp_dir : P) : List Str :=
  [lit "-qmp", qmpArg (PathBuf.join temp_dir (lit "qmp.sock")),
    lit "-serial", serialArg (PathBuf.join temp_dir (lit "serial.log"))]

/-- From there to the place of `-incoming`. -/
def midArgs (accel : Accelerator) (cfg : QemuConfig P) : List Str :=
  [lit "-accel", accel.display]
    ++ [lit "-M", cfg.machine.display]
    ++ (if cfg.io_thread then [lit "-object", lit "iothread,id=io0"] else [])
    ++ payloadArgs (cfg.guest accel) cfg.payload
    ++ [lit "-m", decimal cfg.ram_mb.toNat ++ lit "m"]
    ++ (cfg.smp.elim [] fun smp => [lit "-smp", decimal smp.toNat])

def incomingArgs (cfg : QemuConfig P) : List Str :=
  if cfg.incoming then [lit "-incoming", lit "defer"] else []

/-- From there to the network. -/
def diskArgs (cfg : QemuConfig P) : List Str :=
  (cfg.rtc_clock.elim [] fun rtc_clock => [lit "-rtc", lit "clock=" ++ rtc_clock.display])
    ++ (cfg.ovmf.elim [] fun path => ovmfArgs path)
    ++ (cfg.cloud_init.elim [] fun ci => cloudInitArgs ci)

/-- The command line, cut where the two sides of a migration can differ. -/
theorem spawnArgs_eq (accel : Accelerator) (cfg : QemuConfig P) :
    spawnArgs accel cfg
      = headArgs cfg ++ dirArgs cfg.temp_dir ++ midArgs accel cfg ++ incomingArgs cfg
          ++ diskArgs cfg ++ (cfg.net.elim [] fun net_config => netArgs net_config) := by
  simp only [spawnArgs, GuestConfig.args, headArgs, dirArgs, midArgs, incomingArgs,
    diskArgs, List.append_assoc, List.cons_append, List.nil_append]
  rfl

/-- The payload is rendered without looking at the directory or the network. -/
theorem payloadArgs_congr {cfg : GuestConfig P} (cfg' : GuestConfig P)
    (h : cfg.io_thread = cfg'.io_thread) (payload : QemuPayload P) :
    payloadArgs cfg payload = payloadArgs cfg' payload := by
  cases payload with
  | DiskImage path => simp only [payloadArgs, buildOsdiskArg, h]
  | _ => rfl

/-- The destination's command line in the parts of the source's. -/
theorem spawnArgs_destination (accel : Accelerator) (cfg : QemuConfig P) (d : P)
    (net : Option NetConfig) :
    spawnArgs accel { cfg.withIncoming d with net }
      = headArgs cfg ++ dirArgs d ++ midArgs accel cfg ++ [lit "-incoming", lit "defer"]
          ++ diskArgs cfg ++ (net.elim [] fun net_config => netArgs net_config) := by
  have hmid : midArgs accel { cfg.withIncoming d with net } = midArgs accel cfg := by
    unfold midArgs
    rw [payloadArgs_congr (cfg.guest accel) rfl]
    rfl
  rw [spawnArgs_eq, hmid]
  rfl

/-- **Source and destination agree**: with `with_incoming` the two paths under
the directory change and `-incoming defer` is inserted, and nothing else; with
a tap of another name for the same MAC, the name changes too, and nothing
else. -/
theorem spawnArgs_withIncoming (accel : Accelerator) (temp_dir : P)
    (payload : QemuPayload P) (calls : List (BuilderCall P))
    (h : ∀ call ∈ calls, ∀ d, call ≠ .withIncoming d) (d : P) :
    let c := QemuConfig.build temp_dir payload calls
    ∃ head mid tail : List Str,
      spawnArgs accel c
        = head ++ dirArgs c.temp_dir ++ mid ++ tail ∧
      spawnArgs accel (c.withIncoming d)
        = head ++ dirArgs d ++ mid ++ [lit "-incoming", lit "defer"] ++ tail ∧
      ∀ mac ifname guest_ip gateway, c.net = some (.Tap mac ifname guest_ip gateway) →
        ∃ before after, tail = before ++ netdevArg ifname :: after ∧
          ∀ ifname' guest_ip' gateway',
            spawnArgs accel
                ((c.withIncoming d).withNet (.Tap mac ifname' guest_ip' gateway'))
              = head ++ dirArgs d ++ mid ++ [lit "-incoming", lit "defer"]
                  ++ (before ++ netdevArg ifname' :: after) := by
  intro c
  have hinc : c.incoming = false := incoming_build temp_dir payload h
  refine ⟨headArgs c, midArgs accel c,
    diskArgs c ++ (c.net.elim [] fun net_config => netArgs net_config), ?_, ?_, ?_⟩
  · rw [spawnArgs_eq, incomingArgs, hinc]
    simp
  · rw [← List.append_assoc]
    exact spawnArgs_destination accel c d c.net
  · intro mac ifname guest_ip gateway hnet
    refine ⟨diskArgs c ++ [lit "-netdev"],
      [lit "-device", lit "virtio-net-pci,mac=" ++ mac ++ lit ",netdev=net0"], ?_, ?_⟩
    · simp [hnet, netArgs, NetConfig.mac]
    · intro ifname' guest_ip' gateway'
      refine (spawnArgs_destination accel c d
        (some (.Tap mac ifname' guest_ip' gateway'))).trans ?_
      simp [netArgs, NetConfig.mac]

/-- The builder calls of `test_live_migration_os`. -/
def migrationCalls (net : NetConfig) : List (BuilderCall Str) :=
  [.withMachine .Q35, .withCpuModel .Host, .withSmp 2,
    .withCloudInit (lit "/tmp/src/cidata.img"), .withNet net, .withRtcClock .Vm]

/-- The source of `test_live_migration_os`. -/
def migrationSource : QemuConfig Str :=
  QemuConfig.build (lit "/tmp/src") (.DiskImage (lit "payload/os-image.qcow2"))
    (migrationCalls (.Tap (lit "52:54:00:00:00:01") (lit "tap-qemu-0") [] []))

theorem spawnArgs_withIncoming_os :
    ∃ head mid before after : List Str,
      spawnArgs .Kvm migrationSource
        = head ++ [lit "-qmp", lit "unix:/tmp/src/qmp.sock,server=on,wait=off",
            lit "-serial", lit "file:/tmp/src/serial.log"] ++ mid
          ++ (before ++ lit "tap,id=net0,ifname=tap-qemu-0,script=no,downscript=no" :: after) ∧
      spawnArgs .Kvm ((migrationSource.withIncoming (lit "/tmp/dst")).withNet
          (.Tap (lit "52:54:00:00:00:01") (lit "tap-qemu-1") [] []))
        = head ++ [lit "-qmp", lit "unix:/tmp/dst/qmp.sock,server=on,wait=off",
            lit "-serial", lit "file:/tmp/dst/serial.log"] ++ mid
          ++ [lit "-incoming", lit "defer"]
          ++ (before ++ lit "tap,id=net0,ifname=tap-qemu-1,script=no,downscript=no" :: after) := by
  obtain ⟨head, mid, tail, hsrc, -, htap⟩ := spawnArgs_withIncoming .Kvm (lit "/tmp/src")
    (.DiskImage (lit "payload/os-image.qcow2"))
    (migrationCalls (.Tap (lit "52:54:00:00:00:01") (lit "tap-qemu-0") [] []))
    (by simp [migrationCalls]) (lit "/tmp/dst")
  obtain ⟨before, after, rfl, hdst⟩ := htap (lit "52:54:00:00:00:01") (lit "tap-qemu-0") [] []
    rfl
  have hsrcDir : dirArgs (lit "/tmp/src") = [lit "-qmp",
      lit "unix:/tmp/src/qmp.sock,server=on,wait=off", lit "-serial",
      lit "file:/tmp/src/serial.log"] := by decide +kernel
  have hdstDir : dirArgs (lit "/tmp/dst") = [lit "-qmp",
      lit "unix:/tmp/dst/qmp.sock,server=on,wait=off", lit "-serial",
      lit "file:/tmp/dst/serial.log"] := by decide +kernel
  have hsrcTap : netdevArg (lit "tap-qemu-0")
      = lit "tap,id=net0,ifname=tap-qemu-0,script=no,downscript=no" := by decide +kernel
  have hdstTap : netdevArg (lit "tap-qemu-1")
      = lit "tap,id=net0,ifname=tap-qemu-1,script=no,downscript=no" := by decide +kernel
  rw [← hsrcDir, ← hdstDir, ← hsrcTap, ← hdstTap]
  exact ⟨head, mid, before, after, hsrc, hdst (lit "tap-qemu-1") [] []⟩

end QemuTest
