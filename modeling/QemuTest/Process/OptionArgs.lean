import Mathlib.Data.List.Nodup
import QemuTest.Lib.Options
import QemuTest.Process.Command
import QemuTest.Util.TapPool

/-!
# Process — OptionArgs

The command line as QEMU reads it: options with their values, the values of
`-drive`, `-netdev`, `-object`, `-device` and `-qmp` as option strings. The
first item of `-qmp` is the socket path.

Nothing doubles a comma of a path, so the option strings say what was
configured exactly where no path has one.
-/

namespace QemuTest

open Text Path Options

/-! ## Reading the command line -/

def noReboot : Str := lit "-no-reboot"

/-- The values of an option, in order: every option but `-no-reboot` is
followed by its value. -/
def values (name : Str) : List Str → List Str
  | [] => []
  | [_] => []
  | a :: v :: rest =>
      if a = noReboot then values name (v :: rest)
      else if a = name then v :: values name rest
      else values name rest

/-- Whole options with their values. -/
inductive Complete : List Str → Prop where
  | nil : Complete []
  | option {name value : Str} {rest : List Str} :
      name ≠ noReboot → Complete rest → Complete (name :: value :: rest)

/-- The values an option string has for a key. -/
def keyed (key : Str) (fs : List (Str × Option Str)) : List Str :=
  fs.filterMap fun f => if f.1 = key then f.2 else none

/-- The ids the values of an option define. -/
def definedIds (option : Str) (args : List Str) : List Str :=
  ((values option args).map fields).flatMap (keyed (lit "id"))

/-- What the devices refer to under a key. -/
def references (key : Str) (args : List Str) : List Str :=
  ((values (lit "-device") args).map fields).flatMap (keyed key)

/-- Each reference names exactly one of the ids defined. -/
def Resolved (args : List Str) (key option : Str) : Prop :=
  ∀ id ∈ references key args, (definedIds option args).count id = 1

/-! ## What is meant -/

/-- A fixed key of an option string. -/
def fixed (key value : String) : Str × Option Str := (lit key, some (lit value))

def intendedPayload : QemuPayload Str → List (List (Str × Option Str))
  | .GuestBin path => [[fixed "format" "raw", (lit "file", some path), fixed "media" "disk"]]
  | .Kernel _ _ => []
  | .DiskImage path =>
      [[(lit "file", some path), fixed "format" "qcow2", fixed "if" "none", fixed "id" "os",
        fixed "snapshot" "on"]]

def intendedOvmf (path : Str) : List (Str × Option Str) :=
  [(lit "file", some path), fixed "format" "raw", fixed "if" "pflash",
    fixed "readonly" "on"]

def intendedCloudInit (ci : Str) : List (Str × Option Str) :=
  [(lit "file", some ci), fixed "format" "raw", fixed "if" "none", fixed "id" "cidata",
    fixed "readonly" "on"]

def intendedDrives (cfg : GuestConfig Str) : List (List (Str × Option Str)) :=
  cfg.payload.elim [] intendedPayload
    ++ cfg.ovmf.elim [] (fun path => [intendedOvmf path])
    ++ cfg.cloud_init.elim [] (fun ci => [intendedCloudInit ci])

/-- The items of `-qmp` behind `unix:`: the path, and the fixed keys. -/
def readQmp (arg : Str) : Str × List (Str × Option Str) :=
  let s := arg.drop (lit "unix:").length
  (firstItem s, (items s).tail.map field)

def intendedQmp (path : Str) : Str × List (Str × Option Str) :=
  (path, [fixed "server" "on", fixed "wait" "off"])

/-- The option strings say what was configured, and references resolve. -/
structure Faithful (cfg : GuestConfig Str) : Prop where
  drives : (values (lit "-drive") cfg.args).map fields = intendedDrives cfg
  qmp : (values (lit "-qmp") cfg.args).map readQmp = [intendedQmp cfg.qmp_sock_path]
  drive_refs : Resolved cfg.args (lit "drive") (lit "-drive")
  netdev_refs : Resolved cfg.args (lit "netdev") (lit "-netdev")
  iothread_refs : Resolved cfg.args (lit "iothread") (lit "-object")

/-- The paths of a payload that are written into an option string. -/
def QemuPayload.optionPaths : QemuPayload Str → List Str
  | .GuestBin path => [path]
  | .Kernel _ _ => []
  | .DiskImage path => [path]

/-- All paths that are. -/
def GuestConfig.optionPaths (cfg : GuestConfig Str) : List Str :=
  cfg.qmp_sock_path :: (cfg.payload.elim [] QemuPayload.optionPaths
    ++ cfg.ovmf.toList ++ cfg.cloud_init.toList)

/-! ## Options of the command line -/

theorem lit_inj {s t : String} : lit s = lit t ↔ s = t := by
  rw [lit, lit]
  exact String.toList_inj

theorem values_option {a : Str} (ha : a ≠ noReboot) (name v : Str) (rest : List Str) :
    values name (a :: v :: rest)
      = if a = name then v :: values name rest else values name rest := by
  rw [values, if_neg ha]

/-- The value of the option asked for comes first. -/
theorem values_self {s : String} (hs : s ≠ "-no-reboot") (v : Str) (rest : List Str) :
    values (lit s) (lit s :: v :: rest) = v :: values (lit s) rest := by
  rw [values_option fun h => hs (lit_inj.mp h), if_pos rfl]

/-- The value of another option is passed over. -/
theorem values_other {s t : String} (hs : s ≠ "-no-reboot") (hst : s ≠ t) (v : Str)
    (rest : List Str) : values (lit t) (lit s :: v :: rest) = values (lit t) rest := by
  rw [values_option fun h => hs (lit_inj.mp h), if_neg fun h => hst (lit_inj.mp h)]

theorem values_noReboot (name : Str) (rest : List Str) :
    values name (noReboot :: rest) = values name rest := by
  cases rest with
  | nil => rfl
  | cons v rest => rw [values, if_pos rfl]

theorem values_append {l : List Str} (h : Complete l) (name : Str) (rest : List Str) :
    values name (l ++ rest) = values name l ++ values name rest := by
  induction h with
  | nil => rfl
  | option hne _ ih =>
      rw [List.cons_append, List.cons_append, values_option hne, values_option hne, ih]
      split
      · rfl
      · rfl

theorem Complete.pair {name : Str} (h : name ≠ noReboot) (value : Str) :
    Complete [name, value] := .option h .nil

theorem Complete.elim {α : Type} {f : α → List Str} (h : ∀ a, Complete (f a))
    (o : Option α) : Complete (o.elim [] f) := by
  cases o with
  | none => exact .nil
  | some a => exact h a

theorem values_elim {α : Type} (name : Str) (f : α → List Str) (o : Option α) :
    values name (o.elim [] f) = o.elim [] fun a => values name (f a) := by
  cases o <;> rfl

/-- The options behind `-display` and `-no-reboot`. -/
def GuestConfig.segments (cfg : GuestConfig Str) : List (List Str) :=
  [cfg.cpu_model.elim [] fun cpu => [lit "-cpu", cpu.display],
    [lit "-qmp", qmpArg cfg.qmp_sock_path],
    [lit "-serial", serialArg cfg.serial_log_path],
    [lit "-accel", cfg.accel.display],
    [lit "-M", cfg.machine.display],
    if cfg.io_thread then [lit "-object", lit "iothread,id=io0"] else [],
    cfg.payload.elim [] fun payload => payloadArgs cfg payload,
    [lit "-m", decimal cfg.ram_mb.toNat ++ lit "m"],
    cfg.smp.elim [] fun smp => [lit "-smp", decimal smp.toNat],
    if cfg.incoming then [lit "-incoming", lit "defer"] else [],
    cfg.rtc_clock.elim [] fun rtc_clock => [lit "-rtc", lit "clock=" ++ rtc_clock.display],
    cfg.ovmf.elim [] fun path => ovmfArgs path,
    cfg.cloud_init.elim [] fun ci => cloudInitArgs ci,
    cfg.net.elim [] fun net_config => netArgs net_config]

theorem values_flatten {ls : List (List Str)} (h : ∀ l ∈ ls, Complete l) (name : Str) :
    values name ls.flatten = ls.flatMap (values name) := by
  induction ls with
  | nil => rfl
  | cons l ls ih =>
      rw [List.flatten_cons, values_append (h l List.mem_cons_self),
        ih fun l' hl' => h l' (List.mem_cons_of_mem _ hl'), List.flatMap_cons]

theorem complete_payloadArgs (cfg : GuestConfig Str) (payload : QemuPayload Str) :
    Complete (payloadArgs cfg payload) := by
  have hne : ∀ s : String, s ≠ "-no-reboot" → lit s ≠ noReboot :=
    fun s hs h => hs (lit_inj.mp h)
  cases payload with
  | GuestBin path => exact .pair (hne _ (by decide)) _
  | Kernel kernel initrd =>
      refine .option (hne _ (by decide)) (.option (hne _ (by decide)) ?_)
      exact .elim (fun _ => .pair (hne _ (by decide)) _) _
  | DiskImage path => exact .option (hne _ (by decide)) (.pair (hne _ (by decide)) _)

theorem complete_segments (cfg : GuestConfig Str) : ∀ l ∈ cfg.segments, Complete l := by
  have hne : ∀ s : String, s ≠ "-no-reboot" → lit s ≠ noReboot :=
    fun s hs h => hs (lit_inj.mp h)
  have hpair : ∀ (s : String) (v : Str), s ≠ "-no-reboot" → Complete [lit s, v] :=
    fun s v hs => .pair (hne s hs) v
  simp only [GuestConfig.segments, List.forall_mem_cons]
  refine ⟨.elim (fun _ => hpair _ _ (by decide)) _, hpair _ _ (by decide),
    hpair _ _ (by decide), hpair _ _ (by decide), hpair _ _ (by decide), ?_,
    .elim (complete_payloadArgs cfg) _, hpair _ _ (by decide),
    .elim (fun _ => hpair _ _ (by decide)) _, ?_, .elim (fun _ => hpair _ _ (by decide)) _,
    .elim (fun _ => hpair _ _ (by decide)) _, .elim (fun _ => ?_) _,
    .elim (fun net => ?_) _, by simp⟩
  · split
    · exact hpair _ _ (by decide)
    · exact .nil
  · split
    · exact hpair _ _ (by decide)
    · exact .nil
  · exact .option (hne _ (by decide)) (hpair _ _ (by decide))
  · cases net <;> exact .option (hne _ (by decide)) (hpair _ _ (by decide))

/-- The values of an option, segment by segment. -/
theorem values_args (cfg : GuestConfig Str) {name : Str} (hname : name ≠ lit "-display") :
    values name cfg.args = cfg.segments.flatMap (values name) := by
  have hargs : cfg.args = [lit "-display", lit "none"]
      ++ ((if cfg.allow_reboot then [] else [noReboot]) ++ cfg.segments.flatten) := by
    simp only [GuestConfig.args, GuestConfig.segments, noReboot, List.flatten_cons,
      List.flatten_nil, List.append_assoc, List.append_nil]
  have hdisplay : lit "-display" ≠ noReboot := fun h => absurd (lit_inj.mp h) (by simp)
  rw [hargs, values_append (.pair hdisplay _), values_option hdisplay,
    if_neg (Ne.symm hname)]
  have hflag : values name ((if cfg.allow_reboot then [] else [noReboot])
      ++ cfg.segments.flatten) = values name cfg.segments.flatten := by
    split
    · rw [List.nil_append]
    · rw [List.singleton_append, values_noReboot]
  rw [hflag, values_flatten (complete_segments cfg), values, List.nil_append]

@[simp] theorem values_nil (name : Str) : values name [] = [] := rfl

theorem values_ite (name : Str) (c : Prop) [Decidable c] (l l' : List Str) :
    values name (if c then l else l') = if c then values name l else values name l' :=
  apply_ite _ _ _ _

theorem elim_nil {α γ : Type} (o : Option α) : (o.elim [] fun _ => ([] : List γ)) = [] := by
  cases o <;> rfl

theorem netArgs_eq (net : NetConfig) :
    ∃ netdev, netArgs net = [lit "-netdev", netdev, lit "-device",
      lit "virtio-net-pci,mac=" ++ net.mac ++ lit ",netdev=net0"] := by
  cases net <;> exact ⟨_, rfl⟩

/-- The network adds its own two options. -/
theorem values_net_other {t : String} (ht : "-netdev" ≠ t) (ht' : "-device" ≠ t)
    (net : NetConfig) : values (lit t) (netArgs net) = [] := by
  obtain ⟨netdev, hnet⟩ := netArgs_eq net
  simp [hnet, values_other, ht, ht']

/-- A payload adds disks, devices or a kernel. -/
theorem values_payload_other {t : String} (ht : "-drive" ≠ t) (ht' : "-device" ≠ t)
    (hk : t ∉ ["-kernel", "-append", "-initrd"]) (cfg : GuestConfig Str)
    (payload : QemuPayload Str) : values (lit t) (payloadArgs cfg payload) = [] := by
  simp only [List.mem_cons, List.not_mem_nil, or_false, not_or] at hk
  obtain ⟨hkernel, happend, hinitrd⟩ := hk
  cases payload with
  | GuestBin path => simp [payloadArgs, values_other, ht]
  | Kernel kernel initrd =>
      simp [payloadArgs, buildKernelArgs, values_other, values_elim, elim_nil,
        Ne.symm hkernel, Ne.symm happend, Ne.symm hinitrd]
  | DiskImage path => simp [payloadArgs, buildOsdiskArg, values_other, ht, ht']

section Queries

attribute [local simp] values_self values_other values_elim values_ite elim_nil
  GuestConfig.segments ovmfArgs cloudInitArgs

/-- The `-drive` options, in order. -/
theorem values_drive (cfg : GuestConfig Str) :
    values (lit "-drive") cfg.args
      = cfg.payload.elim [] (fun payload => values (lit "-drive") (payloadArgs cfg payload))
        ++ cfg.ovmf.elim [] (fun path => values (lit "-drive") (ovmfArgs path))
        ++ cfg.cloud_init.elim [] (fun ci => values (lit "-drive") (cloudInitArgs ci)) := by
  rw [values_args cfg fun h => absurd (lit_inj.mp h) (by simp)]
  simp [values_net_other]

theorem values_qmp (cfg : GuestConfig Str) :
    values (lit "-qmp") cfg.args = [qmpArg cfg.qmp_sock_path] := by
  rw [values_args cfg fun h => absurd (lit_inj.mp h) (by simp)]
  simp [values_net_other, values_payload_other]

theorem values_device (cfg : GuestConfig Str) :
    values (lit "-device") cfg.args
      = cfg.payload.elim [] (fun payload => values (lit "-device") (payloadArgs cfg payload))
        ++ cfg.cloud_init.elim [] (fun _ => [lit "virtio-blk-pci,drive=cidata"])
        ++ cfg.net.elim []
          (fun net => [lit "virtio-net-pci,mac=" ++ net.mac ++ lit ",netdev=net0"]) := by
  have hnet : ∀ net, values (lit "-device") (netArgs net)
      = [lit "virtio-net-pci,mac=" ++ net.mac ++ lit ",netdev=net0"] := by
    intro net
    obtain ⟨netdev, h⟩ := netArgs_eq net
    simp [h]
  rw [values_args cfg fun h => absurd (lit_inj.mp h) (by simp)]
  simp [hnet]

theorem values_netdev (cfg : GuestConfig Str) :
    values (lit "-netdev") cfg.args
      = cfg.net.elim [] (fun net => values (lit "-netdev") (netArgs net)) := by
  rw [values_args cfg fun h => absurd (lit_inj.mp h) (by simp)]
  simp [values_payload_other]

theorem values_object (cfg : GuestConfig Str) :
    values (lit "-object") cfg.args
      = if cfg.io_thread then [lit "iothread,id=io0"] else [] := by
  rw [values_args cfg fun h => absurd (lit_inj.mp h) (by simp)]
  simp [values_net_other, values_payload_other]

end Queries

/-! ## Option strings -/

/-- What follows a separator is no second comma. -/
def Follows (tail suffix : Str) : Prop :=
  suffix = ',' :: tail ∧ ∃ c rest, tail = c :: rest ∧ c ≠ ','

/-- A path behind `file=` is read as it is iff it has no comma. -/
theorem fields_file_iff (tail : Str) {path suffix : Str}
    {known : List (Str × Option Str)} (hsuffix : Follows tail suffix)
    (hknown : fields tail = known) :
    fields (lit "file=" ++ path ++ suffix) = (lit "file", some path) :: known
      ↔ ',' ∉ path := by
  obtain ⟨rfl, c, rest, rfl, hc⟩ := hsuffix
  have hfile : lit "file=" = lit "file" ++ ['='] := by simp [lit]
  have hcomma : ',' ∉ lit "file=" ++ path ↔ ',' ∉ path := by simp [lit]
  have hfield : field (lit "file=" ++ path) = (lit "file", some path) := by
    rw [hfile, List.append_assoc]
    exact field_append (by simp [lit]) path
  subst hknown
  constructor
  · intro h
    refine hcomma.mp ((firstItem_eq_iff (x := c) (t := rest) hc).mp ?_)
    rw [fields, items_eq_cons, List.map_cons] at h
    rw [eq_of_field (List.cons.inj h).1, hfile, List.append_assoc]
    rfl
  · intro h
    rw [fields, items_append (hcomma.mpr h) hc, List.map_cons, hfield]
    rfl

/-- The drive of a payload says what is meant iff its path has no comma. -/
theorem fields_payload_iff (cfg : GuestConfig Str) (payload : QemuPayload Str) :
    (values (lit "-drive") (payloadArgs cfg payload)).map fields = intendedPayload payload
      ↔ ∀ path ∈ payload.optionPaths, ',' ∉ path := by
  cases payload with
  | GuestBin path =>
      have hformat : lit "format=raw,file=" ++ path ++ lit ",media=disk"
          = lit "format=raw" ++ ',' :: (lit "file=" ++ path ++ lit ",media=disk") := by
        simp [lit]
      have hcons : lit "file=" ++ path ++ lit ",media=disk"
          = 'f' :: (lit "ile=" ++ path ++ lit ",media=disk") := by
        simp [lit]
      have hone : values (lit "-drive") (payloadArgs cfg (.GuestBin path))
          = [lit "format=raw" ++ ',' :: (lit "file=" ++ path ++ lit ",media=disk")] := by
        rw [← hformat, payloadArgs, values_self (by simp), values_nil]
        rfl
      have hfields : fields (lit "format=raw" ++ ',' ::
            (lit "file=" ++ path ++ lit ",media=disk"))
          = fixed "format" "raw" :: fields (lit "file=" ++ path ++ lit ",media=disk") := by
        rw [hcons, fields, items_append (by simp [lit]) (by decide), List.map_cons]
        congr 1
        unfold fixed lit; decide
      have hiff : fields (lit "file=" ++ path ++ lit ",media=disk")
          = (lit "file", some path) :: [fixed "media" "disk"] ↔ ',' ∉ path :=
        fields_file_iff (lit "media=disk")
          ⟨by simp [lit], 'm', lit "edia=disk", by simp [lit], by decide⟩
          (by unfold fixed lit; decide)
      rw [hone, List.map_singleton, hfields, intendedPayload, List.cons.injEq,
        and_iff_left rfl, List.cons.injEq, and_iff_right rfl, hiff]
      simp [QemuPayload.optionPaths]
  | Kernel kernel initrd =>
      have hnone : values (lit "-drive") (payloadArgs cfg (.Kernel kernel initrd)) = [] := by
        simp [payloadArgs, buildKernelArgs, values_other, values_elim, elim_nil]
      simp [hnone, intendedPayload, QemuPayload.optionPaths]
  | DiskImage path =>
      have hone : values (lit "-drive") (payloadArgs cfg (.DiskImage path))
          = [lit "file=" ++ path ++ lit ",format=qcow2,if=none,id=os,snapshot=on"] := by
        simp only [payloadArgs, buildOsdiskArg]
        rw [values_self (by simp), values_other (by simp) (by simp), values_nil]
        rfl
      rw [hone, List.map_singleton, intendedPayload, List.cons.injEq, and_iff_left rfl,
        fields_file_iff (lit "format=qcow2,if=none,id=os,snapshot=on")
          ⟨by simp [lit], 'f', lit "ormat=qcow2,if=none,id=os,snapshot=on", by simp [lit],
            by decide⟩ (by unfold fixed lit; decide)]
      simp [QemuPayload.optionPaths]

theorem fields_ovmf_iff (path : Str) :
    (values (lit "-drive") (ovmfArgs path)).map fields = [intendedOvmf path]
      ↔ ',' ∉ path := by
  have hone : values (lit "-drive") (ovmfArgs path)
      = [lit "file=" ++ path ++ lit ",format=raw,if=pflash,readonly=on"] := by
    rw [ovmfArgs, values_self (by simp), values_nil]
    rfl
  rw [hone, List.map_singleton, intendedOvmf, List.cons.injEq, and_iff_left rfl]
  exact fields_file_iff (lit "format=raw,if=pflash,readonly=on")
    ⟨by simp [lit], 'f', lit "ormat=raw,if=pflash,readonly=on", by simp [lit], by decide⟩
    (by unfold fixed lit; decide)

theorem fields_cloudInit_iff (ci : Str) :
    (values (lit "-drive") (cloudInitArgs ci)).map fields = [intendedCloudInit ci]
      ↔ ',' ∉ ci := by
  have hone : values (lit "-drive") (cloudInitArgs ci)
      = [lit "file=" ++ ci ++ lit ",format=raw,if=none,id=cidata,readonly=on"] := by
    rw [cloudInitArgs, values_self (by simp), values_other (by simp) (by simp), values_nil]
    rfl
  rw [hone, List.map_singleton, intendedCloudInit, List.cons.injEq, and_iff_left rfl]
  exact fields_file_iff (lit "format=raw,if=none,id=cidata,readonly=on")
    ⟨by simp [lit], 'f', lit "ormat=raw,if=none,id=cidata,readonly=on", by simp [lit],
      by decide⟩
    (by unfold fixed lit; decide)

/-- The socket path is read as it is iff it has no comma. -/
theorem readQmp_iff (path : Str) :
    readQmp (qmpArg path) = intendedQmp path ↔ ',' ∉ path := by
  have hsuffix : lit ",server=on,wait=off" = ',' :: 's' :: lit "erver=on,wait=off" := by
    simp [lit]
  have hdrop : (qmpArg path).drop (lit "unix:").length
      = path ++ ',' :: 's' :: lit "erver=on,wait=off" := by
    rw [← hsuffix, qmpArg, List.append_assoc, List.drop_left]
    rfl
  rw [readQmp, hdrop, intendedQmp]
  constructor
  · intro h
    exact (firstItem_eq_iff (by decide)).mp (Prod.mk.inj h).1
  · intro h
    rw [(firstItem_eq_iff (by decide)).mpr h, items_append h (by decide), List.tail_cons]
    congr 1
    unfold fixed lit; decide

/-! ## References -/

/-- The strings of a network that are written into option strings. -/
def NetConfig.CommaFree (net : NetConfig) : Prop :=
  ',' ∉ net.mac ∧ ∀ mac ifname guest_ip gateway,
    net = .Tap mac ifname guest_ip gateway → ',' ∉ ifname

theorem comma_notMem_generateMac (b₀ b₁ b₂ : UInt8) : ',' ∉ generateMac b₀ b₁ b₂ := by
  have hdigit : ∀ n < 16, ',' ≠ hexDigit n := by decide
  have hbyte : ∀ b : UInt8, ',' ∉ hexByte b := by
    intro b
    have hb : b.toNat < 256 := b.toNat_lt
    simp only [hexByte, List.mem_cons, List.not_mem_nil, or_false, not_or]
    exact ⟨hdigit _ (by omega), hdigit _ (by omega)⟩
  simp [generateMac, hbyte, lit]

theorem comma_notMem_tapName (i : Nat) : ',' ∉ tapName i := by
  have hdecimal : ',' ∉ decimal i := fun h => absurd (isDigit_of_mem_decimal h) (by decide)
  simp [tapName, tapPrefix, lit, hdecimal]

/-- The networks the tests make: a generated MAC, and a tap of the pool. -/
theorem commaFree_tap (b₀ b₁ b₂ : UInt8) (i : Nat) (guest_ip gateway : Str) :
    (NetConfig.Tap (generateMac b₀ b₁ b₂) (tapName i) guest_ip gateway).CommaFree := by
  refine ⟨comma_notMem_generateMac b₀ b₁ b₂, fun mac ifname ip gw h => ?_⟩
  obtain ⟨-, rfl, -, -⟩ := NetConfig.Tap.inj h
  exact comma_notMem_tapName i

theorem fields_blk (io_thread : Bool) :
    fields (lit "virtio-blk-pci,drive=os" ++ if io_thread then lit ",iothread=io0" else [])
      = (lit "virtio-blk-pci", none) :: fixed "drive" "os"
        :: if io_thread then [fixed "iothread" "io0"] else [] := by
  cases io_thread <;> (unfold fixed lit; decide)

theorem fields_netDevice {mac : Str} (h : ',' ∉ mac) :
    fields (lit "virtio-net-pci,mac=" ++ mac ++ lit ",netdev=net0")
      = [(lit "virtio-net-pci", none), (lit "mac", some mac), fixed "netdev" "net0"] := by
  have hsplit : lit "virtio-net-pci,mac=" ++ mac ++ lit ",netdev=net0"
      = lit "virtio-net-pci" ++ ',' :: 'm' :: (lit "ac=" ++ mac ++ lit ",netdev=net0") := by
    simp [lit]
  have hmac : 'm' :: (lit "ac=" ++ mac ++ lit ",netdev=net0")
      = (lit "mac" ++ '=' :: mac) ++ ',' :: 'n' :: lit "etdev=net0" := by
    simp [lit]
  rw [hsplit, fields, items_append (by simp [lit]) (by decide), hmac,
    items_append (by simp [lit, h]) (by decide), List.map_cons, List.map_cons,
    field_append (by simp [lit])]
  have hdevice : field (lit "virtio-net-pci") = (lit "virtio-net-pci", none) := by
    unfold lit; decide
  have hnetdev : (items ('n' :: lit "etdev=net0")).map field = [fixed "netdev" "net0"] := by
    unfold fixed lit; decide
  rw [hdevice, hnetdev]

theorem fields_tap {ifname : Str} (h : ',' ∉ ifname) :
    fields (netdevArg ifname)
      = [(lit "tap", none), fixed "id" "net0", (lit "ifname", some ifname),
          fixed "script" "no", fixed "downscript" "no"] := by
  have hsplit : netdevArg ifname
      = lit "tap" ++ ',' :: 'i' :: (lit "d=net0,ifname=" ++ ifname
          ++ lit ",script=no,downscript=no") := by
    simp [lit, netdevArg]
  have hid : 'i' :: (lit "d=net0,ifname=" ++ ifname ++ lit ",script=no,downscript=no")
      = lit "id=net0" ++ ',' :: 'i' :: (lit "fname=" ++ ifname
          ++ lit ",script=no,downscript=no") := by
    simp [lit]
  have hifname : 'i' :: (lit "fname=" ++ ifname ++ lit ",script=no,downscript=no")
      = (lit "ifname" ++ '=' :: ifname) ++ ',' :: 's' :: lit "cript=no,downscript=no" := by
    simp [lit]
  rw [hsplit, fields, items_append (by simp [lit]) (by decide), hid,
    items_append (by simp [lit]) (by decide), hifname,
    items_append (by simp [lit, h]) (by decide), List.map_cons, List.map_cons,
    List.map_cons, field_append (by simp [lit])]
  have htap : field (lit "tap") = (lit "tap", none) := by unfold lit; decide
  have hnet : field (lit "id=net0") = fixed "id" "net0" := by unfold fixed lit; decide
  have hscript : (items ('s' :: lit "cript=no,downscript=no")).map field
      = [fixed "script" "no", fixed "downscript" "no"] := by unfold fixed lit; decide
  rw [htap, hnet, hscript]

/-- The devices, as they are read. -/
def devices (cfg : GuestConfig Str) : List (List (Str × Option Str)) :=
  (match cfg.payload with
    | some (.DiskImage _) => [(lit "virtio-blk-pci", none) :: fixed "drive" "os"
        :: if cfg.io_thread then [fixed "iothread" "io0"] else []]
    | _ => [])
    ++ cfg.cloud_init.elim [] (fun _ =>
        [[(lit "virtio-blk-pci", none), fixed "drive" "cidata"]])
    ++ cfg.net.elim [] (fun net =>
        [[(lit "virtio-net-pci", none), (lit "mac", some net.mac), fixed "netdev" "net0"]])

theorem fields_devices {cfg : GuestConfig Str}
    (h : ∀ net, cfg.net = some net → net.CommaFree) :
    (values (lit "-device") cfg.args).map fields = devices cfg := by
  have hdisk : ∀ path, (values (lit "-device") (payloadArgs cfg (.DiskImage path))).map fields
      = [(lit "virtio-blk-pci", none) :: fixed "drive" "os"
          :: if cfg.io_thread then [fixed "iothread" "io0"] else []] := by
    intro path
    rw [payloadArgs, buildOsdiskArg, values_other (by simp) (by simp),
      values_self (by simp), values_nil, List.map_singleton, fields_blk]
  have hcidata : fields (lit "virtio-blk-pci,drive=cidata")
      = [(lit "virtio-blk-pci", none), fixed "drive" "cidata"] := by unfold fixed lit; decide
  rw [values_device, List.map_append, List.map_append, devices]
  refine congrArg₂ _ (congrArg₂ _ ?_ ?_) ?_
  · cases hp : cfg.payload with
    | none => rfl
    | some payload =>
        rw [Option.elim_some]
        cases payload with
        | GuestBin path => simp [payloadArgs, values_other]
        | Kernel kernel initrd =>
            simp [payloadArgs, buildKernelArgs, values_other, values_elim, elim_nil]
        | DiskImage path => exact hdisk path
  · cases cfg.cloud_init with
    | none => rfl
    | some ci => simp [hcidata]
  · cases hnet : cfg.net with
    | none => rfl
    | some net =>
        rw [Option.elim_some, Option.elim_some, List.map_singleton,
          fields_netDevice (h net hnet).1]

/-- The network defines its id. -/
theorem definedIds_netdev {cfg : GuestConfig Str}
    (h : ∀ net, cfg.net = some net → net.CommaFree) :
    definedIds (lit "-netdev") cfg.args = cfg.net.elim [] fun _ => [lit "net0"] := by
  rw [definedIds, values_netdev]
  cases hnet : cfg.net with
  | none => rfl
  | some net =>
      cases net with
      | UserNet mac =>
          have hfields : fields (lit "type=user,id=net0,hostfwd=tcp::0-:22")
              = [fixed "type" "user", fixed "id" "net0", fixed "hostfwd" "tcp::0-:22"] := by
            unfold fixed lit; decide
          simp [netArgs, values_self, values_other, hfields, keyed, fixed, lit_inj]
      | Tap mac ifname guest_ip gateway =>
          have hfields := fields_tap ((h _ hnet).2 mac ifname guest_ip gateway rfl)
          simp [netArgs, values_self, values_other, hfields, keyed, fixed, lit_inj]

theorem definedIds_object (cfg : GuestConfig Str) :
    definedIds (lit "-object") cfg.args = if cfg.io_thread then [lit "io0"] else [] := by
  have hfields : fields (lit "iothread,id=io0") = [(lit "iothread", none), fixed "id" "io0"] := by
    unfold fixed lit; decide
  rw [definedIds, values_object]
  cases cfg.io_thread with
  | false => rfl
  | true => simp [hfields, keyed, fixed, lit_inj]

/-- Drives read as they are meant define the ids that are meant. -/
theorem definedIds_drive {cfg : GuestConfig Str}
    (h : (values (lit "-drive") cfg.args).map fields = intendedDrives cfg) :
    definedIds (lit "-drive") cfg.args
      = (match cfg.payload with
          | some (.DiskImage _) => [lit "os"]
          | _ => [])
        ++ cfg.cloud_init.elim [] fun _ => [lit "cidata"] := by
  rw [definedIds, h, intendedDrives, List.flatMap_append, List.flatMap_append]
  have hovmf : (cfg.ovmf.elim [] fun path => [intendedOvmf path]).flatMap (keyed (lit "id"))
      = [] := by
    cases cfg.ovmf with
    | none => rfl
    | some path => simp [intendedOvmf, keyed, fixed, lit_inj]
  rw [hovmf, List.append_nil]
  refine congrArg₂ _ ?_ ?_
  · cases cfg.payload with
    | none => rfl
    | some payload =>
        cases payload <;> simp [intendedPayload, keyed, fixed, lit_inj]
  · cases cfg.cloud_init with
    | none => rfl
    | some ci => simp [intendedCloudInit, keyed, fixed, lit_inj]

/-- What the devices refer to under each key. -/
theorem keyed_devices (cfg : GuestConfig Str) (key : String) (hmac : key ≠ "mac") :
    (devices cfg).flatMap (keyed (lit key))
      = (match cfg.payload with
          | some (.DiskImage _) => keyed (lit key) (fixed "drive" "os"
              :: if cfg.io_thread then [fixed "iothread" "io0"] else [])
          | _ => [])
        ++ cfg.cloud_init.elim [] (fun _ => keyed (lit key) [fixed "drive" "cidata"])
        ++ cfg.net.elim [] (fun _ => keyed (lit key) [fixed "netdev" "net0"]) := by
  have hflag : ∀ (name : String) (fs : List (Str × Option Str)),
      keyed (lit key) ((lit name, none) :: fs) = keyed (lit key) fs := by
    intro name fs
    by_cases hname : lit name = lit key <;> simp [keyed, hname]
  have hmac' : ∀ (mac : Str) (fs : List (Str × Option Str)),
      keyed (lit key) ((lit "mac", some mac) :: fs) = keyed (lit key) fs := by
    intro mac fs
    simp [keyed, lit_inj, hmac.symm]
  rw [devices, List.flatMap_append, List.flatMap_append]
  refine congrArg₂ _ (congrArg₂ _ ?_ ?_) ?_
  · cases cfg.payload with
    | none => rfl
    | some payload =>
        cases payload with
        | DiskImage path => rw [List.flatMap_singleton, hflag]
        | _ => rfl
  · cases cfg.cloud_init with
    | none => rfl
    | some ci => rw [Option.elim_some, Option.elim_some, List.flatMap_singleton, hflag]
  · cases cfg.net with
    | none => rfl
    | some net =>
        rw [Option.elim_some, Option.elim_some, List.flatMap_singleton, hflag, hmac']

/-- Where the drives are read as meant, every reference resolves. -/
theorem resolved_of_drives {cfg : GuestConfig Str}
    (h : ∀ net, cfg.net = some net → net.CommaFree)
    (hdrives : (values (lit "-drive") cfg.args).map fields = intendedDrives cfg) :
    Resolved cfg.args (lit "drive") (lit "-drive") ∧
      Resolved cfg.args (lit "netdev") (lit "-netdev") ∧
      Resolved cfg.args (lit "iothread") (lit "-object") := by
  have hos : lit "os" ≠ lit "cidata" := fun he => absurd (lit_inj.mp he) (by simp)
  refine ⟨?_, ?_, ?_⟩
  · rw [Resolved, references, fields_devices h, keyed_devices cfg "drive" (by simp),
      definedIds_drive hdrives]
    have hio : ∀ io_thread : Bool, keyed (lit "drive") (fixed "drive" "os"
        :: if io_thread then [fixed "iothread" "io0"] else []) = [lit "os"] := by
      intro io_thread
      cases io_thread <;> simp [keyed, fixed, lit_inj]
    have hcidata : keyed (lit "drive") [fixed "drive" "cidata"] = [lit "cidata"] := by
      simp [keyed, fixed]
    have hnetdev : keyed (lit "drive") [fixed "netdev" "net0"] = [] := by
      simp [keyed, fixed, lit_inj]
    rw [hio, hcidata, hnetdev, elim_nil, List.append_nil]
    -- the references are the ids, and these differ
    intro id hid
    refine List.count_eq_one_of_mem ?_ hid
    split
    · cases cfg.cloud_init with
      | none => simp
      | some ci => simp [hos]
    · cases cfg.cloud_init <;> simp
  · rw [Resolved, references, fields_devices h, keyed_devices cfg "netdev" (by simp),
      definedIds_netdev h]
    have hio : ∀ io_thread : Bool, keyed (lit "netdev") (fixed "drive" "os"
        :: if io_thread then [fixed "iothread" "io0"] else []) = [] := by
      intro io_thread
      cases io_thread <;> simp [keyed, fixed, lit_inj]
    have hcidata : keyed (lit "netdev") [fixed "drive" "cidata"] = [] := by
      simp [keyed, fixed, lit_inj]
    have hnetdev : keyed (lit "netdev") [fixed "netdev" "net0"] = [lit "net0"] := by
      simp [keyed, fixed]
    rw [hio, hcidata, hnetdev, elim_nil, List.append_nil]
    intro id hid
    have hmem : id ∈ cfg.net.elim [] fun _ => [lit "net0"] := by
      rcases List.mem_append.mp hid with hid | hid
      · split at hid <;> cases hid
      · exact hid
    refine List.count_eq_one_of_mem ?_ hmem
    cases cfg.net <;> simp
  · rw [Resolved, references, fields_devices h, keyed_devices cfg "iothread" (by simp),
      definedIds_object]
    have hio : ∀ io_thread : Bool, keyed (lit "iothread") (fixed "drive" "os"
        :: if io_thread then [fixed "iothread" "io0"] else [])
          = if io_thread then [lit "io0"] else [] := by
      intro io_thread
      cases io_thread <;> simp [keyed, fixed, lit_inj]
    have hcidata : keyed (lit "iothread") [fixed "drive" "cidata"] = [] := by
      simp [keyed, fixed, lit_inj]
    have hnetdev : keyed (lit "iothread") [fixed "netdev" "net0"] = [] := by
      simp [keyed, fixed, lit_inj]
    rw [hio, hcidata, hnetdev, elim_nil, elim_nil, List.append_nil, List.append_nil]
    intro id hid
    have hmem : id ∈ if cfg.io_thread then [lit "io0"] else [] := by
      split at hid
      · exact hid
      · cases hid
    refine List.count_eq_one_of_mem ?_ hmem
    cases cfg.io_thread <;> simp

/-- The drives are read as meant iff no path in them has a comma. -/
theorem drives_iff (cfg : GuestConfig Str) :
    (values (lit "-drive") cfg.args).map fields = intendedDrives cfg ↔
      ∀ path ∈ cfg.payload.elim [] QemuPayload.optionPaths ++ cfg.ovmf.toList
        ++ cfg.cloud_init.toList, ',' ∉ path := by
  have happend : ∀ {α : Type} {a a' b b' : List α}, a.length = a'.length →
      (a ++ b = a' ++ b' ↔ a = a' ∧ b = b') := by
    intro α a a' b b' hlen
    refine ⟨fun h => List.append_inj h hlen, ?_⟩
    rintro ⟨rfl, rfl⟩
    rfl
  have hpayload : ((cfg.payload.elim [] fun payload =>
        values (lit "-drive") (payloadArgs cfg payload)).map fields).length
      = (cfg.payload.elim [] intendedPayload).length := by
    cases cfg.payload with
    | none => rfl
    | some payload =>
        cases payload <;>
          simp [payloadArgs, buildKernelArgs, buildOsdiskArg, values_self, values_other,
            values_elim, elim_nil, intendedPayload]
  have hovmf : ((cfg.ovmf.elim [] fun path => values (lit "-drive") (ovmfArgs path)).map
        fields).length = (cfg.ovmf.elim [] fun path => [intendedOvmf path]).length := by
    cases cfg.ovmf <;> simp [ovmfArgs, values_self]
  rw [values_drive, intendedDrives, List.map_append, List.map_append,
    happend (by rw [List.length_append, List.length_append, hpayload, hovmf]),
    happend hpayload, List.forall_mem_append, List.forall_mem_append]
  refine and_congr (and_congr ?_ ?_) ?_
  · cases cfg.payload with
    | none => simp
    | some payload => exact fields_payload_iff cfg payload
  · cases cfg.ovmf with
    | none => simp
    | some path => simpa using fields_ovmf_iff path
  · cases cfg.cloud_init with
    | none => simp
    | some ci => simpa using fields_cloudInit_iff ci

/-- **Paths in option strings**: with a generated network, QEMU reads every
option string as it was meant, and every reference resolves, iff none of the
paths in them has a comma. -/
theorem faithful_iff (cfg : GuestConfig Str)
    (h : ∀ net, cfg.net = some net → net.CommaFree) :
    Faithful cfg ↔ ∀ path ∈ cfg.optionPaths, ',' ∉ path := by
  rw [GuestConfig.optionPaths, List.forall_mem_cons, ← drives_iff]
  constructor
  · intro hf
    refine ⟨?_, hf.drives⟩
    have hqmp := hf.qmp
    rw [values_qmp, List.map_singleton, List.cons.injEq, and_iff_left rfl] at hqmp
    exact (readQmp_iff _).mp hqmp
  · rintro ⟨hqmp, hdrives⟩
    obtain ⟨hdrive, hnetdev, hiothread⟩ := resolved_of_drives h hdrives
    refine ⟨hdrives, ?_, hdrive, hnetdev, hiothread⟩
    rw [values_qmp, List.map_singleton, (readQmp_iff _).mpr hqmp]

/-- A guest of `test_live_migration_os`. -/
def osConfig : GuestConfig Str :=
  (QemuConfig.build (lit "/tmp/src") (.DiskImage (lit "payload/os-image.qcow2"))
    (migrationCalls (.Tap (generateMac 0 0 1) (tapName 0) [] []))).guest .Kvm

theorem faithful_osConfig : Faithful osConfig :=
  (faithful_iff osConfig fun _ hnet => by
    obtain rfl := Option.some.inj hnet
    exact commaFree_tap 0 0 1 0 [] []).mpr (by
      simp [osConfig, GuestConfig.optionPaths, QemuConfig.guest, QemuConfig.build,
        migrationCalls, BuilderCall.run, QemuConfig.new, QemuConfig.withMachine,
        QemuConfig.withCpuModel, QemuConfig.withSmp, QemuConfig.withCloudInit,
        QemuConfig.withNet, QemuConfig.withRtcClock, QemuPayload.optionPaths, PathBuf.join,
        Path.join, lit])

/-- A guest whose `TMPDIR` is `/tmp/a,b`. -/
def commaConfig : GuestConfig Str :=
  (QemuConfig.new (lit "/tmp/a,b/.tmpX") (.GuestBin (lit "guest.bin"))).guest .Kvm

/-- The socket path of `commaConfig` is read as `/tmp/a`. -/
theorem not_faithful_commaConfig :
    ¬ Faithful commaConfig ∧
      (readQmp (qmpArg commaConfig.qmp_sock_path)).1 = lit "/tmp/a" := by
  refine ⟨fun h => ?_, by decide +kernel⟩
  have hqmp := h.qmp
  rw [values_qmp, List.map_singleton, List.cons.injEq, and_iff_left rfl,
    readQmp_iff] at hqmp
  exact hqmp (by decide +kernel)

end QemuTest
