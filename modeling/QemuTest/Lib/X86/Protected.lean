import QemuTest.Lib.X86.Machine
import QemuTest.Lib.X86.Paging

/-!
# X86 — Protected

A processor in 32-bit protected mode with flat segments at the most privileged
level, interrupts off, as the boot sectors use it. Addresses go through the page
tables once paging is on, by way of what the processor has cached of them. An
instruction is fetched from the physical address it was loaded to, so a
translation that moves the code ends the run, as a fault does.

What leaves the processor is a parameter (`Host`): a hypervisor completes string
input and output, doubleword input and output, and a move to or from memory that
is none; it sees the registers it is given and leaves those it likes. The
serial line is wired: what is sent is kept, and what the line status port answers comes
from a list that the state carries. So does what the processor does with its
cached translations (`Cached`).
-/

namespace X86.Protected

/-! ## State -/

inductive Reg where
  | eax | ecx | edx | ebx | esp | ebp | esi | edi
  deriving DecidableEq, Repr

abbrev Word := BitVec 32

abbrev Gprs := Reg → Word

/-- The control registers, with the extended feature enables. -/
structure Control where
  cr0 : Word
  cr3 : Word
  cr4 : Word
  efer : BitVec 64
  deriving DecidableEq

/-- What an emulator gets of the processor, and the devices behind it. -/
structure Vcpu (σ : Type) where
  gpr : Gprs
  flags : Flags
  dev : σ

/-- A machine state; `eip` counts instructions, `port` are the answers of the
line status port to come. -/
structure State (σ : Type) extends Vcpu σ where
  eip : Nat
  df : Bool
  control : Control
  mem : Memory
  port : Nat → Byte
  log : List Byte

/-- With the cached translations, and what the processor does with them in the
steps to come. -/
structure Cached (σ : Type) extends State σ where
  cache : Cache
  does : Nat → Nat → CacheAct

/-! ## Programs -/

inductive Size where
  | byte | word | dword
  deriving DecidableEq, Repr

def Size.bytes : Size → Nat
  | .byte => 1
  | .word => 2
  | .dword => 4

/-- A memory operand: a register and a displacement, an address, or a data label
and a displacement. -/
inductive Mem (D : Type) where
  | base (r : Reg) (disp : Nat)
  | abs (a : Nat)
  | rel (d : D) (disp : Nat)
  deriving DecidableEq, Repr

inductive Operand (D : Type) where
  | reg (r : Reg)
  | imm (v : Word)
  | offset (d : D)
  | mem (m : Mem D)
  deriving DecidableEq, Repr

inductive Cond where
  | z | nz | nc
  deriving DecidableEq, Repr

inductive ControlReg where
  | cr0 | cr3 | cr4
  deriving DecidableEq, Repr

/-- The string instructions that are repeated. -/
inductive StringOp where
  | stosb | stosd | movsb | insd | outsd
  deriving DecidableEq, Repr

/-- The instructions, over code labels `C` and data labels `D`. -/
inductive Instr (C D : Type) where
  | mov (w : Size) (d : Reg) (o : Operand D)
  | store (m : Mem D) (o : Operand D)
  | add (d : Reg) (v : Word)
  | or (d : Reg) (v : Word)
  | xor (d s : Reg)
  | inc (d : Reg)
  | dec (d : Reg)
  | cmp (d : Reg) (o : Operand D)
  | test (w : Size) (d : Reg) (o : Operand D)
  | stc
  | cld
  | push (r : Reg)
  | pop (r : Reg)
  | lodsb
  | inAl
  | outAl
  | inEax
  | outEax
  | rep (op : StringOp)
  | toControl (k : ControlReg)
  | fromControl (k : ControlReg)
  | rdmsr
  | wrmsr
  | invlpg (a : Nat)
  | jmp (c : C)
  | jcc (k : Cond) (c : C)
  | call (c : C)
  | ret
  | hlt
  deriving DecidableEq, Repr

/-- A line of assembly: a label, or an instruction. -/
inductive Item (C D : Type) where
  | label (c : C)
  | ins (i : Instr C D)

variable {C D σ : Type}

def Item.instr? : Item C D → Option (Instr C D)
  | .label _ => none
  | .ins i => some i

def Item.isLabel [DecidableEq C] (c : C) : Item C D → Bool
  | .label c' => c = c'
  | .ins _ => false

abbrev Program (C D : Type) := List (Item C D)

def Program.instrs (P : Program C D) : List (Instr C D) := P.filterMap Item.instr?

/-- The index of the instruction a label stands before. -/
def Program.entry [DecidableEq C] (P : Program C D) (c : C) : Nat :=
  (Program.instrs (P.takeWhile fun x => !x.isLabel c)).length

def Program.fetch (P : Program C D) (n : Nat) : Option (Instr C D) := P.instrs[n]?

/-- Where a program lies, and the end of the memory. -/
structure Layout (D : Type) where
  code : Nat → Word
  data : D → Nat
  limit : Nat

/-- The instruction at an address. -/
def Program.locate (P : Program C D) (L : Layout D) (v : Word) : Option Nat :=
  (List.range P.instrs.length).find? fun n => L.code n = v

/-! ## The world outside -/

/-- A move that meets no memory, as its emulator decodes it. -/
inductive Access (D : Type) where
  | read (d : Reg) (m : Mem D)
  | write (m : Mem D) (o : Operand D)
  deriving DecidableEq, Repr

/-- The hypervisor with the devices it has, `σ`. -/
structure Host (D σ : Type) where
  emulate : Access D → Vcpu σ → Vcpu σ
  inEax : BitVec 16 → Vcpu σ → Vcpu σ
  outEax : BitVec 16 → Vcpu σ → Vcpu σ
  /-- A double word from a port, put at an address. -/
  insd : BitVec 16 → State σ → Nat → Memory × σ
  /-- A double word at an address, sent to a port. -/
  outsd : BitVec 16 → State σ → Nat → σ

/-! ## Registers -/

/-- The low part of a value, zero-extended. -/
def Size.trunc : Size → Word → Word
  | .byte, v => (v.setWidth 8).setWidth 32
  | .word, v => (v.setWidth 16).setWidth 32
  | .dword, v => v

/-- A register after a write of a given size. -/
def Size.merge : Size → Word → Word → Word
  | .byte, old, v => (old.extractLsb' 8 24 ++ v.setWidth 8 : BitVec (24 + 8))
  | .word, old, v => (old.extractLsb' 16 16 ++ v.setWidth 16 : BitVec (16 + 16))
  | .dword, _, v => v

def Size.wide : Size → Width
  | .byte => .byte
  | .word => .word
  | .dword => .dword

/-- The flags of a difference and of a logical result. -/
def subFlags (a b : Word) : Flags := .ofSub .dword (a.setWidth 64) (b.setWidth 64)

def logicFlags (old : Flags) (w : Size) (r : Word) : Flags :=
  old.ofLogic w.wide (r.setWidth 64)

def addFlags (a b : Word) : Flags :=
  let r := a + b
  { cf := decide (2 ^ 32 ≤ a.toNat + b.toNat)
    pf := evenParity (r.setWidth 64)
    af := decide (16 ≤ a.toNat % 16 + b.toNat % 16)
    zf := decide (r = 0)
    sf := r.getLsbD 31
    of := a.getLsbD 31 == b.getLsbD 31 && r.getLsbD 31 != a.getLsbD 31 }

def Cond.holds (f : Flags) : Cond → Bool
  | .z => f.zf
  | .nz => !f.zf
  | .nc => !f.cf

/-- An operand that is no memory. -/
def Operand.value (L : Layout D) (g : Gprs) : Operand D → Option Word
  | .reg r => some (g r)
  | .imm v => some v
  | .offset d => some (BitVec.ofNat 32 (L.data d))
  | .mem _ => none

/-! ## Control registers -/

namespace Control

/-- Paging is on. -/
def paging (c : Control) : Bool := c.cr0.getLsbD 31

/-- Entries of 64 bits. -/
def pae (c : Control) : Bool := c.cr4.getLsbD 5

/-- Long mode once paging is on. -/
def longMode (c : Control) : Bool := c.efer.getLsbD 8

def get (c : Control) : ControlReg → Word
  | .cr0 => c.cr0
  | .cr3 => c.cr3
  | .cr4 => c.cr4

def set (c : Control) (v : Word) : ControlReg → Control
  | .cr0 => { c with cr0 := v }
  | .cr3 => { c with cr3 := v }
  | .cr4 => { c with cr4 := v }

/-- Paging in long mode is with entries of 64 bits. -/
def allowed (c : Control) : Bool := !(c.paging && c.longMode) || c.pae

/-- The page map of the tables. The one between the two others, with entries of
64 bits in three levels, is left out. -/
def tables (c : Control) (m : Memory) : PageMap :=
  if c.paging then
    if c.longMode then m.walk64 c.cr3
    else if c.pae then fun _ => none
    else m.walk32 c.cr3
  else fun p => some p

end Control

/-! ## Memory -/

namespace State

variable (L : Layout D) (f : PageMap)

def setReg (s : State σ) (r : Reg) (v : Word) : State σ :=
  { s with gpr := Function.update s.gpr r v }

def goto (s : State σ) (n : Nat) : State σ := { s with eip := n }

def next (s : State σ) : State σ := s.goto (s.eip + 1)

def al (s : State σ) : Byte := (s.gpr .eax).setWidth 8

def dx (s : State σ) : BitVec 16 := (s.gpr .edx).setWidth 16

/-- The page map of the tables in memory. -/
def tables (s : State σ) : PageMap := s.control.tables s.mem

section

variable (s : State σ) (n : Nat)

theorem setReg_self (r : Reg) (v : Word) : (s.setReg r v).gpr r = v :=
  Function.update_self (β := fun _ => Word) r v s.gpr

theorem setReg_of_ne {q r : Reg} (v : Word) (h : q ≠ r) : (s.setReg r v).gpr q = s.gpr q :=
  Function.update_of_ne (β := fun _ => Word) h v s.gpr

@[simp] theorem goto_toVcpu : (s.goto n).toVcpu = s.toVcpu := rfl
@[simp] theorem goto_eip : (s.goto n).eip = n := rfl
@[simp] theorem goto_df : (s.goto n).df = s.df := rfl
@[simp] theorem goto_control : (s.goto n).control = s.control := rfl
@[simp] theorem goto_mem : (s.goto n).mem = s.mem := rfl
@[simp] theorem goto_port : (s.goto n).port = s.port := rfl
@[simp] theorem goto_log : (s.goto n).log = s.log := rfl

end

end State

/-- The physical address of a linear one. -/
def address (f : PageMap) (a : Nat) : Option Nat := if a < 2 ^ 32 then f.address a else none

/-- The byte of memory at a linear address. -/
def byte? (L : Layout D) (f : PageMap) (a : Nat) : Option Nat :=
  (address f a).filter fun x => x < L.limit

/-- The address is one of a device. -/
def isDevice (L : Layout D) (f : PageMap) (a : Nat) : Bool :=
  (address f a).any fun x => L.limit ≤ x

/-- The bytes at linear addresses as one value. -/
def loadBytes (L : Layout D) (f : PageMap) (m : Memory) : Nat → (n : Nat) → Option (BitVec (8 * n))
  | _, 0 => some 0#0
  | a, n + 1 =>
      (byte? L f a).bind fun x =>
        (loadBytes L f m (a + 1) n).map fun v => (v ++ m x : BitVec (8 * n + 8))

/-- The first `k` bytes of a value put at linear addresses. -/
def storeBytes (L : Layout D) (f : PageMap) (m : Memory) (a : Nat) {n : Nat} (v : BitVec (8 * n)) :
    Nat → Option Memory
  | 0 => some m
  | k + 1 =>
      (byte? L f (a + k)).bind fun x =>
        (storeBytes L f m a v k).map fun m' => Function.update m' x (byteAt v k)

namespace State

variable (L : Layout D) (f : PageMap)

/-- A load; where there is no memory it fails. -/
def load (s : State σ) (a n : Nat) : Option (BitVec (8 * n)) := loadBytes L f s.mem a n

def store (s : State σ) (a : Nat) {n : Nat} (v : BitVec (8 * n)) : Option (State σ) :=
  (storeBytes L f s.mem a v n).map fun m => { s with mem := m }

def ea (s : State σ) : Mem D → Nat
  | .base r disp => (s.gpr r + BitVec.ofNat 32 disp).toNat
  | .abs a => a
  | .rel d disp => L.data d + disp

def read (s : State σ) (w : Size) : Operand D → Option Word
  | .mem m => (s.load L f (s.ea L m) w.bytes).map fun v => v.setWidth 32
  | o => (o.value L s.gpr).map w.trunc

def push (s : State σ) (v : Word) : Option (State σ) :=
  (s.setReg .esp (s.gpr .esp - 4)).store L f (s.gpr .esp - 4).toNat (n := 4) v

/-- The top of the stack, and the state without it. -/
def pop (s : State σ) : Option (Word × State σ) :=
  (s.load L f (s.gpr .esp).toNat 4).map fun v => (v, s.setReg .esp (s.gpr .esp + 4))

/-- The processor as its emulator leaves it. -/
def leave (s : State σ) (v : Vcpu σ) : State σ := { s with toVcpu := v }

/-- How far a string register moves. -/
def stride (s : State σ) (w : Size) : Word :=
  if s.df then -BitVec.ofNat 32 w.bytes else BitVec.ofNat 32 w.bytes

end State

/-! ## Execution -/

/-- The address of the serial line's data register. -/
def com1 : BitVec 16 := 0x3f8

/-- The number of the extended feature enables. -/
def efer : Word := 0xc0000080

section Exec

variable [DecidableEq C] (P : Program C D) (L : Layout D) (H : Host D σ)

/-- One round of a string instruction. -/
def StringOp.exec (f : PageMap) (s : State σ) : StringOp → Option (State σ)
  | .stosb =>
      (s.store L f (s.gpr .edi).toNat (n := 1) s.al).map fun t =>
        t.setReg .edi (s.gpr .edi + s.stride .byte)
  | .stosd =>
      (s.store L f (s.gpr .edi).toNat (n := 4) (s.gpr .eax)).map fun t =>
        t.setReg .edi (s.gpr .edi + s.stride .dword)
  | .movsb =>
      (s.load L f (s.gpr .esi).toNat 1).bind fun v =>
        (s.store L f (s.gpr .edi).toNat (n := 1) v).map fun t =>
          (t.setReg .esi (s.gpr .esi + s.stride .byte)).setReg .edi
            (s.gpr .edi + s.stride .byte)
  | .insd =>
      some ({ s with
        mem := (H.insd s.dx s (s.gpr .edi).toNat).1
        dev := (H.insd s.dx s (s.gpr .edi).toNat).2 }.setReg .edi
          (s.gpr .edi + s.stride .dword))
  | .outsd =>
      some ({ s with dev := H.outsd s.dx s (s.gpr .esi).toNat }.setReg .esi
        (s.gpr .esi + s.stride .dword))

/-- One instruction under the translation `f`; of a repeated one, a round. -/
def exec (f : PageMap) (s : State σ) : Instr C D → Option (State σ)
  | .mov w d o =>
      match s.read L f w o with
      | some v => some (s.setReg d (w.merge (s.gpr d) v)).next
      | none =>
          match o with
          | .mem m =>
              if w = .dword ∧ isDevice L f (s.ea L m) then
                some (s.leave (H.emulate (.read d m) s.toVcpu)).next
              else none
          | _ => none
  | .store m o =>
      (o.value L s.gpr).bind fun v =>
        match s.store L f (s.ea L m) (n := 4) v with
        | some t => some t.next
        | none =>
            if isDevice L f (s.ea L m) then
              some (s.leave (H.emulate (.write m o) s.toVcpu)).next
            else none
  | .add d v => some { (s.setReg d (s.gpr d + v)).next with flags := addFlags (s.gpr d) v }
  | .or d v =>
      some { (s.setReg d (s.gpr d ||| v)).next with
        flags := logicFlags s.flags .dword (s.gpr d ||| v) }
  | .xor d r =>
      some { (s.setReg d (s.gpr d ^^^ s.gpr r)).next with
        flags := logicFlags s.flags .dword (s.gpr d ^^^ s.gpr r) }
  | .inc d =>
      -- the carry flag stays
      some { (s.setReg d (s.gpr d + 1)).next with
        flags := { addFlags (s.gpr d) 1 with cf := s.flags.cf } }
  | .dec d =>
      some { (s.setReg d (s.gpr d - 1)).next with
        flags := { subFlags (s.gpr d) 1 with cf := s.flags.cf } }
  | .cmp d o =>
      (s.read L f .dword o).map fun v => { s.next with flags := subFlags (s.gpr d) v }
  | .test w d o =>
      (s.read L f w o).map fun v =>
        { s.next with flags := logicFlags s.flags w (w.trunc (s.gpr d) &&& v) }
  | .stc => some { s.next with flags := { s.flags with cf := true } }
  | .cld => some { s.next with df := false }
  | .push r => (s.push L f (s.gpr r)).map State.next
  | .pop r => (s.pop L f).map fun p => (p.2.setReg r p.1).next
  | .lodsb =>
      (s.load L f (s.gpr .esi).toNat 1).map fun v =>
        ((s.setReg .eax (Size.byte.merge (s.gpr .eax) (v.setWidth 32))).setReg .esi
          (s.gpr .esi + s.stride .byte)).next
  | .inAl =>
      some { (s.setReg .eax (Size.byte.merge (s.gpr .eax) ((s.port 0).setWidth 32))).next with
        port := fun n => s.port (n + 1) }
  | .outAl =>
      if s.dx = com1 then some { s.next with log := s.log ++ [s.al] } else some s.next
  | .inEax => some (s.leave (H.inEax s.dx s.toVcpu)).next
  | .outEax => some (s.leave (H.outEax s.dx s.toVcpu)).next
  | .rep op =>
      if s.gpr .ecx = 0 then some s.next
      else (op.exec L H f s).map fun t => t.setReg .ecx (s.gpr .ecx - 1)
  | .toControl k =>
      -- a write may turn paging on or off, or give it other tables
      if (s.control.set (s.gpr .eax) k).allowed then
        some { s.next with control := s.control.set (s.gpr .eax) k }
      else none
  | .fromControl k => some (s.setReg .eax (s.control.get k)).next
  | .rdmsr =>
      if s.gpr .ecx = efer then
        some ((s.setReg .eax (s.control.efer.setWidth 32)).setReg .edx
          (s.control.efer.extractLsb' 32 32)).next
      else none
  | .wrmsr =>
      -- long mode is chosen before paging is on
      let control := { s.control with efer := s.gpr .edx ++ s.gpr .eax }
      if s.gpr .ecx = efer ∧ (s.control.paging → control.longMode = s.control.longMode) then
        some { s.next with control := control }
      else none
  | .invlpg _ => some s.next
  | .jmp c => some (s.goto (P.entry c))
  | .jcc k c => some (if k.holds s.flags then s.goto (P.entry c) else s.next)
  | .call c => (s.push L f (L.code (s.eip + 1))).map fun t => t.goto (P.entry c)
  | .ret => (s.pop L f).bind fun p => (P.locate L p.1).map fun n => p.2.goto n
  | .hlt => some s.next

/-- What an instruction does to the cached translations. -/
def Instr.flush (c : Cache) : Instr C D → Cache
  | .toControl _ => .empty
  | .invlpg a => c.invalidate (a / 2 ^ 12)
  | _ => c

/-- The instruction at `eip`, if it is fetched from where it lies. -/
def fetch (f : PageMap) (s : State σ) : Option (Instr C D) :=
  if address f (L.code s.eip).toNat = some (L.code s.eip).toNat then P.fetch s.eip else none

/-- One step. Before it, the processor does with its cached translations what it
likes. -/
def step (s : Cached σ) : Option (Cached σ) :=
  let cache := s.cache.act s.tables (s.does 0)
  let f := cache.translate s.tables
  (fetch P L f s.toState).bind fun i =>
    (exec P L H f s.toState i).map fun t =>
      { t with cache := i.flush cache, does := fun n => s.does (n + 1) }

end Exec

end X86.Protected
