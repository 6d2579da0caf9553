import QemuTest.Lib.X86.Memory
import QemuTest.Lib.X86.Float80
import Mathlib.Logic.Function.Basic

/-!
# X86 — Machine

A processor in 64-bit mode, as far as bare-metal payloads use it: general
registers, flags, vector and floating-point state, memory, and the bytes sent
to the first serial port. Programs are instruction lists with symbolic labels;
where code and data lie is a parameter (`Layout`). Interrupts are off and the
direction flag is clear. A fault has no handler: it ends the run, `step` has
no successor.
-/

namespace X86

/-! ## State -/

inductive Reg where
  | rax | rbx | rcx | rdx | rsi | rdi | rbp | rsp
  | r8 | r9 | r10 | r11 | r12 | r13 | r14 | r15
  deriving DecidableEq, Repr

structure Flags where
  cf : Bool
  pf : Bool
  af : Bool
  zf : Bool
  sf : Bool
  of : Bool
  deriving DecidableEq, Repr

/-- The x87 unit: control word, register stack with its tags, and whether an
unmasked exception is pending. -/
structure Fpu where
  cw : BitVec 16
  top : Fin 8
  full : Fin 8 → Bool
  st : Fin 8 → Float80
  es : Bool

/-- A machine state. `rip` counts instructions, `log` holds what the serial
port has sent. -/
structure State where
  rip : Nat
  gpr : Reg → BitVec 64
  flags : Flags
  vec : Fin 16 → BitVec 256
  mxcsr : BitVec 32
  fpu : Fpu
  mem : Memory
  log : List Byte

/-! ## Programs -/

inductive Width where
  | byte | word | dword | qword
  deriving DecidableEq, Repr

def Width.bytes : Width → Nat
  | .byte => 1
  | .word => 2
  | .dword => 4
  | .qword => 8

/-- The part of a vector register an instruction moves. -/
inductive Lanes where
  | xmm | ymm
  deriving DecidableEq, Repr

def Lanes.bytes : Lanes → Nat
  | .xmm => 16
  | .ymm => 32

/-- A memory operand: a register and a displacement, or a data label and a
displacement. -/
inductive Mem (D : Type) where
  | base (r : Reg) (disp : Nat)
  | rel (d : D) (disp : Nat)
  deriving DecidableEq, Repr

inductive Operand (D : Type) where
  | reg (r : Reg)
  | imm (v : BitVec 64)
  | mem (m : Mem D)
  deriving DecidableEq, Repr

inductive Cond where
  | z | nz
  deriving DecidableEq, Repr

/-- The instructions, over code labels `C` and data labels `D`. -/
inductive Instr (C D : Type) where
  | mov (w : Width) (d : Reg) (o : Operand D)
  | lea (d : Reg) (m : Mem D)
  | cmp (w : Width) (a b : Operand D)
  | test (w : Width) (a b : Operand D)
  | add (d : Reg) (o : Operand D)
  | sub (d : Reg) (o : Operand D)
  | xor (d : Reg) (o : Operand D)
  | dec (d : Reg)
  | div (r : Reg)
  | lodsb
  | push (r : Reg)
  | pop (r : Reg)
  | pushfq
  | inAl
  | outAl
  | jmp (c : C)
  | jcc (k : Cond) (c : C)
  | call (c : C)
  | ret
  | hlt
  | vload (w : Lanes) (i : Fin 16) (m : Mem D)
  | vstore (w : Lanes) (m : Mem D) (i : Fin 16)
  | finit
  | fldcw (m : Mem D)
  | fnstcw (m : Mem D)
  | fild (m : Mem D)
  | fistp (m : Mem D)
  | ldmxcsr (m : Mem D)
  | stmxcsr (m : Mem D)
  deriving DecidableEq, Repr

/-- A line of assembly: a label, or an instruction. -/
inductive Item (C D : Type) where
  | label (c : C)
  | ins (i : Instr C D)

variable {C D : Type}

def Item.instr? : Item C D → Option (Instr C D)
  | .label _ => none
  | .ins i => some i

def Item.isLabel [DecidableEq C] (c : C) : Item C D → Bool
  | .label c' => c = c'
  | .ins _ => false

abbrev Program (C D : Type) := List (Item C D)

def Program.instrs (P : Program C D) : List (Instr C D) := P.filterMap Item.instr?

/-- The index of the instruction a label stands before. -/
def Program.entry [DecidableEq C] (P : Program C D) (c : C) : Nat :=
  (Program.instrs (P.takeWhile fun x => !x.isLabel c)).length

def Program.fetch (P : Program C D) (n : Nat) : Option (Instr C D) := P.instrs[n]?

/-- Where a program lies: the address of each instruction, the address of
each data label, and the end of the mapped memory. -/
structure Layout (D : Type) where
  code : Nat → BitVec 64
  data : D → Nat
  limit : Nat

/-- The instruction at an address. -/
def Program.locate (P : Program C D) (L : Layout D) (v : BitVec 64) : Option Nat :=
  (List.range P.instrs.length).find? fun n => L.code n = v

/-! ## Operands -/

/-- The low part of a value, zero-extended. -/
def Width.trunc : Width → BitVec 64 → BitVec 64
  | .byte, v => (v.setWidth 8).setWidth 64
  | .word, v => (v.setWidth 16).setWidth 64
  | .dword, v => (v.setWidth 32).setWidth 64
  | .qword, v => v

/-- A register after a write of a given width: the short ones keep the upper
part, a double word clears it. -/
def Width.merge : Width → BitVec 64 → BitVec 64 → BitVec 64
  | .byte, old, v => (old.extractLsb' 8 56 ++ v.setWidth 8 : BitVec (56 + 8))
  | .word, old, v => (old.extractLsb' 16 48 ++ v.setWidth 16 : BitVec (48 + 16))
  | .dword, _, v => (v.setWidth 32).setWidth 64
  | .qword, _, v => v

/-- A vector register after a load: a short one keeps the upper half. -/
def Lanes.merge : (w : Lanes) → BitVec 256 → BitVec (8 * w.bytes) → BitVec 256
  | .xmm, old, v => (old.extractLsb' 128 128 ++ v : BitVec (128 + 128))
  | .ymm, _, v => v

def Lanes.low : (w : Lanes) → BitVec 256 → BitVec (8 * w.bytes)
  | .xmm, v => v.setWidth 128
  | .ymm, v => v

namespace State

def setReg (s : State) (r : Reg) (v : BitVec 64) : State :=
  { s with gpr := Function.update s.gpr r v }

def goto (s : State) (n : Nat) : State := { s with rip := n }

def next (s : State) : State := s.goto (s.rip + 1)

def al (s : State) : Byte := (s.gpr .rax).setWidth 8

end State

def Mem.ea (L : Layout D) (s : State) : Mem D → Nat
  | .base r disp => (s.gpr r + BitVec.ofNat 64 disp).toNat
  | .rel d disp => L.data d + disp

namespace State

variable (L : Layout D)

/-- A load; outside the mapped memory it faults. -/
def load (s : State) (a n : Nat) : Option (BitVec (8 * n)) :=
  if a + n ≤ L.limit then some (s.mem.load a n) else none

def store (s : State) (a : Nat) {n : Nat} (v : BitVec (8 * n)) : Option State :=
  if a + n ≤ L.limit then some { s with mem := s.mem.store a v } else none

def read (s : State) (w : Width) : Operand D → Option (BitVec 64)
  | .reg r => some (w.trunc (s.gpr r))
  | .imm v => some (w.trunc v)
  | .mem m => (s.load L (m.ea L s) w.bytes).map fun v => v.setWidth 64

def push (s : State) (v : BitVec 64) : Option State :=
  (s.setReg .rsp (s.gpr .rsp - 8)).store L (s.gpr .rsp - 8).toNat (n := 8) v

/-- The top of the stack, and the state without it. -/
def pop (s : State) : Option (BitVec 64 × State) :=
  (s.load L (s.gpr .rsp).toNat 8).map fun v => (v, s.setReg .rsp (s.gpr .rsp + 8))

end State

/-! ## Flags -/

/-- The sign bit at a width. -/
def Width.sign (w : Width) (v : BitVec 64) : Bool := v.getLsbD (8 * w.bytes - 1)

/-- An even number of ones in the low byte. -/
def evenParity (v : BitVec 64) : Bool :=
  (List.range 8).foldl (fun p i => p ^^ v.getLsbD i) true

def Flags.ofSub (w : Width) (a b : BitVec 64) : Flags :=
  let r := w.trunc (a - b)
  { cf := decide (a.toNat < b.toNat)
    pf := evenParity r
    af := decide (a.toNat % 16 < b.toNat % 16)
    zf := decide (a = b)
    sf := w.sign r
    of := w.sign a != w.sign b && w.sign r != w.sign a }

def Flags.ofAdd (a b : BitVec 64) : Flags :=
  let r := a + b
  { cf := decide (2 ^ 64 ≤ a.toNat + b.toNat)
    pf := evenParity r
    af := decide (16 ≤ a.toNat % 16 + b.toNat % 16)
    zf := decide (r = 0)
    sf := Width.qword.sign r
    of := Width.qword.sign a == Width.qword.sign b
      && Width.qword.sign r != Width.qword.sign a }

/-- Logical operations clear carry and overflow; the adjust flag, which they
leave undefined, stays. -/
def Flags.ofLogic (old : Flags) (w : Width) (r : BitVec 64) : Flags :=
  { cf := false
    pf := evenParity r
    af := old.af
    zf := decide (r = 0)
    sf := w.sign r
    of := false }

/-- The image `pushfq` stores: bit 1 is always set, interrupts are off. -/
def Flags.image (f : Flags) : BitVec 64 :=
  let bit (b : Bool) (k : Nat) : BitVec 64 := if b then BitVec.twoPow 64 k else 0
  bit f.cf 0 ||| BitVec.twoPow 64 1 ||| bit f.pf 2 ||| bit f.af 4 ||| bit f.zf 6
    ||| bit f.sf 7 ||| bit f.of 11

def Cond.holds (f : Flags) : Cond → Bool
  | .z => f.zf
  | .nz => !f.zf

/-! ## The x87 unit -/

namespace Fpu

/-- Does the control word mask the invalid operation? -/
def masksInvalid (f : Fpu) : Bool := f.cw.getLsbD 0

/-- Does it mask the inexact result? -/
def masksInexact (f : Fpu) : Bool := f.cw.getLsbD 5

/-- `fninit`. -/
def init (f : Fpu) : Fpu :=
  { f with cw := 0x37f, top := 0, full := fun _ => false, es := false }

/-- The unit after a reset and `fninit`. -/
def start : Fpu := ⟨0x37f, 0, fun _ => false, fun _ => .indefinite, false⟩

/-- A value pushed. Onto a full slot it is an invalid operation: masked, the
slot becomes a NaN; unmasked, nothing is pushed. -/
def push (f : Fpu) (x : Float80) : Fpu :=
  if f.full (f.top - 1) then
    if f.masksInvalid then
      { f with top := f.top - 1, st := Function.update f.st (f.top - 1) .indefinite }
    else { f with es := true }
  else
    { f with
      top := f.top - 1
      full := Function.update f.full (f.top - 1) true
      st := Function.update f.st (f.top - 1) x }

def pop (f : Fpu) : Fpu :=
  { f with top := f.top + 1, full := Function.update f.full f.top false }

/-- The integer in slot `k`, and whether it is exact; `none` if it has none. -/
def integer (f : Fpu) (k : Fin 8) : Option (BitVec 64 × Bool) :=
  if f.full k then (f.st k).toInt (.ofControl f.cw) else none

/-- What `fistp` stores from slot `k`: the masked response to an invalid
operation is the integer indefinite, an unmasked one stores nothing. -/
def stored (f : Fpu) (k : Fin 8) : Option (BitVec 64) :=
  match f.integer k with
  | some (v, _) => some v
  | none => if f.masksInvalid then some (BitVec.twoPow 64 63) else none

/-- Does `fistp` from slot `k` leave an exception pending? -/
def raises (f : Fpu) (k : Fin 8) : Bool :=
  match f.integer k with
  | some (_, exact) => !exact && !f.masksInexact
  | none => !f.masksInvalid

/-- The unit after `fistp`. -/
def afterStore (f : Fpu) : Fpu :=
  match f.integer f.top with
  | some (_, exact) => { f.pop with es := !exact && !f.masksInexact }
  | none => if f.masksInvalid then f.pop else { f with es := true }

end Fpu

/-! ## Execution -/

/-- The ports of the first serial line: its data register. -/
def com1 : BitVec 16 := 0x3f8

section Exec

variable [DecidableEq C] (P : Program C D) (L : Layout D)

/-- One instruction. `inp` is the byte an `in` reads. -/
def exec (inp : Byte) (s : State) : Instr C D → Option State
  | .mov w d o => (s.read L w o).map fun v => (s.setReg d (w.merge (s.gpr d) v)).next
  | .lea d m => some (s.setReg d (BitVec.ofNat 64 (m.ea L s))).next
  | .cmp w a b =>
      (s.read L w a).bind fun x => (s.read L w b).map fun y =>
        { s.next with flags := .ofSub w x y }
  | .test w a b =>
      (s.read L w a).bind fun x => (s.read L w b).map fun y =>
        { s.next with flags := s.flags.ofLogic w (x &&& y) }
  | .add d o =>
      (s.read L .qword o).map fun v =>
        { (s.setReg d (s.gpr d + v)).next with flags := .ofAdd (s.gpr d) v }
  | .sub d o =>
      (s.read L .qword o).map fun v =>
        { (s.setReg d (s.gpr d - v)).next with flags := .ofSub .qword (s.gpr d) v }
  | .xor d o =>
      (s.read L .qword o).map fun v =>
        { (s.setReg d (s.gpr d ^^^ v)).next with
          flags := s.flags.ofLogic .qword (s.gpr d ^^^ v) }
  | .dec d =>
      -- the carry flag stays
      some { (s.setReg d (s.gpr d - 1)).next with
        flags := { Flags.ofSub .qword (s.gpr d) 1 with cf := s.flags.cf } }
  | .div r =>
      let n := (s.gpr .rdx).toNat * 2 ^ 64 + (s.gpr .rax).toNat
      let d := (s.gpr r).toNat
      if d = 0 ∨ 2 ^ 64 ≤ n / d then none
      else
        some ((s.setReg .rax (BitVec.ofNat 64 (n / d))).setReg .rdx
          (BitVec.ofNat 64 (n % d))).next
  | .lodsb =>
      (s.load L (s.gpr .rsi).toNat 1).map fun v =>
        ((s.setReg .rax (Width.byte.merge (s.gpr .rax) (v.setWidth 64))).setReg .rsi
          (s.gpr .rsi + 1)).next
  | .push r => (s.push L (s.gpr r)).map State.next
  | .pop r => (s.pop L).map fun p => (p.2.setReg r p.1).next
  | .pushfq => (s.push L s.flags.image).map State.next
  | .inAl => some (s.setReg .rax (Width.byte.merge (s.gpr .rax) (inp.setWidth 64))).next
  | .outAl =>
      if (s.gpr .rdx).setWidth 16 = com1 then some { s.next with log := s.log ++ [s.al] }
      else some s.next
  | .jmp c => some (s.goto (P.entry c))
  | .jcc k c => some (if k.holds s.flags then s.goto (P.entry c) else s.next)
  | .call c => (s.push L (L.code (s.rip + 1))).map fun t => t.goto (P.entry c)
  | .ret => (s.pop L).bind fun p => (P.locate L p.1).map fun n => p.2.goto n
  | .hlt => some s.next
  | .vload w i m =>
      (s.load L (m.ea L s) w.bytes).map fun v =>
        { s.next with vec := Function.update s.vec i (w.merge (s.vec i) v) }
  | .vstore w m i => (s.store L (m.ea L s) (w.low (s.vec i))).map State.next
  | .finit => if s.fpu.es then none else some { s.next with fpu := s.fpu.init }
  | .fldcw m =>
      if s.fpu.es then none
      else (s.load L (m.ea L s) 2).map fun v =>
        { s.next with fpu := { s.fpu with cw := v } }
  | .fnstcw m => (s.store L (m.ea L s) (n := 2) s.fpu.cw).map State.next
  | .fild m =>
      if s.fpu.es then none
      else (s.load L (m.ea L s) 8).map fun v =>
        { s.next with fpu := s.fpu.push (.ofInt (BitVec.toInt v)) }
  | .fistp m =>
      if s.fpu.es then none
      else match s.fpu.stored s.fpu.top with
        | some v => (s.store L (m.ea L s) (n := 8) v).map fun t =>
            { t.next with fpu := s.fpu.afterStore }
        | none => some { s.next with fpu := s.fpu.afterStore }
  | .ldmxcsr m =>
      -- reserved bits fault
      (s.load L (m.ea L s) 4).bind fun v =>
        if BitVec.toNat v < 2 ^ 16 then some { s.next with mxcsr := v } else none
  | .stmxcsr m => (s.store L (m.ea L s) (n := 4) s.mxcsr).map State.next

/-- One step: the instruction at `rip`. -/
def step (s : State) (inp : Byte) : Option State :=
  (P.fetch s.rip).bind (exec P L inp s)

end Exec

end X86
