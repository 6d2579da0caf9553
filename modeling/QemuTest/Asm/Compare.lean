import QemuTest.Asm.Serial64
import QemuTest.Lib.X86.Progress

/-!
# Asm — Compare

How the payloads compare: the loop that compares a buffer with its pattern,
one quadword at a time, and the comparison of two single cells. With a
quadword that differs the loop never comes to its end, and with cells that
differ the comparison is not passed: both leave through the branch
(`comparing_step`, `unequal_step`). What is the same passes (`compare_gets`,
`cell_gets`).
-/

namespace QemuTest.Asm

open X86

variable {C D : Type} [DecidableEq C] {P : Program C D} {L : Layout D} {inp : Byte}
  {s t : State} {i : Instr C D} {c out a b n q : Nat}

/-- The loop stands at `c` and branches to `out`. -/
structure CompareLoop (P : Program C D) (c out : Nat) : Prop where
  load : P.fetch c = some (.mov .qword .rax (.mem (.base .rsi 0)))
  cmp : P.fetch (c + 1) = some (.cmp .qword (.reg .rax) (.mem (.base .rdi 0)))
  leave : ∃ l, P.fetch (c + 2) = some (.jcc .nz l) ∧ P.entry l = out
  rsi : P.fetch (c + 3) = some (.add .rsi (.imm 8))
  rdi : P.fetch (c + 4) = some (.add .rdi (.imm 8))
  rcx : P.fetch (c + 5) = some (.dec .rcx)
  again : ∃ l, P.fetch (c + 6) = some (.jcc .nz l) ∧ P.entry l = c

/-- The pointers stand at quadwords `j` and `k`, `m` of `n` rounds are counted. -/
structure Cursor (a b n j k m : Nat) (s : State) : Prop where
  rsi : s.gpr .rsi = BitVec.ofNat 64 (a + 8 * j)
  rdi : s.gpr .rdi = BitVec.ofNat 64 (b + 8 * k)
  rcx : s.gpr .rcx = BitVec.ofNat 64 (n - m)

/-- The loop is in round `k` of `n`, and has not passed quadword `q`. -/
inductive Comparing (c a b n q : Nat) (s : State) : Prop where
  | load {k : Nat} (rip : s.rip = c) (le : k ≤ q) (cur : Cursor a b n k k k s)
  | cmp {k : Nat} (rip : s.rip = c + 1) (le : k ≤ q) (cur : Cursor a b n k k k s)
      (rax : s.gpr .rax = s.mem.load (a + 8 * k) 8)
  | leave {k : Nat} (rip : s.rip = c + 2) (le : k ≤ q) (cur : Cursor a b n k k k s)
      (zf : s.flags.zf = decide (s.mem.load (a + 8 * k) 8 = s.mem.load (b + 8 * k) 8))
  | rsi {k : Nat} (rip : s.rip = c + 3) (lt : k < q) (cur : Cursor a b n k k k s)
  | rdi {k : Nat} (rip : s.rip = c + 4) (lt : k < q) (cur : Cursor a b n (k + 1) k k s)
  | rcx {k : Nat} (rip : s.rip = c + 5) (lt : k < q) (cur : Cursor a b n (k + 1) (k + 1) k s)
  | again {k : Nat} (rip : s.rip = c + 6) (lt : k < q)
      (cur : Cursor a b n (k + 1) (k + 1) (k + 1) s) (zf : s.flags.zf = false)

theorem setWidth_injective {n : Nat} (hn : n ≤ 64) {u v : BitVec n}
    (h : u.setWidth 64 = v.setWidth 64) : u = v := by
  have := congrArg (BitVec.setWidth n) h
  rwa [BitVec.setWidth_setWidth_of_le _ hn, BitVec.setWidth_setWidth_of_le _ hn,
    BitVec.setWidth_eq, BitVec.setWidth_eq] at this

theorem ofNat_next (x k : Nat) :
    BitVec.ofNat 64 (x + 8 * k) + 8 = BitVec.ofNat 64 (x + 8 * (k + 1)) := by
  rw [ofNat_add_word]
  congr 1

/-- **One step of the loop**: on it goes towards the quadword that differs, or
it leaves. Memory stays, nothing is sent. -/
theorem comparing_step (hP : CompareLoop P c out) (ha : a + 8 * n ≤ 2 ^ 32)
    (hb : b + 8 * n ≤ 2 ^ 32) (hq : q < n)
    (hne : s.mem.load (a + 8 * q) 8 ≠ s.mem.load (b + 8 * q) 8)
    (hs : Comparing c a b n q s) (hfetch : P.fetch s.rip = some i)
    (h : exec P L inp s i = some t) :
    t.mem = s.mem ∧ t.log = s.log ∧ (Comparing c a b n q t ∨ t.rip = out) := by
  cases hs with
  | load rip le cur =>
      rename_i k
      obtain rfl := Option.some.inj (hP.load.symm.trans (rip ▸ hfetch))
      have hea := ea_base (L := L) 0 cur.rsi (by omega)
      simp only [exec, State.read, hea, Nat.add_zero, Option.map_map, Option.map_eq_some_iff,
        load_eq_some] at h
      obtain ⟨v, ⟨-, rfl⟩, rfl⟩ := h
      refine ⟨rfl, rfl, .inl (.cmp (by simp [State.next, State.goto, State.setReg, rip]) le
        ⟨cur.rsi, cur.rdi, cur.rcx⟩ ?_)⟩
      simp only [State.next, State.goto, State.setReg, Function.comp_apply,
        Function.update_self]
      exact BitVec.setWidth_eq _
  | cmp rip le cur rax =>
      rename_i k
      obtain rfl := Option.some.inj (hP.cmp.symm.trans (rip ▸ hfetch))
      have hea := ea_base (L := L) 0 cur.rdi (by omega)
      simp only [exec, State.read, hea, Nat.add_zero, Option.map_map, Option.bind_some,
        Option.map_eq_some_iff, load_eq_some] at h
      obtain ⟨v, ⟨-, rfl⟩, rfl⟩ := h
      refine ⟨rfl, rfl, .inl (.leave (by simp [State.next, State.goto, rip]) le
        ⟨cur.rsi, cur.rdi, cur.rcx⟩ ?_)⟩
      simp only [Function.comp_apply, Flags.ofSub, Width.trunc, rax, State.next, State.goto]
      exact decide_eq_decide.mpr (by rw [show BitVec.setWidth 64 (s.mem.load (b + 8 * k)
        Width.qword.bytes) = s.mem.load (b + 8 * k) 8 from BitVec.setWidth_eq _])
  | leave rip le cur zf =>
      rename_i k
      obtain ⟨l, hl, hout⟩ := hP.leave
      obtain rfl := Option.some.inj (hl.symm.trans (rip ▸ hfetch))
      obtain rfl := Option.some.inj h
      by_cases heq : s.mem.load (a + 8 * k) 8 = s.mem.load (b + 8 * k) 8
      · -- the quadwords agree, so this is not the one that differs
        have hkq : k < q := by
          by_contra hge
          obtain rfl : k = q := by omega
          exact hne heq
        simp only [Cond.holds, zf, decide_eq_true heq, Bool.not_true, Bool.false_eq_true,
          if_false]
        exact ⟨rfl, rfl, .inl (.rsi (by simp [State.next, State.goto, rip]) hkq
          ⟨cur.rsi, cur.rdi, cur.rcx⟩)⟩
      · simp only [Cond.holds, zf, decide_eq_false heq, Bool.not_false, if_true]
        exact ⟨rfl, rfl, .inr hout⟩
  | rsi rip lt cur =>
      obtain rfl := Option.some.inj (hP.rsi.symm.trans (rip ▸ hfetch))
      obtain rfl := Option.some.inj h
      refine ⟨rfl, rfl, .inl (.rdi (by simp [State.next, State.goto, State.setReg, rip]) lt
        ⟨?_, cur.rdi, cur.rcx⟩)⟩
      simp only [State.next, State.goto, State.setReg, Function.update_self, cur.rsi]
      exact ofNat_next _ _
  | rdi rip lt cur =>
      obtain rfl := Option.some.inj (hP.rdi.symm.trans (rip ▸ hfetch))
      obtain rfl := Option.some.inj h
      refine ⟨rfl, rfl, .inl (.rcx (by simp [State.next, State.goto, State.setReg, rip]) lt
        ⟨cur.rsi, ?_, cur.rcx⟩)⟩
      simp only [State.next, State.goto, State.setReg, Function.update_self, cur.rdi]
      exact ofNat_next _ _
  | rcx rip lt cur =>
      rename_i k
      obtain rfl := Option.some.inj (hP.rcx.symm.trans (rip ▸ hfetch))
      obtain rfl := Option.some.inj h
      have hcount : s.gpr .rcx - 1 = BitVec.ofNat 64 (n - (k + 1)) := by
        rw [cur.rcx]
        apply BitVec.eq_of_toNat_eq
        simp
        omega
      refine ⟨rfl, rfl, .inl (.again (by simp [State.next, State.goto, State.setReg, rip]) lt
        ⟨cur.rsi, cur.rdi, ?_⟩ ?_)⟩
      · simp only [State.next, State.goto, State.setReg, Function.update_self, hcount]
      · -- the rounds are not over before the one that differs
        refine decide_eq_false fun he => ?_
        have := congrArg BitVec.toNat (cur.rcx.symm.trans he)
        rw [BitVec.toNat_ofNat, Nat.mod_eq_of_lt (by omega)] at this
        simp at this
        omega
  | again rip lt cur zf =>
      obtain ⟨l, hl, hc⟩ := hP.again
      obtain rfl := Option.some.inj (hl.symm.trans (rip ▸ hfetch))
      obtain rfl := Option.some.inj h
      simp only [Cond.holds, zf, Bool.not_false, if_true]
      exact ⟨rfl, rfl, .inl (.load hc lt ⟨cur.rsi, cur.rdi, cur.rcx⟩)⟩

/-! ## The whole loop -/

section

variable {port : Port} {lo k : Nat}

/-- The quadwords numbered `k` are the same. -/
abbrev SameWord (a b : Nat) (m : Memory) (k : Nat) : Prop :=
  m.load (a + 8 * k) 8 = m.load (b + 8 * k) 8

/-- A round looks at its quadword: it leaves, or goes on behind the branch. -/
theorem probe_gets (hP : CompareLoop P c out) (hlo : lo ≤ c) (hL : L.limit ≤ 2 ^ 32)
    (ha : a + 8 * n ≤ L.limit) (hb : b + 8 * n ≤ L.limit) (hk : k < n) (hrip : s.rip = c)
    (hcur : Cursor a b n k k k s) :
    Gets P L port lo (fun t => t.mem = s.mem ∧ t.log = s.log ∧
      (¬ SameWord a b s.mem k ∧ t.rip = out ∨
        SameWord a b s.mem k ∧ t.rip = c + 3 ∧ Cursor a b n k k k t)) s := by
  -- the pattern is loaded
  let t : State := (s.setReg .rax ((s.mem.load (a + 8 * k) 8).setWidth 64)).next
  have hea : (Mem.base .rsi 0).ea L s = a + 8 * k := by
    rw [ea_base 0 hcur.rsi (by omega), Nat.add_zero]
  have ht : exec P L 0 s (.mov .qword .rax (.mem (.base .rsi 0))) = some t := by
    rw [exec, State.read, hea, show Width.qword.bytes = 8 from rfl,
      load_eq_some.mpr ⟨by omega, rfl⟩]
    rfl
  have hrip1 : t.rip = c + 1 := by
    rw [← hrip]
    rfl
  have hcur1 : Cursor a b n k k k t := ⟨hcur.rsi, hcur.rdi, hcur.rcx⟩
  -- and compared
  let u : State := { t.next with
    flags := .ofSub .qword (t.gpr .rax) ((t.mem.load (b + 8 * k) 8).setWidth 64) }
  have hea' : (Mem.base .rdi 0).ea L t = b + 8 * k := by
    rw [ea_base 0 hcur1.rdi (by omega), Nat.add_zero]
  have hu : exec P L 0 t (.cmp .qword (.reg .rax) (.mem (.base .rdi 0))) = some u := by
    rw [exec, State.read, State.read, hea', show Width.qword.bytes = 8 from rfl,
      load_eq_some.mpr ⟨by omega, rfl⟩]
    rfl
  have hrip2 : u.rip = c + 2 := by
    rw [← hrip]
    rfl
  have hzf : u.flags.zf = decide (SameWord a b s.mem k) := by
    refine decide_eq_decide.mpr ?_
    have hrax : t.gpr .rax = (s.mem.load (a + 8 * k) 8).setWidth 64 :=
      Function.update_self Reg.rax _ s.gpr
    rw [hrax]
    constructor
    · exact fun he => setWidth_injective (n := 64) (by decide) he
    · exact fun he => congrArg (BitVec.setWidth (w := 64) 64) he
  obtain ⟨l, hl, hout⟩ := hP.leave
  refine .cons (by omega) (hrip ▸ hP.load) rfl ht
    (.cons (by omega) (hrip1 ▸ hP.cmp) rfl hu (.branch hl (by omega) hrip2 ?_))
  rw [hzf, hout]
  by_cases hsame : SameWord a b s.mem k
  · rw [decide_eq_true hsame]
    exact .now ⟨rfl, rfl, .inr ⟨hsame, rfl, hcur.rsi, hcur.rdi, hcur.rcx⟩⟩
  · rw [decide_eq_false hsame]
    exact .now ⟨rfl, rfl, .inl ⟨hsame, rfl⟩⟩

/-- The pointers move on, to the next round if there is one. -/
theorem bump_gets (hP : CompareLoop P c out) (hlo : lo ≤ c) (hk : k < n) (hn : n < 2 ^ 64)
    (hrip : s.rip = c + 3) (hcur : Cursor a b n k k k s) :
    Gets P L port lo (fun t => t.mem = s.mem ∧ t.log = s.log ∧
      (k + 1 < n ∧ t.rip = c ∧ Cursor a b n (k + 1) (k + 1) (k + 1) t ∨
        k + 1 = n ∧ t.rip = c + 7)) s := by
  let t : State := { (s.setReg .rsi (s.gpr .rsi + 8)).next with
    flags := .ofAdd (s.gpr .rsi) 8 }
  have ht : exec P L 0 s (.add .rsi (.imm 8)) = some t := rfl
  have hrip1 : t.rip = c + 4 := by
    show s.rip + 1 = c + 4
    rw [hrip]
  let u : State := { (t.setReg .rdi (t.gpr .rdi + 8)).next with
    flags := .ofAdd (t.gpr .rdi) 8 }
  have hu : exec P L 0 t (.add .rdi (.imm 8)) = some u := rfl
  have hrip2 : u.rip = c + 5 := by
    show t.rip + 1 = c + 5
    rw [hrip1]
  let v : State := { (u.setReg .rcx (u.gpr .rcx - 1)).next with
    flags := { Flags.ofSub .qword (u.gpr .rcx) 1 with cf := u.flags.cf } }
  have hv : exec P L 0 u (.dec .rcx) = some v := rfl
  have hrip3 : v.rip = c + 6 := by
    show u.rip + 1 = c + 6
    rw [hrip2]
  have hrcx : u.gpr .rcx = BitVec.ofNat 64 (n - k) := hcur.rcx
  have hcount : u.gpr .rcx - 1 = BitVec.ofNat 64 (n - (k + 1)) := by
    rw [hrcx]
    apply BitVec.eq_of_toNat_eq
    simp
    omega
  have hcur' : Cursor a b n (k + 1) (k + 1) (k + 1) v := by
    refine ⟨?_, ?_, ?_⟩
    · show s.gpr .rsi + 8 = _
      rw [hcur.rsi]
      exact ofNat_next _ _
    · show s.gpr .rdi + 8 = _
      rw [hcur.rdi]
      exact ofNat_next _ _
    · exact hcount
  have hzf : v.flags.zf = decide (k + 1 = n) := by
    refine decide_eq_decide.mpr ⟨fun he => ?_, fun he => ?_⟩
    · have := congrArg BitVec.toNat (hrcx.symm.trans he)
      rw [BitVec.toNat_ofNat, Nat.mod_eq_of_lt (by omega)] at this
      simp at this
      omega
    · rw [hrcx, show n - k = 1 by omega]
      rfl
  obtain ⟨l, hl, hc⟩ := hP.again
  refine .cons (by omega) (hrip ▸ hP.rsi) rfl ht (.cons (by omega) (hrip1 ▸ hP.rdi) rfl hu
    (.cons (by omega) (hrip2 ▸ hP.rcx) rfl hv (.branch hl (by omega) hrip3 ?_)))
  rw [hzf, hc]
  by_cases hlast : k + 1 = n
  · rw [decide_eq_true hlast]
    exact .now ⟨rfl, rfl, .inr ⟨hlast, rfl⟩⟩
  · rw [decide_eq_false hlast]
    exact .now ⟨rfl, rfl, .inl ⟨by omega, rfl, hcur'.rsi, hcur'.rdi, hcur'.rcx⟩⟩

/-- **The loop compares**: it falls through when all quadwords are the same,
and leaves when one is not. -/
theorem compare_gets (hP : CompareLoop P c out) (hlo : lo ≤ c) (hL : L.limit ≤ 2 ^ 32)
    (ha : a + 8 * n ≤ L.limit) (hb : b + 8 * n ≤ L.limit) (hk : k < n) (hrip : s.rip = c)
    (hcur : Cursor a b n k k k s) :
    Gets P L port lo (fun t => t.mem = s.mem ∧ t.log = s.log ∧
      ((∀ j, k ≤ j → j < n → SameWord a b s.mem j) ∧ t.rip = c + 7 ∨
        (∃ j, k ≤ j ∧ j < n ∧ ¬ SameWord a b s.mem j) ∧ t.rip = out)) s := by
  -- by the rounds that are left
  induction hleft : n - k generalizing s k with
  | zero => omega
  | succ r ih =>
      refine (probe_gets hP hlo hL ha hb hk hrip hcur).bind ?_
      rintro t ⟨hmem, hlog, ⟨hne, hat⟩ | ⟨heq, hat, hcur'⟩⟩
      · exact .now ⟨hmem, hlog, .inr ⟨⟨k, Nat.le_refl k, hk, hne⟩, hat⟩⟩
      have hself : ∀ j, k ≤ j → j < n → (k < j → SameWord a b s.mem j) →
          SameWord a b s.mem j := by
        intro j hj _ hlater
        rcases Nat.eq_or_lt_of_le hj with rfl | hlt
        · exact heq
        · exact hlater hlt
      refine (bump_gets hP hlo hk (by omega) hat hcur').bind ?_
      rintro u ⟨hmem', hlog', ⟨hk', hat', hcur''⟩ | ⟨hk', hat'⟩⟩
      · refine (ih hk' hat' hcur'' (by omega)).bind ?_
        rintro v ⟨hmem'', hlog'', hend⟩
        rw [hmem', hmem] at hmem'' hend
        rw [hlog', hlog] at hlog''
        refine .now ⟨hmem'', hlog'', ?_⟩
        rcases hend with ⟨hall, hout⟩ | ⟨⟨j, hj, hjn, hne⟩, hout⟩
        · exact .inl ⟨fun j hj hjn => hself j hj hjn fun hlt => hall j hlt hjn, hout⟩
        · exact .inr ⟨⟨j, by omega, hjn, hne⟩, hout⟩
      · refine .now ⟨hmem'.trans hmem, hlog'.trans hlog, .inl ⟨fun j hj hjn => ?_, hat'⟩⟩
        exact hself j hj hjn fun hlt => by omega

end

/-! ## A single comparison -/

/-- A cell read to RAX and compared with another, either way round. -/
structure CellCheck (P : Program C D) (w : Width) (m m' : Mem D) (c out : Nat) : Prop where
  load : P.fetch c = some (.mov w .rax (.mem m))
  cmp : P.fetch (c + 1) = some (.cmp w (.reg .rax) (.mem m')) ∨
    P.fetch (c + 1) = some (.cmp w (.mem m') (.reg .rax))
  leave : ∃ l, P.fetch (c + 2) = some (.jcc .nz l) ∧ P.entry l = out

/-- The cells at `x` and `y` differ, and the comparison has not been passed. -/
inductive Unequal (w : Width) (c x y : Nat) (s : State) : Prop where
  | load (rip : s.rip = c) (ne : s.mem.load x w.bytes ≠ s.mem.load y w.bytes)
  | cmp (rip : s.rip = c + 1)
      (ne : w.trunc (s.gpr .rax) ≠ (s.mem.load y w.bytes).setWidth 64)
  | leave (rip : s.rip = c + 2) (zf : s.flags.zf = false)

theorem bits_le (w : Width) : 8 * w.bytes ≤ 64 := by
  cases w <;> decide

/-- What is loaded at a width is read back at that width. -/
theorem trunc_merge (w : Width) (old : BitVec 64) (v : BitVec (8 * w.bytes)) :
    w.trunc (w.merge old (v.setWidth 64)) = v.setWidth 64 := by
  have hv : ((v.setWidth 64).setWidth (8 * w.bytes)).setWidth 64 = v.setWidth 64 := by
    rw [BitVec.setWidth_setWidth_of_le _ (bits_le w), BitVec.setWidth_eq]
  cases w with
  | byte => rw [Width.trunc, setWidth_merge_byte]; exact hv
  | word => rw [Width.trunc, setWidth_merge_word]; exact hv
  | dword =>
      rw [Width.trunc, Width.merge, BitVec.setWidth_setWidth_of_le (k := 32) _ (by decide),
        BitVec.setWidth_eq]
      exact hv
  | qword => rfl

/-- **One step of a comparison** of cells that differ: on it goes, and leaves
through the branch. -/
theorem unequal_step {w : Width} {m m' : Mem D} {x y : Nat} (hP : CellCheck P w m m' c out)
    (hx : s.rip = c → m.ea L s = x) (hy : s.rip = c + 1 → m'.ea L s = y)
    (hs : Unequal w c x y s) (hfetch : P.fetch s.rip = some i)
    (h : exec P L inp s i = some t) :
    t.log = s.log ∧ (Unequal w c x y t ∨ t.rip = out) := by
  cases hs with
  | load rip ne =>
      obtain rfl := Option.some.inj (hP.load.symm.trans (rip ▸ hfetch))
      simp only [exec, State.read, hx rip, Option.map_map, Option.map_eq_some_iff,
        load_eq_some] at h
      obtain ⟨v, ⟨-, rfl⟩, rfl⟩ := h
      refine ⟨rfl, .inl (.cmp (by simp [State.next, State.goto, State.setReg, rip]) ?_)⟩
      simp only [State.next, State.goto, State.setReg, Function.comp_apply,
        Function.update_self, trunc_merge]
      exact fun he => ne (setWidth_injective (bits_le w) he)
  | cmp rip ne =>
      rcases hP.cmp with hcmp | hcmp
      · obtain rfl := Option.some.inj (hcmp.symm.trans (rip ▸ hfetch))
        simp only [exec, State.read, hy rip, Option.map_map, Option.bind_some,
          Option.map_eq_some_iff, load_eq_some] at h
        obtain ⟨v, ⟨-, rfl⟩, rfl⟩ := h
        exact ⟨rfl, .inl (.leave (by simp [State.next, State.goto, rip]) (decide_eq_false ne))⟩
      · obtain rfl := Option.some.inj (hcmp.symm.trans (rip ▸ hfetch))
        simp only [exec, State.read, hy rip, Option.bind_map, Option.bind_eq_some_iff,
          load_eq_some, Function.comp_apply, Option.map_some, Option.some.injEq] at h
        obtain ⟨v, ⟨-, rfl⟩, rfl⟩ := h
        exact ⟨rfl, .inl (.leave (by simp [State.next, State.goto, rip])
          (decide_eq_false (Ne.symm ne)))⟩
  | leave rip zf =>
      obtain ⟨l, hl, hout⟩ := hP.leave
      obtain rfl := Option.some.inj (hl.symm.trans (rip ▸ hfetch))
      obtain rfl := Option.some.inj h
      simp only [Cond.holds, zf, Bool.not_false, if_true]
      exact ⟨rfl, .inr hout⟩

/-- **Cells that are the same** pass the comparison. -/
theorem cell_gets {port : Port} {lo : Nat} {w : Width} {m m' : Mem D} {x y : Nat}
    (hP : CellCheck P w m m' c out) (hlo : lo ≤ c) (hrip : s.rip = c) (hx : m.ea L s = x)
    (hy : ∀ v, m'.ea L (s.setReg .rax v).next = y) (hfx : x + w.bytes ≤ L.limit)
    (hfy : y + w.bytes ≤ L.limit) (heq : s.mem.load x w.bytes = s.mem.load y w.bytes) :
    Gets P L port lo (fun t => t.rip = c + 3 ∧ t.log = s.log) s := by
  let t : State := (s.setReg .rax
    (w.merge (s.gpr .rax) ((s.mem.load x w.bytes).setWidth 64))).next
  have ht : exec P L 0 s (.mov w .rax (.mem m)) = some t := by
    rw [exec, State.read, hx, load_eq_some.mpr ⟨hfx, rfl⟩]
    rfl
  have hat : t.rip = c + 1 := by
    rw [← hrip]
    rfl
  have hrax : t.read L w (.reg .rax) = some ((s.mem.load x w.bytes).setWidth 64) := by
    simp only [t, State.read, State.next, State.goto, State.setReg, Function.update_self,
      trunc_merge]
  have hcell : t.read L w (.mem m') = some ((s.mem.load x w.bytes).setWidth 64) := by
    rw [heq, State.read, hy, load_eq_some.mpr ⟨hfy, rfl⟩]
    rfl
  let u : State := { t.next with
    flags := .ofSub w ((s.mem.load x w.bytes).setWidth 64)
      ((s.mem.load x w.bytes).setWidth 64) }
  have hzf : u.flags.zf = true := decide_eq_true rfl
  obtain ⟨l, hl, -⟩ := hP.leave
  have hleave : Gets P L port lo (fun t => t.rip = c + 3 ∧ t.log = s.log) u := by
    refine .branch hl (by omega) (congrArg (· + 1) hat) ?_
    rw [hzf]
    exact .now ⟨rfl, rfl⟩
  refine .cons (by omega) (hrip ▸ hP.load) rfl ht ?_
  rcases hP.cmp with hcmp | hcmp
  · refine .cons (by omega) (hat ▸ hcmp) rfl ?_ hleave
    rw [exec, hrax, hcell]
    rfl
  · refine .cons (by omega) (hat ▸ hcmp) rfl ?_ hleave
    rw [exec, hrax, hcell]
    rfl

end QemuTest.Asm
