import QemuTest.Macro.Exact

/-!
# Macro — SkipPlacement

Adding a `skip` to a stack of attributes: inside one that is there, or as one
more attribute of its own.

The reason is collected from the whole stack, so both places give it to the
function. An attribute that names only `skip` is left without specs, and counts
as the empty combination.
-/

namespace QemuTest

open Text Product

variable {Expr : Type}

/-! ## Items -/

/-- A function with its stack of `test_fn` attributes and any inputs. -/
structure WrittenItem (Expr : Type) where
  first : WrittenAttr Expr
  attrs : List (WrittenAttr Expr ⊕ List Tok)
  ident : Str
  inputs : List FnArg

def WrittenItem.stack (f : WrittenItem Expr) : List (WrittenAttr Expr) :=
  f.first :: f.attrs.filterMap Sum.getLeft?

def WrittenItem.item (f : WrittenItem Expr) : ItemFn where
  attrs := f.attrs.map fun
    | .inl a => .test_fn a.meta
    | .inr tokens => .other tokens
  ident := f.ident
  inputs := f.inputs

def WrittenItem.expand (syn : Syn Expr) (f : WrittenItem Expr) :
    Except Panic (List (GenEntry Expr)) :=
  testFn syn f.first.tokens f.item

/-- A function with simple parameters. -/
def WrittenFn.toItem (f : WrittenFn Expr) : WrittenItem Expr :=
  ⟨f.first, f.attrs, f.ident, f.item.inputs⟩

theorem expand_toItem (syn : Syn Expr) (f : WrittenFn Expr) :
    f.toItem.expand syn = f.expand syn := rfl

/-! ## Adding a spec -/

/-- A spec written before the `j`-th of an attribute. -/
def WrittenAttr.insert (a : WrittenAttr Expr) (j : Nat) (w : WrittenSpec Expr) :
    WrittenAttr Expr :=
  match a with
  | .bare => .args [w] false
  | .args specs trailing => .args (specs.take j ++ w :: specs.drop j) trailing

/-- Where a spec is added: before the `j`-th spec of the attribute at `i`, the
outermost being the one at 0, or in an attribute of its own put before what is
at `i`. -/
inductive Placement where
  | inside (i j : Nat)
  | alone (i : Nat)
  deriving DecidableEq, Repr

def Placement.isInside : Placement → Bool
  | .inside _ _ => true
  | .alone _ => false

/-- `none` where no `test_fn` attribute is at the place. -/
def WrittenItem.add (f : WrittenItem Expr) (w : WrittenSpec Expr) :
    Placement → Option (WrittenItem Expr)
  | .inside 0 j => some { f with first := f.first.insert j w }
  | .inside (i + 1) j =>
      match f.attrs[i]? with
      | some (.inl a) =>
          some { f with
            attrs := f.attrs.take i ++ .inl (a.insert j w) :: f.attrs.drop (i + 1) }
      | _ => none
  | .alone 0 => some { f with first := .args [w] false, attrs := .inl f.first :: f.attrs }
  | .alone (i + 1) =>
      some { f with
        attrs := f.attrs.take i ++ .inl (.args [w] false) :: f.attrs.drop i }

theorem mem_specs_insert {a : WrittenAttr Expr} {j : Nat} {w v : WrittenSpec Expr} :
    v ∈ (a.insert j w).specs ↔ v = w ∨ v ∈ a.specs := by
  cases a with
  | bare => simp [WrittenAttr.insert, WrittenAttr.specs]
  | args specs trailing =>
      conv_rhs => rw [WrittenAttr.specs, ← List.take_append_drop j specs]
      simp only [WrittenAttr.insert, WrittenAttr.specs, List.mem_append, List.mem_cons]
      tauto

/-- What the macro makes of a stack does not depend on where in it a spec is
written, apart from the attribute it is in. -/
theorem stack_add {f g : WrittenItem Expr} {w : WrittenSpec Expr} {p : Placement}
    (h : f.add w p = some g) :
    g.ident = f.ident ∧ g.inputs = f.inputs ∧
      (p.isInside = true ∧
          (∃ pre a post j, f.stack = pre ++ a :: post ∧
            g.stack = pre ++ a.insert j w :: post) ∨
        p.isInside = false ∧
          (∃ pre post, f.stack = pre ++ post ∧
            g.stack = pre ++ .args [w] false :: post)) := by
  cases p with
  | inside i j =>
      cases i with
      | zero =>
          obtain rfl := Option.some.inj h
          exact ⟨rfl, rfl, .inl ⟨rfl, [], f.first, _, j, rfl, rfl⟩⟩
      | succ i =>
          simp only [WrittenItem.add] at h
          split at h
          · rename_i a ha
            obtain rfl := Option.some.inj h
            obtain ⟨hi, hget⟩ := List.getElem?_eq_some_iff.mp ha
            have hattrs : f.attrs = f.attrs.take i ++ .inl a :: f.attrs.drop (i + 1) := by
              rw [← hget, List.cons_getElem_drop_succ, List.take_append_drop]
            refine ⟨rfl, rfl, .inl ⟨rfl, f.first :: (f.attrs.take i).filterMap Sum.getLeft?, a,
              (f.attrs.drop (i + 1)).filterMap Sum.getLeft?, j, ?_, ?_⟩⟩
            · rw [WrittenItem.stack]
              conv_lhs => rw [hattrs]
              simp
            · simp [WrittenItem.stack]
          · cases h
  | alone i =>
      cases i with
      | zero =>
          obtain rfl := Option.some.inj h
          exact ⟨rfl, rfl, .inr ⟨rfl, [], f.stack, rfl, by simp [WrittenItem.stack]⟩⟩
      | succ i =>
          obtain rfl := Option.some.inj h
          refine ⟨rfl, rfl, .inr ⟨rfl, f.first :: (f.attrs.take i).filterMap Sum.getLeft?,
            (f.attrs.drop i).filterMap Sum.getLeft?, ?_, ?_⟩⟩
          · rw [WrittenItem.stack, List.cons_append, ← List.filterMap_append,
              List.take_append_drop]
          · simp [WrittenItem.stack]

/-! ## Reasons -/

/-- A `skip` spec with a reason. -/
structure IsSkip (syn : Syn Expr) (w : WrittenSpec Expr) (reason : Str) : Prop where
  ok : w.Ok syn
  name : w.name = skipName
  reason : skipReason syn w.spec = .ok reason

theorem params_insert {a : WrittenAttr Expr} {j : Nat} {w : WrittenSpec Expr}
    (h : w.name = skipName) : (a.insert j w).params = a.params := by
  cases a with
  | bare => simp [WrittenAttr.insert, WrittenAttr.params, WrittenAttr.specs, h]
  | args specs trailing =>
      simp only [WrittenAttr.insert, WrittenAttr.params, WrittenAttr.specs, h,
        List.filter_append, ne_eq, not_true_eq_false, decide_false, Bool.false_eq_true,
        not_false_eq_true, List.filter_cons_of_neg]
      rw [← List.filter_append, List.take_append_drop]

theorem lastReason_append (syn : Syn Expr) (vs ws : List (WrittenSpec Expr)) :
    lastReason syn (vs ++ ws) = (lastReason syn ws).or (lastReason syn vs) := by
  induction vs with
  | nil => simp [lastReason]
  | cons v vs ih => rw [List.cons_append, lastReason, ih, lastReason, Option.or_assoc]

/-- Without a `skip` there is no reason. -/
theorem lastReason_eq_none {syn : Syn Expr} {ws : List (WrittenSpec Expr)}
    (h : ∀ w ∈ ws, w.name ≠ skipName) : lastReason syn ws = none := by
  induction ws with
  | nil => rfl
  | cons w ws ih =>
      rw [lastReason, ih fun v hv => h v (List.mem_cons_of_mem _ hv),
        if_neg (h w List.mem_cons_self)]
      rfl

/-- The only `skip` of an attribute gives its reason. -/
theorem lastReason_insert {syn : Syn Expr} {a : WrittenAttr Expr} {j : Nat}
    {w : WrittenSpec Expr} {reason : Str} (hw : IsSkip syn w reason)
    (h : ∀ v ∈ a.specs, v.name ≠ skipName) :
    lastReason syn (a.insert j w).specs = some reason := by
  have hhead : ∀ ws, lastReason syn ws = none → lastReason syn (w :: ws) = some reason := by
    intro ws hws
    simp [lastReason, hws, hw.name, hw.reason, Except.toOption]
  cases a with
  | bare => exact hhead [] rfl
  | args specs trailing =>
      have htake : lastReason syn (specs.take j) = none :=
        lastReason_eq_none fun v hv => h v (List.mem_of_mem_take hv)
      have hdrop : lastReason syn (specs.drop j) = none :=
        lastReason_eq_none fun v hv => h v (List.mem_of_mem_drop hv)
      rw [WrittenAttr.insert, WrittenAttr.specs, lastReason_append, htake, hhead _ hdrop]
      rfl

/-- Attributes without a reason leave the one that was found. -/
theorem stackReason_of_none {syn : Syn Expr} {skip : Option Str}
    {as : List (WrittenAttr Expr)} (h : ∀ a ∈ as, lastReason syn a.specs = none) :
    stackReason syn skip as = skip := by
  induction as with
  | nil => rfl
  | cons a as ih =>
      have hrest := ih fun b hb => h b (List.mem_cons_of_mem _ hb)
      rw [stackReason, List.foldl_cons, h a List.mem_cons_self]
      exact hrest

/-- The only attribute with a reason gives that of the stack. -/
theorem stackReason_single {syn : Syn Expr} {pre post : List (WrittenAttr Expr)}
    {a : WrittenAttr Expr} {reason : Str} (ha : lastReason syn a.specs = some reason)
    (hpre : ∀ b ∈ pre, lastReason syn b.specs = none)
    (hpost : ∀ b ∈ post, lastReason syn b.specs = none) :
    stackReason syn none (pre ++ a :: post) = some reason := by
  have hsplit : stackReason syn none (pre ++ a :: post)
      = stackReason syn (some reason) post := by
    have h := @stackReason_of_none _ syn none _ hpre
    rw [stackReason] at h
    rw [stackReason, List.foldl_append, h, List.foldl_cons, ha]
    rfl
  rw [hsplit, stackReason_of_none hpost]

/-! ## Expansions -/

/-- A stack whose reasons are extracted has a string literal for every `skip`. -/
theorem skips_of_extractSkip {syn : Syn Expr} {ws : List (WrittenSpec Expr)}
    {r : List (ParamSpec Expr) × Option Str}
    (h : extractSkip syn (ws.map WrittenSpec.spec) = .ok r) :
    ∀ w ∈ ws, w.name = skipName → ∃ reason, skipReason syn w.spec = .ok reason := by
  induction ws generalizing r with
  | nil => simp
  | cons w ws ih =>
      rw [List.map_cons, extractSkip] at h
      have hname : w.spec.name = w.name := rfl
      cases hrest : extractSkip syn (ws.map WrittenSpec.spec) with
      | error e =>
          rw [hrest] at h
          split at h
          · cases hreason : skipReason syn w.spec <;>
              simp [hreason, bind, Except.bind] at h
          · simp [bind, Except.bind] at h
      | ok p =>
          intro v hv hskip
          rcases List.mem_cons.mp hv with rfl | hv
          · rw [if_pos (hname.trans hskip)] at h
            cases hreason : skipReason syn v.spec with
            | ok reason => exact ⟨reason, rfl⟩
            | error e => simp [hreason, bind, Except.bind] at h
          · exact ih hrest v hv hskip

theorem skips_of_collectAttrs {syn : Syn Expr}
    {attrs : List (WrittenAttr Expr ⊕ List Tok)} {sets : List (List (ParamSpec Expr))}
    {skip : Option Str} {r : List (List (ParamSpec Expr)) × Option Str}
    (hspecs : ∀ a ∈ attrs.filterMap Sum.getLeft?, ∀ w ∈ a.specs, w.Ok syn)
    (h : collectAttrs syn sets skip (attrs.map fun
        | .inl a => .test_fn a.meta
        | .inr tokens => .other tokens) = .ok r) :
    ∀ a ∈ attrs.filterMap Sum.getLeft?, ∀ w ∈ a.specs, w.name = skipName →
      ∃ reason, skipReason syn w.spec = .ok reason := by
  induction attrs generalizing sets skip with
  | nil => simp
  | cons attr attrs ih =>
      cases attr with
      | inr tokens => exact ih hspecs h
      | inl a =>
          have hmem : a ∈ (Sum.inl a :: attrs).filterMap Sum.getLeft? := by simp
          have hrest : ∀ b ∈ attrs.filterMap Sum.getLeft?,
              b ∈ (Sum.inl a :: attrs).filterMap Sum.getLeft? := by
            intro b hb
            simpa using Or.inr hb
          simp only [List.map_cons, collectAttrs, parseSpecsFromAttr_written (hspecs a hmem),
            bind, Except.bind] at h
          cases hex : extractSkip syn (a.specs.map WrittenSpec.spec) with
          | error e => simp [hex] at h
          | ok p =>
              rw [hex] at h
              intro b hb
              rcases (by simpa using hb : b = a ∨ b ∈ attrs.filterMap Sum.getLeft?) with
                rfl | hb
              · exact skips_of_extractSkip hex
              · exact ih (fun c hc => hspecs c (hrest c hc)) h b hb

/-- An item that expands has a string literal for every `skip`. -/
theorem skips_of_expand {syn : Syn Expr} {f : WrittenItem Expr}
    (hspecs : ∀ a ∈ f.stack, ∀ w ∈ a.specs, w.Ok syn) {entries : List (GenEntry Expr)}
    (h : f.expand syn = .ok entries) :
    ∀ a ∈ f.stack, ∀ w ∈ a.specs, w.name = skipName →
      ∃ reason, skipReason syn w.spec = .ok reason := by
  have hfirst : f.first ∈ f.stack := List.mem_cons_self
  simp only [WrittenItem.expand, testFn, parseSpecs_written (hspecs f.first hfirst), bind,
    Except.bind] at h
  cases hex : extractSkip syn (f.first.specs.map WrittenSpec.spec) with
  | error e => simp [hex] at h
  | ok p =>
      rw [hex] at h
      cases hcollect : collectAttrs syn [p.1] p.2 f.item.attrs with
      | error e => simp [hcollect] at h
      | ok q =>
          intro a ha
          rcases List.mem_cons.mp ha with rfl | ha
          · exact skips_of_extractSkip hex
          · exact skips_of_collectAttrs
              (fun b hb => hspecs b (List.mem_cons_of_mem _ hb)) hcollect a ha

def WrittenItem.reason (syn : Syn Expr) (f : WrittenItem Expr) : Option Str :=
  stackReason syn none f.stack

/-- The combinations of the stack. -/
def WrittenItem.combos (f : WrittenItem Expr) : List (Combo Expr) :=
  (f.stack.flatMap WrittenAttr.configs).map (List.map Pick.item)

theorem expand_item {syn : Syn Expr} {f : WrittenItem Expr}
    (hspecs : ∀ a ∈ f.stack, ∀ w ∈ a.specs, w.Ok syn)
    (hskips : ∀ a ∈ f.stack, ∀ w ∈ a.specs, w.name = skipName →
      ∃ reason, skipReason syn w.spec = .ok reason) :
    f.expand syn = genEntries syn f.ident (f.reason syn) f.inputs f.combos :=
  testFn_written syn f.ident f.inputs hspecs hskips

def GenEntry.withSkip (g : GenEntry Expr) (skip : Option Str) : GenEntry Expr :=
  { g with skip }

theorem plainEntry_withSkip {syn : Syn Expr} {name : Str} {skip : Option Str}
    {g : GenEntry Expr} (h : plainEntry syn name skip = .ok g) (skip' : Option Str) :
    plainEntry syn name skip' = .ok (g.withSkip skip') := by
  by_cases hraw : '#' ∈ name
  · obtain ⟨panic, hpanic⟩ := plainEntry_error syn skip hraw
    rw [hpanic] at h
    cases h
  · rw [plainEntry_ok syn skip hraw] at h
    rw [plainEntry_ok syn skip' hraw, ← Except.ok.inj h]
    rfl

theorem comboEntry_withSkip {syn : Syn Expr} {name : Str} {skip : Option Str}
    {params : List FnArg} {combo : Combo Expr} {i : Nat} {g : GenEntry Expr}
    (h : comboEntry syn name skip params combo i = .ok g) (skip' : Option Str) :
    comboEntry syn name skip' params combo i = .ok (g.withSkip skip') := by
  by_cases hraw : '#' ∈ name
  · obtain ⟨panic, hpanic⟩ := comboEntry_error syn skip params combo i hraw
    rw [hpanic] at h
    cases h
  · rw [comboEntry_ok syn skip params combo i hraw] at h
    rw [comboEntry_ok syn skip' params combo i hraw]
    cases hb : makeBindings params combo with
    | error e => simp [hb, Except.map] at h
    | ok bindings =>
        rw [hb] at h
        rw [← Except.ok.inj h]
        rfl

theorem mapM_ok_map {ε α γ : Type} {f g : α → Except ε γ} {post : γ → γ}
    (hfg : ∀ a c, f a = .ok c → g a = .ok (post c)) {l : List α} {cs : List γ}
    (h : l.mapM f = .ok cs) : l.mapM g = .ok (cs.map post) ∧ cs.length = l.length := by
  induction l generalizing cs with
  | nil =>
      obtain rfl : [] = cs := by simpa [pure, Except.pure] using h
      exact ⟨rfl, rfl⟩
  | cons a l ih =>
      rw [List.mapM_cons] at h ⊢
      cases ha : f a with
      | error e => simp [ha, bind, Except.bind] at h
      | ok c =>
          cases hl : l.mapM f with
          | error e => simp [ha, hl, bind, Except.bind] at h
          | ok cs' =>
              obtain ⟨hg, hlen⟩ := ih hl
              obtain rfl : c :: cs' = cs := by
                simpa [ha, hl, bind, Except.bind, pure, Except.pure] using h
              rw [hfg a c ha, hg]
              exact ⟨rfl, by simp [hlen]⟩

/-- The reason changes nothing but the field of the entries; there is one entry
for each combination. -/
theorem genEntries_withSkip {syn : Syn Expr} {ident : Str} {skip : Option Str}
    {inputs : List FnArg} {combos : List (Combo Expr)} {entries : List (GenEntry Expr)}
    (h : genEntries syn ident skip inputs combos = .ok entries) (skip' : Option Str) :
    genEntries syn ident skip' inputs combos
        = .ok (entries.map fun g => g.withSkip skip') ∧
      entries.length = combos.length := by
  rw [genEntries] at h ⊢
  by_cases hplain : isPlain combos = true
  · rw [if_pos hplain] at h ⊢
    rw [isPlain_iff.mp hplain]
    cases hentry : plainEntry syn ident skip with
    | error e => simp [hentry, Except.bind] at h
    | ok entry =>
        rw [hentry] at h
        obtain rfl := Except.ok.inj h
        rw [plainEntry_withSkip hentry skip']
        exact ⟨rfl, rfl⟩
  · rw [if_neg hplain] at h ⊢
    obtain ⟨hmap, hlen⟩ := mapM_ok_map (fun p g hg => comboEntry_withSkip hg skip') h
    exact ⟨hmap, by simpa using hlen⟩

/-! ## Orthogonality -/

/-- `g`, which is `f` with a `skip` added, registers the configurations of `f`,
and with the reason given where `f` has no `skip`. -/
def Orthogonal (syn : Syn Expr) (f g : WrittenItem Expr) (reason : Str)
    (entries : List (GenEntry Expr)) : Prop :=
  ∃ entries', g.expand syn = .ok entries' ∧
    entries'.map (GenEntry.withSkip · none) = entries.map (GenEntry.withSkip · none) ∧
    ((∀ a ∈ f.stack, ∀ v ∈ a.specs, v.name ≠ skipName) →
      ∀ e ∈ entries', e.skip = some reason)

/-- A spec of the new stack is the added one or one of the old stack. -/
theorem mem_specs_add {f g : WrittenItem Expr} {w : WrittenSpec Expr} {p : Placement}
    (h : f.add w p = some g) {b : WrittenAttr Expr} (hb : b ∈ g.stack)
    {v : WrittenSpec Expr} (hv : v ∈ b.specs) : v = w ∨ ∃ b' ∈ f.stack, v ∈ b'.specs := by
  obtain ⟨-, -, ⟨-, pre, a, post, j, hf, hg⟩ | ⟨-, pre, post, hf, hg⟩⟩ := stack_add h
  · rw [hg, List.mem_append, List.mem_cons] at hb
    rcases hb with hb | rfl | hb
    · exact .inr ⟨b, by simp [hf, hb], hv⟩
    · exact (mem_specs_insert.mp hv).imp id fun hv => ⟨a, by simp [hf], hv⟩
    · exact .inr ⟨b, by simp [hf, hb], hv⟩
  · rw [hg, List.mem_append, List.mem_cons] at hb
    rcases hb with hb | rfl | hb
    · exact .inr ⟨b, by simp [hf, hb], hv⟩
    · exact .inl (by simpa [WrittenAttr.specs] using hv)
    · exact .inr ⟨b, by simp [hf, hb], hv⟩

section Added

variable {syn : Syn Expr} {f g : WrittenItem Expr} {reason : Str} {w : WrittenSpec Expr}
  {p : Placement} {entries : List (GenEntry Expr)}

/-- The new stack reads as the old one does. -/
theorem specs_ok_add (hw : IsSkip syn w reason)
    (hspecs : ∀ a ∈ f.stack, ∀ v ∈ a.specs, v.Ok syn) (hadd : f.add w p = some g) :
    ∀ b ∈ g.stack, ∀ v ∈ b.specs, v.Ok syn := by
  intro b hb v hv
  rcases mem_specs_add hadd hb hv with rfl | ⟨b', hb', hv'⟩
  · exact hw.ok
  · exact hspecs b' hb' v hv'

theorem skips_add (hw : IsSkip syn w reason)
    (hskips : ∀ a ∈ f.stack, ∀ v ∈ a.specs, v.name = skipName →
      ∃ reason, skipReason syn v.spec = .ok reason) (hadd : f.add w p = some g) :
    ∀ b ∈ g.stack, ∀ v ∈ b.specs, v.name = skipName →
      ∃ reason, skipReason syn v.spec = .ok reason := by
  intro b hb v hv hname
  rcases mem_specs_add hadd hb hv with rfl | ⟨b', hb', hv'⟩
  · exact ⟨reason, hw.reason⟩
  · exact hskips b' hb' v hv' hname

/-- Inside an attribute that is there, a `skip` only sets the reason. -/
theorem orthogonal_inside (hw : IsSkip syn w reason)
    (hspecs : ∀ a ∈ f.stack, ∀ v ∈ a.specs, v.Ok syn)
    (hexpand : f.expand syn = .ok entries) (hadd : f.add w p = some g)
    (hinside : p.isInside = true) : Orthogonal syn f g reason entries := by
  have hskips := skips_of_expand hspecs hexpand
  obtain ⟨hident, hinputs, ⟨-, pre, a, post, j, hf, hg⟩ | ⟨halone, -⟩⟩ := stack_add hadd
  · have hcombos : g.combos = f.combos := by
      rw [WrittenItem.combos, WrittenItem.combos, hf, hg, List.flatMap_append,
        List.flatMap_append, List.flatMap_cons, List.flatMap_cons, WrittenAttr.configs,
        WrittenAttr.choices, params_insert hw.name]
      rfl
    rw [expand_item hspecs hskips] at hexpand
    obtain ⟨hgen, -⟩ := genEntries_withSkip hexpand (g.reason syn)
    refine ⟨entries.map (GenEntry.withSkip · (g.reason syn)), ?_, ?_, ?_⟩
    · rw [expand_item (specs_ok_add hw hspecs hadd) (skips_add hw hskips hadd), hident,
        hinputs, hcombos, hgen]
    · rw [List.map_map]
      rfl
    · intro hnone e he
      obtain ⟨e₀, -, rfl⟩ := List.mem_map.mp he
      have hplain : ∀ b ∈ pre ++ a :: post, ∀ v ∈ b.specs, v.name ≠ skipName :=
        fun b hb => hnone b (hf ▸ hb)
      rw [GenEntry.withSkip, WrittenItem.reason, hg]
      exact stackReason_single (lastReason_insert hw (hplain a (by simp)))
        (fun b hb => lastReason_eq_none (hplain b (by simp [hb])))
        (fun b hb => lastReason_eq_none (hplain b (by simp [hb])))
  · rw [hinside] at halone
    cases halone

/-- There is one entry for each configuration of the stack. -/
theorem length_of_expand (hspecs : ∀ a ∈ f.stack, ∀ v ∈ a.specs, v.Ok syn)
    (hexpand : f.expand syn = .ok entries) :
    entries.length = (f.stack.flatMap WrittenAttr.configs).length := by
  rw [expand_item hspecs (skips_of_expand hspecs hexpand)] at hexpand
  rw [(genEntries_withSkip hexpand none).2, WrittenItem.combos, List.length_map]

/-- In an attribute of its own, a `skip` adds a configuration: there are not as
many entries as before, if there are any. -/
theorem not_orthogonal_alone (hw : IsSkip syn w reason)
    (hspecs : ∀ a ∈ f.stack, ∀ v ∈ a.specs, v.Ok syn)
    (hexpand : f.expand syn = .ok entries) (hadd : f.add w p = some g)
    (halone : p.isInside = false) : ¬ Orthogonal syn f g reason entries := by
  rintro ⟨entries', hexpand', hsame, -⟩
  obtain ⟨-, -, ⟨hinside, -⟩ | ⟨-, pre, post, hf, hg⟩⟩ := stack_add hadd
  · rw [halone] at hinside
    cases hinside
  · have hone : WrittenAttr.configs (.args [w] false) = [[]] := by
      simp [WrittenAttr.configs, WrittenAttr.choices, WrittenAttr.params,
        WrittenAttr.specs, hw.name]
    have hcount := congrArg List.length hsame
    rw [List.length_map, List.length_map,
      length_of_expand (specs_ok_add hw hspecs hadd) hexpand',
      length_of_expand hspecs hexpand, hf, hg, List.flatMap_append, List.flatMap_append,
      List.flatMap_cons, hone] at hcount
    simp at hcount

end Added

/-- **Skip is orthogonal to parameters** iff it is written inside an attribute
that is there. -/
theorem skip_orthogonal_iff {syn : Syn Expr} {f g : WrittenItem Expr} {reason : Str}
    {w : WrittenSpec Expr} (hw : IsSkip syn w reason)
    (hspecs : ∀ a ∈ f.stack, ∀ v ∈ a.specs, v.Ok syn) {entries : List (GenEntry Expr)}
    (hexpand : f.expand syn = .ok entries) {p : Placement} (hadd : f.add w p = some g) :
    Orthogonal syn f g reason entries ↔ p.isInside = true := by
  cases hp : p.isInside with
  | true => exact iff_of_true (orthogonal_inside hw hspecs hexpand hadd hp) rfl
  | false => exact iff_of_false (not_orthogonal_alone hw hspecs hexpand hadd hp) (by simp)

/-- `#[test_fn(s = {1, 2})] fn t(s: u)`. -/
def oneParam : WrittenFn Str where
  first := .args [⟨['s'], .multi [literal ['1'], literal ['2']] false⟩] false
  attrs := []
  ident := ['t']
  inputs := [(['s'], ['u'])]

/-- `#[test_fn] fn t()`. -/
def noParams : WrittenFn Str := ⟨.bare, [], ['t'], []⟩

/-- `skip = "r"`. -/
def skipSpec : WrittenSpec Str := ⟨skipName, .single (literal ['r'])⟩

theorem isSkip_skipSpec : IsSkip literalSyn skipSpec ['r'] where
  ok := ok_of_literals (by simp [skipSpec, ValueForm.written])
  name := rfl
  reason := rfl

theorem ok_oneParam : oneParam.Ok literalSyn := by
  refine WrittenFn.ok_of_literals ?_ ?_ (by decide) ?_
  · simp [oneParam, WrittenFn.stack, WrittenAttr.specs, ValueForm.written]
  · simp [oneParam, WrittenFn.stack, WrittenAttr.specs, WrittenFn.params]
  · simp [oneParam, WrittenFn.params, skipName, lit]

theorem not_raw_oneParam : ¬ oneParam.Raw := by simp [WrittenFn.Raw, oneParam]

theorem skip_orthogonal_oneParam :
    ∃ g entries, oneParam.toItem.expand literalSyn = .ok entries ∧
      oneParam.toItem.add skipSpec (.inside 0 1) = some g ∧
      (Orthogonal literalSyn oneParam.toItem g ['r'] entries ↔
        Placement.isInside (.inside 0 1) = true) := by
  obtain ⟨entries, hexpand, -⟩ := expand_written ok_oneParam (absurd · not_raw_oneParam)
    (fun _ e => Value.base e) (fun _ => []) (fun _ => ())
  exact ⟨_, entries, hexpand, rfl, skip_orthogonal_iff (f := oneParam.toItem)
    (p := .inside 0 1) isSkip_skipSpec ok_oneParam.specs hexpand rfl⟩

/-- A `skip` in an attribute of its own aborts the expansion of a function with
parameters, and registers one without parameters twice. -/
theorem not_orthogonal_ownAttribute :
    (∃ g entries, oneParam.toItem.expand literalSyn = .ok entries ∧
      oneParam.toItem.add skipSpec (.alone 1) = some g ∧
      (g.expand literalSyn).toOption.isNone = true ∧
      ¬ Orthogonal literalSyn oneParam.toItem g ['r'] entries) ∧
    (∃ g entries, noParams.toItem.expand literalSyn = .ok entries ∧
      noParams.toItem.add skipSpec (.alone 1) = some g ∧
      (g.expand literalSyn).toOption.map List.length = some 2 ∧
      ¬ Orthogonal literalSyn noParams.toItem g ['r'] entries) := by
  constructor
  · obtain ⟨entries, hexpand, -⟩ := expand_written ok_oneParam (absurd · not_raw_oneParam)
      (fun _ e => Value.base e) (fun _ => []) (fun _ => ())
    exact ⟨_, entries, hexpand, rfl, by decide +kernel,
      not_orthogonal_alone (f := oneParam.toItem) (p := .alone 1) isSkip_skipSpec
        ok_oneParam.specs hexpand rfl rfl⟩
  · have hok : noParams.Ok literalSyn := by
      refine WrittenFn.ok_of_literals ?_ ?_ (by decide) ?_
      · simp [noParams, WrittenFn.stack, WrittenAttr.specs]
      · simp [noParams, WrittenFn.stack, WrittenAttr.specs, WrittenFn.params]
      · simp [noParams, WrittenFn.params]
    have hraw : ¬ noParams.Raw := by simp [WrittenFn.Raw, noParams]
    obtain ⟨entries, hexpand, -⟩ := expand_written hok (absurd · hraw)
      (fun _ e => Value.base e) (fun _ => []) (fun _ => ())
    exact ⟨_, entries, hexpand, rfl, by decide +kernel,
      not_orthogonal_alone (f := noParams.toItem) (p := .alone 1) isSkip_skipSpec hok.specs
        hexpand rfl rfl⟩

end QemuTest
