import QemuTest.Lib.Product
import QemuTest.Macro.Expand

/-!
# Macro — Exact

What `test_fn` registers for a written function: one entry for each choice of
a value for every parameter, attribute by attribute. `Pick` is one choice,
`WrittenFn.choices` the table of all of them, `configEntry` the entry a
configuration stands for; `expand_written` is the equation between the
expansion and the products of the table. A function named by a raw identifier
(`Raw`) has no expansion, unless the table is empty (`expand_raw`).
-/

namespace QemuTest

open Text Product

variable {Expr B β : Type}

/-! ## Choices -/

/-- One choice for a parameter. -/
inductive Pick (Expr : Type) where
  | value (e : Expr)
  | someValue (e : Expr)
  | omitted

/-- The choices of a value form: its values, and one more to omit an optional
parameter. -/
def ValueForm.picks : ValueForm Expr → List (Pick Expr)
  | .single value => [.value value.expr]
  | .multi values _ => values.map fun v => .value v.expr
  | .optional values _ => .omitted :: values.map fun v => .someValue v.expr

/-- A configuration: a choice for each parameter, in attribute order. -/
abbrev Choices (Expr : Type) := List (Str × Pick Expr)

def WrittenSpec.choices (w : WrittenSpec Expr) : Choices Expr :=
  w.form.picks.map fun p => (w.name, p)

/-- The specs of an attribute apart from `skip`. -/
def WrittenAttr.params (a : WrittenAttr Expr) : List (WrittenSpec Expr) :=
  a.specs.filter fun w => w.name ≠ skipName

def WrittenAttr.names (a : WrittenAttr Expr) : List Str :=
  a.params.map WrittenSpec.name

/-- The table of choices of an attribute. -/
def WrittenAttr.choices (a : WrittenAttr Expr) : List (Choices Expr) :=
  a.params.map WrittenSpec.choices

def WrittenAttr.configs (a : WrittenAttr Expr) : List (Choices Expr) :=
  product a.choices

/-- The value a choice binds a parameter of type `ty` to. -/
def Pick.eval (eval : Str → Expr → Value B) (ty : Str) : Pick Expr → Value B
  | .value e => eval ty e
  | .someValue e => .some (eval ty e)
  | .omitted => .none

/-- The value a choice shows in the label, if it does. -/
def Pick.shown (eval : Str → Expr → Value B) (ty : Str) : Pick Expr → Option (Value B)
  | .value e => some (eval ty e)
  | .someValue e => some (eval ty e)
  | .omitted => none

/-! ## Written functions -/

/-- A function with its stack of `test_fn` attributes, other attributes in
between. -/
structure WrittenFn (Expr : Type) where
  first : WrittenAttr Expr
  attrs : List (WrittenAttr Expr ⊕ List Tok)
  ident : Str
  inputs : List (Str × Str)

def WrittenFn.stack (f : WrittenFn Expr) : List (WrittenAttr Expr) :=
  f.first :: f.attrs.filterMap Sum.getLeft?

def WrittenFn.item (f : WrittenFn Expr) : ItemFn where
  attrs := f.attrs.map fun
    | .inl a => .test_fn a.meta
    | .inr tokens => .other tokens
  ident := f.ident
  inputs := f.inputs.map fun p => .typed p.1 p.2

/-- What the compiler makes of the function. -/
def WrittenFn.expand (syn : Syn Expr) (f : WrittenFn Expr) :
    Except Panic (List (GenEntry Expr)) :=
  testFn syn f.first.tokens f.item

/-- The name is a raw identifier: the `#` of its mark tells. -/
def WrittenFn.Raw (f : WrittenFn Expr) : Prop := '#' ∈ f.ident

def WrittenFn.params (f : WrittenFn Expr) : List Str := f.inputs.map Prod.fst

/-- What a list of pairs holds under a name. -/
def under {α : Type} (l : List (Str × α)) (name : Str) : Option α :=
  (l.find? fun p => p.1 = name).map Prod.snd

/-- The declared type of a parameter. -/
def WrittenFn.ty (f : WrittenFn Expr) (name : Str) : Str :=
  (under f.inputs name).getD []

/-- The attributes are well formed, every `skip` has a string literal, and
apart from it each attribute names exactly the parameters, each once. -/
structure WrittenFn.Ok (syn : Syn Expr) (f : WrittenFn Expr) : Prop where
  specs : ∀ a ∈ f.stack, ∀ w ∈ a.specs, w.Ok syn
  skips : ∀ a ∈ f.stack, ∀ w ∈ a.specs, w.name = skipName →
    ∃ reason, skipReason syn w.spec = .ok reason
  names : ∀ a ∈ f.stack, a.names.Perm f.params
  nodup : f.params.Nodup

/-- The choices of all attributes: a table for each. -/
def WrittenFn.choices (f : WrittenFn Expr) : List (List (Choices Expr)) :=
  f.stack.map WrittenAttr.choices

/-- The variables a configuration puts in scope: the parameters, each bound to
its choice. -/
def WrittenFn.assignment (eval : Str → Expr → Value B) (f : WrittenFn Expr)
    (c : Choices Expr) : Env B := fun name =>
  if name ∈ f.params then (under c name).map (Pick.eval eval (f.ty name)) else none

/-- The properties of a configuration: what its choices show, in order. -/
def WrittenFn.properties (eval : Str → Expr → Value B) (display : Value B → Str)
    (f : WrittenFn Expr) (c : Choices Expr) : List (Str × Str) :=
  c.filterMap fun item =>
    (item.2.shown eval (f.ty item.1)).map fun v => (item.1, display v)

/-- The entry of a configuration. -/
def WrittenFn.configEntry (eval : Str → Expr → Value B) (display : Value B → Str)
    (body : Env B → β) (f : WrittenFn Expr) (skip : Option Str) (c : Choices Expr) :
    TestEntry β where
  name := f.ident
  props := f.properties eval display c
  test_fn := body (f.assignment eval c)
  skip := skip

/-! ## Reading the stack -/

/-- The reason an attribute gives: that of its last `skip`. -/
def lastReason (syn : Syn Expr) : List (WrittenSpec Expr) → Option Str
  | [] => none
  | w :: ws =>
      (lastReason syn ws).or
        (if w.name = skipName then (skipReason syn w.spec).toOption else none)

theorem extractSkip_written {syn : Syn Expr} {ws : List (WrittenSpec Expr)}
    (h : ∀ w ∈ ws, w.name = skipName → ∃ reason, skipReason syn w.spec = .ok reason) :
    extractSkip syn (ws.map WrittenSpec.spec)
      = .ok ((ws.filter fun w => w.name ≠ skipName).map WrittenSpec.spec,
          lastReason syn ws) := by
  induction ws with
  | nil => rfl
  | cons w ws ih =>
      have ih := ih fun w' hw' => h w' (List.mem_cons_of_mem _ hw')
      have hname : w.spec.name = w.name := rfl
      rw [List.map_cons, extractSkip, ih]
      by_cases hskip : w.name = skipName
      · obtain ⟨reason, hreason⟩ := h w List.mem_cons_self hskip
        rw [if_pos (hname.trans hskip), hreason]
        simp [hskip, lastReason, hreason, Except.toOption, bind, Except.bind]
      · rw [if_neg (fun he => hskip (hname.symm.trans he))]
        simp [hskip, lastReason, bind, Except.bind]

/-- The reason of the stack: that of the last attribute that gives one. -/
def stackReason (syn : Syn Expr) (skip : Option Str) (as : List (WrittenAttr Expr)) :
    Option Str :=
  as.foldl
    (fun skip a =>
      let sr := lastReason syn a.specs
      if sr.isSome then sr else skip)
    skip

def WrittenFn.reason (syn : Syn Expr) (f : WrittenFn Expr) : Option Str :=
  stackReason syn none f.stack

theorem collectAttrs_written (syn : Syn Expr)
    (attrs : List (WrittenAttr Expr ⊕ List Tok)) (sets : List (List (ParamSpec Expr)))
    (skip : Option Str)
    (hok : ∀ a ∈ attrs.filterMap Sum.getLeft?, ∀ w ∈ a.specs, w.Ok syn)
    (hskips : ∀ a ∈ attrs.filterMap Sum.getLeft?, ∀ w ∈ a.specs, w.name = skipName →
      ∃ reason, skipReason syn w.spec = .ok reason) :
    collectAttrs syn sets skip (attrs.map fun
        | .inl a => .test_fn a.meta
        | .inr tokens => .other tokens)
      = .ok (sets ++ (attrs.filterMap Sum.getLeft?).map
            (fun a => a.params.map WrittenSpec.spec),
          stackReason syn skip (attrs.filterMap Sum.getLeft?)) := by
  induction attrs generalizing sets skip with
  | nil => simp [collectAttrs, stackReason]
  | cons attr attrs ih =>
      cases attr with
      | inr tokens => exact ih sets skip hok hskips
      | inl a =>
          have hmem : a ∈ (Sum.inl a :: attrs).filterMap Sum.getLeft? := by simp
          have hrest : ∀ b ∈ attrs.filterMap Sum.getLeft?,
              b ∈ (Sum.inl a :: attrs).filterMap Sum.getLeft? := by
            intro b hb
            simpa using Or.inr hb
          have ih := ih (sets ++ [a.params.map WrittenSpec.spec])
            (if (lastReason syn a.specs).isSome then lastReason syn a.specs else skip)
            (fun b hb => hok b (hrest b hb)) (fun b hb => hskips b (hrest b hb))
          simp only [List.map_cons, collectAttrs, parseSpecsFromAttr_written (hok a hmem),
            extractSkip_written (hskips a hmem), bind, Except.bind]
          rw [WrittenAttr.params] at ih
          rw [ih]
          simp [stackReason, WrittenAttr.params]

/-! ## Products -/

/-- A choice as the macro's combinations hold it. -/
def Pick.item (p : Str × Pick Expr) : Str × Option Expr × Bool :=
  match p.2 with
  | .value e => (p.1, some e, false)
  | .someValue e => (p.1, some e, true)
  | .omitted => (p.1, none, true)

@[simp] theorem item_name (p : Str × Pick Expr) : (Pick.item p).1 = p.1 := by
  unfold Pick.item
  split <;> rfl

theorem comboItems_written (w : WrittenSpec Expr) :
    comboItems w.spec = w.choices.map Pick.item := by
  cases hform : w.form with
  | single value =>
      simp [comboItems, WrittenSpec.spec, WrittenSpec.choices, hform,
        ValueForm.isOptional, ValueForm.written, ValueForm.picks, Pick.item]
  | multi values trailing =>
      simp [comboItems, WrittenSpec.spec, WrittenSpec.choices, hform,
        ValueForm.isOptional, ValueForm.written, ValueForm.picks, Pick.item]
  | optional values trailing =>
      simp [comboItems, WrittenSpec.spec, WrittenSpec.choices, hform,
        ValueForm.isOptional, ValueForm.written, ValueForm.picks, Pick.item]

theorem cartesianProduct_eq (specs : List (ParamSpec Expr)) :
    cartesianProduct specs = product (specs.map comboItems) := by
  have h := foldl_extend (specs.map comboItems) [[]]
  rw [List.foldl_map] at h
  simpa [cartesianProduct] using h

/-- An attribute's combinations are its configurations; without specs that is
the empty one. -/
theorem specCombos_written (a : WrittenAttr Expr) :
    specCombos (a.params.map WrittenSpec.spec)
      = a.configs.map (List.map Pick.item) := by
  have hprod : cartesianProduct (a.params.map WrittenSpec.spec)
      = a.configs.map (List.map Pick.item) := by
    rw [cartesianProduct_eq, List.map_map, WrittenAttr.configs, ← product_map,
      WrittenAttr.choices, List.map_map]
    congr 1
    exact List.map_congr_left fun w _ => comboItems_written w
  rw [specCombos]
  by_cases hempty : a.params = []
  · simp [hempty, WrittenAttr.configs, WrittenAttr.choices]
  · rw [if_neg (by simpa using hempty), hprod]

/-- The combinations of the stack are its configurations, in order. -/
theorem flatMap_specCombos (as : List (WrittenAttr Expr)) :
    (as.map fun a => a.params.map WrittenSpec.spec).flatMap specCombos
      = (as.flatMap WrittenAttr.configs).map (List.map Pick.item) := by
  rw [List.flatMap_map, List.map_flatMap]
  exact List.flatMap_congr fun a _ => specCombos_written a

/-! ## Bindings and properties -/

section Under

variable {α : Type} {l : List (Str × α)} {name : Str}

theorem under_cons (p : Str × α) (l : List (Str × α)) (name : Str) :
    under (p :: l) name = if p.1 = name then some p.2 else under l name := by
  by_cases h : p.1 = name
  · simp [under, h]
  · simp [under, h]

theorem under_of_mem {a : α} (hnd : (l.map Prod.fst).Nodup) (h : (name, a) ∈ l) :
    under l name = some a := by
  induction l with
  | nil => simp at h
  | cons p l ih =>
      rw [List.map_cons, List.nodup_cons] at hnd
      rcases List.mem_cons.mp h with rfl | h
      · rw [under_cons, if_pos rfl]
      · have hne : p.1 ≠ name := by
          intro he
          exact hnd.1 (he ▸ List.mem_map_of_mem (f := Prod.fst) h)
        rw [under_cons, if_neg hne, ih hnd.2 h]

theorem under_isSome (h : name ∈ l.map Prod.fst) : ∃ a, under l name = some a := by
  obtain ⟨p, hp, rfl⟩ := List.mem_map.mp h
  cases hf : l.find? fun q => q.1 = p.1 with
  | some q => exact ⟨q.2, by simp [under, hf]⟩
  | none =>
      have := List.find?_eq_none.mp hf p hp
      simp at this

theorem under_eq_none (h : name ∉ l.map Prod.fst) : under l name = none := by
  rw [under, Option.map_eq_none_iff, List.find?_eq_none]
  intro p hp
  have hne : p.1 ≠ name := by
    rintro rfl
    exact h (List.mem_map_of_mem hp)
  simpa using hne

end Under

/-- A configuration of an attribute names its parameters, in order. -/
theorem names_of_config {a : WrittenAttr Expr} {c : Choices Expr}
    (h : c ∈ a.configs) : c.map Prod.fst = a.names := by
  rw [WrittenAttr.configs, mem_product, WrittenAttr.choices,
    List.forall₂_map_right_iff] at h
  rw [WrittenAttr.names]
  generalize a.params = ws at h
  induction h with
  | nil => rfl
  | @cons p w c ws hp _ ih =>
      have hname : p.1 = w.name := by
        obtain ⟨q, -, rfl⟩ := List.mem_map.mp hp
        rfl
      rw [List.map_cons, List.map_cons, hname, ih]

/-- The right-hand side a choice becomes. -/
def Pick.bindExpr : Pick Expr → BindExpr Expr
  | .value e => .plain e
  | .someValue e => .some e
  | .omitted => .none

theorem eval_bindExpr (eval : Str → Expr → Value B) (name ty : Str) (p : Pick Expr) :
    Binding.eval eval ⟨name, ty, p.bindExpr⟩ = p.eval eval ty := by
  cases p <;> rfl

theorem makeBinding_config {c : Choices Expr} {name : Str} {p : Pick Expr} (ty : Str)
    (h : under c name = some p) :
    makeBinding (c.map Pick.item) (.typed name ty) = .ok ⟨name, ty, p.bindExpr⟩ := by
  obtain ⟨q, hfind, rfl⟩ := Option.map_eq_some_iff.mp h
  have hitem : (c.map Pick.item).find? (fun item => item.1 = name)
      = some (Pick.item q) := by
    simp only [List.find?_map, Function.comp_def, item_name, hfind, Option.map_some]
  obtain ⟨key, pick⟩ := q
  cases pick <;> simp [makeBinding, hitem, Pick.item, Pick.bindExpr]

theorem mapM_ok {ε α γ : Type} {f : α → Except ε γ} {g : α → γ} {l : List α}
    (h : ∀ a ∈ l, f a = .ok (g a)) : l.mapM f = .ok (l.map g) := by
  induction l with
  | nil => rfl
  | cons a l ih =>
      rw [List.mapM_cons, h a List.mem_cons_self,
        ih fun b hb => h b (List.mem_cons_of_mem _ hb)]
      rfl

/-- Running bindings of distinct names defines each name once. -/
theorem runBindings_map {eval : Str → Expr → Value B} {inputs : List (Str × Str)}
    (hnd : (inputs.map Prod.fst).Nodup) (bind : Str × Str → BindExpr Expr)
    (name : Str) :
    runBindings eval (inputs.map fun q => ⟨q.1, q.2, bind q⟩) name
      = (under inputs name).map fun ty => Binding.eval eval ⟨name, ty, bind (name, ty)⟩ := by
  suffices h : ∀ env : Env B,
      (inputs.map fun q => (⟨q.1, q.2, bind q⟩ : Binding Expr)).foldl
          (fun (env : Env B) b => Function.update env b.name (some (b.eval eval)))
          env name
        = ((under inputs name).map fun ty =>
            Binding.eval eval ⟨name, ty, bind (name, ty)⟩).or (env name) by
    rw [runBindings, h, Option.or_none]
  intro env
  induction inputs generalizing env with
  | nil => simp [under]
  | cons q inputs ih =>
      rw [List.map_cons, List.nodup_cons] at hnd
      rw [List.map_cons, List.foldl_cons, ih hnd.2]
      by_cases hq : q.1 = name
      · subst hq
        -- no later binding has this name
        have hnone := under_eq_none hnd.1
        simp [hnone, under_cons]
      · have hne : name ≠ q.1 := fun h => hq h.symm
        simp [under_cons, hq, hne, Function.update_of_ne]

theorem makePropsCode_cons (item : Str × Option Expr × Bool) (combo : Combo Expr) :
    makePropsCode (item :: combo)
      = if item.2.2 && item.2.1.isNone then makePropsCode combo
        else ⟨item.1, item.2.2⟩ :: makePropsCode combo := by
  obtain ⟨key, value, optional⟩ := item
  cases value with
  | none => cases optional <;> rfl
  | some e => cases optional <;> rfl

/-- The visible choices are the properties, each displayed as it is bound. -/
theorem runProps_config (display : Value B → Str) {eval : Str → Expr → Value B}
    {ty : Str → Str} {env : Env B} {c : Choices Expr}
    (h : ∀ p ∈ c, env p.1 = some (p.2.eval eval (ty p.1))) :
    (makePropsCode (c.map Pick.item)).mapM (PropCode.run display env)
      = some (c.filterMap fun p =>
          (p.2.shown eval (ty p.1)).map fun v => (p.1, display v)) := by
  induction c with
  | nil => rfl
  | cons p c ih =>
      have hp := h p List.mem_cons_self
      have ih := ih fun q hq => h q (List.mem_cons_of_mem _ hq)
      rw [List.map_cons, makePropsCode_cons, List.filterMap_cons]
      obtain ⟨key, pick⟩ := p
      cases pick with
      | omitted => exact ih
      | value e =>
          have hrun : PropCode.run display env ⟨key, false⟩
              = some (key, display (eval (ty key) e)) := by
            simp only [PropCode.run, hp, Pick.eval]
          simp only [Pick.item, Pick.shown, Bool.false_and, Bool.false_eq_true, if_false,
            List.mapM_cons, hrun, ih]
          rfl
      | someValue e =>
          have hrun : PropCode.run display env ⟨key, true⟩
              = some (key, display (eval (ty key) e)) := by
            simp only [PropCode.run, hp, Pick.eval]
          simp only [Pick.item, Pick.shown, Option.isNone_some, Bool.and_false,
            Bool.false_eq_true, if_false, List.mapM_cons, hrun, ih]
          rfl

/-! ## Names -/

section Names

variable {name text : Str}

theorem formatIdent_ok (h : '#' ∉ text) : formatIdent text = .ok text := if_neg h

theorem formatIdent_error (h : '#' ∈ text) : ∃ panic, formatIdent text = .error panic :=
  ⟨_, if_pos h⟩

theorem identFragment_of_notMem (h : '#' ∉ name) : identFragment name = name := by
  refine if_neg fun hpre => h ?_
  exact (List.isPrefixOf_iff_prefix.mp hpre).subset (by simp [lit])

theorem hash_mem_toUppercase (syn : Syn Expr) : '#' ∈ toUppercase syn name ↔ '#' ∈ name := by
  simp [toUppercase, syn.hash_uppercase]

theorem hash_notMem_decimal (i : Nat) : '#' ∉ decimal i := fun h =>
  absurd (isDigit_of_mem_decimal h) (by decide)

theorem plainEntry_ok (syn : Syn Expr) (skip : Option Str) (h : '#' ∉ name) :
    plainEntry syn name skip = .ok
      { fn_name := name, props_fn := name ++ lit "_props",
        static_name := lit "_" ++ toUppercase syn name, name, bindings := [], props := [],
        skip } := by
  have hstatic : '#' ∉ lit "_" ++ toUppercase syn name := by
    simp [lit, hash_mem_toUppercase, h]
  have hprops : '#' ∉ name ++ lit "_props" := by simp [lit, h]
  simp only [plainEntry, identFragment_of_notMem h, formatIdent_ok hstatic,
    formatIdent_ok hprops, bind, Except.bind]

theorem comboEntry_ok (syn : Syn Expr) (skip : Option Str) (params : List FnArg)
    (combo : Combo Expr) (i : Nat) (h : '#' ∉ name) :
    comboEntry syn name skip params combo i = (makeBindings params combo).map fun bindings =>
      { fn_name := name ++ lit "_" ++ decimal i
        props_fn := name ++ lit "_" ++ decimal i ++ lit "_props"
        static_name := lit "_" ++ toUppercase syn name ++ lit "_" ++ decimal i
        name
        bindings
        props := makePropsCode combo
        skip } := by
  have hdec := hash_notMem_decimal i
  have hfn : '#' ∉ name ++ lit "_" ++ decimal i := by simp [lit, h, hdec]
  have hprops : '#' ∉ name ++ lit "_" ++ decimal i ++ lit "_props" := by simp [lit, h, hdec]
  have hstatic : '#' ∉ lit "_" ++ toUppercase syn name ++ lit "_" ++ decimal i := by
    simp [lit, hash_mem_toUppercase, h, hdec]
  simp only [comboEntry, identFragment_of_notMem h, formatIdent_ok hfn, formatIdent_ok hprops,
    formatIdent_ok hstatic, bind, Except.bind]
  rfl

/-- With the mark of a raw identifier in it, the name makes no static. -/
theorem plainEntry_error (syn : Syn Expr) (skip : Option Str) (h : '#' ∈ name) :
    ∃ panic, plainEntry syn name skip = .error panic := by
  have hstatic : '#' ∈ lit "_" ++ toUppercase syn name := by
    simp [hash_mem_toUppercase, h]
  obtain ⟨panic, hpanic⟩ := formatIdent_error hstatic
  exact ⟨panic, by simp only [plainEntry, hpanic, bind, Except.bind]⟩

theorem comboEntry_error (syn : Syn Expr) (skip : Option Str) (params : List FnArg)
    (combo : Combo Expr) (i : Nat) (h : '#' ∈ name) :
    ∃ panic, comboEntry syn name skip params combo i = .error panic := by
  have hstatic : '#' ∈ lit "_" ++ toUppercase syn name ++ lit "_" ++ decimal i := by
    simp [hash_mem_toUppercase, h]
  obtain ⟨panic, hpanic⟩ := formatIdent_error hstatic
  cases hfn : formatIdent (identFragment name ++ lit "_" ++ decimal i) with
  | error e => exact ⟨e, by simp only [comboEntry, hfn, bind, Except.bind]⟩
  | ok fn_name =>
      cases hprops : formatIdent (identFragment name ++ lit "_" ++ decimal i ++ lit "_props") with
      | error e => exact ⟨e, by simp only [comboEntry, hfn, hprops, bind, Except.bind]⟩
      | ok props_fn =>
          exact ⟨panic, by simp only [comboEntry, hfn, hprops, hpanic, bind, Except.bind]⟩

end Names

/-! ## Entries -/

/-- The generated entry of a configuration. -/
def WrittenFn.configGen (syn : Syn Expr) (f : WrittenFn Expr) (skip : Option Str)
    (c : Choices Expr) (i : Nat) : GenEntry Expr where
  fn_name := f.ident ++ lit "_" ++ decimal i
  props_fn := f.ident ++ lit "_" ++ decimal i ++ lit "_props"
  static_name := lit "_" ++ toUppercase syn f.ident ++ lit "_" ++ decimal i
  name := f.ident
  bindings := f.inputs.map fun q =>
    ⟨q.1, q.2, ((under c q.1).map Pick.bindExpr).getD .none⟩
  props := makePropsCode (c.map Pick.item)
  skip := skip

theorem comboEntry_config (syn : Syn Expr) {f : WrittenFn Expr} {c : Choices Expr}
    (hraw : ¬ f.Raw) (hnames : (c.map Prod.fst).Perm f.params) (skip : Option Str) (i : Nat) :
    comboEntry syn f.ident skip f.item.inputs (c.map Pick.item) i
      = .ok (f.configGen syn skip c i) := by
  have hbind : ∀ q ∈ f.inputs, makeBinding (c.map Pick.item) (.typed q.1 q.2)
      = .ok ⟨q.1, q.2, ((under c q.1).map Pick.bindExpr).getD .none⟩ := by
    intro q hq
    have hmem : q.1 ∈ c.map Prod.fst :=
      hnames.mem_iff.mpr (List.mem_map_of_mem hq)
    obtain ⟨p, hp⟩ := under_isSome hmem
    rw [makeBinding_config q.2 hp, hp]
    rfl
  have hall : makeBindings f.item.inputs (c.map Pick.item)
      = .ok (f.configGen syn skip c i).bindings := by
    rw [makeBindings, WrittenFn.item, List.mapM_map]
    exact mapM_ok hbind
  rw [comboEntry_ok syn _ _ _ _ hraw, hall]
  rfl

theorem runBindings_configGen {f : WrittenFn Expr} {c : Choices Expr}
    (hnd : f.params.Nodup) (hnames : (c.map Prod.fst).Perm f.params)
    (syn : Syn Expr) (eval : Str → Expr → Value B) (skip : Option Str) (i : Nat) :
    runBindings eval (f.configGen syn skip c i).bindings = f.assignment eval c := by
  funext name
  rw [WrittenFn.configGen, runBindings_map hnd
    (fun q => ((under c q.1).map Pick.bindExpr).getD .none), WrittenFn.assignment]
  by_cases hname : name ∈ f.params
  · obtain ⟨ty, hty⟩ := under_isSome hname
    obtain ⟨p, hp⟩ := under_isSome (hnames.mem_iff.mpr hname)
    rw [if_pos hname, WrittenFn.ty, hty]
    simp [hp, eval_bindExpr]
  · rw [if_neg hname, under_eq_none hname]
    rfl

theorem assignment_of_mem {f : WrittenFn Expr} {c : Choices Expr}
    (hnd : f.params.Nodup) (hnames : (c.map Prod.fst).Perm f.params)
    (eval : Str → Expr → Value B) {p : Str × Pick Expr} (hp : p ∈ c) :
    f.assignment eval c p.1 = some (p.2.eval eval (f.ty p.1)) := by
  have hmem : p.1 ∈ f.params := hnames.mem_iff.mp (List.mem_map_of_mem hp)
  rw [WrittenFn.assignment, if_pos hmem,
    under_of_mem (hnames.nodup_iff.mpr hnd) hp]
  rfl

/-- Running the generated entry of a configuration gives the entry it stands
for. -/
theorem entry_configGen {f : WrittenFn Expr} {c : Choices Expr}
    (hnd : f.params.Nodup) (hnames : (c.map Prod.fst).Perm f.params) (syn : Syn Expr)
    (eval : Str → Expr → Value B) (display : Value B → Str) (body : Env B → β)
    (skip : Option Str) (i : Nat) :
    (f.configGen syn skip c i).entry eval display body
      = some (f.configEntry eval display body skip c) := by
  rw [GenEntry.entry, runBindings_configGen hnd hnames]
  have hprops := runProps_config display
    fun p hp => assignment_of_mem hnd hnames eval hp
  simp only [WrittenFn.configGen, hprops]
  rfl

theorem isPlain_iff {combos : List (Combo Expr)} : isPlain combos = true ↔ combos = [[]] := by
  unfold isPlain
  split
  · simp
  · rename_i h
    simpa using h

/-- The entries of all combinations, as the second half of `test_fn` makes them. -/
def genEntries (syn : Syn Expr) (ident : Str) (skip : Option Str) (inputs : List FnArg)
    (combos : List (Combo Expr)) : Except Panic (List (GenEntry Expr)) :=
  if isPlain combos then (plainEntry syn ident skip).bind fun entry => .ok [entry]
  else combos.zipIdx.mapM fun p => comboEntry syn ident skip inputs p.1 p.2

/-- A raw identifier has no entries, if there is anything to make one from. -/
theorem genEntries_error (syn : Syn Expr) {ident : Str} (skip : Option Str)
    (inputs : List FnArg) {combos : List (Combo Expr)} (hraw : '#' ∈ ident)
    (hne : combos ≠ []) : ∃ panic, genEntries syn ident skip inputs combos = .error panic := by
  rw [genEntries]
  split
  · obtain ⟨panic, hpanic⟩ := plainEntry_error syn skip hraw
    exact ⟨panic, by rw [hpanic]; rfl⟩
  · obtain ⟨combo, rest, rfl⟩ := List.exists_cons_of_ne_nil hne
    obtain ⟨panic, hpanic⟩ := comboEntry_error syn skip inputs combo 0 hraw
    refine ⟨panic, ?_⟩
    rw [List.zipIdx_cons, List.mapM_cons, hpanic]
    rfl

/-- What the macro makes of a stack that reads: the entries of its
configurations, with the reason of the stack. -/
theorem testFn_written (syn : Syn Expr) {first : WrittenAttr Expr}
    {attrs : List (WrittenAttr Expr ⊕ List Tok)} (ident : Str) (inputs : List FnArg)
    (hspecs : ∀ a ∈ first :: attrs.filterMap Sum.getLeft?, ∀ w ∈ a.specs, w.Ok syn)
    (hskips : ∀ a ∈ first :: attrs.filterMap Sum.getLeft?, ∀ w ∈ a.specs,
      w.name = skipName → ∃ reason, skipReason syn w.spec = .ok reason) :
    testFn syn first.tokens
        ⟨attrs.map fun
          | .inl a => .test_fn a.meta
          | .inr tokens => .other tokens, ident, inputs⟩
      = genEntries syn ident (stackReason syn none (first :: attrs.filterMap Sum.getLeft?))
          inputs
          (((first :: attrs.filterMap Sum.getLeft?).flatMap WrittenAttr.configs).map
            (List.map Pick.item)) := by
  have hfirst : first ∈ first :: attrs.filterMap Sum.getLeft? := List.mem_cons_self
  have hcollect := collectAttrs_written syn attrs
    [first.params.map WrittenSpec.spec] (lastReason syn first.specs)
    (fun a ha => hspecs a (List.mem_cons_of_mem _ ha))
    (fun a ha => hskips a (List.mem_cons_of_mem _ ha))
  have hreason : stackReason syn (lastReason syn first.specs) (attrs.filterMap Sum.getLeft?)
      = stackReason syn none (first :: attrs.filterMap Sum.getLeft?) := by
    simp only [stackReason, List.foldl_cons]
    cases lastReason syn first.specs <;> rfl
  have hcombos : ([first.params.map WrittenSpec.spec]
        ++ (attrs.filterMap Sum.getLeft?).map
          (fun a => a.params.map WrittenSpec.spec)).flatMap specCombos
      = ((first :: attrs.filterMap Sum.getLeft?).flatMap WrittenAttr.configs).map
          (List.map Pick.item) := by
    rw [← flatMap_specCombos, List.map_cons, List.singleton_append]
  have hex := extractSkip_written (hskips first hfirst)
  rw [← hcombos, ← hreason]
  simp only [testFn, parseSpecs_written (hspecs first hfirst), bind, Except.bind, hex]
  rw [WrittenAttr.params] at hcollect
  simp only [hcollect]
  rfl

/-- What the macro makes of a well-formed function. -/
theorem expand_eq {syn : Syn Expr} {f : WrittenFn Expr} (h : f.Ok syn) :
    f.expand syn = genEntries syn f.ident (f.reason syn) f.item.inputs
      ((f.stack.flatMap WrittenAttr.configs).map (List.map Pick.item)) :=
  testFn_written syn f.ident f.item.inputs h.specs h.skips

/-- The macro panics at a raw identifier, if there is a configuration. -/
theorem expand_raw {syn : Syn Expr} {f : WrittenFn Expr} (h : f.Ok syn) (hraw : f.Raw)
    (hne : f.stack.flatMap WrittenAttr.configs ≠ []) :
    ∃ panic, f.expand syn = .error panic := by
  rw [expand_eq h]
  exact genEntries_error syn _ _ hraw (by simpa using hne)

/-- Where the macro does not panic there is an entry for each configuration,
attribute by attribute. -/
theorem expand_written {syn : Syn Expr} {f : WrittenFn Expr} (h : f.Ok syn)
    (hname : f.Raw → f.stack.flatMap WrittenAttr.configs = [])
    (eval : Str → Expr → Value B) (display : Value B → Str) (body : Env B → β) :
    ∃ entries, f.expand syn = .ok entries ∧
      entries.map (GenEntry.entry eval display body)
        = (f.stack.flatMap WrittenAttr.configs).map fun c =>
            some (f.configEntry eval display body (f.reason syn) c) := by
  have hnames : ∀ c ∈ f.stack.flatMap WrittenAttr.configs,
      (c.map Prod.fst).Perm f.params := by
    intro c hc
    obtain ⟨a, ha, hc⟩ := List.mem_flatMap.mp hc
    rw [names_of_config hc]
    exact h.names a ha
  rw [expand_eq h, genEntries]
  by_cases hplain : isPlain
      ((f.stack.flatMap WrittenAttr.configs).map (List.map Pick.item)) = true
  · -- one combination, the empty one: no parameter is bound or shown
    obtain ⟨c, hc, hnil⟩ := List.map_eq_singleton_iff.mp (isPlain_iff.mp hplain)
    obtain rfl : c = [] := List.map_eq_nil_iff.mp hnil
    have hraw : '#' ∉ f.ident := fun hraw => by simp [hc] at hname; exact hname hraw
    rw [if_pos hplain, plainEntry_ok syn _ hraw]
    refine ⟨_, rfl, ?_⟩
    rw [hc]
    have henv : (runBindings eval ([] : List (Binding Expr)))
        = f.assignment eval [] := by
      funext name
      rw [WrittenFn.assignment]
      split <;> rfl
    simp only [List.map_cons, List.map_nil, GenEntry.entry, henv]
    rfl
  · rw [if_neg hplain, List.zipIdx_map, List.mapM_map]
    have hall : ∀ p ∈ (f.stack.flatMap WrittenAttr.configs).zipIdx,
        comboEntry syn f.ident (f.reason syn) f.item.inputs (p.1.map Pick.item) p.2
          = .ok (f.configGen syn (f.reason syn) p.1 p.2) := by
      intro p hp
      have hmem := List.fst_mem_of_mem_zipIdx hp
      exact comboEntry_config syn (fun hraw => List.ne_nil_of_mem hmem (hname hraw))
        (hnames p.1 hmem) _ _
    refine ⟨_, mapM_ok hall, ?_⟩
    rw [List.map_map]
    conv_rhs => rw [← List.zipIdx_map_fst 0 (f.stack.flatMap WrittenAttr.configs)]
    rw [List.map_map]
    refine List.map_congr_left fun p hp => ?_
    exact entry_configGen h.nodup (hnames p.1 (List.fst_mem_of_mem_zipIdx hp)) syn
      eval display body _ _

/-! ## Exactness -/

/-- The configuration of an entry: everything but the skip reason. -/
def TestEntry.configuration (e : TestEntry β) : Str × List (Str × Str) × β :=
  (e.name, e.props, e.test_fn)

theorem configEntry_reorder {f g : WrittenFn Expr} (hident : g.ident = f.ident)
    (hinputs : g.inputs = f.inputs) (eval : Str → Expr → Value B)
    (display : Value B → Str) (body : Env B → β) (skip skip' : Option Str)
    (c : Choices Expr) :
    (g.configEntry eval display body skip c).configuration
      = (f.configEntry eval display body skip' c).configuration := by
  have hty : g.ty = f.ty := by
    funext name
    rw [WrittenFn.ty, WrittenFn.ty, hinputs]
  have hassign : g.assignment eval c = f.assignment eval c := by
    funext name
    rw [WrittenFn.assignment, WrittenFn.assignment, WrittenFn.params, WrittenFn.params,
      hinputs, hty]
  simp only [TestEntry.configuration, WrittenFn.configEntry, WrittenFn.properties,
    hident, hassign, hty]

/-- A reordering of a well-formed stack is well formed. -/
theorem WrittenFn.Ok.reorder {syn : Syn Expr} {f g : WrittenFn Expr} (h : f.Ok syn)
    (hstack : g.stack.Perm f.stack) (hinputs : g.inputs = f.inputs) : g.Ok syn where
  specs a ha := h.specs a (hstack.mem_iff.mp ha)
  skips a ha := h.skips a (hstack.mem_iff.mp ha)
  names a ha := by
    rw [WrittenFn.params, hinputs]
    exact h.names a (hstack.mem_iff.mp ha)
  nodup := by
    rw [WrittenFn.params, hinputs]
    exact h.nodup

theorem flatMap_configs (f : WrittenFn Expr) :
    f.stack.flatMap WrittenAttr.configs
      = (unionPositions f.choices).map (unionItemsAt f.choices) := by
  rw [← flatMap_product_eq, WrittenFn.choices, List.flatMap_map]
  rfl

/-- What stands at a position of the table is a configuration of its attribute. -/
theorem config_of_position {f : WrittenFn Expr} {t : Nat × List Nat}
    (ht : t ∈ unionPositions f.choices) :
    ∃ a, f.stack[t.1]? = some a ∧ unionItemsAt f.choices t ∈ a.configs := by
  obtain ⟨Ls, hLs, his⟩ := mem_unionPositions.mp ht
  rw [WrittenFn.choices, List.getElem?_map] at hLs
  obtain ⟨a, ha, rfl⟩ := Option.map_eq_some_iff.mp hLs
  refine ⟨a, ha, ?_⟩
  rw [WrittenAttr.configs, product_eq]
  refine List.mem_map.mpr ⟨t.2, mem_positions.mpr his, ?_⟩
  rw [unionItemsAt, WrittenFn.choices, List.getElem?_map, ha]
  rfl

theorem mem_unionPositions_choices {f : WrittenFn Expr} {t : Nat × List Nat} :
    t ∈ unionPositions f.choices ↔
      ∃ a, f.stack[t.1]? = some a ∧
        List.Forall₂ (fun i w => i < w.form.picks.length) t.2 a.params := by
  rw [mem_unionPositions, WrittenFn.choices, List.getElem?_map]
  constructor
  · rintro ⟨Ls, hLs, his⟩
    obtain ⟨a, ha, rfl⟩ := Option.map_eq_some_iff.mp hLs
    rw [WrittenAttr.choices, List.forall₂_map_right_iff] at his
    exact ⟨a, ha, by simpa [WrittenSpec.choices] using his⟩
  · rintro ⟨a, ha, his⟩
    refine ⟨a.choices, by rw [ha]; rfl, ?_⟩
    rw [WrittenAttr.choices, List.forall₂_map_right_iff]
    simpa [WrittenSpec.choices] using his

/-- **Attribute expansion is exact**: a well-formed function expands to one
entry for each attribute and each way to pick a choice for each of its
parameters (`positions`, listed once each); the body of the entry runs with
every parameter bound to its pick and nothing else in scope, and the properties
are the picks that are not an omitted option, in attribute order, displayed as
they are bound. Reordering the stack keeps the multiset of configurations. A
function with a raw identifier for a name panics in the macro as soon as there
is a position: no static can be named after it. -/
theorem expand_exact (syn : Syn Expr) (eval : Str → Expr → Value B)
    (display : Value B → Str) (body : Env B → β) (f : WrittenFn Expr) (h : f.Ok syn) :
    let positions := unionPositions f.choices
    let config := unionItemsAt f.choices
    -- the positions: each once, every choice of every attribute at one of them
    positions.Nodup ∧
    (∀ t, t ∈ positions ↔ ∃ a, f.stack[t.1]? = some a ∧
      List.Forall₂ (fun i w => i < w.form.picks.length) t.2 a.params) ∧
    -- the picks of a position are those of its attribute, and are what is bound
    (∀ t ∈ positions, ∃ a, f.stack[t.1]? = some a ∧
      List.Forall₂ (fun item w => item.1 = w.name ∧ item.2 ∈ w.form.picks)
        (config t) a.params ∧
      (∀ item ∈ config t, f.assignment eval (config t) item.1
        = some (item.2.eval eval (f.ty item.1))) ∧
      (∀ name, name ∉ a.names → f.assignment eval (config t) name = none)) ∧
    -- a raw name, with something to register
    (f.Raw → positions ≠ [] → ∃ panic, f.expand syn = .error panic) ∧
    (¬ f.Raw ∨ positions = [] → ∃ entries, f.expand syn = .ok entries ∧
      -- one entry at each position
      entries.map (GenEntry.entry eval display body)
        = positions.map (fun t => some
            { name := f.ident
              props := f.properties eval display (config t)
              test_fn := body (f.assignment eval (config t))
              skip := f.reason syn }) ∧
      -- the order of the stack
      (∀ g : WrittenFn Expr, g.stack.Perm f.stack → g.ident = f.ident →
        g.inputs = f.inputs →
        ∃ entries', g.expand syn = .ok entries' ∧
          ((entries'.map fun e => (e.entry eval display body).map
              TestEntry.configuration).Perm
            (entries.map fun e => (e.entry eval display body).map
              TestEntry.configuration)))) := by
  intro positions config
  have hempty : positions = [] ↔ f.stack.flatMap WrittenAttr.configs = [] := by
    rw [flatMap_configs, List.map_eq_nil_iff]
  refine ⟨nodup_unionPositions _, fun t => mem_unionPositions_choices, ?_,
    fun hraw hne => expand_raw h hraw (mt hempty.mpr hne), fun hname => ?_⟩
  · intro t ht
    obtain ⟨a, ha, hc⟩ := config_of_position ht
    have hnames : ((config t).map Prod.fst).Perm f.params := by
      rw [names_of_config hc]
      exact h.names a (List.mem_of_getElem? ha)
    refine ⟨a, ha, ?_, fun item hitem => assignment_of_mem h.nodup hnames eval hitem, ?_⟩
    · rw [WrittenAttr.configs, mem_product, WrittenAttr.choices,
        List.forall₂_map_right_iff] at hc
      refine hc.imp ?_
      intro item w hitem
      obtain ⟨p, hp, rfl⟩ := List.mem_map.mp hitem
      exact ⟨rfl, hp⟩
    · intro name hname
      have hnot : name ∉ f.params := by
        rw [← (h.names a (List.mem_of_getElem? ha)).mem_iff]
        exact hname
      rw [WrittenFn.assignment, if_neg hnot]
  have hnone : f.Raw → f.stack.flatMap WrittenAttr.configs = [] :=
    fun hraw => hempty.mp (hname.resolve_left (not_not_intro hraw))
  obtain ⟨entries, hexpand, hentries⟩ := expand_written h hnone eval display body
  have hconfigs : ∀ {g : WrittenFn Expr} {es : List (GenEntry Expr)} {skip : Option Str},
      g.ident = f.ident → g.inputs = f.inputs →
      es.map (GenEntry.entry eval display body)
        = (g.stack.flatMap WrittenAttr.configs).map (fun c =>
            some (g.configEntry eval display body skip c)) →
      (es.map fun e => (e.entry eval display body).map TestEntry.configuration)
        = (g.stack.flatMap WrittenAttr.configs).map fun c =>
            some (f.configEntry eval display body none c).configuration := by
    intro g es skip hident hinputs hes
    have hmap := congrArg (List.map (Option.map TestEntry.configuration)) hes
    rw [List.map_map, List.map_map] at hmap
    refine hmap.trans (List.map_congr_left fun c _ => ?_)
    exact congrArg some (configEntry_reorder hident hinputs eval display body _ _ c)
  refine ⟨entries, hexpand, ?_, ?_⟩
  · rw [hentries, flatMap_configs, List.map_map]
    rfl
  · intro g hstack hident hinputs
    have hnone' : g.Raw → g.stack.flatMap WrittenAttr.configs = [] := by
      intro hraw
      have hperm := hstack.flatMap_right WrittenAttr.configs
      rw [WrittenFn.Raw, hident] at hraw
      rw [hnone hraw] at hperm
      exact hperm.eq_nil
    obtain ⟨entries', hexpand', hentries'⟩ :=
      expand_written (h.reorder hstack hinputs) hnone' eval display body
    refine ⟨entries', hexpand', ?_⟩
    rw [hconfigs hident hinputs hentries', hconfigs rfl rfl hentries]
    exact (hstack.flatMap_right _).map _

theorem toUpper_eq_hash {c : Char} : c.toUpper = '#' ↔ c = '#' := by
  unfold Char.toUpper
  split
  · rename_i h
    have hle : 97 ≤ c.val.toNat := h.1
    have hle' : c.val.toNat ≤ 122 := h.2
    constructor
    · intro he
      have hval := congrArg UInt32.toNat (Char.ext_iff.mp he)
      rw [UInt32.toNat_add, UInt32.toNat_sub] at hval
      simp only [Char.reduceVal, UInt32.reduceToNat] at hval
      omega
    · rintro rfl
      simp at hle
  · rfl

/-- The expressions that are one literal; identifiers are ASCII. -/
def literalSyn : Syn Str where
  parseExpr
    | .literal text :: rest => some (text, rest)
    | _ => none
  strLit e := some e
  keyword _ := false
  uppercase c := [c.toUpper]
  hash_uppercase c := by
    rw [List.mem_singleton, eq_comm, toUpper_eq_hash]

def literal (text : Str) : Written Str := ⟨[.literal text], text⟩

/-- Specs whose values are literals are well formed. -/
theorem ok_of_literals {w : WrittenSpec Str}
    (h : ∀ v ∈ w.form.written, ∃ text, v = literal text) : w.Ok literalSyn where
  name := rfl
  reads v hv := by
    obtain ⟨text, rfl⟩ := h v hv
    exact fun _ _ => rfl
  nonempty v hv := by
    obtain ⟨text, rfl⟩ := h v hv
    exact List.cons_ne_nil _ _
  single v hv := by
    obtain ⟨text, rfl⟩ := h v (by simp [hv, ValueForm.written])
    rfl

/-- A function whose specs are named after its parameters and list literals is
well formed. -/
theorem WrittenFn.ok_of_literals {f : WrittenFn Str}
    (hspecs : ∀ a ∈ f.stack, ∀ w ∈ a.specs, ∀ v ∈ w.form.written,
      ∃ text, v = literal text)
    (hnames : ∀ a ∈ f.stack, (a.specs.map WrittenSpec.name).Perm f.params)
    (hnd : f.params.Nodup) (hskip : skipName ∉ f.params) : f.Ok literalSyn where
  specs a ha w hw := QemuTest.ok_of_literals (hspecs a ha w hw)
  skips a ha w hw hname := by
    have hmem : w.name ∈ f.params :=
      (hnames a ha).mem_iff.mp (List.mem_map_of_mem hw)
    exact absurd (hname ▸ hmem) hskip
  names a ha := by
    have hall : a.params = a.specs := by
      refine List.filter_eq_self.mpr fun w hw => ?_
      have hmem : w.name ∈ f.params :=
        (hnames a ha).mem_iff.mp (List.mem_map_of_mem hw)
      have hne : w.name ≠ skipName := fun he => hskip (he ▸ hmem)
      simpa using hne
    rw [WrittenAttr.names, hall]
    exact hnames a ha
  nodup := hnd

/-- `#[test_fn(smp = {1, 2}, cpu = [7])] fn t(smp: u8, cpu: Option<u8>)`. -/
def twoByTwo : WrittenFn Str where
  first := .args [⟨['s'], .multi [literal ['1'], literal ['2']] false⟩,
    ⟨['c'], .optional [literal ['7']] true⟩] false
  attrs := []
  ident := ['t']
  inputs := [(['s'], ['u']), (['c'], ['o'])]

theorem ok_twoByTwo : twoByTwo.Ok literalSyn := by
  refine WrittenFn.ok_of_literals ?_ ?_ (by decide) ?_
  · simp [twoByTwo, WrittenFn.stack, WrittenAttr.specs, ValueForm.written]
  · simp [twoByTwo, WrittenFn.stack, WrittenAttr.specs, WrittenFn.params]
  · simp [twoByTwo, WrittenFn.params, skipName, lit]

/-- Two parameters of two values each give four entries. -/
theorem expand_exact_twoByTwo :
    ∃ entries, twoByTwo.expand literalSyn = .ok entries ∧ entries.length = 4 := by
  obtain ⟨-, -, -, -, hexpands⟩ := expand_exact literalSyn
    (fun _ e => Value.base e) (fun _ => []) (fun _ => ()) twoByTwo ok_twoByTwo
  obtain ⟨entries, hexpand, hentries, -⟩ :=
    hexpands (.inl (by simp [WrittenFn.Raw, twoByTwo]))
  refine ⟨entries, hexpand, ?_⟩
  have hlen := congrArg List.length hentries
  have hpositions : (unionPositions twoByTwo.choices).length = 4 := by
    decide +kernel
  rwa [List.length_map, List.length_map, hpositions] at hlen

/-- `#[test_fn(smp = 1)] fn r#match(smp: u8)`. -/
def rawMatch : WrittenFn Str where
  first := .args [⟨['s'], .single (literal ['1'])⟩] false
  attrs := []
  ident := lit "r#match"
  inputs := [(['s'], ['u'])]

theorem ok_rawMatch : rawMatch.Ok literalSyn := by
  refine WrittenFn.ok_of_literals ?_ ?_ (by decide) ?_
  · simp [rawMatch, WrittenFn.stack, WrittenAttr.specs, ValueForm.written]
  · simp [rawMatch, WrittenFn.stack, WrittenAttr.specs, WrittenFn.params]
  · simp [rawMatch, WrittenFn.params, skipName, lit]

/-- The one configuration of `rawMatch` is not registered: the macro panics at `_R#MATCH_0`,
which is to name the static. -/
theorem expand_not_exact :
    rawMatch.Ok literalSyn ∧ (unionPositions rawMatch.choices).length = 1 ∧
      ∀ entries, rawMatch.expand literalSyn ≠ .ok entries := by
  have hone : (unionPositions rawMatch.choices).length = 1 := by decide +kernel
  refine ⟨ok_rawMatch, hone, fun entries hexpand => ?_⟩
  have hne : rawMatch.stack.flatMap WrittenAttr.configs ≠ [] := by
    intro hnil
    rw [flatMap_configs, List.map_eq_nil_iff] at hnil
    simp [hnil] at hone
  have hraw : rawMatch.Raw := by simp [WrittenFn.Raw, rawMatch, lit]
  obtain ⟨panic, hpanic⟩ := expand_raw ok_rawMatch hraw hne
  rw [hpanic] at hexpand
  cases hexpand

end QemuTest
