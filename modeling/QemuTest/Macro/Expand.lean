import Mathlib.Logic.Function.Basic
import QemuTest.Macro.Parse
import QemuTest.Main.Select

/-!
# Macro — Expand

The generating half of `test_fn`: the product of the specs of each attribute,
their concatenation over the stack, the bindings and the properties of each
combination, and the functions and entries made from them. The entry is a static
whose name holds that of the function in upper case; a raw identifier does not
make one, and `format_ident!` panics.

The generated code is given its meaning by `runBindings` and `GenEntry.entry`:
the bindings are run in order, the body and the properties read the variables
they bind. Evaluating an expression and displaying a value are parameters.
-/

namespace QemuTest

open Text

variable {Expr : Type}

/-! ## Combinations -/

/-- A combination: for each parameter its value, and whether it is optional. -/
abbrev Combo (Expr : Type) := List (Str × Option Expr × Bool)

/-- What one spec adds to a combination: the `None` variant of an optional
one, then each value. -/
def comboItems (spec : ParamSpec Expr) : Combo Expr :=
  (if spec.optional then [(spec.name, none, true)] else [])
    ++ spec.values.map fun value => (spec.name, some value, spec.optional)

def cartesianProduct (specs : List (ParamSpec Expr)) : List (Combo Expr) :=
  specs.foldl
    (fun result spec => result.flatMap fun combo =>
      (comboItems spec).map fun item => combo ++ [item])
    [[]]

/-- The combinations of one attribute. -/
def specCombos (specs : List (ParamSpec Expr)) : List (Combo Expr) :=
  if specs.isEmpty then [[]] else cartesianProduct specs

/-! ## Generated code -/

inductive FnArg where
  | typed (name ty : Str)
  | receiver
  | pattern

/-- The right-hand side of a generated `let`. -/
inductive BindExpr (Expr : Type) where
  | plain (e : Expr)
  | some (e : Expr)
  | none

structure Binding (Expr : Type) where
  name : Str
  ty : Str
  value : BindExpr Expr

def makeBinding (combo : Combo Expr) : FnArg → Except Panic (Binding Expr)
  | .receiver => .error (lit "test_fn does not support self parameters")
  | .pattern => .error (lit "test_fn requires simple parameter names")
  | .typed param_name ty =>
      match combo.find? fun item => item.1 = param_name with
      | none =>
          .error (lit "missing attribute value for parameter `" ++ param_name ++ lit "`")
      | some (_, value, optional) =>
          if optional then
            match value with
            | some expr => .ok ⟨param_name, ty, .some expr⟩
            | none => .ok ⟨param_name, ty, .none⟩
          else
            match value with
            | some expr => .ok ⟨param_name, ty, .plain expr⟩
            | none => .error (lit "called `Option::unwrap()` on a `None` value")

def makeBindings (params : List FnArg) (combo : Combo Expr) :
    Except Panic (List (Binding Expr)) :=
  params.mapM (makeBinding combo)

/-- One element of the generated `vec!`: the key, and whether the variable is
unwrapped before it is displayed. -/
structure PropCode where
  key : Str
  unwrap : Bool

def makePropsCode (combo : Combo Expr) : List PropCode :=
  (combo.filter fun item => !(item.2.2 && item.2.1.isNone)).map
    fun item => ⟨item.1, item.2.2⟩

/-- One generated test: its functions, its static, and the entry that is. -/
structure GenEntry (Expr : Type) where
  fn_name : Str
  props_fn : Str
  static_name : Str
  name : Str
  bindings : List (Binding Expr)
  props : List PropCode
  skip : Option Str

/-! ## The macro -/

inductive Attribute where
  | test_fn (args : Meta)
  | other (tokens : List Tok)

structure ItemFn where
  attrs : List Attribute
  ident : Str
  inputs : List FnArg

/-- The loop over the attributes left on the item. -/
def collectAttrs (syn : Syn Expr) (all_spec_sets : List (List (ParamSpec Expr)))
    (skip : Option Str) :
    List Attribute → Except Panic (List (List (ParamSpec Expr)) × Option Str)
  | [] => .ok (all_spec_sets, skip)
  | .other _ :: attrs => collectAttrs syn all_spec_sets skip attrs
  | .test_fn args :: attrs => do
      let parsed ← parseSpecsFromAttr syn args
      let (specs, sr) ← extractSkip syn parsed
      collectAttrs syn (all_spec_sets ++ [specs]) (if sr.isSome then sr else skip) attrs

/-- `format_ident!`, of a text made from that of an identifier: it is one but
for the `#` that a raw identifier has in its mark. -/
def formatIdent (text : Str) : Except Panic Str :=
  if '#' ∈ text then .error (lit "`\"" ++ text ++ lit "\"` is not a valid identifier")
  else .ok text

/-- An identifier as `format_ident!` takes it in: without the mark of a raw one. -/
def identFragment (name : Str) : Str :=
  if (lit "r#").isPrefixOf name then name.drop 2 else name

/-- `String::to_uppercase`. -/
def toUppercase (syn : Syn Expr) (s : Str) : Str := s.flatMap syn.uppercase

/-- The entry of a function without parameters. -/
def plainEntry (syn : Syn Expr) (name : Str) (skip : Option Str) :
    Except Panic (GenEntry Expr) := do
  let static_name ← formatIdent (lit "_" ++ toUppercase syn name)
  let props_fn ← formatIdent (identFragment name ++ lit "_props")
  .ok {
    fn_name := name
    props_fn
    static_name
    name
    bindings := []
    props := []
    skip }

/-- The entry of the combination numbered `i`. -/
def comboEntry (syn : Syn Expr) (name : Str) (skip : Option Str) (params : List FnArg)
    (combo : Combo Expr) (i : Nat) : Except Panic (GenEntry Expr) := do
  let fn_name ← formatIdent (identFragment name ++ lit "_" ++ decimal i)
  let props_fn ← formatIdent (identFragment name ++ lit "_" ++ decimal i ++ lit "_props")
  let static_name ← formatIdent (lit "_" ++ toUppercase syn name ++ lit "_" ++ decimal i)
  let bindings ← makeBindings params combo
  .ok {
    fn_name
    props_fn
    static_name
    name
    bindings
    props := makePropsCode combo
    skip }

/-- Is there exactly one combination, and is it empty? -/
def isPlain : List (Combo Expr) → Bool
  | [[]] => true
  | _ => false

def testFn (syn : Syn Expr) (attr : List Tok) (input : ItemFn) :
    Except Panic (List (GenEntry Expr)) := do
  let parsed ← parseSpecs syn attr
  let (own_specs, skip_reason) ← extractSkip syn parsed
  let (all_spec_sets, skip) ← collectAttrs syn [own_specs] skip_reason input.attrs
  let all_combos := all_spec_sets.flatMap specCombos
  if isPlain all_combos then
    let entry ← plainEntry syn input.ident skip
    .ok [entry]
  else
    all_combos.zipIdx.mapM fun p => comboEntry syn input.ident skip input.inputs p.1 p.2

/-! ## Running the generated code -/

/-- Values of the parameters: those of the expressions, and options. -/
inductive Value (B : Type) where
  | base (b : B)
  | some (v : Value B)
  | none
  deriving DecidableEq

/-- The variables in scope. -/
abbrev Env (B : Type) := Str → Option (Value B)

variable {B β : Type}

/-- The value of a binding; `eval` gives the value of a pure expression at the
declared type of the parameter. -/
def Binding.eval (eval : Str → Expr → Value B) (b : Binding Expr) : Value B :=
  match b.value with
  | .plain e => eval b.ty e
  | .some e => .some (eval b.ty e)
  | .none => .none

def runBindings (eval : Str → Expr → Value B) (bindings : List (Binding Expr)) :
    Env B :=
  bindings.foldl (fun env b => Function.update env b.name (some (b.eval eval)))
    fun _ => none

/-- A property: `unwrap` panics on `None`, and an unbound name does not compile. -/
def PropCode.run (display : Value B → Str) (env : Env B) (p : PropCode) :
    Option (Str × Str) :=
  match p.unwrap, env p.key with
  | true, some (.some v) => some (p.key, display v)
  | false, some v => some (p.key, display v)
  | _, _ => none

/-- The registered entry: the body runs in the scope of the bindings. -/
def GenEntry.entry (eval : Str → Expr → Value B) (display : Value B → Str)
    (body : Env B → β) (g : GenEntry Expr) : Option (TestEntry β) :=
  let env := runBindings eval g.bindings
  (g.props.mapM (PropCode.run display env)).map fun props =>
    { name := g.name, props, test_fn := body env, skip := g.skip }

end QemuTest
