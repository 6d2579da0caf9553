import QemuTest.Macro.Exact
import QemuTest.Main.Label
import QemuTest.Main.Run

/-!
# Macro — Distinct

When two registered entries of a function are the same configuration: never
within one attribute, and across the stack exactly where attributes overlap,
which the macro keeps since it concatenates their products.
-/

namespace QemuTest

open Text Product

variable {Expr B β : Type}

/-- The entries a function registers. -/
def WrittenFn.registered (syn : Syn Expr) (eval : Str → Expr → Value B)
    (display : Value B → Str) (body : Env B → β) (f : WrittenFn Expr) :
    Option (List (TestEntry β)) :=
  match f.expand syn with
  | .ok entries => entries.mapM (GenEntry.entry eval display body)
  | .error _ => none

/-- A scope as a parameter assignment: the values in the order of the
parameters. -/
def WrittenFn.values (f : WrittenFn Expr) (env : Env B) : List (Option (Value B)) :=
  f.params.map env

/-- The assignments of an attribute. -/
def WrittenFn.assignments (eval : Str → Expr → Value B) (f : WrittenFn Expr)
    (a : WrittenAttr Expr) : List (List (Option (Value B))) :=
  a.configs.map fun c => f.values (f.assignment eval c)

/-- The values an attribute lists for a parameter, `None` among them when it is
optional. -/
def WrittenFn.valuesOf (eval : Str → Expr → Value B) (f : WrittenFn Expr)
    (a : WrittenAttr Expr) (name : Str) : List (Value B) :=
  (a.params.filter fun w => w.name = name).flatMap fun w =>
    w.form.picks.map (Pick.eval eval (f.ty name))

/-- Within one attribute, the values of a parameter are pairwise distinct. -/
def WrittenFn.DistinctValues (eval : Str → Expr → Value B) (f : WrittenFn Expr) : Prop :=
  ∀ a ∈ f.stack, ∀ w ∈ a.params,
    (w.form.written.map fun v => eval (f.ty w.name) v.expr).Nodup

/-- Every parameter has a value that both attributes list. -/
def WrittenFn.Overlap (eval : Str → Expr → Value B) (f : WrittenFn Expr)
    (a b : WrittenAttr Expr) : Prop :=
  ∀ name ∈ f.params, ∃ v, v ∈ f.valuesOf eval a name ∧ v ∈ f.valuesOf eval b name

theorem mapM_of_map_eq {α γ δ : Type} {g : α → Option γ} {l : List α} {l' : List δ}
    {k : δ → γ} (h : l.map g = l'.map fun x => some (k x)) : l.mapM g = some (l'.map k) := by
  induction l generalizing l' with
  | nil =>
      obtain rfl : l' = [] := by simpa using h.symm
      rfl
  | cons x l ih =>
      cases l' with
      | nil => simp at h
      | cons y l' =>
          simp only [List.map_cons, List.cons.injEq] at h
          rw [List.mapM_cons, h.1, ih h.2]
          rfl

theorem registered_eq {syn : Syn Expr} {f : WrittenFn Expr} (h : f.Ok syn)
    (hname : f.Raw → f.stack.flatMap WrittenAttr.configs = [])
    (eval : Str → Expr → Value B) (display : Value B → Str) (body : Env B → β) :
    f.registered syn eval display body
      = some ((f.stack.flatMap WrittenAttr.configs).map
          (f.configEntry eval display body (f.reason syn))) := by
  obtain ⟨entries, hexpand, hentries⟩ := expand_written h hname eval display body
  rw [WrittenFn.registered, hexpand]
  exact mapM_of_map_eq hentries

/-- A function registers nothing iff its name is raw and it has a configuration. -/
theorem registered_eq_none {syn : Syn Expr} {f : WrittenFn Expr} (h : f.Ok syn)
    (eval : Str → Expr → Value B) (display : Value B → Str) (body : Env B → β) :
    f.registered syn eval display body = none ↔
      f.Raw ∧ f.stack.flatMap WrittenAttr.configs ≠ [] := by
  constructor
  · intro hnone
    by_contra hname
    rw [registered_eq h (by simpa using hname)] at hnone
    cases hnone
  · rintro ⟨hraw, hne⟩
    obtain ⟨panic, hpanic⟩ := expand_raw h hraw hne
    rw [WrittenFn.registered, hpanic]

/-! ## Within one attribute -/

/-- A configuration with its choices evaluated. -/
def WrittenFn.valued (eval : Str → Expr → Value B) (f : WrittenFn Expr)
    (p : Str × Pick Expr) : Str × Value B :=
  (p.1, p.2.eval eval (f.ty p.1))

/-- Distinct values make distinct choices: an option omitted is none of them. -/
theorem nodup_picks {eval : Str → Expr → Value B} {ty : Str} {form : ValueForm Expr}
    (h : (form.written.map fun v => eval ty v.expr).Nodup) :
    (form.picks.map (Pick.eval eval ty)).Nodup := by
  cases form with
  | single v => simp [ValueForm.picks]
  | multi vs trailing =>
      simpa [ValueForm.picks, ValueForm.written, Function.comp_def, Pick.eval] using h
  | optional vs trailing =>
      rw [ValueForm.picks, List.map_cons, List.nodup_cons, List.map_map]
      refine ⟨by simp [Pick.eval], ?_⟩
      have hsome : Function.Injective (Value.some : Value B → Value B) :=
        fun a b hab => Value.some.inj hab
      have := h.map hsome
      simpa [ValueForm.written, Function.comp_def, Pick.eval] using this

/-- An assignment determines the evaluated configuration of an attribute. -/
theorem valued_of_values {f : WrittenFn Expr} {a : WrittenAttr Expr}
    {eval : Str → Expr → Value B} (hnd : f.params.Nodup) (hnames : a.names.Perm f.params)
    {c c' : Choices Expr} (hc : c ∈ a.configs) (hc' : c' ∈ a.configs)
    (h : f.values (f.assignment eval c) = f.values (f.assignment eval c')) :
    c.map (f.valued eval) = c'.map (f.valued eval) := by
  have hfst := names_of_config hc
  have hfst' := names_of_config hc'
  have hperm : (c.map Prod.fst).Perm f.params := hfst ▸ hnames
  have hperm' : (c'.map Prod.fst).Perm f.params := hfst' ▸ hnames
  have hval : ∀ {d : Choices Expr}, (d.map Prod.fst).Perm f.params →
      d.map (f.valued eval)
        = (d.map Prod.fst).map fun name =>
            (name, (f.assignment eval d name).getD .none) := by
    intro d hd
    rw [List.map_map]
    refine List.map_congr_left fun p hp => ?_
    simp [WrittenFn.valued, assignment_of_mem hnd hd eval hp]
  rw [hval hperm, hval hperm', hfst, hfst']
  refine List.map_congr_left fun name hname => ?_
  have hmem : name ∈ f.params := hnames.mem_iff.mp hname
  rw [List.map_inj_left.mp h name hmem]

/-- Within one attribute no assignment is there twice. -/
theorem nodup_assignments {syn : Syn Expr} {f : WrittenFn Expr} (h : f.Ok syn)
    {eval : Str → Expr → Value B} (hvals : f.DistinctValues eval) {a : WrittenAttr Expr}
    (ha : a ∈ f.stack) : (f.assignments eval a).Nodup := by
  have hvalued : (a.configs.map (List.map (f.valued eval))).Nodup := by
    rw [WrittenAttr.configs, ← product_map]
    refine nodup_product fun L hL => ?_
    rw [WrittenAttr.choices, List.map_map] at hL
    obtain ⟨w, hw, rfl⟩ := List.mem_map.mp hL
    have hpicks := nodup_picks (hvals a ha w hw)
    have hpair : Function.Injective fun v : Value B => (w.name, v) :=
      fun _ _ hab => (Prod.mk.inj hab).2
    have := hpicks.map hpair
    simpa [WrittenSpec.choices, WrittenFn.valued, Function.comp_def] using this
  have hinj := List.inj_on_of_nodup_map hvalued
  refine (List.Nodup.of_map _ hvalued).map_on ?_
  intro c hc c' hc' heq
  exact hinj hc hc' (valued_of_values h.nodup (h.names a ha) hc hc' heq)

/-! ## Across attributes -/

instance : Nonempty (Pick Expr) := ⟨.omitted⟩

instance : Nonempty (Value B) := ⟨.none⟩

/-- A choice of one listed value for each parameter is an assignment. -/
theorem values_mem_assignments {syn : Syn Expr} {f : WrittenFn Expr} (h : f.Ok syn)
    {eval : Str → Expr → Value B} {a : WrittenAttr Expr} (ha : a ∈ f.stack)
    {v : Str → Value B} (hv : ∀ name ∈ f.params, v name ∈ f.valuesOf eval a name) :
    (f.params.map fun name => some (v name)) ∈ f.assignments eval a := by
  have hpick : ∀ w ∈ a.params, ∃ p ∈ w.form.picks,
      p.eval eval (f.ty w.name) = v w.name := by
    intro w hw
    have hmem : w.name ∈ f.params :=
      (h.names a ha).mem_iff.mp (List.mem_map_of_mem hw)
    have hnd : (a.params.map WrittenSpec.name).Nodup :=
      (h.names a ha).nodup_iff.mpr h.nodup
    have hval := hv w.name hmem
    simp only [WrittenFn.valuesOf, List.mem_flatMap, List.mem_filter,
      decide_eq_true_eq, List.mem_map] at hval
    obtain ⟨w', ⟨hw', hname⟩, p, hp, heq⟩ := hval
    obtain rfl : w' = w := List.inj_on_of_nodup_map hnd hw' hw hname
    exact ⟨p, hp, heq⟩
  choose! pick hpick using hpick
  let c : Choices Expr := a.params.map fun w => (w.name, pick w)
  have hc : c ∈ a.configs := by
    rw [WrittenAttr.configs, mem_product, WrittenAttr.choices,
      List.forall₂_map_right_iff, List.forall₂_map_left_iff, List.forall₂_same]
    exact fun w hw => List.mem_map_of_mem (hpick w hw).1
  refine List.mem_map.mpr ⟨c, hc, ?_⟩
  have hnames : (c.map Prod.fst).Perm f.params := by
    rw [names_of_config hc]
    exact h.names a ha
  refine List.map_congr_left fun name hname => ?_
  have hmem : name ∈ a.names := (h.names a ha).mem_iff.mpr hname
  obtain ⟨w, hw, rfl⟩ := List.mem_map.mp hmem
  rw [assignment_of_mem h.nodup hnames eval (List.mem_map_of_mem hw)]
  exact congrArg some (hpick w hw).2

/-- What stands in a configuration is a choice of one of the specs. -/
theorem pick_of_mem {a : WrittenAttr Expr} {c : Choices Expr} (hc : c ∈ a.configs)
    {p : Str × Pick Expr} (hp : p ∈ c) :
    ∃ w ∈ a.params, p.1 = w.name ∧ p.2 ∈ w.form.picks := by
  rw [WrittenAttr.configs, mem_product, WrittenAttr.choices,
    List.forall₂_map_right_iff] at hc
  generalize a.params = ws at hc
  induction hc with
  | nil => simp at hp
  | @cons q w c ws hq _ ih =>
      rcases List.mem_cons.mp hp with rfl | hp
      · obtain ⟨pick, hpick, rfl⟩ := List.mem_map.mp hq
        exact ⟨w, List.mem_cons_self, rfl, hpick⟩
      · obtain ⟨w', hw', hpw⟩ := ih hp
        exact ⟨w', List.mem_cons_of_mem _ hw', hpw⟩

/-- An assignment of an attribute takes a listed value for each parameter. -/
theorem valuesOf_of_assignment {syn : Syn Expr} {f : WrittenFn Expr} (h : f.Ok syn)
    {eval : Str → Expr → Value B} {a : WrittenAttr Expr} (ha : a ∈ f.stack)
    {c : Choices Expr} (hc : c ∈ a.configs) {name : Str} (hname : name ∈ f.params) :
    ∃ v ∈ f.valuesOf eval a name, f.assignment eval c name = some v := by
  have hnames : (c.map Prod.fst).Perm f.params := by
    rw [names_of_config hc]
    exact h.names a ha
  obtain ⟨p, hp, rfl⟩ := List.mem_map.mp (hnames.mem_iff.mpr hname)
  refine ⟨_, ?_, assignment_of_mem h.nodup hnames eval hp⟩
  obtain ⟨w, hw, hpw, hpick⟩ := pick_of_mem hc hp
  rw [hpw]
  simp only [WrittenFn.valuesOf, List.mem_flatMap, List.mem_filter, decide_eq_true_eq]
  exact ⟨w, ⟨hw, rfl⟩, List.mem_map_of_mem hpick⟩

/-- Two attributes share an assignment iff they overlap. -/
theorem shared_iff_overlap {syn : Syn Expr} {f : WrittenFn Expr} (h : f.Ok syn)
    {eval : Str → Expr → Value B} {a b : WrittenAttr Expr} (ha : a ∈ f.stack)
    (hb : b ∈ f.stack) :
    ¬ (f.assignments eval a).Disjoint (f.assignments eval b) ↔ f.Overlap eval a b := by
  constructor
  · intro hshared
    simp only [List.Disjoint, not_forall, not_false_eq_true, exists_prop] at hshared
    obtain ⟨vs, hvs, hvs', -⟩ := hshared
    intro name hname
    obtain ⟨c, hc, rfl⟩ := List.mem_map.mp hvs
    obtain ⟨c', hc', heq⟩ := List.mem_map.mp hvs'
    obtain ⟨v, hv, hcv⟩ := valuesOf_of_assignment h ha hc hname
    obtain ⟨v', hv', hcv'⟩ := valuesOf_of_assignment h hb hc' hname
    have hsame := List.map_inj_left.mp heq name hname
    rw [hcv, hcv'] at hsame
    cases hsame
    exact ⟨v, hv, hv'⟩
  · intro hover hdisj
    choose! v hva hvb using hover
    exact hdisj (values_mem_assignments h ha hva) (values_mem_assignments h hb hvb)

/-! ## Labels -/

/-- The function has identifiers for names, the values it shows display without
commas, and different values of a parameter display differently. -/
structure WrittenFn.Readable (eval : Str → Expr → Value B) (display : Value B → Str)
    (f : WrittenFn Expr) : Prop where
  ident : '(' ∉ f.ident
  params : ∀ name ∈ f.params, '=' ∉ name ∧ ',' ∉ name
  values : ∀ a ∈ f.stack, ∀ w ∈ a.params, ∀ p ∈ w.form.picks, ∀ v,
    p.shown eval (f.ty w.name) = some v → ',' ∉ display v
  distinct : ∀ a ∈ f.stack, ∀ w ∈ a.params, ∀ p ∈ w.form.picks,
    ∀ b ∈ f.stack, ∀ w' ∈ b.params, ∀ q ∈ w'.form.picks, w.name = w'.name → ∀ v v',
      p.shown eval (f.ty w.name) = some v → q.shown eval (f.ty w.name) = some v' →
        display v = display v' → p.eval eval (f.ty w.name) = q.eval eval (f.ty w.name)

theorem mem_properties {f : WrittenFn Expr} {eval : Str → Expr → Value B}
    {display : Value B → Str} {c : Choices Expr} {k s : Str} :
    (k, s) ∈ f.properties eval display c ↔
      ∃ p, (k, p) ∈ c ∧ ∃ v, p.shown eval (f.ty k) = some v ∧ display v = s := by
  simp only [WrittenFn.properties, List.mem_filterMap, Option.map_eq_some_iff,
    Prod.mk.injEq, Prod.exists]
  constructor
  · rintro ⟨k', p, hp, v, hv, rfl, hs⟩
    exact ⟨p, hp, v, hv, hs⟩
  · rintro ⟨p, hp, v, hv, hs⟩
    exact ⟨k, p, hp, v, hv, rfl, hs⟩

theorem shown_eq_none {eval : Str → Expr → Value B} {ty : Str} {p : Pick Expr}
    (h : p.shown eval ty = none) : p = .omitted := by
  cases p with
  | omitted => rfl
  | value e => simp [Pick.shown] at h
  | someValue e => simp [Pick.shown] at h

/-- Where values display differently, the properties determine the assignment. -/
theorem values_of_properties {syn : Syn Expr} {f : WrittenFn Expr} (h : f.Ok syn)
    {eval : Str → Expr → Value B} {display : Value B → Str}
    (hread : f.Readable eval display) {a b : WrittenAttr Expr} (ha : a ∈ f.stack)
    (hb : b ∈ f.stack) {c c' : Choices Expr} (hc : c ∈ a.configs) (hc' : c' ∈ b.configs)
    (hprops : f.properties eval display c = f.properties eval display c') :
    f.values (f.assignment eval c) = f.values (f.assignment eval c') := by
  have hnames : (c.map Prod.fst).Perm f.params := by
    rw [names_of_config hc]
    exact h.names a ha
  have hnames' : (c'.map Prod.fst).Perm f.params := by
    rw [names_of_config hc']
    exact h.names b hb
  -- a choice that shows nothing on one side shows nothing on the other
  have hnone : ∀ {d d' : Choices Expr} {k : Str} {p q : Pick Expr},
      (d.map Prod.fst).Perm f.params →
      f.properties eval display d = f.properties eval display d' →
      (k, p) ∈ d → (k, q) ∈ d' → p.shown eval (f.ty k) = none →
      q.shown eval (f.ty k) = none := by
    intro d d' k p q hd heq hp hq hshown
    by_contra hne
    obtain ⟨v, hv⟩ := Option.ne_none_iff_exists'.mp hne
    have hmem : (k, display v) ∈ f.properties eval display d' :=
      mem_properties.mpr ⟨q, hq, v, hv, rfl⟩
    rw [← heq] at hmem
    obtain ⟨p', hp', v', hv', -⟩ := mem_properties.mp hmem
    have hnd := hd.nodup_iff.mpr h.nodup
    have hsame := (under_of_mem hnd hp).symm.trans (under_of_mem hnd hp')
    rw [Option.some.inj hsame, hv'] at hshown
    cases hshown
  refine List.map_congr_left fun name hname => ?_
  obtain ⟨⟨_, p⟩, hp, rfl⟩ := List.mem_map.mp (hnames.mem_iff.mpr hname)
  obtain ⟨⟨k, q⟩, hq, rfl⟩ := List.mem_map.mp (hnames'.mem_iff.mpr hname)
  have hp_eval := assignment_of_mem h.nodup hnames eval hp
  have hq_eval := assignment_of_mem h.nodup hnames' eval hq
  simp only at hp_eval hq_eval ⊢
  rw [hp_eval, hq_eval]
  cases hshown : p.shown eval (f.ty k) with
  | none =>
      rw [shown_eq_none hshown, shown_eq_none (hnone hnames hprops hp hq hshown)]
  | some v =>
      have hmem : (k, display v) ∈ f.properties eval display c :=
        mem_properties.mpr ⟨p, hp, v, hshown, rfl⟩
      rw [hprops] at hmem
      obtain ⟨q', hq', v', hv', hdisp⟩ := mem_properties.mp hmem
      have hnd := hnames'.nodup_iff.mpr h.nodup
      obtain rfl : q = q' :=
        Option.some.inj ((under_of_mem hnd hq).symm.trans (under_of_mem hnd hq'))
      obtain ⟨w, hw, hwname, hpw⟩ := pick_of_mem hc hp
      obtain ⟨w', hw', hwname', hqw⟩ := pick_of_mem hc' hq
      simp only at hwname hwname'
      subst hwname
      exact congrArg some (hread.distinct a ha w hw p hpw b hb w' hw' q hqw hwname' v v'
        hshown hv' hdisp.symm)

/-- The entries of a readable function have legible labels. -/
theorem legible_configEntry {syn : Syn Expr} {f : WrittenFn Expr} (h : f.Ok syn)
    {eval : Str → Expr → Value B} {display : Value B → Str} (body : Env B → β)
    (hread : f.Readable eval display) {a : WrittenAttr Expr} (ha : a ∈ f.stack)
    {c : Choices Expr} (hc : c ∈ a.configs) (skip : Option Str) :
    Legible (f.configEntry eval display body skip c) := by
  have hkey : ∀ p ∈ f.properties eval display c, p.1 ∈ f.params := by
    intro p hp
    obtain ⟨q, hq, -⟩ := mem_properties.mp hp
    have hmem := List.mem_map_of_mem (f := Prod.fst) hq
    rw [names_of_config hc] at hmem
    exact (h.names a ha).mem_iff.mp hmem
  refine ⟨hread.ident, fun p hp => hread.params p.1 (hkey p hp), fun p hp => ?_⟩
  obtain ⟨q, hq, v, hv, hs⟩ := mem_properties.mp hp
  obtain ⟨w, hw, hname, hpick⟩ := pick_of_mem hc hq
  simp only at hname
  rw [hname] at hv
  rw [← hs]
  exact hread.values a ha w hw q hpick v hv

/-! ## Distinctness -/

/-- Counting in a union of lists without repetition counts the lists. -/
theorem count_flatMap {α γ : Type} [BEq γ] [LawfulBEq γ] {l : List α} {g : α → List γ}
    (h : ∀ a ∈ l, (g a).Nodup) (x : γ) :
    (l.flatMap g).count x = l.countP fun a => x ∈ g a := by
  induction l with
  | nil => rfl
  | cons a l ih =>
      rw [List.flatMap_cons, List.count_append, List.countP_cons,
        ih fun b hb => h b (List.mem_cons_of_mem _ hb), Nat.add_comm]
      by_cases hx : x ∈ g a
      · rw [List.count_eq_one_of_mem (h a List.mem_cons_self) hx]
        simp [hx]
      · rw [List.count_eq_zero_of_not_mem hx]
        simp [hx]

/-- The assignments of a stack are distinct iff no two attributes overlap. -/
theorem nodup_stack_iff {syn : Syn Expr} {f : WrittenFn Expr} (h : f.Ok syn)
    {eval : Str → Expr → Value B} (hvals : f.DistinctValues eval) :
    (f.stack.flatMap (f.assignments eval)).Nodup ↔
      ∀ (i j : Nat) a b, i < j → f.stack[i]? = some a → f.stack[j]? = some b →
        ¬ f.Overlap eval a b := by
  rw [List.nodup_flatMap, and_iff_right fun a ha => nodup_assignments h hvals ha,
    List.pairwise_iff_getElem]
  constructor
  · intro hpair i j a b hij hi hj hover
    obtain ⟨hi', rfl⟩ := List.getElem?_eq_some_iff.mp hi
    obtain ⟨hj', rfl⟩ := List.getElem?_eq_some_iff.mp hj
    exact (shared_iff_overlap h (List.getElem_mem hi') (List.getElem_mem hj')).mpr hover
      (hpair i j hi' hj' hij)
  · intro hno i j hi hj hij
    by_contra hshared
    exact hno i j _ _ hij (List.getElem?_eq_getElem hi) (List.getElem?_eq_getElem hj)
      ((shared_iff_overlap h (List.getElem_mem hi) (List.getElem_mem hj)).mp hshared)

/-- The entries with the body that returns its assignment are the assignments
of the stack. -/
theorem map_test_fn (eval : Str → Expr → Value B) (display : Value B → Str)
    (f : WrittenFn Expr) (skip : Option Str) :
    ((f.stack.flatMap WrittenAttr.configs).map
        (f.configEntry eval display f.values skip)).map TestEntry.test_fn
      = f.stack.flatMap (f.assignments eval) := by
  rw [List.map_map, List.map_flatMap]
  rfl

/-- **When entries are distinct**: if every attribute lists distinct values, the
entries are pairwise distinct as parameter assignments iff no two attributes of
the stack overlap (so always within one attribute); repeated `n` times, each
assignment runs `n` times for every attribute whose product contains it; and
entries that are distinct have distinct labels where the values of a parameter
display differently and without commas. Only a function with a raw identifier
for a name and something to register has no entries. -/
theorem expand_distinct [DecidableEq B] (syn : Syn Expr) (eval : Str → Expr → Value B)
    (display : Value B → Str) (f : WrittenFn Expr) (h : f.Ok syn)
    (hvals : f.DistinctValues eval) :
    (f.registered syn eval display f.values = none ↔
      f.Raw ∧ f.stack.flatMap WrittenAttr.configs ≠ []) ∧
    ∀ entries, f.registered syn eval display f.values = some entries →
      ((entries.map TestEntry.test_fn).Nodup ↔
        ∀ (i j : Nat) a b, i < j → f.stack[i]? = some a → f.stack[j]? = some b →
          ¬ f.Overlap eval a b) ∧
      (∀ n runs, repeatTests n entries = .ok runs → ∀ vs,
        runs.countP (fun e => e.test_fn = vs)
          = n * f.stack.countP fun a => vs ∈ f.assignments eval a) ∧
      (f.Readable eval display → (entries.map TestEntry.test_fn).Nodup →
        (entries.map TestEntry.label).Nodup) := by
  refine ⟨registered_eq_none h eval display f.values, fun entries hentries => ?_⟩
  have hname : f.Raw → f.stack.flatMap WrittenAttr.configs = [] := by
    intro hraw
    by_contra hne
    rw [(registered_eq_none h eval display f.values).mpr ⟨hraw, hne⟩] at hentries
    cases hentries
  rw [registered_eq h hname, Option.some.injEq] at hentries
  subst hentries
  have hbody := map_test_fn eval display f (f.reason syn)
  have hone : ∀ a ∈ f.stack, (f.assignments eval a).Nodup :=
    fun a ha => nodup_assignments h hvals ha
  refine ⟨?_, ?_, ?_⟩
  · rw [hbody]
    exact nodup_stack_iff h hvals
  · intro n runs hruns vs
    have hcount := count_flatMap hone vs
    rw [← hbody, List.count, List.countP_map] at hcount
    rw [countP_repeatTests hruns]
    congr 1
    refine Eq.trans (List.countP_congr fun e _ => ?_) hcount
    simp
  · intro hread hnd
    refine (List.Nodup.of_map _ hnd).map_on ?_
    intro e he e' he' hlabel
    obtain ⟨c, hc, rfl⟩ := List.mem_map.mp he
    obtain ⟨c', hc', rfl⟩ := List.mem_map.mp he'
    obtain ⟨a, ha, hca⟩ := List.mem_flatMap.mp hc
    obtain ⟨b, hb, hcb⟩ := List.mem_flatMap.mp hc'
    have hprops := (label_injective (legible_configEntry h f.values hread ha hca _)
      (legible_configEntry h f.values hread hb hcb _) hlabel).2
    have hval := values_of_properties h hread ha hb hca hcb hprops
    -- equal assignments are at one place of a list without repetition
    exact List.inj_on_of_nodup_map hnd he he' hval

/-- Literals are their own values, displayed as they are. -/
def literalEval (_ty text : Str) : Value Str := .base text

def literalDisplay : Value Str → Str
  | .base text => text
  | _ => []

/-- The stack of `test_os_boot`, two parameters of it: `ovmf = []` and
`ovmf = [C]` both have the variant without firmware. -/
def osBoot : WrittenFn Str where
  first := .args [⟨['m'], .multi [literal ['P'], literal ['Q']] false⟩,
    ⟨['o'], .optional [] false⟩] true
  attrs := [.inl (.args [⟨['m'], .single (literal ['Q'])⟩,
    ⟨['o'], .optional [literal ['C']] false⟩] true)]
  ident := ['t']
  inputs := [(['m'], ['M']), (['o'], ['O'])]

theorem ok_osBoot : osBoot.Ok literalSyn := by
  refine WrittenFn.ok_of_literals ?_ ?_ (by decide) ?_
  · simp [osBoot, WrittenFn.stack, WrittenAttr.specs, ValueForm.written]
  · simp [osBoot, WrittenFn.stack, WrittenAttr.specs, WrittenFn.params]
  · simp [osBoot, WrittenFn.params, skipName, lit]

/-- One attribute, two optional parameters, a value with a comma. -/
def commaFn : WrittenFn Str where
  first := .args [⟨['a'], .optional [literal ['x'], literal ['x', ',', ' ', 'b', '=', 'y']]
      false⟩,
    ⟨['b'], .optional [literal ['y']] false⟩] false
  attrs := []
  ident := ['t']
  inputs := [(['a'], ['A']), (['b'], ['A'])]

theorem ok_commaFn : commaFn.Ok literalSyn := by
  refine WrittenFn.ok_of_literals ?_ ?_ (by decide) ?_
  · simp [commaFn, WrittenFn.stack, WrittenAttr.specs, ValueForm.written]
  · simp [commaFn, WrittenFn.stack, WrittenAttr.specs, WrittenFn.params]
  · simp [commaFn, WrittenFn.params, skipName, lit]

theorem not_raw_osBoot : ¬ osBoot.Raw := by simp [WrittenFn.Raw, osBoot]

theorem not_raw_commaFn : ¬ commaFn.Raw := by simp [WrittenFn.Raw, commaFn]

theorem distinctValues_osBoot : osBoot.DistinctValues literalEval := by
  simp [WrittenFn.DistinctValues, osBoot, WrittenFn.stack, WrittenAttr.params,
    WrittenAttr.specs, ValueForm.written, literalEval, literal, skipName, lit]

theorem distinctValues_commaFn : commaFn.DistinctValues literalEval := by
  simp [WrittenFn.DistinctValues, commaFn, WrittenFn.stack, WrittenAttr.params,
    WrittenAttr.specs, ValueForm.written, literalEval, literal, skipName, lit]

/-- Both attributes of `osBoot` register the machine `Q` without firmware, and
two assignments of `commaFn` have one label though their values display
differently. -/
theorem expand_not_distinct :
    (osBoot.Ok literalSyn ∧ osBoot.DistinctValues literalEval ∧
      ∃ entries, osBoot.registered literalSyn literalEval literalDisplay osBoot.values
        = some entries ∧ ¬ (entries.map TestEntry.test_fn).Nodup) ∧
    (commaFn.Ok literalSyn ∧ commaFn.DistinctValues literalEval ∧
      (∀ text text', literalDisplay (.base text) = literalDisplay (.base text') →
        text = text') ∧
      ∃ entries, commaFn.registered literalSyn literalEval literalDisplay commaFn.values
        = some entries ∧ (entries.map TestEntry.test_fn).Nodup ∧
          ¬ (entries.map TestEntry.label).Nodup) := by
  refine ⟨⟨ok_osBoot, distinctValues_osBoot, _,
    registered_eq ok_osBoot (absurd · not_raw_osBoot) literalEval literalDisplay
      osBoot.values, ?_⟩,
    ok_commaFn, distinctValues_commaFn, fun _ _ h => h, _,
    registered_eq ok_commaFn (absurd · not_raw_commaFn) literalEval literalDisplay
      commaFn.values, ?_, ?_⟩
  · rw [map_test_fn, nodup_stack_iff ok_osBoot distinctValues_osBoot]
    intro hno
    refine hno 0 1 _ _ (by omega) rfl rfl ?_
    intro name hname
    obtain rfl | rfl : name = ['m'] ∨ name = ['o'] := by
      simpa [WrittenFn.params, osBoot] using hname
    · exact ⟨.base ['Q'], by decide +kernel, by decide +kernel⟩
    · exact ⟨.none, by decide +kernel, by decide +kernel⟩
  · rw [map_test_fn, nodup_stack_iff ok_commaFn distinctValues_commaFn]
    intro i j a b hij hi hj
    -- there is one attribute only
    have hj' : j < 1 := (List.getElem?_eq_some_iff.mp hj).1
    omega
  · decide +kernel

/-- The entries of `commaFn` are distinct. -/
theorem expand_distinct_commaFn :
    ∃ entries, commaFn.registered literalSyn literalEval literalDisplay commaFn.values
      = some entries ∧ (entries.map TestEntry.test_fn).Nodup := by
  obtain ⟨hnone, hentries⟩ := expand_distinct literalSyn literalEval literalDisplay
    commaFn ok_commaFn distinctValues_commaFn
  obtain ⟨entries, hreg⟩ := Option.ne_none_iff_exists'.mp
    fun h => not_raw_commaFn (hnone.mp h).1
  obtain ⟨hiff, -⟩ := hentries entries hreg
  refine ⟨entries, hreg, hiff.mpr ?_⟩
  intro i j a b hij hi hj
  have hj' : j < 1 := (List.getElem?_eq_some_iff.mp hj).1
  omega

end QemuTest
