import Lexiscope.Proofs.Capture.Readiness
/-!
# What environments have

The names that a function requires are found, are built in, or are missing, and an environment has
each of them in its place. Environments are put over one another: mappings that are bound to an
environment come to the same as mappings that were given after those of the environment.
-/

namespace Lexiscope.Capture

open Code (Object)
open Machine

section Parts

variable {lookup lookup' : Name → Option Value} {names : List Name} {n : Name} {m m' : NameMap}

theorem get?_found : (found lookup names).get? n = if n ∈ names then lookup n else none := by
  unfold found
  rw [OrderedMap.get?_ofList]
  induction names with
  | nil => rfl
  | cons name names ih =>
    rw [List.filterMap_cons]
    cases hname : lookup name with
    | none =>
      by_cases h : n = name
      · subst h
        simp [ih, hname]
      · simp [ih, h]
    | some v =>
      simp only [Option.map_some]
      rw [← List.singleton_append, OrderedMap.lastOf_append, ih]
      by_cases h : n = name
      · subst h
        by_cases hn : n ∈ names <;> simp [OrderedMap.lastOf, OrderedMap.findIn, hn, hname]
      · by_cases hn : n ∈ names <;>
          simp [OrderedMap.lastOf, OrderedMap.findIn, hn, h, Ne.symm h]

theorem mem_unfound_iff : n ∈ unfound lookup names ↔ n ∈ names ∧ lookup n = none := by
  simp [unfound]

theorem found_congr (h : ∀ n ∈ names, lookup n = lookup' n) :
    found lookup names = found lookup' names := by
  unfold found
  congr 1
  refine List.filterMap_congr fun n hn => ?_
  rw [h n hn]

theorem unfound_congr (h : ∀ n ∈ names, lookup n = lookup' n) :
    unfound lookup names = unfound lookup' names :=
  List.filter_congr fun n hn => by rw [h n hn]

theorem get?_joinOne (e : Name × Value) : (if m.contains e.1 then m else m.insert e.1 e.2).get? n =
    (m.get? n).or (if e.1 = n then some e.2 else none) := by
  rw [OrderedMap.contains_eq_isSome_get?]
  by_cases h : e.1 = n
  · subst h
    cases hm : m.get? e.1 with
    | none => simp
    | some v => simp [hm]
  · rw [if_neg h, Option.or_none]
    split
    · rfl
    · exact OrderedMap.get?_insert_of_ne m e.2 (beq_false_of_ne h)

theorem get?_join : (join m m').get? n = (m.get? n).or (m'.get? n) := by
  obtain ⟨es⟩ := m'
  simp only [join, OrderedMap.get?]
  change OrderedMap.get? _ n = (m.get? n).or (OrderedMap.findIn n es)
  induction es generalizing m with
  | nil => simp [OrderedMap.findIn]
  | cons e es ih =>
    rw [List.foldl_cons, ih, get?_joinOne, Option.or_assoc]
    by_cases h : e.1 = n <;> simp [OrderedMap.findIn, h]

theorem keys_join (h : m'.keys.Nodup) :
    (join m m').keys = m.keys ++ m'.keys.filter fun n => n ∉ m.keys := by
  obtain ⟨es⟩ := m'
  simp only [join, OrderedMap.keys] at h ⊢
  change OrderedMap.keys _ = m.keys ++ (es.map Prod.fst).filter fun n => n ∉ m.keys
  induction es generalizing m with
  | nil => simp
  | cons e es ih =>
    obtain ⟨he, hes⟩ := List.nodup_cons.1 h
    rw [List.foldl_cons, ih hes]
    have hcontains : m.contains e.1 = true ↔ e.1 ∈ m.keys := by
      rw [OrderedMap.contains_eq_isSome_get?, OrderedMap.isSome_get?_iff]
    split
    · rename_i hm
      rw [List.map_cons, List.filter_cons_of_neg (by simpa using hcontains.1 hm)]
    · rename_i hm
      have hnew : e.1 ∉ m.keys := fun hmem => hm (hcontains.2 hmem)
      rw [OrderedMap.keys_insert, if_neg hm, List.map_cons,
        List.filter_cons_of_pos (by simpa using hnew), List.append_assoc, List.singleton_append]
      congr 2
      refine List.filter_congr fun n hn => ?_
      have hne : n ≠ e.1 := by
        rintro rfl
        exact he hn
      simp [hne]

theorem merge_eq (ms : List NameMap) : merge ms = .ofList (ms.flatMap (·.entries)) := by
  unfold merge OrderedMap.ofList
  generalize OrderedMap.empty = m
  induction ms generalizing m with
  | nil => rfl
  | cons n ms ih =>
    rw [List.foldl_cons, ih, List.flatMap_cons]
    exact List.foldl_append.symm

theorem get?_merge_append (ms ms' : List NameMap) (n : Name) :
    (merge (ms ++ ms')).get? n = ((merge ms').get? n).or ((merge ms).get? n) := by
  simp only [merge_eq, OrderedMap.get?_ofList, List.flatMap_append, OrderedMap.lastOf_append]

theorem get?_merge_of_none {ms : List NameMap} (h : ∀ m ∈ ms, m.get? n = none) :
    (merge ms).get? n = none := by
  rw [merge_eq, OrderedMap.get?_ofList, OrderedMap.lastOf_eq_none_iff, List.mem_map]
  rintro ⟨e, he, rfl⟩
  obtain ⟨m, hm, he⟩ := List.mem_flatMap.1 he
  exact OrderedMap.get?_eq_none_iff.1 (h m hm) (List.mem_map_of_mem he)

theorem get?_merge_last {before after : List NameMap} (hm : m.keys.Nodup)
    (hafter : ∀ m' ∈ after, m'.get? n = none) {v : Value} (hv : m.get? n = some v) :
    (merge (before ++ m :: after)).get? n = some v := by
  have hone : (merge [m]).get? n = some v := by
    rw [merge_eq, OrderedMap.get?_ofList, List.flatMap_singleton, OrderedMap.lastOf_entries hm, hv]
  rw [get?_merge_append, ← List.singleton_append, get?_merge_append, get?_merge_of_none hafter,
    hone]
  rfl

end Parts

section Accounting

variable {r : Requirements} {s : Sources} {n : Name}

/-- The names that a function requires are all accounted for, each in its roles. -/
structure Environment.Accounts (e : Environment) (r : Requirements) (s : Sources) : Prop where
  cells : ∀ n, e.cells.get? n = if n ∈ r.closures then s.closure? n else none
  globals : ∀ n, e.globals.get? n = if n ∈ r.globals then s.global? n else none
  builtins : ∀ n, n ∈ e.builtins ↔ n ∈ r.globals ∧ n ∉ e.globals.keys ∧ n ∈ builtinNames.keys
  missing : ∀ n, n ∈ e.missing ↔ n ∈ r.closures ∧ n ∉ e.cells.keys ∨
    n ∈ r.globals ∧ n ∉ e.globals.keys ∧ n ∉ e.builtins
  required : ∀ n ∈ e.outer.keys ++ e.missing ++ e.builtins ++ e.cells.keys ++ e.globals.keys,
    n ∈ r.names
  outer : ∀ n, e.outer.get? n =
    if n ∈ e.missing then none else (e.cells.get? n).or (e.globals.get? n)
  outer_keys : e.outer.keys =
    (e.cells.keys ++ e.globals.keys.filter (· ∉ e.cells.keys)).filter (· ∉ e.missing)
  distinct : e.cells.keys.Nodup ∧ e.globals.keys.Nodup ∧ e.outer.keys.Nodup ∧ e.missing.Nodup
  complete : e.isComplete = true ↔ (∀ n ∈ r.closures, (s.closure? n).isSome) ∧
    ∀ n ∈ r.globals, (s.global? n).isSome ∨ n ∈ builtinNames.keys

theorem get?_cells_resolve : (Environment.resolve r s).cells.get? n =
    if n ∈ r.closures then s.closure? n else none :=
  get?_found

theorem get?_globals_resolve : (Environment.resolve r s).globals.get? n =
    if n ∈ r.globals then s.global? n else none :=
  get?_found

theorem mem_keys_found {lookup : Name → Option Value} {names : List Name} :
    n ∈ (found lookup names).keys ↔ n ∈ names ∧ (lookup n).isSome := by
  rw [← OrderedMap.isSome_get?_iff, get?_found]
  split <;> simp_all

theorem contains_builtinNames : builtinNames.contains n = true ↔ n ∈ builtinNames.keys := by
  rw [OrderedMap.contains_eq_isSome_get?, OrderedMap.isSome_get?_iff]

theorem mem_builtins_resolve : n ∈ (Environment.resolve r s).builtins ↔
    n ∈ r.globals ∧ s.global? n = none ∧ n ∈ builtinNames.keys := by
  simp only [Environment.resolve, List.mem_filter, mem_unfound_iff, contains_builtinNames,
    and_assoc]

theorem mem_missing_resolve : n ∈ (Environment.resolve r s).missing ↔
    n ∈ r.closures ∧ s.closure? n = none ∨
      n ∈ r.globals ∧ s.global? n = none ∧ n ∉ builtinNames.keys := by
  simp only [Environment.resolve, mem_distinctNames, List.mem_append, mem_unfound_iff,
    List.mem_filter, Bool.not_eq_true', ← Bool.not_eq_true, contains_builtinNames, and_assoc]

/-- Of a name that is not missing, `outer` has the value of the closure, or else the global one. -/
theorem get?_outer_resolve : (Environment.resolve r s).outer.get? n =
    if n ∈ (Environment.resolve r s).missing then none
    else ((Environment.resolve r s).cells.get? n).or
      ((Environment.resolve r s).globals.get? n) := by
  have hfilter := OrderedMap.get?_filter
    (fun n => !(Environment.resolve r s).missing.contains n)
    (join (Environment.resolve r s).cells (Environment.resolve r s).globals) n
  rw [get?_join] at hfilter
  refine hfilter.trans ?_
  by_cases h : n ∈ (Environment.resolve r s).missing <;> simp [h]

theorem keys_outer_resolve : (Environment.resolve r s).outer.keys =
    ((Environment.resolve r s).cells.keys ++ (Environment.resolve r s).globals.keys.filter
      (· ∉ (Environment.resolve r s).cells.keys)).filter
        (· ∉ (Environment.resolve r s).missing) := by
  have hglobals : (Environment.resolve r s).globals.keys.Nodup := OrderedMap.nodup_keys_ofList _
  have hfilter := OrderedMap.keys_filter
    (fun n => !(Environment.resolve r s).missing.contains n)
    (join (Environment.resolve r s).cells (Environment.resolve r s).globals)
  rw [keys_join hglobals] at hfilter
  refine hfilter.trans (List.filter_congr fun n _ => ?_)
  simp

theorem isComplete_resolve : (Environment.resolve r s).isComplete = true ↔
    (∀ n ∈ r.closures, (s.closure? n).isSome) ∧
      ∀ n ∈ r.globals, (s.global? n).isSome ∨ n ∈ builtinNames.keys := by
  rw [Environment.isComplete, List.isEmpty_iff, List.eq_nil_iff_forall_not_mem]
  simp only [mem_missing_resolve, not_or, not_and, forall_and, Decidable.not_not, ← ne_eq,
    Option.isSome_iff_ne_none]
  refine and_congr_right fun _ => forall₂_congr fun n _ => ?_
  rw [Decidable.or_iff_not_imp_left, Decidable.not_not]

/-- The environment of a function accounts for all names that are required, whatever they are
looked for in. -/
theorem environment_accounts (r : Requirements) (s : Store) (base : Option Environment)
    (f : FunctionValue) (mappings : List NameMap) (useClosures useGlobals : Bool) :
    (Environment.resolve r (.ofFunction s base f mappings useClosures useGlobals)).Accounts r
      (.ofFunction s base f mappings useClosures useGlobals) := by
  -- Nothing here depends on where values were looked for.
  generalize Sources.ofFunction s base f mappings useClosures useGlobals = sources
  have hcells : ∀ {n}, n ∈ (Environment.resolve r sources).cells.keys ↔
      n ∈ r.closures ∧ (sources.closure? n).isSome := mem_keys_found
  have hglobals : ∀ {n}, n ∈ (Environment.resolve r sources).globals.keys ↔
      n ∈ r.globals ∧ (sources.global? n).isSome := mem_keys_found
  have hkeys : (Environment.resolve r sources).cells.keys.Nodup ∧
      (Environment.resolve r sources).globals.keys.Nodup :=
    ⟨OrderedMap.nodup_keys_ofList _, OrderedMap.nodup_keys_ofList _⟩
  constructor
  case cells => exact fun n => get?_cells_resolve
  case globals => exact fun n => get?_globals_resolve
  case builtins =>
    intro n
    rw [mem_builtins_resolve, hglobals]
    cases sources.global? n <;> simp +contextual
  case missing =>
    intro n
    rw [mem_missing_resolve, mem_builtins_resolve, hcells, hglobals]
    cases sources.global? n <;> cases sources.closure? n <;> simp <;> tauto
  case required =>
    have hmissing : ∀ n ∈ (Environment.resolve r sources).missing, n ∈ r.names := fun n hn =>
      List.mem_append.2 ((mem_missing_resolve.1 hn).imp And.left And.left)
    have houter : ∀ n ∈ (Environment.resolve r sources).outer.keys, n ∈ r.names := by
      intro n hn
      rw [keys_outer_resolve] at hn
      rcases List.mem_append.1 (List.mem_filter.1 hn).1 with hn | hn
      · exact List.mem_append_left _ (hcells.1 hn).1
      · exact List.mem_append_right _ (hglobals.1 (List.mem_filter.1 hn).1).1
    simp only [List.forall_mem_append]
    refine ⟨⟨⟨⟨houter, hmissing⟩, fun n hn => ?_⟩, fun n hn => ?_⟩, fun n hn => ?_⟩
    · exact List.mem_append_right _ (mem_builtins_resolve.1 hn).1
    · exact List.mem_append_left _ (hcells.1 hn).1
    · exact List.mem_append_right _ (hglobals.1 hn).1
  case outer => exact fun n => get?_outer_resolve
  case outer_keys => exact keys_outer_resolve
  case distinct =>
    obtain ⟨hclosures, hnames⟩ := hkeys
    refine ⟨hclosures, hnames, ?_, nodup_distinctNames _⟩
    rw [keys_outer_resolve]
    refine List.Nodup.filter _ (List.nodup_append.2 ⟨hclosures, hnames.filter _, ?_⟩)
    rintro n hn _ hm rfl
    exact of_decide_eq_true (List.mem_filter.1 hm).2 hn
  case complete => exact isComplete_resolve

end Accounting

section Layers

variable {r : Requirements} {f : FunctionValue} {base : Option Environment} {s t : Store}
  {o : Options} {ms ms' : List NameMap}

/-- The environment of a function over another one, as the options have it. -/
def Environment.over (s : Store) (base : Option Environment) (r : Requirements)
    (f : FunctionValue) (o : Options) (mappings : List NameMap) : Environment :=
  .resolve r (.ofFunction s base f mappings o.useClosures o.useGlobals)

/-- The cells and the globals of the function are in the second store what they are in the
first. -/
structure SameOuter (f : FunctionValue) (s t : Store) : Prop where
  cells : ∀ c ∈ f.closure, t.cell c = s.cell c
  globals : t.space f.globals = s.space f.globals

theorem SameOuter.refl (f : FunctionValue) (s : Store) : SameOuter f s s := ⟨fun _ _ => rfl, rfl⟩

/-- Only what is found for required names matters. -/
theorem resolve_congr {a b : Sources} (hclosures : ∀ n ∈ r.closures, a.closure? n = b.closure? n)
    (hglobals : ∀ n ∈ r.globals, a.global? n = b.global? n) :
    Environment.resolve r a = .resolve r b := by
  unfold Environment.resolve
  rw [found_congr hclosures, found_congr hglobals, unfound_congr hclosures, unfound_congr hglobals]

theorem closureValues_same (h : SameOuter f s t) : closureValues t f = closureValues s f := by
  refine List.map_congr_left fun p hp => ?_
  rw [h.cells p.2 (List.of_mem_zip hp).2]

theorem ofFunction_same (h : SameOuter f s t) (base base' : Option Environment)
    (ms ms' : List NameMap) :
    Sources.ofFunction t base' f ms' o.useClosures o.useGlobals =
      { Sources.ofFunction s base f ms o.useClosures o.useGlobals with
        supplied := merge ms', base := base' } := by
  unfold Sources.ofFunction
  rw [closureValues_same h, h.globals]

/-- Mappings over an environment are as good as mappings after those of the environment. -/
theorem over_over (h : SameOuter f s t) :
    Environment.over t (some (.over s base r f o ms)) r f o ms' =
      .over s base r f o (ms ++ ms') := by
  unfold Environment.over
  rw [ofFunction_same h base _ ms, ofFunction_same (.refl f s) base base ms]
  -- What is underneath has been looked up already, and looking again finds the same.
  refine resolve_congr (fun n hn => ?_) fun n hn => ?_
  · simp only [Sources.closure?, Option.bind_some, get?_cells_resolve, if_pos hn,
      get?_merge_append, Sources.ofFunction, Option.or_assoc, Option.or_self]
  · simp only [Sources.global?, Option.bind_some, get?_globals_resolve, if_pos hn,
      get?_merge_append, Sources.ofFunction, Option.or_assoc, Option.or_self]

theorem over_of_unrelated (h : SameOuter f s t)
    (hnames : ∀ m ∈ ms', ∀ n ∈ r.names, m.get? n = none) :
    Environment.over t (some (.over s base r f o ms)) r f o ms' = .over s base r f o ms := by
  rw [over_over h]
  have hsupplied : ∀ n ∈ r.names, (merge (ms ++ ms')).get? n = (merge ms).get? n := by
    intro n hn
    rw [get?_merge_append, get?_merge_of_none fun m hm => hnames m hm n hn, Option.none_or]
  refine resolve_congr (fun n hn => ?_) fun n hn => ?_
  · simp only [Sources.closure?, Sources.ofFunction, hsupplied n (List.mem_append_left _ hn)]
  · simp only [Sources.global?, Sources.ofFunction, hsupplied n (List.mem_append_right _ hn)]

/-- The environment has the value for the name in every role in which the name is required. -/
structure Environment.Gives (e : Environment) (r : Requirements) (n : Name) (v : Value) : Prop where
  outer : e.outer.get? n = some v
  cells : n ∈ r.closures → e.cells.get? n = some v
  globals : n ∈ r.globals → e.globals.get? n = some v

theorem gives_of_supplied {a : Sources} {n : Name} {v : Value} (hn : n ∈ r.names)
    (hv : a.supplied.get? n = some v) : (Environment.resolve r a).Gives r n v := by
  have hclosure : a.closure? n = some v := by rw [Sources.closure?, hv, Option.some_or]
  have hglobal : a.global? n = some v := by rw [Sources.global?, hv, Option.some_or]
  have hmissing : n ∉ (Environment.resolve r a).missing := by
    rw [mem_missing_resolve, hclosure, hglobal]
    simp
  constructor
  case cells => exact fun hn => by rw [get?_cells_resolve, if_pos hn, hclosure]
  case globals => exact fun hn => by rw [get?_globals_resolve, if_pos hn, hglobal]
  case outer =>
    rw [get?_outer_resolve, if_neg hmissing, get?_cells_resolve, get?_globals_resolve, hclosure,
      hglobal]
    rcases List.mem_append.1 hn with hn | hn
    · rw [if_pos hn, Option.some_or]
    · rw [if_pos hn]
      split <;> rfl

/-- Of the mappings that have a required name the last one gives its value. -/
theorem over_last {before after : List NameMap} {m : NameMap} {n : Name} {v : Value}
    (hm : m.keys.Nodup) (hv : m.get? n = some v) (hafter : ∀ m' ∈ after, m'.get? n = none)
    (hn : n ∈ r.names) :
    (Environment.over s base r f o (before ++ m :: after)).Gives r n v :=
  gives_of_supplied hn (get?_merge_last hm hafter hv)

end Layers

section Wrappers

variable {f : FunctionValue} {base : Option Environment} {s t : Store} {ms ms' : List NameMap}
  {w v : Wrapped}

/-- The wrapper has the environment that mappings give over another one. -/
def Wrapped.Stands (s : Store) (base : Option Environment) (ms : List NameMap) (w : Wrapped) :
    Prop :=
  w.environment = .over s base w.requirements w.function w.options ms

theorem stands_of_assemble {r : Requirements} {plan : Plan} {o : Options} {u : Store}
    (h : Wrapped.assemble f r plan base ms o s = .ok w u) : w.Stands s base ms := by
  cases h
  rfl

/-- The wrapper with the environment that mappings give over another one. -/
def Wrapped.over (s : Store) (base : Option Environment) (w : Wrapped) (ms : List NameMap) :
    Wrapped :=
  { w with environment := .over s base w.requirements w.function w.options ms }

theorem bind_eq_over (w : Wrapped) (ms : List NameMap) (t : Store) :
    w.bind ms t = .ok (w.over t (some w.environment) ms) t := by
  unfold Wrapped.bind Wrapped.rewrap
  rw [if_pos rfl]
  rfl

/-- Mappings bound one after the other, while other things may go on that leave the cells and the
globals of the function as they are. -/
inductive BoundInTurn (s : Store) : Wrapped → List NameMap → Wrapped → Prop where
  | done {w : Wrapped} : BoundInTurn s w [] w
  | next {w v x : Wrapped} {t u : Store} {m : NameMap} {ms : List NameMap} :
    SameOuter w.function s t → w.bind [m] t = .ok v u → BoundInTurn s v ms x →
    BoundInTurn s w (m :: ms) x

theorem Wrapped.Stands.over_eq (h : w.Stands s base ms) : w.over s base ms = w := by
  rw [Wrapped.over, ← h]

theorem Wrapped.Stands.bind_eq (h : w.Stands s base ms) (ht : SameOuter w.function s t) :
    w.bind ms' t = .ok (w.over s base (ms ++ ms')) t := by
  rw [bind_eq_over, h, Wrapped.over, over_over ht]
  rfl

/-- Mappings bound one after the other are as good as all bound at once. -/
theorem Wrapped.Stands.boundInTurn_iff (h : w.Stands s base ms) (ht : SameOuter w.function s t) :
    BoundInTurn s w ms' v ↔ w.bind ms' t = .ok v t := by
  induction ms' generalizing w ms with
  | nil =>
    rw [h.bind_eq ht, List.append_nil, h.over_eq]
    constructor
    · rintro ⟨⟩
      rfl
    · rintro ⟨⟩
      exact .done
  | cons m ms' ih =>
    have hone : (w.over s base (ms ++ [m])).Stands s base (ms ++ [m]) := rfl
    have hrest := ih hone ht
    rw [hone.bind_eq ht, List.append_assoc, List.singleton_append] at hrest
    rw [h.bind_eq ht]
    refine Iff.trans ⟨?_, fun hv => ?_⟩ hrest
    · rintro (_ | ⟨hu, hbind, hin⟩)
      rw [h.bind_eq hu] at hbind
      cases hbind
      exact hin
    · exact .next (.refl _ s) (h.bind_eq (.refl _ s)) hv

end Wrappers

/-- Environments of a function that are put over one another have what all the mappings in turn
give. -/
structure Composes (s t : Store) (f : FunctionValue) (r : Requirements) (base : Option Environment)
    (o : Options) (ms : List NameMap) : Prop where
  layered : ∀ ms', Environment.over t (some (.over s base r f o ms)) r f o ms' =
    .over s base r f o (ms ++ ms')
  unrelated : ∀ ms', (∀ m ∈ ms', ∀ n ∈ r.names, m.get? n = none) →
    Environment.over t (some (.over s base r f o ms)) r f o ms' = .over s base r f o ms
  last : ∀ before m after n v, m.keys.Nodup → m.get? n = some v →
    (∀ m' ∈ after, m'.get? n = none) → n ∈ r.names →
      (Environment.over s base r f o (before ++ m :: after)).Gives r n v
  bound : ∀ plan w u, Wrapped.assemble f r plan base ms o s = .ok w u → ∀ ms',
    w.bind ms' t = .ok { w with environment := (Environment.over s base r f o (ms ++ ms')) } t ∧
      ∀ v, BoundInTurn s w ms' v ↔ w.bind ms' t = .ok v t

/-- Environments compose while the cells and the globals of the function stay as they are. -/
theorem environments_compose {s t : Store} {f : FunctionValue} (h : SameOuter f s t)
    (r : Requirements) (base : Option Environment) (o : Options) (ms : List NameMap) :
    Composes s t f r base o ms := by
  constructor
  case layered => exact fun ms' => over_over h
  case unrelated => exact fun ms' => over_of_unrelated h
  case last => exact fun before m after n v => over_last
  case bound =>
    intro plan w u hw ms'
    have hstands := stands_of_assemble hw
    cases hw
    exact ⟨hstands.bind_eq h, fun v => hstands.boundInTurn_iff h⟩

/-- A module with a function that reads one name from its closure, and as a global in a function
of its own. -/
def readingTwice : String :=
  "x = 5\ndef outer() \x7b x = 1\ndef f() \x7b def g() \x7b global x\nreturn x \x7d\n" ++
  "return x + g() \x7d\nreturn f \x7d\nf = outer()"

/-- The name is required both as a closure name and as a global one. -/
def requiresTwice (n : Name) (f : FunctionValue) : Bool :=
  (Requirements.ofCode f.code.object).closures.contains n &&
    (Requirements.ofCode f.code.object).globals.contains n

/-- Environments of that function compose while a list is made elsewhere. -/
theorem environments_compose_twice : ∃ f s, loadedFunction readingTwice = some (f, s) ∧
    requiresTwice "x" f ∧ ∃ t, t.lists.size = s.lists.size + 1 ∧ SameOuter f s t ∧
      Composes s t f (.ofCode f.code.object) none { mechanism := .trace }
        [.ofList [("x", .int 7), ("y", .none)]] := by
  have hloaded : (loadedFunction readingTwice).any (fun p => requiresTwice "x" p.1) = true := by
    decide +kernel
  obtain ⟨⟨f, s⟩, hf, htwice⟩ := (Option.any_eq_true _ _).1 hloaded
  have hsame : SameOuter f s { s with lists := s.lists.push #[] } := ⟨fun _ _ => rfl, rfl⟩
  exact ⟨f, s, hf, htwice, _, Array.size_push _, hsame, environments_compose hsame _ none _ _⟩

end Lexiscope.Capture
