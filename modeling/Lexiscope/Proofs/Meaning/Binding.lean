import Lexiscope.Proofs.Code.InStep
import Lexiscope.Proofs.Meaning.Defaults
/-!
# Calls of functions that were compiled

A definition says in its parameters what a call may look like. The parser sees to the order of the
parameters, the compiler lays them out in slots and cells, the definition evaluates their defaults,
and a call fills the slots by their numbers. Taken together, a call of the function binds every
parameter by its name, as the definition says.
-/

namespace Lexiscope.Meaning

open Machine Exec
open Code
open Grammar (Expr Stmt Param Params BodyOrderly)
open Lexical (Scope Nested slotOrder stmtBlocks)

section Signatures

/-- The signature of a definition whose defaults came to values. -/
def signatureOf (params : Params) (vs : List Value) (ws : List (Name × Value)) : Signature where
  positional := params.positional.map fun p =>
    ⟨p.name, (((namedDefaults params.positional).map Prod.fst).zip vs).lookup p.name⟩
  keywordOnly := params.keywordOnly.map fun p => ⟨p.name, ws.lookup p.name⟩
  rest := params.rest
  restKeywords := params.restKeywords

variable {params : Params} {vs : List Value} {ws : List (Name × Value)}

theorem slotNames_signatureOf : (signatureOf params vs ws).slotNames = slotOrder params := by
  simp only [signatureOf, Signature.slotNames, Signature.names, Signature.named, List.map_append,
    List.map_map, slotOrder]
  rfl

theorem lookup_zip_of_notMem {names : List Name} {name : Name} (h : name ∉ names)
    (vs : List Value) : (names.zip vs).lookup name = none := by
  refine List.lookup_eq_none_iff.2 fun p hp => bne_iff_ne.2 ?_
  rintro rfl
  exact h (List.of_mem_zip hp).1

theorem map_lookup_zip {names : List Name} (hnames : names.Nodup)
    (hlength : vs.length = names.length) :
    names.map (fun n => (names.zip vs).lookup n) = vs.map some := by
  induction names generalizing vs with
  | nil =>
    obtain rfl := List.length_eq_zero_iff.1 hlength
    rfl
  | cons name names ih =>
    obtain ⟨v, vs, rfl⟩ := List.exists_cons_of_length_eq_add_one hlength
    obtain ⟨hname, hnames⟩ := List.nodup_cons.1 hnames
    have htail : ∀ n ∈ names,
        ((name :: names).zip (v :: vs)).lookup n = (names.zip vs).lookup n := by
      intro n hn
      rw [List.zip_cons_cons, List.lookup_cons, beq_false_of_ne (by rintro rfl; exact hname hn)]
    rw [List.map_cons, List.map_congr_left htail, ih hnames (by simpa using hlength),
      List.zip_cons_cons, List.lookup_cons, beq_self_eq_true]
    rfl

theorem exists_split_of_defaultsLast {positional : List Param}
    (h : positional.Pairwise fun p q => p.default.isSome = true → q.default.isSome = true) :
    ∃ before after, positional = before ++ after ∧ (∀ p ∈ before, p.default.isSome = false) ∧
      ∀ p ∈ after, p.default.isSome = true := by
  induction positional with
  | nil => exact ⟨[], [], rfl, by simp, by simp⟩
  | cons p positional ih =>
    obtain ⟨hp, hrest⟩ := List.pairwise_cons.1 h
    cases hdefault : p.default.isSome with
    | true =>
      exact ⟨[], p :: positional, rfl, by simp,
        List.forall_mem_cons.2 ⟨hdefault, fun q hq => hp q hq hdefault⟩⟩
    | false =>
      obtain ⟨before, after, rfl, hbefore, hafter⟩ := ih hrest
      exact ⟨p :: before, after, rfl, List.forall_mem_cons.2 ⟨hdefault, hbefore⟩, hafter⟩

/-- Defaults that are aligned from the right are those of the parameters that have some. -/
theorem alignDefaults_eq {positional : List Param} (hnames : (positional.map (·.name)).Nodup)
    (hlast : positional.Pairwise fun p q => p.default.isSome = true → q.default.isSome = true)
    (hlength : vs.length = ((namedDefaults positional).map Prod.fst).length) :
    alignDefaults positional.length vs = positional.map fun p =>
      (((namedDefaults positional).map Prod.fst).zip vs).lookup p.name := by
  rw [map_fst_namedDefaults] at hlength ⊢
  obtain ⟨before, after, rfl, hbefore, hafter⟩ := exists_split_of_defaultsLast hlast
  have hfilter : (before ++ after).filter (·.default.isSome) = after := by
    rw [List.filter_append, List.filter_eq_nil_iff.2 (by simpa using hbefore),
      List.filter_eq_self.2 hafter, List.nil_append]
  rw [hfilter] at hlength ⊢
  rw [List.map_append, List.nodup_append] at hnames
  obtain ⟨-, hnames, happart⟩ := hnames
  have hnone : ∀ p ∈ before, (((after.map (·.name)).zip vs).lookup p.name) = none := fun p hp =>
    lookup_zip_of_notMem (fun hmem => happart _ (List.mem_map_of_mem hp) _ hmem rfl) vs
  have hsome := map_lookup_zip hnames hlength
  rw [List.map_map] at hsome
  rw [List.length_map] at hlength
  unfold alignDefaults
  rw [List.map_append, List.map_congr_left hnone, List.map_const', List.length_append, hlength,
    Nat.add_sub_cancel, List.take_of_length_le (by omega), ← hsome]
  rfl

end Signatures

section Layout

variable {module : List Stmt} {root s inner : Scope} {outer : List Scope}

theorem orderly_of_comes {loops : List Loop} {stmts : List Stmt} {d e : Draft} {t : Stmt}
    (hcomes : Comes s loops stmts d t e) (h : BodyOrderly stmts) : t.Orderly := by
  induction hcomes with
  | here => exact h.1
  | next _ _ ih => exact ih h.2
  | body _ _ ih => exact ih h.1.1
  | orelse _ _ _ _ ih => exact ih h.1.2
  | loop _ _ ih | each _ _ ih => exact ih h.1

/-- The parameters of every definition that generation comes to are in order. -/
theorem orderly_of_enters {stmts : List Stmt} {start : Draft}
    (henters : Enters module s stmts start) (h : BodyOrderly module) : BodyOrderly stmts := by
  induction henters with
  | module => exact h
  | inner _ hcomes hopens ih =>
    have hstmt := orderly_of_comes hcomes ih
    cases hopens with
    | define => exact hstmt.2
    | classDef => exact hstmt

/-- The code of a function has its parameters in the first slots, and records which of them live in
cells. -/
structure Lays (params : Params) (code : Object) : Prop where
  argCount : code.argCount = params.positional.length
  keywordOnlyCount : code.keywordOnlyCount = params.keywordOnly.length
  takesRest : code.flags.takesRest = params.rest.isSome
  takesRestKeywords : code.flags.takesRestKeywords = params.restKeywords.isSome
  varnames : slotOrder params <+: code.varnames.toList
  records : Records code (slotOrder params)

theorem nodup_cellParams (s : Scope) : ((cellParams s).map Prod.snd).Nodup := by
  have hslots : (s.facts.params.zipIdx.map Prod.snd).Nodup := by
    rw [List.zipIdx_map_snd]
    exact List.nodup_range'
  have hrecorded : ∀ {p : Name × Nat} {m : Nat × Nat}, (if s.symbol p.1 = .cell then
      ((s.cells ++ s.free).idxOf? p.1).map fun cell => (cell, p.2) else none) = some m →
      m.2 = p.2 := by
    intro p m h
    split at h
    · obtain ⟨cell, -, rfl⟩ := Option.map_eq_some_iff.1 h
      rfl
    · cases h
  refine List.pairwise_map.2 (List.pairwise_filterMap.2 ?_)
  refine (List.pairwise_map.1 hslots).imp fun hne m hm m' hm' heq => hne ?_
  rw [← hrecorded hm, ← hrecorded hm', heq]

/-- A name of a function lives in a cell of its own if it is among the cells. -/
theorem symbol_eq_cell_iff (h : Lexical.analyze module = .ok root)
    (hnested : Nested root (s :: outer)) (hkind : s.facts.kind = .functionBody) {p : Name} :
    s.symbol p = .cell ↔ p ∈ s.cells := by
  refine ⟨mem_cells_of_symbol, fun hcell => ?_⟩
  obtain ⟨b, hs⟩ := hnested.resolves h
  obtain ⟨⟨-, hlocal⟩, -⟩ := hs.mem_cells.1 hcell
  have hsymbol := Lexical.symbol_own h hnested hkind (Lexical.Facts.mem_localNames.1 hlocal)
  rwa [if_pos hcell] at hsymbol

theorem lays_of_compiled (h : Lexical.analyze module = .ok root)
    (hnested : Nested root (inner :: outer)) (hkind : inner.facts.kind = .functionBody)
    {params : Params} (hparams : inner.facts.params = slotOrder params)
    (hdistinct : (slotOrder params).Nodup) {body : List Stmt} {draft : Draft} {span : Text.Span}
    {name : Name} {isNested : Bool} {code : Object}
    (hblock : block inner [] body (Draft.startFunction inner) = .ok ((), draft))
    (hfinish : finish draft span (functionObject inner name params isNested) = .ok code) :
    Lays params code := by
  obtain ⟨hcells, hfree⟩ := derefNames_of_compiledIn ⟨body, draft, span, _, .inl hblock, hfinish⟩
  have hunit : InUnit inner (Draft.startFunction inner) (Draft.startFunction inner) code :=
    ⟨grows_startFunction inner, draft, span, _,
      (lowers_block (n := 0) body (iteratorOn_nil []) hblock).1.toGrows, hfinish⟩
  obtain ⟨-, place, hends⟩ := hunit.ends (.refl _)
  have hslot : ∀ (i : Nat) p, (slotOrder params)[i]? = some p → code.varnames[i]? = some p :=
    fun i p hp => hends.varnames i p (varnames_startFunction (hparams ▸ hdistinct) (hparams ▸ hp))
  have hobject : code.argCount = params.positional.length ∧
      code.keywordOnlyCount = params.keywordOnly.length ∧
      code.flags.takesRest = params.rest.isSome ∧
      code.flags.takesRestKeywords = params.restKeywords.isSome ∧
      code.cellParams = cellParams inner := by
    unfold finish at hfinish
    dsimp only at hfinish
    split at hfinish
    · cases hfinish
      exact ⟨rfl, rfl, rfl, rfl, rfl⟩
    · cases hfinish
  obtain ⟨hargs, hkeywordOnly, hrest, hrestKeywords, hcellParams⟩ := hobject
  refine ⟨hargs, hkeywordOnly, hrest, hrestKeywords, ?_, ⟨fun {cell slot} => ?_, ?_⟩⟩
  · refine List.prefix_iff_getElem?.2 fun i hi => ?_
    rw [Array.getElem?_toList]
    exact hslot i _ (List.getElem?_eq_getElem hi)
  · rw [hcellParams, mem_cellParams, hparams, hcells, Object.derefNames, hcells, hfree]
    refine exists_congr fun p => and_congr_right fun _ => ?_
    rw [symbol_eq_cell_iff h hnested hkind]
  · rw [hcellParams]
    exact nodup_cellParams inner

theorem generate_discard {α : Type} {g : Generate α} {a : α} {d e : Draft}
    (h : g d = .ok (a, e)) : (g >>= fun _ => pure ()) d = .ok ((), e) := by
  change (g d >>= fun r => pure ((), r.2)) = _
  rw [h]
  rfl

theorem codeCount_functionHead {params : Params} {span : Text.Span} {d e : Draft}
    {r : Bool × Bool × Scope} (h : functionHead s params span d = .ok (r, e)) :
    e.builder.codeCount = d.builder.codeCount := by
  obtain ⟨defaults, d₁, hdefaults, h⟩ := Generates.generate_bind_eq_ok h
  obtain ⟨keywords, d₂, hkeywords, h⟩ := Generates.generate_bind_eq_ok h
  obtain ⟨scope, d₃, hscope, h⟩ := Generates.generate_bind_eq_ok h
  cases h
  have hpositional : Lowers False 0
      (positionalDefaults s params.positional >>= fun _ => pure ()) 0 []
      (fun _ => positionalTuple 0 s params.positional >>= fun part => pure part)
      fun part => (none, part.1.toList ++ []) :=
    lowers_positionalDefaults fun part => lowers_nothing rfl
  have hkeywordOnly : Lowers False 0
      (keywordDefaults s params.keywordOnly >>= fun _ => pure ()) 0 []
      (fun _ => keywordDict 0 s params.keywordOnly >>= fun part => pure part)
      fun part => (none, part.1.toList ++ []) :=
    lowers_keywordDefaults fun part => lowers_nothing rfl
  have hnext : e.builder = d₂.builder := by
    unfold Generate.nextScope at hscope
    split at hscope
    · cases hscope
      rfl
    · cases hscope
  rw [hnext, (hkeywordOnly (generate_discard hkeywords)).2.1,
    (hpositional (generate_discard hdefaults)).2.1]
  rfl

theorem lift_eq_ok {α : Type} {x : Except CompileError α} {a : α} {d e : Draft}
    (h : (liftM x : Generate α) d = .ok (a, e)) : x = .ok a ∧ e = d := by
  cases x with
  | error fault => cases h
  | ok b =>
    cases h
    exact ⟨rfl, rfl⟩

theorem lays_of_comes (h : Lexical.analyze module = .ok root) {stmts : List Stmt} {start : Draft}
    (hentered : Code.Entered root s stmts start) {name : Name} {params : Params} {body : List Stmt}
    {isAsync : Bool} {span : Text.Span} {d d' : Draft} {loops : List Loop} {c : Object}
    (hcomes : Comes s [] stmts start (.define name params body isAsync span) d)
    (hdistinct : (slotOrder params).Nodup)
    (hcompile : statement s loops (.define name params body isAsync span) d = .ok ((), d'))
    (hunit : InUnit s d d' c) {g : Frame} (hg : g.code.object = c) :
    Lays params (innerCode d.builder.codeCount g).object := by
  have hdefined : Lowers False 0 (statement s loops (.define name params body isAsync span)) 1 []
      (define 0 s name params) fun _ => (none, []) := lowers_define
  have hextends := (hdefined hcompile).1
  rw [statement_define] at hcompile
  obtain ⟨⟨defaults, keywords, inner⟩, e, hhead, hrest⟩ := Generates.generate_bind_eq_ok hcompile
  obtain ⟨⟨⟨⟩, draft⟩, e₁, hblock, hrest₁⟩ := Generates.generate_bind_eq_ok hrest
  obtain ⟨code, e₂, hfinish, hrest₂⟩ := Generates.generate_bind_eq_ok hrest₁
  obtain ⟨⟨⟩, e₃, hmake, hstore⟩ := Generates.generate_bind_eq_ok hrest₂
  obtain ⟨hbody, rfl⟩ := lift_eq_ok hblock
  obtain ⟨hcode, rfl⟩ := lift_eq_ok hfinish
  obtain ⟨outer, hnested⟩ := hentered.nested
  obtain ⟨hmem, hblocks⟩ :=
    block_of_opens h hnested (hentered.awaited h hcomes) (.define hhead)
  have hfacts := congrArg Lexical.Block.facts (List.cons.inj hblocks).1
  rw [Lexical.block_eq] at hfacts
  obtain ⟨-, place, hends⟩ := hunit.ends hextends.toGrows
  have hstored : Computes False 0 (Generate.storeName s name span) [default] (.bindName name default
      (writeName s name default)) fun _ => [] := computes_storeName
  -- The defaults are evaluated before, and hold no code that would be counted first.
  have hinner : (innerCode d.builder.codeCount g).object = code := by
    rw [← codeCount_functionHead hhead]
    exact innerCode_of_makeFunction hmake ((hstored hstore).1.ends (hg ▸ hends))
  rw [hinner]
  have hkind : inner.facts.kind = .functionBody := congrArg Lexical.Facts.kind hfacts.symm
  have hparams : inner.facts.params = slotOrder params :=
    congrArg Lexical.Facts.params hfacts.symm
  exact lays_of_compiled h (hnested.inner hmem) hkind hparams hdistinct hbody hcode

end Layout

section Calls

variable {params : Params} {vs : List Value} {ws : List (Name × Value)}

theorem nodup_of_orderly (h : params.Orderly) : (params.positional.map (·.name)).Nodup ∧
    (params.keywordOnly.map (·.name)).Nodup := by
  have hdistinct := h.distinct
  rw [slotOrder, List.append_assoc] at hdistinct
  obtain ⟨hpositional, hkeywordOnly, -⟩ := List.nodup_append.1 (List.nodup_append.1 hdistinct).1
  exact ⟨hpositional, hkeywordOnly⟩

theorem isSome_lookup {own : List (Name × Value)} {name : Name} :
    (own.lookup name).isSome = true ↔ name ∈ own.map Prod.fst := by
  rw [List.lookup_isSome_iff, List.mem_map]
  exact exists_congr fun p => and_congr_right fun _ => beq_iff_eq.trans eq_comm

theorem get?_ofList {own : List (Name × Value)} (hown : (own.map Prod.fst).Nodup) (name : Name) :
    (OrderedMap.ofList own).get? name = own.lookup name := by
  have hentries : OrderedMap.ofList own = ⟨own⟩ := OrderedMap.ofList_entries (m := ⟨own⟩) hown
  rw [hentries]
  clear hentries hown
  induction own with
  | nil => rfl
  | cons e own ih =>
    change (if (e.1 == name) = true then some e.2 else OrderedMap.findIn name own) = _
    rw [List.lookup_cons, ← ih, BEq.comm]
    cases name == e.1 <;> rfl

/-- Values that were found for the defaults are there for just the parameters that have some. -/
theorem isSome_lookup_own {ps : List Param} {own : List (Name × Value)}
    (hps : (ps.map (·.name)).Nodup) (hown : own.map Prod.fst = (namedDefaults ps).map Prod.fst) :
    ps.map (fun p => (own.lookup p.name).isSome) = ps.map (·.default.isSome) := by
  refine List.map_congr_left fun p hp => Bool.eq_iff_iff.2 ?_
  rw [isSome_lookup, hown, map_fst_namedDefaults, List.mem_map]
  constructor
  · rintro ⟨q, hq, hname⟩
    obtain ⟨hq, hdefault⟩ := List.mem_filter.1 hq
    rwa [← List.inj_on_of_nodup_map hps hq hp hname]
  · exact fun hdefault => ⟨p, List.mem_filter.2 ⟨hp, hdefault⟩, rfl⟩

theorem has_signatureOf {f : FunctionValue} (horderly : params.Orderly)
    (hlays : Lays params f.code.object) (hdefaults : f.defaults = vs)
    (hkeywordDefaults : f.keywordDefaults = .ofList ws)
    (hvs : vs.length = ((namedDefaults params.positional).map Prod.fst).length)
    (hws : ws.map Prod.fst = (namedDefaults params.keywordOnly).map Prod.fst) :
    f.Has (signatureOf params vs ws) := by
  obtain ⟨hpositional, hkeywordOnly⟩ := nodup_of_orderly horderly
  constructor
  case argCount => rw [hlays.argCount, signatureOf, List.length_map]
  case keywordOnlyCount => rw [hlays.keywordOnlyCount, signatureOf, List.length_map]
  case takesRest => exact hlays.takesRest
  case takesRestKeywords => exact hlays.takesRestKeywords
  case varnames => exact slotNames_signatureOf ▸ hlays.varnames
  case distinct => exact slotNames_signatureOf ▸ horderly.distinct
  case defaults =>
    rw [hdefaults, signatureOf, List.length_map, List.map_map,
      alignDefaults_eq hpositional horderly.defaultsLast hvs]
    rfl
  case keywordDefaults =>
    intro p hp
    obtain ⟨param, -, rfl⟩ := List.mem_map.1 hp
    have hnames : (ws.map Prod.fst).Nodup := by
      rw [hws, map_fst_namedDefaults]
      exact hkeywordOnly.sublist (List.filter_sublist.map _)
    rw [hkeywordDefaults, get?_ofList hnames]

/-- The parameters of a signature have defaults if those of the definition do. -/
theorem isSome_default_signatureOf (horderly : params.Orderly)
    (hvs : vs.length = ((namedDefaults params.positional).map Prod.fst).length)
    (hws : ws.map Prod.fst = (namedDefaults params.keywordOnly).map Prod.fst) :
    (signatureOf params vs ws).named.map (·.default.isSome) =
      (params.positional ++ params.keywordOnly).map (·.default.isSome) := by
  obtain ⟨hpositional, hkeywordOnly⟩ := nodup_of_orderly horderly
  have hzip : (((namedDefaults params.positional).map Prod.fst).zip vs).map Prod.fst =
      (namedDefaults params.positional).map Prod.fst :=
    List.map_fst_zip (Nat.le_of_eq hvs.symm)
  rw [Signature.named, List.map_append, List.map_append, signatureOf, List.map_map, List.map_map,
    ← isSome_lookup_own hpositional hzip, ← isSome_lookup_own hkeywordOnly hws]
  rfl

/-- Arguments are bound as the definition of a function says. -/
theorem arguments_bound {source : String} {module : List Stmt}
    (hparse : Grammar.parse source = .ok module) {s : Scope} {stmts : List Stmt} {start : Draft}
    (henters : Enters module s stmts start) {name : Name} {params : Params} {body : List Stmt}
    {isAsync : Bool} {span : Text.Span} {d d' : Draft} {loops : List Loop} {c : Object}
    (hcomes : Comes s [] stmts start (.define name params body isAsync span) d)
    (hcompile : statement s loops (.define name params body isAsync span) d = .ok ((), d'))
    (hunit : InUnit s d d' c) {n : Nat} {g g' : Frame} {st u : Store} {f : FunctionValue}
    (hg : g.code.object = c)
    (hmade : (makeDefined n s params d.builder.codeCount g st).Comes (.function f) g' u) :
    ∃ vs ws, DefaultsCome n s params g st vs ws ∧
      (signatureOf params vs ws).named.map (·.default.isSome) =
        (params.positional ++ params.keywordOnly).map (·.default.isSome) ∧
      ∀ args keywords t,
        ((signatureOf params vs ws).Refuses args keywords →
          IsTypeError (enterFunction f args keywords t)) ∧
        (¬ (signatureOf params vs ws).Refuses args keywords →
          ∃ e w, enterFunction f args keywords t = .ok e w ∧ e.code = f.code ∧
            Binds (signatureOf params vs ws) args keywords e w) := by
  obtain ⟨root, hroot, hentered⟩ := henters.entered (Grammar.parse_assignable hparse)
  obtain ⟨horderly, -⟩ :=
    orderly_of_comes hcomes (orderly_of_enters henters (Grammar.parse_orderly hparse))
  have hlays := lays_of_comes hroot hentered hcomes horderly.distinct hcompile hunit hg
  obtain ⟨vs, ws, hcome, hcode, hdefaults, hkeywordDefaults⟩ :=
    makeDefined_comes (nodup_of_orderly horderly).2 hmade
  rw [← hcode] at hlays
  obtain ⟨hvs, hws⟩ := hcome.lengths
  have hhas := has_signatureOf horderly hlays hdefaults hkeywordDefaults hvs hws
  have hrecords : Records f.code.object (signatureOf params vs ws).slotNames :=
    slotNames_signatureOf ▸ hlays.records
  refine ⟨vs, ws, hcome, isSome_default_signatureOf horderly hvs hws, fun args keywords t => ?_⟩
  rcases enterFunction_spec hhas hrecords args keywords t with ⟨hfine, hentered⟩ | ⟨hbad, herror⟩
  · exact ⟨fun hbad => absurd hbad hfine, fun _ => hentered⟩
  · exact ⟨fun _ => herror, fun hfine => absurd hbad hfine⟩

/-- The first definition of a module, compiled by itself and carried out: the module, its scope and
its draft, the code, and the function with the store that it was made in. -/
structure FirstFunction where
  stmt : Stmt
  others : List Stmt
  params : Params
  root : Scope
  draft : Draft
  code : Object
  function : FunctionValue
  store : Store

def firstFunction (source : String) : Option FirstFunction := do
  let stmt :: others ← (Grammar.parse source).toOption | none
  let .define _ params _ _ _ := stmt | none
  let root ← (Lexical.analyze (stmt :: others)).toOption
  let (_, draft) ← (statement root [] stmt (Draft.start root)).toOption
  let code ← (finish draft .origin { name := "", qualname := "" }).toOption
  let .ended (.ok (.function function)) _ store _ :=
    makeDefined 9 root params (Draft.start root).builder.codeCount (unitFrame code) {} | none
  return { stmt, others, params, root, draft, code, function, store }

def scaling : String :=
  "def scale(x, by=2, *rest, unit, digits=3, **more) { def inner() { return x }; return inner }"

/-- A call with surplus arguments of both kinds binds the parameters, and the first one lives in a
cell. -/
def FirstFunction.callBinds (u : FirstFunction) : Bool :=
  match enterFunction u.function [.int 1, .int 2, .int 5] [("other", .int 6), ("unit", .int 4)]
      u.store with
  | .ok e _ => "x" ∈ e.code.object.cellvars
  | .error .. => false

/-- The hypotheses about compiling and carrying out the first definition of a module. -/
theorem made_firstFunction {source : String} {u : FirstFunction}
    (h : firstFunction source = some u) : ∃ name body isAsync span,
      u.stmt = .define name u.params body isAsync span ∧
      Grammar.parse source = .ok (u.stmt :: u.others) ∧
      Lexical.analyze (u.stmt :: u.others) = .ok u.root ∧
      statement u.root [] u.stmt (Draft.start u.root) = .ok ((), u.draft) ∧
      finish u.draft .origin { name := "", qualname := "" } = .ok u.code ∧
      ∃ g, (makeDefined 9 u.root u.params (Draft.start u.root).builder.codeCount
        (unitFrame u.code) {}).Comes (.function u.function) g u.store := by
  unfold firstFunction at h
  simp only [Option.bind_eq_bind, Option.bind_eq_some_iff] at h
  obtain ⟨module, hmodule, h⟩ := h
  split at h
  case h_2 => cases h
  split at h
  case h_2 => cases h
  simp only [Option.bind_eq_some_iff] at h
  obtain ⟨root, hroot, ⟨⟨⟩, draft⟩, hdraft, code, hcode, h⟩ := h
  split at h
  case h_2 => cases h
  rename_i function g store ds htold
  cases h
  refine ⟨_, _, _, _, rfl, eq_ok_of_toOption hmodule, eq_ok_of_toOption hroot,
    eq_ok_of_toOption hdraft, eq_ok_of_toOption hcode, g, ?_⟩
  dsimp only
  rw [htold]
  exact .ended

theorem arguments_bound_scaling : ∃ u e w,
    firstFunction scaling = some u ∧
    IsTypeError (enterFunction u.function [.int 1] [("unit", .int 4), ("unit", .int 5)] u.store) ∧
    enterFunction u.function [.int 1, .int 2, .int 5] [("other", .int 6), ("unit", .int 4)]
      u.store = .ok e w ∧
    "x" ∈ e.code.object.cellvars ∧ Holds e w "x" (.int 1) := by
  have hbinds : ((firstFunction scaling).any fun u =>
      u.callBinds && u.params.positional.map (·.name) == ["x", "by"]) = true := by
    decide +kernel
  obtain ⟨u, hu, hbinds⟩ := (Option.any_eq_true _ _).1 hbinds
  obtain ⟨hcall, hnames⟩ := Bool.and_eq_true_iff.1 hbinds
  obtain ⟨name, body, isAsync, span, hstmt, hparse, hroot, hcompile, hfinish, g, hmade⟩ :=
    made_firstFunction hu
  have hunit : InUnit u.root (Draft.start u.root) u.draft u.code :=
    ⟨.refl _, u.draft, .origin, _, .refl _, hfinish⟩
  rw [hstmt] at hparse hroot hcompile
  obtain ⟨vs, ws, -, -, hcalls⟩ :=
    arguments_bound hparse (.module hroot) .here hcompile hunit rfl hmade
  unfold FirstFunction.callBinds at hcall
  split at hcall
  case h_2 => cases hcall
  rename_i e w henter
  obtain ⟨hrefused, hbound⟩ := hcalls [.int 1, .int 2, .int 5]
    [("other", .int 6), ("unit", .int 4)] u.store
  have hfine : ¬ (signatureOf u.params vs ws).Refuses [.int 1, .int 2, .int 5]
      [("other", .int 6), ("unit", .int 4)] := by
    intro hbad
    obtain ⟨message, t, herror⟩ := hrefused hbad
    cases henter.symm.trans herror
  obtain ⟨e', w', henter', -, hbinds⟩ := hbound hfine
  cases henter.symm.trans henter'
  refine ⟨u, e, w, hu, (hcalls _ _ _).1 (.repeated (by decide)), henter,
    of_decide_eq_true hcall, ?_⟩
  obtain ⟨p, ps, hpositional⟩ := List.exists_cons_of_ne_nil (l := u.params.positional)
    fun hnil => by simp [hnil] at hnames
  obtain ⟨hname, -⟩ : p.name = "x" ∧ ps.map (·.name) = ["by"] := by
    simpa [hpositional] using hnames
  obtain ⟨v, hv, hholds⟩ := hbinds.positional 0
    ⟨p.name, (((namedDefaults u.params.positional).map Prod.fst).zip vs).lookup p.name⟩
    (by rw [signatureOf, List.getElem?_map, hpositional]; rfl)
  cases hv
  rwa [hname] at hholds

end Calls

end Lexiscope.Meaning
