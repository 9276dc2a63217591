import Lexiscope.Proofs.Meaning.Calls
/-!
# The defaults of parameters

A definition evaluates the defaults of its parameters once. The function keeps them: those of the
positional parameters in a row, those of the keyword-only ones under their names.
-/

namespace Lexiscope.Meaning

open Machine Exec
open Code
open Grammar (Expr Param Params)
open Lexical (Scope)

/-- After however many times that it has yielded and was resumed, the part of the body came to its
end with something in a frame and a store. -/
inductive Told.Comes {α : Type} : Told α → α → Frame → Store → Prop where
  | ended {a f s ds} : Comes (.ended (.ok a) f s ds) a f s
  | resumed {v g left ds back a f s} (t : Store) : Comes (back t) a f s →
    Comes (.yielded v g left ds back) a f s

namespace Told

variable {α β : Type} {a : α} {b : β} {f g : Frame} {s u : Store}

theorem Comes.of_after {ds : List Deed} {t : Told α} (h : (t.after ds).Comes a f s) :
    t.Comes a f s := by
  cases t with
  | ended r g u es =>
    cases h
    exact .ended
  | yielded v g left es back =>
    cases h with
    | resumed t h => exact .resumed t h

theorem Comes.of_bind {t : Told α} {k : α → Frame → Store → Told β}
    (h : (t.bind k).Comes b g u) : ∃ a f s, t.Comes a f s ∧ (k a f s).Comes b g u := by
  induction t with
  | ended r f s ds =>
    cases r with
    | ok a => exact ⟨a, f, s, .ended, h.of_after⟩
    | error stop => cases h
  | yielded v f left ds back ih =>
    cases h with
    | resumed t h =>
      obtain ⟨a, f, s, ha, hk⟩ := ih t h
      exact ⟨a, f, s, .resumed t ha, hk⟩

end Told

namespace Tale

variable {α β : Type} {a : α} {b : β} {f g : Frame} {s u : Store}

theorem comes_bind {x : Tale α} {y : α → Tale β} (h : ((x >>= y) f s).Comes b g u) :
    ∃ a f' s', (x f s).Comes a f' s' ∧ (y a f' s').Comes b g u :=
  Told.Comes.of_bind h

theorem comes_pure {a' : α} (h : ((pure a : Tale α) f s).Comes a' g u) :
    a' = a ∧ g = f ∧ u = s := by
  cases h
  exact ⟨rfl, rfl, rfl⟩

theorem comes_silently {x : Frame → Exec α} (h : (silently x f s).Comes a g u) :
    x f s = .ok a u ∧ g = f := by
  unfold silently at h
  split at h
  · rename_i hx
    cases h
    exact ⟨hx, rfl⟩
  · cases h

end Tale

section Frames

/-- No name is bound: the frame is the same at every end. -/
def Tale.BindsNone {α : Type} (x : Tale α) : Prop :=
  ∀ f st a g u, (x f st).Comes a g u → g = f

variable {α β : Type} {n : Nat} {s : Scope}

theorem bindsNone_pure (a : α) : (pure a : Tale α).BindsNone := by
  intro f st b g u h
  cases h
  rfl

theorem bindsNone_silently (x : Frame → Exec α) : (Tale.silently x).BindsNone :=
  fun _ _ _ _ _ h => (Tale.comes_silently h).2

theorem bindsNone_after {x : Tale α} (hx : x.BindsNone) (ds : List Deed) :
    (x.after ds).BindsNone :=
  fun f st a g u h => hx f st a g u h.of_after

theorem bindsNone_doing (d : Deed) (x : Exec α) : (Tale.doing d x).BindsNone :=
  bindsNone_after (bindsNone_silently _) _

theorem bindsNone_truth (v : Value) : (Tale.truth v).BindsNone := by
  intro f st b g u h
  cases h
  rfl

theorem bindsNone_yields (v : Value) : (Tale.yields v).BindsNone := by
  intro f st w g u h
  cases h with
  | resumed t h =>
    cases h
    rfl

theorem Tale.BindsNone.bind {x : Tale α} {y : α → Tale β} (hx : x.BindsNone)
    (hy : ∀ a, (y a).BindsNone) : (x >>= y).BindsNone := by
  intro f st b g u h
  obtain ⟨a, f', st', ha, hb⟩ := Tale.comes_bind h
  obtain rfl := hx f st a f' st' ha
  exact hy a _ st' b g u hb

mutual

theorem bindsNone_evaluate : (e : Expr) → (evaluate n s e).BindsNone
  | .none _ | .ellipsis _ | .bool .. | .int .. | .float .. => by
    unfold evaluate
    exact bindsNone_pure _
  | .str text _ => by
    unfold evaluate
    exact bindsNone_silently _
  | .name name _ => by
    unfold evaluate
    exact bindsNone_after (bindsNone_silently _) _
  | .list items _ | .tuple items _ => by
    unfold evaluate
    exact (bindsNone_evaluateAll items).bind fun vs => bindsNone_silently _
  | .dict items _ => by
    unfold evaluate
    exact (bindsNone_evaluateEntries items).bind fun vs => bindsNone_silently _
  | .member value _ _ | .unary _ value _ => by
    unfold evaluate
    exact (bindsNone_evaluate value).bind fun v => bindsNone_doing _ _
  | .subscript left right _ | .binary _ left right _ | .compare _ left right _ => by
    unfold evaluate
    refine (bindsNone_evaluate left).bind fun v => (bindsNone_evaluate right).bind fun w => ?_
    exact bindsNone_doing _ _
  | .call callee args keywords _ => by
    unfold evaluate
    refine (bindsNone_evaluate callee).bind fun f => (bindsNone_evaluateAll args).bind fun vs => ?_
    refine (bindsNone_evaluateKeywords keywords).bind fun ws => ?_
    dsimp only
    split
    · exact bindsNone_doing _ _
    · exact (bindsNone_silently _).bind fun _ => bindsNone_doing _ _
  | .boolean _ left right _ => by
    unfold evaluate
    refine (bindsNone_evaluate left).bind fun v => (bindsNone_truth v).bind fun b => ?_
    split
    · exact bindsNone_pure v
    · exact bindsNone_evaluate right
  | .conditional test body orelse _ => by
    unfold evaluate
    refine (bindsNone_evaluate test).bind fun v => (bindsNone_truth v).bind fun b => ?_
    split
    · exact bindsNone_evaluate body
    · exact bindsNone_evaluate orelse
  | .yield value _ => by
    unfold evaluate
    cases value with
    | none => exact (bindsNone_pure _).bind fun v => bindsNone_yields v
    | some value => exact (bindsNone_evaluate value).bind fun v => bindsNone_yields v
  | .await value _ => by
    unfold evaluate
    exact (bindsNone_evaluate value).bind fun v => bindsNone_silently _

theorem bindsNone_evaluateAll : (es : List Expr) → (evaluateAll n s es).BindsNone
  | [] => by
    unfold evaluateAll
    exact bindsNone_pure _
  | e :: es => by
    unfold evaluateAll
    refine (bindsNone_evaluate e).bind fun v => (bindsNone_evaluateAll es).bind fun vs => ?_
    exact bindsNone_pure _

theorem bindsNone_evaluateEntries : (es : List (Expr × Expr)) → (evaluateEntries n s es).BindsNone
  | [] => by
    unfold evaluateEntries
    exact bindsNone_pure _
  | (key, value) :: es => by
    unfold evaluateEntries
    refine (bindsNone_evaluate key).bind fun k => (bindsNone_evaluate value).bind fun v => ?_
    exact (bindsNone_evaluateEntries es).bind fun vs => bindsNone_pure _

theorem bindsNone_evaluateKeywords : (es : List (Name × Expr)) →
    (evaluateKeywords n s es).BindsNone
  | [] => by
    unfold evaluateKeywords
    exact bindsNone_pure _
  | (_, value) :: es => by
    unfold evaluateKeywords
    refine (bindsNone_evaluate value).bind fun v => ?_
    exact (bindsNone_evaluateKeywords es).bind fun vs => bindsNone_pure _

end

theorem bindsNone_evaluateNamed (es : List (Name × Expr)) : (evaluateNamed n s es).BindsNone := by
  induction es with
  | nil => exact bindsNone_pure _
  | cons e es ih =>
    refine (bindsNone_silently _).bind fun key => (bindsNone_evaluate e.2).bind fun v => ?_
    exact ih.bind fun vs => bindsNone_pure _

end Frames

section Evaluation

variable {n : Nat} {s : Scope} {f g : Frame} {st u : Store}

theorem positionalTuple_comes {params : List Param} {part : PartOf _}
    (h : (positionalTuple n s params f st).Comes part g u) : ∃ vs t next,
      (evaluateAll n s (params.filterMap (·.default)) f st).Comes vs g t ∧ u = { t with next } ∧
        readPart [] defaultsOf part.1 = pure vs.toList := by
  unfold positionalTuple at h
  generalize params.filterMap (·.default) = es at part h ⊢
  unfold unlessAbsent at h
  cases es with
  | nil =>
    cases h
    exact ⟨.nil, _, _, .ended, rfl, rfl⟩
  | cons e es =>
    obtain ⟨v, g', t, hv, h⟩ := Tale.comes_bind h
    obtain ⟨vs, g'', t', hvs, htuple⟩ := Tale.comes_bind hv
    obtain ⟨rfl, rfl, rfl⟩ := Tale.comes_pure h
    obtain ⟨htuple, rfl⟩ := Tale.comes_silently htuple
    cases htuple
    exact ⟨vs, t', t'.next + 1, hvs, rfl, rfl⟩

def flatten : List (Str × Value) → List Value
  | [] => []
  | (text, v) :: rest => .str text :: v :: flatten rest

theorem flatten_injective : Function.Injective flatten := by
  intro pairs
  induction pairs with
  | nil =>
    intro pairs' h
    cases pairs' with
    | nil => rfl
    | cons p pairs' => cases h
  | cons p pairs ih =>
    intro pairs' h
    cases pairs' with
    | nil => cases h
    | cons p' pairs' =>
      obtain ⟨htext, hrest⟩ := List.cons.inj h
      obtain ⟨hvalue, hrest⟩ := List.cons.inj hrest
      rw [Prod.ext (Value.str.inj htext) hvalue, ih hrest]

def byName (pairs : List (Str × Value)) : List (Name × Value) := pairs.map fun p => (p.1.text, p.2)

theorem evaluateNamed_comes {es : List (Name × Expr)} {flat : List.Vector Value (2 * es.length)}
    (h : (evaluateNamed n s es f st).Comes flat g u) :
    ∃ pairs, flat.toList = flatten pairs ∧ pairs.map (·.1.text) = es.map Prod.fst := by
  induction es generalizing f st g u with
  | nil =>
    obtain ⟨rfl, -, -⟩ := Tale.comes_pure h
    exact ⟨[], rfl, rfl⟩
  | cons e es ih =>
    obtain ⟨key, g₁, t₁, hkey, h⟩ := Tale.comes_bind h
    obtain ⟨v, g₂, t₂, -, h⟩ := Tale.comes_bind h
    obtain ⟨rest, g₃, t₃, hrest, h⟩ := Tale.comes_bind h
    obtain ⟨rfl, -, -⟩ := Tale.comes_pure h
    obtain ⟨text, rfl, htext⟩ : ∃ text : Str, key = .str text ∧ text.text = e.1 := by
      obtain ⟨hkey, -⟩ := Tale.comes_silently hkey
      cases hkey
      exact ⟨_, rfl, rfl⟩
    obtain ⟨pairs, hflat, hnames⟩ := ih hrest
    refine ⟨(text, v) :: pairs, ?_, ?_⟩
    · change _ :: v :: rest.toList = _
      rw [hflat]
      rfl
    · rw [List.map_cons, List.map_cons, hnames, htext]

theorem entriesOfFlat_flatten (m : OrderedMap Key Value) (pairs : List (Str × Value))
    (hnew : ∀ p ∈ pairs, ∀ e ∈ m.entries, (e.1 == Key.str p.1) = false)
    (hdistinct : (pairs.map (·.1.text)).Nodup) :
    entriesOfFlat m (flatten pairs) =
      pure ⟨m.entries ++ pairs.map fun p => (Key.str p.1, p.2)⟩ := by
  induction pairs generalizing m with
  | nil =>
    unfold flatten entriesOfFlat
    simp
  | cons p pairs ih =>
    obtain ⟨hhead, htail⟩ := List.forall_mem_cons.1 hnew
    rw [List.map_cons, List.nodup_cons] at hdistinct
    have hinsert : m.insert (Key.str p.1) p.2 = ⟨m.entries ++ [(Key.str p.1, p.2)]⟩ :=
      congrArg OrderedMap.mk (OrderedMap.insertIn_of_forall_ne p.2 hhead)
    have hrest := ih ⟨m.entries ++ [(Key.str p.1, p.2)]⟩ (fun q hq e he => ?_) hdistinct.2
    · unfold flatten entriesOfFlat
      change (do entriesOfFlat (m.insert (← pure (Key.str p.1)) p.2) (flatten pairs)) = _
      rw [pure_bind, hinsert, hrest]
      simp
    · rcases List.mem_append.1 he with he | he
      · exact htail q hq e he
      · obtain rfl := List.mem_singleton.1 he
        have hsame : (Key.str p.1 == Key.str q.1) = (p.1.text == q.1.text) := by
          change Key.same _ _ = _
          rw [Key.same]
        rw [hsame]
        refine beq_false_of_ne fun heq => hdistinct.1 ?_
        exact List.mem_map.2 ⟨q, hq, heq.symm⟩

theorem map_snd_namedDefaults (params : List Param) :
    (namedDefaults params).map Prod.snd = params.filterMap (·.default) := by
  rw [namedDefaults, List.map_filterMap]
  refine List.filterMap_congr fun p _ => ?_
  rw [Option.map_map]
  exact Option.map_id'

theorem map_fst_namedDefaults (params : List Param) : (namedDefaults params).map Prod.fst =
    (params.filter (·.default.isSome)).map (·.name) := by
  unfold namedDefaults
  induction params with
  | nil => rfl
  | cons p params ih =>
    cases hdefault : p.default with
    | none =>
      rw [List.filterMap_cons_none (by rw [hdefault]; rfl),
        List.filter_cons_of_neg (by simp [hdefault]), ih]
    | some d =>
      rw [List.filterMap_cons_some (by rw [hdefault]; rfl),
        List.filter_cons_of_pos (by simp [hdefault]), List.map_cons, List.map_cons, ih]

theorem keywordDict_comes {params : List Param} {part : PartOf _}
    (hdistinct : (params.map (·.name)).Nodup)
    (h : (keywordDict n s params f st).Comes part g u) : ∃ flat t pairs,
      (evaluateNamed n s (namedDefaults params) f st).Comes flat g t ∧ flat.toList = flatten pairs ∧
        pairs.map (·.1.text) = (namedDefaults params).map Prod.fst ∧
        ∀ w : Store, w.dicts = u.dicts →
          readPart .empty keywordDefaultsOf part.1 w = .ok (.ofList (byName pairs)) w := by
  have hnames : ((namedDefaults params).map Prod.fst).Nodup := by
    rw [map_fst_namedDefaults]
    exact hdistinct.sublist (List.filter_sublist.map _)
  unfold keywordDict at h
  generalize namedDefaults params = es at part h hnames ⊢
  unfold unlessAbsent at h
  cases es with
  | nil =>
    cases h
    exact ⟨.nil, _, [], .ended, rfl, rfl, fun _ _ => rfl⟩
  | cons e es =>
    obtain ⟨v, g', t, hv, h⟩ := Tale.comes_bind h
    obtain ⟨flat, g'', t', hflat, hdict⟩ := Tale.comes_bind hv
    obtain ⟨rfl, rfl, rfl⟩ := Tale.comes_pure h
    obtain ⟨hdict, rfl⟩ := Tale.comes_silently hdict
    obtain ⟨pairs, hpairs, htexts⟩ := evaluateNamed_comes hflat
    rw [hpairs, entriesOfFlat_flatten _ _ (by simp [OrderedMap.empty]) (htexts ▸ hnames),
      pure_bind] at hdict
    cases hdict
    refine ⟨flat, t', pairs, hflat, hpairs, htexts, fun w hw => ?_⟩
    have hentries : (w.dict ⟨t'.dicts.size⟩).entries =
        pairs.map fun p => (Key.str p.1, p.2) := by
      rw [Store.dict, hw, Likeness.getD_push, if_pos rfl]
      rfl
    change EStateM.Result.ok
      (OrderedMap.ofList ((w.dict ⟨t'.dicts.size⟩).entries.filterMap _)) w = _
    rw [hentries, List.filterMap_map]
    have hnamed : pairs.filterMap (some ∘ fun p => (p.1.text, p.2)) = byName pairs :=
      congrFun List.filterMap_eq_map pairs
    exact congrArg (fun names => EStateM.Result.ok (OrderedMap.ofList names) w) hnamed

end Evaluation

section Functions

variable {n k : Nat} {s : Scope} {f g : Frame} {st u : Store} {v : FunctionValue}

theorem cellsOf_same {t u : Store} : {names : List Name} →
    {rs : List.Vector CellRef names.length} → cellsOf names g t = .ok rs u → u = t
  | [], _, h => by
    cases h
    rfl
  | name :: names, rs, h => by
    obtain ⟨r, t', hr, h⟩ := bind_eq_ok h
    obtain ⟨rest, t'', hrest, h⟩ := bind_eq_ok h
    cases h
    have hcell : g.cells[cellOf g name]? = some r := cell_ok hr
    rw [cellsOf_same hrest]
    unfold Frame.cell at hr
    rw [hcell] at hr
    cases hr
    rfl

theorem closureOver_parts {defaults keywords : Option Value}
    (h : closureOver k defaults keywords g st = .ok (.function v) u) : ∃ w t t',
      v.code = innerCode k g ∧ w.dicts = st.dicts ∧
      readPart .empty keywordDefaultsOf keywords w = .ok v.keywordDefaults t ∧
      readPart [] defaultsOf defaults t = .ok v.defaults t' := by
  obtain ⟨rs, w, hrs, hrest⟩ := bind_eq_ok h
  obtain rfl := cellsOf_same hrs
  have hmade : ∃ w' : Store, w'.dicts = w.dicts ∧
      functionOf (innerCode k g) rs.toList defaults keywords g w' = .ok (.function v) u := by
    split at hrest
    · exact ⟨w, rfl, hrest⟩
    · obtain ⟨_, w', hidentity, h⟩ := bind_eq_ok hrest
      cases hidentity
      exact ⟨{ w with next := w.next + 1 }, rfl, h⟩
  obtain ⟨w', hdicts, hmade⟩ := hmade
  obtain ⟨keywordDefaults, t, hkeywords, h⟩ := bind_eq_ok hmade
  obtain ⟨values, t', hdefaults, h⟩ := bind_eq_ok h
  obtain ⟨id, t'', -, h⟩ := bind_eq_ok h
  cases h
  exact ⟨w', t, t', rfl, hdicts, hkeywords, hdefaults⟩

def makeDefined (n : Nat) (s : Scope) (params : Params) (k : Nat) : Tale Value := do
  let defaults ← positionalTuple n s params.positional
  let keywordDefaults ← keywordDict n s params.keywordOnly
  .silently (closureOver k defaults.1 keywordDefaults.1)

theorem define_eq (name : Name) (params : Params) : define n s name params k =
    makeDefined n s params k >>= fun function => .bindName name function
      (writeName s name function) := by
  simp only [define, makeDefined, Tale.bind_assoc]

/-- The defaults of a definition came to values: first those of positional parameters, then those of
keyword-only ones, under the names of the parameters. Between them an identity may be taken. -/
structure DefaultsCome (n : Nat) (s : Scope) (params : Params) (f : Frame) (st : Store)
    (vs : List Value) (ws : List (Name × Value)) : Prop where
  inOrder : ∃ values g t next flat g' t' pairs,
    (evaluateAll n s (params.positional.filterMap (·.default)) f st).Comes values g t ∧
    values.toList = vs ∧
    (evaluateNamed n s (namedDefaults params.keywordOnly) g { t with next }).Comes flat g' t' ∧
    flat.toList = flatten pairs ∧ byName pairs = ws

theorem DefaultsCome.lengths {params : Params} {vs : List Value} {ws : List (Name × Value)}
    (h : DefaultsCome n s params f st vs ws) :
    vs.length = ((namedDefaults params.positional).map Prod.fst).length ∧
      ws.map Prod.fst = (namedDefaults params.keywordOnly).map Prod.fst := by
  obtain ⟨values, g, t, next, flat, g', t', pairs, -, rfl, hflat, hpairs, rfl⟩ := h
  obtain ⟨pairs', hpairs', hnames⟩ := evaluateNamed_comes hflat
  obtain rfl := flatten_injective (hpairs'.symm.trans hpairs)
  refine ⟨?_, ?_⟩
  · rw [List.Vector.toList_length, List.length_map, ← map_snd_namedDefaults, List.length_map]
  · rw [← hnames, byName, List.map_map]
    rfl

theorem makeDefined_comes {params : Params}
    (hdistinct : (params.keywordOnly.map (·.name)).Nodup)
    (h : (makeDefined n s params k f st).Comes (.function v) g u) : ∃ vs ws,
      DefaultsCome n s params f st vs ws ∧ v.code = innerCode k f ∧ v.defaults = vs ∧
        v.keywordDefaults = .ofList ws := by
  obtain ⟨defaults, f₁, t₁, hdefaults, h⟩ := Tale.comes_bind h
  obtain ⟨keywords, f₂, t₂, hkeywords, hmade⟩ := Tale.comes_bind h
  obtain ⟨values, t, next, hvalues, rfl, hreadDefaults⟩ := positionalTuple_comes hdefaults
  obtain ⟨flat, t', pairs, hflat, hpairs, -, hreadKeywords⟩ := keywordDict_comes hdistinct hkeywords
  obtain rfl := bindsNone_evaluateAll _ _ _ _ _ _ hvalues
  obtain rfl := bindsNone_evaluateNamed _ _ _ _ _ _ hflat
  obtain ⟨w, x, y, hcode, hdicts, hkeywordDefaults, hvaluesRead⟩ :=
    closureOver_parts (Tale.comes_silently hmade).1
  rw [hreadKeywords w hdicts] at hkeywordDefaults
  rw [hreadDefaults] at hvaluesRead
  exact ⟨values.toList, byName pairs,
    ⟨values, f₂, t, next, flat, f₂, t', pairs, hvalues, rfl, hflat, hpairs, rfl⟩, hcode,
    (EStateM.Result.ok.inj hvaluesRead).1.symm, (EStateM.Result.ok.inj hkeywordDefaults).1.symm⟩

end Functions

end Lexiscope.Meaning
