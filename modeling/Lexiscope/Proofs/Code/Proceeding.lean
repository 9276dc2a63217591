import Lexiscope.Proofs.Code.Emission
import Lexiscope.Proofs.Lexical.Faults
/-!
# Generation goes on

Code is generated for a body with the scopes of the inner bodies in wait. Every label that a jump
aims at was made, and is bound before the construct that made it ends. So no guard of the generator
is hit, and where generation stops the module is at fault.
-/

namespace Lexiscope.Code

open Generate
open Grammar (Expr Param)
open Lexical (Scope Blames targetMentions targetsMentions)

/-- Code is generated for a body. The scopes in `π` are in wait. Jumps aim at bound labels and at
those in `aims`, which were made; those in `bound` are bound. -/
structure Draft.Ready (s : Scope) (π : List Scope) (aims bound : List Label) (d : Draft) :
    Prop where
  pending : d.pending = π
  cellvars : d.builder.cellvars = s.cells
  freevars : d.builder.freevars = s.free
  made : ∀ l ∈ aims, l.index < d.builder.labels.size
  bound : ∀ l ∈ bound, d.builder.Binds l
  jumps : ∀ j ∈ d.builder.jumps, j.2 ∈ aims ∨ d.builder.Binds j.2

/-- Code is generated, and then the second condition holds, or the module is at fault. -/
def Proceeds {α : Type} (P : Draft → Prop) (g : Generate α) (Q : α → Draft → Prop) : Prop :=
  ∀ d, P d → (∃ a e, g d = .ok (a, e) ∧ Q a e) ∨ ∃ e, g d = .error e ∧ e.fault.IsOfUser

namespace Proceeds

variable {α β : Type} {P : Draft → Prop} {Q : α → Draft → Prop} {R : β → Draft → Prop}
  {g : Generate α} {f : α → Generate β}

theorem bind (hg : Proceeds P g Q) (hf : ∀ a, Proceeds (Q a) (f a) R) : Proceeds P (g >>= f) R := by
  intro d hd
  have hrun : (g >>= f) d = g d >>= fun r => f r.1 r.2 := rfl
  rw [hrun]
  rcases hg d hd with ⟨a, e, hga, hQ⟩ | ⟨e, hge, he⟩
  · rw [hga]
    exact hf a e hQ
  · rw [hge]
    exact .inr ⟨e, rfl, he⟩

theorem pure {a : α} (h : ∀ d, P d → Q a d) : Proceeds P (Pure.pure a) Q :=
  fun d hd => .inl ⟨a, d, rfl, h d hd⟩

theorem fail {fault : CompileFault} {span : Text.Span} (h : fault.IsOfUser) :
    Proceeds P (Generate.fail fault span : Generate α) Q :=
  fun _ _ => .inr ⟨_, rfl, h⟩

theorem weaken {Q' : α → Draft → Prop} (h : Proceeds P g Q) (hQ : ∀ a d, Q a d → Q' a d) :
    Proceeds P g Q' := by
  intro d hd
  rcases h d hd with ⟨a, e, hg, hr⟩ | hfault
  · exact .inl ⟨a, e, hg, hQ a e hr⟩
  · exact .inr hfault

theorem assume {p : Prop} (h : p → Proceeds P g Q) : Proceeds (fun d => P d ∧ p) g Q :=
  fun d hd => h hd.2 d hd.1

theorem lift {x : Except CompileError α} (h : Blames x) :
    Proceeds P (liftM x : Generate α) fun a d => P d ∧ x = .ok a := by
  intro d hd
  cases x with
  | ok a => exact .inl ⟨a, d, rfl, hd, rfl⟩
  | error e => exact .inr ⟨e, rfl, h e rfl⟩

theorem after {a : α} {d e : Draft} (h : Proceeds P g Q) (hd : P d) (hg : g d = .ok (a, e)) :
    Q a e := by
  rcases h d hd with ⟨_, _, hok, hQ⟩ | ⟨_, herror, -⟩
  · rw [hg] at hok
    cases hok
    exact hQ
  · rw [hg] at herror
    cases herror

theorem blames {d : Draft} (h : Proceeds P g Q) (hd : P d) : Blames (g d) := by
  intro e herror
  rcases h d hd with ⟨_, _, hok, -⟩ | ⟨_, herror', he⟩
  · rw [herror] at hok
    cases hok
  · rw [herror] at herror'
    cases herror'
    exact he

end Proceeds

/-- Code is added to a body that leaves the scopes in wait and needs no label from outside. -/
def Adds (s : Scope) (g : Generate Unit) : Prop :=
  ∀ π aims bound, Proceeds (Draft.Ready s π aims bound) g fun _ => Draft.Ready s π aims bound

section Steps

variable {s : Scope} {π : List Scope} {aims bound : List Label} {α : Type}
  {Q : α → Draft → Prop}

theorem Adds.before {g : Generate Unit} {f : Unit → Generate α} (hg : Adds s g)
    (hf : Proceeds (Draft.Ready s π aims bound) (f ()) Q) :
    Proceeds (Draft.Ready s π aims bound) (g >>= f) Q :=
  (hg π aims bound).bind fun _ => hf

theorem Adds.andThen {g h : Generate Unit} (hg : Adds s g) (hh : Adds s h) :
    Adds s (g >>= fun _ => h) :=
  fun π aims bound => hg.before (hh π aims bound)

theorem adds_nothing : Adds s (pure ()) := fun _ _ _ => .pure fun _ h => h

theorem Adds.indexed {g : Generate Nat} {f : Nat → Generate Unit}
    (hg : ∀ π aims bound, Proceeds (Draft.Ready s π aims bound) g fun _ =>
      Draft.Ready s π aims bound) (hf : ∀ i, Adds s (f i)) : Adds s (g >>= f) :=
  fun π aims bound => (hg π aims bound).bind fun i => hf i π aims bound

theorem Draft.Ready.same {d : Draft} (h : d.Ready s π aims bound) {b : Builder}
    (hcells : b.cellvars = d.builder.cellvars) (hfree : b.freevars = d.builder.freevars)
    (hlabels : b.labels = d.builder.labels) (hjumps : b.jumps = d.builder.jumps) :
    Draft.Ready s π aims bound { d with builder := b } := by
  obtain ⟨pending, cellvars, freevars, made, bound, jumps⟩ := h
  simp only [Builder.Binds, ← hlabels, ← hjumps] at made bound jumps
  exact ⟨pending, hcells.trans cellvars, hfree.trans freevars, made, bound, jumps⟩

theorem proceeds_place {f : Builder → α × Builder} (hf : ∀ b : Builder, b.Pooled (f b).2) :
    Proceeds (Draft.Ready s π aims bound) (place f) fun _ => Draft.Ready s π aims bound := by
  intro d hd
  have hpooled := hf d.builder
  exact .inl ⟨_, _, rfl, hd.same hpooled.cellvars hpooled.freevars hpooled.labels hpooled.jumps⟩

theorem adds_emit (i : Instr) : Adds s (emit i) :=
  fun _ _ _ d hd => .inl ⟨(), _, rfl, hd.same (b := d.builder.emit i) rfl rfl rfl rfl⟩

theorem adds_emitConst (c : Constant Object) : Adds s (emitConst c) := by
  intro π aims bound d hd
  obtain ⟨hpooled, -, -⟩ := constant_spec d.builder c
  exact .inl ⟨(), _, rfl, hd.same (b := d.builder.emitConst c) hpooled.cellvars hpooled.freevars
    hpooled.labels hpooled.jumps⟩

theorem adds_named (instr : Nat → Instr) (name : Name) : Adds s (emitNamed instr name) :=
  .indexed (fun _ _ _ => proceeds_place (pooled_name · name)) fun i => adds_emit (instr i)

theorem proceeds_deref {name : Name} (span : Text.Span) (h : name ∈ s.cells ++ s.free) :
    Proceeds (Draft.Ready s π aims bound) (deref name span) fun _ =>
      Draft.Ready s π aims bound := by
  intro d hd
  have hmem : name ∈ d.builder.cellvars ++ d.builder.freevars := by
    rw [hd.cellvars, hd.freevars]
    exact h
  obtain ⟨i, hi⟩ : ∃ i, d.builder.deref? name = some i :=
    Option.isSome_iff_exists.1 (List.isSome_idxOf?.2 hmem)
  refine .inl ⟨i, d, ?_, hd⟩
  unfold deref
  rw [hi]

theorem adds_deref {name : Name} (span : Text.Span) {f : Nat → Generate Unit}
    (h : name ∈ s.cells ++ s.free) (hf : ∀ i, Adds s (f i)) : Adds s (deref name span >>= f) :=
  .indexed (fun _ _ _ => proceeds_deref span h) hf

section Labels

variable {l : Label}

theorem proceeds_newLabel : Proceeds (Draft.Ready s π aims bound) newLabel fun l =>
    Draft.Ready s π (l :: aims) bound := by
  intro d hd
  obtain ⟨pending, cellvars, freevars, made, hbound, jumps⟩ := hd
  have hbinds : ∀ m, d.builder.Binds m → d.builder.newLabel.2.Binds m := by
    rintro m ⟨p, hp⟩
    obtain ⟨hlt, -⟩ := Array.getElem?_eq_some_iff.1 hp
    refine ⟨p, ?_⟩
    rw [Builder.newLabel, Array.getElem?_push_lt hlt, ← hp, Array.getElem?_eq_getElem hlt]
  refine .inl ⟨_, _, rfl, pending, cellvars, freevars, ?_, fun m hm => hbinds m (hbound m hm), ?_⟩
  · intro m hm
    refine Nat.lt_of_lt_of_eq ?_ (Array.size_push none).symm
    rcases List.mem_cons.1 hm with rfl | hm
    · exact Nat.lt_succ_self _
    · exact Nat.lt_succ_of_lt (made m hm)
  · intro j hj
    exact (jumps j hj).imp (List.mem_cons_of_mem _) (hbinds j.2)

theorem proceeds_bindLabel (hl : l ∈ aims) : Proceeds (Draft.Ready s π aims bound) (bindLabel l)
    fun _ => Draft.Ready s π aims (l :: bound) := by
  intro d hd
  obtain ⟨pending, cellvars, freevars, made, hbound, jumps⟩ := hd
  have hself : (d.builder.bindLabel l).Binds l :=
    ⟨_, by rw [Builder.bindLabel, Array.getElem?_setIfInBounds_self_of_lt (made l hl)]⟩
  have hbinds : ∀ m, d.builder.Binds m → (d.builder.bindLabel l).Binds m := by
    intro m hm
    by_cases hlm : l.index = m.index
    · obtain ⟨p, hp⟩ := hself
      exact ⟨p, hlm ▸ hp⟩
    · obtain ⟨p, hp⟩ := hm
      exact ⟨p, by rw [Builder.bindLabel, Array.getElem?_setIfInBounds_ne hlm, hp]⟩
  refine .inl ⟨(), _, rfl, pending, cellvars, freevars, ?_, ?_, ?_⟩
  · intro m hm
    simpa [Builder.bindLabel] using made m hm
  · exact List.forall_mem_cons.2 ⟨hself, fun m hm => hbinds m (hbound m hm)⟩
  · exact fun j hj => (jumps j hj).imp_right (hbinds j.2)

theorem proceeds_emitJump (jump : Nat → Instr) (hl : l ∈ aims) :
    Proceeds (Draft.Ready s π aims bound) (emitJump jump l) fun _ =>
      Draft.Ready s π aims bound := by
  intro d hd
  obtain ⟨pending, cellvars, freevars, made, hbound, jumps⟩ := hd
  refine .inl ⟨(), _, rfl, pending, cellvars, freevars, made, hbound, fun j hj => ?_⟩
  rcases List.mem_cons.1 hj with rfl | hj
  · exact .inl hl
  · exact jumps j hj

theorem Draft.Ready.close {d : Draft} (h : d.Ready s π (l :: aims) bound) (hl : l ∈ bound) :
    d.Ready s π aims bound where
  pending := h.pending
  cellvars := h.cellvars
  freevars := h.freevars
  made m hm := h.made m (List.mem_cons_of_mem _ hm)
  bound := h.bound
  jumps j hj := by
    rcases h.jumps j hj with hj | hj
    · rcases List.mem_cons.1 hj with hj | hj
      · exact .inr (hj ▸ h.bound l hl)
      · exact .inl hj
    · exact .inr hj

theorem Draft.Ready.forget {d : Draft} {others : List Label} (h : d.Ready s π aims others)
    (hbound : bound ⊆ others) : d.Ready s π aims bound :=
  ⟨h.pending, h.cellvars, h.freevars, h.made, fun l hl => h.bound l (hbound hl), h.jumps⟩

theorem Draft.Ready.closeBoth {d : Draft} {m : Label}
    (h : d.Ready s π (l :: m :: aims) (l :: m :: bound)) : d.Ready s π aims bound := by
  have hclosed := (h.close List.mem_cons_self).close (List.mem_cons_of_mem l List.mem_cons_self)
  exact hclosed.forget fun k hk => List.mem_cons_of_mem l (List.mem_cons_of_mem m hk)

theorem proceeds_labelled {rest : List Scope} {bound' : List Label} {f : Label → Generate Unit}
    (h : ∀ l, Proceeds (Draft.Ready s π (l :: aims) bound) (f l) fun _ =>
      Draft.Ready s rest (l :: aims) (l :: bound')) :
    Proceeds (Draft.Ready s π aims bound) (newLabel >>= f) fun _ =>
      Draft.Ready s rest aims bound' := by
  refine proceeds_newLabel.bind fun l => (h l).weaken fun _ d hd => ?_
  exact (hd.close List.mem_cons_self).forget (List.subset_cons_self l bound')

end Labels

section Names

theorem adds_loadName (hs : s.Celled) (name : Name) (span : Text.Span) :
    Adds s (loadName s name span) := by
  unfold loadName
  split
  · exact .indexed (fun _ _ _ => proceeds_place (pooled_varname · name)) fun i => adds_emit _
  · rename_i hsymbol
    exact adds_deref span (hs name (.inl hsymbol)) fun i => adds_emit _
  · rename_i hsymbol
    exact adds_deref span (hs name (.inr (.inl hsymbol))) fun i => adds_emit _
  · rename_i hsymbol
    exact adds_deref span (hs name (.inr (.inr hsymbol))) fun i => adds_emit _
  · exact adds_named _ name
  · split
    · exact adds_named _ name
    · exact adds_named _ name
  · exact adds_named _ name

theorem adds_storeName (hs : s.Celled) {name : Name} (span : Text.Span)
    (hbound : name ∈ s.facts.bound) : Adds s (storeName s name span) := by
  unfold storeName
  split
  · exact .indexed (fun _ _ _ => proceeds_place (pooled_varname · name)) fun i => adds_emit _
  · rename_i hsymbol
    exact adds_deref span (hs name (.inl hsymbol)) fun i => adds_emit _
  · rename_i hsymbol
    exact adds_deref span (hs name (.inr (.inl hsymbol))) fun i => adds_emit _
  · exact adds_named _ name
  · exact adds_named _ name
  · exact adds_named _ name
  · rename_i hsymbol
    exact absurd hsymbol (Lexical.symbol_ne_classFree hbound)

end Names

end Steps

section Expressions

variable {s : Scope}

mutual

theorem adds_expression (hs : s.Celled) : (e : Expr) → Adds s (expression s e)
  | .none _ | .ellipsis _ | .bool .. | .int .. | .float .. | .str .. => by
    unfold expression
    exact adds_emitConst _
  | .name name span => by
    unfold expression
    exact adds_loadName hs name span
  | .list items _ | .tuple items _ => by
    unfold expression
    exact (adds_expressions hs items).andThen (adds_emit _)
  | .dict items _ => by
    unfold expression
    exact (adds_entries hs items).andThen (adds_emit _)
  | .member value attr _ => by
    unfold expression
    exact (adds_expression hs value).andThen (adds_named _ attr)
  | .subscript left right _ | .binary _ left right _ | .compare _ left right _ => by
    unfold expression
    exact (adds_expression hs left).andThen ((adds_expression hs right).andThen (adds_emit _))
  | .call callee args keywords _ => by
    unfold expression
    refine (adds_expression hs callee).andThen ?_
    refine (adds_expressions hs args).andThen ((adds_keywordValues hs keywords).andThen ?_)
    split
    · exact adds_emit _
    · exact (adds_emitConst _).andThen (adds_emit _)
  | .unary op operand _ => by
    unfold expression
    exact (adds_expression hs operand).andThen (adds_emit _)
  | .boolean op left right _ => by
    intro π aims bound
    unfold expression
    refine proceeds_labelled fun stop => (adds_expression hs left).before ?_
    refine (proceeds_emitJump _ List.mem_cons_self).bind fun _ => ?_
    exact (adds_expression hs right).before (proceeds_bindLabel List.mem_cons_self)
  | .conditional test body orelse _ => by
    intro π aims bound
    unfold expression
    refine proceeds_labelled fun otherwise => proceeds_labelled fun stop => ?_
    refine (adds_expression hs test).before ?_
    refine (proceeds_emitJump _ (by simp)).bind fun _ => ?_
    refine (adds_expression hs body).before ?_
    refine (proceeds_emitJump _ List.mem_cons_self).bind fun _ => ?_
    refine (proceeds_bindLabel (by simp)).bind fun _ => ?_
    exact (adds_expression hs orelse).before (proceeds_bindLabel List.mem_cons_self)
  | .yield value _ => by
    unfold expression
    cases value with
    | none => exact (adds_emitConst _).andThen (adds_emit _)
    | some value => exact (adds_expression hs value).andThen (adds_emit _)
  | .await value _ => by
    unfold expression
    exact (adds_expression hs value).andThen (adds_emit _)

theorem adds_expressions (hs : s.Celled) : (es : List Expr) → Adds s (expressions s es)
  | [] => by
    unfold expressions
    exact adds_nothing
  | e :: es => by
    unfold expressions
    exact (adds_expression hs e).andThen (adds_expressions hs es)

theorem adds_entries (hs : s.Celled) : (es : List (Expr × Expr)) → Adds s (entries s es)
  | [] => by
    unfold entries
    exact adds_nothing
  | (key, value) :: es => by
    unfold entries
    exact (adds_expression hs key).andThen ((adds_expression hs value).andThen (adds_entries hs es))

theorem adds_keywordValues (hs : s.Celled) : (es : List (Name × Expr)) → Adds s (keywordValues s es)
  | [] => by
    unfold keywordValues
    exact adds_nothing
  | (_, value) :: es => by
    unfold keywordValues
    exact (adds_expression hs value).andThen (adds_keywordValues hs es)

end

end Expressions

section Targets

variable {s : Scope}

mutual

/-- Code for a target that the parser lets through, if its names are those of the body. -/
theorem adds_store (hs : s.Celled) : (e : Expr) → e.unassignable? true = none →
    (∀ n ∈ (targetMentions e).bound, n ∈ s.facts.bound) → Adds s (store s e)
  | .name name span, _, hbound => by
    unfold store
    exact adds_storeName hs span (hbound name List.mem_cons_self)
  | .member value attr _, _, _ => by
    unfold store
    exact (adds_expression hs value).andThen (adds_named _ attr)
  | .subscript value index _, _, _ => by
    unfold store
    refine (adds_expression hs value).andThen ?_
    exact (adds_expression hs index).andThen (adds_emit _)
  | .tuple items _, h, hbound | .list items _, h, hbound => by
    unfold store
    have hitems := Grammar.firstUnassignable?_eq_none.1 h
    exact (adds_emit _).andThen (adds_storeAll hs items hitems hbound)

theorem adds_storeAll (hs : s.Celled) : (es : List Expr) →
    (∀ e ∈ es, e.unassignable? true = none) →
    (∀ n ∈ (targetsMentions es).bound, n ∈ s.facts.bound) → Adds s (storeAll s es)
  | [], _, _ => by
    unfold storeAll
    exact adds_nothing
  | e :: es, h, hbound => by
    unfold storeAll
    obtain ⟨he, hes⟩ := List.forall_mem_cons.1 h
    obtain ⟨hfirst, hrest⟩ := List.forall_mem_append.1 hbound
    exact (adds_store hs e he hfirst).andThen (adds_storeAll hs es hes hrest)

end

theorem adds_storeChain (hs : s.Celled) (span : Text.Span) {es : List Expr} (hsome : es ≠ [])
    (h : ∀ e ∈ es, e.unassignable? true = none)
    (hbound : ∀ n ∈ (targetsMentions es).bound, n ∈ s.facts.bound) :
    Adds s (storeChain s span es) := by
  induction es with
  | nil => exact absurd rfl hsome
  | cons e es ih =>
    obtain ⟨he, hes⟩ := List.forall_mem_cons.1 h
    obtain ⟨hfirst, hrest⟩ := List.forall_mem_append.1 hbound
    have hstore := adds_store hs e he hfirst
    cases es with
    | nil => exact hstore
    | cons e' es =>
      unfold storeChain
      exact (adds_emit _).andThen (hstore.andThen (ih (List.cons_ne_nil e' es) hes hrest))

theorem adds_augmented (hs : s.Celled) (op : Grammar.BinaryOp) (value : Expr) {target : Expr}
    (h : target.unassignable? false = none)
    (hbound : ∀ n ∈ (targetMentions target).bound, n ∈ s.facts.bound) :
    Adds s (augmented s op value target) := by
  have hcombine : ∀ {g : Generate Unit}, Adds s g →
      Adds s (expression s value >>= fun _ => emit (.binary op) >>= fun _ => g) :=
    fun hg => (adds_expression hs value).andThen ((adds_emit _).andThen hg)
  cases target with
  | name name span =>
    have hstore := adds_storeName hs span (hbound name List.mem_cons_self)
    exact (adds_loadName hs name span).andThen (hcombine hstore)
  | member object attr _ =>
    refine (adds_expression hs object).andThen ((adds_emit _).andThen ?_)
    refine .indexed (fun _ _ _ => proceeds_place (pooled_name · attr)) fun slot => ?_
    exact (adds_emit _).andThen (hcombine ((adds_emit _).andThen (adds_emit _)))
  | subscript object index _ =>
    refine (adds_expression hs object).andThen ((adds_expression hs index).andThen ?_)
    refine (adds_emit _).andThen ((adds_emit _).andThen ?_)
    exact hcombine ((adds_emit _).andThen (adds_emit _))
  | _ => cases h

end Targets

section Definitions

variable {s : Scope} {π : List Scope} {aims bound : List Label} {α : Type}
  {Q : α → Draft → Prop}

theorem proceeds_positionalDefaults (hs : s.Celled) (params : List Param) :
    Proceeds (Draft.Ready s π aims bound) (positionalDefaults s params) fun _ =>
      Draft.Ready s π aims bound := by
  unfold positionalDefaults
  dsimp only
  split
  · exact .pure fun _ h => h
  · exact (adds_expressions hs _).before ((adds_emit _).before (.pure fun _ h => h))

theorem adds_namedValues (hs : s.Celled) (values : List (Name × Expr)) :
    Adds s (namedValues s values) := by
  induction values with
  | nil => exact adds_nothing
  | cons value values ih =>
    unfold namedValues
    exact (adds_emitConst _).andThen ((adds_expression hs value.2).andThen ih)

theorem proceeds_keywordDefaults (hs : s.Celled) (params : List Param) :
    Proceeds (Draft.Ready s π aims bound) (keywordDefaults s params) fun _ =>
      Draft.Ready s π aims bound := by
  unfold keywordDefaults
  dsimp only
  split
  · exact .pure fun _ h => h
  · exact (adds_namedValues hs _).before ((adds_emit _).before (.pure fun _ h => h))

theorem adds_loadCells (span : Text.Span) {names : List Name}
    (h : ∀ n ∈ names, n ∈ s.cells ++ s.free) : Adds s (loadCells span names) := by
  induction names with
  | nil => exact adds_nothing
  | cons name names ih =>
    obtain ⟨hname, hnames⟩ := List.forall_mem_cons.1 h
    unfold loadCells
    refine adds_deref span hname fun i => ?_
    exact (adds_emit _).andThen (ih hnames)

theorem proceeds_closureOf (span : Text.Span) {names : List Name}
    (h : ∀ n ∈ names, n ∈ s.cells ++ s.free) :
    Proceeds (Draft.Ready s π aims bound) (closureOf names span) fun _ =>
      Draft.Ready s π aims bound := by
  unfold closureOf
  split
  · exact .pure fun _ h => h
  · exact (adds_loadCells span h).before ((adds_emit _).before (.pure fun _ h => h))

/-- A function is made of code that asks only for names that the body has. -/
theorem adds_makeFunction {code : Object} (h : ∀ n ∈ code.freevars, n ∈ s.cells ++ s.free)
    (defaults keywords : Bool) (span : Text.Span) :
    Adds s (makeFunction code defaults keywords span) := by
  intro π aims bound
  unfold makeFunction
  refine (proceeds_closureOf span h).bind fun closure => ?_
  exact (adds_emitConst _).before (adds_emit _ _ _ _)

theorem proceeds_nextScope (span : Text.Span) {inner : Scope} :
    Proceeds (Draft.Ready s (inner :: π) aims bound) (nextScope span) fun t d =>
      d.Ready s π aims bound ∧ t = inner := by
  intro d hd
  obtain ⟨pending, cellvars, freevars, made, hbound, jumps⟩ := hd
  have hready : Draft.Ready s π aims bound { d with pending := π } :=
    ⟨rfl, cellvars, freevars, made, hbound, jumps⟩
  refine .inl ⟨inner, { d with pending := π }, ?_, hready, rfl⟩
  unfold nextScope
  rw [pending]

theorem ready_start (s : Scope) : (Draft.start s).Ready s s.children [] [] :=
  ⟨rfl, rfl, rfl, by simp, by simp, by simp [Draft.start]⟩

end Definitions

end Lexiscope.Code
