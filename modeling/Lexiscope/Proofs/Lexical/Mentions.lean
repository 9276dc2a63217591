import Lexiscope.Lexical.Block
/-!
# What a body mentions

The names that a body uses, binds and declares, and whether it yields, read off its tree at once.
What is collected from a body statement by statement is just that.
-/

namespace Lexiscope.Lexical

open Grammar (Expr Stmt Param Params)

/-- The names in a part of a body, one after another, and whether the part yields. -/
structure Mentions where
  used : List Name := []
  bound : List Name := []
  globals : List Name := []
  nonlocals : List Name := []
  yields : Bool := false

namespace Mentions

instance : Append Mentions where
  append a b :=
    ⟨a.used ++ b.used, a.bound ++ b.bound, a.globals ++ b.globals, a.nonlocals ++ b.nonlocals,
      a.yields || b.yields⟩

variable (a b : Mentions)

@[simp] theorem used_append : (a ++ b).used = a.used ++ b.used := rfl

@[simp] theorem bound_append : (a ++ b).bound = a.bound ++ b.bound := rfl

@[simp] theorem globals_append : (a ++ b).globals = a.globals ++ b.globals := rfl

@[simp] theorem nonlocals_append : (a ++ b).nonlocals = a.nonlocals ++ b.nonlocals := rfl

@[simp] theorem yields_append : (a ++ b).yields = (a.yields || b.yields) := rfl

end Mentions

mutual

def exprMentions : Expr → Mentions
  | .none _ | .ellipsis _ | .bool .. | .int .. | .float .. | .str .. => {}
  | .name name _ => { used := [name] }
  | .list items _ | .tuple items _ => exprsMentions items
  | .dict items _ => entriesMentions items
  | .member value _ _ => exprMentions value
  | .subscript value index _ => exprMentions value ++ exprMentions index
  | .call callee args keywords _ =>
    exprMentions callee ++ exprsMentions args ++ keywordsMentions keywords
  | .unary _ operand _ => exprMentions operand
  | .binary _ left right _ | .compare _ left right _ | .boolean _ left right _ =>
    exprMentions left ++ exprMentions right
  | .conditional test body orelse _ =>
    exprMentions test ++ exprMentions body ++ exprMentions orelse
  | .yield none _ => { yields := true }
  | .yield (some value) _ => { yields := true } ++ exprMentions value
  | .await value _ => exprMentions value

def exprsMentions : List Expr → Mentions
  | [] => {}
  | e :: es => exprMentions e ++ exprsMentions es

def entriesMentions : List (Expr × Expr) → Mentions
  | [] => {}
  | (key, value) :: es => exprMentions key ++ exprMentions value ++ entriesMentions es

def keywordsMentions : List (Name × Expr) → Mentions
  | [] => {}
  | (_, value) :: es => exprMentions value ++ keywordsMentions es

end

mutual

def targetMentions : Expr → Mentions
  | .name name _ => { bound := [name] }
  | .tuple items _ | .list items _ => targetsMentions items
  | .member value _ _ => exprMentions value
  | .subscript value index _ => exprMentions value ++ exprMentions index
  | _ => {}

def targetsMentions : List Expr → Mentions
  | [] => {}
  | e :: es => targetMentions e ++ targetsMentions es

end

def defaultsMentions (params : List Param) : Mentions :=
  exprsMentions (params.filterMap (·.default))

mutual

def stmtMentions : Stmt → Mentions
  | .expr value _ | .raise value _ => exprMentions value
  | .assign targets value _ => exprMentions value ++ targetsMentions targets
  | .augAssign target _ value _ =>
    exprMentions value ++ exprMentions target ++ targetMentions target
  | .define name params _ _ _ =>
    defaultsMentions (params.positional ++ params.keywordOnly) ++ { bound := [name] }
  | .classDef name bases _ _ => exprsMentions bases ++ { bound := [name] }
  | .ret none _ => {}
  | .ret (some value) _ => exprMentions value
  | .cond test body orelse _ => exprMentions test ++ bodyMentions body ++ bodyMentions orelse
  | .loop test body _ => exprMentions test ++ bodyMentions body
  | .each target iter body _ => exprMentions iter ++ targetMentions target ++ bodyMentions body
  | .global names _ => { globals := names }
  | .nonlocal names _ => { nonlocals := names }
  | .assert test message _ => exprMentions test ++ exprsMentions message.toList
  | .brk _ | .cont _ | .pass _ => {}

def bodyMentions : List Stmt → Mentions
  | [] => {}
  | s :: ss => stmtMentions s ++ bodyMentions ss

end

theorem yields_exprsMentions_append (es es' : List Expr) :
    (exprsMentions (es ++ es')).yields =
      ((exprsMentions es).yields || (exprsMentions es').yields) := by
  induction es with
  | nil => rfl
  | cons e es ih => simp [exprsMentions, ih, Bool.or_assoc]

/-- The facts of a body after it has mentioned something. -/
def Facts.after (f : Facts) (m : Mentions) : Facts :=
  { f with
    isGenerator := f.isGenerator || m.yields
    bound := m.bound.foldl addName f.bound
    used := m.used.foldl addName f.used
    globals := m.globals.foldl addName f.globals
    nonlocals := m.nonlocals.foldl addName f.nonlocals }

@[simp] theorem Facts.after_empty (f : Facts) : f.after {} = f := by
  simp [Facts.after]

@[simp] theorem Facts.after_append (f : Facts) (a b : Mentions) :
    f.after (a ++ b) = (f.after a).after b := by
  simp [Facts.after, Bool.or_assoc]

/-- A part of a body was read: it mentions what it should, and yields only in a function. -/
structure Facts.Read (f : Facts) (m : Mentions) (g : Facts) : Prop where
  facts : g = f.after m
  yields : m.yields = true → f.kind = .functionBody

namespace Facts.Read

theorem empty (f : Facts) : f.Read {} f := ⟨(f.after_empty).symm, by simp⟩

theorem append {f g h : Facts} {a b : Mentions} (hg : f.Read a g) (hh : g.Read b h) :
    f.Read (a ++ b) h := by
  obtain ⟨rfl, ha⟩ := hg
  obtain ⟨rfl, hb⟩ := hh
  refine ⟨(f.after_append a b).symm, fun hy => ?_⟩
  rw [Mentions.yields_append, Bool.or_eq_true] at hy
  exact hy.elim ha hb

end Facts.Read

theorem bind_eq_ok {α β ε : Type} {x : Except ε α} {f : α → Except ε β} {b : β}
    (h : (x >>= f) = .ok b) : ∃ a, x = .ok a ∧ f a = .ok b := by
  cases x with
  | error e => cases h
  | ok a => exact ⟨a, rfl, h⟩

mutual

theorem useExpr_ok {f g : Facts} : {e : Expr} → useExpr f e = .ok g → f.Read (exprMentions e) g
  | .none _, h | .ellipsis _, h | .bool .., h | .int .., h | .float .., h | .str .., h => by
    simp only [useExpr] at h
    cases h
    exact .empty f
  | .name name _, h => by
    simp only [useExpr] at h
    cases h
    exact ⟨by simp [Facts.after, exprMentions], by simp [exprMentions]⟩
  | .list items _, h | .tuple items _, h => by
    simp only [useExpr] at h
    simpa only [exprMentions] using useExprs_ok h
  | .dict items _, h => by
    simp only [useExpr] at h
    simpa only [exprMentions] using useEntries_ok h
  | .member value _ _, h | .unary _ value _, h => by
    simp only [useExpr] at h
    simpa only [exprMentions] using useExpr_ok h
  | .subscript left right _, h | .binary _ left right _, h | .compare _ left right _, h
  | .boolean _ left right _, h => by
    simp only [useExpr] at h
    obtain ⟨f₁, hleft, h⟩ := bind_eq_ok h
    simpa only [exprMentions] using (useExpr_ok hleft).append (useExpr_ok h)
  | .call callee args keywords _, h => by
    simp only [useExpr] at h
    obtain ⟨f₁, hcallee, h⟩ := bind_eq_ok h
    obtain ⟨f₂, hargs, h⟩ := bind_eq_ok h
    simpa only [exprMentions] using
      ((useExpr_ok hcallee).append (useExprs_ok hargs)).append (useKeywords_ok h)
  | .conditional test body orelse _, h => by
    simp only [useExpr] at h
    obtain ⟨f₁, htest, h⟩ := bind_eq_ok h
    obtain ⟨f₂, hbody, h⟩ := bind_eq_ok h
    simpa only [exprMentions] using
      ((useExpr_ok htest).append (useExpr_ok hbody)).append (useExpr_ok h)
  | .yield value _, h => by
    simp only [useExpr] at h
    split at h
    · rename_i hkind
      have hyield : f.Read { yields := true } { f with isGenerator := true } :=
        ⟨by simp [Facts.after], fun _ => hkind⟩
      cases value with
      | none =>
        cases h
        simpa only [exprMentions] using hyield
      | some value => simpa only [exprMentions] using hyield.append (useExpr_ok h)
    · cases h
  | .await value _, h => by
    simp only [useExpr] at h
    split at h
    · simpa only [exprMentions] using useExpr_ok h
    · cases h

theorem useExprs_ok {f g : Facts} :
    {es : List Expr} → useExprs f es = .ok g → f.Read (exprsMentions es) g
  | [], h => by
    simp only [useExprs] at h
    cases h
    exact .empty f
  | e :: es, h => by
    simp only [useExprs] at h
    obtain ⟨f₁, he, h⟩ := bind_eq_ok h
    simpa only [exprsMentions] using (useExpr_ok he).append (useExprs_ok h)

theorem useEntries_ok {f g : Facts} :
    {es : List (Expr × Expr)} → useEntries f es = .ok g → f.Read (entriesMentions es) g
  | [], h => by
    simp only [useEntries] at h
    cases h
    exact .empty f
  | (key, value) :: es, h => by
    simp only [useEntries] at h
    obtain ⟨f₁, hkey, h⟩ := bind_eq_ok h
    obtain ⟨f₂, hvalue, h⟩ := bind_eq_ok h
    simpa only [entriesMentions] using
      ((useExpr_ok hkey).append (useExpr_ok hvalue)).append (useEntries_ok h)

theorem useKeywords_ok {f g : Facts} :
    {es : List (Name × Expr)} → useKeywords f es = .ok g → f.Read (keywordsMentions es) g
  | [], h => by
    simp only [useKeywords] at h
    cases h
    exact .empty f
  | (_, value) :: es, h => by
    simp only [useKeywords] at h
    obtain ⟨f₁, hvalue, h⟩ := bind_eq_ok h
    simpa only [keywordsMentions] using (useExpr_ok hvalue).append (useKeywords_ok h)

end

mutual

theorem bindTarget_ok {f g : Facts} :
    {e : Expr} → bindTarget f e = .ok g → f.Read (targetMentions e) g
  | .name name _, h => by
    simp only [bindTarget] at h
    cases h
    exact ⟨by simp [Facts.after, targetMentions], by simp [targetMentions]⟩
  | .tuple items _, h | .list items _, h => by
    simp only [bindTarget] at h
    simpa only [targetMentions] using bindTargets_ok h
  | .member value _ _, h => by
    simp only [bindTarget] at h
    simpa only [targetMentions] using useExpr_ok h
  | .subscript value index _, h => by
    simp only [bindTarget] at h
    obtain ⟨f₁, hvalue, h⟩ := bind_eq_ok h
    simpa only [targetMentions] using (useExpr_ok hvalue).append (useExpr_ok h)
  | .none _, h | .ellipsis _, h | .bool .., h | .int .., h | .float .., h | .str .., h
  | .dict .., h | .call .., h | .unary .., h | .binary .., h | .compare .., h | .boolean .., h
  | .conditional .., h | .yield .., h | .await .., h => by
    simp only [bindTarget] at h
    cases h

theorem bindTargets_ok {f g : Facts} :
    {es : List Expr} → bindTargets f es = .ok g → f.Read (targetsMentions es) g
  | [], h => by
    simp only [bindTargets] at h
    cases h
    exact .empty f
  | e :: es, h => by
    simp only [bindTargets] at h
    obtain ⟨f₁, he, h⟩ := bind_eq_ok h
    simpa only [targetsMentions] using (bindTarget_ok he).append (bindTargets_ok h)

end

theorem declareGlobal_ok {span : Text.Span} {f g : Facts} {names : List Name}
    (h : declareGlobal span f names = .ok g) :
    f.Read { globals := names } g ∧ ∀ n ∈ names, n ∉ f.params ∧ n ∉ f.nonlocals := by
  induction names generalizing f with
  | nil =>
    cases h
    exact ⟨.empty _, by simp⟩
  | cons name names ih =>
    unfold declareGlobal at h
    split at h
    · cases h
    · rename_i hparams
      split at h
      · cases h
      · rename_i hnonlocals
        obtain ⟨⟨rfl, -⟩, hnames⟩ := ih h
        exact ⟨⟨by simp [Facts.after], by simp⟩, List.forall_mem_cons.2 ⟨⟨hparams, hnonlocals⟩,
          hnames⟩⟩

theorem declareNonlocal_ok {span : Text.Span} {f g : Facts} {names : List Name}
    (h : declareNonlocal span f names = .ok g) :
    f.Read { nonlocals := names } g ∧ ∀ n ∈ names, n ∉ f.params ∧ n ∉ f.globals := by
  induction names generalizing f with
  | nil =>
    cases h
    exact ⟨.empty _, by simp⟩
  | cons name names ih =>
    unfold declareNonlocal at h
    split at h
    · cases h
    · rename_i hparams
      split at h
      · cases h
      · rename_i hglobals
        obtain ⟨⟨rfl, -⟩, hnames⟩ := ih h
        exact ⟨⟨by simp [Facts.after], by simp⟩, List.forall_mem_cons.2 ⟨⟨hparams, hglobals⟩,
          hnames⟩⟩

mutual

def stmtBlocks (outer : Facts) : Stmt → List Block
  | .define name params body isAsync span =>
    let facts := outer.ofFunction name params isAsync span
    [⟨facts.after (bodyMentions body), bodyBlocks facts body⟩]
  | .classDef name _ body span =>
    let facts := outer.ofClass name span
    [⟨facts.after (bodyMentions body), bodyBlocks facts body⟩]
  | .cond _ body orelse _ => bodyBlocks outer body ++ bodyBlocks outer orelse
  | .loop _ body _ | .each _ _ body _ => bodyBlocks outer body
  | _ => []

def bodyBlocks (outer : Facts) : List Stmt → List Block
  | [] => []
  | s :: ss => stmtBlocks outer s ++ bodyBlocks outer ss

end

mutual

/-- Only names of one body decide how the definitions in it are called. -/
theorem stmtBlocks_congr {f g : Facts} (hkind : g.kind = f.kind)
    (hqualname : g.qualname = f.qualname) : (s : Stmt) → stmtBlocks g s = stmtBlocks f s
  | .define .. | .classDef .. => by
    simp only [stmtBlocks, Facts.ofFunction, Facts.ofClass, Facts.qualify, hkind, hqualname]
  | .cond _ body orelse _ => by
    simp only [stmtBlocks, bodyBlocks_congr hkind hqualname body,
      bodyBlocks_congr hkind hqualname orelse]
  | .loop _ body _ | .each _ _ body _ => by
    simp only [stmtBlocks, bodyBlocks_congr hkind hqualname body]
  | .expr .. | .assign .. | .augAssign .. | .ret .. | .brk _ | .cont _ | .pass _ | .global ..
  | .nonlocal .. | .raise .. | .assert .. => rfl

theorem bodyBlocks_congr {f g : Facts} (hkind : g.kind = f.kind)
    (hqualname : g.qualname = f.qualname) : (ss : List Stmt) → bodyBlocks g ss = bodyBlocks f ss
  | [] => rfl
  | s :: ss => by
    simp only [bodyBlocks, stmtBlocks_congr hkind hqualname s,
      bodyBlocks_congr hkind hqualname ss]

end

theorem bodyBlocks_after (f : Facts) (m : Mentions) (ss : List Stmt) :
    bodyBlocks (f.after m) ss = bodyBlocks f ss :=
  bodyBlocks_congr (f := f) (g := f.after m) rfl rfl ss

/-- Only the body of a function yields, in a block and in those inside it. -/
inductive Block.YieldsProperly : Block → Prop where
  | mk {facts : Facts} {children : List Block} :
    (facts.isGenerator = true → facts.kind = .functionBody) →
    (∀ b ∈ children, b.YieldsProperly) → Block.YieldsProperly ⟨facts, children⟩

/-- Statements of a body were read. -/
structure Block.Read (b : Block) (m : Mentions) (blocks : List Block) (c : Block) : Prop where
  facts : b.facts.Read m c.facts
  children : c.children = b.children ++ blocks
  proper : ∀ d ∈ blocks, d.YieldsProperly

namespace Block.Read

variable {b c d : Block} {m n : Mentions} {bs cs : List Block}

theorem of_facts {g : Facts} (h : b.facts.Read m g) : b.Read m [] { b with facts := g } :=
  ⟨h, by simp, by simp⟩

theorem empty (b : Block) : b.Read {} [] b := ⟨.empty b.facts, by simp, by simp⟩

theorem append (hc : b.Read m bs c) (hd : c.Read n cs d) : b.Read (m ++ n) (bs ++ cs) d where
  facts := hc.facts.append hd.facts
  children := by rw [hd.children, hc.children, List.append_assoc]
  proper e he := (List.mem_append.1 he).elim (hc.proper e) (hd.proper e)

end Block.Read

theorem yieldsProperly_of_read {facts : Facts} {m : Mentions} {blocks : List Block} {b : Block}
    (hfacts : facts.isGenerator = false) (h : Block.Read ⟨facts, []⟩ m blocks b) :
    b = ⟨facts.after m, blocks⟩ ∧ b.YieldsProperly := by
  obtain ⟨⟨hafter, hyields⟩, hchildren, hproper⟩ := h
  obtain ⟨_, _⟩ := b
  cases hafter
  cases hchildren
  refine ⟨rfl, .mk (fun hgenerator => hyields ?_) hproper⟩
  simpa [Facts.after, hfacts] using hgenerator

theorem read_name (f : Facts) (name : Name) :
    f.Read { bound := [name] } { f with bound := addName f.bound name } :=
  ⟨by simp [Facts.after], by simp⟩

theorem blocks_of_read {f g : Facts} {m : Mentions} (h : f.Read m g) (ss : List Stmt) :
    bodyBlocks g ss = bodyBlocks f ss := by
  rw [h.facts, bodyBlocks_after]

theorem read_definition {b child : Block} {m : Mentions} {g inner : Facts} {body : List Stmt}
    {blocks : List Block} (hfacts : b.facts.Read m g) (hinner : inner.isGenerator = false)
    (hblocks : blocks = [⟨inner.after (bodyMentions body), bodyBlocks inner body⟩])
    (hchild : Block.Read ⟨inner, []⟩ (bodyMentions body) (bodyBlocks inner body) child) :
    b.Read m blocks ⟨g, b.children ++ [child]⟩ := by
  obtain ⟨rfl, hproper⟩ := yieldsProperly_of_read hinner hchild
  refine ⟨hfacts, by rw [hblocks], ?_⟩
  rw [hblocks]
  simpa using hproper

mutual

theorem read_ok {b c : Block} :
    {s : Stmt} → b.read s = .ok c → b.Read (stmtMentions s) (stmtBlocks b.facts s) c
  | .expr value _, h | .raise value _, h => by
    simp only [Block.read] at h
    obtain ⟨g, hvalue, h⟩ := bind_eq_ok h
    cases h
    simpa only [stmtMentions, stmtBlocks] using .of_facts (useExpr_ok hvalue)
  | .assign targets value _, h => by
    simp only [Block.read] at h
    obtain ⟨f₁, hvalue, h⟩ := bind_eq_ok h
    obtain ⟨f₂, htargets, h⟩ := bind_eq_ok h
    cases h
    simpa only [stmtMentions, stmtBlocks] using
      .of_facts ((useExpr_ok hvalue).append (bindTargets_ok htargets))
  | .augAssign target _ value _, h => by
    simp only [Block.read] at h
    obtain ⟨f₁, hvalue, h⟩ := bind_eq_ok h
    obtain ⟨f₂, htarget, h⟩ := bind_eq_ok h
    obtain ⟨f₃, hbind, h⟩ := bind_eq_ok h
    cases h
    simpa only [stmtMentions, stmtBlocks] using
      .of_facts (((useExpr_ok hvalue).append (useExpr_ok htarget)).append (bindTarget_ok hbind))
  | .define name params body isAsync span, h => by
    simp only [Block.read] at h
    obtain ⟨f₁, hdefaults, h⟩ := bind_eq_ok h
    obtain ⟨child, hchild, h⟩ := bind_eq_ok h
    cases h
    have hdefine : b.facts.Read (stmtMentions (.define name params body isAsync span))
        { f₁ with bound := addName f₁.bound name } := by
      simpa only [stmtMentions, defaultsMentions] using
        (useExprs_ok hdefaults).append (read_name f₁ name)
    -- The inner body is named after the outer one, which by now has read the defaults.
    have hinner := congrArg (·.ofFunction name params isAsync span) hdefine.facts
    refine read_definition hdefine rfl ?_ (readAll_ok hchild)
    simp only [stmtBlocks, hinner]
    rfl
  | .classDef name bases body span, h => by
    simp only [Block.read] at h
    obtain ⟨f₁, hbases, h⟩ := bind_eq_ok h
    obtain ⟨child, hchild, h⟩ := bind_eq_ok h
    cases h
    have hdefine : b.facts.Read (stmtMentions (.classDef name bases body span))
        { f₁ with bound := addName f₁.bound name } := by
      simpa only [stmtMentions] using (useExprs_ok hbases).append (read_name f₁ name)
    have hinner := congrArg (·.ofClass name span) hdefine.facts
    refine read_definition hdefine rfl ?_ (readAll_ok hchild)
    simp only [stmtBlocks, hinner]
    rfl
  | .ret none _, h => by
    simp only [Block.read] at h
    cases h
    simpa only [stmtMentions, stmtBlocks] using .empty b
  | .ret (some value) _, h => by
    simp only [Block.read] at h
    obtain ⟨g, hvalue, h⟩ := bind_eq_ok h
    cases h
    simpa only [stmtMentions, stmtBlocks] using .of_facts (useExpr_ok hvalue)
  | .cond test body orelse _, h => by
    simp only [Block.read] at h
    obtain ⟨f₁, htest, h⟩ := bind_eq_ok h
    obtain ⟨b₂, hbody, h⟩ := bind_eq_ok h
    have htest' : b.Read (exprMentions test) [] { b with facts := f₁ } :=
      .of_facts (useExpr_ok htest)
    have hbody' := htest'.append (readAll_ok hbody)
    have horelse := hbody'.append (readAll_ok h)
    rw [blocks_of_read htest'.facts, blocks_of_read hbody'.facts, List.nil_append] at horelse
    simpa only [stmtMentions, stmtBlocks] using horelse
  | .loop test body _, h => by
    simp only [Block.read] at h
    obtain ⟨f₁, htest, h⟩ := bind_eq_ok h
    have htest' : b.Read (exprMentions test) [] { b with facts := f₁ } :=
      .of_facts (useExpr_ok htest)
    have hbody := htest'.append (readAll_ok h)
    rw [blocks_of_read htest'.facts, List.nil_append] at hbody
    simpa only [stmtMentions, stmtBlocks] using hbody
  | .each target iter body _, h => by
    simp only [Block.read] at h
    obtain ⟨f₁, hiter, h⟩ := bind_eq_ok h
    obtain ⟨f₂, htarget, h⟩ := bind_eq_ok h
    have htarget' : b.Read (exprMentions iter ++ targetMentions target) []
        { b with facts := f₂ } :=
      .of_facts ((useExpr_ok hiter).append (bindTarget_ok htarget))
    have hbody := htarget'.append (readAll_ok h)
    rw [blocks_of_read htarget'.facts, List.nil_append] at hbody
    simpa only [stmtMentions, stmtBlocks] using hbody
  | .global names span, h => by
    simp only [Block.read] at h
    obtain ⟨g, hnames, h⟩ := bind_eq_ok h
    cases h
    simpa only [stmtMentions, stmtBlocks] using .of_facts (declareGlobal_ok hnames).1
  | .nonlocal names span, h => by
    simp only [Block.read] at h
    split at h
    · cases h
    · obtain ⟨g, hnames, h⟩ := bind_eq_ok h
      cases h
      simpa only [stmtMentions, stmtBlocks] using .of_facts (declareNonlocal_ok hnames).1
  | .assert test message _, h => by
    simp only [Block.read] at h
    obtain ⟨f₁, htest, h⟩ := bind_eq_ok h
    obtain ⟨f₂, hmessage, h⟩ := bind_eq_ok h
    cases h
    simpa only [stmtMentions, stmtBlocks] using
      .of_facts ((useExpr_ok htest).append (useExprs_ok hmessage))
  | .brk _, h | .cont _, h | .pass _, h => by
    simp only [Block.read] at h
    cases h
    simpa only [stmtMentions, stmtBlocks] using .empty b

theorem readAll_ok {b c : Block} :
    {ss : List Stmt} → b.readAll ss = .ok c → b.Read (bodyMentions ss) (bodyBlocks b.facts ss) c
  | [], h => by
    simp only [Block.readAll] at h
    cases h
    simpa only [bodyMentions, bodyBlocks] using .empty b
  | s :: ss, h => by
    simp only [Block.readAll] at h
    obtain ⟨b₁, hs, h⟩ := bind_eq_ok h
    have hread := read_ok hs
    have hrest := readAll_ok h
    rw [blocks_of_read hread.facts] at hrest
    simpa only [bodyMentions, bodyBlocks] using hread.append hrest

end

end Lexiscope.Lexical
