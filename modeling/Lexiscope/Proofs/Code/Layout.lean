import Lexiscope.Code.Basic
/-!
# Layouts of the stack

A layout says for every place in the code what lies on the stack when the place is reached: how
many operands, and of some of them what they are. Code that has a layout never takes an operand
that is not there, and every index in it lies in its pool.
-/

namespace Lexiscope.Code

/-- What is known of an operand. -/
inductive Kind where
  | any
  | cell
  | cells (count : Nat)
  | texts (count : Nat)
  | tuple
  | dict
  | code (object : Object)

/-- What is known of the operands on a stack, the top first. -/
abbrev Kinds := List Kind

def Kind.Describes : Kind → Constant Object → Prop
  | .any, _ => True
  | .texts n, .names names => names.length = n
  | .code c, .code d => c = d
  | _, _ => False

def Kind.Holds (taken : Kinds) : Kind → Prop
  | .any | .tuple => True
  | .cells n => taken = List.replicate n .cell
  | _ => False

/-- How many values a function takes from below its code. -/
def FunctionParts.count (parts : FunctionParts) : Nat :=
  parts.closure.toNat + parts.keywordDefaults.toNat + parts.defaults.toNat

/-- The parts of a function below its code: the closure, the defaults of keyword-only
parameters, the defaults of the others. -/
def FunctionParts.kinds (parts : FunctionParts) (free : Nat) : Kinds :=
  (if parts.closure then [.cells free] else []) ++
    (if parts.keywordDefaults then [.dict] else []) ++ if parts.defaults then [.tuple] else []

/-- The pools that operands of instructions are indices of. -/
structure Pools where
  constants : Array (Constant Object)
  names : Nat
  slots : Nat
  cells : Nat

def Object.pools (c : Object) : Pools where
  constants := c.constants
  names := c.names.size
  slots := c.varnames.size
  cells := c.derefNames.length

/-- The second pools have all that the first have at the same places. -/
structure Pools.Within (p q : Pools) : Prop where
  constants : ∀ (i : Nat) (k : Constant Object), p.constants[i]? = some k →
    q.constants[i]? = some k
  names : p.names ≤ q.names
  slots : p.slots ≤ q.slots
  cells : p.cells ≤ q.cells

namespace Instr

/-- How many operands an instruction takes. One that looks at the top takes it and may put it
back. -/
def takes : Instr → Nat
  | .storeFast _ | .storeDeref _ | .storeGlobal _ | .storeName _ | .loadAttr _ | .unary _
  | .unpackSequence _ | .jumpIfFalse _ | .jumpIfTrue _ | .jumpIfFalseOrPop _
  | .jumpIfTrueOrPop _ | .getIter | .forIter _ | .pop | .dup | .yieldValue | .raise
  | .raiseAssert | .returnValue => 1
  | .storeAttr _ | .loadSubscript | .binary _ | .compare _ | .dupTwo | .rot2 => 2
  | .storeSubscript | .rot3 => 3
  | .buildList n | .buildTuple n => n
  | .buildDict n => 2 * n
  | .call n => n + 1
  | .callKw n => n + 2
  | .makeFunction bits => (FunctionParts.ofBits bits).count + 1
  | _ => 0

/-- The operands are of the right kind, the index lies in its pool, and what is left on the
stack is right for the next instruction or for the target of the jump. -/
def Lays (p : Pools) (next target : Kinds → Prop) (taken rest : Kinds) : Instr → Prop
  | .loadConst i => ∃ k κ, p.constants[i]? = some k ∧ κ.Describes k ∧ next (κ :: rest)
  | .loadFast i => i < p.slots ∧ next (.any :: rest)
  | .storeFast i => i < p.slots ∧ next rest
  | .loadDeref i | .loadClassDeref i => i < p.cells ∧ next (.any :: rest)
  | .storeDeref i => i < p.cells ∧ next rest
  | .loadClosure i => i < p.cells ∧ next (.cell :: rest)
  | .loadGlobal i | .loadName i | .loadAttr i => i < p.names ∧ next (.any :: rest)
  | .storeGlobal i | .storeName i | .storeAttr i => i < p.names ∧ next rest
  | .storeSubscript | .pop => next rest
  | .buildTuple _ => ∃ κ : Kind, κ.Holds taken ∧ next (κ :: rest)
  | .buildDict _ => ∃ κ, (κ = .any ∨ κ = .dict) ∧ next (κ :: rest)
  | .unpackSequence n => next (List.replicate n .any ++ rest)
  | .callKw n => (∃ m args, taken = .texts m :: args ∧ m ≤ n) ∧ next (.any :: rest)
  | .makeFunction bits => (∃ c : Object, .code c ∈ p.constants ∧
      taken = .code c :: (FunctionParts.ofBits bits).kinds c.freevars.length ∧
      ((FunctionParts.ofBits bits).closure = false → c.freevars = [])) ∧ next (.any :: rest)
  | .jump _ => target rest
  | .jumpForward _ => False
  | .jumpIfFalse _ | .jumpIfTrue _ => next rest ∧ target rest
  | .jumpIfFalseOrPop _ | .jumpIfTrueOrPop _ => next rest ∧ target (taken ++ rest)
  | .forIter _ => next (.any :: (taken ++ rest)) ∧ target rest
  | .dup | .dupTwo => next (taken ++ (taken ++ rest))
  | .rot2 => ∃ κ κ', taken = [κ, κ'] ∧ next (κ' :: κ :: rest)
  | .rot3 => ∃ κ κ' κ'', taken = [κ, κ', κ''] ∧ next (κ' :: κ'' :: κ :: rest)
  | .await | .raise | .raiseAssert | .returnValue => True
  | _ => next (.any :: rest)

/-- The instruction may stand where the stack is laid out as given. -/
def Suits (p : Pools) (next target : Kinds → Prop) (before : Kinds) (i : Instr) : Prop :=
  ∃ taken rest, before = taken ++ rest ∧ taken.length = i.takes ∧
    i.Lays p next target taken rest

theorem Lays.mono {p q : Pools} {next next' target target' : Kinds → Prop} {taken rest : Kinds}
    {i : Instr} (h : i.Lays p next target taken rest) (hp : p.Within q)
    (hnext : ∀ σ, next σ → next' σ) (htarget : ∀ σ, target σ → target' σ) :
    i.Lays q next' target' taken rest := by
  have hnames := hp.names
  have hslots := hp.slots
  have hcells := hp.cells
  cases i <;> simp only [Lays] at h ⊢
  case loadConst n =>
    obtain ⟨k, κ, hk, hκ, h⟩ := h
    exact ⟨k, κ, hp.constants n k hk, hκ, hnext _ h⟩
  case makeFunction bits =>
    obtain ⟨⟨c, hc, htaken, hfree⟩, h⟩ := h
    obtain ⟨n, hn⟩ := Array.mem_iff_getElem?.1 hc
    exact ⟨⟨c, Array.mem_of_getElem? (hp.constants n _ hn), htaken, hfree⟩, hnext _ h⟩
  all_goals grind

theorem Suits.mono {p q : Pools} {next next' target target' : Kinds → Prop} {before : Kinds}
    {i : Instr} (h : i.Suits p next target before) (hp : p.Within q)
    (hnext : ∀ σ, next σ → next' σ) (htarget : ∀ σ, target σ → target' σ) :
    i.Suits q next' target' before := by
  obtain ⟨taken, rest, hbefore, hlength, h⟩ := h
  exact ⟨taken, rest, hbefore, hlength, h.mono hp hnext htarget⟩

end Instr

structure Object.LaidOut (c : Object) (stack : Nat → Kinds) : Prop where
  start : stack 0 = []
  nonempty : 0 < c.instructions.size
  instruction : ∀ (pc : Nat) (i : Instr), c.instructions[pc]? = some i →
    i.Suits c.pools (fun σ => pc + 1 < c.instructions.size ∧ stack (pc + 1) = σ)
      (fun σ => ∃ t, i.target? = some t ∧ t < c.instructions.size ∧ stack t = σ) (stack pc)

/-- The code has a layout, and so has all code in its pool. Its parameters have slots, and it
yields only if it is the code of a generator. -/
inductive Object.Sound : Object → Prop where
  | mk {c : Object} (stack : Nat → Kinds) : c.LaidOut stack → c.paramCount ≤ c.varnames.size →
    (.yieldValue ∈ c.instructions →
      c.flags.isGenerator = true ∨ c.flags.isAsyncGenerator = true) →
    (∀ d, .code d ∈ c.constants → d.Sound) → c.Sound

theorem Object.Sound.inner {c d : Object} (h : c.Sound) (hd : .code d ∈ c.constants) : d.Sound := by
  cases h with
  | mk _ _ _ _ hinner => exact hinner d hd

end Lexiscope.Code
