import Lexiscope.Machine.Run
import Lexiscope.Proofs.Data.OrderedMap
/-!
# Runs that do the same

Two runs of the machine that start from stores which are alike stay alike, and give the same
values. What has to be alike, and what may be assumed of values and frames, is a parameter: one
walk over all operations of the machine then serves fuel, observers and type soundness.
-/

namespace Lexiscope.Machine

def Value.isPlain : Value → Bool
  | .tuple .. | .function _ | .method .. | .code _ => false
  | _ => true

def Source.All (p : Value → Prop) : Source → Prop
  | .items all _ => ∀ v ∈ all, p v
  | .enumerate inner _ => p inner
  | .zip inners => ∀ v ∈ inners, p v
  | .list .. | .range .. => True

/-- Every value that lies in the store, apart from those in frames. -/
structure Store.All (p : Value → Prop) (s : Store) : Prop where
  lists : ∀ items ∈ s.lists, ∀ v ∈ items, p v
  dicts : ∀ m ∈ s.dicts, m.All p
  cells : ∀ c ∈ s.cells, ∀ v ∈ c, p v
  spaces : ∀ m ∈ s.spaces, m.All p
  iterators : ∀ i ∈ s.iterators, i.source.All p

/-- What is bound stays bound: names of namespaces, and cells. -/
structure Store.Keeps (s t : Store) : Prop where
  names : ∀ r n, (s.lookup r n).isSome → (t.lookup r n).isSome
  cells : ∀ r, (s.cell r).isSome → (t.cell r).isSome

theorem Store.Keeps.refl (s : Store) : s.Keeps s := ⟨fun _ _ h => h, fun _ h => h⟩

theorem Store.Keeps.trans {s t u : Store} (h : s.Keeps t) (g : t.Keeps u) : s.Keeps u :=
  ⟨fun r n hr => g.names r n (h.names r n hr), fun r hr => g.cells r (h.cells r hr)⟩

/-- What more running leaves as it was: what is bound, and generators that have started. -/
structure Store.Before (s t : Store) : Prop where
  keeps : s.Keeps t
  started : ∀ r, (s.generator r).started = true → (t.generator r).started = true

theorem Store.Before.refl (s : Store) : s.Before s := ⟨.refl s, fun _ h => h⟩

theorem Store.Before.trans {s t u : Store} (h : s.Before t) (g : t.Before u) : s.Before u :=
  ⟨h.keeps.trans g.keeps, fun r hr => g.started r (h.started r hr)⟩

/-- What two runs have in common. -/
structure Likeness where
  /-- What holds of all values. -/
  value : Value → Prop
  /-- How a run may stop without a value. -/
  halt : Halt → Prop
  /-- What holds of all frames that run. -/
  frame : Frame → Prop
  /-- The code may yield. -/
  yields : LoadedCode → Prop
  /-- How the code of a generator in the one store is related to that in the other. -/
  code : LoadedCode → LoadedCode → Prop
  observers : List Observer → List Observer → Prop

namespace Likeness

variable (L : Likeness)

/-- A generator is ready to go on: its frame may run when it is woken. -/
def Ready (g : Generator) : Prop :=
  ∀ f, g.state = .suspended f → L.frame (if g.started then f.push .none else f)

/-- Two generators are alike. -/
structure SameGenerator (g h : Generator) : Prop where
  code : L.code g.code h.code
  state : h.state = g.state
  started : h.started = g.started
  ready : L.Ready g

/-- Two stores are alike: they differ at most in observers and in the code of generators. -/
structure Alike (s t : Store) : Prop where
  rest : t = { s with generators := t.generators, observers := t.observers }
  values : s.All L.value
  size : t.generators.size = s.generators.size
  generator : ∀ r, L.SameGenerator (s.generator r) (t.generator r)
  observers : L.observers s.observers t.observers

/-- How a run ended is followed by how another one did: with related values or the same halt,
in stores that are alike. A run that ended for want of fuel is followed by all. -/
inductive Ended {α β : Type} (r : α → β → Prop) (start : Store) :
    EStateM.Result Halt Store α → EStateM.Result Halt Store β → Prop where
  | ok {a b s t} : r a b → start.Before s → L.Alike s t → Ended r start (.ok a s) (.ok b t)
  | error {h s t} : L.halt h → start.Before s → L.Alike s t →
    Ended r start (.error h s) (.error h t)
  | outOfFuel {s e} : Ended r start (.error .outOfFuel s) e

/-- From stores that are alike, the second computation follows the first. -/
def Follows {α β : Type} (r : α → β → Prop) (x : Exec α) (y : Exec β) : Prop :=
  ∀ ⦃s t⦄, L.Alike s t → L.Ended r s (x s) (y t)

/-- The second computation follows the first with the same results, which are good. -/
abbrev Agree {α : Type} (good : α → Prop) (x y : Exec α) : Prop :=
  L.Follows (fun a b => a = b ∧ good a) x y

/-- What a likeness needs for the operations of the machine to respect it. -/
structure Lawful : Prop where
  /-- Values without parts are good. -/
  plain : ∀ v : Value, v.isPlain → L.value v
  tuple : ∀ id items, L.value (.tuple id items) ↔ ∀ v ∈ items, L.value v
  method : ∀ id receiver callee, L.value (.method id receiver callee) ↔
    L.value receiver ∧ L.value callee
  halt : ∀ h : Halt, h.isInternal = false → L.halt h
  code_refl : ∀ c, L.code c c
  title : ∀ c d, L.code c d → c.object.qualname = d.object.qualname

variable {L}

namespace Ended

variable {α β : Type} {r q : α → β → Prop} {start mid : Store}
  {a : EStateM.Result Halt Store α} {b : EStateM.Result Halt Store β}

theorem after (hs : start.Before mid) (h : L.Ended r mid a b) : L.Ended r start a b := by
  cases h with
  | ok hr hb ha => exact .ok hr (hs.trans hb) ha
  | error hh hb ha => exact .error hh (hs.trans hb) ha
  | outOfFuel => exact .outOfFuel

theorem mono (h : L.Ended r start a b) (hq : ∀ a b, r a b → q a b) : L.Ended q start a b := by
  cases h with
  | ok hr hb ha => exact .ok (hq _ _ hr) hb ha
  | error hh hb ha => exact .error hh hb ha
  | outOfFuel => exact .outOfFuel

end Ended

section Rules

variable {α β γ δ : Type} {r : α → β → Prop} {q : γ → δ → Prop}

theorem Ended.bind {start s t : Store} {x : Exec α} {y : Exec β} {f : α → Exec γ}
    {g : β → Exec δ} (hx : L.Ended r start (x s) (y t))
    (hf : ∀ a b s t, r a b → start.Before s → L.Alike s t → L.Ended q start (f a s) (g b t)) :
    L.Ended q start ((x >>= f) s) ((y >>= g) t) := by
  change L.Ended q start (EStateM.bind x f s) (EStateM.bind y g t)
  unfold EStateM.bind
  revert hx
  generalize x s = a
  generalize y t = b
  intro hx
  cases hx with
  | ok hr hb ha => exact hf _ _ _ _ hr hb ha
  | error hh hb ha => exact .error hh hb ha
  | outOfFuel => exact .outOfFuel

theorem Follows.bind {x : Exec α} {y : Exec β} {f : α → Exec γ} {g : β → Exec δ}
    (hx : L.Follows r x y) (hf : ∀ a b, r a b → L.Follows q (f a) (g b)) :
    L.Follows q (x >>= f) (y >>= g) :=
  fun _ _ h => (hx h).bind fun a b _ _ hr hb ha => (hf a b hr ha).after hb

theorem Follows.mono {r' : α → β → Prop} {x : Exec α} {y : Exec β} (h : L.Follows r x y)
    (hr : ∀ a b, r a b → r' a b) : L.Follows r' x y :=
  fun _ _ hst => (h hst).mono hr

theorem follows_pure {a : α} {b : β} (h : r a b) : L.Follows r (pure a) (pure b) :=
  fun s _ hst => .ok h (.refl s) hst

theorem follows_throw {h : Halt} (hh : L.halt h) : L.Follows r (throw h) (throw h) :=
  fun s _ hst => .error hh (.refl s) hst

theorem follows_outOfFuel {y : Exec β} : L.Follows r (throw .outOfFuel) y :=
  fun _ _ _ => .outOfFuel

/-- A computation that reads the store may be compared with the stores at hand. -/
theorem follows_get {f : Store → Exec γ} {g : Store → Exec δ}
    (h : ∀ s t, L.Alike s t → L.Follows q (f s) (g t)) : L.Follows q (get >>= f) (get >>= g) :=
  fun s t hst => h s t hst hst

theorem Agree.bind {p : α → Prop} {x y : Exec α} {f : α → Exec γ} {g : α → Exec δ}
    (hx : L.Agree p x y) (hf : ∀ a, p a → L.Follows q (f a) (g a)) :
    L.Follows q (x >>= f) (y >>= g) :=
  Follows.bind hx fun _ _ ⟨hab, ha⟩ => hab ▸ hf _ ha

theorem Agree.mono {p p' : α → Prop} {x y : Exec α} (h : L.Agree p x y)
    (hp : ∀ a, p a → p' a) : L.Agree p' x y :=
  Follows.mono h fun _ _ ⟨hab, ha⟩ => ⟨hab, hp _ ha⟩

theorem agree_pure {p : α → Prop} {a : α} (h : p a) : L.Agree p (pure a) (pure a) :=
  follows_pure ⟨rfl, h⟩

theorem Agree.ok_self {p : α → Prop} {x : Exec α} {s t : Store} {a : α} (hx : L.Agree p x x)
    (hs : L.Alike s s) (h : x s = .ok a t) : p a ∧ L.Alike t t := by
  have hself := hx hs
  rw [h] at hself
  cases hself with
  | ok hp _ ht => exact ⟨hp.2, ht⟩

theorem Agree.error_self {p : α → Prop} {x : Exec α} {s t : Store} {e : Halt}
    (hx : L.Agree p x x) (hs : L.Alike s s) (h : x s = .error e t) :
    e = .outOfFuel ∨ L.halt e ∧ L.Alike t t := by
  have hself := hx hs
  rw [h] at hself
  cases hself with
  | error he _ ht => exact .inr ⟨he, ht⟩
  | outOfFuel => exact .inl rfl

theorem agree_ite {p : α → Prop} {c : Prop} [Decidable c] {x x' y y' : Exec α}
    (hx : L.Agree p x x') (hy : L.Agree p y y') :
    L.Agree p (if c then x else y) (if c then x' else y') := by
  split
  · exact hx
  · exact hy

theorem Agree.map {p : α → Prop} {p' : γ → Prop} {x y : Exec α} {f : α → γ}
    (hx : L.Agree p x y) (hf : ∀ a, p a → p' (f a)) : L.Agree p' (f <$> x) (f <$> y) := by
  rw [map_eq_pure_bind, map_eq_pure_bind]
  exact hx.bind fun a ha => agree_pure (hf a ha)

theorem agree_mapM {ι : Type} {p : α → Prop} {f g : ι → Exec α} {items : List ι}
    (h : ∀ i ∈ items, L.Agree p (f i) (g i)) :
    L.Agree (fun as => as.length = items.length ∧ ∀ a ∈ as, p a)
      (items.mapM f) (items.mapM g) := by
  induction items with
  | nil => simpa using agree_pure (by simp)
  | cons i items ih =>
    rw [List.mapM_cons, List.mapM_cons]
    refine (h i List.mem_cons_self).bind fun a ha => ?_
    refine (ih fun j hj => h j (List.mem_cons_of_mem i hj)).bind fun as has => ?_
    refine agree_pure ⟨by simp [has.1], ?_⟩
    rintro b (_ | ⟨_, hb⟩)
    · exact ha
    · exact has.2 b hb

theorem agree_mapM_preimage {ι : Type} {m : α → ι} {f g : ι → Exec α} {items : List ι}
    (h : ∀ i ∈ items, L.Agree (fun a => i = m a) (f i) (g i)) :
    L.Agree (fun as => items = as.map m) (items.mapM f) (items.mapM g) := by
  induction items with
  | nil => exact agree_pure rfl
  | cons i items ih =>
    rw [List.mapM_cons, List.mapM_cons]
    refine (h i List.mem_cons_self).bind fun a ha => ?_
    refine (ih fun j hj => h j (List.mem_cons_of_mem i hj)).bind fun as has => agree_pure ?_
    rw [List.map_cons, ← ha, ← has]

end Rules

end Likeness

end Lexiscope.Machine
