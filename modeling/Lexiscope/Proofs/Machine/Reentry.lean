import Lexiscope.Proofs.Machine.Advances
/-!
# Iterators that are advanced while they are

An iterator over the items of other iterators may run a body in order to be advanced, and the body may
ask for the next item of the same iterator. A generator that is resumed so raises an exception, which
the body sees. An iterator stops the machine, however far inside it is asked, since it stays marked
until its advance is over.
-/

namespace Lexiscope.Machine

open Exec

/-- Stores in which a built-in may ask for items, from the store in which it is called. By itself it
leaves iterators alone. -/
abbrev Furnishes (n : Nat) : Store → Store → Prop :=
  Relation.ReflTransGen fun s t => s.Mild t ∨ ∃ v items, collect n v s = .ok items t

/-- A task asks for another, and iterators are advanced only by being asked for items. -/
structure Stage.Seeks (g h : Stage) : Prop where
  asks : g.Asks h
  furnishes : ∀ {n id b args keywords s}, g = ⟨n + 1, .call (.builtin id b) args keywords, s⟩ →
    Furnishes n s h.store

/-- The stages of a run in which iterators are advanced only by being asked for items. -/
abbrev Stage.Leads : Stage → Stage → Prop := Relation.ReflTransGen Stage.Seeks

section Marked

variable {s t : Store} {r : IteratorRef} {q : GeneratorRef} {g h : Stage} {n : Nat} {f : Frame}

/-- The iterator is there, and it is being advanced. -/
def Store.Marks (s : Store) (r : IteratorRef) : Prop :=
  r.index < s.iterators.size ∧ (s.iterator r).busy = true

theorem Store.Resettled.marks (h : s.Resettled t) (hmarked : s.Marks r) : t.Marks r := by
  obtain ⟨hr, hbusy⟩ := hmarked
  have hkept : t.iterator r = s.iterator r := h.busy r hr hbusy
  exact ⟨Nat.lt_of_lt_of_le hr h.size, hkept ▸ hbusy⟩

theorem Store.Marks.withBusy (hmarked : s.Marks r) (q : IteratorRef) : (s.withBusy q true).Marks r := by
  obtain ⟨hr, hbusy⟩ := hmarked
  refine ⟨Store.size_withBusy.symm ▸ hr, ?_⟩
  by_cases heq : r = q
  · subst heq
    rw [Store.withBusy, Store.iterator_withIterator hr]
  · rw [Store.withBusy, Store.iterator_withIterator_of_ne heq]
    exact hbusy

theorem resettled_of_furnishes (h : Furnishes n s t) : s.Resettled t := by
  induction h with
  | refl => exact Change.advancing.refl s
  | tail _ hstep ih =>
    rcases hstep with hmild | ⟨v, items, hcollect⟩
    · exact ih.trans (Change.advancing.mild hmild)
    · exact ih.trans (((advancing_steady.runsAt n).collect v).ok hcollect)

/-- Between a stage and one that it asks for, the advances that have begun are over, and at most one
iterator is marked. -/
theorem Stage.Seeks.resettled (hseek : g.Seeks h) :
    g.store.Resettled h.store ∨ ∃ q, h.store = g.store.withBusy q true := by
  obtain ⟨hask, hfurnishes⟩ := hseek
  have hruns := advancing_steady.runsAt
  have hallowed : ∀ {α : Type} {x : Exec α} {a : α} {s t : Store}, Change.advancing.Allows x →
      x s = .ok a t → s.Resettled t := fun hx => hx.ok
  cases hask with
  | goes hturn => exact .inl (hallowed ((hruns _).turn advancing_steady.step _) hturn)
  | invokes hstep | unpacks hstep | advances hstep =>
    exact .inl (hallowed (advancing_steady.step _) hstep)
  | enters => exact .inl (advancing_entered _ _)
  | function | builds | method | type | generator | enumerates | zips | first | drained =>
    exact .inl (Change.advancing.refl _)
  | collects | takes => exact .inl (resettled_of_furnishes (hfurnishes rfl))
  | body hentered => exact .inl (hallowed allows_enterFunction hentered)
  | initializes hspace => exact .inl (hallowed allows_newSpace hspace)
  | classBody hclasses hspace hentered =>
    have hbases := hallowed allows_requireClasses hclasses
    exact .inl ((hbases.trans (hallowed allows_newSpace hspace)).trans
      (hallowed allows_enterClassBody hentered))
  | @iterator n r s t hset =>
    rw [setBusy_run] at hset
    cases hset
    exact .inr ⟨r, rfl⟩
  | others hnext | more hnext => exact .inl (hallowed ((hruns _).nextItem _) hnext)
  | drains hiterator => exact .inl (hallowed allows_makeIterator hiterator)
  | wakes hwake => exact .inl (hallowed allows_wake hwake)
  | module hmade => exact .inl (hallowed allows_make hmade)

theorem Stage.Seeks.marks (hseek : g.Seeks h) (hmarked : g.store.Marks r) : h.store.Marks r := by
  rcases hseek.resettled with hrest | ⟨q, hq⟩
  · exact hrest.marks hmarked
  · exact hq ▸ hmarked.withBusy q

/-- An iterator that is being advanced when a task begins is so in all that the task leads to. -/
theorem Stage.Leads.marks (hleads : g.Leads h) (hmarked : g.store.Marks r) : h.store.Marks r := by
  induction hleads with
  | refl => exact hmarked
  | tail _ hseek ih => exact hseek.marks ih

theorem Stage.Leads.comes (hleads : g.Leads h) : g.Comes h := by
  induction hleads with
  | refl => exact .refl
  | tail _ hseek ih => exact ih.tail hseek.asks

/-- Only iterators over other iterators ask for anything while they are advanced. -/
theorem source_of_asks (hask : Stage.Asks ⟨n, .draw r, s⟩ h) :
    (∃ inner count, (s.iterator r).source = .enumerate inner count) ∨
      ∃ inners, (s.iterator r).source = .zip inners := by
  cases hask with
  | enumerates hsource => exact .inl ⟨_, _, hsource⟩
  | zips hsource => exact .inr ⟨_, hsource⟩

/-- Whoever asks for something is there. -/
theorem inBounds_of_asks (hask : Stage.Asks ⟨n, .draw r, s⟩ h) : r.index < s.iterators.size := by
  apply inBounds_of_source
  intro l i hlist
  rcases source_of_asks hask with ⟨inner, count, hsource⟩ | ⟨inners, hsource⟩
  · rw [hsource] at hlist
    cases hlist
  · rw [hsource] at hlist
    cases hlist

theorem nextItem_running (hrunning : (s.generator q).state = .running) (n : Nat) :
    nextItem (n + 2) (.generator q) s =
      .error (.raised ⟨.valueError, "generator already executing", none, false⟩) s := by
  have hnot : (s.generator q).state ≠ .finished := by simp [hrunning]
  rw [nextItem_generator hnot, map_eq_pure_bind]
  exact bind_error (resume_running hrunning n)

end Marked

/-- The advance of a value begins: an iterator has been marked and draws an item, or a generator has
been woken and its frame goes on. -/
inductive Stage.Begins : Value → Stage → Prop where
  | draws {n r} {s : Store} : Begins (.iterator r) ⟨n, .draw r, s.withBusy r true⟩
  | runs {n q f s t} : wake q s = .ok f t → Begins (.generator q) ⟨n, .execute f, t⟩

/-- What comes of asking a value for an item that is being advanced. -/
def Value.refusal : Value → Halt
  | .iterator _ => .reentered
  | _ => .raised ⟨.valueError, "generator already executing", Option.none, false⟩

section Outcome

variable {v : Value} {g : Stage} {m : Nat} {t : Store}

/-- Whatever the advance of a value leads to, and however far inside, the value gives no item there. A
generator raises an exception, and an iterator stops the machine. -/
theorem reentry_outcome (hbegins : g.Begins v) (hleads : g.Leads ⟨m + 2, .next v, t⟩) :
    nextItem (m + 2) v t = .error v.refusal t := by
  cases hbegins with
  | @draws n r s =>
    -- The first stage that the draw asks for tells that the iterator is there, so that it is marked.
    obtain heq | ⟨h, hseek, hrest⟩ := Relation.ReflTransGen.cases_head hleads
    · cases heq
    have hin := inBounds_of_asks hseek.asks
    rw [Store.size_withBusy] at hin
    have hmarked : (s.withBusy r true).Marks r := by
      refine ⟨Store.size_withBusy.symm ▸ hin, ?_⟩
      rw [Store.withBusy, Store.iterator_withIterator hin]
    exact nextItem_busy (hleads.marks hmarked).2 (m + 1)
  | runs hwake => exact nextItem_running (running_inside hwake hleads.comes) m

/-- A module with an enumeration of a generator whose body asks for the next item of the enumeration. -/
def selfServing : String := "def g() \x7b yield next(e) \x7d\ne = enumerate(g())"

/-- The enumeration of the module, and the store after the module was loaded. -/
def loadedEnumeration : Option (IteratorRef × Store) :=
  match load 100 selfServing "m" {} with
  | (.error _, _) => none
  | (.ok m, s) =>
    match s.lookup m.globals "e" with
    | some (.iterator r) => some (r, s)
    | _ => none

/-- The body of the generator under an enumeration asks for the next item of the enumeration after two
turns. -/
def asksBack (r : IteratorRef) (s : Store) : Bool :=
  match (s.iterator r).source with
  | .enumerate (.generator q) _ =>
    match wake q s with
    | .error .. => false
    | .ok f t =>
      match turn 55 f (t.entered f) with
      | .ok (.goes f₁) t₁ =>
        match turn 54 f₁ t₁ with
        | .ok (.goes f₂) t₂ =>
          match step f₂ t₂ with
          | .ok (.invoke (.builtin _ .next) [.iterator p] [] _) _ =>
            decide (p = r) && decide (t.depth < t.limit)
          | _ => false
        | _ => false
      | _ => false
  | _ => false

theorem leads_of_asksBack {r : IteratorRef} {s : Store} (hasks : asksBack r s = true) :
    ∃ t, Stage.Leads ⟨60, .draw r, s⟩ ⟨52, .next (.iterator r), t⟩ := by
  unfold asksBack at hasks
  split at hasks
  case h_2 => cases hasks
  rename_i q count hsource
  split at hasks
  case h_1 => cases hasks
  rename_i f t hwake
  split at hasks
  case h_2 => cases hasks
  rename_i f₁ t₁ hturn₁
  split at hasks
  case h_2 => cases hasks
  rename_i f₂ t₂ hturn₂
  split at hasks
  case h_2 => cases hasks
  rename_i id p f₃ t₃ hstep
  obtain ⟨heq, hroom⟩ := Bool.and_eq_true_iff.1 hasks
  cases of_decide_eq_true heq
  have hsteps : Stage.Leads ⟨60, .draw r, s⟩ ⟨56, .frame f, t.entered f⟩ :=
    .tail (.tail (.tail (.single ⟨.enumerates hsource, nofun⟩) ⟨.generator, nofun⟩)
      ⟨.wakes hwake, nofun⟩) ⟨.enters (of_decide_eq_true hroom), nofun⟩
  have hcall : Stage.Leads ⟨60, .draw r, s⟩ ⟨53, .call (.builtin id .next) [.iterator r] [], t₃⟩ :=
    .tail (.tail (.tail hsteps ⟨.goes hturn₁, nofun⟩) ⟨.goes hturn₂, nofun⟩) ⟨.invokes hstep, nofun⟩
  exact ⟨t₃, hcall.tail ⟨.takes .refl, fun heq => by cases heq; exact .refl⟩⟩

/-- The body is refused the item of the enumeration that it is run for. -/
theorem reentry_outcome_selfServing : ∃ r s t, loadedEnumeration = some (r, s) ∧
    Stage.Begins (.iterator r) ⟨60, .draw r, s.withBusy r true⟩ ∧
    Stage.Leads ⟨60, .draw r, s.withBusy r true⟩ ⟨52, .next (.iterator r), t⟩ ∧
    nextItem 52 (.iterator r) t = .error .reentered t := by
  have hruns : (loadedEnumeration.any fun p => asksBack p.1 (p.2.withBusy p.1 true)) = true := by
    decide +kernel
  obtain ⟨⟨r, s⟩, hloaded, hasks⟩ := (Option.any_eq_true _ _).1 hruns
  obtain ⟨t, hleads⟩ := leads_of_asksBack hasks
  have hrefused := reentry_outcome .draws hleads
  exact ⟨r, s, t, hloaded, .draws, hleads, hrefused⟩

end Outcome

/-- A module with a function that advances an iterator over a generator, whose body advances the same
iterator. -/
def circular (maker : String) : String :=
  "def advance() \x7b\n  def g() \x7b yield next(e) \x7d\n  e = " ++ maker ++
    "(g())\n  return next(e)\n\x7d"

def haltOfCircular (maker : String) : Option Halt :=
  match load 100 (circular maker) "m" {} with
  | (.error _, _) => none
  | (.ok m, s) =>
    (s.lookup m.globals "advance").bind fun v =>
      match callValue 100 v [] [] s with
      | .ok _ _ => none
      | .error h _ => some h

theorem circular_halts : ∀ maker ∈ ["enumerate", "zip"], haltOfCircular maker = some .reentered := by
  decide +kernel

/-- A program does not always come to a value or an exception where it advances an iterator that is being
advanced. -/
theorem reentrant_iteration_crashes : ¬ ∀ (fuel : Nat) (source name : String) (s t u : Store)
    (m : Module) (v : Value) (h : Halt), load fuel source "m" s = (.ok m, t) →
      t.lookup m.globals name = some v → callValue fuel v [] [] t = .error h u →
      h = .outOfFuel ∨ ∃ e, h = .raised e := by
  intro hclaim
  have hhalt := circular_halts "enumerate" (by simp)
  unfold haltOfCircular at hhalt
  split at hhalt
  · cases hhalt
  rename_i m t hload
  obtain ⟨v, hv, hhalt⟩ := Option.bind_eq_some_iff.1 hhalt
  split at hhalt
  · cases hhalt
  rename_i h u hcall
  cases hhalt
  rcases hclaim 100 _ "advance" {} t u m v _ hload hv hcall with hfuel | ⟨e, he⟩
  · cases hfuel
  · cases he

/-- A generator that asks for its own items does not stop the machine. -/
example : haltOfCircular "" =
    some (.raised ⟨.valueError, "generator already executing", none, false⟩) := by
  decide +kernel

end Lexiscope.Machine
