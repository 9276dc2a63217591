import Lexiscope.Proofs.Machine.Paths
/-!
# What one function of the machine asks of another

A call asks for the frame of a function, a frame asks for calls and items, items ask for generators,
and these ask for frames again. Whatever is asked for in the course of a run, it is asked for at a
point of its path, and a frame runs only while it is the one that was entered last.
-/

namespace Lexiscope.Machine

open Exec

/-- What a function of the machine is asked to do. -/
inductive Task where
  | frame (f : Frame)
  | execute (f : Frame)
  | call (callee : Value) (args : List Value) (keywords : Keywords)
  | function (f : FunctionValue) (args : List Value) (keywords : Keywords)
  | make (c : Class) (args : List Value) (keywords : Keywords)
  | build (args : List Value)
  | next (v : Value)
  | draw (r : IteratorRef)
  | row (vs : List Value)
  | items (v : Value)
  | drain (iterator : Value) (items : Array Value)
  | resume (r : GeneratorRef)
  | module (code : LoadedCode) (globals : SpaceRef)

/-- A host may ask for it. Frames are asked for by the machine alone. -/
def Task.IsWhole : Task → Prop
  | frame _ | execute _ => False
  | _ => True

/-- A task in a store, with the fuel that there is for it. -/
structure Stage where
  fuel : Nat
  task : Task
  store : Store

def Stage.after : Stage → Store
  | ⟨n, .frame f, s⟩ => (runFrame n f).after s
  | ⟨n, .execute f, s⟩ => (Machine.execute n f).after s
  | ⟨n, .call callee args keywords, s⟩ => (callValue n callee args keywords).after s
  | ⟨n, .function f args keywords, s⟩ => (callFunction n f args keywords).after s
  | ⟨n, .make c args keywords, s⟩ => (instantiate n c args keywords).after s
  | ⟨n, .build args, s⟩ => (buildClass n args).after s
  | ⟨n, .next v, s⟩ => (nextItem n v).after s
  | ⟨n, .draw r, s⟩ => (Machine.draw n r).after s
  | ⟨n, .row vs, s⟩ => (nextRow n vs).after s
  | ⟨n, .items v, s⟩ => (collect n v).after s
  | ⟨n, .drain v items, s⟩ => (Machine.drain n v items).after s
  | ⟨n, .resume r, s⟩ => (Machine.resume n r).after s
  | ⟨n, .module code globals, s⟩ => (runModule n code globals).after s

/-- The task is done as a whole, without an iterator that is advanced around it. -/
def Task.IsOperation : Task → Prop
  | frame _ | execute _ | draw _ => False
  | _ => True

theorem Change.Steady.operation {c : Change} (hc : c.Steady)
    (hmodule : ∀ n code globals, c.Allows (runModule n code globals)) {n : Nat} {task : Task}
    {s : Store} (htask : task.IsOperation) : c.rel s (Stage.after ⟨n, task, s⟩) := by
  have hruns := hc.runsAt n
  cases task with
  | frame f | execute f | draw r => exact htask.elim
  | call callee args keywords => exact (hruns.callValue callee args keywords).after s
  | function f args keywords => exact (hruns.callFunction f args keywords).after s
  | make d args keywords => exact (hruns.instantiate d args keywords).after s
  | build args => exact (hruns.buildClass args).after s
  | next v => exact (hruns.nextItem v).after s
  | row vs => exact (hruns.nextRow vs).after s
  | items v => exact (hruns.collect v).after s
  | drain v items => exact (hruns.drain v items).after s
  | resume r => exact (hruns.resume r).after s
  | module code globals => exact (hmodule n code globals).after s

theorem Change.Steady.whole {c : Change} [c.Loose] (hc : c.Steady)
    (hmodule : ∀ n code globals, c.Allows (runModule n code globals)) {n : Nat} {task : Task}
    {s : Store} (htask : task.IsWhole) : c.rel s (Stage.after ⟨n, task, s⟩) := by
  cases task with
  | frame f | execute f => exact htask.elim
  | draw r => exact (Change.RunsAt.draw (fun m _ => hc.runsAt m) r).after s
  | _ => exact hc.operation hmodule trivial

/-- Stores in which a built-in may ask for items, from the store in which it is called: it has made
quiet changes, and been given the items of values. -/
abbrev Serves (n : Nat) : Store → Store → Prop :=
  Relation.ReflTransGen fun s t => s.Quiet t ∨ ∃ v items, collect n v s = .ok items t

/-- A task asks for another. -/
inductive Stage.Asks : Stage → Stage → Prop where
  | goes {n f g s t} : turn n f s = .ok (.goes g) t → Asks ⟨n + 1, .frame f, s⟩ ⟨n, .frame g, t⟩
  | invokes {n f g s t callee args keywords} : step f s = .ok (.invoke callee args keywords g) t →
    Asks ⟨n + 1, .frame f, s⟩ ⟨n, .call callee args keywords, t⟩
  | unpacks {n f g s t v count} : step f s = .ok (.unpack v count g) t →
    Asks ⟨n + 1, .frame f, s⟩ ⟨n, .items v, t⟩
  | advances {n f g s t v target} : step f s = .ok (.advance v target g) t →
    Asks ⟨n + 1, .frame f, s⟩ ⟨n, .next v, t⟩
  | enters {n f s} : s.depth < s.limit → Asks ⟨n + 1, .execute f, s⟩ ⟨n, .frame f, s.entered f⟩
  | function {n f args keywords s} :
    Asks ⟨n + 1, .call (.function f) args keywords, s⟩ ⟨n, .function f args keywords, s⟩
  | builds {n id args keywords s} :
    Asks ⟨n + 1, .call (.builtin id .buildClass) args keywords, s⟩ ⟨n, .build args, s⟩
  | method {n id receiver callee args keywords s} :
    Asks ⟨n + 1, .call (.method id receiver callee) args keywords, s⟩
      ⟨n, .call callee (receiver :: args) keywords, s⟩
  | type {n c args keywords s} :
    Asks ⟨n + 1, .call (.type c) args keywords, s⟩ ⟨n, .make c args keywords, s⟩
  | collects {n id b args keywords s t v} : Serves n s t →
    Asks ⟨n + 1, .call (.builtin id b) args keywords, s⟩ ⟨n, .items v, t⟩
  | takes {n id b args keywords s t v} : Serves n s t →
    Asks ⟨n + 1, .call (.builtin id b) args keywords, s⟩ ⟨n, .next v, t⟩
  | body {n f args keywords g s t} : enterFunction f args keywords s = .ok g t →
    f.code.object.flags.isGenerator = false →
    Asks ⟨n + 1, .function f args keywords, s⟩ ⟨n, .execute g, t⟩
  | initializes {n c args keywords s t space init} : newSpace .empty s = .ok space t →
    c.lookup t "__init__" = some init →
    Asks ⟨n + 1, .make c args keywords, s⟩ ⟨n, .call init (.object c space :: args) keywords, t⟩
  | classBody {n body name bases classes space f s t u w} :
    requireClasses bases s = .ok classes t → newSpace .empty t = .ok space u →
    enterClassBody body space u = .ok f w →
    Asks ⟨n + 1, .build (.function body :: .str name :: bases), s⟩ ⟨n, .execute f, w⟩
  | generator {n r s} : Asks ⟨n + 1, .next (.generator r), s⟩ ⟨n, .resume r, s⟩
  | iterator {n r s t} : setBusy r true s = .ok () t →
    Asks ⟨n + 1, .next (.iterator r), s⟩ ⟨n, .draw r, t⟩
  | enumerates {n r s inner count} : (s.iterator r).source = .enumerate inner count →
    Asks ⟨n + 1, .draw r, s⟩ ⟨n, .next inner, s⟩
  | zips {n r s vs} : (s.iterator r).source = .zip vs → Asks ⟨n + 1, .draw r, s⟩ ⟨n, .row vs, s⟩
  | first {n v vs s} : Asks ⟨n + 1, .row (v :: vs), s⟩ ⟨n, .next v, s⟩
  | others {n v vs item s t} : nextItem n v s = .ok (some item) t →
    Asks ⟨n + 1, .row (v :: vs), s⟩ ⟨n, .row vs, t⟩
  | drains {n v iterator s t} : makeIterator v s = .ok iterator t →
    Asks ⟨n + 1, .items v, s⟩ ⟨n, .drain iterator #[], t⟩
  | drained {n v items s} : Asks ⟨n + 1, .drain v items, s⟩ ⟨n, .next v, s⟩
  | more {n v items item s t} : nextItem n v s = .ok (some item) t →
    Asks ⟨n + 1, .drain v items, s⟩ ⟨n, .drain v (items.push item), t⟩
  | wakes {n r f s t} : wake r s = .ok f t → Asks ⟨n + 1, .resume r, s⟩ ⟨n, .execute f, t⟩
  | module {n code globals f s t} :
    Frame.make code globals (emptySlots code) [] none s = .ok f t →
    Asks ⟨n, .module code globals, s⟩ ⟨n, .execute f, t⟩

/-- The stages of a run. -/
abbrev Stage.Comes : Stage → Stage → Prop := Relation.ReflTransGen Stage.Asks

theorem allowed_of_serves {c : Change} [c.Loose] {n : Nat} {s t : Store} (hc : c.Steady) (h : Serves n s t) :
    c.rel s t := by
  induction h with
  | refl => exact c.refl s
  | tail _ hstep ih =>
    refine c.trans ih ?_
    rcases hstep with hquiet | ⟨v, items, hcollect⟩
    · exact Change.Loose.quiet hquiet
    · exact ((hc.runsAt n).collect v).ok hcollect

/-- Changes that a steady sort allows lie between a stage and one that it asks for, unless a generator is
woken there. -/
theorem Stage.Asks.allowed {c : Change} {g h : Stage} (hc : c.Steady)
    (hcalm : ∀ {s t : Store}, s.Calm t → c.rel s t) (hentered : ∀ s f, c.rel s (s.entered f))
    (hask : g.Asks h) : c.rel g.store h.store ∨
      ∃ r f, g.task = .resume r ∧ h.task = .execute f ∧ wake r g.store = .ok f h.store := by
  have hloose : c.Loose := ⟨fun h => hcalm h.calm⟩
  have hruns := hc.runsAt
  cases hask with
  | @goes n f f' s t hturn => exact .inl (((hruns n).turn hc.step f).ok hturn)
  | invokes hstep | unpacks hstep | advances hstep => exact .inl (hcalm (calm_step.ok hstep))
  | enters hroom => exact .inl (hentered _ _)
  | function | builds | method | type | generator | enumerates _ | zips _ | first | drained =>
    exact .inl (c.refl _)
  | collects hserves | takes hserves => exact .inl (allowed_of_serves hc hserves)
  | body hmade hflag => exact .inl (hcalm (calm_enterFunction.ok hmade))
  | initializes hspace hinit => exact .inl (hcalm (calm_newSpace.ok hspace))
  | classBody hclasses hspace hmade =>
    have hbases := Change.Allows.ok (c := Change.calm) inferInstance hclasses
    have hbefore := hbases.trans (calm_newSpace.ok hspace)
    exact .inl (hcalm (hbefore.trans (calm_enterClassBody.ok hmade)))
  | iterator hbusy => exact .inl (Change.Allows.ok inferInstance hbusy)
  | others hnext | more hnext => exact .inl (((hruns _).nextItem _).ok hnext)
  | drains hiterator => exact .inl (Change.Allows.ok inferInstance hiterator)
  | wakes hwake => exact .inr ⟨_, _, rfl, rfl, hwake⟩
  | module hmade => exact .inl (hcalm (calm_make.ok hmade))

/-- The stage is come to in the situation: a frame runs while it is open and innermost, and is executed
when it is new or has just been woken. -/
inductive Stage.At : Stage → Situation → Prop where
  | whole {n task s told active} : task.IsWhole → At ⟨n, task, s⟩ ⟨s, told, active⟩
  | frame {n f s told active} : At ⟨n, .frame f, s⟩ ⟨s, told, f.id :: active⟩
  | new {n f s told active} : Situation.Unknown ⟨s, told, active⟩ f.id →
    At ⟨n, .execute f, s⟩ ⟨s, told, active⟩
  | woken {n r f s t told active} : wake r s = .ok f t → At ⟨n, .execute f, t⟩ ⟨s, told, active⟩

section Paths

variable {s t u : Store} {told : List Report} {active : List Nat} {n : Nat} {f g : Frame}

/-- What is a path by itself is one inside the frames that are open, and only complete groups are told
on it. -/
theorem path_inside (h : Change.path.rel s t) (happart : Situation.Apart ⟨s, told, active⟩) :
    ∃ inner, Nested inner ∧ Path ⟨s, told, active⟩ ⟨t, told ++ inner, active⟩ := by
  obtain ⟨told', hpath⟩ := h told happart.forget
  obtain ⟨⟨inner, rfl, hopens⟩, -, -, -⟩ := hpath.balanced
  exact ⟨inner, hopens.nested, hpath.inside active⟩

/-- A frame that is executed was made after calm changes, or has just been woken. -/
theorem Stage.Asks.executed {g : Stage} (hask : g.Asks ⟨n, .execute f, t⟩) :
    (∃ r, g = ⟨n + 1, .resume r, g.store⟩ ∧ wake r g.store = .ok f t) ∨
      g.task.IsWhole ∧ g.store.Calm t ∧ g.store.next ≤ f.id ∧ f.id < t.next := by
  cases hask with
  | wakes hwake => exact .inl ⟨_, rfl, hwake⟩
  | body hentered hflag =>
    exact .inr ⟨trivial, calm_enterFunction.ok hentered, id_of_enterFunction hentered⟩
  | @classBody n body name bases classes space f s t u w hclasses hspace hentered =>
    obtain ⟨hle, hlt⟩ := id_of_make hentered
    have hbases : s.Calm t := Change.Allows.ok (c := Change.calm) inferInstance hclasses
    have hbefore : s.Calm u := hbases.trans (calm_newSpace.ok hspace)
    have hmade := hbefore.trans (calm_enterClassBody.ok hentered)
    exact .inr ⟨trivial, hmade, Nat.le_trans hbefore.next hle, hlt⟩
  | module hmade => exact .inr ⟨trivial, calm_make.ok hmade, id_of_make hmade⟩

theorem at_executed {g : Stage} {σ : Situation} (hg : g.At σ) (hσ : σ.Apart)
    (hask : g.Asks ⟨n, .execute f, t⟩) : ∃ τ, Path σ τ ∧ σ.active <:+ τ.active ∧
      Stage.At ⟨n, .execute f, t⟩ τ := by
  rcases hask.executed with ⟨r, hr, hwake⟩ | ⟨htask, hcalm, hle, hlt⟩
  · cases hg with
    | whole => exact ⟨_, .refl, List.suffix_rfl, .woken hwake⟩
    | frame | new | woken => cases hr
  · cases hg with
    | @whole n task s told active =>
      obtain ⟨hnext, htold, hheld⟩ := hσ.forget.unknown hcalm hle hlt
      have hunknown : Situation.Unknown ⟨t, told, active⟩ f.id := ⟨hnext, htold, hheld⟩
      exact ⟨_, .single (.calm hcalm), List.suffix_rfl, .new hunknown⟩
    | frame | new | woken => exact htask.elim

theorem at_whole {task : Task} (htask : task.IsWhole) (hpath : Change.path.rel s t)
    (happart : Situation.Apart ⟨s, told, active⟩) :
    ∃ τ, Path ⟨s, told, active⟩ τ ∧ active <:+ τ.active ∧ Stage.At ⟨n, task, t⟩ τ := by
  obtain ⟨inner, -, h⟩ := path_inside hpath happart
  exact ⟨_, h, List.suffix_rfl, .whole htask⟩

theorem calm_of_step {a : Action} (h : step f s = .ok a t) : s.Calm t :=
  calm_step.ok h

end Paths

theorem Stage.At.asks {g h : Stage} {σ : Situation} (hg : g.At σ) (hσ : σ.Apart) (hask : g.Asks h) :
    ∃ τ, Path σ τ ∧ σ.active <:+ τ.active ∧ h.At τ := by
  have hruns := path_steady.runsAt
  cases hask with
  | @goes n f f' s t hturn =>
    cases hg with
    | whole htask => exact htask.elim
    | frame =>
      obtain ⟨inner, -, hpath⟩ := path_inside (((hruns n).turn path_steady.step f).ok hturn) hσ
      refine ⟨_, hpath, List.suffix_rfl, ?_⟩
      obtain ⟨a, v, hstep, hact⟩ := step_of_goes hturn
      have hid : f'.id = f.id := (id_of_act hact).trans (successors_of_step hstep).1.id
      rw [← hid]
      exact .frame
  | invokes hstep | unpacks hstep | advances hstep =>
    cases hg with
    | whole htask => exact htask.elim
    | frame => exact at_whole trivial (Change.path_of_calm (calm_of_step hstep)) hσ
  | enters hroom =>
    cases hg with
    | whole htask => exact htask.elim
    | new hunknown => exact ⟨_, .single (.start hunknown hroom), List.suffix_cons _ _, .frame⟩
    | woken hwake => exact ⟨_, .single (.goOn hwake hroom), List.suffix_cons _ _, .frame⟩
  | function | builds | method | type | generator | enumerates _ | zips _ | first | drained =>
    cases hg with
    | whole => exact at_whole trivial (Change.path.refl _) hσ
  | collects hserves | takes hserves =>
    cases hg with
    | whole => exact at_whole trivial (allowed_of_serves path_steady hserves) hσ
  | initializes hspace hinit =>
    cases hg with
    | whole => exact at_whole trivial (Change.path_of_calm (calm_newSpace.ok hspace)) hσ
  | @iterator n r s t hbusy =>
    cases hg with
    | whole =>
      have hset : Change.path.rel s t := Change.Allows.ok inferInstance hbusy
      exact at_whole trivial hset hσ
  | others hnext | more hnext =>
    cases hg with
    | whole => exact at_whole trivial (((hruns _).nextItem _).ok hnext) hσ
  | @drains n v iterator s t hiterator =>
    cases hg with
    | whole =>
      have hmade : Change.path.rel s t := Change.Allows.ok inferInstance hiterator
      exact at_whole trivial hmade hσ
  | wakes hwake => exact at_executed hg hσ (.wakes hwake)
  | body hentered hflag => exact at_executed hg hσ (.body hentered hflag)
  | classBody hclasses hspace hentered =>
    exact at_executed hg hσ (.classBody hclasses hspace hentered)
  | module hmade => exact at_executed hg hσ (.module hmade)

/-- Every stage of a run lies on its path, where the frames that were open at the start still are. -/
theorem Stage.At.comes {g h : Stage} {σ : Situation} (hg : g.At σ) (hσ : σ.Apart) (hh : g.Comes h) :
    ∃ τ, Path σ τ ∧ σ.active <:+ τ.active ∧ h.At τ := by
  induction hh with
  | refl => exact ⟨σ, .refl, List.suffix_rfl, hg⟩
  | tail _ hask ih =>
    obtain ⟨τ, hpath, hactive, hat⟩ := ih
    obtain ⟨τ', hpath', hactive', hat'⟩ := hat.asks (hpath.apart hσ) hask
    exact ⟨τ', hpath.trans hpath', hactive.trans hactive', hat'⟩

section After

variable {s u : Store} {told : List Report} {active : List Nat} {n : Nat} {f : Frame} {q : Stopped}
  {σ : Situation}

theorem path_left
    (hentered : Path σ ⟨s.entered f, told ++ [(.enter, f.id)], f.id :: active⟩) (hσ : σ.Apart)
    (hrun : runFrame n f (s.entered f) = .ok q u) :
    ∃ inner, Nested inner ∧ Path σ ⟨u.left q, told ++ inner, active⟩ := by
  have hbody := ((path_steady.runsAt n).runFrame f).ok hrun
  obtain ⟨inner, hinner, hpath⟩ := path_inside hbody (hentered.apart hσ)
  have hran := hentered.trans hpath
  have hid := id_of_runFrame hrun
  rw [← hid] at hran
  have hleft := hran.tail (.stop q)
  refine ⟨(.enter, q.frame.id) :: inner ++ (q.moment, q.frame.id) :: [], ?_, ?_⟩
  · exact .group hinner q.moment_ne_enter .nil
  · simpa using hleft

theorem after_execute (h : execute n f s = leaveFrame q u) :
    Stage.after ⟨n, .execute f, s⟩ = u.left q := by
  have hleft : (execute n f).after s = (leaveFrame q).after u := by
    unfold Exec.after
    rw [h]
  exact hleft.trans (after_leaveFrame q u)

/-- When a stage is over, the same frames are open as when it was come to, and only complete groups have
been told. -/
theorem Stage.At.after {g : Stage} (hg : g.At σ) (hσ : σ.Apart) :
    ∃ inner, Nested inner ∧ Path σ ⟨g.after, σ.told ++ inner, σ.active⟩ := by
  cases hg with
  | @whole n task s told active htask =>
    refine path_inside (path_steady.whole ?_ htask) hσ
    intro n code globals
    have hframes : ∀ m < n, ∀ f, Change.path.Allows (runFrame m f) :=
      fun m _ => (path_steady.runsAt m).runFrame
    refine path_of_made hframes calm_make id_of_make fun r => ?_
    split <;> infer_instance
  | @frame n f s told active =>
    exact path_inside (((path_steady.runsAt n).runFrame f).after s) hσ
  | @new n f s told active hunknown =>
    rcases execute_cases n f s with ⟨e, hrefused⟩ | ⟨hroom, m, q, u, rfl, hrun, hexecute⟩
    · have hafter : Stage.after ⟨n, .execute f, s⟩ = s := after_error hrefused
      rw [hafter]
      refine ⟨[], .nil, ?_⟩
      rw [List.append_nil]
    · rw [after_execute hexecute]
      exact path_left (.single (.start hunknown hroom)) hσ hrun
  | @woken n r f s t told active hwake =>
    rcases execute_cases n f t with ⟨e, hrefused⟩ | ⟨hroom, m, q, u, rfl, hrun, hexecute⟩
    · have hafter : Stage.after ⟨n, .execute f, t⟩ = t := after_error hrefused
      obtain ⟨_, _, _, rfl⟩ := wake_eq_ok hwake
      rw [hafter]
      refine ⟨[], .nil, ?_⟩
      rw [List.append_nil]
      exact .single (.drop fun _ => GeneratorState.noConfusion)
    · rw [after_execute hexecute]
      exact path_left (.single (.goOn hwake hroom)) hσ hrun

end After

end Lexiscope.Machine
