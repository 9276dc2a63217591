import Lexiscope.Proofs.Machine.Hosts
/-!
# What observers are told

A run tells the same whatever observers there are: of every frame that is entered or left, as the
frame and the store are at that moment. The observer in front is told first, and each lets the next
one know until there is one that does not. All of these are told of every moment, once and in order;
those behind are told nothing.
-/

namespace Lexiscope.Machine

open Exec Likeness

/-- What is told at a moment of a frame: the frame and the store are as they are then. -/
structure Notice where
  moment : Moment
  frame : Frame
  store : Store

def Notice.report (n : Notice) : Report := (n.moment, n.frame.id)

def reports (ns : List Notice) : List Report := ns.map Notice.report

/-- An observer after it was told, of one moment after the other. -/
def Observer.toldEach (o : Observer) (ns : List Notice) : Observer :=
  ns.foldl (fun o n => o.told n.store n.moment n.frame) o

/-- The observers after the one in front was told, of one moment after the other. -/
def tellEach (ns : List Notice) (os : List Observer) : List Observer :=
  ns.foldl (fun os n => tellAll n.store n.moment n.frame os) os

/-- How many observers are told: those that let the next one know, and the first that does not. -/
def audience : List Observer → Nat
  | [] => 0
  | o :: os => if o.forwards then audience os + 1 else 1

/-- The store with other observers. -/
abbrev Store.under (s : Store) (os : List Observer) : Store := { s with observers := os }

abbrev Situation.under (σ : Situation) (os : List Observer) : Situation :=
  { σ with store := σ.store.under os }

section Observers

variable {o : Observer} {os : List Observer} {n : Notice} {ns ms : List Notice}

theorem reports_append : reports (ns ++ ms) = reports ns ++ reports ms := List.map_append

theorem Observer.toldEach_append : o.toldEach (ns ++ ms) = (o.toldEach ns).toldEach ms :=
  List.foldl_append

theorem tellEach_append : tellEach (ns ++ ms) os = tellEach ms (tellEach ns os) :=
  List.foldl_append

theorem tellEach_nil : tellEach ns [] = [] := by
  induction ns with
  | nil => rfl
  | cons n ns ih => exact ih

theorem tellEach_cons : tellEach ns (o :: os) =
    o.toldEach ns :: if o.forwards then tellEach ns os else os := by
  induction ns generalizing o os with
  | nil => cases o.forwards <;> rfl
  | cons n ns ih =>
    change tellEach ns (tellAll n.store n.moment n.frame (o :: os)) = _
    rw [tellAll, ih, told_forwards]
    cases o.forwards <;> rfl

theorem tellEach_eq : tellEach ns os =
    (os.take (audience os)).map (·.toldEach ns) ++ os.drop (audience os) := by
  induction os with
  | nil => exact tellEach_nil
  | cons o os ih =>
    rw [tellEach_cons, audience]
    split
    · rw [ih]
      rfl
    · rfl

/-- What an observer that looks out for the code holds on to, and what it has taken down. -/
theorem toldEach_capture (forwards : Bool) (target : Origin) (frame : Option Nat)
    (locals : Option NameMap) : ∃ frame' locals',
      (Observer.capture forwards target frame locals).toldEach ns =
        .capture forwards target frame' locals' := by
  induction ns generalizing frame locals with
  | nil => exact ⟨frame, locals, rfl⟩
  | cons n ns ih =>
    change ∃ _ _, ((Observer.capture forwards target frame locals).told _ _ _).toldEach ns = _
    unfold Observer.told
    cases n.moment with
    | enter | exit =>
      dsimp only
      split
      · exact ih _ _
      · exact ih _ _
    | suspend | unwind => exact ih _ _

end Observers

section Alike

variable {L : Likeness} {s t : Store} {m : Moment} {f : Frame}

theorem Likeness.Alike.told (h : L.Alike s t) (hL : L.Lawful) (o : Observer) :
    o.told t m f = o.told s m f := by
  have hlocals : f.locals t = f.locals s := locals_alike (.refl f.code) h
  have hrender : sightings t (f.locals s) = sightings s (f.locals s) := by
    unfold sightings
    simp only [h.render hL]
  cases o with
  | recorder forwards seen log =>
    unfold Observer.told
    rw [hlocals, hrender]
  | capture forwards target frame locals =>
    unfold Observer.told
    rw [hlocals]

theorem Likeness.Alike.tellAll (h : L.Alike s t) (hL : L.Lawful) (os : List Observer) :
    Machine.tellAll t m f os = Machine.tellAll s m f os := by
  induction os with
  | nil => rfl
  | cons o os ih =>
    unfold Machine.tellAll
    rw [h.told hL, ih]

theorem tellAll_under (os' os : List Observer) :
    tellAll (s.under os') m f os = tellAll s m f os := by
  have halike : (loose (· = ·) fun _ _ => True).Alike s (s.under os') :=
    (alike_refl s).withObservers trivial
  exact halike.tellAll (loose_lawful (fun _ => rfl) fun c d h => h ▸ rfl) os

end Alike

/-- What a step tells: nothing, or that a frame has been entered, or that it is left. Generators may
change with that, as one is woken or comes to rest. -/
inductive Announces : Situation → List Notice → Situation → Prop where
  | nothing {σ τ} : τ.told = σ.told → τ.store.observers = σ.store.observers → Announces σ [] τ
  | entry {s told active} (f : Frame) (generators : Array Generator) :
    Announces ⟨s, told, active⟩
      [⟨.enter, f, { s with generators, depth := s.depth + 1, observers := [] }⟩]
      ⟨Store.entered { s with generators } f, told ++ [(.enter, f.id)], f.id :: active⟩
  | leaving {s told active} (q : Stopped) (generators : Array Generator) :
    Announces ⟨s, told, q.frame.id :: active⟩ [⟨q.moment, q.frame, s.under []⟩]
      ⟨{ s.left q with generators }, told ++ [(q.moment, q.frame.id)], active⟩

/-- A step, and what it tells whatever observers there are. -/
structure Says (σ : Situation) (ns : List Notice) (τ : Situation) : Prop where
  announces : Announces σ ns τ
  advances : ∀ os, Advance (σ.under os) (τ.under (tellEach ns os))

/-- A path, and what is told along it. -/
inductive Telling : Situation → List Notice → Situation → Prop where
  | refl {σ} : Telling σ [] σ
  | tail {σ τ υ ns ms} : Telling σ ns τ → Says τ ms υ → Telling σ (ns ++ ms) υ

section Steps

variable {σ τ υ : Situation} {s t : Store} {ns ms : List Notice} {os : List Observer} {f : Frame}
  {r : GeneratorRef}

theorem entered_under : (s.under os).entered f =
    (s.entered f).under (tellAll ({ s with depth := s.depth + 1 }.under []) .enter f os) := by
  rw [tellAll_under, ← tellAll_under os]
  rfl

theorem left_under {q : Stopped} : (s.under os).left q =
    (s.left q).under (tellAll (s.under []) q.moment q.frame os) := by
  rw [tellAll_under, ← tellAll_under os]
  rfl

theorem wake_under (h : wake r s = .ok f t) : wake r (s.under os) = .ok f (t.under os) := by
  rw [wake_run] at h ⊢
  cases hstate : (s.generator r).state with
  | suspended g =>
    have hsame : ((s.under os).generator r).state = .suspended g := hstate
    rw [hstate] at h
    rw [hsame]
    cases h
    rfl
  | running | finished =>
    rw [hstate] at h
    cases h

theorem Store.Calm.under (h : s.Calm t) : (s.under os).Calm (t.under os) :=
  ⟨h.generators, rfl, h.depth, h.limit, h.next, h.cells, h.spaces⟩

theorem Announces.told (h : Announces σ ns τ) : τ.told = σ.told ++ reports ns := by
  cases h with
  | nothing htold _ => rw [htold, reports, List.map_nil, List.append_nil]
  | entry | leaving => rfl

theorem Announces.observers (h : Announces σ ns τ) :
    τ.store.observers = tellEach ns σ.store.observers := by
  cases h with
  | nothing _ hobservers => exact hobservers
  | entry | leaving => exact (tellAll_under [] _).symm

theorem Announces.under (h : Announces σ ns τ) (os : List Observer) :
    Announces (σ.under os) ns (τ.under (tellEach ns os)) := by
  cases h with
  | nothing htold _ => exact .nothing htold rfl
  | @entry s told active f generators =>
    have hentry := @Announces.entry (s.under os) told active f generators
    change Announces _ _ ⟨(Store.under { s with generators } os).entered f, _, _⟩ at hentry
    rw [entered_under] at hentry
    exact hentry
  | @leaving s told active q generators =>
    have hleaving := @Announces.leaving (s.under os) told active q generators
    rw [left_under] at hleaving
    exact hleaving

/-- Every step tells what it tells whatever observers there are. -/
theorem Advance.says (h : Advance σ τ) : ∃ ns, Says σ ns τ := by
  cases h with
  | calm hcalm =>
    exact ⟨[], .nothing rfl hcalm.observers, fun os => .calm hcalm.under⟩
  | @start s f told active hnew hroom =>
    refine ⟨_, .entry f s.generators, fun os => ?_⟩
    have hstart : Advance ⟨s.under os, told, active⟩ _ :=
      .start ⟨hnew.next, hnew.told, hnew.held⟩ hroom
    rw [entered_under] at hstart
    exact hstart
  | @goOn s t r f told active hwake hroom =>
    -- Waking changes generators only, so observers are told of the store with these generators.
    obtain ⟨_, _, _, ht⟩ := wake_eq_ok hwake
    have hentry := @Announces.entry s told active f t.generators
    have hwoken : { s with generators := t.generators } = t := by
      rw [ht]
      rfl
    rw [hwoken] at hentry
    refine ⟨_, hentry, fun os => ?_⟩
    have hgoes : Advance ⟨s.under os, told, active⟩ _ := .goOn (wake_under hwake) hroom
    rw [entered_under] at hgoes
    have hsame : { t with depth := t.depth + 1 } =
        { s with generators := t.generators, depth := s.depth + 1 } := by
      rw [ht]
      rfl
    rw [hsame] at hgoes
    exact hgoes
  | @stop s told active q =>
    refine ⟨_, .leaving q s.generators, fun os => ?_⟩
    have hstop := @Advance.stop (s.under os) told active q
    rw [left_under] at hstop
    exact hstop
  | @rest s told active q v r hq =>
    have hmoment : q.moment = .suspend := by
      unfold Stopped.moment
      rw [hq]
    -- The generator comes to rest only after its frame was left: the notice has the store before.
    have hleaving := @Announces.leaving s told active q
      ((setState r (.suspended q.frame)).after (s.left q)).generators
    rw [hmoment] at hleaving
    refine ⟨_, hleaving, fun os => ?_⟩
    have hrest := @Advance.rest (s.under os) told active q v r hq
    rw [left_under, hmoment] at hrest
    exact hrest
  | @keep s f code told active hnew =>
    exact ⟨[], .nothing rfl rfl, fun os => .keep ⟨hnew.next, hnew.told, hnew.held⟩⟩
  | drop hg => exact ⟨[], .nothing rfl rfl, fun os => .drop hg⟩

theorem Says.advance (h : Says σ ns τ) : Advance σ τ := by
  have hadvance := h.advances σ.store.observers
  rwa [← h.announces.observers] at hadvance

theorem Says.under (h : Says σ ns τ) (os : List Observer) :
    Says (σ.under os) ns (τ.under (tellEach ns os)) :=
  ⟨h.announces.under os, h.advances⟩

/-- Whatever is done is told, and nothing else is. -/
theorem Path.telling (h : Path σ τ) : ∃ ns, Telling σ ns τ := by
  induction h with
  | refl => exact ⟨[], .refl⟩
  | tail _ hstep ih =>
    obtain ⟨ns, hns⟩ := ih
    obtain ⟨ms, hms⟩ := hstep.says
    exact ⟨ns ++ ms, hns.tail hms⟩

theorem Telling.path (h : Telling σ ns τ) : Path σ τ := by
  induction h with
  | refl => exact .refl
  | tail _ hstep ih => exact ih.tail hstep.advance

theorem Telling.told (h : Telling σ ns τ) : τ.told = σ.told ++ reports ns := by
  induction h with
  | refl => exact (List.append_nil _).symm
  | tail _ hstep ih => rw [hstep.announces.told, ih, reports_append, List.append_assoc]

/-- All observers that are reached are told of every moment, once and in order. -/
theorem Telling.observers (h : Telling σ ns τ) :
    τ.store.observers = tellEach ns σ.store.observers := by
  induction h with
  | refl => rfl
  | tail _ hstep ih => rw [hstep.announces.observers, ih, tellEach_append]

theorem Telling.under (h : Telling σ ns τ) (os : List Observer) :
    Telling (σ.under os) ns (τ.under (tellEach ns os)) := by
  induction h with
  | refl => exact .refl
  | tail _ hstep ih =>
    rw [tellEach_append]
    exact ih.tail (hstep.under _)

end Steps

end Lexiscope.Machine
