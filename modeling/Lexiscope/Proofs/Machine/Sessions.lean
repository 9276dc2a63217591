import Lexiscope.Machine.Program
import Lexiscope.Proofs.Machine.Soundness
/-!
# Sessions

A host loads modules, and calls and resumes what it finds in them, again and again. Whatever it
does, the machine does not break its own rules.
-/

namespace Lexiscope.Machine

open Likeness

/-- A value that a host has at hand: one that it was given or has made itself, or one that it finds
in the store or in another value. -/
inductive Given (s : Store) (held : List Value) : Value → Prop where
  | held {v : Value} : v ∈ held → Given s held v
  | plain {v : Value} : v.isPlain = true → Given s held v
  | tuple {id : Identity} {items : List Value} : (∀ v ∈ items, Given s held v) →
    Given s held (.tuple id items)
  | item {id : Identity} {items : List Value} {v : Value} : Given s held (.tuple id items) →
    v ∈ items → Given s held v
  | method {id : Identity} {receiver callee : Value} : Given s held receiver →
    Given s held callee → Given s held (.method id receiver callee)
  | inList {r : ListRef} {v : Value} : v ∈ s.list r → Given s held v
  | inDict {r : DictRef} {k : Key} {v : Value} : (s.dict r).get? k = some v → Given s held v
  | inCell {r : CellRef} {v : Value} : s.cell r = some v → Given s held v
  | named {space : SpaceRef} {name : Name} {v : Value} : s.lookup space name = some v →
    Given s held v

/-- What a host asks of the machine. -/
inductive Demand where
  | load (source name : String)
  | call (callee : Value) (args : List Value) (keywords : Keywords)
  | resume (r : GeneratorRef)
  /-- The next item of an iterator or generator. -/
  | next (iterator : Value)
  | items (v : Value)

namespace Demand

/-- The host has at hand what it asks with. -/
def Fair (s : Store) (held : List Value) : Demand → Prop
  | load .. | resume _ => True
  | call callee args keywords =>
    Given s held callee ∧ (∀ v ∈ args, Given s held v) ∧ ∀ k ∈ keywords, Given s held k.2
  | next v | items v => Given s held v

/-- What the machine answers: values, or that it halted. A module that cannot be read or compiled
is not run. -/
def answer (fuel : Nat) : Demand → Exec (List Value)
  | load source name => fun s =>
    match Machine.load fuel source name s with
    | (.error (.halted halt), t) => .error halt t
    | (_, t) => .ok [] t
  | call callee args keywords => return [← callValue fuel callee args keywords]
  | resume r => do
    match ← Machine.resume fuel r with
    | .returned v | .yielded v => return [v]
  | next v => return (← nextItem fuel v).toList
  | items v => return (← collect fuel v).toList

end Demand

/-- A store to which a host may come, and the values that it was given on the way. It may bring and
take away observers at any time. A run that does not end leads nowhere. -/
inductive Session : Store → List Value → Prop where
  | start {output : Output} {limit : Nat} : Session { output, limit } []
  | observe {s : Store} {held : List Value} {observers : List Observer} : Session s held →
    Session { s with observers } held
  | answered {s t : Store} {held answers : List Value} {d : Demand} {fuel : Nat} : Session s held →
    d.Fair s held → d.answer fuel s = .ok answers t → Session t (answers ++ held)
  | halted {s t : Store} {held : List Value} {d : Demand} {fuel : Nat} {e : Halt} :
    Session s held → d.Fair s held → d.answer fuel s = .error e t → e ≠ .outOfFuel →
    Session t held

section Loading

variable {fuel : Nat}

theorem agree_runModule {code : LoadedCode} {globals : SpaceRef} (hcode : code.object.Compiled)
    (hfree : code.object.freevars = []) (hflags : code.object.flags = {}) :
    Likeness.sound.Agree (fun _ => True) (runModule fuel code globals)
      (runModule fuel code globals) := by
  have hslots : ∀ slot ∈ emptySlots code, ∀ v ∈ slot, Value.Sound v := by
    intro slot hslot
    simp only [emptySlots, Array.mem_replicate] at hslot
    simp [hslot.2]
  unfold runModule
  refine (agree_makeFrame (L := Likeness.sound) (fun _ => by simp [emptySlots])
    hslots).bind fun f hf => ?_
  have hsound := sound_of_fresh hcode (by rw [hfree]; rfl) hf
  refine ((sound_steady.runsAt (Nat.le_refl fuel)).execute f hsound).bind fun r hr => ?_
  obtain ⟨k, g⟩ := r
  cases k with
  | returned v => exact agree_pure trivial
  | yielded v =>
    obtain ⟨⟨-, -, hyields⟩, hg⟩ := hr
    have hg' : g.code = code := hg.trans hf.code
    have hgenerator : code.object.flags.isGenerator = true ∨
        code.object.flags.isAsyncGenerator = true := hg' ▸ hyields
    rw [hflags] at hgenerator
    rcases hgenerator with hgenerator | hgenerator <;> cases hgenerator

theorem agree_load (source name : String) :
    Likeness.sound.Agree (fun vs => ∀ v ∈ vs, v.Sound) ((Demand.load source name).answer fuel)
      ((Demand.load source name).answer fuel) := by
  intro s t hst
  simp only [Demand.answer, load]
  cases hparse : Grammar.parse source with
  | error e => exact .ok ⟨rfl, by simp⟩ (.refl s) hst
  | ok body =>
    dsimp only
    cases hcompile : Code.compile body name with
    | error e => exact .ok ⟨rfl, by simp⟩ (.refl s) hst
    | ok object =>
      obtain ⟨-, hfree, hflags⟩ := Code.compile_sound hparse hcompile
      have hrun : Likeness.sound.Agree (fun _ => True)
          (do runUnit fuel (← Exec.unitOf object)) (do runUnit fuel (← Exec.unitOf object)) := by
        refine Agree.bind (p := fun c : LoadedCode => c.object = object) ?_ fun code hcode => ?_
        · exact agree_fresh.bind fun id _ => agree_pure rfl
        · subst hcode
          refine (agree_newSpace OrderedMap.all_empty).bind fun globals _ => ?_
          exact (agree_runModule (.unit hparse hcompile) hfree hflags).bind fun _ _ => agree_pure trivial
      have hended := hrun hst
      dsimp only [Exec.outcome]
      generalize (do runUnit fuel (← Exec.unitOf object) : Exec SpaceRef) s = a at hended ⊢
      generalize (do runUnit fuel (← Exec.unitOf object) : Exec SpaceRef) t = b at hended ⊢
      cases hended with
      | ok hab hbefore halike =>
        obtain ⟨rfl, -⟩ := hab
        exact .ok ⟨rfl, by simp⟩ hbefore halike
      | error hh hbefore halike => exact .error hh hbefore halike
      | outOfFuel => exact .outOfFuel

end Loading

section Answers

variable {s : Store} {held : List Value}

theorem Given.sound {v : Value} (h : Given s held v) (hs : s.All Value.Sound)
    (hheld : ∀ v ∈ held, v.Sound) : v.Sound := by
  induction h with
  | held hv => exact hheld _ hv
  | plain hv => exact .plain hv
  | tuple _ ih => exact .tuple ih
  | item _ hv ih => exact Value.sound_tuple.1 ih _ hv
  | method _ _ hreceiver hcallee => exact .method hreceiver hcallee
  | inList hv => exact hs.list _ _ hv
  | inDict hv => exact (hs.dict _).get? hv
  | inCell hv => exact hs.cell _ _ hv
  | named hv => exact hs.lookup hv

/-- A fair demand is answered with sound values, or the machine halts without breaking a rule. -/
theorem agree_answer {d : Demand} (fuel : Nat) (hs : s.All Value.Sound)
    (hheld : ∀ v ∈ held, v.Sound) (hfair : d.Fair s held) :
    Likeness.sound.Agree (fun vs => ∀ v ∈ vs, v.Sound) (d.answer fuel) (d.answer fuel) := by
  have hruns := sound_steady.runsAt (Nat.le_refl fuel)
  cases d with
  | load source name => exact agree_load source name
  | call callee args keywords =>
    obtain ⟨hcallee, hargs, hkeywords⟩ := hfair
    refine (hruns.callValue callee args keywords (hcallee.sound hs hheld)
      (fun v hv => (hargs v hv).sound hs hheld)
      (fun k hk => (hkeywords k hk).sound hs hheld)).bind fun v hv => agree_pure ?_
    exact List.forall_mem_singleton.2 hv
  | resume r =>
    refine (hruns.resume r).bind fun k hk => ?_
    cases k with
    | returned v => exact agree_pure (List.forall_mem_singleton.2 (hk v (.inl rfl)))
    | yielded v => exact agree_pure (List.forall_mem_singleton.2 (hk v (.inr rfl)))
  | next v =>
    refine (hruns.nextItem v (hfair.sound hs hheld)).bind fun item hitem => agree_pure ?_
    exact fun w hw => hitem w (Option.mem_toList.1 hw)
  | items v =>
    refine (hruns.collect v (hfair.sound hs hheld)).bind fun items hitems => agree_pure ?_
    exact fun w hw => hitems w (Array.mem_toList_iff.1 hw)

/-- All that a session leads to is sound. -/
theorem Session.sound (h : Session s held) :
    Likeness.sound.Alike s s ∧ ∀ v ∈ held, v.Sound := by
  induction h with
  | start =>
    refine ⟨⟨rfl, ?_, rfl, fun r => ⟨rfl, rfl, rfl, fun f hf => ?_⟩, trivial⟩, by simp⟩
    · constructor <;> simp
    · cases hf
  | observe _ ih =>
    obtain ⟨halike, hheld⟩ := ih
    have hvalues := halike.values
    refine ⟨⟨rfl, ?_, rfl, halike.generator, trivial⟩, hheld⟩
    exact ⟨hvalues.lists, hvalues.dicts, hvalues.cells, hvalues.spaces, hvalues.iterators⟩
  | answered _ hfair hanswer ih =>
    obtain ⟨halike, hheld⟩ := ih
    obtain ⟨hanswers, halike'⟩ :=
      (agree_answer _ halike.values hheld hfair).ok_self halike hanswer
    exact ⟨halike', List.forall_mem_append.2 ⟨hanswers, hheld⟩⟩
  | halted _ hfair hanswer hfuel ih =>
    obtain ⟨halike, hheld⟩ := ih
    have hhalt := (agree_answer _ halike.values hheld hfair).error_self halike hanswer
    exact ⟨(hhalt.resolve_left hfuel).2, hheld⟩

end Answers

end Lexiscope.Machine
