import Lexiscope.Proofs.Meaning.ExpressionCode
import Lexiscope.Proofs.Meaning.Statement
/-!
# The code of targets

The code of a target takes the value that lies on the stack and stores it.
-/

namespace Lexiscope.Meaning

open Machine Exec
open Code
open Generate
open Grammar (Expr)
open Lexical (Scope)

variable {mayTire : Prop} {n : Nat} {σ : List Value}

section Names

variable {s : Scope} {name : Name} {span : Text.Span} {v : Value}

theorem writeName_code {f g : Frame} {st t : Store} (h : writeName s name v f st = .ok g t) :
    g.code = f.code := by
  unfold writeName at h
  cases hs : s.symbol name <;> rw [hs] at h
  case fast =>
    dsimp only [Frame.storeFast] at h
    split at h
    · cases h
      rfl
    · cases h
  case cell | free =>
    obtain ⟨r, u, -, h⟩ := bind_eq_ok h
    cases h
    rfl
  all_goals
    cases h
    rfl

theorem storeFast_placed (f : Frame) (pc slot : Nat) (σ : List Value) (v : Value) :
    (f.placed pc σ).storeFast slot v = (fun g => g.placed pc σ) <$> f.storeFast slot v := by
  unfold Frame.storeFast
  change (if slot < f.fast.size then _ else _) = _
  split
  · rfl
  · rfl

theorem computes_storeName :
    Computes mayTire n (storeName s name span) (v :: σ) (.bindName name v (writeName s name v))
      fun _ => σ := by
  unfold storeName
  cases hs : s.symbol name with
  | fast =>
    refine computes_slot fun c pc i hi hat => ?_
    refine realizes_bindName hat (by simp [instrDeeds, getElem?_of_idxOf? hi]) (fun f hf => ?_)
      fun f st g t => writeName_code
    unfold writeName
    rw [hs]
    dsimp only
    rw [slotOf, hf, hi]
    change (do return Action.next (← (f.placed (pc + 1) σ).storeFast i v)) = _
    rw [storeFast_placed, map_eq_pure_bind, map_eq_pure_bind, bind_assoc]
    simp only [pure_bind, Option.getD_some]
  | cell | free =>
    refine computes_cell fun c pc i hi hat => ?_
    refine realizes_bindName hat (by simp [instrDeeds, derefName?_of_idxOf? hi]) (fun f hf => ?_)
      fun f st g t => writeName_code
    unfold writeName
    rw [hs]
    dsimp only
    rw [cellOf, hf, hi, map_eq_pure_bind, bind_assoc]
    rfl
  | classLocal =>
    refine computes_named fun c pc i hi hat => ?_
    refine realizes_bindName hat (by simp [instrDeeds, hi]) (fun f hf => ?_)
      fun f st g t => writeName_code
    unfold writeName
    rw [hs]
    change (f.placed (pc + 1) (v :: σ)).name i >>= _ = _
    rw [name_of_getElem? (hf ▸ hi), pure_bind, map_eq_pure_bind]
    rfl
  | globalExplicit | globalImplicit =>
    refine computes_named fun c pc i hi hat => ?_
    refine realizes_bindName hat (by simp [instrDeeds, hi]) (fun f hf => ?_)
      fun f st g t => writeName_code
    unfold writeName
    rw [hs]
    change (f.placed (pc + 1) (v :: σ)).name i >>= _ = _
    rw [name_of_getElem? (hf ▸ hi), pure_bind, map_eq_pure_bind]
    rfl
  | classFree => exact lowers_fail

end Names

section Unpacking

theorem unpackOnto_eq (g : Frame) (k : Nat) (v : Value) :
    (collect n v >>= unpackOnto g k) =
      (fun vs => { g with stack := vs.toList ++ g.stack }) <$> itemsOf n k v := by
  unfold itemsOf
  rw [map_bind]
  congr 1
  funext items
  unfold unpackOnto
  by_cases h : items.size = k
  · rw [dif_pos h, if_neg (by omega), if_neg (by omega)]
    rfl
  · rw [dif_neg h]
    by_cases hless : items.size < k
    · rw [if_pos hless, if_pos hless]
      rfl
    · rw [if_neg hless, if_neg hless, if_pos (by omega)]
      rfl

theorem computes_unpack {k : Nat} {v : Value} :
    Computes mayTire n (emit (.unpackSequence k)) (v :: σ)
      (.doing (.unpack v k) (itemsOf n k v)) fun vs => vs.toList ++ σ := by
  refine computes_emit fun c pc hat => ?_
  refine (asks (a := fun f => .unpack v k (f.placed (pc + 1) σ)) (ρ := σ) hat rfl
    (fun f s => rfl) (fun f => rfl) fun f s => ?_).realizes
  simp only [act]
  rw [attempt_bind, unpackOnto_eq]
  cases hitems : itemsOf n k v s with
  | ok vs t =>
    rw [map_ok hitems]
    rfl
  | error e t =>
    rw [map_error hitems]
    rfl

end Unpacking

section Targets

variable {s : Scope}

theorem computes_storeAttr {object v : Value} {attr : Name} :
    Computes mayTire n (emitNamed .storeAttr attr) (object :: v :: σ)
      (.doing (.setMember object attr v) (setAttribute object attr v)) fun _ => σ := by
  refine computes_named fun c pc i hi hat => realizes_next hat (by simp [instrDeeds, hi]) fun f hf => ?_
  change (f.placed (pc + 1) (object :: v :: σ)).name i >>= _ = _
  rw [name_of_getElem? (hf ▸ hi), pure_bind, map_eq_pure_bind]
  rfl

theorem computes_storeSubscript {container index v : Value} :
    Computes mayTire n (emit .storeSubscript) (index :: container :: v :: σ)
      (.doing (.setItem container index v) (setItem container index v)) fun _ => σ :=
  computes_next (fun _ => rfl) fun f pc => by
    rw [map_eq_pure_bind]
    rfl

mutual

theorem computes_store : (e : Expr) → ∀ {v : Value} {σ : List Value},
    Computes mayTire n (store s e) (v :: σ) (assignTo n s e v) fun _ => σ
  | .name name span, _, _ => by
    unfold store assignTo
    exact computes_storeName
  | .member value attr _, _, _ => by
    unfold store assignTo
    exact (computes_expression n s value).andThen fun object => computes_storeAttr
  | .subscript value index _, _, _ => by
    unfold store assignTo
    refine (computes_expression n s value).andThen fun container => ?_
    exact (computes_expression n s index).andThen fun i => computes_storeSubscript
  | .tuple items _, _, _ | .list items _, _, _ => by
    unfold store assignTo
    exact computes_unpack.andThen fun vs => computes_storeAll items vs.toList_length
  | .none _, _, _ | .ellipsis _, _, _ | .bool .., _, _ | .int .., _, _ | .float .., _, _
  | .str .., _, _ | .dict .., _, _ | .call .., _, _ | .unary .., _, _ | .binary .., _, _
  | .compare .., _, _ | .boolean .., _, _ | .conditional .., _, _ | .yield .., _, _
  | .await .., _, _ => by
    unfold store
    exact lowers_fail

theorem computes_storeAll : (es : List Expr) → ∀ {vs : List Value} {σ : List Value},
    vs.length = es.length →
      Computes mayTire n (storeAll s es) (vs ++ σ) (assignAll n s es vs) fun _ => σ
  | [], [], _, _ => by
    unfold storeAll assignAll
    exact lowers_nothing rfl
  | e :: es, v :: vs, _, h => by
    unfold storeAll assignAll
    exact (computes_store e).andThen fun _ => computes_storeAll es (Nat.succ.inj h)

end

theorem computes_dup {v : Value} :
    Computes mayTire n (emit .dup) (v :: σ) (pure ()) fun _ => v :: v :: σ :=
  computes_silently (x := pure ()) (fun _ => rfl) fun _ _ => rfl

theorem computes_dupTwo {v w : Value} :
    Computes mayTire n (emit .dupTwo) (w :: v :: σ) (pure ()) fun _ => w :: v :: w :: v :: σ := by
  refine computes_silently (x := pure ()) (fun _ => rfl) fun f pc => ?_
  change (f.placed pc ([v, w].reverse ++ σ)).popMany [v, w].length >>= _ = _
  rw [popMany_placed]
  rfl

theorem computes_rot2 {v w : Value} :
    Computes mayTire n (emit .rot2) (w :: v :: σ) (pure ()) fun _ => v :: w :: σ :=
  computes_silently (x := pure ()) (fun _ => rfl) fun _ _ => rfl

theorem computes_rot3 {u v w : Value} :
    Computes mayTire n (emit .rot3) (w :: v :: u :: σ) (pure ()) fun _ => v :: u :: w :: σ :=
  computes_silently (x := pure ()) (fun _ => rfl) fun _ _ => rfl

theorem computes_storeChain (span : Text.Span) {v : Value} {σ : List Value} : (es : List Expr) →
    Computes mayTire n (storeChain s span es) (v :: σ) (assignChain n s v es) fun _ => σ
  | [] => by
    unfold storeChain
    exact lowers_fail
  | [e] => by
    unfold storeChain assignChain assignChain
    exact (computes_store e).andReturn fun _ => rfl
  | e :: e' :: es => by
    unfold storeChain assignChain
    refine computes_dup.thenOnly ((computes_store e).andThen fun _ => ?_)
    exact computes_storeChain span (e' :: es)

theorem generate_bind_ok {α β : Type} {g : Generate α} {f : α → Generate β} {d e : Draft} {a : α}
    (h : g d = .ok (a, e)) : (g >>= f) d = f a e := by
  change (g d >>= fun r => f r.1 r.2) = _
  rw [h]
  rfl

/-- A name that has a place keeps it when the place is asked for again. -/
theorem emitNamed_again {instr : Nat → Instr} {attr : Name} {d : Draft} {slot : Nat}
    (h : d.builder.names.idxOf? attr = some slot) :
    emitNamed instr attr d = emit (instr slot) d := by
  have hname : d.builder.name attr = (slot, d.builder) := by
    simp only [Builder.name, poolName, h]
  change emit (instr (d.builder.name attr).1) { d with builder := (d.builder.name attr).2 } = _
  rw [hname]

theorem lowers_namedTwice {α : Type} {g : Generate Unit} {i i' : Nat → Instr} {attr : Name}
    {k : Nat} {x : Nat → Tale α} {goal : α → Option Label × List Value}
    (hg : ∀ d d', g d = .ok ((), d') → d.builder.Extends d'.builder)
    (h : Lowers mayTire n (do
      emitNamed i attr
      g
      emitNamed i' attr) k σ x goal) :
    Lowers mayTire n (do
      let slot ← Generate.place (·.name attr)
      emit (i slot)
      g
      emit (i' slot)) k σ x goal := by
  intro d d' hrun
  obtain ⟨slot, d₁, hplace, hrun⟩ := Generates.generate_bind_eq_ok hrun
  obtain ⟨⟨⟩, d₂, hemit, hrun⟩ := Generates.generate_bind_eq_ok hrun
  obtain ⟨⟨⟩, d₃, hg', hrun⟩ := Generates.generate_bind_eq_ok hrun
  have hfirst : emitNamed i attr d = .ok ((), d₂) := (generate_bind_ok hplace).trans hemit
  have hslot : d₃.builder.names.idxOf? attr = some slot := by
    cases hplace
    cases hemit
    exact (hg _ _ hg').names.idxOf? (Builder.poolName_idxOf? d.builder.names attr)
  refine h ?_
  rw [generate_bind_ok hfirst, generate_bind_ok hg', emitNamed_again hslot]
  exact hrun

theorem computes_augmented (op : Grammar.BinaryOp) (value : Expr) : (target : Expr) →
    Computes mayTire n (augmented s op value target) σ (augment n s op value target) fun _ => σ
  | .name name span => by
    unfold augmented augment
    refine computes_loadName.andThen fun v => (computes_expression n s value).andThen fun w => ?_
    exact computes_binary.andThen fun result => computes_storeName
  | .member target attr _ => by
    unfold augmented augment
    refine (computes_expression n s target).andThen fun object => ?_
    refine computes_dup.thenOnly ?_
    -- The member has one place in the pool, which is asked for twice.
    have hcode : Computes mayTire n (do
        emitNamed .loadAttr attr
        (do
          expression s value
          emit (.binary op)
          emit .rot2)
        emitNamed .storeAttr attr) (object :: object :: σ) (do
          let v ← Tale.doing (.member object attr) (getAttribute object attr)
          let w ← evaluate n s value
          let result ← Tale.doing (.binary op v w) (binary op v w)
          .doing (.setMember object attr result) (setAttribute object attr result)) fun _ => σ := by
      simp only [bind_assoc]
      refine computes_loadAttr.andThen fun v => (computes_expression n s value).andThen fun w => ?_
      exact computes_binary.andThen fun result => computes_rot2.thenOnly computes_storeAttr
    have htwice := lowers_namedTwice (i := .loadAttr) (fun d d' hrun => ?_) hcode
    · simpa only [bind_assoc] using htwice
    · obtain ⟨⟨⟩, d₁, hvalue, hrun⟩ := Generates.generate_bind_eq_ok hrun
      obtain ⟨⟨⟩, d₂, hbinary, hrot⟩ := Generates.generate_bind_eq_ok hrun
      cases hbinary
      cases hrot
      have hcomputes : Computes mayTire n (expression s value) σ _ _ := computes_expression n s value
      exact ((hcomputes hvalue).1.trans (Builder.extends_push _ _ none)).trans (Builder.extends_push _ _ none)
  | .subscript target index _ => by
    unfold augmented augment
    refine (computes_expression n s target).andThen fun container => ?_
    refine (computes_expression n s index).andThen fun i => ?_
    refine computes_dupTwo.thenOnly (computes_loadSubscript.andThen fun v => ?_)
    refine (computes_expression n s value).andThen fun w => computes_binary.andThen fun result => ?_
    exact computes_rot3.thenOnly computes_storeSubscript
  | .none _ | .ellipsis _ | .bool .. | .int .. | .float .. | .str .. | .list .. | .tuple .. | .dict ..
  | .call .. | .unary .. | .binary .. | .compare .. | .boolean .. | .conditional .. | .yield ..
  | .await .. => lowers_fail

end Targets

end Lexiscope.Meaning
