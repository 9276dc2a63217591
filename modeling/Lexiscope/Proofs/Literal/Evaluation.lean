import Lexiscope.Proofs.Code.Growth
import Lexiscope.Proofs.Data.OrderedMap
import Lexiscope.Proofs.Literal.Scanning
import Lexiscope.Proofs.Machine.Turn
import Lexiscope.Proofs.Meaning.Expression
/-!
# The value of the literal of a datum

The literal of a datum is evaluated to a value that shows the datum. On the way lists and dictionaries
are made, and nothing else changes.
-/

namespace Lexiscope.Machine

open Code (Keeps)

/-- The second store has all that the first has, and perhaps more lists and dictionaries. -/
structure Store.Gains (s t : Store) : Prop where
  lists : Code.Keeps s.lists t.lists
  dicts : Code.Keeps s.dicts t.dicts
  spaces : t.spaces = s.spaces

variable {s t u : Store}

theorem Store.Gains.refl (s : Store) : s.Gains s := ⟨.refl _, .refl _, rfl⟩

theorem Store.Gains.trans (h : s.Gains t) (h' : t.Gains u) : s.Gains u :=
  ⟨h.lists.trans h'.lists, h.dicts.trans h'.dicts, h'.spaces.trans h.spaces⟩

theorem list_of_keeps (h : Keeps s.lists t.lists) {r : ListRef} (hr : r.index < s.lists.size) :
    r.index < t.lists.size ∧ t.list r = s.list r := by
  have hkeeps := h r.index _ (Array.getElem?_eq_getElem hr)
  obtain ⟨hlt, -⟩ := Array.getElem?_eq_some_iff.1 hkeeps
  refine ⟨hlt, ?_⟩
  rw [Store.list, Store.list, Array.getD_eq_getD_getElem?, Array.getD_eq_getD_getElem?, hkeeps,
    Array.getElem?_eq_getElem hr]

theorem dict_of_keeps (h : Keeps s.dicts t.dicts) {r : DictRef} (hr : r.index < s.dicts.size) :
    r.index < t.dicts.size ∧ t.dict r = s.dict r := by
  have hkeeps := h r.index _ (Array.getElem?_eq_getElem hr)
  obtain ⟨hlt, -⟩ := Array.getElem?_eq_some_iff.1 hkeeps
  refine ⟨hlt, ?_⟩
  rw [Store.dict, Store.dict, Array.getD_eq_getD_getElem?, Array.getD_eq_getD_getElem?, hkeeps,
    Array.getElem?_eq_getElem hr]

section Showing

mutual

theorem shows_of_keeps (hlists : Keeps s.lists t.lists) (hdicts : Keeps s.dicts t.dicts) : (d : Datum) → ∀ {v : Value}, v.Shows s d → v.Shows t d
  | .none, v, h => by cases v <;> simp only [Value.Shows] at h ⊢
  | .bool _, v, h | .int _, v, h | .str _, v, h => by
    cases v <;> simp only [Value.Shows] at h ⊢
    exact h
  | .list ds, v, h => by
    cases v <;> simp only [Value.Shows] at h ⊢
    obtain ⟨hlt, hlist⟩ := list_of_keeps hlists h.1
    exact ⟨hlt, hlist ▸ allShow_of_keeps hlists hdicts ds h.2⟩
  | .tuple ds, v, h => by
    cases v <;> simp only [Value.Shows] at h ⊢
    exact allShow_of_keeps hlists hdicts ds h
  | .dict es, v, h => by
    cases v <;> simp only [Value.Shows] at h ⊢
    obtain ⟨hlt, hdict⟩ := dict_of_keeps hdicts h.1
    exact ⟨hlt, hdict ▸ entriesShow_of_keeps hlists hdicts es h.2⟩

theorem allShow_of_keeps (hlists : Keeps s.lists t.lists) (hdicts : Keeps s.dicts t.dicts) :
    (ds : List Datum) → ∀ {vs : List Value}, AllShow s vs ds → AllShow t vs ds
  | [], vs, h => by cases vs <;> simp only [AllShow] at h ⊢
  | d :: ds, vs, h => by
    cases vs <;> simp only [AllShow] at h ⊢
    exact ⟨shows_of_keeps hlists hdicts d h.1, allShow_of_keeps hlists hdicts ds h.2⟩

theorem entriesShow_of_keeps (hlists : Keeps s.lists t.lists) (hdicts : Keeps s.dicts t.dicts) :
    (ds : List (Datum × Datum)) → ∀ {es : List (Key × Value)}, EntriesShow s es ds → EntriesShow t es ds
  | [], es, h => by cases es <;> simp only [EntriesShow] at h ⊢
  | (key, value) :: ds, es, h => by
    cases es <;> simp only [EntriesShow] at h ⊢
    exact ⟨h.1, shows_of_keeps hlists hdicts value h.2.1, entriesShow_of_keeps hlists hdicts ds h.2.2⟩

end

end Showing

theorem Store.Gains.shows (h : s.Gains t) {v : Value} {d : Datum} (hv : v.Shows s d) : v.Shows t d :=
  shows_of_keeps h.lists h.dicts d hv

theorem Store.Gains.allShow (h : s.Gains t) {vs : List Value} {ds : List Datum} (hvs : AllShow s vs ds) :
    AllShow t vs ds :=
  allShow_of_keeps h.lists h.dicts ds hvs

section Making

theorem newList_shows {vs : List Value} {ds : List Datum} (h : AllShow s vs ds) :
    ∃ w t, Exec.newList vs.toArray s = .ok w t ∧ w.Shows t (.list ds) ∧ s.Gains t := by
  have hgains : s.Gains { s with lists := s.lists.push vs.toArray } :=
    ⟨Code.keeps_push _ _, .refl _, rfl⟩
  refine ⟨_, _, rfl, ⟨by simp, ?_⟩, hgains⟩
  simpa [Store.list] using hgains.allShow h

theorem newTuple_shows {vs : List Value} {ds : List Datum} (h : AllShow s vs ds) :
    ∃ w t, Exec.newTuple vs s = .ok w t ∧ w.Shows t (.tuple ds) ∧ s.Gains t :=
  have hgains : s.Gains { s with next := s.next + 1 } := ⟨.refl _, .refl _, rfl⟩
  ⟨_, _, rfl, hgains.allShow h, hgains⟩

mutual

theorem toKey_of_shows : (k : Key) → ∀ {v : Value}, v.Shows s k.datum →
    ∃ l : Key, v.toKey = .ok l ∧ l.datum = k.datum
  | .none, v, h => by
    cases v <;> simp only [Key.datum, Value.Shows] at h
    exact ⟨.none, rfl, rfl⟩
  | .bool b, v, h => by
    cases v <;> simp only [Key.datum, Value.Shows] at h
    exact ⟨.bool _, rfl, by rw [h]⟩
  | .int n, v, h => by
    cases v <;> simp only [Key.datum, Value.Shows] at h
    exact ⟨.int _, rfl, by rw [h]⟩
  | .str t, v, h => by
    cases v <;> simp only [Key.datum, Value.Shows] at h
    exact ⟨.str _, rfl, by rw [Key.datum, h, Key.datum]⟩
  | .tuple ks, v, h => by
    cases v <;> simp only [Key.datum, Value.Shows] at h
    obtain ⟨ls, hkeys, hdata⟩ := toKeys_of_allShow ks h
    exact ⟨.tuple ls, by rw [Value.toKey, hkeys]; rfl, by rw [Key.datum, hdata, Key.datum]⟩

theorem toKeys_of_allShow : (ks : List Key) → ∀ {vs : List Value}, AllShow s vs (keyData ks) →
    ∃ ls : List Key, toKeys vs = .ok ls ∧ keyData ls = keyData ks
  | [], vs, h => by
    cases vs <;> simp only [keyData, AllShow] at h
    exact ⟨[], rfl, rfl⟩
  | k :: ks, vs, h => by
    cases vs <;> simp only [keyData, AllShow] at h
    obtain ⟨l, hkey, hdatum⟩ := toKey_of_shows k h.1
    obtain ⟨ls, hkeys, hdata⟩ := toKeys_of_allShow ks h.2
    exact ⟨l :: ls, by rw [toKeys, hkey, hkeys]; rfl, by rw [keyData, hdatum, hdata, keyData]⟩

end

def FlatShows (s : Store) : List Value → List (Datum × Datum) → Prop
  | [], [] => True
  | k :: v :: vs, d :: ds => k.Shows s d.1 ∧ v.Shows s d.2 ∧ FlatShows s vs ds
  | _, _ => False

theorem entriesShow_append {es : List (Key × Value)} {ds : List (Datum × Datum)} (h : EntriesShow s es ds)
    {k : Key} {v : Value} {value : Datum} (hv : v.Shows s value) :
    EntriesShow s (es ++ [(k, v)]) (ds ++ [(k.datum, value)]) := by
  induction es generalizing ds with
  | nil =>
    cases ds <;> simp only [EntriesShow] at h
    exact ⟨rfl, hv, trivial⟩
  | cons e es ih =>
    cases ds <;> simp only [EntriesShow] at h
    exact ⟨h.1, h.2.1, ih h.2.2⟩

theorem entriesOfFlat_shows {m : OrderedMap Key Value} {before : List (Datum × Datum)}
    (hm : EntriesShow s m.entries before) {vs : List Value} {ds : List (Datum × Datum)}
    (hvs : FlatShows s vs ds) (hds : EntriesWritable ds) (hnodup : ((before ++ ds).map Prod.fst).Nodup) :
    ∃ m', entriesOfFlat m vs s = .ok m' s ∧ EntriesShow s m'.entries (before ++ ds) := by
  induction ds generalizing m before vs with
  | nil =>
    cases vs with
    | nil => exact ⟨m, rfl, by rwa [List.append_nil]⟩
    | cons v vs => cases vs <;> simp [FlatShows] at hvs
  | cons d ds ih =>
    cases vs with
    | nil => simp [FlatShows] at hvs
    | cons k vs =>
      cases vs with
      | nil => simp [FlatShows] at hvs
      | cons v vs =>
        obtain ⟨hk, hv, hvs⟩ := hvs
        obtain ⟨⟨key, hkey⟩, -, -, hds⟩ := hds
        rw [← hkey] at hk
        obtain ⟨l, htoKey, hdatum⟩ := toKey_of_shows key hk
        have hnew : ∀ e ∈ m.entries, (e.1 == l) = false := by
          intro e he
          obtain ⟨value, hmem, -⟩ := mem_of_entriesShow hm he
          rw [List.map_append, List.nodup_append] at hnodup
          refine Bool.eq_false_of_not_eq_true fun heq => ?_
          refine hnodup.2.2 _ (List.mem_map_of_mem hmem) _ List.mem_cons_self ?_
          rw [(beq_iff_datum _ _).1 heq, hdatum, hkey]
        have hinsert : EntriesShow s (m.insert l v).entries (before ++ [d]) := by
          rw [OrderedMap.insert, OrderedMap.insertIn_of_forall_ne v hnew]
          have happend := entriesShow_append hm (k := l) hv
          rwa [hdatum, hkey] at happend
        obtain ⟨m', hrun, hshows⟩ := ih hinsert hvs hds (by rwa [List.append_assoc])
        refine ⟨m', ?_, by rwa [List.append_assoc] at hshows⟩
        rw [entriesOfFlat, Exec.key, htoKey]
        exact hrun

theorem newDict_shows {vs : List Value} {ds : List (Datum × Datum)} (hvs : FlatShows s vs ds)
    (hds : (Datum.dict ds).Writable) :
    ∃ w t, (do Exec.newDict (← entriesOfFlat .empty vs) : Exec Value) s = .ok w t ∧
      w.Shows t (.dict ds) ∧ s.Gains t := by
  have hempty : EntriesShow s (OrderedMap.empty : OrderedMap Key Value).entries [] := trivial
  obtain ⟨m, hrun, hshows⟩ := entriesOfFlat_shows hempty hvs hds.2 hds.1
  have hgains : s.Gains { s with dicts := s.dicts.push m } := ⟨.refl _, Code.keeps_push _ _, rfl⟩
  refine ⟨.dict ⟨s.dicts.size⟩, _, ?_, ⟨by simp, ?_⟩, hgains⟩
  · rw [bind_ok hrun]
    rfl
  · have hentries := entriesShow_of_keeps hgains.lists hgains.dicts _ hshows
    simpa [Store.dict] using hentries

theorem neg?_natAbs {n : Int64} (hn : n ≠ Int64.minValue) (hneg : n.toInt < 0) :
    Word.neg? (Int64.ofNat n.toInt.natAbs) = some n := by
  have hle := Grammar.natAbs_le_of_ne_minValue hn
  rw [Word.neg?, Word.fit?_eq_some_iff, Int64.toInt_ofNat_of_lt (by omega)]
  omega

theorem ofNat_natAbs {n : Int64} (hpos : ¬ n.toInt < 0) : Int64.ofNat n.toInt.natAbs = n := by
  have hlt := n.toInt_lt
  refine Int64.toInt_inj.1 ?_
  rw [Int64.toInt_ofNat_of_lt (by omega)]
  omega

end Making

end Lexiscope.Machine

namespace Lexiscope.Meaning

open Machine Exec
open Grammar
open Lexical (Scope)

/-- In the store the tale comes to something of which the property holds then. Lists and dictionaries
are made on the way, and nothing else changes. -/
def Builds {α : Type} (s : Store) (x : Tale α) (P : Store → α → Prop) : Prop :=
  ∀ f, ∃ a t ds, x f s = .ended (.ok a) f t ds ∧ P t a ∧ s.Gains t

section Rules

variable {α β : Type} {s : Store} {x : Tale α} {y : α → Tale β} {P : Store → α → Prop}
  {Q : Store → β → Prop}

theorem Builds.bind (hx : Builds s x P) (hy : ∀ a t, s.Gains t → P t a → Builds t (y a) Q) :
    Builds s (x >>= y) Q := by
  intro f
  obtain ⟨a, t, ds, hend, ha, hgains⟩ := hx f
  obtain ⟨b, u, es, hend', hb, hgains'⟩ := hy a t hgains ha f
  refine ⟨b, u, ds ++ es, ?_, hb, hgains.trans hgains'⟩
  change (x f s).bind y = _
  rw [hend]
  change (y a f t).after ds = _
  rw [hend', Told.after]

theorem builds_pure {a : α} (ha : P s a) : Builds s (pure a) P :=
  fun _ => ⟨a, s, [], rfl, ha, .refl s⟩

theorem builds_silently {x : Exec α} (hx : ∃ a t, x s = .ok a t ∧ P t a ∧ s.Gains t) :
    Builds s (.silently fun _ => x) P := by
  intro f
  obtain ⟨a, t, hrun, ha, hgains⟩ := hx
  exact ⟨a, t, [], Tale.silently_ok hrun, ha, hgains⟩

theorem builds_doing {d : Deed} {x : Exec α} (hx : ∃ a t, x s = .ok a t ∧ P t a ∧ s.Gains t) :
    Builds s (.doing d x) P := by
  intro f
  obtain ⟨a, t, ds, hend, ha, hgains⟩ := builds_silently hx f
  refine ⟨a, t, [d] ++ ds, ?_, ha, hgains⟩
  rw [Tale.doing, Tale.after, hend, Told.after]

end Rules

section Literals

variable {n : Nat} {c : Scope}

theorem builds_size {m : Int64} {e : Expr} (he : e.bare = .int m .origin) (s : Store) :
    Builds s (evaluate n c e) fun _ v => v = .int m := by
  obtain ⟨span, rfl⟩ := bare_eq_int he
  rw [evaluate]
  exact builds_pure rfl

/-- An integer is read off its literal, or it is the one that is read with the other sign. -/
theorem builds_int {i : Int64} (hi : i ≠ Int64.minValue) {e : Expr} (he : e.bare = literalOf (.int i))
    (s : Store) : Builds s (evaluate n c e) fun t v => v.Shows t (.int i) := by
  rw [literalOf] at he
  split at he
  · rename_i hneg
    obtain ⟨operand, span, rfl, hoperand⟩ := bare_eq_unary he
    rw [evaluate]
    refine (builds_size hoperand s).bind fun v t _ hv => ?_
    subst hv
    have hrun : unary .neg (.int (Int64.ofNat i.toInt.natAbs)) t = .ok (.int i) t := by
      change checked (Word.neg? _) _ t = _
      rw [neg?_natAbs hi hneg]
      rfl
    exact builds_doing ⟨_, t, hrun, rfl, .refl t⟩
  · rename_i hpos
    intro f
    obtain ⟨v, t, ds, hend, rfl, hgains⟩ := builds_size he s f
    exact ⟨_, t, ds, hend, ofNat_natAbs hpos, hgains⟩

mutual

theorem builds_literal : (d : Datum) → d.Writable → ∀ {e : Expr}, e.bare = literalOf d →
    ∀ s, Builds s (evaluate n c e) fun t v => v.Shows t d
  | .none, _, e, he, s => by
    obtain ⟨span, rfl⟩ := bare_eq_none he
    rw [evaluate]
    exact builds_pure trivial
  | .bool b, _, e, he, s => by
    obtain ⟨span, rfl⟩ := bare_eq_bool he
    rw [evaluate]
    exact builds_pure rfl
  | .int i, h, e, he, s => builds_int h he s
  | .str text, _, e, he, s => by
    obtain ⟨span, rfl⟩ := bare_eq_str he
    rw [evaluate]
    exact fun f => ⟨_, s, [], rfl, rfl, .refl s⟩
  | .list ds, h, e, he, s => by
    obtain ⟨es, span, rfl, hes⟩ := bare_eq_list he
    rw [evaluate]
    exact (builds_literals ds h hes s).bind fun vs t _ hvs => builds_silently (newList_shows hvs)
  | .tuple ds, h, e, he, s => by
    obtain ⟨es, span, rfl, hes⟩ := bare_eq_tuple he
    rw [evaluate]
    exact (builds_literals ds h hes s).bind fun vs t _ hvs => builds_silently (newTuple_shows hvs)
  | .dict ds, h, e, he, s => by
    obtain ⟨es, span, rfl, hes⟩ := bare_eq_dict he
    rw [evaluate]
    exact (builds_entries ds h.2 hes s).bind fun vs t _ hvs => builds_silently (newDict_shows hvs h)

theorem builds_literals : (ds : List Datum) → AllWritable ds → ∀ {es : List Expr},
    bareItems es = literalsOf ds → ∀ s, Builds s (evaluateAll n c es) fun t vs => AllShow t vs.toList ds
  | [], _, es, he, s => by
    cases es with
    | nil =>
      rw [evaluateAll]
      exact builds_pure trivial
    | cons e es => cases he
  | d :: ds, h, es, he, s => by
    cases es with
    | nil => cases he
    | cons e es =>
      injection he with he hes
      rw [evaluateAll]
      refine (builds_literal d h.1 he s).bind fun v t _ hv => ?_
      refine (builds_literals ds h.2 hes t).bind fun vs u hgains hvs => builds_pure ?_
      rw [List.Vector.toList_cons]
      exact ⟨hgains.shows hv, hvs⟩

theorem builds_entries : (ds : List (Datum × Datum)) → EntriesWritable ds → ∀ {es : List (Expr × Expr)},
    bareEntries es = entryLiterals ds → ∀ s, Builds s (evaluateEntries n c es) fun t vs => FlatShows t vs.toList ds
  | [], _, es, he, s => by
    cases es with
    | nil =>
      rw [evaluateEntries]
      exact builds_pure trivial
    | cons e es => cases he
  | (key, value) :: ds, h, es, he, s => by
    cases es with
    | nil => cases he
    | cons e es =>
      injection he with he hes
      injection he with hkey hvalue
      rw [evaluateEntries]
      refine (builds_literal key h.2.1 hkey s).bind fun k t _ hk => ?_
      refine (builds_literal value h.2.2.1 hvalue t).bind fun v u hgains hv => ?_
      refine (builds_entries ds h.2.2.2 hes u).bind fun vs w hgains' hvs => builds_pure ?_
      exact ⟨(hgains.trans hgains').shows hk, hgains'.shows hv, hvs⟩

end

end Literals

end Lexiscope.Meaning
