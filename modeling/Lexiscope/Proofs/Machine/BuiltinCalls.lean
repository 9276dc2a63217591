import Lexiscope.Proofs.Machine.Operations
/-!
# Built-ins in stores that are alike

The built-in functions respect every likeness, given that the supply of items does.
-/

namespace Lexiscope.Machine.Likeness

open Exec

variable {L : Likeness}

/-- One supply of items follows another. -/
structure Supplies (L : Likeness) (p q : Supply) : Prop where
  all : ∀ v, L.value v → L.Agree (fun items => ∀ w ∈ items, L.value w) (p.all v) (q.all v)
  next : ∀ v, L.value v → L.Agree (fun item => ∀ w ∈ item, L.value w) (p.next v) (q.next v)

theorem good_getD {args : List Value} (h : ∀ v ∈ args, L.value v) (i : Nat)
    {d : Value} (hd : L.value d) : L.value (args.getD i d) := by
  rw [List.getD_eq_getElem?_getD]
  cases hi : args[i]? with
  | none => exact hd
  | some v => exact h v (List.mem_of_getElem? hi)

variable (hL : L.Lawful)

include hL

section Signature

theorem agree_unexpectedKeyword {α : Type} {p : α → Prop} (function keyword : Name) :
    L.Agree p (unexpectedKeyword function keyword) (unexpectedKeyword function keyword) :=
  agree_typeError hL _

theorem agree_refuseKeywords (function : Name) (keywords : Keywords) :
    L.Agree (fun _ => True) (refuseKeywords function keywords)
      (refuseKeywords function keywords) := by
  cases keywords with
  | nil => exact agree_pure trivial
  | cons k ks => exact agree_unexpectedKeyword hL _ _

theorem agree_requireCount (function : Name) (least most : Nat) (args : List Value) :
    L.Agree (fun _ => True) (requireCount function least most args)
      (requireCount function least most args) := by
  unfold requireCount
  refine agree_ite (agree_pure trivial) ?_
  refine agree_ite (agree_typeError hL _) ?_
  exact agree_ite (agree_typeError hL _) (agree_typeError hL _)

theorem agree_requirePositional (function : Name) (least most : Nat) (args : List Value)
    (keywords : Keywords) :
    L.Agree (fun _ => True) (requirePositional function least most args keywords)
      (requirePositional function least most args keywords) :=
  (agree_refuseKeywords hL _ _).bind fun _ _ => agree_requireCount hL _ _ _ _

theorem agree_integerArgument (function : Name) (v : Value) :
    L.Agree (fun _ => True) (integerArgument function v) (integerArgument function v) := by
  unfold integerArgument
  split
  · exact agree_pure trivial
  · exact agree_typeError hL _

end Signature

section Sequence

theorem agree_lengthOf (v : Value) : L.Agree L.value (lengthOf v) (lengthOf v) := by
  unfold lengthOf
  refine follows_get fun s t h => ?_
  simp only [h.list, h.dict]
  split
  case h_6 => exact agree_typeError hL _
  all_goals exact agree_pure (hL.plain _ rfl)

theorem agree_bestOf (symbol : String) (wanted : Ordering) {best : Value} (hb : L.value best)
    {items : List Value} (hi : ∀ v ∈ items, L.value v) :
    L.Agree L.value (bestOf symbol wanted best items) (bestOf symbol wanted best items) := by
  induction items generalizing best with
  | nil => exact agree_pure hb
  | cons item items ih =>
    unfold bestOf
    refine (agree_orderOf hL _ _ _).bind fun o _ => ?_
    refine ih ?_ fun v hv => hi v (List.mem_cons_of_mem item hv)
    split
    · exact hi item List.mem_cons_self
    · exact hb

theorem agree_extreme {p q : Supply} (hs : L.Supplies p q) (name : Name) (symbol : String)
    (wanted : Ordering) {args : List Value} (ha : ∀ v ∈ args, L.value v) :
    L.Agree L.value (extreme p name symbol wanted args) (extreme q name symbol wanted args) := by
  have hbest : ∀ {first : Value} {rest : List Value}, (∀ v ∈ first :: rest, L.value v) →
      L.Agree L.value (bestOf symbol wanted first rest) (bestOf symbol wanted first rest) :=
    fun {first _} h => agree_bestOf hL _ _ (h first List.mem_cons_self)
      fun v hv => h v (List.mem_cons_of_mem first hv)
  unfold extreme
  split
  · exact Agree.bind (agree_typeError (p := fun _ => False) hL _) fun _ h => h.elim
  · rename_i v
    have hitems : L.Agree (fun items : List Value => ∀ w ∈ items, L.value w)
        (Array.toList <$> p.all v) (Array.toList <$> q.all v) :=
      (hs.all v (ha v List.mem_cons_self)).map fun items hw w hm => hw w (by simpa using hm)
    refine hitems.bind fun items hgood => ?_
    cases items with
    | nil => exact agree_valueError hL _
    | cons first rest => exact hbest hgood
  · refine (agree_pure (p := fun items => ∀ v ∈ items, L.value v) ha).bind fun items hgood => ?_
    cases items with
    | nil => exact agree_valueError hL _
    | cons first rest => exact hbest hgood

theorem agree_absolute (v : Value) : L.Agree L.value (absolute v) (absolute v) := by
  unfold absolute
  split
  · exact agree_checked hL _ _
  · exact agree_pure (hL.plain _ rfl)
  · exact agree_typeError hL _

theorem agree_sumFrom {start : Value} (hs : L.value start) {items : List Value}
    (hi : ∀ v ∈ items, L.value v) :
    L.Agree L.value (sumFrom start items) (sumFrom start items) := by
  induction items generalizing start with
  | nil => exact agree_pure hs
  | cons item items ih =>
    unfold sumFrom
    refine (agree_binary hL _ hs (hi item List.mem_cons_self)).bind fun v hv => ?_
    exact ih hv fun w hw => hi w (List.mem_cons_of_mem item hw)

theorem agree_rangeOf (args : List Value) : L.Agree L.value (rangeOf args) (rangeOf args) := by
  have hmake : ∀ start stop step : Int64, L.Agree L.value
      (if step == 0 then valueError "range() arg 3 must not be zero"
        else pure (.range ⟨start, stop, step⟩))
      (if step == 0 then valueError "range() arg 3 must not be zero"
        else pure (.range ⟨start, stop, step⟩)) :=
    fun _ _ _ => agree_ite (agree_valueError hL _) (agree_pure (hL.plain _ rfl))
  unfold rangeOf
  refine (agree_mapM fun v _ => agree_integerArgument hL "range" v).bind fun ns _ => ?_
  split
  · exact hmake _ _ _
  · exact hmake _ _ _
  · exact hmake _ _ _
  · exact agree_typeError hL _

omit hL in
theorem Alike.insertSorted {s t : Store} (h : L.Alike s t) (item : Value) (items : List Value) :
    Machine.insertSorted t item items = Machine.insertSorted s item items := by
  induction items with
  | nil => rfl
  | cons v vs ih => simp only [Machine.insertSorted, h.order, ih]

omit hL in
theorem Alike.insertionSort {s t : Store} (h : L.Alike s t) (sorted items : List Value) :
    Machine.insertionSort t sorted items = Machine.insertionSort s sorted items := by
  induction items generalizing sorted with
  | nil => rfl
  | cons item items ih => simp only [Machine.insertionSort, h.insertSorted, ih]

omit hL in
theorem mem_insertSorted {s : Store} {item : Value} {items sorted : List Value}
    (h : insertSorted s item items = .ok sorted) {v : Value} (hv : v ∈ sorted) :
    v = item ∨ v ∈ items := by
  induction items generalizing sorted with
  | nil =>
    cases h
    exact .inl (List.mem_singleton.1 hv)
  | cons w ws ih =>
    unfold insertSorted at h
    split at h
    · cases h
    · cases hrest : insertSorted s item ws with
      | error e => simp [hrest, Except.map] at h
      | ok rest =>
        simp only [hrest, Except.map, Except.ok.injEq] at h
        subst h
        rcases List.mem_cons.1 hv with rfl | hv
        · exact .inr List.mem_cons_self
        · exact (ih hrest hv).imp_right (List.mem_cons_of_mem w)
    · cases h
      exact List.mem_cons.1 hv

omit hL in
theorem mem_insertionSort {s : Store} {sorted items result : List Value}
    (h : insertionSort s sorted items = .ok result) {v : Value} (hv : v ∈ result) :
    v ∈ sorted ∨ v ∈ items := by
  induction items generalizing sorted with
  | nil =>
    cases h
    exact .inl hv
  | cons item items ih =>
    unfold insertionSort at h
    split at h
    · cases h
    · rename_i inserted hinsert
      rcases ih h with hv | hv
      · rcases mem_insertSorted hinsert hv with rfl | hv
        · exact .inr List.mem_cons_self
        · exact .inl hv
      · exact .inr (List.mem_cons_of_mem item hv)

theorem agree_sortItems {items : List Value} (hi : ∀ v ∈ items, L.value v) (descending : Bool) :
    L.Agree L.value (sortItems items descending) (sortItems items descending) := by
  unfold sortItems
  refine follows_get fun s t h => ?_
  rw [h.insertionSort]
  cases hsort : Machine.insertionSort s [] items with
  | error pair => exact agree_typeError hL _
  | ok sorted =>
    have hsorted : ∀ v ∈ sorted, L.value v := fun v hv =>
      hi v ((mem_insertionSort hsort hv).resolve_left (by simp))
    refine agree_newList hL fun v hv => ?_
    split at hv
    · exact hsorted v (by simpa using hv)
    · exact hsorted v (by simpa using hv)

theorem agree_readReverse {s t : Store} (h : L.Alike s t) (descending : Bool)
    (keywords : Keywords) :
    L.Agree (fun _ => True) (readReverse s descending keywords)
      (readReverse t descending keywords) := by
  induction keywords generalizing descending with
  | nil => exact agree_pure trivial
  | cons k ks ih =>
    unfold readReverse
    rw [h.isTruthy]
    exact agree_ite (ih _) (agree_unexpectedKeyword hL _ _)

theorem agree_readStart (count : Int64) (keywords : Keywords) :
    L.Agree (fun _ => True) (readStart count keywords) (readStart count keywords) := by
  induction keywords generalizing count with
  | nil => exact agree_pure trivial
  | cons k ks ih =>
    unfold readStart
    refine agree_ite ?_ (agree_unexpectedKeyword hL _ _)
    exact (agree_integerArgument hL _ _).bind fun n _ => ih n

theorem agree_nextOf {p q : Supply} (hs : L.Supplies p q) {v : Value} (hv : L.value v)
    {fallback : Option Value} (hf : ∀ w ∈ fallback, L.value w) :
    L.Agree L.value (nextOf p v fallback) (nextOf q v fallback) := by
  cases v with
  | iterator r | generator r =>
    refine (hs.next _ hv).bind fun item hitem => ?_
    cases hor : item.or fallback with
    | none => exact agree_raise hL _ _
    | some w =>
      refine agree_pure ?_
      rcases Option.or_eq_some_iff.1 hor with hw | ⟨_, hw⟩
      · exact hitem w hw
      · exact hf w hw
  | _ => exact agree_typeError hL _

theorem agree_readLayout (separator terminator : String) (keywords : Keywords) :
    L.Agree (fun _ => True) (readLayout separator terminator keywords)
      (readLayout separator terminator keywords) := by
  induction keywords generalizing separator terminator with
  | nil => exact agree_pure trivial
  | cons k ks ih =>
    obtain ⟨keyword, v⟩ := k
    unfold readLayout
    refine agree_ite (Agree.bind (p := fun _ => True) ?_ fun text _ => ih _ _)
      (agree_ite (Agree.bind (p := fun _ => True) ?_ fun text _ => ih _ _)
        (agree_unexpectedKeyword hL _ _))
    all_goals
      cases v with
      | none => exact agree_pure trivial
      | str s => exact agree_pure trivial
      | _ => exact agree_typeError hL _

theorem agree_printLine (args : List Value) (keywords : Keywords) :
    L.Agree L.value (printLine args keywords) (printLine args keywords) := by
  unfold printLine
  refine (agree_readLayout hL _ _ _).bind fun layout _ => ?_
  refine follows_get fun s t h => ?_
  simp only [h.display hL]
  refine (agree_write _).bind fun _ _ => (agree_write _).bind fun _ _ => ?_
  exact agree_pure (hL.plain _ rfl)

theorem agree_notClass {α : Type} {p : α → Prop} : L.Agree p notClass notClass :=
  agree_typeError hL _

mutual

theorem agree_isInstance (v : Value) :
    (c : Value) → L.Agree (fun _ => True) (isInstance v c) (isInstance v c)
  | .tuple _ classes => by
    unfold isInstance
    exact agree_isInstanceOfAny v classes
  | .type c => by
    unfold isInstance
    cases v <;> exact agree_pure trivial
  | .exceptionType kind => by
    unfold isInstance
    cases v <;> exact agree_pure trivial
  | .builtin i b => by
    cases b
    case int => cases v <;> exact agree_pure trivial
    case list | tuple | dict | str | float | bool | range => exact agree_pure trivial
    all_goals exact agree_notClass hL
  | .none | .ellipsis | .bool _ | .int _ | .float _ | .str _ | .list _ | .dict _ | .range _
  | .function _ | .method .. | .object .. | .generator _ | .iterator _ | .exception ..
  | .cell _ | .marker _ | .code _ => agree_notClass hL

theorem agree_isInstanceOfAny (v : Value) :
    (cs : List Value) → L.Agree (fun _ => True) (isInstanceOfAny v cs) (isInstanceOfAny v cs)
  | [] => agree_pure trivial
  | c :: cs => by
    unfold isInstanceOfAny
    refine (agree_isInstance v c).bind fun found _ => ?_
    exact agree_ite (agree_pure trivial) (agree_isInstanceOfAny v cs)

end

end Sequence

section Conversion

theorem agree_toInteger (v : Option Value) : L.Agree L.value (toInteger v) (toInteger v) := by
  unfold toInteger
  split
  · exact agree_pure (hL.plain _ rfl)
  · split
    · exact agree_pure (hL.plain _ rfl)
    · exact agree_valueError hL _
  · split
    · exact agree_pure (hL.plain _ rfl)
    · exact agree_ite (agree_pure (hL.plain _ rfl)) (agree_valueError hL _)
    · exact agree_typeError hL _

theorem agree_toFloating (v : Option Value) : L.Agree L.value (toFloating v) (toFloating v) := by
  unfold toFloating
  split
  · exact agree_pure (hL.plain _ rfl)
  · split
    · exact agree_pure (hL.plain _ rfl)
    · exact agree_valueError hL _
  · split
    · exact agree_pure (hL.plain _ rfl)
    · exact agree_typeError hL _

theorem agree_toBoolean (v : Option Value) : L.Agree L.value (toBoolean v) (toBoolean v) := by
  unfold toBoolean
  refine follows_get fun s t h => ?_
  simp only [h.isTruthy]
  exact agree_pure (hL.plain _ rfl)

theorem agree_toText (v : Option Value) : L.Agree L.value (toText v) (toText v) := by
  unfold toText
  refine follows_get fun s t h => ?_
  simp only [h.display hL]
  exact agree_newStr hL _

variable {p q : Supply} (hs : L.Supplies p q)

include hs

theorem agree_toList {v : Option Value} (hv : ∀ w ∈ v, L.value w) :
    L.Agree L.value (toList p v) (toList q v) := by
  cases v with
  | none => exact agree_newList hL (by simp)
  | some v => exact (hs.all v (hv v rfl)).bind fun _ hitems => agree_newList hL hitems

theorem agree_toTuple {v : Option Value} (hv : ∀ w ∈ v, L.value w) :
    L.Agree L.value (toTuple p v) (toTuple q v) := by
  unfold toTuple
  split
  · exact agree_newTuple hL (by simp)
  · exact agree_pure (hv _ rfl)
  · rename_i v _
    refine (hs.all v (hv v rfl)).bind fun items hitems => agree_newTuple hL fun w hw => ?_
    exact hitems w (by simpa using hw)

theorem agree_entriesOfPairs {m : OrderedMap Key Value} (hm : m.All L.value)
    {pairs : List Value} (hp : ∀ v ∈ pairs, L.value v) :
    L.Agree (fun m => m.All L.value) (entriesOfPairs p m pairs) (entriesOfPairs q m pairs) := by
  induction pairs generalizing m with
  | nil => exact agree_pure hm
  | cons pair pairs ih =>
    unfold entriesOfPairs
    refine (hs.all pair (hp pair List.mem_cons_self)).bind fun items hitems => ?_
    split
    · rename_i k v heq
      have hv : L.value v := hitems v (by simp [← Array.mem_toList_iff, heq])
      refine (agree_key hL k).bind fun k _ => ih (hm.insert k hv) ?_
      exact fun w hw => hp w (List.mem_cons_of_mem pair hw)
    · exact agree_valueError hL _

theorem agree_firstEntries {v : Option Value} (hv : ∀ w ∈ v, L.value w) :
    L.Agree (fun m => m.All L.value) (firstEntries p v) (firstEntries q v) := by
  unfold firstEntries
  split
  · exact agree_pure OrderedMap.all_empty
  · rename_i r
    refine follows_get fun s t h => ?_
    rw [h.dict]
    exact agree_pure (h.values.dict r)
  · rename_i v _
    refine (hs.all v (hv v rfl)).bind fun items hitems => ?_
    exact agree_entriesOfPairs hL hs OrderedMap.all_empty fun w hw => hitems w (by simpa using hw)

theorem agree_toDict {v : Option Value} (hv : ∀ w ∈ v, L.value w) {keywords : Keywords}
    (hk : ∀ k ∈ keywords, L.value k.2) :
    L.Agree L.value (toDict p v keywords) (toDict q v keywords) := by
  have hkey : ∀ k ∈ keywords, L.Agree (fun e : Key × Value => L.value e.2)
      (do return (Key.str ⟨← freshIdentity, k.1⟩, k.2))
      (do return (Key.str ⟨← freshIdentity, k.1⟩, k.2)) :=
    fun k hmem => agree_freshIdentity.bind fun _ _ => agree_pure (hk k hmem)
  refine (agree_firstEntries hL hs hv).bind fun entries hentries => ?_
  exact (agree_mapM hkey).bind fun more hmore => agree_newDict hL (hentries.insertAll hmore.2)

end Conversion

section Method

theorem agree_receiverList (args : List Value) :
    L.Agree (fun _ => True) (receiverList args) (receiverList args) := by
  unfold receiverList
  split
  · exact agree_pure trivial
  · exact agree_typeError hL _

theorem agree_receiverDict (args : List Value) :
    L.Agree (fun _ => True) (receiverDict args) (receiverDict args) := by
  unfold receiverDict
  split
  · exact agree_pure trivial
  · exact agree_typeError hL _

theorem agree_receiverText (args : List Value) :
    L.Agree (fun _ => True) (receiverText args) (receiverText args) := by
  unfold receiverText
  split
  · exact agree_pure trivial
  · exact agree_typeError hL _

theorem agree_appendItem (r : ListRef) {item : Value} (h : L.value item) :
    L.Agree L.value (appendItem r item) (appendItem r item) :=
  (agree_modifyList r fun _ hitems => push_all hitems h).bind fun _ _ =>
    agree_pure (hL.plain _ rfl)

omit hL in
theorem eraseIdx_all {items : Array Value} (h : ∀ v ∈ items, L.value v) (i : Nat) :
    ∀ v ∈ items.eraseIdxIfInBounds i, L.value v := by
  intro v hv
  unfold Array.eraseIdxIfInBounds at hv
  split at hv
  · exact h v (Array.mem_of_mem_eraseIdx hv)
  · exact h v hv

theorem agree_popItem (r : ListRef) (index : Option Value) :
    L.Agree L.value (popItem r index) (popItem r index) := by
  have htaken : ∀ {items : Array Value} {place : Int} {item : Value}, (∀ v ∈ items, L.value v) →
      (if place < 0 then none else items[place.toNat]?) = some item → L.Agree L.value
        (do modifyList r (·.eraseIdxIfInBounds place.toNat); return item)
        (do modifyList r (·.eraseIdxIfInBounds place.toNat); return item) := by
    intro items place item hitems hitem
    have hgood : L.value item := by
      split at hitem
      · cases hitem
      · exact hitems item (Array.mem_of_getElem? hitem)
    refine (agree_modifyList r fun _ h => eraseIdx_all h _).bind fun _ _ => ?_
    exact agree_pure hgood
  unfold popItem
  refine follows_get fun s t h => ?_
  rw [h.list]
  dsimp only
  split
  · exact Agree.bind (agree_raise (p := fun _ => False) hL _ _) fun _ hf => hf.elim
  · split
    · refine (agree_integerArgument hL _ _).bind fun i _ => ?_
      split
      · exact agree_raise hL _ _
      · exact htaken (h.values.list r) (by assumption)
    · refine Agree.bind (agree_pure (p := fun _ => True) trivial) fun i _ => ?_
      split
      · exact agree_raise hL _ _
      · exact htaken (h.values.list r) (by assumption)

theorem agree_entryTuples {entries : List (Key × Value)} (he : ∀ e ∈ entries, L.value e.2) :
    L.Agree (fun vs => vs.length = entries.length ∧ ∀ v ∈ vs, L.value v) (entryTuples entries)
      (entryTuples entries) := by
  refine agree_mapM fun e hmem => (agree_keyToValue hL e.1).bind fun k hk => ?_
  refine agree_newTuple hL fun v hv => ?_
  rcases List.mem_cons.1 hv with rfl | hv
  · exact hk
  · exact List.mem_singleton.1 hv ▸ he e hmem

theorem agree_requireTexts (items : List (Value × Nat)) :
    L.Agree (fun _ => True) (requireTexts items) (requireTexts items) := by
  induction items with
  | nil => exact agree_pure trivial
  | cons item items ih =>
    unfold requireTexts
    split
    · exact ih.bind fun _ _ => agree_pure trivial
    · exact agree_typeError hL _

theorem agree_callListMethod (b : Builtin) {args : List Value} (ha : ∀ v ∈ args, L.value v)
    (keywords : Keywords) :
    L.Agree L.value (callListMethod b args keywords) (callListMethod b args keywords) := by
  unfold callListMethod
  refine agree_ite ?_ ?_
  · refine (agree_requirePositional hL _ _ _ _ _).bind fun _ _ => ?_
    refine (agree_receiverList hL _).bind fun r _ => ?_
    exact agree_appendItem hL r (good_getD ha 1 (hL.plain _ rfl))
  · refine (agree_requirePositional hL _ _ _ _ _).bind fun _ _ => ?_
    exact (agree_receiverList hL _).bind fun r _ => agree_popItem hL r _

theorem agree_callDictMethod (b : Builtin) {args : List Value} (ha : ∀ v ∈ args, L.value v)
    (keywords : Keywords) :
    L.Agree L.value (callDictMethod b args keywords) (callDictMethod b args keywords) := by
  unfold callDictMethod
  split
  · refine (agree_requirePositional hL _ _ _ _ _).bind fun _ _ => ?_
    refine (agree_key hL _).bind fun k _ => ?_
    refine (agree_receiverDict hL _).bind fun r _ => follows_get fun s t h => ?_
    rw [h.dict]
    refine agree_pure ?_
    cases hv : (s.dict r).get? k with
    | none => exact good_getD ha 2 (hL.plain _ rfl)
    | some v => exact (h.values.dict r).get? hv
  · refine (agree_requirePositional hL _ _ _ _ _).bind fun _ _ => follows_get fun s t h => ?_
    refine (agree_receiverDict hL _).bind fun r _ => ?_
    rw [h.dict]
    have hentries := h.values.dict r
    split
    · refine (agree_keyValues hL _).bind fun keys hkeys => agree_newList hL fun v hv => ?_
      exact hkeys v (List.mem_toArray.1 hv)
    · refine agree_newList hL fun v hv => ?_
      obtain ⟨e, he, rfl⟩ := List.mem_map.1 (List.mem_toArray.1 hv)
      exact hentries e he
    · refine (agree_entryTuples hL hentries).bind fun vs hvs => agree_newList hL fun v hv => ?_
      exact hvs.2 v (List.mem_toArray.1 hv)

theorem agree_callStrMethod {p q : Supply} (hs : L.Supplies p q) (b : Builtin)
    {args : List Value} (ha : ∀ v ∈ args, L.value v) (keywords : Keywords) :
    L.Agree L.value (callStrMethod p b args keywords) (callStrMethod q b args keywords) := by
  unfold callStrMethod
  split
  · refine (agree_requirePositional hL _ _ _ _ _).bind fun _ _ => ?_
    refine (agree_receiverText hL _).bind fun separator _ => ?_
    refine (hs.all _ (good_getD ha 1 (hL.plain _ rfl))).bind fun items _ => ?_
    exact (agree_requireTexts hL _).bind fun _ _ => agree_newStr hL _
  · refine (agree_requirePositional hL _ _ _ _ _).bind fun _ _ => ?_
    exact (agree_receiverText hL _).bind fun text _ => agree_newStr hL _

end Method

section Call

theorem agree_requireClasses (classes : List Value) :
    L.Agree (fun _ => True) (requireClasses classes) (requireClasses classes) := by
  induction classes with
  | nil => exact agree_pure trivial
  | cons c cs ih =>
    cases c with
    | type c => exact ih.bind fun _ _ => agree_pure trivial
    | _ => exact agree_typeError hL _

/-- Calls of built-ins respect every likeness. -/
theorem agree_callBuiltin {p q : Supply} (hs : L.Supplies p q) (b : Builtin)
    {args : List Value} (ha : ∀ v ∈ args, L.value v) {keywords : Keywords}
    (hk : ∀ k ∈ keywords, L.value k.2) :
    L.Agree L.value (callBuiltin p b args keywords) (callBuiltin q b args keywords) := by
  have hfirst : L.value (args.getD 0 .none) := good_getD ha 0 (hL.plain _ rfl)
  have hhead : ∀ v ∈ args.head?, L.value v := fun v hv => ha v (List.mem_of_head? hv)
  have hpositional : ∀ {name : Name} {least most : Nat} {x y : Exec Value},
      L.Agree L.value x y →
      L.Agree L.value (requirePositional name least most args keywords >>= fun _ => x)
        (requirePositional name least most args keywords >>= fun _ => y) :=
    fun hxy => (agree_requirePositional hL _ _ _ _ _).bind fun _ _ => hxy
  unfold callBuiltin
  cases b <;> dsimp only
  case print => exact agree_printLine hL _ _
  case len => exact hpositional (agree_lengthOf hL _)
  case min | max =>
    exact (agree_refuseKeywords hL _ _).bind fun _ _ => agree_extreme hL hs _ _ _ ha
  case abs => exact hpositional (agree_absolute hL _)
  case sum =>
    refine hpositional ((hs.all _ hfirst).bind fun items hitems => ?_)
    exact agree_sumFrom hL (good_getD ha 1 (hL.plain _ rfl))
      fun v hv => hitems v (by simpa using hv)
  case range => exact hpositional (agree_rangeOf hL _)
  case list => exact hpositional (agree_toList hL hs hhead)
  case tuple => exact hpositional (agree_toTuple hL hs hhead)
  case dict => exact (agree_requireCount hL _ _ _ _).bind fun _ _ => agree_toDict hL hs hhead hk
  case str => exact hpositional (agree_toText hL _)
  case int => exact hpositional (agree_toInteger hL _)
  case float => exact hpositional (agree_toFloating hL _)
  case bool => exact hpositional (agree_toBoolean hL _)
  case repr =>
    refine hpositional (follows_get fun s t h => ?_)
    rw [h.render hL]
    exact agree_newStr hL _
  case next =>
    exact hpositional (agree_nextOf hL hs hfirst fun w hw => ha w (List.mem_of_getElem? hw))
  case iter => exact hpositional (agree_makeIterator hL hfirst)
  case sorted =>
    refine (agree_requireCount hL _ _ _ _).bind fun _ _ => follows_get fun s t h => ?_
    refine (agree_readReverse hL h _ _).bind fun descending _ => ?_
    refine (hs.all _ hfirst).bind fun items hitems => ?_
    exact agree_sortItems hL (fun v hv => hitems v (by simpa using hv)) _
  case enumerate =>
    refine (agree_requireCount hL _ _ _ _).bind fun _ _ => ?_
    refine (agree_readStart hL _ _).bind fun count _ => ?_
    exact (agree_makeIterator hL hfirst).bind fun v hv => agree_newIterator hL hv
  case zip =>
    refine (agree_refuseKeywords hL _ _).bind fun _ _ => ?_
    refine (agree_mapM fun v hv => agree_makeIterator hL (ha v hv)).bind fun vs hvs => ?_
    exact agree_newIterator hL hvs.2
  case isinstance =>
    exact hpositional ((agree_isInstance hL _ _).bind fun _ _ => agree_pure (hL.plain _ rfl))
  case buildClass => exact agree_typeError hL _
  case listAppend | listPop => exact agree_callListMethod hL _ ha _
  case dictGet | dictKeys | dictValues | dictItems => exact agree_callDictMethod hL _ ha _
  case strUpper | strLower | strJoin => exact agree_callStrMethod hL hs _ ha _

end Call

end Lexiscope.Machine.Likeness
