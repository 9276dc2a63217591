import Lexiscope.Proofs.Machine.Meanings
/-!
# The order of values

Two values have an order if both are numbers or texts, or lists or tuples whose first different items
have one. It is that of what they mean, it is the other way round between the same values swapped, and
it is transitive where it is defined.
-/

namespace Lexiscope.Machine

section Text

variable {a b c : String}

theorem orderText_eq_lt : orderText a b = .lt ↔ a < b := by
  unfold orderText
  split
  · exact iff_of_true rfl ‹_›
  · refine iff_of_false ?_ ‹_›
    split <;> exact Ordering.noConfusion

theorem orderText_eq_eq : orderText a b = .eq ↔ a = b := by
  unfold orderText
  split
  · rename_i hlt
    refine iff_of_false Ordering.noConfusion ?_
    rintro rfl
    exact String.lt_irrefl a hlt
  · split
    · exact iff_of_true rfl (eq_of_beq ‹_›)
    · exact iff_of_false Ordering.noConfusion fun h => ‹¬ (a == b) = true› (beq_of_eq h)

theorem orderText_eq_gt : orderText a b = .gt ↔ b < a := by
  unfold orderText
  split
  · exact iff_of_false Ordering.noConfusion (String.lt_asymm ‹_›)
  · split
    · refine iff_of_false Ordering.noConfusion ?_
      rw [eq_of_beq ‹(a == b) = true›]
      exact String.lt_irrefl b
    · refine iff_of_true rfl (Decidable.byContradiction fun hge => ?_)
      have heq : a = b := String.le_antisymm (String.not_lt.1 hge) (String.not_lt.1 ‹¬ a < b›)
      exact ‹¬ (a == b) = true› (beq_of_eq heq)

theorem orderText_swap (a b : String) : orderText b a = (orderText a b).swap := by
  cases h : orderText a b with
  | lt => exact orderText_eq_gt.2 (orderText_eq_lt.1 h)
  | eq => exact orderText_eq_eq.2 (orderText_eq_eq.1 h).symm
  | gt => exact orderText_eq_lt.2 (orderText_eq_gt.1 h)

theorem orderText_trans (hab : orderText a b = .lt) (hbc : orderText b c = .lt) :
    orderText a c = .lt :=
  orderText_eq_lt.2 (String.lt_trans (orderText_eq_lt.1 hab) (orderText_eq_lt.1 hbc))

end Text

section

open Classical

mutual

noncomputable def Sense.order : Sense → Sense → Option Ordering
  | .number m, .number n => some (compare m n)
  | .text t, .text u => some (orderText t u)
  | .list as, .list bs => orderMeanings as bs
  | .tuple as, .tuple bs => orderMeanings as bs
  | _, _ => none
termination_by structural a => a

noncomputable def orderMeanings : List Sense → List Sense → Option Ordering
  | [], [] => some .eq
  | [], _ :: _ => some .lt
  | _ :: _, [] => some .gt
  | a :: as, b :: bs => if a = b then orderMeanings as bs else a.order b
termination_by structural as => as

end

end

mutual

theorem Sense.order_swap : ∀ a b : Sense, b.order a = (a.order b).map Ordering.swap
  | .number m, b => by
    cases b with
    | number n => exact congrArg some (Std.OrientedCmp.eq_swap)
    | _ => rfl
  | .text t, b => by
    cases b with
    | text u => exact congrArg some (orderText_swap t u)
    | _ => rfl
  | .list as, b => by
    cases b with
    | list bs => exact orderMeanings_swap as bs
    | _ => rfl
  | .tuple as, b => by
    cases b with
    | tuple bs => exact orderMeanings_swap as bs
    | _ => rfl
  | .dict _, b | .range _, b | .object _, b => by cases b <;> rfl

theorem orderMeanings_swap :
    ∀ as bs : List Sense, orderMeanings bs as = (orderMeanings as bs).map Ordering.swap
  | [], [] | [], _ :: _ | _ :: _, [] => rfl
  | a :: as, b :: bs => by
    rw [orderMeanings, orderMeanings]
    by_cases h : a = b
    · rw [if_pos h, if_pos h.symm, orderMeanings_swap as bs]
    · rw [if_neg h, if_neg (Ne.symm h), Sense.order_swap a b]

end

mutual

theorem Sense.order_eq_eq : ∀ {a b : Sense} {o : Ordering}, a.order b = some o → (o = .eq ↔ a = b)
  | .number m, b, o, h => by
    cases b with
    | number n =>
      cases h
      simp
    | _ => cases h
  | .text t, b, o, h => by
    cases b with
    | text u =>
      cases h
      rw [orderText_eq_eq, Sense.text.injEq]
    | _ => cases h
  | .list as, b, o, h => by
    cases b with
    | list bs => rw [Sense.list.injEq, orderMeanings_eq_eq h]
    | _ => cases h
  | .tuple as, b, o, h => by
    cases b with
    | tuple bs => rw [Sense.tuple.injEq, orderMeanings_eq_eq h]
    | _ => cases h
  | .dict _, b, o, h | .range _, b, o, h | .object _, b, o, h => by cases b <;> cases h

theorem orderMeanings_eq_eq :
    ∀ {as bs : List Sense} {o : Ordering}, orderMeanings as bs = some o → (o = .eq ↔ as = bs)
  | [], [], o, h | [], _ :: _, o, h | _ :: _, [], o, h => by
    cases h
    simp
  | a :: as, b :: bs, o, h => by
    rw [orderMeanings] at h
    rw [List.cons.injEq]
    split at h
    · rename_i heq
      rw [orderMeanings_eq_eq h, and_iff_right heq]
    · rename_i hne
      rw [Sense.order_eq_eq h]
      exact iff_of_false hne fun hsame => hne hsame.1

end

mutual

theorem Sense.order_trans : ∀ {a b c : Sense}, a.order b = some .lt → b.order c = some .lt →
    a.order c = some .lt
  | .number m, b, c, hab, hbc => by
    cases b with
    | number n =>
      cases c with
      | number k =>
        exact congrArg some (Std.TransCmp.lt_trans (Option.some.inj hab) (Option.some.inj hbc))
      | _ => cases hbc
    | _ => cases hab
  | .text t, b, c, hab, hbc => by
    cases b with
    | text u =>
      cases c with
      | text v => exact congrArg some (orderText_trans (Option.some.inj hab) (Option.some.inj hbc))
      | _ => cases hbc
    | _ => cases hab
  | .list as, b, c, hab, hbc => by
    cases b with
    | list bs =>
      cases c with
      | list cs => exact @orderMeanings_trans as bs cs hab hbc
      | _ => cases hbc
    | _ => cases hab
  | .tuple as, b, c, hab, hbc => by
    cases b with
    | tuple bs =>
      cases c with
      | tuple cs => exact @orderMeanings_trans as bs cs hab hbc
      | _ => cases hbc
    | _ => cases hab
  | .dict _, b, c, hab, hbc | .range _, b, c, hab, hbc | .object _, b, c, hab, hbc => by
    cases b <;> cases hab

theorem orderMeanings_trans : ∀ {as bs cs : List Sense}, orderMeanings as bs = some .lt →
    orderMeanings bs cs = some .lt → orderMeanings as cs = some .lt
  | as, [], cs, hab, hbc => by cases as <;> cases hab
  | as, b :: bs, [], hab, hbc => by cases hbc
  | [], b :: bs, c :: cs, _, _ => rfl
  | a :: as, b :: bs, c :: cs, hab, hbc => by
    rw [orderMeanings] at hab hbc ⊢
    split at hab
    · rename_i heq
      subst heq
      split at hbc
      · rename_i heq
        subst heq
        rw [if_pos rfl]
        exact orderMeanings_trans hab hbc
      · rw [if_neg ‹_›]
        exact hbc
    · split at hbc
      · rename_i hne heq
        subst heq
        rw [if_neg hne]
        exact hab
      · -- The first items cannot be the same, since the middle one lies between them.
        have hne : a ≠ c := by
          rintro rfl
          rw [Sense.order_swap a b, hab] at hbc
          cases hbc
        rw [if_neg hne]
        exact Sense.order_trans hab hbc

end

section Order

variable {s : Store} {n : Nat} {a b c : Value} {list : ListRef → ListRef → Option Ordering}
  {items : ListRef → List Sense} {find : DictRef → Key → Option Sense}

theorem orderAllWith_eq_orderItems (vs ws : List Value) :
    orderAllWith s list vs ws = orderItems (Value.equal s) (Value.orderWith s list) vs ws := by
  induction vs generalizing ws with
  | nil => cases ws <;> rfl
  | cons v vs ih =>
    cases ws with
    | nil => rfl
    | cons w ws => rw [orderAllWith, orderItems, ih]

theorem orderTo_list (n : Nat) (r q : ListRef) : (Value.list r).orderTo s (n + 1) (.list q) =
    orderItems (Value.equal s) (Value.orderTo s n) (s.list r).toList (s.list q).toList := by
  rfl

theorem orderTo_tuple (n : Nat) (i j : Identity) (vs ws : List Value) :
    (Value.tuple i vs).orderTo s n (.tuple j ws) =
      orderItems (Value.equal s) (Value.orderTo s n) vs ws := by
  cases n <;> exact orderAllWith_eq_orderItems vs ws

/-- Values without floats that are not sequences of one kind have the order of what they mean. -/
theorem orderTo_of_unlike (ha : ∀ x, a ≠ .float x) (hb : ∀ x, b ≠ .float x)
    (hlist : ∀ r q, a = .list r → b ≠ .list q)
    (htuple : ∀ i vs j ws, a = .tuple i vs → b ≠ .tuple j ws) :
    a.orderTo s n b = (a.meaningTo s n).order (b.meaningTo s n) := by
  have hwith : ∀ {list items find}, a.orderWith s list b =
      (a.meaningWith items find).order (b.meaningWith items find) := by
    intro list items find
    cases a <;> cases b <;>
      simp_all [Value.orderWith, Value.number?, Number.order, Value.meaningWith, Sense.order,
        toInt_bit]
    exact absurd rfl (htuple _ _ _ _ rfl rfl rfl)
  cases n <;> exact hwith

theorem orderItems_eq {equal : Value → Value → Bool} {order : Value → Value → Option Ordering}
    {meaning : Value → Sense} {vs ws : List Value}
    (hequal : ∀ v ∈ vs, ∀ w ∈ ws, (equal v w = true ↔ meaning v = meaning w))
    (horder : ∀ v ∈ vs, ∀ w ∈ ws, order v w = (meaning v).order (meaning w)) :
    orderItems equal order vs ws = orderMeanings (vs.map meaning) (ws.map meaning) := by
  induction vs generalizing ws with
  | nil => cases ws <;> rfl
  | cons v vs ih =>
    cases ws with
    | nil => rfl
    | cons w ws =>
      have hrest := ih (fun v hv w hw => hequal v (.tail _ hv) w (.tail _ hw))
        fun v hv w hw => horder v (.tail _ hv) w (.tail _ hw)
      have hfirst := hequal v List.mem_cons_self w List.mem_cons_self
      rw [orderItems, hrest, horder v List.mem_cons_self w List.mem_cons_self, List.map_cons,
        List.map_cons, orderMeanings]
      by_cases hsame : equal v w = true
      · rw [if_pos hsame, if_pos (hfirst.1 hsame)]
      · rw [if_neg hsame, if_neg (mt hfirst.2 hsame)]

theorem equal_iff_meaningTo (hn : n ≤ s.nesting) (ha : a.Levels s n) (hb : b.Levels s n) :
    a.equal s b = true ↔ a.meaningTo s n = b.meaningTo s n := by
  rw [Value.equal, equalTo_iff (ha.mono hn) (hb.mono hn), ha.meaningTo_eq hn, hb.meaningTo_eq hn]

/-- Regular values have the order of what they mean. -/
theorem orderTo_eq (hn : n ≤ s.nesting) (ha : a.Levels s n) (hb : b.Levels s n) :
    a.orderTo s n b = (a.meaningTo s n).order (b.meaningTo s n) := by
  induction ha generalizing b with
  | leaf hlist htuple _ hfloat =>
    exact orderTo_of_unlike hfloat hb.noFloat (fun r _ h => absurd h (hlist r))
      fun i vs _ _ h => absurd h (htuple i vs)
  | tuple hvs ih =>
    cases hb with
    | tuple hws =>
      rw [orderTo_tuple, meaningTo_tuple, meaningTo_tuple]
      exact orderItems_eq (fun v hv w hw => equal_iff_meaningTo hn (hvs v hv) (hws w hw))
        fun v hv w hw => ih v hv hn (hws w hw)
    | leaf _ htuple _ hfloat => exact orderTo_of_unlike (by simp) hfloat (by simp) (by simp [htuple])
    | _ => exact orderTo_of_unlike (by simp) (by simp) (by simp) (by simp)
  | @list n r hvs ih =>
    cases hb with
    | @list _ q hws =>
      have hn' : n ≤ s.nesting := Nat.le_of_succ_le hn
      rw [orderTo_list]
      exact orderItems_eq (fun v hv w hw => equal_iff_meaningTo hn' (hvs v hv) (hws w hw))
        fun v hv w hw => ih v hv hn' (hws w hw)
    | leaf hlist _ _ hfloat => exact orderTo_of_unlike (by simp) hfloat (by simp [hlist]) (by simp)
    | _ => exact orderTo_of_unlike (by simp) (by simp) (by simp) (by simp)
  | dict => exact orderTo_of_unlike (by simp) hb.noFloat (by simp) (by simp)

theorem order_eq_meaning (ha : a.Regular s) (hb : b.Regular s) :
    a.order s b = (a.meaning s).order (b.meaning s) :=
  orderTo_eq le_rfl ha.levels hb.levels

theorem order_swap (ha : a.Regular s) (hb : b.Regular s) :
    b.order s a = (a.order s b).map Ordering.swap := by
  rw [order_eq_meaning ha hb, order_eq_meaning hb ha, Sense.order_swap]

theorem order_eq_eq (ha : a.Regular s) (hb : b.Regular s) {o : Ordering}
    (h : a.order s b = some o) : o = .eq ↔ a.equal s b = true := by
  rw [order_eq_meaning ha hb] at h
  rw [Sense.order_eq_eq h, equal_iff ha hb]

theorem order_then_of_ne_gt (ha : a.Regular s) (hb : b.Regular s) (hc : c.Regular s)
    {o o' : Ordering} (hab : a.order s b = some o) (hbc : b.order s c = some o') (ho : o ≠ .gt)
    (ho' : o' ≠ .gt) : a.order s c = some (o.then o') := by
  rw [order_eq_meaning ha hb] at hab
  rw [order_eq_meaning hb hc] at hbc
  rw [order_eq_meaning ha hc]
  cases o with
  | gt => exact absurd rfl ho
  | eq =>
    rw [(Sense.order_eq_eq hab).1 rfl]
    exact hbc
  | lt =>
    cases o' with
    | gt => exact absurd rfl ho'
    | eq =>
      rw [← (Sense.order_eq_eq hbc).1 rfl]
      exact hab
    | lt => exact Sense.order_trans hab hbc

/-- If no step from one value over a second one to a third one goes against a direction, the third one
stands to the first one as the first step says, or else as the second one. -/
theorem order_then (ha : a.Regular s) (hb : b.Regular s) (hc : c.Regular s) {w o o' : Ordering}
    (hw : w ≠ .eq) (hab : a.order s b = some o) (hbc : b.order s c = some o') (ho : o ≠ w.swap)
    (ho' : o' ≠ w.swap) : a.order s c = some (o.then o') := by
  cases w with
  | eq => exact absurd rfl hw
  | lt => exact order_then_of_ne_gt ha hb hc hab hbc ho ho'
  | gt =>
    -- The steps in the other direction go from the third value to the first one.
    have hba : b.order s a = some o.swap := by rw [order_swap ha hb, hab, Option.map_some]
    have hcb : c.order s b = some o'.swap := by rw [order_swap hb hc, hbc, Option.map_some]
    have hca := order_then_of_ne_gt hc hb ha hcb hba (by cases o' <;> simp_all) (by cases o <;> simp_all)
    rw [order_swap hc ha, hca]
    cases o <;> cases o' <;> simp_all

end Order

end Lexiscope.Machine
