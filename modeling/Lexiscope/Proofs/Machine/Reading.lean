import Lexiscope.Proofs.Machine.Primitives
/-!
# Truth, equality, order and text in stores that are alike

None of these looks at observers, and of a generator only the title of its code is shown.
-/

namespace Lexiscope.Machine

namespace Store.All

mutual

theorem classLookup {p : Value → Prop} {s : Store} (h : s.All p) (name : Name) :
    (c : Class) → ∀ v, c.lookup s name = some v → p v
  | .mk n bases space => by
    intro v hv
    unfold Class.lookup at hv
    rcases Option.or_eq_some_iff.1 hv with hv | ⟨_, hv⟩
    · exact h.lookup hv
    · exact lookupBases h name bases v hv

theorem lookupBases {p : Value → Prop} {s : Store} (h : s.All p) (name : Name) :
    (cs : List Class) → ∀ v, Machine.lookupBases s name cs = some v → p v
  | [] => by
    intro v hv
    cases hv
  | c :: cs => by
    intro v hv
    unfold Machine.lookupBases at hv
    rcases Option.or_eq_some_iff.1 hv with hv | ⟨_, hv⟩
    · exact classLookup h name c v hv
    · exact lookupBases h name cs v hv

end

end Store.All

namespace Likeness

variable {L : Likeness} {s t : Store}

namespace Alike

theorem isTruthy (h : L.Alike s t) (v : Value) : v.isTruthy t = v.isTruthy s := by
  cases v <;> simp only [Value.isTruthy, h.list, h.dict]

theorem equalTo (h : L.Alike s t) (n : Nat) :
    Value.equalTo t n = Value.equalTo s n := by
  induction n with
  | zero => rfl
  | succ n ih =>
    funext a b
    simp only [Value.equalTo, h.list, h.dict, ih]

theorem equal (h : L.Alike s t) (a b : Value) : a.equal t b = a.equal s b := by
  simp only [Value.equal, h.nesting, h.equalTo]

mutual

theorem orderWith (h : L.Alike s t) (list : ListRef → ListRef → Option Ordering) :
    (a b : Value) → a.orderWith t list b = a.orderWith s list b
  | .tuple _ as, b => by
    cases b with
    | tuple _ bs => exact orderAllWith h list as bs
    | _ => rfl
  | .str _, b | .list _, b => by cases b <;> rfl
  | .none, _ | .ellipsis, _ | .bool _, _ | .int _, _ | .float _, _ | .dict _, _ | .range _, _ | .function _, _ | .builtin .., _ | .method .., _ | .type _, _
  | .object .., _ | .generator _, _ | .iterator _, _ | .exception .., _ | .exceptionType _, _
  | .cell _, _ | .marker _, _ | .code _, _ => by
    unfold Value.orderWith
    rfl

theorem orderAllWith (h : L.Alike s t) (list : ListRef → ListRef → Option Ordering) :
    (as bs : List Value) →
      Machine.orderAllWith t list as bs = Machine.orderAllWith s list as bs
  | [], bs => by cases bs <;> rfl
  | a :: as, bs => by
    cases bs with
    | nil => rfl
    | cons b bs =>
      unfold Machine.orderAllWith
      rw [h.equal, orderAllWith h list as bs, orderWith h list a b]

end

theorem orderTo (h : L.Alike s t) (n : Nat) : Value.orderTo t n = Value.orderTo s n := by
  have hequal : Value.equal t = Value.equal s := by
    funext a b
    exact h.equal a b
  induction n with
  | zero =>
    funext a b
    exact h.orderWith _ a b
  | succ n ih =>
    funext a b
    simp only [Value.orderTo, h.orderWith, h.list, hequal, ih]

theorem order (h : L.Alike s t) (a b : Value) : a.order t b = a.order s b := by
  simp only [Value.order, h.nesting, h.orderTo]

mutual

theorem renderWith (h : L.Alike s t) (hL : L.Lawful) (list : ListRef → String)
    (dict : DictRef → String) : (v : Value) → v.renderWith t list dict = v.renderWith s list dict
  | .tuple _ items => by
    unfold Value.renderWith
    rw [renderAllWith h hL list dict items]
  | .generator r => by
    unfold Value.renderWith
    rw [hL.title _ _ (h.generator r).code]
  | .method id receiver callee => by
    have hreceiver := renderWith h hL list dict receiver
    have hcallee := renderWith h hL list dict callee
    cases callee with
    | function f =>
      unfold Value.renderWith
      rw [hreceiver]
    | builtin i b => rfl
    | _ => exact congrArg (fun text => "<bound method " ++ text ++ ">") hcallee
  | .none | .ellipsis | .bool _ | .int _ | .float _ | .str _ | .list _ | .dict _ | .range _
  | .function _ | .builtin .. | .type _ | .object .. | .iterator _ | .exception ..
  | .exceptionType _ | .cell _ | .marker _ | .code _ => rfl

theorem renderAllWith (h : L.Alike s t) (hL : L.Lawful) (list : ListRef → String)
    (dict : DictRef → String) : (vs : List Value) →
      Machine.renderAllWith t list dict vs = Machine.renderAllWith s list dict vs
  | [] => rfl
  | v :: vs => by
    unfold Machine.renderAllWith
    rw [renderWith h hL list dict v, renderAllWith h hL list dict vs]

end

theorem renderTo (h : L.Alike s t) (hL : L.Lawful) (n : Nat) :
    Value.renderTo t n = Value.renderTo s n := by
  induction n with
  | zero =>
    funext v
    exact h.renderWith hL _ _ v
  | succ n ih =>
    funext v
    simp only [Value.renderTo, h.renderWith hL, h.list, h.dict, ih]

theorem render (h : L.Alike s t) (hL : L.Lawful) (v : Value) : v.render t = v.render s := by
  simp only [Value.render, h.nesting, h.renderTo hL]

theorem display (h : L.Alike s t) (hL : L.Lawful) (v : Value) : v.display t = v.display s := by
  cases v <;> simp only [Value.display, h.render hL]

mutual

theorem classLookup (h : L.Alike s t) (name : Name) :
    (c : Class) → c.lookup t name = c.lookup s name
  | .mk n bases space => by
    unfold Class.lookup
    rw [h.lookup, lookupBases h name bases]

theorem lookupBases (h : L.Alike s t) (name : Name) :
    (cs : List Class) → Machine.lookupBases t name cs = Machine.lookupBases s name cs
  | [] => rfl
  | c :: cs => by
    unfold Machine.lookupBases
    rw [classLookup h name c, lookupBases h name cs]

end

end Alike

end Likeness

end Lexiscope.Machine
