import Lexiscope.Proofs.Machine.Enumerations
/-!
# The end of an iterator

An iterator does not take down that it has come to its end. The end lasts because what it rests on stays
as it is: a finished generator, a place after the last of the items. A list may grow past the place, and
then there is a next item again.
-/

namespace Lexiscope.Machine

open Exec

def Value.inners (s : Store) : Value → List Value
  | .iterator r => (s.iterator r).source.inners
  | _ => []

/-- The one is asked when items of the other are asked for. -/
abbrev RestsOn (s : Store) : Value → Value → Prop := Relation.ReflTransGen fun v w => w ∈ v.inners s

/-- If it is an iterator or a generator, then one that there is. -/
def Store.Has (s : Store) : Value → Prop
  | .iterator r => r.index < s.iterators.size
  | .generator r => r.index < s.generators.size
  | _ => True

/-- The iterator stands at its end, or one does that it asks. -/
inductive Ended (s : Store) : Value → Prop where
  | generator {r} : (s.generator r).state = .finished → Ended s (.generator r)
  | last {r} : (s.iterator r).source.inners = [] → (s.iterator r).source.draw? s = none →
    Ended s (.iterator r)
  | inner {r v} : v ∈ (s.iterator r).source.inners → Ended s v → Ended s (.iterator r)

section Busy

variable {s : Store} {r : IteratorRef} {v : Value} {busy : Bool}

@[simp] theorem inners_withBusy : v.inners (s.withBusy r busy) = v.inners s := by
  cases v
  case iterator q => exact congrArg Source.inners Store.source_withBusy
  all_goals rfl

theorem Ended.withBusy (h : Ended s v) : Ended (s.withBusy r busy) v := by
  induction h with
  | generator hs => exact .generator hs
  | @last q hinners hdraw =>
    have hsame : (s.iterator q).source.draw? (s.withBusy r busy) = (s.iterator q).source.draw? s :=
      Source.draw?_of_lists rfl
    exact .last (by rwa [Store.source_withBusy]) (by rwa [Store.source_withBusy, hsame])
  | inner hv _ ih => exact .inner (by rwa [Store.source_withBusy]) ih

end Busy

section Reported

variable {s t : Store} {v : Value} {n : Nat} {r : IteratorRef} {q : GeneratorRef}

/-- If the body of a generator has yielded nothing more, the generator is finished. -/
theorem finished_of_none (h : nextItem n (.generator q) s = .ok none t) :
    (t.generator q).state = .finished := by
  cases n with
  | zero => cases h
  | succ n =>
    by_cases hs : (s.generator q).state = .finished
    · rw [nextItem_finished hs] at h
      cases h
      exact hs
    · rw [nextItem_generator hs, map_eq_pure_bind] at h
      obtain ⟨k, u, hresume, hitem⟩ := bind_eq_ok h
      cases n with
      | zero => cases hresume
      | succ n =>
        have hresumes := resume_resumes n q s
        rw [hresume] at hresumes
        cases k with
        | yielded => cases hitem
        | returned =>
          cases hitem
          generalize hresult : EStateM.Result.ok (Completion.returned _) t = result at hresumes
          cases hresumes with
          | executing | finished => cases hresult
          | @goesOn f t' outcome u' w _ _ _ _ _ hafter =>
            cases outcome with
            | error e => cases hresult
            | ok k =>
              obtain ⟨k, f'⟩ := k
              cases hresult
              rw [hafter]
              rfl

/-- A row that is not complete lacks the item of an iterator that stands at its end. -/
theorem ended_of_row {vs : List Value} (hended : ∀ {m v x y}, m < n → nextItem m v x = .ok none y → Ended y v)
    (h : nextRow n vs s = .ok none t) : ∃ v ∈ vs, Ended t v := by
  induction vs generalizing n s with
  | nil => cases n <;> cases h
  | cons v vs ih =>
    obtain ⟨n, rfl, ⟨-, hend⟩ | ⟨item, u, rest, -, hrow, hrest⟩⟩ := row_of_cons h
    · exact ⟨v, List.mem_cons_self, hended (Nat.lt_succ_self n) hend⟩
    · rw [Option.map_eq_none_iff.1 hrest.symm] at hrow
      obtain ⟨w, hw, hend⟩ := ih (fun hm => hended (Nat.lt_succ_of_lt hm)) hrow
      exact ⟨w, List.mem_cons_of_mem v hw, hend⟩

/-- Whoever reports the end stands at it. -/
theorem ended_of_none (h : nextItem n v s = .ok none t) : Ended t v := by
  induction n using Nat.strong_induction_on generalizing v s t with
  | _ n ih =>
    cases v with
    | generator q => exact .generator (finished_of_none h)
    | iterator r =>
      obtain ⟨m, u, rfl, -, hdraw, rfl⟩ := drawn_of_next h
      have hsame : ((s.withBusy r true).iterator r).source = (s.iterator r).source :=
        Store.source_withBusy
      cases drawn_of_draw hdraw with
      | done hinners hover => exact (Ended.last hinners hover).withBusy
      | enumerates hsource hnext =>
        rw [hsame] at hsource
        have hkept := source_of_end (inBounds_of_source (by simp [hsource])) h
        refine .inner ?_ (ih m (by omega) hnext).withBusy
        rw [hkept, hsource]
        exact List.mem_singleton_self _
      | breaks hsource hrow =>
        rw [hsame] at hsource
        have hkept := source_of_end (inBounds_of_source (by simp [hsource])) h
        obtain ⟨w, hw, hend⟩ := ended_of_row (fun hm => ih _ (by omega)) hrow
        refine .inner ?_ hend.withBusy
        rwa [hkept, hsource]
    | _ =>
      cases n <;> cases h

end Reported

/-- All iterators and generators that are asked are ones that there are. -/
def Store.Knows (s : Store) (v : Value) : Prop := ∀ w, RestsOn s v w → s.Has w

/-- No list that is followed has grown past the place at which the iterator stood before. -/
def Kept (s t : Store) (v : Value) : Prop :=
  ∀ r l i, RestsOn s v (.iterator r) → (s.iterator r).source = .list l i → (t.list l).size ≤ i

section Lasting

variable {s t u : Store} {v w : Value} {r : IteratorRef} {a b : Source} {vs : List Value} {n : Nat}

theorem Store.Knows.inner (h : s.Knows v) (hw : w ∈ v.inners s) : s.Knows w :=
  fun _ hx => h _ (.head hw hx)

theorem Kept.inner (h : Kept s t v) (hw : w ∈ v.inners s) : Kept s t w :=
  fun r l i hr => h r l i (.head hw hr)

/-- What has no iterators under it and is over stays where it is, but a list may be followed further. -/
theorem Source.Onto.eq_or_list (h : a.Onto t b) (hinners : a.inners = []) (hover : a.draw? s = none) :
    b = a ∨ ∃ l i, a = .list l i ∧ b = .list l (i + 1) := by
  cases h with
  | enumerate => cases hinners
  | zip => exact .inl rfl
  | held hdrawn =>
    cases a with
    | list l i =>
      obtain ⟨x, -, hx⟩ := Option.map_eq_some_iff.1 hdrawn
      cases hx
      exact .inr ⟨l, i, rfl, rfl⟩
    | items | range => cases hover.symm.trans hdrawn
    | enumerate | zip => cases hdrawn

theorem Delivers.eq_or_list (h : Delivers r a vs b) (hinners : a.inners = []) (hover : a.draw? s = none) :
    b = a ∨ ∃ l i j, a = .list l i ∧ b = .list l j ∧ i ≤ j := by
  induction h with
  | nothing => exact .inl rfl
  | item _ hr hnext ih =>
    have honto := onto_of_next hr hnext
    rcases ih with hsame | ⟨l, i, j, rfl, hlist, hle⟩
    · rw [hsame] at honto
      rcases honto.eq_or_list hinners hover with hstays | ⟨l, i, hl, hnew⟩
      · exact .inl hstays
      · exact .inr ⟨l, i, i + 1, hl, hnew, Nat.le_succ i⟩
    · rw [hlist] at honto
      refine .inr ⟨l, i, j + 1, rfl, ?_, Nat.le_succ_of_le hle⟩
      generalize (Store.iterator _ r).source = after at honto
      cases honto with
      | held hdrawn =>
        obtain ⟨x, -, hx⟩ := Option.map_eq_some_iff.1 hdrawn
        cases hx
        rfl

/-- A source that is over stays so, if it is not a list that has grown. -/
theorem over_later (hr : r.index < s.iterators.size) (hinners : (s.iterator r).source.inners = [])
    (hover : (s.iterator r).source.draw? s = none)
    (hkept : ∀ l i, (s.iterator r).source = .list l i → (t.list l).size ≤ i) (hlater : Later s t) :
    (t.iterator r).source.inners = [] ∧ (t.iterator r).source.draw? t = none := by
  obtain ⟨vs, hgiven⟩ := hlater.advanced.given r hr
  refine ⟨hgiven.inners.trans hinners, ?_⟩
  have hpast : ∀ {l i j}, (s.iterator r).source = .list l i → i ≤ j →
      (Source.list l j).draw? t = none := by
    intro l i j hl hle
    rw [Source.draw?, Array.getElem?_eq_none (Nat.le_trans (hkept l i hl) hle)]
    rfl
  rcases hgiven.eq_or_list hinners hover with hsame | ⟨l, i, j, hl, hnew, hle⟩
  · rw [hsame]
    cases hsource : (s.iterator r).source with
    | list l i => exact hpast hsource (Nat.le_refl i)
    | items | range =>
      rw [hsource] at hover
      exact hover
    | enumerate | zip => rfl
  · rw [hnew]
    exact hpast hl hle

theorem inners_later (hhas : s.Has v) (hlater : Later s t) : v.inners t = v.inners s := by
  cases v
  case iterator r =>
    obtain ⟨vs, hgiven⟩ := hlater.advanced.given r hhas
    exact hgiven.inners
  all_goals rfl

theorem restsOn_later (hknown : s.Knows v) (hlater : Later s t) (h : RestsOn t v w) : RestsOn s v w := by
  induction h using Relation.ReflTransGen.head_induction_on with
  | refl => exact .refl
  | head hx _ ih =>
    rw [inners_later (hknown _ .refl) hlater] at hx
    exact .head hx (ih (hknown.inner hx))

theorem Ended.later (h : Ended s v) (hknown : s.Knows v) (hkept : Kept s t v) (hlater : Later s t) :
    Ended t v := by
  induction h with
  | generator hs => exact .generator (hlater.finished (hknown _ .refl) hs).2
  | @last r hinners hover =>
    obtain ⟨hinners, hover⟩ :=
      over_later (hknown _ .refl) hinners hover (fun l i => hkept r l i .refl) hlater
    exact .last hinners hover
  | @inner r v hv _ ih =>
    have hsame : v ∈ Value.inners t (.iterator r) := (inners_later (hknown _ .refl) hlater).symm ▸ hv
    exact .inner hsame (ih (hknown.inner hv) (hkept.inner hv))

theorem later_of_next {item : Option Value} (h : nextItem n v s = .ok item t) : Later s t := by
  have hwhole : Proceeds s (Stage.after ⟨n, .next v, s⟩) := .whole trivial
  have hafter : Stage.after ⟨n, .next v, s⟩ = t := after_ok h
  exact .single (hafter ▸ hwhole)

/-- For a whole row each iterator has been asked, one after the other, and has given an item. -/
theorem asked_of_row {row : List Value} (h : nextRow n vs s = .ok (some row) t) (hv : v ∈ vs) :
    ∃ m x item y, Later s x ∧ nextItem m v x = .ok (some item) y := by
  induction vs generalizing n s row with
  | nil => cases hv
  | cons w vs ih =>
    obtain ⟨n, -, ⟨hnone, -⟩ | ⟨item, u, rest, hnext, hrow, hrest⟩⟩ := row_of_cons h
    · cases hnone
    · rcases List.mem_cons.1 hv with rfl | hv
      · exact ⟨n, s, item, u, .refl, hnext⟩
      · obtain ⟨others, hothers, -⟩ := Option.map_eq_some_iff.1 hrest.symm
        rw [hothers] at hrow
        obtain ⟨m, x, item', y, hlater, hasked⟩ := ih hrow hv
        exact ⟨m, x, item', y, (later_of_next hnext).trans hlater, hasked⟩

/-- Where no list is followed, no item comes after the end. -/
theorem Ended.eq_none (h : Ended s v) (hknown : s.Knows v)
    (hlists : ∀ r l i, RestsOn s v (.iterator r) → (s.iterator r).source ≠ .list l i)
    (hlater : Later s t) {item : Option Value} (hnext : nextItem n v t = .ok item u) : item = none := by
  induction h generalizing t u n item with
  | generator hs =>
    cases n with
    | zero => cases hnext
    | succ n =>
      rw [nextItem_finished (hlater.finished (hknown _ .refl) hs).2] at hnext
      cases hnext
      rfl
  | @last r hinners hover =>
    obtain ⟨hinners, hover⟩ := over_later (hknown _ .refl) hinners hover
      (fun l i hl => absurd hl (hlists r l i .refl)) hlater
    obtain ⟨m, x, -, -, hdraw, rfl⟩ := drawn_of_next hnext
    have hsame : ((t.withBusy r true).iterator r).source = (t.iterator r).source :=
      Store.source_withBusy
    rw [← hsame] at hinners
    cases drawn_of_draw hdraw with
    | done | enumerates | breaks => rfl
    | held hdrawn =>
      rw [hsame] at hdrawn
      cases hover.symm.trans hdrawn
    | counts hsource =>
      rw [hsource] at hinners
      cases hinners
    | zips hsource _ hvs =>
      rw [hsource] at hinners
      exact absurd hinners hvs
  | @inner r v hv _ ih =>
    obtain ⟨m, x, -, -, hdraw, rfl⟩ := drawn_of_next hnext
    -- The iterator is marked before what is below it is asked, which is at its end by then as well.
    have hbegun : Later s (t.withBusy r true) := hlater.tail .marks
    have hinner : ∀ {n x item y}, Later s x → nextItem n v x = .ok item y → item = none :=
      fun hx => ih (hknown.inner hv) (fun q l i hq => hlists q l i (.head hv hq)) hx
    replace hv : v ∈ Value.inners (t.withBusy r true) (.iterator r) :=
      (inners_later (hknown _ .refl) hbegun).symm ▸ hv
    change v ∈ ((t.withBusy r true).iterator r).source.inners at hv
    cases drawn_of_draw hdraw with
    | done | enumerates | breaks => rfl
    | held hdrawn =>
      rw [Source.inners_of_held (Source.isHeld_of_draw hdrawn).1] at hv
      cases hv
    | counts hsource hgiven =>
      rw [hsource] at hv
      cases List.mem_singleton.1 hv
      cases hinner hbegun hgiven
    | zips hsource hrow =>
      rw [hsource] at hv
      obtain ⟨n, y, item, z, hlater', hgiven⟩ := asked_of_row hrow hv
      cases hinner (hbegun.trans hlater') hgiven

end Lasting

/-- The one iterator that is asked, and the one that is asked by it, and so on, stand at their ends. The
number says how many there are. -/
inductive Spent (s : Store) : Nat → Value → Prop where
  | generator {r} : (s.generator r).state = .finished → Spent s 0 (.generator r)
  | last {r} : (s.iterator r).source.inners = [] → (s.iterator r).source.draw? s = none →
    Spent s 0 (.iterator r)
  | inner {r v k} : (s.iterator r).source.inners = [v] → Spent s k v → Spent s (k + 1) (.iterator r)

section Reporting

variable {s t u : Store} {v w : Value} {r : IteratorRef} {j k n : Nat}

theorem Ended.spent (h : Ended s v)
    (hsingle : ∀ r, RestsOn s v (.iterator r) → (s.iterator r).source.inners.length ≤ 1) :
    ∃ k, Spent s k v := by
  induction h with
  | generator hs => exact ⟨0, .generator hs⟩
  | last hinners hover => exact ⟨0, .last hinners hover⟩
  | @inner r v hv _ ih =>
    obtain ⟨k, hspent⟩ := ih fun q hq => hsingle q (.head hv hq)
    have hone := hsingle r .refl
    obtain ⟨w, hw⟩ := List.length_eq_one_iff.1 (Nat.le_antisymm hone (List.length_pos_of_mem hv))
    rw [hw] at hv
    cases List.mem_singleton.1 hv
    exact ⟨k + 1, .inner hw hspent⟩

theorem Spent.unique (h : Spent s j v) (h' : Spent s k v) : j = k := by
  induction h generalizing k with
  | generator => cases h'; rfl
  | last hinners =>
    cases h' with
    | last => rfl
    | inner hinners' => cases hinners.symm.trans hinners'
  | inner hinners _ ih =>
    cases h' with
    | last hinners' => cases hinners'.symm.trans hinners
    | inner hinners' hspent =>
      cases hinners.symm.trans hinners'
      rw [ih hspent]

theorem Spent.exists_of_restsOn (h : Spent s k v) (hw : RestsOn s v w) : ∃ j ≤ k, Spent s j w := by
  induction h with
  | generator hs =>
    rcases hw.cases_head with rfl | ⟨x, hx, -⟩
    · exact ⟨0, Nat.le_refl 0, .generator hs⟩
    · cases hx
  | @last r hinners hover =>
    rcases hw.cases_head with rfl | ⟨x, hx, -⟩
    · exact ⟨0, Nat.le_refl 0, .last hinners hover⟩
    · change x ∈ (s.iterator r).source.inners at hx
      rw [hinners] at hx
      cases hx
  | @inner r v k hinners hspent ih =>
    rcases hw.cases_head with rfl | ⟨x, hx, hrest⟩
    · exact ⟨k + 1, Nat.le_refl _, .inner hinners hspent⟩
    · change x ∈ (s.iterator r).source.inners at hx
      rw [hinners] at hx
      cases List.mem_singleton.1 hx
      obtain ⟨j, hj, hbelow⟩ := ih hrest
      exact ⟨j, Nat.le_succ_of_le hj, hbelow⟩

theorem Spent.withBusy {busy : Bool} (h : Spent s k v) : Spent (s.withBusy r busy) k v := by
  induction h with
  | generator hs => exact .generator hs
  | @last q hinners hdraw =>
    have hsame : (s.iterator q).source.draw? (s.withBusy r busy) = (s.iterator q).source.draw? s :=
      Source.draw?_of_lists rfl
    exact .last (by rwa [Store.source_withBusy]) (by rwa [Store.source_withBusy, hsame])
  | inner hinners _ ih => exact .inner (by rwa [Store.source_withBusy]) ih

theorem nextItem_over (hinners : (s.iterator r).source.inners = [])
    (hover : (s.iterator r).source.draw? s = none) (hidle : (s.iterator r).busy = false) (n : Nat) :
    nextItem (n + 2) (.iterator r) s = .ok none s := by
  cases hsource : (s.iterator r).source with
  | enumerate =>
    rw [hsource] at hinners
    cases hinners
  | zip vs =>
    rw [hsource] at hinners
    cases hinners
    rw [nextItem_idle hidle, draw_zip_nil (Store.source_withBusy.trans hsource)]
    dsimp only
    rw [Store.withBusy_withBusy hidle]
  | list | items | range => rw [nextItem_held (by rw [hsource]; rfl) hidle, hover]

/-- An iterator asks the only one under it, and both report the end. -/
theorem nextItem_single (hinners : (s.iterator r).source.inners = [v])
    (hidle : (s.iterator r).busy = false)
    (hend : ∀ m, n ≤ m → nextItem m v (s.withBusy r true) = .ok none (s.withBusy r true)) :
    nextItem (n + 3) (.iterator r) s = .ok none s := by
  rw [nextItem_idle hidle]
  cases hsource : (s.iterator r).source with
  | enumerate inner count =>
    rw [hsource] at hinners
    cases hinners
    rw [draw_enumerate (Store.source_withBusy.trans hsource), hend (n + 1) (Nat.le_succ n)]
    dsimp only
    rw [Store.withBusy_withBusy hidle]
  | zip vs =>
    rw [hsource] at hinners
    cases hinners
    rw [draw_zip (Store.source_withBusy.trans hsource), nextRow_cons, hend n (Nat.le_refl n)]
    dsimp only
    rw [Store.withBusy_withBusy hidle]
  | list | items | range =>
    rw [hsource] at hinners
    cases hinners

theorem Spent.reports (h : Spent s k v)
    (hidle : ∀ r, RestsOn s v (.iterator r) → (s.iterator r).busy = false) (hn : 3 * k + 2 ≤ n) :
    nextItem n v s = .ok none s := by
  induction k generalizing s v n with
  | zero =>
    obtain ⟨n, rfl⟩ := Nat.exists_eq_add_of_le' hn
    cases h with
    | generator hs => exact nextItem_finished hs (n + 1)
    | last hinners hover => exact nextItem_over hinners hover (hidle _ .refl) n
  | succ k ih =>
    obtain ⟨n, rfl⟩ := Nat.exists_eq_add_of_le' hn
    cases h with
    | @inner r v _ hinners hspent =>
      have hv : v ∈ (s.iterator r).source.inners := by
        rw [hinners]
        exact List.mem_singleton_self v
      refine nextItem_single (n := n + 3 * k + 2) hinners (hidle r .refl) fun m hm => ?_
      refine ih hspent.withBusy (fun q hq => ?_) (by omega)
      simp only [RestsOn, inners_withBusy] at hq
      -- It is not among those that it asks, for they are fewer.
      have hne : q ≠ r := by
        rintro rfl
        obtain ⟨j, hj, hbelow⟩ := hspent.exists_of_restsOn hq
        have hdepth := hbelow.unique (.inner hinners hspent)
        omega
      rw [Store.withBusy, Store.iterator_withIterator_of_ne hne]
      exact hidle q (.head hv hq)

end Reporting

section Whole

variable {s t u : Store} {v : Value} {n : Nat}

/-- An iterator of a list answers with what stands at its place, also after the end. -/
theorem nextItem_past {r : IteratorRef} {l : ListRef} {i : Nat} (hr : r.index < t.iterators.size)
    (hended : Ended t (.iterator r)) (hsource : (t.iterator r).source = .list l i) (hlater : Later t u)
    (hidle : (u.iterator r).busy = false) :
    ∃ j, i ≤ j ∧ ∀ m, ∃ w, nextItem (m + 2) (.iterator r) u = .ok (u.list l)[j]? w := by
  obtain ⟨j, hle, hplace⟩ : ∃ j, i ≤ j ∧ (u.iterator r).source = .list l j := by
    obtain ⟨vs, hgiven⟩ := hlater.advanced.given r hr
    rw [hsource] at hgiven
    have hover : (Source.list l i).draw? t = none := by
      cases hended with
      | last _ hover => rwa [hsource] at hover
      | inner hv =>
        rw [hsource] at hv
        cases hv
    rcases hgiven.eq_or_list rfl hover with hsame | ⟨l', i', j, heq, hnew, hle⟩
    · exact ⟨i, Nat.le_refl i, hsame⟩
    · cases heq
      exact ⟨j, hle, hnew⟩
  refine ⟨j, hle, fun m => ?_⟩
  have hnext := nextItem_held (by rw [hplace]; rfl) hidle m
  rw [hplace, Source.draw?] at hnext
  cases hitem : (u.list l)[j]? with
  | none =>
    rw [hitem] at hnext
    exact ⟨_, hnext⟩
  | some item =>
    rw [hitem] at hnext
    exact ⟨_, hnext⟩

/-- Once an iterator has reported the end, it gives no item any more, whatever runs, if it follows no
list. If it asks one iterator after another, it reports the end each time and nothing changes, as long as
a list that is followed has not grown past the place where the iterator stood. An iterator of a list
answers with what stands at its place by then, which is not before the place of the end. -/
theorem end_lasts (hknown : t.Knows v) (hend : nextItem n v s = .ok none t) (hlater : Later t u) :
    ((∀ r l i, RestsOn t v (.iterator r) → (t.iterator r).source ≠ .list l i) →
      ∀ m item w, nextItem m v u = .ok item w → item = none) ∧
    ((∀ r, RestsOn t v (.iterator r) → (t.iterator r).source.inners.length ≤ 1) → Kept t u v →
      (∀ r, RestsOn t v (.iterator r) → (u.iterator r).busy = false) →
      ∃ least, ∀ m, least ≤ m → nextItem m v u = .ok none u) ∧
    ∀ r l i, v = .iterator r → (t.iterator r).source = .list l i → (u.iterator r).busy = false →
      ∃ j, i ≤ j ∧ ∀ m, ∃ w, nextItem (m + 2) v u = .ok (u.list l)[j]? w := by
  have hended := ended_of_none hend
  refine ⟨fun hlists m item w hnext => hended.eq_none hknown hlists hlater hnext, ?_, ?_⟩
  · intro hsingle hkept hidle
    have hrests : ∀ {w}, RestsOn u v w → RestsOn t v w := restsOn_later hknown hlater
    obtain ⟨k, hspent⟩ := (hended.later hknown hkept hlater).spent fun r hr => by
      have hsame : Value.inners u (.iterator r) = Value.inners t (.iterator r) :=
        inners_later (hknown _ (hrests hr)) hlater
      exact (congrArg List.length hsame).trans_le (hsingle r (hrests hr))
    exact ⟨3 * k + 2, fun m hm => hspent.reports (fun r hr => hidle r (hrests hr)) hm⟩
  · rintro r l i rfl hsource hidle
    exact nextItem_past (hknown _ .refl) hended hsource hlater hidle

/-- An enumeration of an iterator, both at their ends, and a list that is not followed. -/
def endedPair : Store where
  lists := #[#[]]
  iterators := #[{ source := .items #[.int 7] 1 }, { source := .enumerate (.iterator ⟨0⟩) 1 }]

def appending (v : Value) : Task := .call (.builtin none .listAppend) [.list ⟨0⟩, v] []

theorem end_lasts_endedPair : ∃ u, Stage.after ⟨1, appending (.int 2), endedPair⟩ = u ∧
    u.list ⟨0⟩ = #[.int 2] ∧ nextItem 5 (.iterator ⟨1⟩) endedPair = .ok none endedPair ∧
    (∀ m item w, nextItem m (.iterator ⟨1⟩) u = .ok item w → item = none) ∧
    ∃ least, ∀ m, least ≤ m → nextItem m (.iterator ⟨1⟩) u = .ok none u := by
  obtain ⟨u, hu⟩ : ∃ u, Stage.after ⟨1, appending (.int 2), endedPair⟩ = u := ⟨_, rfl⟩
  have hafter : u = { endedPair with lists := #[#[.int 2]] } := hu.symm
  have hspent : Spent endedPair 1 (.iterator ⟨1⟩) := .inner rfl (.last (r := ⟨0⟩) rfl rfl)
  have hrests : ∀ w, RestsOn endedPair (.iterator ⟨1⟩) w → w = .iterator ⟨1⟩ ∨ w = .iterator ⟨0⟩ := by
    intro w hw
    rcases hw.cases_head with rfl | ⟨x, hx, hrest⟩
    · exact .inl rfl
    · cases List.mem_singleton.1 hx
      rcases hrest.cases_head with rfl | ⟨y, hy, -⟩
      · exact .inr rfl
      · cases hy
  have hfirst : ∀ {p : IteratorRef → Prop}, p ⟨1⟩ → p ⟨0⟩ →
      ∀ r, RestsOn endedPair (.iterator ⟨1⟩) (.iterator r) → p r := by
    intro p hone hzero r hr
    rcases hrests _ hr with heq | heq <;> cases heq
    · exact hone
    · exact hzero
  have hend : nextItem 5 (.iterator ⟨1⟩) endedPair = .ok none endedPair :=
    hspent.reports (hfirst rfl rfl) (Nat.le_refl 5)
  have hknown : endedPair.Knows (.iterator ⟨1⟩) := by
    intro w hw
    rcases hrests w hw with rfl | rfl
    · exact Nat.lt_succ_self 1
    · exact Nat.zero_lt_succ 1
  have hlater : Later endedPair u := hu ▸ .single (.whole trivial)
  obtain ⟨hnone, hagain, -⟩ := end_lasts hknown hend hlater
  have hlists : ∀ r l i, RestsOn endedPair (.iterator ⟨1⟩) (.iterator r) →
      (endedPair.iterator r).source ≠ .list l i := fun r l i hr =>
    hfirst (p := fun r => (endedPair.iterator r).source ≠ .list l i) Source.noConfusion Source.noConfusion r hr
  refine ⟨u, hu, by rw [hafter]; rfl, hend, hnone hlists, hagain ?_ ?_ ?_⟩
  · exact hfirst (Nat.le_refl 1) (Nat.zero_le 1)
  · exact fun r l i hr hl => absurd hl (hlists r l i hr)
  · exact hfirst (by rw [hafter]; rfl) (by rw [hafter]; rfl)

/-- What a name stands for when the module has been loaded, in text. -/
def textAfter (source name : String) : Option String :=
  match load 60 source "m" {} with
  | (.ok m, s) => (s.lookup m.globals name).map (·.render s)
  | _ => none

/-- An item is added to a list after its end has been reported. -/
def grown : String :=
  "l = [1]\nit = iter(l)\nnext(it)\na = next(it, 'end')\nl.append(2)\nb = next(it, 'end')"

def emptyList : Store where
  lists := #[#[]]
  iterators := #[{ source := .list ⟨0⟩ 0 }]

/-- The end does not always last. A list that has been followed to its end is followed on when it
grows. -/
theorem end_withdrawn : (textAfter grown "a" = some "'end'" ∧ textAfter grown "b" = some "2") ∧
    ¬ ∀ (n m : Nat) (v : Value) (s t u w : Store) (item : Option Value), t.Knows v →
      nextItem n v s = .ok none t → Later t u → nextItem m v u = .ok item w → item = none := by
  refine ⟨by decide +kernel, fun hclaim => ?_⟩
  have hend : nextItem 2 (.iterator ⟨0⟩) emptyList = .ok none emptyList := nextItem_over rfl rfl rfl 0
  have hknown : emptyList.Knows (.iterator ⟨0⟩) := by
    intro w hw
    rcases hw.cases_head with rfl | ⟨x, hx, -⟩
    · exact Nat.zero_lt_succ 0
    · cases hx
  have hlater : Later emptyList (Stage.after ⟨1, appending (.int 2), emptyList⟩) := .single (.whole trivial)
  have hafter : Stage.after ⟨1, appending (.int 2), emptyList⟩ = { emptyList with lists := #[#[.int 2]] } := rfl
  have hgiven : nextItem 2 (.iterator ⟨0⟩) { emptyList with lists := #[#[.int 2]] } =
      .ok (some (.int 2)) _ := nextItem_held rfl rfl 0
  rw [hafter] at hlater
  cases hclaim 2 2 _ _ _ _ _ _ hknown hend hlater hgiven

end Whole

end Lexiscope.Machine
