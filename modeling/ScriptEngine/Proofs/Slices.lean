import ScriptEngine.Eval.Expr
import ScriptEngine.Eval.Operators
import ScriptEngine.Proofs.Indexing

/-!
This module contains what slices of texts, arrays and byte strings are: the items from one bound up to another, where
the bounds are cut so that a slice never fails. The part before a bound and the part from it on make up the whole.
-/

namespace ScriptEngine

namespace Slice

variable {length : Nat}

/-- A bound as a distance from the start: a negative one counts from the end, and all of them are cut to the length. -/
def place (length : Nat) (bound : Int64) : Int :=
  max 0 (min (length : Int) (if bound.toInt < 0 then bound.toInt + length else bound.toInt))

theorem clampBound_eq (length : Nat) (bound : Int64) : (clampBound length bound : Int) = place length bound := by
  have hneg : bound < 0 ↔ bound.toInt < 0 := Int64.lt_iff_toInt_lt
  unfold clampBound place
  simp only [Word.fromStart_eq, hneg]
  omega

/-- The place of a bound can be found with words only. -/
theorem place_eq_fromStart? {bound w : Int64} (hlength : (length : Int) ≤ Word.greatest)
    (hw : Word.fromStart? bound length = some w)
    : place length bound = max 0 (min (length : Int) w.toInt) := by
  rcases Word.fromStart?_eq_some bound length with ⟨w', hw', hvalue⟩
  have hneg : bound < 0 ↔ bound.toInt < 0 := Int64.lt_iff_toInt_lt
  rw [hw, Option.some.injEq] at hw'
  rw [← hw', Int.min_eq_left hlength] at hvalue
  unfold place
  rw [hvalue]
  simp only [hneg]

theorem getD_clampBound (length : Nat) (bound : Option Int64) (missing : Nat)
    : (((bound.map (clampBound length)).getD missing : Nat) : Int) = bound.elim (missing : Int) (place length) := by
  cases bound with
  | none => rfl
  | some bound => exact clampBound_eq length bound

/-- The bounds of a slice as integers. One that is missing is the start or the end. -/
theorem range_eq (length : Nat) (first last : Option Int64)
    : ((range length first last).1 : Int) = first.elim 0 (place length) ∧
        ((range length first last).2 : Int) =
          max (first.elim 0 (place length)) (last.elim (length : Int) (place length)) := by
  have hfirst : (((first.map (clampBound length)).getD 0 : Nat) : Int) = first.elim 0 (place length) :=
    getD_clampBound length first 0
  rw [← hfirst, ← getD_clampBound length last length]
  unfold range
  dsimp only
  omega

theorem elim_place_le (length : Nat) (bound : Option Int64) {missing : Int} (hmissing : missing ≤ length)
    : bound.elim missing (place length) ≤ length := by
  cases bound with
  | none => exact hmissing
  | some bound =>
    show max 0 (min (length : Int) _) ≤ length
    omega

theorem range_le (length : Nat) (first last : Option Int64)
    : (range length first last).1 ≤ (range length first last).2 ∧ (range length first last).2 ≤ length := by
  have hrange := range_eq length first last
  have hfirst := elim_place_le length first (Int.natCast_nonneg length)
  have hlast := elim_place_le length last (Int.le_refl length)
  omega

end Slice

namespace Heap

variable {h : Heap} {c : Value} {l : List Value}

/-- A heap with a new value of a type and with the given items. All other containers are as they were. -/
structure Makes (h h' : Heap) (type : TypeRef) (value : Value) (l : List Value) : Prop where
  typeOf : h'.typeOf value = type
  elements? : h'.elements? value = some l
  keeps {other : Value} {l' : List Value} (hl : h.elements? other = some l') : h'.elements? other = some l'

/-- The type of a container is the same in all heaps. -/
theorem typeOf_of_elements? (hl : h.elements? c = some l) (h' : Heap) : h'.typeOf c = h.typeOf c := by
  cases c with
  | object handle => cases hl
  | _ => rfl

theorem newArray_makes (h : Heap) (items : Array Value)
    : h.Makes (h.newArray items).2 BuiltinType.array.ref (h.newArray items).1 items.toList where
  typeOf := rfl
  elements? := by
    show ((h.arrays.push items)[h.arrays.size]?).map Array.toList = _
    rw [Array.getElem?_push_size, Option.map_some]
  keeps := by
    intro other l' hl
    cases other with
    | array ref =>
      rcases Option.map_eq_some_iff.mp hl with ⟨found, hfound, _⟩
      have hlt : ref.index < h.arrays.size := (Array.getElem?_eq_some_iff.mp hfound).1
      rw [← hl]
      show ((h.arrays.push items)[ref.index]?).map Array.toList = _
      rw [Array.getElem?_push_lt hlt, ← Array.getElem?_eq_getElem hlt]
      rfl
    | _ => exact hl

theorem newBytes_makes (h : Heap) (data : Array UInt8)
    : h.Makes (h.newBytes data).2 BuiltinType.bytes.ref (h.newBytes data).1 (data.toList.map Value.ofByte) where
  typeOf := rfl
  elements? := by
    show ((h.bytes.push data)[h.bytes.size]?).map _ = _
    rw [Array.getElem?_push_size, Option.map_some]
  keeps := by
    intro other l' hl
    cases other with
    | bytes ref =>
      rcases Option.map_eq_some_iff.mp hl with ⟨found, hfound, _⟩
      have hlt : ref.index < h.bytes.size := (Array.getElem?_eq_some_iff.mp hfound).1
      rw [← hl]
      show ((h.bytes.push data)[ref.index]?).map _ = _
      rw [Array.getElem?_push_lt hlt, ← Array.getElem?_eq_getElem hlt]
      rfl
    | _ => exact hl

theorem str_makes (h : Heap) (chars : List Char)
    : h.Makes h BuiltinType.str.ref (.str (String.ofList chars))
        (chars.map fun c => .str (String.singleton c)) where
  typeOf := rfl
  elements? := by
    show some ((String.ofList chars).toList.map _) = _
    rw [String.toList_ofList]
  keeps hl := hl

end Heap

section Slices

variable {m : Machine} {s : State} {c : Value} {l : List Value}

/-- A slice gives a value of the same type with the items between its bounds. -/
theorem sliceValue_makes (hl : s.heap.elements? c = some l) (first last : Option Int64)
    : let bounds := Slice.range l.length first last
      ∃ v h', Machine.sliceValue c first last s = .ok v { s with heap := h' } ∧
        s.heap.Makes h' (s.heap.typeOf c) v ((l.drop bounds.1).take (bounds.2 - bounds.1)) := by
  intro bounds
  cases c with
  | str text =>
    injection hl with hl
    refine ⟨_, _, rfl, ?_⟩
    have hmake := s.heap.str_makes ((text.toList.drop bounds.1).take (bounds.2 - bounds.1))
    rw [List.map_take, List.map_drop, hl] at hmake
    have hlength : text.toList.length = l.length := by rw [← hl, List.length_map]
    rw [hlength]
    exact hmake
  | array ref =>
    rcases Heap.elements?_array hl with ⟨_, hlist⟩
    refine ⟨_, _, rfl, ?_⟩
    have hmake := s.heap.newArray_makes ((s.heap.items ref).extract bounds.1 bounds.2)
    rw [Array.toList_extract, List.extract_eq_take_drop, hlist] at hmake
    have hlength : (s.heap.items ref).size = l.length := by rw [← hlist, Array.length_toList]
    rw [hlength]
    exact hmake
  | bytes ref =>
    rcases Heap.elements?_bytes hl with ⟨_, hlist⟩
    refine ⟨_, _, rfl, ?_⟩
    have hmake := s.heap.newBytes_makes ((s.heap.data ref).extract bounds.1 bounds.2)
    rw [Array.toList_extract, List.extract_eq_take_drop, List.map_take, List.map_drop, hlist] at hmake
    have hlength : (s.heap.data ref).size = l.length := by rw [← hlist, List.length_map, Array.length_toList]
    rw [hlength]
    exact hmake
  | _ => cases hl

theorem stringify_str (hfuel : m.fuel ≠ 0) (text : String) (s : State)
    : m.stringify (.str text) s = .ok text s := by
  unfold Machine.stringify
  cases hf : m.fuel with
  | zero => exact absurd hf hfuel
  | succ n => rfl

/-- Two texts are put together, whatever hooks there are. -/
theorem binaryValues_add_str (hfuel : m.fuel ≠ 0) (x y : String) (s : State)
    : m.binaryValues .add (.str x) (.str y) s = .ok (.str (x ++ y)) s := by
  have hsum : m.builtinBinary? .add (.str x) (.str y) s = .ok (some (.str (x ++ y))) s :=
    Run.bind_ok (stringify_str hfuel y s)
  exact Run.bind_ok hsum

/-- The sum of two containers of one type has the items of both. -/
theorem binaryValues_append {a b : Value} {la lb : List Value} (ha : s.heap.elements? a = some la)
    (hb : s.heap.elements? b = some lb) (htype : s.heap.typeOf b = s.heap.typeOf a) (hfuel : m.fuel ≠ 0)
    : ∃ v h', m.binaryValues .add a b s = .ok v { s with heap := h' } ∧
        s.heap.Makes h' (s.heap.typeOf a) v (la ++ lb) := by
  cases a with
  | str x =>
    cases b with
    | str y =>
      injection ha with ha
      injection hb with hb
      have hmake := s.heap.str_makes (x.toList ++ y.toList)
      rw [List.map_append, ha, hb, String.ofList_append, String.ofList_toList, String.ofList_toList] at hmake
      exact ⟨.str (x ++ y), s.heap, binaryValues_add_str hfuel x y s, hmake⟩
    | array ref => cases htype
    | bytes ref => cases htype
    | _ => cases hb
  | array x =>
    cases b with
    | str y => cases htype
    | array y =>
      rcases Heap.elements?_array ha with ⟨_, hx⟩
      rcases Heap.elements?_array hb with ⟨_, hy⟩
      have hmake := s.heap.newArray_makes (s.heap.items x ++ s.heap.items y)
      rw [Array.toList_append, hx, hy] at hmake
      exact ⟨_, _, rfl, hmake⟩
    | bytes y => cases htype
    | _ => cases hb
  | bytes x =>
    cases b with
    | str y => cases htype
    | array y => cases htype
    | bytes y =>
      rcases Heap.elements?_bytes ha with ⟨_, hx⟩
      rcases Heap.elements?_bytes hb with ⟨_, hy⟩
      have hmake := s.heap.newBytes_makes (s.heap.data x ++ s.heap.data y)
      rw [Array.toList_append, List.map_append, hx, hy] at hmake
      exact ⟨_, _, rfl, hmake⟩
    | _ => cases hb
  | _ => cases ha

/-- An item of a slice is the one that an index gives which is as much greater as the slice starts later. -/
theorem getElem?_slice (hl : s.heap.elements? c = some l) {b e j : Nat} (hlast : e ≤ l.length) (hj : j < e - b)
    : ∃ item, ((l.drop b).take (e - b))[j]? = some item ∧
        ∀ index : Int64, index.toInt = b + j → m.getIndex c (.int index) s = .ok item s := by
  have hlt : b + j < l.length := by omega
  refine ⟨l[b + j], ?_, ?_⟩
  . rw [List.getElem?_take_of_lt hj, List.getElem?_drop, List.getElem?_eq_getElem hlt]
  . intro index hindex
    have hleads : Leads l.length index (b + j) := by
      refine ⟨hlt, .inl ?_⟩
      rw [hindex, Int.natCast_add]
    exact getIndex_leads hl hleads (List.getElem?_eq_getElem hlt)

/-- The slice up to a bound and the slice from it on have all items together. -/
theorem slices_append (l : List Value) (bound : Int64)
    : let front := Slice.range l.length none (some bound)
      let back := Slice.range l.length (some bound) none
      (l.drop front.1).take (front.2 - front.1) ++ (l.drop back.1).take (back.2 - back.1) = l := by
  intro front back
  have hfront : front = (0, Slice.clampBound l.length bound) := by
    show (0, max 0 _) = _
    rw [Nat.zero_max]
    rfl
  have hback : back = (Slice.clampBound l.length bound, l.length) := by
    have hle : Slice.clampBound l.length bound ≤ l.length := Nat.min_le_right _ _
    show (_, max (Slice.clampBound l.length bound) l.length) = _
    rw [Nat.max_eq_right hle]
    rfl
  rw [hfront, hback]
  dsimp only
  rw [List.drop_zero, Nat.sub_zero, ← List.length_drop, List.take_length, List.take_append_drop]

/--
A slice of a text, an array or a byte string never fails. Its bounds are cut to the `n` items that there are, a
negative one counts from the end, and a missing one is the start or the end; they can be found without an overflow.
It gives a value of the same type with the items from the first bound up to the second, which are those that the
indices in between give. The part up to a bound and the part from it on add up to a value with all the items.
-/
theorem slices_are_runs_of_items (m : Machine) (hl : s.heap.elements? c = some l)
    : (∀ bound : Int64, ∃ w, Word.fromStart? bound l.length = some w ∧
        ((l.length : Int) ≤ Word.greatest → Slice.place l.length bound = max 0 (min (l.length : Int) w.toInt))) ∧
      (∀ first last : Option Int64, ∃ b e v h' part,
        Slice.range l.length first last = (b, e) ∧ b ≤ e ∧ e ≤ l.length ∧
        (b : Int) = first.elim 0 (Slice.place l.length) ∧
        (e : Int) = max (b : Int) (last.elim (l.length : Int) (Slice.place l.length)) ∧
        Machine.sliceValue c first last s = .ok v { s with heap := h' } ∧
        s.heap.Makes h' (s.heap.typeOf c) v part ∧ part.length = e - b ∧
        ∀ j, j < e - b → ∃ item, part[j]? = some item ∧
          ∀ index : Int64, index.toInt = b + j → m.getIndex c (.int index) s = .ok item s) ∧
      ∀ bound : Int64, m.fuel ≠ 0 → ∃ v h',
        (do
          let front ← Machine.sliceValue c none (some bound)
          let back ← Machine.sliceValue c (some bound) none
          m.binaryValues .add front back) s = .ok v { s with heap := h' } ∧
        s.heap.Makes h' (s.heap.typeOf c) v l := by
  refine ⟨?_, ?_, ?_⟩
  . intro bound
    rcases Word.fromStart?_eq_some bound l.length with ⟨w, hw, _⟩
    exact ⟨w, hw, fun hlength => Slice.place_eq_fromStart? hlength hw⟩
  . intro first last
    rcases sliceValue_makes hl first last with ⟨v, h', hslice, hmakes⟩
    have hvalue := Slice.range_eq l.length first last
    have hle := Slice.range_le l.length first last
    generalize Slice.range l.length first last = bounds at hmakes hvalue hle ⊢
    rcases bounds with ⟨b, e⟩
    refine ⟨b, e, v, h', _, rfl, hle.1, hle.2, hvalue.1, ?_, hslice, hmakes, ?_, ?_⟩
    . rw [hvalue.1]
      exact hvalue.2
    . rw [List.length_take, List.length_drop]
      omega
    . intro j hj
      exact getElem?_slice hl hle.2 hj
  . intro bound hfuel
    rcases sliceValue_makes hl none (some bound) with ⟨front, h1, hfront, hmakes1⟩
    rcases sliceValue_makes (s := { s with heap := h1 }) (hmakes1.keeps hl) (some bound) none with
      ⟨back, h2, hback, hmakes2⟩
    have hfront2 := hmakes2.keeps hmakes1.elements?
    have htype : h2.typeOf front = s.heap.typeOf c := by
      rw [Heap.typeOf_of_elements? hmakes1.elements? h2, hmakes1.typeOf]
    have htype' : h2.typeOf back = h2.typeOf front := by
      rw [hmakes2.typeOf, htype]
      exact Heap.typeOf_of_elements? hl h1
    rcases binaryValues_append (m := m) (s := { s with heap := h2 }) hfront2 hmakes2.elements? htype' hfuel with
      ⟨v, h3, hsum, hmakes3⟩
    refine ⟨v, h3, ?_, ?_, ?_, ?_⟩
    . rw [Run.bind_ok hfront, Run.bind_ok hback]
      exact hsum
    . rw [hmakes3.typeOf]
      exact htype
    . rw [hmakes3.elements?, slices_append]
    . intro other l' hother
      exact hmakes3.keeps (hmakes2.keeps (hmakes1.keeps hother))

/--
From the third item from the end up to the tenth, four items have a slice of three, which starts with the second item.
They are put together again from the parts before and after the least word.
-/
theorem last_three_of_four_items
    : let m := Host.none.machine 12
      let s := Engine.stateAfter
        (m.exec (.var "xs" (.array ([10, 20, 30, 40].map fun i => .mk (.int i) none false))))
        (Engine.bareState {} .silent 0)
      let c := Value.array ⟨0⟩
      let l := [Value.int 10, .int 20, .int 30, .int 40]
      s.heap.elements? c = some l ∧
        (∃ v h' part, Machine.sliceValue c (some (-3)) (some 9) s = .ok v { s with heap := h' } ∧
          h'.elements? v = some part ∧ part.length = 3 ∧ part[0]? = some (.int 20)) ∧
        ∃ v h',
          (do
            let front ← Machine.sliceValue c none (some Int64.minValue)
            let back ← Machine.sliceValue c (some Int64.minValue) none
            m.binaryValues .add front back) s = .ok v { s with heap := h' } ∧
          h'.elements? v = some l ∧ h'.elements? c = some l := by
  intro m s c l
  have hitems : s.heap.elements? c = some l := rfl
  have hfuel : m.fuel ≠ 0 := by decide
  clear_value s
  rcases slices_are_runs_of_items m hitems with ⟨_, hslices, hsum⟩
  rcases hslices (some (-3)) (some 9) with ⟨b, e, v, h', part, hrange, _, _, _, _, hslice, hmakes, hlength, hpart⟩
  have hbounds : (b, e) = (1, 4) := by
    rw [← hrange]
    decide
  injection hbounds with hb he
  rw [hb, he] at hlength hpart
  rcases hpart 0 (by decide) with ⟨item, hitem, hindex⟩
  have hsecond := hindex 1 rfl
  have hleads : Leads 4 1 1 := by decide
  rw [getIndex_leads hitems hleads rfl] at hsecond
  injection hsecond with hsecond _
  rcases hsum Int64.minValue hfuel with ⟨w, h'', happend, hmakes'⟩
  refine ⟨hitems, ⟨v, h', part, hslice, hmakes.elements?, hlength, ?_⟩, w, h'', happend, hmakes'.elements?,
    hmakes'.keeps hitems⟩
  rw [hitem, ← hsecond]

end Slices

end ScriptEngine
