import ScriptEngine.Proofs.Increments
import ScriptEngine.Proofs.Words

/-!
This module contains the items of texts, arrays and byte strings, and what indices do to them. Every item has two
indices: one counts from the start, the other, which is negative, from the end. Reading and writing an item agree on
which indices lead to it.
-/

namespace ScriptEngine

/-- The indices of a place: its distance from the start, and its distance from the end as a negative number. -/
def Leads (length : Nat) (index : Int64) (slot : Nat) : Prop :=
  slot < length ∧ (index.toInt = slot ∨ index.toInt = (slot : Int) - length)

instance (length : Nat) (index : Int64) (slot : Nat) : Decidable (Leads length index slot) :=
  inferInstanceAs (Decidable (_ ∧ _))

section Places

variable {index : Int64} {length slot : Nat}

theorem normalizeIndex_eq_some_iff : normalizeIndex index length = some slot ↔ Leads length index slot := by
  unfold normalizeIndex Leads
  rw [Word.fromStart_eq]
  by_cases hneg : index < 0
  . have hneg' : index.toInt < 0 := Int64.lt_iff_toInt_lt.mp hneg
    rw [if_pos hneg, Option.ite_none_right_eq_some, Option.some.injEq]
    omega
  . have hneg' : ¬index.toInt < 0 := fun h => hneg (Int64.lt_iff_toInt_lt.mpr h)
    rw [if_neg hneg, Option.ite_none_right_eq_some, Option.some.injEq]
    omega

theorem Leads.unique {slot' : Nat} (h : Leads length index slot) (h' : Leads length index slot') : slot = slot' := by
  unfold Leads at h h'
  omega

theorem leads_iff_within
    : (∃ slot, Leads length index slot) ↔ -(length : Int) ≤ index.toInt ∧ index.toInt < length := by
  constructor
  . intro ⟨slot, h⟩
    unfold Leads at h
    omega
  . intro h
    by_cases hneg : index.toInt < 0
    . exact ⟨(index.toInt + length).toNat, by omega, by omega⟩
    . exact ⟨index.toInt.toNat, by omega, by omega⟩

theorem normalizeIndex_eq_none_iff : normalizeIndex index length = none ↔ ∀ slot, ¬Leads length index slot := by
  rw [Option.eq_none_iff_forall_ne_some]
  exact forall_congr' fun slot => not_congr normalizeIndex_eq_some_iff

/-- The place that an index leads to can be found with words only. -/
theorem normalizeIndex_eq_fromStart? {w : Int64} (hlength : (length : Int) ≤ Word.greatest)
    (hw : Word.fromStart? index length = some w)
    : normalizeIndex index length = if 0 ≤ w.toInt ∧ w.toInt < length then some w.toInt.toNat else none := by
  unfold normalizeIndex Word.fromStart
  rw [if_pos hlength, hw]
  rfl

end Places

/-- The value of a byte. -/
def Value.ofByte (byte : UInt8) : Value := .int (Word.ofNat byte.toNat)

/-- Whether a container takes a value as an item. Only words can be bytes. -/
def Value.Takes : Value → Value → Prop
  | .array _, _ => True
  | .bytes _, .int word => 0 ≤ word.toInt ∧ word.toInt ≤ 255
  | _, _ => False

namespace Heap

variable {h : Heap} {c : Value} {l : List Value}

/-- The items of a text, an array or a byte string. -/
def elements? (h : Heap) : Value → Option (List Value)
  | .str text => some (text.toList.map fun c => .str (String.singleton c))
  | .array ref => h.arrays[ref.index]?.map Array.toList
  | .bytes ref => h.bytes[ref.index]?.map fun data => data.toList.map Value.ofByte
  | _ => none

theorem elements?_array {ref : ArrayRef} (hl : h.elements? (.array ref) = some l)
    : h.arrays[ref.index]? = some (h.items ref) ∧ (h.items ref).toList = l := by
  rcases Option.map_eq_some_iff.mp hl with ⟨items, hitems, hlist⟩
  have heq : h.items ref = items := by
    unfold Heap.items
    rw [Array.getD_eq_getD_getElem?, hitems, Option.getD_some]
  rw [heq]
  exact ⟨hitems, hlist⟩

theorem elements?_bytes {ref : BytesRef} (hl : h.elements? (.bytes ref) = some l)
    : h.bytes[ref.index]? = some (h.data ref) ∧ (h.data ref).toList.map Value.ofByte = l := by
  rcases Option.map_eq_some_iff.mp hl with ⟨data, hdata, hlist⟩
  have heq : h.data ref = data := by
    unfold Heap.data
    rw [Array.getD_eq_getD_getElem?, hdata, Option.getD_some]
  rw [heq]
  exact ⟨hdata, hlist⟩

/-- The heap after an item of a container was written. -/
def setElement (h : Heap) (container : Value) (slot : Nat) (value : Value) : Heap :=
  match container, value with
  | .array ref, value => h.modifyItems ref (·.setIfInBounds slot value)
  | .bytes ref, .int word => h.modifyData ref (·.setIfInBounds slot (UInt8.ofNat word.toInt.toNat))
  | _, _ => h

theorem ofByte_ofNat {word : Int64} (hleast : 0 ≤ word.toInt) (hgreatest : word.toInt ≤ 255)
    : Value.ofByte (UInt8.ofNat word.toInt.toNat) = .int word := by
  have hbyte : (UInt8.ofNat word.toInt.toNat).toNat = word.toInt.toNat := by
    rw [UInt8.toNat_ofNat']
    omega
  unfold Value.ofByte
  rw [hbyte]
  congr 1
  rw [← Int64.toInt_inj, Word.toInt_ofNat]
  unfold Word.greatest
  omega

theorem elements?_setElement {value : Value} (hl : h.elements? c = some l) (htakes : c.Takes value) (slot : Nat)
    : (h.setElement c slot value).elements? c = some (l.set slot value) := by
  cases c with
  | array ref =>
    rcases elements?_array hl with ⟨hitems, hlist⟩
    show ((h.arrays.modify ref.index _)[ref.index]?).map Array.toList = _
    rw [Array.getElem?_modify, if_pos rfl, hitems, Option.map_some, Option.map_some, Array.toList_setIfInBounds, hlist]
  | bytes ref =>
    cases value with
    | int word =>
      rcases elements?_bytes hl with ⟨hdata, hlist⟩
      show ((h.bytes.modify ref.index _)[ref.index]?).map _ = _
      rw [Array.getElem?_modify, if_pos rfl, hdata, Option.map_some, Option.map_some, Array.toList_setIfInBounds,
        List.map_set, hlist, ofByte_ofNat htakes.1 htakes.2]
    | _ => cases htakes
  | _ => cases htakes

theorem elements?_setElement_of_ne {other : Value} (hne : other ≠ c) (slot : Nat) (value : Value)
    : (h.setElement c slot value).elements? other = h.elements? other := by
  cases c with
  | array ref =>
    cases other with
    | array ref' =>
      show ((h.arrays.modify ref.index _)[ref'.index]?).map Array.toList = _
      rw [Array.getElem?_modify, if_neg]
      . rfl
      . intro hindex
        exact hne (congrArg Value.array (congrArg ArrayRef.mk hindex.symm))
    | _ => rfl
  | bytes ref =>
    cases value with
    | int word =>
      cases other with
      | bytes ref' =>
        show ((h.bytes.modify ref.index _)[ref'.index]?).map _ = _
        rw [Array.getElem?_modify, if_neg]
        . rfl
        . intro hindex
          exact hne (congrArg Value.bytes (congrArg BytesRef.mk hindex.symm))
      | _ => rfl
    | _ => rfl
  | _ => rfl

theorem modify_setIfInBounds_comm {α : Type} (a : Array (Array α)) (i : Nat) {j k : Nat} (x y : α) (hne : j ≠ k)
    : (a.modify i (·.setIfInBounds j x)).modify i (·.setIfInBounds k y) =
        (a.modify i (·.setIfInBounds k y)).modify i (·.setIfInBounds j x) := by
  apply Array.ext_getElem?
  intro n
  simp only [Array.getElem?_modify]
  split
  . simp only [Option.map_map]
    congr 1
    funext items
    exact Array.setIfInBounds_comm x y hne
  . rfl

/-- Items that are written at two places do not depend on which of them comes first. -/
theorem setElement_comm {slot slot' : Nat} (hne : slot ≠ slot') {value value' : Value} (htakes : c.Takes value)
    (htakes' : c.Takes value')
    : (h.setElement c slot value).setElement c slot' value' =
        (h.setElement c slot' value').setElement c slot value := by
  cases c with
  | array ref =>
    exact congrArg (fun arrays => { h with arrays := arrays }) (modify_setIfInBounds_comm _ _ _ _ hne)
  | bytes ref =>
    cases value with
    | int word =>
      cases value' with
      | int word' =>
        exact congrArg (fun bytes => { h with bytes := bytes }) (modify_setIfInBounds_comm _ _ _ _ hne)
      | _ => cases htakes'
    | _ => cases htakes
  | _ => cases htakes

end Heap

section Items

variable {m : Machine} {s : State} {c : Value} {l : List Value}

/-- An index gives the item that it leads to. -/
theorem getIndex_apply (hl : s.heap.elements? c = some l) (index : Int64)
    : m.getIndex c (.int index) s =
        .ok (((normalizeIndex index l.length).bind fun slot => l[slot]?).getD .undefined) s := by
  cases c with
  | str text =>
    injection hl with hl
    rw [← hl, List.length_map]
    unfold Machine.getIndex
    dsimp only
    rw [Run.bind_ok (rfl : Run.requireIndex (.int index) s = .ok index s)]
    cases normalizeIndex index text.toList.length with
    | none => rfl
    | some slot =>
      rw [Option.bind_some, Option.bind_some, List.getElem?_map]
      cases text.toList[slot]? <;> rfl
  | array ref =>
    rcases Heap.elements?_array hl with ⟨_, hlist⟩
    show EStateM.Result.ok (((normalizeIndex index (s.heap.items ref).size).bind fun slot =>
      (s.heap.items ref)[slot]?).getD .undefined) s = _
    simp only [← Array.getElem?_toList, ← Array.length_toList, hlist]
  | bytes ref =>
    rcases Heap.elements?_bytes hl with ⟨_, hlist⟩
    rw [← hlist, List.length_map, Array.length_toList]
    unfold Machine.getIndex
    dsimp only
    rw [Run.bind_ok (rfl : Run.requireIndex (.int index) s = .ok index s),
      Run.bind_ok (rfl : Run.getHeap s = .ok s.heap s)]
    cases normalizeIndex index (s.heap.data ref).size with
    | none => rfl
    | some slot =>
      rw [Option.bind_some, Option.bind_some, List.getElem?_map, Array.getElem?_toList]
      cases (s.heap.data ref)[slot]? <;> rfl
  | _ => cases hl

theorem getIndex_leads (hl : s.heap.elements? c = some l) {index : Int64} {slot : Nat} {item : Value}
    (hleads : Leads l.length index slot) (hitem : l[slot]? = some item)
    : m.getIndex c (.int index) s = .ok item s := by
  rw [getIndex_apply hl, normalizeIndex_eq_some_iff.mpr hleads, Option.bind_some, hitem]
  rfl

theorem getIndex_undefined (hl : s.heap.elements? c = some l) {index : Int64}
    (hnone : ∀ slot, ¬Leads l.length index slot)
    : m.getIndex c (.int index) s = .ok .undefined s := by
  rw [getIndex_apply hl, normalizeIndex_eq_none_iff.mpr hnone]
  rfl

/-- A value that a container takes is written where the index leads to. -/
theorem setIndex_taken (hl : s.heap.elements? c = some l) {value : Value} (htakes : c.Takes value) (index : Int64)
    : m.setIndex c (.int index) value s =
        match normalizeIndex index l.length with
        | some slot => .ok () { s with heap := s.heap.setElement c slot value }
        | none => .error (.raised (.ofCause (.indexOutOfBounds index l.length))) s := by
  cases c with
  | array ref =>
    rcases Heap.elements?_array hl with ⟨_, hlist⟩
    rw [← hlist, Array.length_toList]
    show (Run.requireSlot index (s.heap.items ref).size >>= fun slot =>
      Run.modifyHeap (·.modifyItems ref (·.setIfInBounds slot value))) s = _
    unfold Run.requireSlot
    cases normalizeIndex index (s.heap.items ref).size <;> rfl
  | bytes ref =>
    cases value with
    | int word =>
      rcases Heap.elements?_bytes hl with ⟨_, hlist⟩
      rw [← hlist, List.length_map, Array.length_toList]
      have hbyte : (Value.int word).int?.bind Word.toByte? = some (UInt8.ofNat word.toInt.toNat) :=
        if_pos ⟨htakes.1, Int.lt_add_one_of_le htakes.2⟩
      unfold Machine.setIndex
      dsimp only
      rw [Run.bind_ok (rfl : Run.requireIndex (.int index) s = .ok index s), hbyte]
      show (Run.requireSlot index (s.heap.data ref).size >>= fun slot =>
        Run.modifyHeap (·.modifyData ref (·.setIfInBounds slot (UInt8.ofNat word.toInt.toNat)))) s = _
      unfold Run.requireSlot
      cases normalizeIndex index (s.heap.data ref).size <;> rfl
    | _ => cases htakes
  | _ => cases htakes

/-- A value that a container does not take is refused, whatever the index is. -/
theorem setIndex_refused (hl : s.heap.elements? c = some l) {value : Value} (htakes : ¬c.Takes value) (index : Int64)
    : ∃ expected got, m.setIndex c (.int index) value s =
        .error (.raised (.ofCause (.typeMismatch expected got))) s := by
  cases c with
  | str text => exact ⟨_, _, rfl⟩
  | array ref => exact absurd trivial htakes
  | bytes ref =>
    have hbyte : value.int?.bind Word.toByte? = none := by
      cases value with
      | int word => exact if_neg fun h => htakes ⟨h.1, Int.le_of_lt_add_one h.2⟩
      | _ => rfl
    refine ⟨"a byte value", s.heap.typeName value, ?_⟩
    unfold Machine.setIndex
    dsimp only
    rw [Run.bind_ok (rfl : Run.requireIndex (.int index) s = .ok index s), hbyte]
    rfl
  | _ => cases hl

theorem setIndex_ok_iff (hl : s.heap.elements? c = some l) {value : Value} {index : Int64} {t : State}
    : m.setIndex c (.int index) value s = .ok () t ↔
        c.Takes value ∧ ∃ slot, Leads l.length index slot ∧ t = { s with heap := s.heap.setElement c slot value } := by
  by_cases htakes : c.Takes value
  . rw [setIndex_taken hl htakes]
    cases hplace : normalizeIndex index l.length with
    | none =>
      constructor
      . intro h
        cases h
      . intro ⟨_, slot, hleads, _⟩
        exact absurd hleads (normalizeIndex_eq_none_iff.mp hplace slot)
    | some slot =>
      have hleads := normalizeIndex_eq_some_iff.mp hplace
      constructor
      . intro h
        injection h with _ h
        exact ⟨htakes, slot, hleads, h.symm⟩
      . intro ⟨_, slot', hleads', ht⟩
        rw [ht, hleads.unique hleads']
  . rcases setIndex_refused hl htakes index with ⟨_, _, hrefused⟩
    rw [hrefused]
    constructor
    . intro h
      cases h
    . intro h
      exact absurd h.1 htakes

/-- A write that fails has changed nothing. -/
theorem setIndex_error (hl : s.heap.elements? c = some l) {value : Value} {index : Int64} {halt : Halt} {t : State}
    (h : m.setIndex c (.int index) value s = .error halt t)
    : t = s := by
  by_cases htakes : c.Takes value
  . rw [setIndex_taken hl htakes] at h
    cases hplace : normalizeIndex index l.length with
    | none =>
      rw [hplace] at h
      injection h with _ h
      exact h.symm
    | some slot =>
      rw [hplace] at h
      cases h
  . rcases setIndex_refused (m := m) hl htakes index with ⟨_, _, hrefused⟩
    rw [hrefused] at h
    injection h with _ h
    exact h.symm

/-- After a write both indices of the place give the value, and all others what they gave before. -/
theorem getIndex_setElement (hl : s.heap.elements? c = some l) {value : Value} (htakes : c.Takes value) (slot : Nat)
    (index : Int64)
    : let t := { s with heap := s.heap.setElement c slot value }
      (Leads l.length index slot → m.getIndex c (.int index) t = .ok value t) ∧
        (¬Leads l.length index slot → ∃ item,
          m.getIndex c (.int index) s = .ok item s ∧ m.getIndex c (.int index) t = .ok item t) := by
  intro t
  have ht : t.heap.elements? c = some (l.set slot value) := Heap.elements?_setElement hl htakes slot
  constructor
  . intro hleads
    have hleads' : Leads (l.set slot value).length index slot := by
      rw [List.length_set]
      exact hleads
    exact getIndex_leads ht hleads' (List.getElem?_set_self hleads.1)
  . intro hother
    refine ⟨_, getIndex_apply hl index, ?_⟩
    rw [getIndex_apply ht, List.length_set]
    cases hplace : normalizeIndex index l.length with
    | none => rfl
    | some slot' =>
      have hne : slot ≠ slot' := by
        intro heq
        rw [heq] at hother
        exact hother (normalizeIndex_eq_some_iff.mp hplace)
      rw [Option.bind_some, Option.bind_some, List.getElem?_set_ne hne]

theorem setIndex_comm (hl : s.heap.elements? c = some l) {value value' : Value} {index index' : Int64}
    {slot slot' : Nat} (hleads : Leads l.length index slot) (hleads' : Leads l.length index' slot')
    (hne : slot ≠ slot') (htakes : c.Takes value) (htakes' : c.Takes value')
    : (do m.setIndex c (.int index) value; m.setIndex c (.int index') value') s =
        (do m.setIndex c (.int index') value'; m.setIndex c (.int index) value) s := by
  have hfirst := (setIndex_ok_iff (m := m) hl).mpr ⟨htakes, slot, hleads, rfl⟩
  have hfirst' := (setIndex_ok_iff (m := m) hl).mpr ⟨htakes', slot', hleads', rfl⟩
  rw [Run.bind_ok hfirst, Run.bind_ok hfirst']
  have hl1 := Heap.elements?_setElement hl htakes slot
  have hl2 := Heap.elements?_setElement hl htakes' slot'
  rw [← List.length_set (i := slot) (a := value)] at hleads'
  rw [← List.length_set (i := slot') (a := value')] at hleads
  have hthen := (setIndex_ok_iff (m := m) (s := { s with heap := s.heap.setElement c slot value }) hl1).mpr
    ⟨htakes', slot', hleads', rfl⟩
  have hthen' := (setIndex_ok_iff (m := m) (s := { s with heap := s.heap.setElement c slot' value' }) hl2).mpr
    ⟨htakes, slot, hleads, rfl⟩
  rw [hthen, hthen']
  dsimp only
  rw [Heap.setElement_comm hne htakes htakes']

/--
Reading and writing an item agree on the indices of a container. An index leads to one of `n` items if it is at least
`-n` and less than `n`, which can be found out without an overflow. Reading gives that item, and `undefined` without
one. Writing succeeds if there is one and the container takes the value, and changes nothing otherwise. After a write
the indices of the item, positive and negative, give the value, and all other indices what they gave before; other
containers are as they were. Which of two items is written first does not matter.
-/
theorem reads_agree_with_writes (m : Machine) (hl : s.heap.elements? c = some l) (index : Int64) (value : Value)
    : let within := -(l.length : Int) ≤ index.toInt ∧ index.toInt < l.length
      (∃ w, Word.fromStart? index l.length = some w ∧ ((l.length : Int) ≤ Word.greatest →
        normalizeIndex index l.length = if 0 ≤ w.toInt ∧ w.toInt < l.length then some w.toInt.toNat else none)) ∧
      (within ↔ ∃ slot, Leads l.length index slot) ∧
      (∀ slot, Leads l.length index slot → ∃ item,
        l[slot]? = some item ∧ m.getIndex c (.int index) s = .ok item s) ∧
      (¬within → m.getIndex c (.int index) s = .ok .undefined s) ∧
      ((∃ t, m.setIndex c (.int index) value s = .ok () t) ↔ within ∧ c.Takes value) ∧
      (∀ halt t, m.setIndex c (.int index) value s = .error halt t → t = s) ∧
      (∀ t, m.setIndex c (.int index) value s = .ok () t → ∃ slot, Leads l.length index slot ∧
        t.heap.elements? c = some (l.set slot value) ∧
        (∀ other, other ≠ c → t.heap.elements? other = s.heap.elements? other) ∧
        ∀ index' : Int64,
          (Leads l.length index' slot → m.getIndex c (.int index') t = .ok value t) ∧
          (¬Leads l.length index' slot → ∃ item,
            m.getIndex c (.int index') s = .ok item s ∧ m.getIndex c (.int index') t = .ok item t)) ∧
      ∀ index' value' slot slot', Leads l.length index slot → Leads l.length index' slot' → slot ≠ slot' →
        c.Takes value → c.Takes value' →
        (do m.setIndex c (.int index) value; m.setIndex c (.int index') value') s =
          (do m.setIndex c (.int index') value'; m.setIndex c (.int index) value) s := by
  intro within
  have hwithin : within ↔ ∃ slot, Leads l.length index slot := leads_iff_within.symm
  refine ⟨?_, hwithin, ?_, ?_, ?_, fun halt t => setIndex_error hl, ?_, ?_⟩
  . rcases Word.fromStart?_eq_some index l.length with ⟨w, hw, _⟩
    exact ⟨w, hw, fun hlength => normalizeIndex_eq_fromStart? hlength hw⟩
  . intro slot hleads
    have hitem := List.getElem?_eq_getElem hleads.1
    exact ⟨_, hitem, getIndex_leads hl hleads hitem⟩
  . intro hout
    exact getIndex_undefined hl fun slot hleads => hout (hwithin.mpr ⟨slot, hleads⟩)
  . constructor
    . intro ⟨t, h⟩
      rcases (setIndex_ok_iff hl).mp h with ⟨htakes, slot, hleads, _⟩
      exact ⟨hwithin.mpr ⟨slot, hleads⟩, htakes⟩
    . intro ⟨hin, htakes⟩
      rcases hwithin.mp hin with ⟨slot, hleads⟩
      exact ⟨_, (setIndex_ok_iff hl).mpr ⟨htakes, slot, hleads, rfl⟩⟩
  . intro t h
    rcases (setIndex_ok_iff hl).mp h with ⟨htakes, slot, hleads, ht⟩
    rw [ht]
    exact ⟨slot, hleads, Heap.elements?_setElement hl htakes slot,
      fun other hne => Heap.elements?_setElement_of_ne hne slot value, getIndex_setElement hl htakes slot⟩
  . intro index' value' slot slot' hleads hleads' hne htakes htakes'
    exact setIndex_comm hl hleads hleads' hne htakes htakes'

/--
The last of three items has the indices 2 and -1. What is written with one of them is read with the other, and
nothing is written with index 3. A byte string takes 255 and not 256.
-/
theorem last_item_has_two_indices
    : let m := Host.none.machine 12
      let s := Engine.stateAfter
        (do
          m.exec (.var "xs" (.array [.mk (.int 10) none false, .mk (.int 20) none false, .mk (.int 30) none false]))
          m.exec (.var "data" (.bytes [1, 2])))
        (Engine.bareState {} .silent 0)
      s.heap.elements? (.array ⟨0⟩) = some [.int 10, .int 20, .int 30] ∧
        s.heap.elements? (.bytes ⟨0⟩) = some [.int 1, .int 2] ∧
        (∃ t, m.setIndex (.array ⟨0⟩) (.int (-1)) (.int 7) s = .ok () t ∧
          t.heap.elements? (.array ⟨0⟩) = some [.int 10, .int 20, .int 7] ∧
          m.getIndex (.array ⟨0⟩) (.int 2) t = .ok (.int 7) t) ∧
        m.getIndex (.array ⟨0⟩) (.int 3) s = .ok .undefined s ∧
        (¬∃ t, m.setIndex (.array ⟨0⟩) (.int 3) (.int 7) s = .ok () t) ∧
        (∃ t, m.setIndex (.bytes ⟨0⟩) (.int 0) (.int 255) s = .ok () t) ∧
        ¬∃ t, m.setIndex (.bytes ⟨0⟩) (.int 0) (.int 256) s = .ok () t := by
  intro m s
  have hitems : s.heap.elements? (.array ⟨0⟩) = some [.int 10, .int 20, .int 30] := rfl
  have hdata : s.heap.elements? (.bytes ⟨0⟩) = some [.int 1, .int 2] := rfl
  clear_value s
  rcases reads_agree_with_writes m hitems (-1) (.int 7) with ⟨_, _, _, _, hok, _, hwritten, _⟩
  rcases reads_agree_with_writes m hitems 3 (.int 7) with ⟨_, _, _, hundefined, hout, _⟩
  rcases reads_agree_with_writes m hdata 0 (.int 255) with ⟨_, _, _, _, hgreatest, _⟩
  rcases reads_agree_with_writes m hdata 0 (.int 256) with ⟨_, _, _, _, hgreater, _⟩
  have hlast : Leads 3 (-1) 2 := by decide
  rcases hok.mpr ⟨by decide, trivial⟩ with ⟨t, ht⟩
  rcases hwritten t ht with ⟨slot, hleads, hwhole, _, hread⟩
  rw [hleads.unique hlast] at hwhole hread
  refine ⟨hitems, hdata, ⟨t, ht, hwhole, (hread 2).1 (by decide)⟩, hundefined (by decide), ?_, ?_, ?_⟩
  . intro h
    exact absurd (hout.mp h).1 (by decide)
  . exact hgreatest.mpr ⟨by decide, by decide, by decide⟩
  . intro h
    have hbyte : (256 : Int64).toInt ≤ 255 := (hgreater.mp h).2.2
    exact absurd hbyte (by decide)

end Items

end ScriptEngine
