import ScriptEngine.Library.Methods
import ScriptEngine.Proofs.Lookups
import ScriptEngine.Proofs.Slices

/-!
This module contains the calls that iterations make. An iteration has as many turns as its container had items when it
began, and calls its visitor once at every turn, in order, until the visitor says to stop or fails. What the visitor
does to the container in between can change the items of later turns, but not their number.
-/

namespace ScriptEngine

/-- What a visitor hands on, whether it says to go on or to stop. -/
def Visit.acc {σ : Type} : Visit σ → σ
  | next acc => acc
  | stop acc => acc

/-- A call of a visitor: what it is given, and the state in which it is called. -/
structure VisitorCall (σ κ : Type) where
  acc : σ
  index : κ
  item : Value
  state : State

section Calls

variable {α σ κ : Type}

/-- What calls of a visitor come to: what the last one handed on, or its failure. -/
def concluded : EStateM.Result Halt State (Visit σ) → EStateM.Result Halt State σ
  | .ok visited t => .ok visited.acc t
  | .error halt t => .error halt t

/-- The same end of a computation, apart from what is held on to. -/
inductive Released : EStateM.Result Halt State α → EStateM.Result Halt State α → Prop
  | ok (a : α) (t : State) (held : List Held) : Released (.ok a t) (.ok a { t with held := held })
  | error (halt : Halt) (t : State) (held : List Held) : Released (.error halt t) (.error halt { t with held := held })

theorem Released.refl (r : EStateM.Result Halt State α) : Released r r := by
  cases r with
  | ok a t => exact .ok a t t.held
  | error halt t => exact .error halt t t.held

/-- A computation that is let go of ends as it does by itself. -/
theorem Released.lettingGo {x : Run α} {s : State} {r : EStateM.Result Halt State α} (h : x s = r)
    : Released r (Run.lettingGo x s) := by
  unfold Run.lettingGo
  rw [h]
  cases r with
  | ok a t => exact .ok a t s.held
  | error halt t => exact .error halt t s.held

/--
Calls of a visitor one after the other, and how the last one ended. Each call is given what the one before handed on,
in the state that it left, where only what is held on to may have changed.
-/
inductive Calls (visit : σ → κ → Value → Run (Visit σ))
    : σ → State → List (VisitorCall σ κ) → EStateM.Result Halt State (Visit σ) → Prop
  | none (acc : σ) (s : State) : Calls visit acc s [] (.ok (.next acc) s)
  | next {acc acc' : σ} {index : κ} {item : Value} {s t : State} {calls : List (VisitorCall σ κ)}
    {outcome : EStateM.Result Halt State (Visit σ)} (held held' : List Held)
    (h : visit acc index item { s with held := held } = .ok (.next acc') t)
    (rest : Calls visit acc' { t with held := held' } calls outcome)
    : Calls visit acc s (⟨acc, index, item, { s with held := held }⟩ :: calls) outcome
  | stop {acc acc' : σ} {index : κ} {item : Value} {s t : State} (held : List Held)
    (h : visit acc index item { s with held := held } = .ok (.stop acc') t)
    : Calls visit acc s [⟨acc, index, item, { s with held := held }⟩] (.ok (.stop acc') t)
  | fail {acc : σ} {index : κ} {item : Value} {s t : State} {halt : Halt} (held : List Held)
    (h : visit acc index item { s with held := held } = .error halt t)
    : Calls visit acc s [⟨acc, index, item, { s with held := held }⟩] (.error halt t)

/--
The course of an iteration with at most `n` calls. A turn says what the visitor is given at a call, depending on the
number of calls before it and on the heap by then. If all calls go on, there are `n` of them.
-/
structure Course (visit : σ → κ → Value → Run (Visit σ)) (n : Nat) (turn : Nat → Heap → κ → Value → Prop) (acc : σ)
    (s : State) (result : EStateM.Result Halt State σ) (calls : List (VisitorCall σ κ))
    (outcome : EStateM.Result Halt State (Visit σ)) : Prop where
  made : Calls visit acc s calls outcome
  ended : Released (concluded outcome) result
  bounded : calls.length ≤ n
  complete {acc : σ} {t : State} (hall : outcome = .ok (.next acc) t) : calls.length = n
  given {k : Nat} {call : VisitorCall σ κ} (hcall : calls[k]? = some call)
    : turn k call.state.heap call.index call.item

/-- A computation is an iteration, whatever state it is run from. -/
def Iterates (visit : σ → κ → Value → Run (Visit σ)) (n : Nat) (turn : Nat → Heap → κ → Value → Prop) (acc : σ)
    (x : Run σ) : Prop :=
  ∀ s, ∃ calls outcome, Course visit n turn acc s (x s) calls outcome

variable {visit : σ → κ → Value → Run (Visit σ)} {n : Nat} {turn turn' : Nat → Heap → κ → Value → Prop} {acc : σ}

theorem Course.mono {s : State} {result : EStateM.Result Halt State σ} {calls : List (VisitorCall σ κ)}
    {outcome : EStateM.Result Halt State (Visit σ)} (h : Course visit n turn acc s result calls outcome)
    (hturn : ∀ k now index item, k < n → turn k now index item → turn' k now index item)
    : Course visit n turn' acc s result calls outcome where
  made := h.made
  ended := h.ended
  bounded := h.bounded
  complete := h.complete
  given := by
    intro k call hcall
    have hlt : k < calls.length := (List.getElem?_eq_some_iff.mp hcall).1
    exact hturn k _ _ _ (Nat.lt_of_lt_of_le hlt h.bounded) (h.given hcall)

theorem Iterates.zero (acc : σ) : Iterates visit 0 turn acc (pure acc) := by
  intro s
  refine ⟨[], .ok (.next acc) s, .none acc s, .refl _, Nat.le_refl 0, fun _ => rfl, ?_⟩
  intro k call hcall
  cases hcall

/-- The visitor is called for the first turn, and then the iteration goes on with the others. -/
theorem Iterates.succ {round : Run (Visit σ)} {rest : Visit σ → Run σ}
    (hround : ∀ s, ∃ index item held, turn 0 s.heap index item ∧
      Released (visit acc index item { s with held := held }) (round s))
    (hstop : ∀ acc, rest (.stop acc) = pure acc)
    (hnext : ∀ acc, Iterates visit n (fun k => turn (k + 1)) acc (rest (.next acc)))
    : Iterates visit (n + 1) turn acc (round >>= rest) := by
  intro s
  rcases hround s with ⟨index, item, held, hturn, hround⟩
  let call : VisitorCall σ κ := ⟨acc, index, item, { s with held := held }⟩
  have hgiven {calls : List (VisitorCall σ κ)}
      (hcalls : ∀ (k : Nat) (other : VisitorCall σ κ), calls[k]? = some other →
        turn (k + 1) other.state.heap other.index other.item)
      {k : Nat} {other : VisitorCall σ κ} (hother : (call :: calls)[k]? = some other)
      : turn k other.state.heap other.index other.item := by
    cases k with
    | zero =>
      injection hother with hother
      rw [← hother]
      exact hturn
    | succ k => exact hcalls k other hother
  have hlast : ∀ (k : Nat) (other : VisitorCall σ κ), ([] : List (VisitorCall σ κ))[k]? = some other →
      turn (k + 1) other.state.heap other.index other.item := by
    intro k other hother
    cases hother
  have hone : [call].length ≤ n + 1 := Nat.le_add_left 1 n
  rw [Run.bind_apply]
  generalize hvisit : visit acc index item { s with held := held } = visited at hround
  generalize round s = r at hround
  cases hround with
  | error halt t held' =>
    exact ⟨[call], .error halt t, .fail held hvisit, .error halt t held', hone, nofun, hgiven hlast⟩
  | ok visited t held' =>
    cases visited with
    | stop acc' =>
      refine ⟨[call], .ok (.stop acc') t, .stop held hvisit, ?_, hone, nofun, hgiven hlast⟩
      dsimp only
      rw [hstop]
      exact .ok acc' t held'
    | next acc' =>
      rcases hnext acc' { t with held := held' } with ⟨calls, outcome, hrest⟩
      refine ⟨call :: calls, outcome, .next held held' hvisit hrest.made, hrest.ended, ?_, ?_, ?_⟩
      . exact Nat.succ_le_succ hrest.bounded
      . intro _ _ hall
        exact congrArg (· + 1) (hrest.complete hall)
      . exact hgiven fun _ _ hcall => hrest.given hcall

/-- An iteration whose visitor never says to stop. -/
theorem Iterates.succ_next {round : Run σ} {rest : σ → Run σ}
    (hround : ∀ s, ∃ index item held, turn 0 s.heap index item ∧
      Released (visit acc index item { s with held := held }) ((Visit.next <$> round) s))
    (hnext : ∀ acc, Iterates visit n (fun k => turn (k + 1)) acc (rest acc))
    : Iterates visit (n + 1) turn acc (round >>= rest) := by
  let goOn : Visit σ → Run σ
    | .next acc => rest acc
    | .stop acc => pure acc
  have heq : round >>= rest = (Visit.next <$> round) >>= goOn := by
    rw [map_eq_pure_bind, bind_assoc]
    simp only [pure_bind]
    rfl
  rw [heq]
  exact .succ hround (fun _ => rfl) hnext

end Calls

section Iterations

variable {σ : Type} {m : Machine}

/-- The item that an index leads to, if the container has one there. -/
def Heap.itemAt (h : Heap) (c : Value) (index : Int64) : Value :=
  let items := (h.elements? c).getD []
  ((normalizeIndex index items.length).bind fun slot => items[slot]?).getD .undefined

theorem Heap.itemAt_eq {h : Heap} {c : Value} {l : List Value} (hl : h.elements? c = some l) (index : Int64)
    : h.itemAt c index = ((normalizeIndex index l.length).bind fun slot => l[slot]?).getD .undefined := by
  unfold Heap.itemAt
  rw [hl]
  rfl

/-- An index that is not negative leads to the item there. -/
theorem Heap.itemAt_of_toInt {h : Heap} {c : Value} {index : Int64} {k : Nat} (hindex : index.toInt = k)
    : h.itemAt c index = ((h.elements? c).getD [])[k]?.getD .undefined := by
  unfold Heap.itemAt
  generalize (h.elements? c).getD [] = l
  dsimp only
  by_cases hlt : k < l.length
  . have hleads : Leads l.length index k := ⟨hlt, .inl hindex⟩
    rw [normalizeIndex_eq_some_iff.mpr hleads]
    rfl
  . have hnone : normalizeIndex index l.length = none := by
      rw [normalizeIndex_eq_none_iff]
      intro slot hleads
      unfold Leads at hleads
      omega
    rw [hnone, List.getElem?_eq_none (Nat.le_of_not_lt hlt)]
    rfl

theorem Heap.itemAt_missing {h : Heap} {c : Value} (hl : h.elements? c = none) (index : Int64)
    : h.itemAt c index = .undefined := by
  unfold Heap.itemAt
  rw [hl]
  show ((normalizeIndex index 0).bind fun slot => ([] : List Value)[slot]?).getD .undefined = _
  cases normalizeIndex index 0 <;> rfl

theorem getIndex_array (ref : ArrayRef) (index : Int64) (s : State)
    : m.getIndex (.array ref) (.int index) s = .ok (s.heap.itemAt (.array ref) index) s := by
  cases hl : s.heap.elements? (.array ref) with
  | some l => rw [getIndex_apply hl, Heap.itemAt_eq hl]
  | none =>
    have hitems : s.heap.items ref = #[] := by
      unfold Heap.items
      rw [Array.getD_eq_getD_getElem?, Option.map_eq_none_iff.mp hl]
      rfl
    rw [Heap.itemAt_missing hl]
    show EStateM.Result.ok (((normalizeIndex index (s.heap.items ref).size).bind fun slot =>
      (s.heap.items ref)[slot]?).getD .undefined) s = _
    rw [hitems]
    cases normalizeIndex index 0 <;> rfl

theorem getIndex_bytes (ref : BytesRef) (index : Int64) (s : State)
    : m.getIndex (.bytes ref) (.int index) s = .ok (s.heap.itemAt (.bytes ref) index) s := by
  cases hl : s.heap.elements? (.bytes ref) with
  | some l => rw [getIndex_apply hl, Heap.itemAt_eq hl]
  | none =>
    have hdata : s.heap.data ref = #[] := by
      unfold Heap.data
      rw [Array.getD_eq_getD_getElem?, Option.map_eq_none_iff.mp hl]
      rfl
    rw [Heap.itemAt_missing hl]
    unfold Machine.getIndex
    dsimp only
    rw [Run.bind_ok (rfl : Run.requireIndex (.int index) s = .ok index s),
      Run.bind_ok (rfl : Run.getHeap s = .ok s.heap s), hdata]
    cases normalizeIndex index (#[] : Array UInt8).size <;> rfl

variable (visit : σ → Value → Value → Run (Visit σ))

theorem visitWords_iterates (acc : σ) (n : Nat) (first word : Int64)
    : Iterates visit n
        (fun k _ index item => index = .int (first + Int64.ofNat k) ∧ item = .int (word + Int64.ofNat k)) acc
        (Machine.visitWords visit acc n first word) := by
  induction n generalizing acc first word with
  | zero => exact .zero acc
  | succ n ih =>
    unfold Machine.visitWords
    apply Iterates.succ
    . intro s
      exact ⟨.int first, .int word, s.held, ⟨congrArg Value.int (Int64.add_zero first).symm,
        congrArg Value.int (Int64.add_zero word).symm⟩, .refl _⟩
    . intro acc
      rfl
    . intro acc
      simp only [← Word.add_one_add_ofNat]
      exact ih acc (first + 1) (word + 1)

theorem visitChars_iterates (acc : σ) (chars : List Char) (first : Int64)
    : Iterates visit chars.length
        (fun k _ index item => index = .int (first + Int64.ofNat k) ∧
          ∃ c, chars[k]? = some c ∧ item = .str (String.singleton c)) acc
        (Machine.visitChars visit acc chars first) := by
  induction chars generalizing acc first with
  | nil => exact .zero acc
  | cons c chars ih =>
    unfold Machine.visitChars
    apply Iterates.succ
    . intro s
      exact ⟨.int first, .str (String.singleton c), s.held,
        ⟨congrArg Value.int (Int64.add_zero first).symm, c, rfl, rfl⟩, .refl _⟩
    . intro acc
      rfl
    . intro acc
      simp only [← Word.add_one_add_ofNat]
      exact ih acc (first + 1)

theorem visitItems_iterates {c : Value}
    (hget : ∀ index s, m.getIndex c (.int index) s = .ok (s.heap.itemAt c index) s) (acc : σ) (n : Nat) (first : Int64)
    : Iterates visit n
        (fun k now index item => index = .int (first + Int64.ofNat k) ∧ item = now.itemAt c (first + Int64.ofNat k)) acc
        (m.visitItems c visit acc n first) := by
  induction n generalizing acc first with
  | zero => exact .zero acc
  | succ n ih =>
    unfold Machine.visitItems
    rw [← bind_assoc]
    apply Iterates.succ
    . intro s
      rw [Run.bind_ok (hget first s)]
      exact ⟨.int first, s.heap.itemAt c first, s.held, ⟨congrArg Value.int (Int64.add_zero first).symm,
        congrArg (s.heap.itemAt c) (Int64.add_zero first).symm⟩, .refl _⟩
    . intro acc
      rfl
    . intro acc
      simp only [← Word.add_one_add_ofNat]
      exact ih acc (first + 1)

theorem visitEntries_iterates (acc : σ) (entries : List (String × Value))
    : Iterates visit entries.length
        (fun k _ index item => ∃ key, entries[k]? = some (key, item) ∧ index = .str key) acc
        (Machine.visitEntries visit acc entries) := by
  induction entries generalizing acc with
  | nil => exact .zero acc
  | cons entry entries ih =>
    unfold Machine.visitEntries
    apply Iterates.succ
    . intro s
      exact ⟨.str entry.1, entry.2, .entries entries :: s.held, ⟨entry.1, rfl, rfl⟩, .lettingGo rfl⟩
    . intro acc
      rfl
    . exact ih

end Iterations

namespace Heap

theorem length?_of_elements? {h : Heap} {c : Value} {l : List Value} (hl : h.elements? c = some l)
    : h.length? c = some l.length := by
  cases c with
  | str text =>
    injection hl with hl
    rw [← hl, List.length_map]
    rfl
  | array ref =>
    rw [← (elements?_array hl).2, Array.length_toList]
    rfl
  | bytes ref =>
    rw [← (elements?_bytes hl).2, List.length_map, Array.length_toList]
    rfl
  | _ => cases hl

/-- How often a container gives an item: once for every item that it has, and an integer once for every one below. -/
def turns? (h : Heap) : Value → Option Nat
  | .int n => some n.toInt.toNat
  | .object handle => some (h.members handle).entries.length
  | c => (h.elements? c).map List.length

/--
What a container gives at a turn of an iteration that began with the heap `start`. An integer gives the turn's number,
and an object the entry that it had at the start; all others give the item that they have by now.
-/
def Gives (start : Heap) (c : Value) (k : Nat) (now : Heap) (index item : Value) : Prop :=
  match c with
  | .int _ => ∃ w : Int64, w.toInt = k ∧ index = .int w ∧ item = .int w
  | .object handle => ∃ key, (start.members handle).entries[k]? = some (key, item) ∧ index = .str key
  | c => (k : Int) ≤ Word.greatest →
      ∃ w : Int64, w.toInt = k ∧ index = .int w ∧ item = ((now.elements? c).getD [])[k]?.getD .undefined

end Heap

section Containers

variable {σ : Type} {m : Machine} {s : State} {visit : σ → Value → Value → Run (Visit σ)} {n : Nat} {c : Value}

/-- The items are those that the container has when their turns come. -/
theorem visitItems_course (hget : ∀ index s, m.getIndex c (.int index) s = .ok (s.heap.itemAt c index) s) (acc : σ)
    (n : Nat) (s : State)
    : ∃ calls outcome, Course visit n
        (fun k now index item => (k : Int) ≤ Word.greatest →
          ∃ w : Int64, w.toInt = k ∧ index = .int w ∧ item = ((now.elements? c).getD [])[k]?.getD .undefined)
        acc s (m.visitItems c visit acc n 0 s) calls outcome := by
  rcases visitItems_iterates visit hget acc n 0 s with ⟨calls, outcome, hcourse⟩
  refine ⟨calls, outcome, hcourse.mono ?_⟩
  intro k now index item _ ⟨hindex, hitem⟩ hword
  rw [Int64.zero_add] at hindex hitem
  have hk := Word.toInt_ofNat_of_le hword
  exact ⟨Int64.ofNat k, hk, hindex, hitem.trans (Heap.itemAt_of_toInt hk)⟩

/-- Without a hook, the items of a value are visited in the way of its kind. -/
theorem iterateValue_apply (hhook : ∀ hook, s.heap.definition? s.world.extensions c "__iter__" = some hook →
      s.heap.isCallable hook = false) (hn : s.heap.turns? c = some n) (acc : σ)
    : ∃ calls outcome, Course visit n (s.heap.Gives c) acc s (m.iterateValue c visit acc s) calls outcome := by
  have hfind : Run.findHook c "__iter__" s = .ok none s := by
    rw [findHook_apply]
    cases hdef : s.heap.definition? s.world.extensions c "__iter__" with
    | none => rfl
    | some hook =>
      dsimp only
      rw [hhook hook hdef]
      rfl
  unfold Machine.iterateValue
  rw [Run.bind_ok hfind]
  cases c with
  | int word =>
    injection hn with hn
    rw [← hn]
    rcases visitWords_iterates visit acc word.toInt.toNat 0 0 s with ⟨calls, outcome, hcourse⟩
    refine ⟨calls, outcome, hcourse.mono ?_⟩
    intro k now index item hk ⟨hindex, hitem⟩
    have hgreatest := Word.le_greatest word
    refine ⟨Int64.ofNat k, Word.toInt_ofNat_of_le (by omega), ?_, ?_⟩
    . rw [hindex, Int64.zero_add]
    . rw [hitem, Int64.zero_add]
  | object handle =>
    injection hn with hn
    rw [← hn]
    exact visitEntries_iterates visit acc (s.heap.members handle).entries s
  | str text =>
    have hlength : text.toList.length = n := by
      rw [← List.length_map]
      exact Option.some.inj hn
    rw [← hlength]
    rcases visitChars_iterates visit acc text.toList 0 s with ⟨calls, outcome, hcourse⟩
    refine ⟨calls, outcome, hcourse.mono ?_⟩
    intro k now index item hk ⟨hindex, ch, hch, hitem⟩ hword
    refine ⟨Int64.ofNat k, Word.toInt_ofNat_of_le hword, ?_, ?_⟩
    . rw [hindex, Int64.zero_add]
    . rw [hitem]
      show _ = ((text.toList.map fun c => Value.str (String.singleton c))[k]?).getD .undefined
      rw [List.getElem?_map, hch]
      rfl
  | array ref =>
    rcases Option.map_eq_some_iff.mp hn with ⟨l, hl, hlength⟩
    dsimp only
    rw [Run.bind_ok (rfl : Run.getHeap s = .ok s.heap s), Heap.length?_of_elements? hl, hlength]
    exact visitItems_course (getIndex_array ref) acc n s
  | bytes ref =>
    rcases Option.map_eq_some_iff.mp hn with ⟨l, hl, hlength⟩
    dsimp only
    rw [Run.bind_ok (rfl : Run.getHeap s = .ok s.heap s), Heap.length?_of_elements? hl, hlength]
    exact visitItems_course (getIndex_bytes ref) acc n s
  | _ => cases hn

end Containers

namespace Library

variable {m : Machine} {s : State} {ref : ArrayRef} {l : List Value} {args : List Value}

/-- What `map` does with an item. -/
def mapVisit (m : Machine) (mapper : Value) (out : Array Value) (i : Nat) (item : Value) :
    Run (Visit (Array Value)) := do
  return .next (out.push (← mapItem m mapper item i))

/-- What `filter` does with an item. -/
def filterVisit (m : Machine) (f : Value) (out : Array Value) (i : Nat) (item : Value) :
    Run (Visit (Array Value)) := do
  let keep ← m.isTruthy (← m.invoke f .undefined [item, count i])
  return .next (if keep then out.push item else out)

/-- What `each` does with an entry. -/
def eachVisit (m : Machine) (f this : Value) (_ : Unit) (key : String) (item : Value) : Run (Visit Unit) := do
  let _ ← m.invoke f this [.str key, item]
  return .next ()

theorem callableArg_ok (what : String) (hf : s.heap.isCallable (arg args 0) = true)
    : callableArg args 0 what s = .ok (arg args 0) s := by
  unfold callableArg
  rw [Run.bind_ok (isCallable_apply (arg args 0) s), hf]
  rfl

/-- What a round holds on to besides the call of its visitor makes no difference. -/
theorem released_round {β σ : Type} {y : Run β} {before : Run Unit} {after : β → Run Unit} {f : β → σ}
    {held : List Held}
    (hbefore : before s = .ok () { s with held := held })
    (hafter : ∀ b t, ∃ held', after b t = .ok () { t with held := held' })
    : Released ((do return Visit.next (f (← y))) { s with held := held })
        (Visit.next <$> (do
          let b ← Run.lettingGo (do
            before
            y)
          after b
          return f b : Run σ) <| s) := by
  have hy : (do
      before
      y) s = y { s with held := held } := Run.bind_ok hbefore
  rw [map_eq_pure_bind, bind_assoc, Run.bind_apply, Run.bind_apply, Run.lettingGo, hy]
  cases y { s with held := held } with
  | error halt t => exact .error halt t s.held
  | ok b t =>
    rcases hafter b { t with held := s.held } with ⟨held', hafter⟩
    dsimp only
    rw [bind_assoc, Run.bind_ok hafter]
    exact Released.ok (Visit.next (f b)) t held'

theorem mapItems_iterates (mapper : Value) (first : Nat) (out : Array Value) (items : List Value)
    : Iterates (mapVisit m mapper) items.length (fun k _ i item => i = first + k ∧ items[k]? = some item) out
        (mapItems m mapper first out items) := by
  induction items generalizing first out with
  | nil => exact .zero out
  | cons item items ih =>
    have hround : mapItems m mapper first out (item :: items) =
        (do
          let value ← Run.lettingGo (do
            Run.holdAll items
            mapItem m mapper item first)
          Run.hold value
          return out.push value) >>= fun out => mapItems m mapper (first + 1) out items := by
      simp only [mapItems, bind_assoc, pure_bind]
    rw [hround]
    apply Iterates.succ_next
    . intro s
      rcases Run.holdAll_apply items s with ⟨held, hheld⟩
      exact ⟨first, item, held, ⟨rfl, rfl⟩, released_round hheld Run.hold_apply⟩
    . intro out
      simp only [← Nat.add_assoc, Nat.add_right_comm first _ 1]
      exact ih (first + 1) out

theorem filterItems_iterates (f : Value) (first : Nat) (out : Array Value) (items : List Value)
    : Iterates (filterVisit m f) items.length (fun k _ i item => i = first + k ∧ items[k]? = some item) out
        (filterItems m f first out items) := by
  induction items generalizing first out with
  | nil => exact .zero out
  | cons item items ih =>
    let keeps : Run Bool := do m.isTruthy (← m.invoke f .undefined [item, count first])
    let holdKept (keep : Bool) : Run Unit := if keep then Run.hold item else pure ()
    have hround : filterItems m f first out (item :: items) =
        (do
          let keep ← Run.lettingGo (do
            Run.holdAll (item :: items)
            keeps)
          holdKept keep
          return if keep then out.push item else out) >>= fun out => filterItems m f (first + 1) out items := by
      simp only [filterItems, bind_assoc, pure_bind]
      apply bind_congr
      intro keep
      cases keep with
      | true => rfl
      | false => exact (pure_bind _ _).symm
    have hvisit : filterVisit m f out first item = do
        return .next (if ← keeps then out.push item else out) := (bind_assoc _ _ _).symm
    rw [hround]
    apply Iterates.succ_next
    . intro s
      rcases Run.holdAll_apply (item :: items) s with ⟨held, hheld⟩
      refine ⟨first, item, held, ⟨rfl, rfl⟩, ?_⟩
      rw [hvisit]
      apply released_round hheld
      intro keep t
      cases keep with
      | true => exact Run.hold_apply item t
      | false => exact ⟨t.held, rfl⟩
    . intro out
      simp only [← Nat.add_assoc, Nat.add_right_comm first _ 1]
      exact ih (first + 1) out

theorem eachEntry_iterates (f this : Value) (entries : List (String × Value))
    : Iterates (eachVisit m f this) entries.length (fun k _ key item => entries[k]? = some (key, item)) ()
        (eachEntry m f this entries) := by
  induction entries with
  | nil => exact .zero ()
  | cons entry entries ih =>
    have hround : eachEntry m f this (entry :: entries) =
        (do
          let _ ← Run.lettingGo (do
            Run.keep (.entries entries)
            m.invoke f this [.str entry.1, entry.2])
          (pure () : Run Unit)
          return ()) >>= fun _ => eachEntry m f this entries := by
      simp only [eachEntry, bind_assoc, pure_bind]
    rw [hround]
    apply Iterates.succ_next
    . intro s
      refine ⟨entry.1, entry.2, .entries entries :: s.held, rfl, ?_⟩
      exact released_round rfl fun _ t => ⟨t.held, rfl⟩
    . intro _
      exact ih

/-- A map has one result for every call. -/
theorem size_of_calls {mapper : Value} {out : Array Value} {calls : List (VisitorCall (Array Value) Nat)}
    {outcome : EStateM.Result Halt State (Visit (Array Value))} {visited : Visit (Array Value)} {t : State}
    (h : Calls (mapVisit m mapper) out s calls outcome) (hok : outcome = .ok visited t)
    : ∃ out', visited = .next out' ∧ out'.size = out.size + calls.length := by
  -- A call that does not fail pushes one result and goes on.
  have hpush {acc : Array Value} {i : Nat} {item : Value} {u t : State} {visited : Visit (Array Value)}
      (h : mapVisit m mapper acc i item u = .ok visited t) : ∃ value, visited = .next (acc.push value) := by
    rcases Run.ok_of_bind h with ⟨value, t', _, h⟩
    injection h with h _
    exact ⟨value, h.symm⟩
  induction h with
  | none acc s =>
    injection hok with hok _
    exact ⟨acc, hok.symm, rfl⟩
  | next held held' h rest ih =>
    rcases ih hok with ⟨out', hvisited, hsize⟩
    rcases hpush h with ⟨value, hnext⟩
    injection hnext with hnext
    refine ⟨out', hvisited, ?_⟩
    rw [hsize, hnext, Array.size_push, List.length_cons]
    omega
  | stop held h =>
    rcases hpush h with ⟨value, hnext⟩
    cases hnext
  | fail held h => cases hok

/-- A map that does not fail has made as many calls as there are turns, with a result for each. -/
theorem size_eq_of_course {mapper : Value} {n : Nat} {turn : Nat → Heap → Nat → Value → Prop} {out : Array Value}
    {t : State} {calls : List (VisitorCall (Array Value) Nat)}
    {outcome : EStateM.Result Halt State (Visit (Array Value))}
    (h : Course (mapVisit m mapper) n turn #[] s (.ok out t) calls outcome)
    : out.size = n := by
  have hended := h.ended
  cases hout : outcome with
  | error halt t' =>
    rw [hout] at hended
    cases hended
  | ok visited t' =>
    rcases size_of_calls h.made hout with ⟨out', hvisited, hsize⟩
    rw [hvisited] at hout
    rw [hout] at hended
    have hcalls := h.complete hout
    cases hended
    rw [hcalls] at hsize
    exact hsize.trans (Nat.zero_add n)

end Library

end ScriptEngine
