import ScriptEngine.Proofs.Members
import ScriptEngine.Proofs.Numbers
import ScriptEngine.Proofs.ScopeNames
import ScriptEngine.Proofs.Views

/-!
This module contains what increments read and write. The target of an increment is evaluated twice, once for the
value that is read and once for the place that is written. If both times it leads to the same location, that location
is changed and nothing else is.
-/

namespace ScriptEngine

/-- What a target stands for once its operands are evaluated. -/
inductive Place where
  | ident (name : String)
  | member (owner : Value) (name : String)
  | item (owner key : Value)

/-- Where a value is kept: in a binding of a scope, in a member of an instance, or in an item of an array. -/
inductive Location where
  | binding (scope : ScopeRef) (name : String)
  | member (owner : InstanceRef) (name : String)
  | item (array : ArrayRef) (slot : Nat)
deriving DecidableEq

/-- What is kept after a value was written. A member that is set to `undefined` is gone. -/
def Location.stored (location : Location) (value : Value) : Option Value :=
  match location with
  | .member .. => if value.isUndefined then none else some value
  | _ => some value

theorem Location.stored_of_defined {location : Location} {value : Value} (h : value.isUndefined = false)
    : location.stored value = some value := by
  cases location with
  | member owner name =>
    unfold stored
    rw [h]
    rfl
  | _ => rfl

theorem getD_modify {α : Type} (a : Array α) (i : Nat) (f : α → α) (j : Nat) (default : α)
    : (a.modify i f).getD j default = if j = i ∧ i < a.size then f (a.getD j default) else a.getD j default := by
  simp only [Array.getD_eq_getD_getElem?, Array.getElem?_modify]
  by_cases hij : j = i
  . rw [hij, if_pos rfl]
    by_cases hi : i < a.size
    . rw [if_pos ⟨rfl, hi⟩, Array.getElem?_eq_getElem hi]
      rfl
    . rw [if_neg fun h => hi h.2, Array.getElem?_eq_none (Nat.le_of_not_lt hi)]
      rfl
  . rw [if_neg (Ne.symm hij), if_neg fun h => hij h.1]

namespace Heap

variable {h : Heap}

def content? (h : Heap) : Location → Option Value
  | .binding scope name => h.scopes.own? scope name
  | .member owner name => (h.members (.ofInstance owner)).get? name
  | .item array slot => (h.items array)[slot]?

/-- The location of a member of an object. -/
def memberOf? (h : Heap) (owner : Value) (name : String) : Option Location :=
  match owner with
  | .object handle => if h.Holds handle then some (.member handle.real name) else none
  | _ => none

theorem content?_put {scope : ScopeRef} (hscope : h.scopes.Has scope) (name : String) (value : Value)
    (location : Location)
    : { h with scopes := h.scopes.put scope name value }.content? location =
        if location = .binding scope name then some value else h.content? location := by
  cases location with
  | binding other n =>
    show (h.scopes.put scope name value).own? other n = _
    rw [Scopes.own?_put]
    by_cases heq : other = scope ∧ n = name
    . rw [heq.1, heq.2, if_pos ⟨rfl, rfl, hscope⟩, if_pos rfl]
    . rw [if_neg fun hsame => heq ⟨hsame.1, hsame.2.1⟩, if_neg]
      . rfl
      . intro hsame
        injection hsame with hscope hname
        exact heq ⟨hscope, hname⟩
  | member => rfl
  | item => rfl

theorem content?_setMember {handle : Handle} (hholds : h.Holds handle) (name : String) (value : Value)
    (location : Location)
    : (h.setMember handle name value).content? location =
        if location = .member handle.real name then (Location.member handle.real name).stored value
        else h.content? location := by
  cases location with
  | binding => rfl
  | member owner n =>
    have hinst : (h.setMember handle name value).members (.ofInstance owner) =
        if owner = handle.real then Members.set (h.members (.ofInstance owner)) name value
        else h.members (.ofInstance owner) := by
      unfold members inst setMember
      rw [getD_modify]
      by_cases howner : owner = handle.real
      . rw [if_pos howner, howner, if_pos ⟨rfl, hholds⟩]
      . rw [if_neg howner, if_neg]
        intro hindex
        exact howner (congrArg InstanceRef.mk hindex.1)
    unfold content?
    dsimp only
    rw [hinst]
    by_cases howner : owner = handle.real
    . rw [if_pos howner, Members.get?_set, howner]
      by_cases hname : n = name
      . rw [if_pos hname, hname, if_pos rfl]
        rfl
      . rw [if_neg hname, if_neg]
        intro hlocation
        injection hlocation with _ h
        exact hname h
    . rw [if_neg howner, if_neg]
      intro hlocation
      injection hlocation with h _
      exact howner h
  | item => rfl

theorem content?_setItem {array : ArrayRef} {slot : Nat} (hslot : slot < (h.items array).size) (value : Value)
    (location : Location)
    : (h.modifyItems array (·.setIfInBounds slot value)).content? location =
        if location = .item array slot then some value else h.content? location := by
  cases location with
  | binding => rfl
  | member => rfl
  | item other i =>
    have hitems : (h.modifyItems array (·.setIfInBounds slot value)).items other =
        if other = array then (h.items other).setIfInBounds slot value else h.items other := by
      unfold items modifyItems
      rw [getD_modify]
      by_cases hother : other = array
      . rw [hother, if_pos rfl]
        by_cases hhas : array.index < h.arrays.size
        . rw [if_pos ⟨rfl, hhas⟩]
        . rw [if_neg fun hsame => hhas hsame.2, Array.getD_eq_getD_getElem?, Array.getElem?_eq_none (by omega)]
          rfl
      . rw [if_neg hother, if_neg]
        intro hindex
        exact hother (congrArg ArrayRef.mk hindex.1)
    unfold content?
    dsimp only
    rw [hitems]
    by_cases hother : other = array
    . rw [if_pos hother, hother, Array.getElem?_setIfInBounds]
      by_cases hi : slot = i
      . rw [if_pos hi, if_pos (by omega), hi, if_pos rfl]
      . rw [if_neg hi, if_neg]
        intro hlocation
        injection hlocation with _ h
        exact hi h.symm
    . rw [if_neg hother, if_neg]
      intro hlocation
      injection hlocation with h _
      exact hother h

end Heap

/-- The location that a place is, where one is kept. -/
def State.location? (s : State) : Place → Option Location
  | .ident name => (s.heap.scopes.resolve? s.scope name).map (.binding · name)
  | .member owner name => s.heap.memberOf? owner name
  | .item (.array array) (.int i) => (normalizeIndex i (s.heap.items array).size).map (.item array)
  | .item owner (.str name) => s.heap.memberOf? owner name
  | .item .. => none

theorem lt_of_normalizeIndex {index : Int64} {length slot : Nat} (h : normalizeIndex index length = some slot)
    : slot < length := by
  unfold normalizeIndex at h
  dsimp only at h
  generalize Word.fromStart index length = i at h
  split at h
  . next hbounds =>
    injection h with h
    omega
  . cases h

namespace Machine

variable {m : Machine} {s : State} {place : Place} {location : Location}

/-- Evaluates the operands of a target. -/
def evalPlace (m : Machine) (target : Target) : Run Place := do
  match target with
  | .ident name => return .ident name
  | .member owner name => return .member (← m.evalHeld owner) name
  | .index owner key =>
    let owner ← m.evalHeld owner
    return .item owner (← m.evalHeld key)

def readPlace (m : Machine) : Place → Run Value
  | .ident name => Run.lookup name
  | .member owner name => m.getMember owner name
  | .item owner key => m.getIndex owner key

def writePlace (m : Machine) (value : Value) : Place → Run Unit
  | .ident name => Run.assignVar name value
  | .member owner name => Run.setMember owner name value
  | .item owner key => m.setIndex owner key value

/-- What a target reads goes through the same place as what it writes, but is evaluated for itself. -/
theorem evalExpr_toExpr (m : Machine) (target : Target)
    : m.evalExpr target.toExpr = (do m.readPlace (← m.evalPlace target)) := by
  cases target with
  | ident name => rfl
  | member owner name => simp only [Target.toExpr, evalExpr, evalPlace, readPlace, bind_assoc, pure_bind]
  | index owner key => simp only [Target.toExpr, evalExpr, evalPlace, readPlace, bind_assoc, pure_bind]

theorem assignTo_eq (m : Machine) (target : Target) (value : Value)
    : m.assignTo target value = (do m.writePlace value (← m.evalPlace target)) := by
  cases target with
  | ident name => rfl
  | member owner name => simp only [assignTo, evalPlace, writePlace, bind_assoc, pure_bind]
  | index owner key => simp only [assignTo, evalPlace, writePlace, bind_assoc, pure_bind]

theorem memberOf?_eq_some {owner : Value} {name : String} (h : s.heap.memberOf? owner name = some location)
    : ∃ handle, owner = .object handle ∧ s.heap.Holds handle ∧ location = .member handle.real name := by
  unfold Heap.memberOf? at h
  split at h
  . next handle =>
    split at h
    . next hholds =>
      injection h with h
      exact ⟨handle, rfl, hholds, h.symm⟩
    . cases h
  . cases h

theorem setMember_apply {owner : Value} {name : String} (h : s.heap.memberOf? owner name = some location)
    (value : Value)
    : ∃ t, Run.setMember owner name value s = .ok () t ∧ ∀ other, t.heap.content? other =
        if other = location then location.stored value else s.heap.content? other := by
  rcases memberOf?_eq_some h with ⟨handle, rfl, hholds, rfl⟩
  exact ⟨_, rfl, Heap.content?_setMember hholds name value⟩

/-- A write to a place that is a location changes what is kept there and nothing else. -/
theorem writePlace_apply (m : Machine) (hlocation : s.location? place = some location) (value : Value)
    : ∃ t, m.writePlace value place s = .ok () t ∧ ∀ other, t.heap.content? other =
        if other = location then location.stored value else s.heap.content? other := by
  cases place with
  | ident name =>
    rcases Option.map_eq_some_iff.mp hlocation with ⟨scope, hscope, rfl⟩
    have hname : name ≠ Scopes.placeholder := by
      intro hname
      rw [hname] at hscope
      cases hscope
    have hhas : s.heap.scopes.Has scope := by
      apply Decidable.byContradiction
      intro hnot
      have hbound := Scopes.bound_of_resolve? hscope
      rw [Scopes.own?_of_not_has hnot] at hbound
      cases hbound
    refine ⟨s.withScopes (s.heap.scopes.put scope name value), ?_, Heap.content?_put hhas name value⟩
    show Run.assignVar name value s = _
    rw [Run.assignVar_apply, Scopes.assign_eq hname, hscope]
  | member owner name => exact setMember_apply hlocation value
  | item owner key =>
    cases key with
    | str name =>
      have hmember : s.heap.memberOf? owner name = some location := by
        cases owner <;> exact hlocation
      exact setMember_apply hmember value
    | int i =>
      cases owner with
      | array array =>
        rcases Option.map_eq_some_iff.mp hlocation with ⟨slot, hslot, rfl⟩
        let heap := s.heap.modifyItems array (·.setIfInBounds slot value)
        have hrequire : Run.requireSlot i (s.heap.items array).size s = .ok slot s := by
          unfold Run.requireSlot
          rw [hslot]
          rfl
        refine ⟨{ s with heap := heap }, ?_, Heap.content?_setItem (lt_of_normalizeIndex hslot) value⟩
        show (Run.requireSlot i (s.heap.items array).size >>= fun slot =>
          Run.modifyHeap (·.modifyItems array (·.setIfInBounds slot value))) s = _
        rw [Run.bind_ok hrequire]
        rfl
      | _ => cases hlocation
    | _ => cases owner <;> cases hlocation

theorem getMember_memberOf? (m : Machine) {owner value : Value} {name : String}
    (h : s.heap.memberOf? owner name = some location) (hcontent : s.heap.content? location = some value)
    (hplain : value.isCallableKind = false)
    : m.getMember owner name s = .ok value s := by
  rcases memberOf?_eq_some h with ⟨handle, rfl, _, rfl⟩
  have hmember : s.heap.member? handle name = some value := by
    have hown : (s.heap.members handle).get? name = some value := hcontent
    unfold Heap.member?
    rw [hown]
  rw [getMember_found hmember]
  unfold Run.makeMember
  rw [hplain]
  rfl

/-- A read of a place that is a location gives what is kept there, unless that is bound to its owner. -/
theorem readPlace_apply (m : Machine) (hlocation : s.location? place = some location) {value : Value}
    (hcontent : s.heap.content? location = some value) (hplain : value.isCallableKind = false)
    : m.readPlace place s = .ok value s := by
  cases place with
  | ident name =>
    rcases Option.map_eq_some_iff.mp hlocation with ⟨scope, hscope, rfl⟩
    have hvalue : s.heap.scopes.lookup? s.scope name = some value := by
      unfold Scopes.lookup?
      rw [hscope]
      exact hcontent
    show EStateM.Result.ok ((s.heap.scopes.lookup? s.scope name).getD .undefined) s = _
    rw [hvalue]
    rfl
  | member owner name => exact getMember_memberOf? m hlocation hcontent hplain
  | item owner key =>
    cases key with
    | str name =>
      have hmember : s.heap.memberOf? owner name = some location := by
        cases owner <;> exact hlocation
      exact getMember_memberOf? m hmember hcontent hplain
    | int i =>
      cases owner with
      | array array =>
        rcases Option.map_eq_some_iff.mp hlocation with ⟨slot, hslot, rfl⟩
        have hitem : (s.heap.items array)[slot]? = some value := hcontent
        show EStateM.Result.ok
          (((normalizeIndex i (s.heap.items array).size).bind fun k => (s.heap.items array)[k]?).getD .undefined) s = _
        rw [hslot, Option.bind_some, hitem]
        rfl
      | _ => cases hlocation
    | _ => cases owner <;> cases hlocation

end Machine

namespace Operands

/-- The sum of two numbers. -/
def sum (precision : Nat) : Operands → Value
  | words a b => .int (a + b)
  | floats a b => .float (a + b)
  | decimals a b => .decimal (.round precision (a.add b))

theorem apply_add (precision : Nat) (operands : Operands)
    : operands.apply precision .add = .ok (some (operands.sum precision)) := by
  cases operands <;> rfl

theorem isUndefined_sum (precision : Nat) (operands : Operands)
    : (operands.sum precision).isUndefined = false := by
  cases operands <;> rfl

theorem isCallableKind_of_promote? {value : Value} {delta : Int64} {operands : Operands}
    (h : promote? value (.int delta) = some operands)
    : value.isCallableKind = false := by
  cases value with
  | func | native | bound | type => cases h
  | _ => rfl

end Operands

section Steady

variable {host : Host} {n : Nat} {s t : State}

/-- Expressions that only read a variable, or nothing. -/
def Expr.isAtom : Expr → Bool
  | .ident _ | .int _ | .str _ => true
  | _ => false

def Expr.atom (s : State) : Expr → Value
  | .ident name => (s.heap.scopes.lookup? s.scope name).getD .undefined
  | .int i => .int i
  | .str text => .str text
  | _ => .undefined

/-- Targets whose operands only read variables. -/
def Target.isSteady : Target → Bool
  | .ident _ => true
  | .member owner _ => owner.isAtom
  | .index owner key => owner.isAtom && key.isAtom

def Target.place (s : State) : Target → Place
  | .ident name => .ident name
  | .member owner name => .member (owner.atom s) name
  | .index owner key => .item (owner.atom s) (key.atom s)

theorem eval_atom {e : Expr} (he : e.isAtom = true) {value : Value} (h : (host.machine n).eval e s = .ok value t)
    : value = e.atom s ∧ t = s := by
  cases n with
  | zero => cases h
  | succ n =>
    have hlevel : host.machine (n + 1) = host.above n (host.machine n) := rfl
    rw [hlevel, above_eval] at h
    cases e with
    | ident name =>
      injection h with hvalue ht
      exact ⟨hvalue.symm, ht.symm⟩
    | int i =>
      injection h with hvalue ht
      exact ⟨hvalue.symm, ht.symm⟩
    | str text =>
      injection h with hvalue ht
      exact ⟨hvalue.symm, ht.symm⟩
    | _ => cases he

theorem evalHeld_atom {e : Expr} (he : e.isAtom = true) {value : Value}
    (h : (host.machine n).evalHeld e s = .ok value t)
    : value = e.atom s ∧ ∃ held, t = { s with held := held } := by
  rcases Run.ok_of_bind h with ⟨v, u, hvalue, h⟩
  rcases Run.hold_apply v u with ⟨held, hhold⟩
  rw [Run.bind_ok hhold] at h
  injection h with hv ht
  rcases eval_atom he hvalue with ⟨hatom, hu⟩
  rw [← hv, ← ht, hu]
  exact ⟨hatom, held, rfl⟩

/-- The operands of a steady target have the same values whenever nothing was done in between. -/
theorem evalPlace_steady {target : Target} (hsteady : target.isSteady = true) {place : Place}
    (h : (host.machine n).evalPlace target s = .ok place t)
    : place = target.place s ∧ ∃ held, t = { s with held := held } := by
  cases target with
  | ident name =>
    injection h with hplace ht
    exact ⟨hplace.symm, s.held, ht.symm⟩
  | member owner name =>
    rcases Run.ok_of_bind h with ⟨value, u, howner, h⟩
    injection h with hplace ht
    rcases evalHeld_atom hsteady howner with ⟨hvalue, hu⟩
    rw [← hplace, ← ht, hvalue]
    exact ⟨rfl, hu⟩
  | index owner key =>
    rcases Bool.and_eq_true_iff.mp hsteady with ⟨hsteady, hsteady'⟩
    rcases Run.ok_of_bind h with ⟨value, u, howner, h⟩
    rcases Run.ok_of_bind h with ⟨value', u', hkey, h⟩
    injection h with hplace ht
    rcases evalHeld_atom hsteady howner with ⟨hvalue, held, rfl⟩
    rcases evalHeld_atom hsteady' hkey with ⟨hvalue', held', rfl⟩
    rw [← hplace, ← ht, hvalue, hvalue']
    exact ⟨rfl, held', rfl⟩

/-- The sum of two numbers is theirs alone. -/
theorem binaryValues_add {m : Machine} {value : Value} {delta : Int64} {operands : Operands}
    (h : Operands.promote? value (.int delta) = some operands) (s : State)
    : m.binaryValues .add value (.int delta) s = .ok (operands.sum s.world.settings.precision) s :=
  Machine.binaryValues_of_apply h (Operands.apply_add _ operands)

end Steady

/-- The course of an increment. -/
structure Increment where
  /-- What the target stands for when it is read, in the state `read`. -/
  source : Place
  read : State
  old : Value
  /-- What the sum is, and the state after it. -/
  new : Value
  added : State
  /-- What the target stands for when it is written, in the state `write`. -/
  goal : Place
  write : State

/--
An increment that succeeds. The target is evaluated and read, then the sum is formed, and then the target is
evaluated once more and written.
-/
structure Host.Increments (host : Host) (target : Target) (delta : Int64) (level : Nat) (s t : State) (i : Increment)
    : Prop where
  found : (host.machine level).evalPlace target s = .ok i.source i.read
  sum : ∃ u held, (host.machine level).readPlace i.source i.read = .ok i.old u ∧
    (host.machine (level + 1)).binaryValues .add i.old (.int delta) { u with held := held } = .ok i.new i.added
  foundAgain : ∃ held, (host.machine (level + 1)).evalPlace target { i.added with held := held } = .ok i.goal i.write
  written : ∃ u, (host.machine (level + 1)).writePlace i.new i.goal i.write = .ok () u ∧ t = { u with held := s.held }

section Increments

variable {host : Host} {n level : Nat} {target : Target} {delta : Int64} {before : Bool} {s t : State}
  {result : Value} {i : Increment}

theorem eval_increment (h : (host.machine n).eval (.increment target delta before) s = .ok result t)
    : ∃ level i, n = level + 2 ∧ host.Increments target delta level s t i ∧
        result = if before then i.new else i.old := by
  match n with
  | 0 => cases h
  | 1 => cases h
  | level + 2 =>
    have houter : host.machine (level + 2) = host.above (level + 1) (host.machine (level + 1)) := rfl
    have hinner : host.machine (level + 1) = host.above level (host.machine level) := rfl
    rw [houter, above_eval] at h
    rcases Run.ok_of_lettingGo h with ⟨u, h, ht⟩
    rcases Run.ok_of_bind h with ⟨old, s1, hold, h⟩
    rcases Run.ok_of_bind hold with ⟨old', s2, heval, hold⟩
    rcases Run.ok_of_bind h with ⟨new, added, hsum, h⟩
    rcases Run.ok_of_bind h with ⟨_, s3, hhold, h⟩
    rcases Run.ok_of_bind h with ⟨_, s4, hassign, h⟩
    injection h with hresult hu
    -- The value that is read.
    rw [hinner, above_eval, Machine.evalExpr_toExpr] at heval
    rcases Run.ok_of_lettingGo heval with ⟨afterRead, hvalue, hs2⟩
    rcases Run.ok_of_bind hvalue with ⟨source, read, hfound, hread⟩
    rcases Run.hold_apply old' { afterRead with held := s.held } with ⟨held, hheld⟩
    rw [hs2, Run.bind_ok hheld] at hold
    injection hold with hold hs1
    rw [hold] at hread
    rw [← hs1] at hsum
    -- The place that is written.
    rw [Machine.assignTo_eq] at hassign
    rcases Run.ok_of_bind hassign with ⟨goal, write, hagain, hwrite⟩
    rcases Run.hold_apply new added with ⟨held', hheld'⟩
    rw [hheld'] at hhold
    injection hhold with _ hs3
    rw [← hs3] at hagain
    refine ⟨level, ⟨source, read, old, new, added, goal, write⟩, rfl, ⟨hfound, ⟨afterRead, held, hread, hsum⟩,
      ⟨held', hagain⟩, ⟨s4, hwrite, ?_⟩⟩, hresult.symm⟩
    rw [ht, ← hu]

/-- What is written is kept at the location that the target leads to when it is evaluated again. -/
theorem Host.Increments.content? (hi : host.Increments target delta level s t i) {location : Location}
    (hlocation : i.write.location? i.goal = some location) (other : Location)
    : t.heap.content? other = if other = location then location.stored i.new else i.write.heap.content? other := by
  rcases hi.written with ⟨u, hwritten, rfl⟩
  rcases Machine.writePlace_apply (host.machine (level + 1)) hlocation i.new with ⟨v, hwrite, hcontent⟩
  rw [hwrite] at hwritten
  injection hwritten with _ hv
  rw [← hv]
  exact hcontent other

/-- What is read is kept at the location that the target led to first. -/
theorem Host.Increments.old_eq (hi : host.Increments target delta level s t i) {location : Location} {value : Value}
    (hlocation : i.read.location? i.source = some location) (hcontent : i.read.heap.content? location = some value)
    (hplain : value.isCallableKind = false)
    : i.old = value := by
  rcases hi.sum with ⟨u, _, hread, _⟩
  rw [Machine.readPlace_apply _ hlocation hcontent hplain] at hread
  injection hread with hvalue _
  exact hvalue.symm

/-- If the operands only read variables, and a number is read, both evaluations lead to one location. -/
theorem Host.Increments.of_steady (hi : host.Increments target delta level s t i) (hsteady : target.isSteady = true)
    {location : Location} {value : Value} {operands : Operands}
    (hlocation : s.location? (target.place s) = some location)
    (hcontent : s.heap.content? location = some value) (hnumber : Operands.promote? value (.int delta) = some operands)
    : i.old = value ∧ i.new = operands.sum s.world.settings.precision ∧
        ∀ other, t.heap.content? other = if other = location then some i.new else s.heap.content? other := by
  have hplain := Operands.isCallableKind_of_promote? hnumber
  rcases evalPlace_steady hsteady hi.found with ⟨hsource, held, hread⟩
  have hsourceAt : i.read.location? i.source = some location := by
    rw [hsource, hread]
    exact hlocation
  have hcontentAt : i.read.heap.content? location = some value := by
    rw [hread]
    exact hcontent
  have hold : i.old = value := hi.old_eq hsourceAt hcontentAt hplain
  rcases hi.sum with ⟨u, held', hvalue, hsum⟩
  rw [Machine.readPlace_apply _ hsourceAt hcontentAt hplain] at hvalue
  injection hvalue with _ hu
  rw [hold, binaryValues_add hnumber, ← hu, hread] at hsum
  injection hsum with hnew hadded
  rcases hi.foundAgain with ⟨held'', hagain⟩
  rw [← hadded] at hagain
  rcases evalPlace_steady hsteady hagain with ⟨hgoal, held3, hwrite⟩
  have hlocation' : i.write.location? i.goal = some location := by
    rw [hgoal, hwrite]
    exact hlocation
  refine ⟨hold, hnew.symm, ?_⟩
  intro other
  have hdefined : i.new.isUndefined = false := by
    rw [← hnew]
    exact Operands.isUndefined_sum _ operands
  rw [hi.content? hlocation' other, Location.stored_of_defined hdefined, hwrite]

/--
An increment that succeeds evaluates its target once to read it and once more to write it, each time with all that
its operands do, and gives the value before or after. What is written is kept at the location that the target leads
to the second time, and nothing else changes then; what was read is kept at the location that it led to the first
time. If the operands only read variables and there is a number, it is one location: the sum is kept there, and
everything else is as before.
-/
theorem increments_write_where_they_lead (host : Host)
    (h : (host.machine n).eval (.increment target delta before) s = .ok result t)
    : ∃ level i, n = level + 2 ∧ host.Increments target delta level s t i ∧
        result = (if before then i.new else i.old) ∧
        (∀ location, i.write.location? i.goal = some location → ∀ other, t.heap.content? other =
          if other = location then location.stored i.new else i.write.heap.content? other) ∧
        (∀ location value, i.read.location? i.source = some location →
          i.read.heap.content? location = some value → value.isCallableKind = false → i.old = value) ∧
        ∀ location value operands, target.isSteady = true → s.location? (target.place s) = some location →
          s.heap.content? location = some value → Operands.promote? value (.int delta) = some operands →
          i.old = value ∧ i.new = operands.sum s.world.settings.precision ∧
            ∀ other, t.heap.content? other = if other = location then some i.new else s.heap.content? other := by
  rcases eval_increment h with ⟨level, i, hlevel, hi, hresult⟩
  exact ⟨level, i, hlevel, hi, hresult, fun location hlocation => hi.content? hlocation,
    fun location value hlocation hcontent hplain => hi.old_eq hlocation hcontent hplain,
    fun location value operands hsteady hlocation hcontent hnumber => hi.of_steady hsteady hlocation hcontent hnumber⟩

/--
With 10 and 20 in an array, an increment at a variable index writes the item that it read. If the index is itself
an increment, it is the next item that gets the sum, and the variable is incremented twice.
-/
theorem item_after_the_read_one_is_written
    : let m := Host.none.machine 12
      let s := Engine.stateAfter
        (do
          m.exec (.var "xs" (.array [.mk (.int 10) none false, .mk (.int 20) none false]))
          m.exec (.var "i" (.int 0)))
        (Engine.bareState {} .silent 0)
      let plain := Target.index (.ident "xs") (.ident "i")
      let twice := Target.index (.ident "xs") (.increment (.ident "i") 1 false)
      let t := Engine.stateAfter (m.eval (.increment plain 1 false)) s
      let u := Engine.stateAfter (m.eval (.increment twice 1 false)) s
      m.eval (.increment plain 1 false) s = .ok (.int 10) t ∧
        (∀ other, t.heap.content? other =
          if other = .item ⟨0⟩ 0 then some (.int 11) else s.heap.content? other) ∧
        m.eval (.increment twice 1 false) s = .ok (.int 10) u ∧
        (∃ level i, Host.none.Increments twice 1 level s u i ∧ i.old = .int 10) ∧
        [.item ⟨0⟩ 0, .item ⟨0⟩ 1, .binding ⟨0⟩ "i"].map (fun location =>
          (u.heap.content? location).bind Value.int?) = [some 10, some 11, some 2] := by
  intro m s plain twice t u
  have hplain : m.eval (.increment plain 1 false) s = .ok (.int 10) t := rfl
  have htwice : m.eval (.increment twice 1 false) s = .ok (.int 10) u := rfl
  have hlocation : s.location? (plain.place s) = some (.item ⟨0⟩ 0) := by decide +kernel
  have hten : s.heap.content? (.item ⟨0⟩ 0) = some (.int 10) := rfl
  have hkept : [.item ⟨0⟩ 0, .item ⟨0⟩ 1, .binding ⟨0⟩ "i"].map (fun location =>
      (u.heap.content? location).bind Value.int?) = [some 10, some 11, some 2] := by decide +kernel
  have hsteady : plain.isSteady = true := rfl
  have hnumber : Operands.promote? (.int 10) (.int 1) = some (.words 10 1) := rfl
  clear_value t u s
  rcases increments_write_where_they_lead .none hplain with ⟨_, _, _, _, _, _, _, hwhole⟩
  rcases increments_write_where_they_lead .none htwice with ⟨level, i, _, hi, hresult, _⟩
  rcases hwhole _ _ _ hsteady hlocation hten hnumber with ⟨_, hnew, hcontent⟩
  rw [hnew] at hcontent
  exact ⟨hplain, hcontent, htwice, ⟨level, i, hi, hresult.symm⟩, hkept⟩

end Increments

end ScriptEngine
