import Mathlib.Logic.Relation
import ScriptEngine.State.Frames

/-!
This module contains what scopes are: maps that are shared by reference, each with a link to the
map around it. A scope is made after its parent, so going outward ends, and a name stands for the
binding in the nearest scope that has one.
-/

namespace ScriptEngine

namespace Scopes

variable {t t' : Scopes} {ref other : ScopeRef} {name : String} {value : Value}

/-- Whether a reference was given away when a scope was made. -/
def Has (t : Scopes) (ref : ScopeRef) : Prop := ref.index < t.nodes.size

instance (t : Scopes) (ref : ScopeRef) : Decidable (t.Has ref) := Nat.decLt _ _

section Nodes

theorem node_of_not_has (h : ¬t.Has ref) : t.node ref = default := by
  unfold Has at h
  unfold node
  rw [Array.getD_eq_getD_getElem?, Array.getElem?_eq_none (by omega)]
  rfl

theorem own?_of_not_has (h : ¬t.Has ref) (name : String) : t.own? ref name = none := by
  unfold own?
  rw [node_of_not_has h]
  rfl

theorem contains_eq (t : Scopes) (ref : ScopeRef) (name : String)
    : (t.node ref).bindings.contains name = (t.own? ref name).isSome := rfl

theorem node_add (t : Scopes) (parent : Option ScopeRef) (ref : ScopeRef)
    : (t.add parent).2.node ref = if ref = (t.add parent).1 then ⟨.empty, parent⟩ else t.node ref := by
  rcases ref with ⟨index⟩
  simp only [node, add, Array.getD_eq_getD_getElem?, Array.getElem?_push, ScopeRef.mk.injEq]
  split <;> rfl

theorem has_add (t : Scopes) (parent : Option ScopeRef) (ref : ScopeRef)
    : (t.add parent).2.Has ref ↔ ref = (t.add parent).1 ∨ t.Has ref := by
  rcases ref with ⟨index⟩
  simp only [Has, add, Array.size_push, ScopeRef.mk.injEq]
  omega

theorem not_has_add (t : Scopes) (parent : Option ScopeRef) : ¬t.Has (t.add parent).1 := by
  simp [Has, add]

@[simp]
theorem has_put : (t.put ref name value).Has other ↔ t.Has other := by
  simp [Has, put]

theorem node_put (t : Scopes) (ref : ScopeRef) (name : String) (value : Value) (other : ScopeRef)
    : (t.put ref name value).node other =
        if other = ref ∧ t.Has ref then
          { t.node ref with bindings := (t.node ref).bindings.put name value }
        else
          t.node other := by
  rcases other with ⟨i⟩
  rcases ref with ⟨j⟩
  simp only [node, put, Array.getD_eq_getD_getElem?, Array.getElem?_modify, ScopeRef.mk.injEq, Has]
  by_cases hij : i = j
  . rw [hij]
    by_cases hj : j < t.nodes.size
    . simp [hj]
    . simp [hj]
  . simp [hij, Ne.symm hij]

@[simp]
theorem parent?_put : (t.put ref name value).parent? other = t.parent? other := by
  unfold parent?
  rw [node_put]
  split
  . next h => rw [h.1]
  . rfl

theorem own?_put (t : Scopes) (ref : ScopeRef) (name : String) (value : Value) (other : ScopeRef)
    (n : String)
    : (t.put ref name value).own? other n =
        if other = ref ∧ n = name ∧ t.Has ref then some value else t.own? other n := by
  unfold own?
  rw [node_put]
  by_cases h : other = ref ∧ t.Has ref
  . rw [if_pos h, h.1]
    simp [h.2]
  . rw [if_neg h, if_neg]
    intro h'
    exact h ⟨h'.1, h'.2.2⟩

theorem isSome_own?_put (h : (t.own? ref name).isSome) (other : ScopeRef) (n : String)
    : ((t.put ref name value).own? other n).isSome = (t.own? other n).isSome := by
  rw [own?_put]
  split
  . next h' => rw [h'.1, h'.2.1, h, Option.isSome_some]
  . rfl

end Nodes

section Resolution

/-- Scopes whose links lead to scopes that were made before, none of which binds the placeholder. -/
structure Sound (t : Scopes) : Prop where
  older {ref parent : ScopeRef} (h : t.parent? ref = some parent) : parent.index < ref.index
  unbound (ref : ScopeRef) : t.own? ref placeholder = none

/-- The nearest scope that binds a name, going outward from a scope. -/
inductive Nearest (t : Scopes) (name : String) : ScopeRef → ScopeRef → Prop where
  | here {ref : ScopeRef} (h : (t.own? ref name).isSome) : Nearest t name ref ref
  | outward {ref parent target : ScopeRef} (h : t.own? ref name = none) (hparent : t.parent? ref = some parent)
      (hnearest : Nearest t name parent target) : Nearest t name ref target

/-- A scope is seen from another one: it is that scope itself or one around it. -/
def Sees (t : Scopes) : ScopeRef → ScopeRef → Prop :=
  Relation.ReflTransGen fun ref parent => t.parent? ref = some parent

theorem Nearest.bound (h : t.Nearest name ref other) : (t.own? other name).isSome := by
  induction h with
  | here h => exact h
  | outward _ _ _ ih => exact ih

theorem Nearest.unique {a b : ScopeRef} (ha : t.Nearest name ref a) (hb : t.Nearest name ref b) : a = b := by
  induction ha with
  | here h =>
    cases hb with
    | here => rfl
    | outward h' => simp [h'] at h
  | outward h hparent _ ih =>
    cases hb with
    | here h' => simp [h] at h'
    | outward _ hparent' hb =>
      rw [hparent] at hparent'
      injection hparent' with hparent'
      rw [← hparent'] at hb
      exact ih hb

theorem Nearest.has (h : t.Nearest name ref other) : t.Has other := by
  apply Decidable.byContradiction
  intro hnot
  have hbound := h.bound
  simp [own?_of_not_has hnot] at hbound

theorem go_eq (ht : t.Sound) (name : String) {fuel : Nat} (h : ref.index < fuel)
    : resolve?.go t name fuel ref = resolve?.go t name (ref.index + 1) ref := by
  -- A walk outward from a scope takes no more steps than there are scopes before it.
  induction fuel using Nat.strongRecOn generalizing ref with
  | ind fuel ih =>
    cases fuel with
    | zero => omega
    | succ fuel =>
      unfold resolve?.go
      split
      . rfl
      . split
        . next parent hparent =>
          have holder := ht.older hparent
          rw [ih fuel (by omega) (by omega)]
          by_cases hfuel : ref.index = fuel
          . rw [hfuel, ih fuel (by omega) (by omega)]
          . rw [ih ref.index (by omega) holder]
        . rfl

theorem resolve?_eq (ht : t.Sound) (hname : name ≠ placeholder) (ref : ScopeRef)
    : t.resolve? ref name =
        if (t.own? ref name).isSome then some ref else (t.parent? ref).bind fun p => t.resolve? p name := by
  unfold resolve?
  simp only [if_neg hname]
  rw [resolve?.go, contains_eq]
  split
  . rfl
  . unfold parent?
    split
    . next parent hparent =>
      rw [hparent, go_eq ht name (ht.older hparent)]
      rfl
    . next hparent => rw [hparent]; rfl

theorem resolve?_iff (ht : t.Sound) (hname : name ≠ placeholder) {target : ScopeRef}
    : t.resolve? ref name = some target ↔ t.Nearest name ref target := by
  -- Scopes are numbered as they are made, and every step outward leads to a lower number.
  induction hindex : ref.index using Nat.strongRecOn generalizing ref with
  | ind index ih =>
    rw [resolve?_eq ht hname]
    split
    . next hown =>
      constructor
      . intro h
        injection h with h
        rw [← h]
        exact .here hown
      . intro h
        rw [h.unique (.here hown)]
    . next hown =>
      have hown : t.own? ref name = none := by
        rw [← Option.not_isSome_iff_eq_none]
        exact hown
      cases hparent : t.parent? ref with
      | none =>
        constructor
        . nofun
        . intro h
          cases h with
          | here h => simp [hown] at h
          | outward _ h => simp [hparent] at h
      | some parent =>
        have hlt := ht.older hparent
        rw [Option.bind_some, ih parent.index (by omega) rfl]
        constructor
        . intro h
          exact .outward hown hparent h
        . intro h
          cases h with
          | here h => simp [hown] at h
          | outward _ hparent' h =>
            rw [hparent] at hparent'
            injection hparent' with hparent'
            rw [hparent']
            exact h

theorem lookup?_iff (ht : t.Sound) (hname : name ≠ placeholder)
    : t.lookup? ref name = some value ↔ ∃ target, t.Nearest name ref target ∧ t.own? target name = some value := by
  simp only [lookup?, Option.bind_eq_some_iff, resolve?_iff ht hname]

theorem Sees.nearest (h : t.Sees ref other) (hbound : (t.own? other name).isSome)
    : ∃ target, t.Nearest name ref target := by
  induction h using Relation.ReflTransGen.head_induction_on with
  | refl => exact ⟨other, .here hbound⟩
  | @head ref _ hparent _ ih =>
    rcases ih with ⟨target, htarget⟩
    cases hown : t.own? ref name with
    | none => exact ⟨target, .outward hown hparent htarget⟩
    | some value => exact ⟨ref, .here (by rw [hown]; rfl)⟩

theorem Nearest.sees (h : t.Nearest name ref other) : t.Sees ref other := by
  induction h with
  | here => exact .refl
  | outward _ hparent _ ih => exact .head hparent ih

theorem lookup?_eq_none_iff (ht : t.Sound) (hname : name ≠ placeholder)
    : t.lookup? ref name = none ↔ ∀ other, t.Sees ref other → t.own? other name = none := by
  constructor
  . intro h other hsees
    rw [← Option.not_isSome_iff_eq_none]
    intro hbound
    rcases hsees.nearest hbound with ⟨target, htarget⟩
    rcases Option.isSome_iff_exists.mp htarget.bound with ⟨value, hvalue⟩
    simp [(lookup?_iff ht hname).mpr ⟨target, htarget, hvalue⟩] at h
  . intro h
    rw [Option.eq_none_iff_forall_ne_some]
    intro value hvalue
    rcases (lookup?_iff ht hname).mp hvalue with ⟨target, htarget, hown⟩
    simp [h target htarget.sees] at hown

theorem resolve?_isSome (t : Scopes) (ref : ScopeRef) (name : String) (ht : t.Sound)
    : (t.resolve? ref name).isSome = (t.lookup? ref name).isSome := by
  unfold lookup?
  cases h : t.resolve? ref name with
  | none => rfl
  | some target =>
    by_cases hname : name = placeholder
    . simp [resolve?, hname] at h
    . exact ((resolve?_iff ht hname).mp h).bound.symm

theorem resolve?_congr (hparent : ∀ ref, t'.parent? ref = t.parent? ref)
    (hbound : ∀ ref, (t'.own? ref name).isSome = (t.own? ref name).isSome) (ref : ScopeRef)
    : t'.resolve? ref name = t.resolve? ref name := by
  have hgo (fuel : Nat) (ref : ScopeRef)
      : resolve?.go t' name fuel ref = resolve?.go t name fuel ref := by
    induction fuel generalizing ref with
    | zero => rfl
    | succ fuel ih =>
      have hlink := hparent ref
      unfold parent? at hlink
      unfold resolve?.go
      rw [contains_eq, contains_eq, hbound, hlink]
      simp only [ih]
  unfold resolve?
  rw [hgo]

end Resolution

section Operations

/-- Scopes that were made by the operations on them, each applied to references that were given away. -/
inductive Built : Scopes → Prop where
  | empty : Built .empty
  | newRoot {t : Scopes} (h : Built t) : Built t.newRoot.2
  | newChild {t : Scopes} {parent : ScopeRef} (h : Built t) (hparent : t.Has parent)
      : Built (t.newChild parent).2
  | define {t t' : Scopes} {ref : ScopeRef} {name : String} {value : Value} (h : Built t) (href : t.Has ref)
      (hdefine : t.define ref name value = .ok t') : Built t'
  | force {t : Scopes} {ref : ScopeRef} {name : String} {value : Value} (h : Built t) (href : t.Has ref)
      : Built (t.force ref name value)
  | assign {t t' : Scopes} {ref : ScopeRef} {name : String} {value : Value} (h : Built t) (href : t.Has ref)
      (hassign : t.assign ref name value = .ok t') : Built t'

theorem define_eq (hname : name ≠ placeholder)
    : t.define ref name value =
        if (t.own? ref name).isSome then .error .redefined else .ok (t.put ref name value) := by
  unfold define defineTarget
  rw [if_neg hname, contains_eq]
  split
  . rfl
  . rfl

theorem assign_eq (hname : name ≠ placeholder)
    : t.assign ref name value =
        match t.resolve? ref name with
        | some target => .ok (t.put target name value)
        | none => .error .unbound := by
  unfold assign assignTarget
  rw [if_neg hname]
  cases t.resolve? ref name with
  | none => rfl
  | some target => rfl

theorem define_placeholder : t.define ref placeholder value = .ok t := rfl

theorem assign_placeholder : t.assign ref placeholder value = .ok t := rfl

theorem force_placeholder : t.force ref placeholder value = t := rfl

theorem force_eq (hname : name ≠ placeholder) : t.force ref name value = t.put ref name value := by
  unfold force
  rw [if_neg hname]

theorem has_force : (t.force ref name value).Has other ↔ t.Has other := by
  unfold force
  split
  . exact Iff.rfl
  . exact has_put

theorem define_error {e : BindError} (h : t.define ref name value = .error e) : e = .redefined := by
  by_cases hname : name = placeholder
  . rw [hname, define_placeholder] at h
    cases h
  . rw [define_eq hname] at h
    split at h
    . injection h with h
      exact h.symm
    . cases h

theorem eq_force_of_define (h : t.define ref name value = .ok t') : t' = t.force ref name value := by
  by_cases hname : name = placeholder
  . rw [hname, define_placeholder] at h
    injection h with h
    rw [hname, force_placeholder, h]
  . rw [define_eq hname] at h
    split at h
    . cases h
    . injection h with h
      rw [force_eq hname, h]

theorem assign_error {e : BindError} (h : t.assign ref name value = .error e) : e = .unbound := by
  by_cases hname : name = placeholder
  . rw [hname, assign_placeholder] at h
    cases h
  . rw [assign_eq hname] at h
    split at h
    . cases h
    . injection h with h
      exact h.symm

theorem Sound.put (ht : t.Sound) (hname : name ≠ placeholder) : (t.put ref name value).Sound where
  older h := by
    rw [parent?_put] at h
    exact ht.older h
  unbound other := by
    rw [own?_put, if_neg, ht.unbound]
    intro h
    exact hname h.2.1.symm

theorem Sound.force (ht : t.Sound) : (t.force ref name value).Sound := by
  by_cases hname : name = placeholder
  . rw [hname, force_placeholder]
    exact ht
  . rw [force_eq hname]
    exact ht.put hname

theorem Sound.add (ht : t.Sound) {parent : Option ScopeRef} (hparent : ∀ p, parent = some p → t.Has p)
    : (t.add parent).2.Sound where
  older {ref p} h := by
    unfold parent? at h
    rw [node_add] at h
    split at h
    . next href =>
      rw [href]
      exact hparent p h
    . exact ht.older h
  unbound ref := by
    unfold own?
    rw [node_add]
    split
    . rfl
    . exact ht.unbound ref

theorem Built.sound (h : t.Built) : t.Sound := by
  induction h with
  | empty => exact ⟨nofun, fun _ => rfl⟩
  | newRoot _ ih => exact ih.add nofun
  | newChild _ hparent ih =>
    apply ih.add
    intro p hp
    injection hp with hp
    rw [← hp]
    exact hparent
  | define _ _ hdefine ih =>
    rw [eq_force_of_define hdefine]
    exact ih.force
  | force _ _ ih => exact ih.force
  | @assign t t' ref name value _ _ hassign ih =>
    by_cases hname : name = placeholder
    . rw [hname, assign_placeholder] at hassign
      injection hassign with hassign
      rw [← hassign]
      exact ih
    . rw [assign_eq hname] at hassign
      split at hassign
      . injection hassign with hassign
        rw [← hassign]
        exact ih.put hname
      . cases hassign

end Operations

section Laws

/-- Scopes in which one binding was made or written, and nothing else changed. -/
structure Wrote (t t' : Scopes) (target : ScopeRef) (name : String) (value : Value) : Prop where
  has (other : ScopeRef) : t'.Has other ↔ t.Has other
  parent (other : ScopeRef) : t'.parent? other = t.parent? other
  own (other : ScopeRef) (n : String)
    : t'.own? other n = if other = target ∧ n = name then some value else t.own? other n

/-- Scopes to which a new one without bindings was added. -/
structure Made (t t' : Scopes) (ref : ScopeRef) (parent : Option ScopeRef) : Prop where
  fresh : ¬t.Has ref
  has (other : ScopeRef) : t'.Has other ↔ other = ref ∨ t.Has other
  parent (other : ScopeRef) : t'.parent? other = if other = ref then parent else t.parent? other
  own (other : ScopeRef) (n : String) : t'.own? other n = if other = ref then none else t.own? other n

theorem wrote_put (h : t.Has ref) : t.Wrote (t.put ref name value) ref name value where
  has _ := has_put
  parent _ := parent?_put
  own other n := by
    rw [own?_put]
    simp only [h, and_true]

theorem made_add (t : Scopes) (parent : Option ScopeRef) : t.Made (t.add parent).2 (t.add parent).1 parent where
  fresh := not_has_add t parent
  has := has_add t parent
  parent other := by
    unfold parent?
    rw [node_add]
    split
    . rfl
    . rfl
  own other n := by
    unfold own?
    rw [node_add]
    split
    . rfl
    . rfl

/-- Scopes to which a new one was added, possibly with bindings. -/
structure Opened (t t' : Scopes) (ref : ScopeRef) : Prop where
  fresh : ¬t.Has ref
  has {other : ScopeRef} (h : t.Has other) : t'.Has other
  own {other : ScopeRef} (h : t.Has other) (n : String) : t'.own? other n = t.own? other n

theorem Made.opened {parent : Option ScopeRef} (h : t.Made t' ref parent) : t.Opened t' ref where
  fresh := h.fresh
  has hother := (h.has _).mpr (.inr hother)
  own {other} hother n := by
    rw [h.own, if_neg]
    intro heq
    rw [heq] at hother
    exact h.fresh hother

theorem Wrote.resolve? (h : t.Wrote t' ref name value) (hbound : (t.own? ref name).isSome)
    (other : ScopeRef) (n : String)
    : t'.resolve? other n = t.resolve? other n := by
  apply resolve?_congr h.parent
  intro other
  rw [h.own]
  split
  . next heq => rw [heq.1, heq.2, hbound, Option.isSome_some]
  . rfl

theorem Wrote.lookup? (ht : t.Sound) (hname : name ≠ placeholder) (h : t.Wrote t' ref name value)
    (hbound : (t.own? ref name).isSome) (other : ScopeRef) (n : String)
    : (n = name ∧ t.Nearest name other ref → t'.lookup? other n = some value) ∧
      (¬(n = name ∧ t.Nearest name other ref) → t'.lookup? other n = t.lookup? other n) := by
  unfold Scopes.lookup?
  rw [h.resolve? hbound]
  constructor
  . rintro ⟨rfl, hnearest⟩
    rw [(resolve?_iff ht hname).mpr hnearest, Option.bind_some, h.own, if_pos ⟨rfl, rfl⟩]
  . intro hother
    cases hresolve : t.resolve? other n with
    | none => rfl
    | some target =>
      rw [Option.bind_some, Option.bind_some, h.own, if_neg]
      rintro ⟨rfl, rfl⟩
      exact hother ⟨rfl, (resolve?_iff ht hname).mp hresolve⟩

theorem assign_error_iff (ht : t.Sound) (hname : name ≠ placeholder) {e : BindError}
    : t.assign ref name value = .error e ↔ e = .unbound ∧ t.lookup? ref name = none := by
  rw [assign_eq hname, ← Option.not_isSome_iff_eq_none, ← resolve?_isSome t ref name ht]
  cases t.resolve? ref name with
  | none => simp [eq_comm]
  | some target => simp

theorem assign_wrote (ht : t.Sound) (hname : name ≠ placeholder) (h : t.assign ref name value = .ok t')
    : ∃ target, t.Nearest name ref target ∧ t.Wrote t' target name value := by
  rw [assign_eq hname] at h
  cases hresolve : t.resolve? ref name with
  | none => simp [hresolve] at h
  | some target =>
    have hnearest := (resolve?_iff ht hname).mp hresolve
    simp only [hresolve, Except.ok.injEq] at h
    rw [← h]
    exact ⟨target, hnearest, wrote_put hnearest.has⟩

theorem define_error_iff (hname : name ≠ placeholder) {e : BindError}
    : t.define ref name value = .error e ↔ e = .redefined ∧ (t.own? ref name).isSome := by
  rw [define_eq hname]
  split
  . next h => simp [h, eq_comm]
  . next h => simp [h]

theorem force_wrote (href : t.Has ref) (hname : name ≠ placeholder) (value : Value)
    : t.Wrote (t.force ref name value) ref name value := by
  rw [force_eq hname]
  exact wrote_put href

theorem define_wrote (href : t.Has ref) (hname : name ≠ placeholder) (h : t.define ref name value = .ok t')
    : t.Wrote t' ref name value := by
  rw [eq_force_of_define h]
  exact force_wrote href hname value

theorem Sound.acyclic (ht : t.Sound) : WellFounded fun parent ref => t.parent? ref = some parent :=
  Subrelation.wf ht.older (InvImage.wf ScopeRef.index Nat.lt_wfRel.wf)

theorem lookup?_placeholder : t.lookup? ref placeholder = none := by
  unfold lookup? resolve?
  rw [if_pos rfl]
  rfl

end Laws

end Scopes

namespace State

/-- The scope that names are defined in. -/
def scope (s : State) : ScopeRef := s.context.stack.top.scope

def withScopes (s : State) (t : Scopes) : State := { s with heap := { s.heap with scopes := t } }

end State

namespace Run

theorem defineLocal_apply (name : String) (value : Value) (s : State)
    : defineLocal name value s =
        match s.heap.scopes.define s.scope name value with
        | .ok t => .ok () (s.withScopes t)
        | .error _ => .error (.raised (.ofCause (.redefinedVariable name))) s := by
  have h : defineLocal name value s =
      bindVar (s.heap.scopes.defineTarget s.scope name) name value s := rfl
  rw [h]
  unfold Scopes.define Scopes.defineTarget
  split
  . rfl
  . split
    . rfl
    . rfl

theorem assignVar_apply (name : String) (value : Value) (s : State)
    : assignVar name value s =
        match s.heap.scopes.assign s.scope name value with
        | .ok t => .ok () (s.withScopes t)
        | .error _ => .error (.raised (.ofCause (.unboundVariable name))) s := by
  have h : assignVar name value s =
      bindVar (s.heap.scopes.assignTarget s.scope name) name value s := rfl
  rw [h]
  unfold Scopes.assign Scopes.assignTarget
  split
  . rfl
  . split
    . rfl
    . rfl

end Run

/-- Scopes that act as maps which are chained by their links and shared by reference. -/
structure Scopes.ChainOfMaps (t : Scopes) : Prop where
  /-- Going outward ends. -/
  acyclic : WellFounded fun parent ref => t.parent? ref = some parent
  newRoot : t.Made t.newRoot.2 t.newRoot.1 none
  newChild (parent : ScopeRef) : t.Made (t.newChild parent).2 (t.newChild parent).1 (some parent)
  lookup_iff {ref : ScopeRef} {name : String} {value : Value} (hname : name ≠ placeholder)
    : t.lookup? ref name = some value ↔
        ∃ target, t.Nearest name ref target ∧ t.own? target name = some value
  lookup_none_iff {ref : ScopeRef} {name : String} (hname : name ≠ placeholder)
    : t.lookup? ref name = none ↔ ∀ other, t.Sees ref other → t.own? other name = none
  assign_error_iff {ref : ScopeRef} {name : String} {value : Value} {e : BindError} (hname : name ≠ placeholder)
    : t.assign ref name value = .error e ↔ e = .unbound ∧ t.lookup? ref name = none
  /-- One binding is written, and read by the scopes whose nearest one it is. -/
  assign {t' : Scopes} {ref : ScopeRef} {name : String} {value : Value} (hname : name ≠ placeholder)
      (h : t.assign ref name value = .ok t')
    : ∃ target, t.Nearest name ref target ∧ t.Wrote t' target name value ∧
        ∀ other n,
          (n = name ∧ t.Nearest name other target → t'.lookup? other n = some value) ∧
          (¬(n = name ∧ t.Nearest name other target) → t'.lookup? other n = t.lookup? other n)
  define_error_iff {ref : ScopeRef} {name : String} {value : Value} {e : BindError} (hname : name ≠ placeholder)
    : t.define ref name value = .error e ↔ e = .redefined ∧ (t.own? ref name).isSome
  define {t' : Scopes} {ref : ScopeRef} {name : String} {value : Value} (href : t.Has ref)
      (hname : name ≠ placeholder) (h : t.define ref name value = .ok t')
    : t.Wrote t' ref name value
  force {ref : ScopeRef} {name : String} (value : Value) (href : t.Has ref) (hname : name ≠ placeholder)
    : t.Wrote (t.force ref name value) ref name value
  /-- The state is kept where a name cannot be defined, -/
  kept_by_define {s u : State} {name : String} {value : Value} {halt : Halt} (hs : s.heap.scopes = t)
      (h : Run.defineLocal name value s = .error halt u)
    : u = s ∧ t.define s.scope name value = .error .redefined
  /-- and where it cannot be written to. -/
  kept_by_assign {s u : State} {name : String} {value : Value} {halt : Halt} (hs : s.heap.scopes = t)
      (h : Run.assignVar name value s = .error halt u)
    : u = s ∧ t.assign s.scope name value = .error .unbound
  own_placeholder (ref : ScopeRef) : t.own? ref placeholder = none
  lookup_placeholder (ref : ScopeRef) : t.lookup? ref placeholder = none
  define_placeholder (ref : ScopeRef) (value : Value) : t.define ref placeholder value = .ok t
  force_placeholder (ref : ScopeRef) (value : Value) : t.force ref placeholder value = t
  assign_placeholder (ref : ScopeRef) (value : Value) : t.assign ref placeholder value = .ok t

/-- Scopes are a chain of maps after every sequence of the operations on them. -/
theorem Scopes.Built.chainOfMaps {t : Scopes} (h : t.Built) : t.ChainOfMaps where
  acyclic := h.sound.acyclic
  newRoot := made_add t none
  newChild parent := made_add t (some parent)
  lookup_iff := lookup?_iff h.sound
  lookup_none_iff := lookup?_eq_none_iff h.sound
  assign_error_iff hname := Scopes.assign_error_iff h.sound hname
  assign {_ _ _ _} hname hassign := by
    rcases assign_wrote h.sound hname hassign with ⟨target, hnearest, hwrote⟩
    exact ⟨target, hnearest, hwrote, hwrote.lookup? h.sound hname hnearest.bound⟩
  define_error_iff hname := Scopes.define_error_iff hname
  define := define_wrote
  force value href hname := force_wrote href hname value
  kept_by_define {s u name value halt} hs hdefine := by
    rw [Run.defineLocal_apply, hs] at hdefine
    cases hend : t.define s.scope name value with
    | ok t' => simp [hend] at hdefine
    | error e =>
      simp only [hend, EStateM.Result.error.injEq] at hdefine
      rw [define_error hend]
      exact ⟨hdefine.2.symm, rfl⟩
  kept_by_assign {s u name value halt} hs hassign := by
    rw [Run.assignVar_apply, hs] at hassign
    cases hend : t.assign s.scope name value with
    | ok t' => simp [hend] at hassign
    | error e =>
      simp only [hend, EStateM.Result.error.injEq] at hassign
      rw [assign_error hend]
      exact ⟨hassign.2.symm, rfl⟩
  own_placeholder := h.sound.unbound
  lookup_placeholder _ := lookup?_placeholder
  define_placeholder _ _ := Scopes.define_placeholder
  force_placeholder _ _ := Scopes.force_placeholder
  assign_placeholder _ _ := Scopes.assign_placeholder

/-- A scope with a name, inside it one that has the name too and one that does not. -/
def Scopes.shadowing : Scopes :=
  let t := Scopes.empty.newRoot.2
  let t := (t.newChild ⟨0⟩).2
  let t := (t.newChild ⟨0⟩).2
  let t := t.force ⟨0⟩ "x" .nil
  t.force ⟨1⟩ "x" .undefined

theorem Scopes.shadowing_built : shadowing.Built :=
  .force (.force (.newChild (.newChild (.newRoot .empty) (by decide)) (by decide)) (by decide)) (by decide)

theorem Scopes.shadowing_chainOfMaps
    : shadowing.ChainOfMaps ∧
        shadowing.lookup? ⟨1⟩ "x" = some .undefined ∧ shadowing.lookup? ⟨2⟩ "x" = some .nil ∧
        ∃ t, shadowing.assign ⟨2⟩ "x" (.bool true) = .ok t ∧
          t.lookup? ⟨0⟩ "x" = some (.bool true) ∧ t.lookup? ⟨1⟩ "x" = some .undefined :=
  ⟨shadowing_built.chainOfMaps, rfl, rfl, _, rfl, rfl, rfl⟩

end ScriptEngine
