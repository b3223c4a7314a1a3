import Mathlib.Logic.Relation
import ScriptEngine.Host.Basic
import ScriptEngine.Proofs.Run

/-!
This module contains the graph of the types and their bases. A type is made after its bases, so going
from a type to its bases ends. Types are told apart by their numbers: the types that every engine has
come first, then the classes in the order in which they were made, and the type that `super` uses in
the methods of a class has the number of the class, negated.
-/

namespace ScriptEngine

theorem BuiltinType.id_bounds (b : BuiltinType) : 0 ≤ b.id ∧ b.id ≤ 13 := by
  cases b <;> decide

namespace Types

variable {t t' : Types} {first : Int} {n : Nat} {ref other base cls view : TypeRef} {name : String}

/-- Whether a reference was given away when a type was made. -/
def Has (t : Types) (ref : TypeRef) : Prop := ref.index < t.nodes.size

instance (t : Types) (ref : TypeRef) : Decidable (t.Has ref) := Nat.decLt _ _

/-- The type that `super` uses in the methods of a class, once it was asked for. -/
def superView? (t : Types) (ref : TypeRef) : Option TypeRef := (t.node ref).superView

section Nodes

theorem node_of_not_has (h : ¬t.Has ref) : t.node ref = default := by
  unfold Has at h
  unfold node
  rw [Array.getD_eq_getD_getElem?, Array.getElem?_eq_none (by omega)]
  rfl

theorem has_of_mem_bases (h : base ∈ t.bases ref) : t.Has ref := by
  apply Decidable.byContradiction
  intro hnot
  unfold bases at h
  rw [node_of_not_has hnot] at h
  cases h

theorem has_of_superView? (h : t.superView? cls = some view) : t.Has cls := by
  apply Decidable.byContradiction
  intro hnot
  unfold superView? at h
  rw [node_of_not_has hnot] at h
  cases h

theorem node_add (t : Types) (node : TypeNode) (ref : TypeRef)
    : (t.add node).2.node ref = if ref = (t.add node).1 then node else t.node ref := by
  rcases ref with ⟨index⟩
  simp only [Types.node, add, Array.getD_eq_getD_getElem?, Array.getElem?_push, TypeRef.mk.injEq]
  split <;> rfl

theorem has_add (t : Types) (node : TypeNode) (ref : TypeRef)
    : (t.add node).2.Has ref ↔ ref = (t.add node).1 ∨ t.Has ref := by
  rcases ref with ⟨index⟩
  simp only [Has, add, Array.size_push, TypeRef.mk.injEq]
  omega

theorem node_modify (t : Types) (ref : TypeRef) (f : TypeNode → TypeNode) (other : TypeRef)
    : ({ t with nodes := t.nodes.modify ref.index f } : Types).node other =
        if other = ref ∧ t.Has ref then f (t.node other) else t.node other := by
  rcases other with ⟨i⟩
  rcases ref with ⟨j⟩
  simp only [node, Array.getD_eq_getD_getElem?, Array.getElem?_modify, TypeRef.mk.injEq, Has]
  by_cases hij : i = j
  . rw [hij]
    by_cases hj : j < t.nodes.size
    . simp [hj]
    . simp [hj]
  . simp [hij, Ne.symm hij]

/-- Types that differ in nothing but what they declare. -/
structure SameGraph (t t' : Types) : Prop where
  has (ref : TypeRef) : t'.Has ref ↔ t.Has ref
  lastId : t'.lastId = t.lastId
  id (ref : TypeRef) : t'.id ref = t.id ref
  bases (ref : TypeRef) : t'.bases ref = t.bases ref
  superView? (ref : TypeRef) : t'.superView? ref = t.superView? ref

theorem SameGraph.refl (t : Types) : t.SameGraph t := ⟨fun _ => .rfl, rfl, fun _ => rfl, fun _ => rfl, fun _ => rfl⟩

theorem SameGraph.trans {u : Types} (h : t.SameGraph t') (h' : t'.SameGraph u) : t.SameGraph u where
  has ref := (h'.has ref).trans (h.has ref)
  lastId := h'.lastId.trans h.lastId
  id ref := (h'.id ref).trans (h.id ref)
  bases ref := (h'.bases ref).trans (h.bases ref)
  superView? ref := (h'.superView? ref).trans (h.superView? ref)

theorem sameGraph_modify (t : Types) (ref : TypeRef) (f : TypeNode → TypeNode)
    (hid : ∀ n, (f n).id = n.id) (hbases : ∀ n, (f n).bases = n.bases)
    (hview : ∀ n, (f n).superView = n.superView)
    : t.SameGraph { t with nodes := t.nodes.modify ref.index f } where
  has other := by simp [Has]
  lastId := rfl
  id other := by
    unfold Types.id
    rw [node_modify]
    split
    . rw [hid]
    . rfl
  bases other := by
    unfold Types.bases
    rw [node_modify]
    split
    . rw [hbases]
    . rfl
  superView? other := by
    unfold Types.superView?
    rw [node_modify]
    split
    . rw [hview]
    . rfl

theorem setMember_sameGraph (t : Types) (ref : TypeRef) (name : String) (value : Value)
    : t.SameGraph (t.setMember ref name value) :=
  sameGraph_modify t ref _ (fun _ => rfl) (fun _ => rfl) fun _ => rfl

theorem setStatic_sameGraph (t : Types) (ref : TypeRef) (name : String) (value : Value)
    : t.SameGraph (t.setStatic ref name value) :=
  sameGraph_modify t ref _ (fun _ => rfl) (fun _ => rfl) fun _ => rfl

theorem id_setSuperView (t : Types) (ref view other : TypeRef)
    : (t.setSuperView ref view).id other = t.id other := by
  unfold setSuperView id
  rw [node_modify]
  split
  . rfl
  . rfl

theorem bases_setSuperView (t : Types) (ref view other : TypeRef)
    : (t.setSuperView ref view).bases other = t.bases other := by
  unfold setSuperView bases
  rw [node_modify]
  split
  . rfl
  . rfl

theorem superView?_setSuperView (t : Types) (ref view other : TypeRef)
    : (t.setSuperView ref view).superView? other =
        if other = ref ∧ t.Has ref then some view else t.superView? other := by
  unfold setSuperView superView?
  rw [node_modify]
  split
  . rfl
  . rfl

theorem has_setSuperView (t : Types) (ref view other : TypeRef)
    : (t.setSuperView ref view).Has other ↔ t.Has other := by
  simp [Has, setSuperView]

end Nodes

section Search

variable {α : Type} {own : TypeRef → Option α} {x : Extensions}

/--
What is found first, depth first and from left to right, in a type and in what is reached from it
through bases, within a number of steps.
-/
def search (t : Types) (own : TypeRef → Option α) : Nat → TypeRef → Option α
  | 0, _ => none
  | fuel + 1, ref => (own ref).or ((t.bases ref).findSome? fun base => t.search own fuel base)

/-- Types each of which was made after its bases. -/
def Layered (t : Types) : Prop := ∀ ref base, base ∈ t.bases ref → base.index < ref.index

/-- A type derives from another one that is reached from it through bases. -/
def Derives (t : Types) : TypeRef → TypeRef → Prop := Relation.ReflTransGen fun ref base => base ∈ t.bases ref

theorem findSome?_congr {f g : TypeRef → Option α} {refs : List TypeRef} (h : ∀ ref ∈ refs, f ref = g ref)
    : refs.findSome? f = refs.findSome? g := by
  induction refs with
  | nil => rfl
  | cons ref refs ih =>
    rw [List.findSome?_cons, List.findSome?_cons, h ref List.mem_cons_self, ih]
    intro other hother
    exact h other (List.mem_cons_of_mem ref hother)

/-- The types up to a place in the table, each of which was made after its bases. -/
def LayeredBelow (t : Types) (n : Nat) : Prop := ∀ ref base, ref.index < n → base ∈ t.bases ref → base.index < ref.index

theorem Layered.below (ht : t.Layered) (n : Nat) : t.LayeredBelow n := fun ref base _ hbase => ht ref base hbase

theorem LayeredBelow.search_eq (ht : t.LayeredBelow n) (own : TypeRef → Option α) {fuel : Nat} (href : ref.index < n)
    (h : ref.index < fuel)
    : t.search own fuel ref = t.search own (ref.index + 1) ref := by
  -- A search from a type takes no more steps than there are types before it.
  induction fuel using Nat.strongRecOn generalizing ref with
  | ind fuel ih =>
    cases fuel with
    | zero => omega
    | succ fuel =>
      unfold search
      congr 1
      apply findSome?_congr
      intro base hbase
      have hlt := ht ref base href hbase
      rw [ih fuel (by omega) (by omega) (by omega)]
      by_cases hfuel : ref.index = fuel
      . rw [hfuel, ih fuel (by omega) (by omega) (by omega)]
      . rw [ih ref.index (by omega) (by omega) hlt]

theorem LayeredBelow.search_succ (ht : t.LayeredBelow n) (own : TypeRef → Option α) (href : ref.index < n)
    : t.search own (ref.index + 1) ref =
        (own ref).or ((t.bases ref).findSome? fun base => t.search own (base.index + 1) base) := by
  rw [search]
  congr 1
  apply findSome?_congr
  intro base hbase
  have hlt := ht ref base href hbase
  exact ht.search_eq own (Nat.lt_trans hlt href) hlt

theorem Layered.search_succ (ht : t.Layered) (own : TypeRef → Option α) (ref : TypeRef)
    : t.search own (ref.index + 1) ref =
        (own ref).or ((t.bases ref).findSome? fun base => t.search own (base.index + 1) base) :=
  (ht.below (ref.index + 1)).search_succ own (Nat.lt_succ_self _)

theorem findMember?_eq_search (t : Types) (ref : TypeRef) (name : String)
    : t.findMember? ref name = t.search (t.ownMember? · name) (ref.index + 1) ref := by
  have h (fuel : Nat) (ref : TypeRef)
      : findMember?.go t name fuel ref = t.search (t.ownMember? · name) fuel ref := by
    induction fuel generalizing ref with
    | zero => rfl
    | succ fuel ih =>
      unfold findMember?.go search
      simp only [ih]
      cases t.ownMember? ref name <;> rfl
  exact h _ ref

theorem find?_eq_search (x : Extensions) (t : Types) (ref : TypeRef) (name : String)
    : x.find? t ref name = t.search (fun r => x.get? (t.id r) name) (ref.index + 1) ref := by
  have h (fuel : Nat) (ref : TypeRef)
      : Extensions.find?.go x t name fuel ref = t.search (fun r => x.get? (t.id r) name) fuel ref := by
    induction fuel generalizing ref with
    | zero => rfl
    | succ fuel ih =>
      unfold Extensions.find?.go search
      simp only [ih]
      cases x.get? (t.id ref) name <;> rfl
  exact h _ ref

theorem isSubOf_eq_search (t : Types) (ref other : TypeRef)
    : t.isSubOf ref other =
        (t.search (fun r => if t.id r = t.id other then some () else none) (ref.index + 1) ref).isSome := by
  have h (fuel : Nat) (ref : TypeRef)
      : isSubOf.go t (t.id other) fuel ref =
          (t.search (fun r => if t.id r = t.id other then some () else none) fuel ref).isSome := by
    induction fuel generalizing ref with
    | zero => rfl
    | succ fuel ih =>
      unfold isSubOf.go search
      by_cases hid : t.id ref = t.id other
      . simp [hid]
      . simp [hid, ih, List.isSome_findSome?]
  exact h _ ref

theorem Layered.findMember?_eq (ht : t.Layered) (ref : TypeRef) (name : String)
    : t.findMember? ref name =
        (t.ownMember? ref name).or ((t.bases ref).findSome? fun base => t.findMember? base name) := by
  simp only [findMember?_eq_search]
  exact ht.search_succ _ ref

theorem Layered.find?_eq (ht : t.Layered) (x : Extensions) (ref : TypeRef) (name : String)
    : x.find? t ref name =
        (x.get? (t.id ref) name).or ((t.bases ref).findSome? fun base => x.find? t base name) := by
  simp only [find?_eq_search]
  exact ht.search_succ _ ref

theorem LayeredBelow.isSubOf_eq (ht : t.LayeredBelow n) (href : ref.index < n) (other : TypeRef)
    : t.isSubOf ref other = (t.id ref == t.id other || (t.bases ref).any fun base => t.isSubOf base other) := by
  simp only [isSubOf_eq_search]
  rw [ht.search_succ _ href, Option.isSome_or, List.isSome_findSome?]
  congr 1
  by_cases hid : t.id ref = t.id other
  . simp [hid]
  . simp [hid]

theorem Layered.isSubOf_eq (ht : t.Layered) (ref other : TypeRef)
    : t.isSubOf ref other = (t.id ref == t.id other || (t.bases ref).any fun base => t.isSubOf base other) :=
  (ht.below (ref.index + 1)).isSubOf_eq (Nat.lt_succ_self _) other

/-- A type that derives from another one is a subtype of it. -/
theorem LayeredBelow.isSubOf_of_derives (ht : t.LayeredBelow n) (href : ref.index < n) (h : t.Derives ref other)
    : t.isSubOf ref other = true := by
  induction h using Relation.ReflTransGen.head_induction_on with
  | refl => rw [ht.isSubOf_eq href, beq_self_eq_true, Bool.true_or]
  | head hbase _ ih =>
    rw [ht.isSubOf_eq href, Bool.or_eq_true, List.any_eq_true]
    exact .inr ⟨_, hbase, ih (Nat.lt_trans (ht _ _ href hbase) href)⟩

theorem Layered.wellFounded (ht : t.Layered) : WellFounded fun base ref => base ∈ t.bases ref :=
  Subrelation.wf (fun {base ref} h => ht ref base h) (measure TypeRef.index).wf

theorem Layered.index_lt (ht : t.Layered) (h : Relation.TransGen (fun ref base => base ∈ t.bases ref) ref other)
    : other.index < ref.index := by
  induction h with
  | single h => exact ht _ _ h
  | tail _ h ih => exact Nat.lt_trans (ht _ _ h) ih

theorem Layered.derives_antisymm (ht : t.Layered) (h : t.Derives ref other) (h' : t.Derives other ref)
    : ref = other := by
  rcases Relation.reflTransGen_iff_eq_or_transGen.mp h with heq | h
  . exact heq.symm
  . rcases Relation.reflTransGen_iff_eq_or_transGen.mp h' with heq | h'
    . exact heq
    . have hlt := ht.index_lt h
      have hlt' := ht.index_lt h'
      omega

/-- Where types are told apart by their numbers, the subtypes of a type are those that derive from it. -/
theorem Layered.isSubOf_iff (ht : t.Layered)
    (hunique : ∀ ref, t.Has ref → t.id ref = t.id other → ref = other) (href : t.Has ref)
    : t.isSubOf ref other = true ↔ t.Derives ref other := by
  -- Bases are made before the types that derive from them.
  induction hindex : ref.index using Nat.strongRecOn generalizing ref with
  | ind index ih =>
    rw [ht.isSubOf_eq, Bool.or_eq_true, beq_iff_eq, List.any_eq_true]
    constructor
    . intro h
      rcases h with hid | ⟨base, hbase, hsub⟩
      . rw [hunique ref href hid]
        exact .refl
      . have hlt := ht ref base hbase
        have hhas : t.Has base := Nat.lt_trans hlt href
        exact .head hbase ((ih base.index (by omega) hhas rfl).mp hsub)
    . intro h
      cases Relation.ReflTransGen.cases_head h with
      | inl heq => exact .inl (by rw [heq])
      | inr h =>
        rcases h with ⟨base, hbase, hderives⟩
        have hlt := ht ref base hbase
        have hhas : t.Has base := Nat.lt_trans hlt href
        exact .inr ⟨base, hbase, (ih base.index (by omega) hhas rfl).mpr hderives⟩

end Search

section Numbers

/-- Classes are numbered from after `first`. -/
def IsClass (t : Types) (first : Int) (ref : TypeRef) : Prop := t.Has ref ∧ first < t.id ref

/--
Types that were made one after another, `n` classes among them. Every type is one that every engine
has, a class, or the type that `super` uses in the methods of a class.
-/
structure Sound (t : Types) (first : Int) (n : Nat) : Prop where
  lastId : t.lastId = first + n
  layered : t.Layered
  builtin (b : BuiltinType) : t.Has b.ref ∧ t.id b.ref = b.id
  kind {ref : TypeRef} (h : t.Has ref)
    : (∃ b : BuiltinType, ref = b.ref) ∨ (first < t.id ref ∧ t.id ref ≤ t.lastId) ∨
        ∃ cls, t.superView? cls = some ref
  view {cls view : TypeRef} (h : t.superView? cls = some view)
    : t.Has view ∧ first < t.id cls ∧ t.id view = -t.id cls ∧ t.bases view = t.bases cls
  unique {ref other : TypeRef} (href : t.Has ref) (hother : t.Has other) (h : t.id ref = t.id other)
    : ref = other

theorem Sound.id_le (ht : t.Sound first n) (hfirst : 13 ≤ first) (h : t.Has ref) : t.id ref ≤ t.lastId := by
  have hlast := ht.lastId
  rcases ht.kind h with ⟨b, hb⟩ | hclass | ⟨cls, hview⟩
  . have hbound := b.id_bounds
    rw [hb, (ht.builtin b).2]
    omega
  . exact hclass.2
  . rcases ht.view hview with ⟨_, hlt, hid, _⟩
    omega

/-- Only the type that `super` uses in the methods of a class has the number of the class, negated. -/
theorem Sound.superView?_of_id (ht : t.Sound first n) (hfirst : 13 ≤ first) (h : t.Has ref)
    (hcls : t.IsClass first cls) (hid : t.id ref = -t.id cls)
    : t.superView? cls = some ref := by
  have hlt := hcls.2
  rcases ht.kind h with ⟨b, hb⟩ | hclass | ⟨other, hview⟩
  . have hbound := b.id_bounds
    rw [hb, (ht.builtin b).2] at hid
    omega
  . omega
  . rcases ht.view hview with ⟨_, _, hid', _⟩
    have heq : other = cls := by
      apply ht.unique (has_of_superView? hview) hcls.1
      omega
    rw [← heq]
    exact hview

theorem SameGraph.sound (h : t.SameGraph t') (ht : t.Sound first n) : t'.Sound first n where
  lastId := by rw [h.lastId, ht.lastId]
  layered ref base hbase := by
    rw [h.bases] at hbase
    exact ht.layered ref base hbase
  builtin b := by
    rw [h.has, h.id]
    exact ht.builtin b
  kind {ref} href := by
    simp only [h.id, h.lastId, h.superView?]
    exact ht.kind ((h.has ref).mp href)
  view {cls view} hview := by
    rw [h.superView?] at hview
    rw [h.has, h.id, h.id, h.bases, h.bases]
    exact ht.view hview
  unique {ref other} href hother hid := by
    rw [h.has] at href hother
    rw [h.id, h.id] at hid
    exact ht.unique href hother hid

theorem has_builtin (b : BuiltinType) (first : Int) : (builtin first).Has b.ref := by
  show b.ref.index < 13
  cases b <;> decide

theorem node_builtin (b : BuiltinType) (first : Int) : (builtin first).node b.ref = .new b.id b.name [] := by
  cases b <;> rfl

theorem eq_ref_of_has_builtin (h : (builtin first).Has ref) : ∃ b : BuiltinType, ref = b.ref := by
  have hall : ∀ i : Fin 13, ∃ b ∈ BuiltinType.all, b.ref = ⟨i⟩ := by decide
  rcases ref with ⟨index⟩
  rcases hall ⟨index, h⟩ with ⟨b, _, hb⟩
  exact ⟨b, hb.symm⟩

theorem builtin_sound (first : Int) : (builtin first).Sound first 0 where
  lastId := by simp [builtin]
  layered ref base hbase := by
    rcases eq_ref_of_has_builtin (has_of_mem_bases hbase) with ⟨b, hb⟩
    rw [hb, bases, node_builtin] at hbase
    cases hbase
  builtin b := ⟨has_builtin b first, by rw [id, node_builtin]; rfl⟩
  kind h := .inl (eq_ref_of_has_builtin h)
  view {cls view} h := by
    rcases eq_ref_of_has_builtin (has_of_superView? h) with ⟨b, hb⟩
    rw [hb, superView?, node_builtin] at h
    cases h
  unique {ref other} href hother h := by
    rcases eq_ref_of_has_builtin href with ⟨b, hb⟩
    rcases eq_ref_of_has_builtin hother with ⟨c, hc⟩
    rw [hb, hc, id, id, node_builtin, node_builtin] at h
    rw [hb, hc]
    revert h
    cases b <;> cases c <;> decide

/-- Types after one more of them was made. -/
structure Made (t t' : Types) (ref : TypeRef) (id : Int) (bases : List TypeRef) : Prop where
  fresh : ref.index = t.nodes.size
  has (other : TypeRef) : t'.Has other ↔ other = ref ∨ t.Has other
  id (other : TypeRef) : t'.id other = if other = ref then id else t.id other
  bases (other : TypeRef) : t'.bases other = if other = ref then bases else t.bases other

section Made

variable {id : Int} {bases : List TypeRef} {ref other : TypeRef}

theorem Made.not_has (h : t.Made t' ref id bases) : ¬t.Has ref := by
  have hfresh := h.fresh
  unfold Has
  omega

theorem Made.ne (h : t.Made t' ref id bases) (hother : t.Has other) : other ≠ ref := by
  intro heq
  rw [heq] at hother
  exact h.not_has hother

theorem Made.id_of_has (h : t.Made t' ref id bases) (hother : t.Has other) : t'.id other = t.id other := by
  rw [h.id, if_neg (h.ne hother)]

theorem Made.bases_of_has (h : t.Made t' ref id bases) (hother : t.Has other)
    : t'.bases other = t.bases other := by
  rw [h.bases, if_neg (h.ne hother)]

theorem Made.layered (h : t.Made t' ref id bases) (ht : t.Layered) (hbases : ∀ base ∈ bases, t.Has base)
    : t'.Layered := by
  intro other base hbase
  rw [h.bases] at hbase
  split at hbase
  . next heq =>
    have hlt : base.index < t.nodes.size := hbases base hbase
    rw [heq, h.fresh]
    exact hlt
  . exact ht other base hbase

theorem Made.unique (h : t.Made t' ref id bases) (hid : ∀ other, t.Has other → t.id other ≠ id)
    (hunique : ∀ other other', t.Has other → t.Has other' → t.id other = t.id other' → other = other')
    {other other' : TypeRef} (hother : t'.Has other) (hother' : t'.Has other')
    (heq : t'.id other = t'.id other')
    : other = other' := by
  rw [h.id, h.id] at heq
  rcases (h.has other).mp hother with hnew | hold
  . rcases (h.has other').mp hother' with hnew' | hold'
    . rw [hnew, hnew']
    . rw [if_pos hnew, if_neg (h.ne hold')] at heq
      exact absurd heq.symm (hid other' hold')
  . rcases (h.has other').mp hother' with hnew' | hold'
    . rw [if_neg (h.ne hold), if_pos hnew'] at heq
      exact absurd heq (hid other hold)
    . rw [if_neg (h.ne hold), if_neg (h.ne hold')] at heq
      exact hunique other other' hold hold' heq

theorem Made.builtin (h : t.Made t' ref id bases) (ht : t.Sound first n) (b : BuiltinType)
    : t'.Has b.ref ∧ t'.id b.ref = b.id := by
  rcases ht.builtin b with ⟨hhas, hid⟩
  exact ⟨(h.has _).mpr (.inr hhas), by rw [h.id_of_has hhas, hid]⟩

theorem Made.view_kept (h : t.Made t' ref id bases) (ht : t.Sound first n) (hview : t.superView? cls = some view)
    : t'.Has view ∧ first < t'.id cls ∧ t'.id view = -t'.id cls ∧ t'.bases view = t'.bases cls := by
  have hcls := has_of_superView? hview
  rcases ht.view hview with ⟨hhas, hlt, hid, hbases⟩
  rw [h.id_of_has hhas, h.id_of_has hcls, h.bases_of_has hhas, h.bases_of_has hcls]
  exact ⟨(h.has view).mpr (.inr hhas), hlt, hid, hbases⟩

end Made

theorem add_made (t : Types) (node : TypeNode) : t.Made (t.add node).2 (t.add node).1 node.id node.bases where
  fresh := rfl
  has other := has_add t node other
  id other := by
    unfold Types.id
    rw [node_add]
    split <;> rfl
  bases other := by
    unfold Types.bases
    rw [node_add]
    split <;> rfl

theorem superView?_add (t : Types) {node : TypeNode} (hnode : node.superView = none) (ref : TypeRef)
    : (t.add node).2.superView? ref = t.superView? ref := by
  unfold superView?
  rw [node_add]
  split
  . next heq =>
    rw [heq, hnode, node_of_not_has (add_made t node).not_has]
    rfl
  . rfl

theorem newClass_made (t : Types) (name : String) (bases : List TypeRef)
    : t.Made (t.newClass name bases).2 (t.newClass name bases).1 (t.lastId + 1)
        (if bases.isEmpty then [BuiltinType.object.ref] else bases) := by
  rcases add_made { t with lastId := t.lastId + 1 } (.new (t.lastId + 1) name _) with ⟨hfresh, hhas, hid, hbases⟩
  exact ⟨hfresh, hhas, hid, hbases⟩

theorem superView?_newClass (t : Types) (name : String) (bases : List TypeRef) (ref : TypeRef)
    : (t.newClass name bases).2.superView? ref = t.superView? ref :=
  superView?_add { t with lastId := t.lastId + 1 } rfl ref

theorem Sound.newClass (ht : t.Sound first n) (hfirst : 13 ≤ first) (name : String) {bases : List TypeRef}
    (hbases : ∀ base ∈ bases, t.Has base)
    : (t.newClass name bases).2.Sound first (n + 1) := by
  have hmade := newClass_made t name bases
  have hlast := ht.lastId
  have hlastId : (t.newClass name bases).2.lastId = t.lastId + 1 := rfl
  exact {
    lastId := by omega
    layered := by
      apply hmade.layered ht.layered
      intro base hbase
      split at hbase
      . rw [List.mem_singleton.mp hbase]
        exact (ht.builtin .object).1
      . exact hbases base hbase
    builtin := hmade.builtin ht
    kind := by
      intro ref href
      simp only [superView?_newClass]
      rcases (hmade.has ref).mp href with hnew | hold
      . rw [hmade.id, if_pos hnew]
        exact .inr (.inl (by omega))
      . rw [hmade.id_of_has hold]
        rcases ht.kind hold with hb | hclass | hview
        . exact .inl hb
        . exact .inr (.inl (by omega))
        . exact .inr (.inr hview)
    view := by
      intro cls view hview
      rw [superView?_newClass] at hview
      exact hmade.view_kept ht hview
    unique := by
      intro ref other href hother
      apply hmade.unique _ (fun _ _ => ht.unique) href hother
      intro other hother
      have hle := ht.id_le hfirst hother
      omega }

end Numbers

end Types

namespace Heap

open ScriptEngine.Types

variable {h : Heap} {first : Int} {n : Nat} {ref cls view : TypeRef}

theorem superType_of_some (hcls : h.types.isSuperView cls = false) (hview : h.types.superView? cls = some view)
    : h.superType cls = (view, h) := by
  unfold superView? at hview
  unfold superType
  rw [if_neg (by simp [hcls]), hview]

theorem superType_of_none (hcls : h.types.isSuperView cls = false) (hnone : h.types.superView? cls = none)
    : ∃ name init, (h.superType cls).1 = ⟨h.types.nodes.size⟩ ∧ (h.superType cls).2.types =
        (((h.types.add (.new (-h.types.id cls) name (h.types.bases cls))).2.setMember
          ⟨h.types.nodes.size⟩ "__init__" init).setSuperView cls ⟨h.types.nodes.size⟩) := by
  unfold superView? at hnone
  unfold superType
  rw [if_neg (by simp [hcls]), hnone]
  exact ⟨_, _, rfl, rfl⟩

/-- If `super` was not used yet in the methods of a class, then there is one more type. -/
theorem superType_adds (hcls : h.types.isSuperView cls = false) (hnone : h.types.superView? cls = none)
    : h.types.Made (h.superType cls).2.types (h.superType cls).1 (-h.types.id cls) (h.types.bases cls) ∧
        (∀ ref, (h.superType cls).2.types.superView? ref =
          if ref = cls ∧ (h.superType cls).2.types.Has cls then some (h.superType cls).1
          else h.types.superView? ref) ∧
        (h.superType cls).2.types.lastId = h.types.lastId := by
  rcases superType_of_none hcls hnone with ⟨name, init, hview, htypes⟩
  rw [hview, htypes]
  have hmade := add_made h.types (.new (-h.types.id cls) name (h.types.bases cls))
  have hsame := setMember_sameGraph (h.types.add (.new (-h.types.id cls) name (h.types.bases cls))).2
    ⟨h.types.nodes.size⟩ "__init__" init
  refine ⟨{ fresh := rfl, has := ?_, id := ?_, bases := ?_ }, ?_, hsame.lastId⟩
  . intro other
    rw [has_setSuperView, hsame.has]
    exact hmade.has other
  . intro other
    rw [id_setSuperView, hsame.id]
    exact hmade.id other
  . intro other
    rw [bases_setSuperView, hsame.bases]
    exact hmade.bases other
  . intro other
    simp only [superView?_setSuperView, has_setSuperView, hsame.superView?]
    rw [superView?_add h.types rfl]

/-- A class that `super` was not used in yet gets the type for it. -/
theorem superType_made (hcls : h.types.isSuperView cls = false) (hhas : h.types.Has cls)
    (hnone : h.types.superView? cls = none)
    : h.types.Made (h.superType cls).2.types (h.superType cls).1 (-h.types.id cls) (h.types.bases cls) ∧
        (∀ ref, (h.superType cls).2.types.superView? ref =
          if ref = cls then some (h.superType cls).1 else h.types.superView? ref) ∧
        (h.superType cls).2.types.lastId = h.types.lastId := by
  rcases superType_adds hcls hnone with ⟨hmade, hview, hlast⟩
  have hkept := (hmade.has cls).mpr (.inr hhas)
  simp only [hkept, and_true] at hview
  exact ⟨hmade, hview, hlast⟩

end Heap

namespace Types

variable {h : Heap} {t : Types} {first : Int} {n : Nat} {cls : TypeRef}

theorem IsClass.not_isSuperView (hcls : t.IsClass first cls) (hfirst : 13 ≤ first)
    : t.isSuperView cls = false := by
  have hlt := hcls.2
  unfold isSuperView
  simp only [decide_eq_false_iff_not]
  omega

theorem Sound.superType (ht : h.types.Sound first n) (hfirst : 13 ≤ first) (hcls : h.types.IsClass first cls)
    : (h.superType cls).2.types.Sound first n := by
  have hclass := hcls.not_isSuperView hfirst
  cases hnone : h.types.superView? cls with
  | some view =>
    rw [Heap.superType_of_some hclass hnone]
    exact ht
  | none =>
    rcases Heap.superType_made hclass hcls.1 hnone with ⟨hmade, hview, hlast⟩
    exact {
      lastId := by rw [hlast, ht.lastId]
      layered := by
        apply hmade.layered ht.layered
        intro base hbase
        exact Nat.lt_trans (ht.layered cls base hbase) hcls.1
      builtin := hmade.builtin ht
      kind := by
        intro ref href
        rcases (hmade.has ref).mp href with hnew | hold
        . exact .inr (.inr ⟨cls, by rw [hview, if_pos rfl, hnew]⟩)
        . rw [hmade.id_of_has hold, hlast]
          rcases ht.kind hold with hb | hclass | ⟨other, hother⟩
          . exact .inl hb
          . exact .inr (.inl hclass)
          . refine .inr (.inr ⟨other, ?_⟩)
            rw [hview, if_neg, hother]
            intro heq
            rw [heq, hnone] at hother
            cases hother
      view := by
        intro other view hother
        rw [hview] at hother
        split at hother
        . next heq =>
          injection hother with hother
          rw [← hother, heq, hmade.id_of_has hcls.1, hmade.bases_of_has hcls.1, hmade.id, hmade.bases,
            if_pos rfl, if_pos rfl]
          exact ⟨(hmade.has _).mpr (.inl rfl), hcls.2, rfl, rfl⟩
        . exact hmade.view_kept ht hother
      unique := by
        intro ref other href hother
        apply hmade.unique _ (fun _ _ => ht.unique) href hother
        intro other hother hid
        rw [ht.superView?_of_id hfirst hother hcls hid] at hnone
        cases hnone }

/--
Types that were made by definitions of classes, with bases that were made before, and by looking for the
type that `super` uses in the methods of a class. Members and statics are set in between. Among the types
are `n` classes, which are numbered from after `first`.
-/
inductive Built (first : Int) : Nat → Types → Prop where
  | builtin : Built first 0 (builtin first)
  | newClass {n : Nat} {t : Types} {name : String} {bases : List TypeRef} (h : Built first n t)
      (hbases : ∀ base ∈ bases, t.Has base) : Built first (n + 1) (t.newClass name bases).2
  | superType {n : Nat} {h : Heap} {cls : TypeRef} (ht : Built first n h.types)
      (hcls : h.types.IsClass first cls) : Built first n (h.superType cls).2.types
  | setMember {n : Nat} {t : Types} {ref : TypeRef} {name : String} {value : Value} (h : Built first n t)
      (href : t.Has ref) : Built first n (t.setMember ref name value)
  | setStatic {n : Nat} {t : Types} {ref : TypeRef} {name : String} {value : Value} (h : Built first n t)
      (href : t.Has ref) : Built first n (t.setStatic ref name value)

theorem Built.sound {t : Types} (h : t.Built first n) (hfirst : 13 ≤ first) : t.Sound first n := by
  induction h with
  | builtin => exact builtin_sound first
  | newClass _ hbases ih => exact ih.newClass hfirst _ hbases
  | superType _ hcls ih => exact ih.superType hfirst hcls
  | setMember _ _ ih => exact (setMember_sameGraph _ _ _ _).sound ih
  | setStatic _ _ ih => exact (setStatic_sameGraph _ _ _ _).sound ih

/-- What holds of types that are told apart by their numbers, and of lookups that go to their bases. -/
structure Graph (t : Types) (first : Int) (n : Nat) : Prop where
  distinct (ref other : TypeRef) (href : t.Has ref) (hother : t.Has other) (hid : t.id ref = t.id other)
    : ref = other
  builtin (b : BuiltinType) : t.Has b.ref ∧ t.id b.ref = b.id ∧ 0 ≤ b.id ∧ b.id ≤ 13
  numbered (ref : TypeRef) (href : t.Has ref)
    : (∃ b : BuiltinType, ref = b.ref) ∨ (first < t.id ref ∧ t.id ref ≤ first + n) ∨
        ∃ cls, t.IsClass first cls ∧ t.id ref = -t.id cls
  /-- The numbers have 64 bits. -/
  in_range (hn : first + n < Int64.maxValue.toInt) (ref : TypeRef) (href : t.Has ref)
    : Int64.minValue.toInt ≤ t.id ref ∧ t.id ref ≤ Int64.maxValue.toInt
  /-- What `super` uses in the methods of a class is made once, and it has the bases of the class. -/
  view_iff (cls view : TypeRef) (hcls : t.IsClass first cls)
    : t.superView? cls = some view ↔ t.Has view ∧ t.id view = -t.id cls
  view_bases (cls view : TypeRef) (hview : t.superView? cls = some view) : t.bases view = t.bases cls
  view_kept (h : Heap) (hh : h.types = t) (cls : TypeRef) (hcls : t.IsClass first cls)
    : (h.superType cls).2.superType cls = h.superType cls
  older (ref base : TypeRef) (hbase : base ∈ t.bases ref) : t.Has base ∧ base.index < ref.index
  acyclic : WellFounded fun base ref => base ∈ t.bases ref
  /-- Lookups are recursive in the bases, without a limit on the steps. -/
  findMember? (ref : TypeRef) (name : String)
    : t.findMember? ref name =
        (t.ownMember? ref name).or ((t.bases ref).findSome? fun base => t.findMember? base name)
  find? (x : Extensions) (ref : TypeRef) (name : String)
    : x.find? t ref name =
        (x.get? (t.id ref) name).or ((t.bases ref).findSome? fun base => x.find? t base name)
  isSubOf (ref other : TypeRef)
    : t.isSubOf ref other = (t.id ref == t.id other || (t.bases ref).any fun base => t.isSubOf base other)
  isSubOf_iff (ref other : TypeRef) (href : t.Has ref) (hother : t.Has other)
    : t.isSubOf ref other = true ↔ t.Derives ref other
  isSubOf_refl (ref : TypeRef) : t.isSubOf ref ref = true
  isSubOf_trans (a b c : TypeRef) (ha : t.Has a) (hb : t.Has b) (hc : t.Has c)
    (hab : t.isSubOf a b = true) (hbc : t.isSubOf b c = true) : t.isSubOf a c = true
  isSubOf_antisymm (a b : TypeRef) (ha : t.Has a) (hb : t.Has b) (hab : t.isSubOf a b = true)
    (hba : t.isSubOf b a = true) : a = b

theorem IsClass.superType_kept (hcls : h.types.IsClass first cls) (hfirst : 13 ≤ first)
    : (h.superType cls).2.superType cls = h.superType cls := by
  have hclass := hcls.not_isSuperView hfirst
  cases hnone : h.types.superView? cls with
  | some view => rw [Heap.superType_of_some hclass hnone, Heap.superType_of_some hclass hnone]
  | none =>
    rcases Heap.superType_made hclass hcls.1 hnone with ⟨hmade, hview, _⟩
    have hkept : (h.superType cls).2.types.isSuperView cls = false := by
      unfold isSuperView
      rw [hmade.id_of_has hcls.1]
      exact hclass
    rw [Heap.superType_of_some hkept (by rw [hview, if_pos rfl])]

/--
Types that are made by definitions of classes and by `super` have numbers of their own: 0 to 13 the types
that every engine has, a number above `first` every class, and its negation what `super` uses in the
methods of the class. A type is made after its bases, so looking through the bases ends, and being a
subtype is an order.
-/
theorem Built.ordered_graph {t : Types} (h : t.Built first n) (hfirst : 13 ≤ first) : t.Graph first n := by
  have ht := h.sound hfirst
  have hlast := ht.lastId
  have hiff (ref other : TypeRef) (href : t.Has ref) (hother : t.Has other)
      : t.isSubOf ref other = true ↔ t.Derives ref other :=
    ht.layered.isSubOf_iff (fun _ h hid => ht.unique h hother hid) href
  have hnumbered (ref : TypeRef) (href : t.Has ref)
      : (∃ b : BuiltinType, ref = b.ref) ∨ (first < t.id ref ∧ t.id ref ≤ first + n) ∨
          ∃ cls, t.IsClass first cls ∧ t.id ref = -t.id cls := by
    rw [← hlast]
    rcases ht.kind href with hb | hclass | ⟨cls, hview⟩
    . exact .inl hb
    . exact .inr (.inl hclass)
    . rcases ht.view hview with ⟨_, hlt, hid, _⟩
      exact .inr (.inr ⟨cls, ⟨has_of_superView? hview, hlt⟩, hid⟩)
  exact {
    distinct := fun _ _ href hother hid => ht.unique href hother hid
    builtin := fun b => ⟨(ht.builtin b).1, (ht.builtin b).2, b.id_bounds⟩
    numbered := hnumbered
    in_range := by
      intro hn ref href
      have hmin : Int64.minValue.toInt = -Int64.maxValue.toInt - 1 := by decide
      rcases hnumbered ref href with ⟨b, hb⟩ | hclass | ⟨cls, hcls, hid⟩
      . have hbound := b.id_bounds
        rw [hb, (ht.builtin b).2]
        omega
      . omega
      . have hle := ht.id_le hfirst hcls.1
        have hlt := hcls.2
        omega
    view_iff := by
      intro cls view hcls
      constructor
      . intro hview
        rcases ht.view hview with ⟨hhas, _, hid, _⟩
        exact ⟨hhas, hid⟩
      . intro hview
        exact ht.superView?_of_id hfirst hview.1 hcls hview.2
    view_bases := fun cls view hview => (ht.view hview).2.2.2
    view_kept := by
      intro h hh cls hcls
      rw [← hh] at hcls
      exact hcls.superType_kept hfirst
    older := by
      intro ref base hbase
      have hlt := ht.layered ref base hbase
      exact ⟨Nat.lt_trans hlt (has_of_mem_bases hbase), hlt⟩
    acyclic := ht.layered.wellFounded
    findMember? := ht.layered.findMember?_eq
    find? := ht.layered.find?_eq
    isSubOf := ht.layered.isSubOf_eq
    isSubOf_iff := hiff
    isSubOf_refl := by
      intro ref
      rw [ht.layered.isSubOf_eq]
      simp
    isSubOf_trans := by
      intro a b c ha hb hc hab hbc
      rw [hiff a c ha hc]
      exact ((hiff a b ha hb).mp hab).trans ((hiff b c hb hc).mp hbc)
    isSubOf_antisymm := by
      intro a b ha hb hab hba
      exact ht.layered.derives_antisymm ((hiff a b ha hb).mp hab) ((hiff b a hb ha).mp hba) }

/-- Two classes with the same base, a class with both as bases, and one that derives from what `super` is in it. -/
def diamond : Types :=
  let t := builtin 100000
  let t := (t.newClass "A" []).2
  let t := (t.newClass "B" [⟨13⟩]).2
  let t := (t.newClass "C" [⟨13⟩]).2
  let t := (t.newClass "D" [⟨14⟩, ⟨15⟩]).2
  let t := (Heap.superType { (default : Heap) with types := t } ⟨16⟩).2.types
  (t.newClass "E" [⟨17⟩]).2

theorem diamond_built : diamond.Built 100000 5 := by
  apply Built.newClass
  . apply Built.superType (h := { (default : Heap) with types := _ })
    . apply Built.newClass
      . apply Built.newClass
        . apply Built.newClass
          . exact .newClass .builtin (by decide)
          . decide
        . decide
      . decide
    . exact ⟨by decide, by decide⟩
  . decide

theorem diamond_ordered
    : diamond.Built 100000 5 ∧ (13 : Int) ≤ 100000 ∧ diamond.Graph 100000 5 ∧ diamond.id ⟨17⟩ = -100004 ∧
        diamond.isSubOf ⟨16⟩ ⟨13⟩ = true ∧ diamond.isSubOf ⟨18⟩ ⟨13⟩ = true ∧
        diamond.isSubOf ⟨18⟩ ⟨16⟩ = false :=
  ⟨diamond_built, by decide, diamond_built.ordered_graph (by decide), by decide, by decide, by decide,
    by decide⟩

end Types

namespace HostClass

open ScriptEngine.Types

variable {first : Int} {n : Nat} {s : State} {type : TypeRef}

theorem addMethod_built (name : String) (method : HostMethod) (h : s.heap.types.Built first n)
    (htype : s.heap.types.Has type)
    : ∃ t, addMethod name type method s = .ok () t ∧ t.heap.types.Built first n ∧ t.heap.types.Has type :=
  ⟨_, rfl, .setMember h htype, ((setMember_sameGraph _ _ _ _).has type).mpr htype⟩

theorem addMethods_built (name : String) (methods : List HostMethod) (h : s.heap.types.Built first n)
    (htype : s.heap.types.Has type)
    : ∃ t, methods.forM (addMethod name type) s = .ok () t ∧ t.heap.types.Built first n ∧
        t.heap.types.Has type := by
  induction methods generalizing s with
  | nil => exact ⟨s, rfl, h, htype⟩
  | cons method methods ih =>
    rcases addMethod_built name method h htype with ⟨t, hadd, ht, htype⟩
    rcases ih ht htype with ⟨u, hmore, hu⟩
    refine ⟨u, ?_, hu⟩
    show (addMethod name type method >>= fun _ => methods.forM (addMethod name type)) s = _
    rw [Run.bind_ok hadd, hmore]

theorem setStatics_built {t : Types} (statics : List (String × Value)) (h : t.Built first n) (htype : t.Has type)
    : (t.setStatics type statics).Built first n := by
  induction statics generalizing t with
  | nil => exact h
  | cons e statics ih => exact ih (.setStatic h htype) (((setStatic_sameGraph _ _ _ _).has type).mpr htype)

/-- The host makes a class like a script does. -/
theorem build_built (cls : HostClass) (h : s.heap.types.Built first n)
    (hbases : ∀ base ∈ cls.bases, s.heap.types.Has base)
    : ∃ type t, cls.build s = .ok type t ∧ t.heap.types.Built first (n + 1) := by
  let made : State := { s with heap := (s.heap.newClass cls.name cls.bases).2 }
  have hmade : made.heap.types.Built first (n + 1) := .newClass h hbases
  have htype : made.heap.types.Has (s.heap.newClass cls.name cls.bases).1 :=
    ((newClass_made s.heap.types cls.name cls.bases).has _).mpr (.inl rfl)
  rcases addMethods_built cls.name
      (cls.init.toList.map (fun call => ⟨"__init__", [], .hostInit call⟩) ++ cls.methods) hmade htype
    with ⟨t, hadd, ht, htype⟩
  have halloc : Run.alloc (·.newClass cls.name cls.bases) s =
      .ok (s.heap.newClass cls.name cls.bases).1 made := rfl
  have hbuild : cls.build s = .ok (s.heap.newClass cls.name cls.bases).1
      { t with
        heap :=
          { t.heap with
            types := cls.statics.foldl
              (fun t e => t.setStatic (s.heap.newClass cls.name cls.bases).1 e.1 e.2) t.heap.types } } := by
    unfold build
    rw [Run.bind_ok halloc, Run.bind_ok hadd]
    rfl
  exact ⟨_, _, hbuild, setStatics_built cls.statics ht htype⟩

end HostClass

end ScriptEngine
