import ScriptEngine.Proofs.Members
import ScriptEngine.Proofs.Objects
import ScriptEngine.Proofs.TypeGraph

/-!
This module contains what stays in the heap for good. A type keeps its number, its bases, and what it declares, and a
function is what it was when it was made, whatever else is made or changed. The types that `super` uses are new ones,
and declare nothing but an initialiser.
-/

namespace ScriptEngine

namespace Types

variable {first : Int} {n : Nat} {t u v : Types} {cls view ref other : TypeRef} {name : String}

section Declared

theorem ownMember?_add (t : Types) (node : TypeNode) (ref : TypeRef) (name : String)
    : (t.add node).2.ownMember? ref name =
        if ref = (t.add node).1 then node.members.get? name else t.ownMember? ref name := by
  unfold ownMember?
  rw [node_add]
  split <;> rfl

theorem ownMember?_newClass (t : Types) (name : String) (bases : List TypeRef) (ref : TypeRef) (n : String)
    : (t.newClass name bases).2.ownMember? ref n =
        if ref = (t.newClass name bases).1 then none else t.ownMember? ref n :=
  ownMember?_add { t with lastId := t.lastId + 1 } (.new (t.lastId + 1) name _) ref n

theorem ownMember?_setMember (t : Types) (ref other : TypeRef) (name n : String) (value : Value)
    : (t.setMember ref name value).ownMember? other n =
        if other = ref ∧ t.Has ref then (Members.set (t.node other).members name value).get? n
        else t.ownMember? other n := by
  unfold ownMember? setMember
  rw [node_modify]
  split
  . rfl
  . rfl

theorem ownMember?_setMember_of_ne (hne : other ≠ ref) (t : Types) (name n : String) (value : Value)
    : (t.setMember ref name value).ownMember? other n = t.ownMember? other n := by
  rw [ownMember?_setMember, if_neg fun h => hne h.1]

theorem ownMember?_setMember_of_name_ne {n : String} (hn : n ≠ name) (t : Types) (ref other : TypeRef)
    (value : Value)
    : (t.setMember ref name value).ownMember? other n = t.ownMember? other n := by
  rw [ownMember?_setMember, Members.get?_set, if_neg hn]
  split <;> rfl

theorem ownMember?_setStatic (t : Types) (ref other : TypeRef) (name n : String) (value : Value)
    : (t.setStatic ref name value).ownMember? other n = t.ownMember? other n := by
  unfold ownMember? setStatic
  rw [node_modify]
  split
  . rfl
  . rfl

theorem ownMember?_setSuperView (t : Types) (ref view other : TypeRef) (n : String)
    : (t.setSuperView ref view).ownMember? other n = t.ownMember? other n := by
  unfold ownMember? setSuperView
  rw [node_modify]
  split
  . rfl
  . rfl

end Declared

/-- A type that `super` can use in the methods of a class. -/
structure Serves (t : Types) (view cls : TypeRef) : Prop where
  has : t.Has view
  bases : t.bases view = t.bases cls
  bare {name : String} (hname : name ≠ "__init__") : t.ownMember? view name = none

/-- What `super` uses in the methods of a class has the bases of the class, and declares only an initialiser. -/
def ViewsServe (t : Types) : Prop := ∀ cls view, t.superView? cls = some view → t.Serves view cls

/-- What stays of the types, however many more are made. -/
structure Extends (t u : Types) : Prop where
  has {ref : TypeRef} (h : t.Has ref) : u.Has ref
  id {ref : TypeRef} (h : t.Has ref) : u.id ref = t.id ref
  bases {ref : TypeRef} (h : t.Has ref) : u.bases ref = t.bases ref
  view {cls view : TypeRef} (h : t.superView? cls = some view) : u.superView? cls = some view
  /-- A type that comes to be used by `super` is a new one. -/
  fresh {cls view : TypeRef} (h : u.superView? cls = some view) : t.superView? cls = some view ∨ ¬t.Has view
  serve (h : t.ViewsServe) : u.ViewsServe

theorem Extends.refl (t : Types) : t.Extends t := ⟨fun h => h, fun _ => rfl, fun _ => rfl, fun h => h, .inl, fun h => h⟩

theorem Extends.trans (htu : t.Extends u) (huv : u.Extends v) : t.Extends v where
  has h := huv.has (htu.has h)
  id h := (huv.id (htu.has h)).trans (htu.id h)
  bases h := (huv.bases (htu.has h)).trans (htu.bases h)
  view h := huv.view (htu.view h)
  fresh h := by
    rcases huv.fresh h with hold | hnew
    . exact htu.fresh hold
    . exact .inr fun hhas => hnew (htu.has hhas)
  serve h := huv.serve (htu.serve h)

theorem IsClass.extends (hcls : t.IsClass first cls) (h : t.Extends u) : u.IsClass first cls := by
  refine ⟨h.has hcls.1, ?_⟩
  rw [h.id hcls.1]
  exact hcls.2

/-- What members are set in other types does not matter. -/
theorem Serves.congr (h : t.Serves view cls) (hgraph : t.SameGraph u)
    (hown : ∀ name, u.ownMember? view name = t.ownMember? view name)
    : u.Serves view cls where
  has := (hgraph.has view).mpr h.has
  bases := by
    rw [hgraph.bases, hgraph.bases]
    exact h.bases
  bare hname := (hown _).trans (h.bare hname)

theorem Made.serves {id : Int} {bases : List TypeRef} (hmade : t.Made u ref id bases) (h : t.Serves view cls)
    (hcls : t.Has cls) (hown : ∀ other name, t.Has other → u.ownMember? other name = t.ownMember? other name)
    : u.Serves view cls where
  has := (hmade.has view).mpr (.inr h.has)
  bases := by
    rw [hmade.bases_of_has h.has, hmade.bases_of_has hcls]
    exact h.bases
  bare hname := (hown view _ h.has).trans (h.bare hname)

theorem SameGraph.extends (h : t.SameGraph u) (hown : ∀ view name, u.ownMember? view name = t.ownMember? view name)
    : t.Extends u where
  has href := (h.has _).mpr href
  id _ := h.id _
  bases _ := h.bases _
  view hview := (h.superView? _).trans hview
  fresh hview := .inl ((h.superView? _).symm.trans hview)
  serve hserve cls view hview := (hserve cls view ((h.superView? _).symm.trans hview)).congr h (hown view)

theorem ownMember?_newClass_of_has (href : t.Has ref) (name : String) (bases : List TypeRef) (n : String)
    : (t.newClass name bases).2.ownMember? ref n = t.ownMember? ref n := by
  rw [ownMember?_newClass, if_neg ((newClass_made t name bases).ne href)]

theorem newClass_extends (t : Types) (name : String) (bases : List TypeRef) : t.Extends (t.newClass name bases).2 where
  has h := ((newClass_made t name bases).has _).mpr (.inr h)
  id h := (newClass_made t name bases).id_of_has h
  bases h := (newClass_made t name bases).bases_of_has h
  view h := (superView?_newClass ..).trans h
  fresh h := .inl ((superView?_newClass ..).symm.trans h)
  serve hserve cls view hview := by
    rw [superView?_newClass] at hview
    apply (newClass_made t name bases).serves (hserve cls view hview) (has_of_superView? hview)
    intro other n hother
    exact ownMember?_newClass_of_has hother ..

theorem setMembers_sameGraph (t : Types) (ref : TypeRef) (entries : List (String × Value))
    : t.SameGraph (t.setMembers ref entries) := by
  induction entries generalizing t with
  | nil => exact .refl t
  | cons e entries ih => exact (setMember_sameGraph t ref e.1 e.2).trans (ih _)

theorem ownMember?_setMembers_of_ne (hne : other ≠ ref) (t : Types) (entries : List (String × Value)) (n : String)
    : (t.setMembers ref entries).ownMember? other n = t.ownMember? other n := by
  induction entries generalizing t with
  | nil => rfl
  | cons e entries ih => exact (ih _).trans (ownMember?_setMember_of_ne hne t e.1 n e.2)

theorem setStatics_sameGraph (t : Types) (ref : TypeRef) (entries : List (String × Value))
    : t.SameGraph (t.setStatics ref entries) := by
  induction entries generalizing t with
  | nil => exact .refl t
  | cons e entries ih => exact (setStatic_sameGraph t ref e.1 e.2).trans (ih _)

theorem ownMember?_setStatics (t : Types) (ref other : TypeRef) (entries : List (String × Value)) (n : String)
    : (t.setStatics ref entries).ownMember? other n = t.ownMember? other n := by
  induction entries generalizing t with
  | nil => rfl
  | cons e entries ih => exact (ih _).trans (ownMember?_setStatic t ref other e.1 n e.2)

/-- A class gets its members after it was made. Nothing uses it as what `super` is in the methods of a class. -/
theorem newClass_setMembers_extends {name : String} {bases : List TypeRef} (h : (t.newClass name bases).2.Extends u)
    (members : List (String × Value))
    : t.Extends (u.setMembers (t.newClass name bases).1 members) := by
  have hmade := newClass_made t name bases
  have hgraph := setMembers_sameGraph u (t.newClass name bases).1 members
  have hlater := (newClass_extends t name bases).trans h
  exact {
    has := fun href => (hgraph.has _).mpr (hlater.has href)
    id := fun href => (hgraph.id _).trans (hlater.id href)
    bases := fun href => (hgraph.bases _).trans (hlater.bases href)
    view := fun hview => (hgraph.superView? _).trans (hlater.view hview)
    fresh := fun hview => hlater.fresh ((hgraph.superView? _).symm.trans hview)
    serve := by
      intro hserve cls view hview
      rw [hgraph.superView?] at hview
      have hne : view ≠ (t.newClass name bases).1 := by
        intro heq
        rcases h.fresh hview with hold | hnew
        . rw [superView?_newClass, heq] at hold
          exact hmade.not_has (hserve _ _ hold).has
        . apply hnew
          rw [heq]
          exact (hmade.has _).mpr (.inl rfl)
      exact (hlater.serve hserve cls view hview).congr hgraph (ownMember?_setMembers_of_ne hne u members) }

end Types

namespace Heap

variable {first : Int} {h h' h'' : Heap} {cls view ref : TypeRef} {handle : Handle}

theorem superType_of_isSuperView (hview : h.types.isSuperView cls = true) : h.superType cls = (cls, h) := if_pos hview

/-- The type that `super` gets in the methods of a class declares an initialiser. -/
theorem ownMember?_superType (hclass : h.types.isSuperView cls = false) (hnone : h.types.superView? cls = none)
    (ref : TypeRef) (name : String)
    : ref = (h.superType cls).1 ∧ (name ≠ "__init__" → (h.superType cls).2.types.ownMember? ref name = none) ∨
        ref ≠ (h.superType cls).1 ∧
          (h.superType cls).2.types.ownMember? ref name = h.types.ownMember? ref name := by
  rcases superType_of_none hclass hnone with ⟨text, init, hview, htypes⟩
  rw [hview, htypes, Types.ownMember?_setSuperView]
  let node := TypeNode.new (-h.types.id cls) text (h.types.bases cls)
  by_cases heq : ref = ⟨h.types.nodes.size⟩
  . refine .inl ⟨heq, ?_⟩
    intro hname
    rw [Types.ownMember?_setMember_of_name_ne hname]
    exact (Types.ownMember?_add h.types node ref name).trans (if_pos heq)
  . refine .inr ⟨heq, ?_⟩
    rw [Types.ownMember?_setMember_of_ne heq]
    exact (Types.ownMember?_add h.types node ref name).trans (if_neg heq)

/-- What the types that there are declare does not change when `super` is used. -/
theorem ownMember?_superType_of_has (href : h.types.Has ref) (cls : TypeRef) (name : String)
    : (h.superType cls).2.types.ownMember? ref name = h.types.ownMember? ref name := by
  cases hclass : h.types.isSuperView cls with
  | true => rw [superType_of_isSuperView hclass]
  | false =>
    cases hnone : h.types.superView? cls with
    | some view => rw [superType_of_some hclass hnone]
    | none =>
      rcases ownMember?_superType hclass hnone ref name with ⟨heq, _⟩ | ⟨_, hown⟩
      . exact absurd heq ((superType_adds hclass hnone).1.ne href)
      . exact hown

/-- Before the methods of a class use `super`, the class gets the type for it. -/
theorem superType_extends (h : Heap) (cls : TypeRef) : h.types.Extends (h.superType cls).2.types := by
  cases hclass : h.types.isSuperView cls with
  | true =>
    rw [superType_of_isSuperView hclass]
    exact .refl _
  | false =>
    cases hnone : h.types.superView? cls with
    | some view =>
      rw [superType_of_some hclass hnone]
      exact .refl _
    | none =>
      rcases superType_adds hclass hnone with ⟨hmade, hviews, _⟩
      exact {
        has := fun href => (hmade.has _).mpr (.inr href)
        id := hmade.id_of_has
        bases := hmade.bases_of_has
        view := by
          intro other view hview
          rw [hviews, if_neg, hview]
          rintro ⟨heq, _⟩
          rw [heq, hnone] at hview
          cases hview
        fresh := by
          intro other view hview
          rw [hviews] at hview
          split at hview
          . injection hview with hview
            rw [← hview]
            exact .inr hmade.not_has
          . exact .inl hview
        serve := by
          intro hserve other view hview
          rw [hviews] at hview
          split at hview
          . next heq =>
            injection hview with hview
            rw [← hview, heq.1]
            exact {
              has := (hmade.has _).mpr (.inl rfl)
              bases := by
                rw [hmade.bases, if_pos rfl, hmade.bases]
                split <;> rfl
              bare := by
                intro name hname
                rcases ownMember?_superType hclass hnone (h.superType cls).1 name with ⟨_, hown⟩ | ⟨hne, _⟩
                . exact hown hname
                . exact absurd rfl hne }
          . apply hmade.serves (hserve other view hview) (Types.has_of_superView? hview)
            intro ref name href
            exact ownMember?_superType_of_has href cls name }

/-- Functions that are not written in the script stay what they are, and more of them are made. -/
def KeepsNatives (h h' : Heap) : Prop :=
  ∀ ref : NativeRef, ref.index < h.natives.size → ref.index < h'.natives.size ∧ h'.native ref = h.native ref

namespace KeepsNatives

theorem of_eq (hnatives : h'.natives = h.natives) : h.KeepsNatives h' := by
  intro ref href
  unfold native
  rw [hnatives]
  exact ⟨href, rfl⟩

theorem trans (h1 : h.KeepsNatives h') (h2 : h'.KeepsNatives h'') : h.KeepsNatives h'' := by
  intro ref href
  rcases h1 ref href with ⟨href', hnative⟩
  rcases h2 ref href' with ⟨href'', hnative'⟩
  exact ⟨href'', hnative'.trans hnative⟩

theorem newNative (h : Heap) (native : Native) : h.KeepsNatives (h.newNative native).2 := by
  intro ref href
  unfold Heap.newNative Heap.native
  rw [Array.getD_eq_getD_getElem?, Array.getElem?_push_lt href, Array.size_push]
  exact ⟨Nat.lt_succ_of_lt href, by rw [Array.getD_eq_getD_getElem?, Array.getElem?_eq_getElem href]⟩

end KeepsNatives

/-- What stays in the heap while a script runs. -/
structure Keeps (h h' : Heap) : Prop where
  types : h.types.Extends h'.types
  declared {ref : TypeRef} (href : h.types.Has ref) (name : String)
    : h'.types.ownMember? ref name = h.types.ownMember? ref name
  natives : h.KeepsNatives h'
  closure {ref : ClosureRef} (href : ref.index < h.closures.size)
    : ref.index < h'.closures.size ∧ h'.closure ref = h.closure ref
  type {handle : Handle} (hholds : h.Holds handle)
    : h'.Holds handle ∧ (h'.inst handle).type = (h.inst handle).type

theorem Keeps.trans (h1 : h.Keeps h') (h2 : h'.Keeps h'') : h.Keeps h'' where
  types := h1.types.trans h2.types
  declared href name := by rw [h2.declared (h1.types.has href), h1.declared href]
  natives := h1.natives.trans h2.natives
  closure href := by
    rcases h1.closure href with ⟨href', heq⟩
    rcases h2.closure href' with ⟨href'', heq'⟩
    exact ⟨href'', heq'.trans heq⟩
  type hholds := by
    rcases h1.type hholds with ⟨hholds', heq⟩
    rcases h2.type hholds' with ⟨hholds'', heq'⟩
    exact ⟨hholds'', heq'.trans heq⟩

/-- Heaps with the same types, functions and objects. -/
structure SameTables (h h' : Heap) : Prop where
  types : h'.types = h.types
  natives : h'.natives = h.natives
  closures : h'.closures = h.closures
  instances : h'.instances = h.instances

theorem SameTables.trans (h1 : h.SameTables h') (h2 : h'.SameTables h'') : h.SameTables h'' where
  types := h2.types.trans h1.types
  natives := h2.natives.trans h1.natives
  closures := h2.closures.trans h1.closures
  instances := h2.instances.trans h1.instances

namespace Keeps

/-- A change of the types alone. -/
theorem ofTypes {types : Types} (hextends : h.types.Extends types)
    (hdeclared : ∀ ref name, h.types.Has ref → types.ownMember? ref name = h.types.ownMember? ref name)
    : h.Keeps { h with types := types } where
  types := hextends
  declared href name := hdeclared _ name href
  natives := .of_eq rfl
  closure href := ⟨href, rfl⟩
  type hholds := ⟨hholds, rfl⟩

theorem ofSame (hsame : h.SameTables h') : h.Keeps h' where
  types := by
    rw [hsame.types]
    exact .refl _
  declared _ _ := by rw [hsame.types]
  natives := .of_eq hsame.natives
  closure href := by
    unfold Heap.closure
    rw [hsame.closures]
    exact ⟨href, rfl⟩
  type hholds := by
    unfold Holds inst at *
    rw [hsame.instances]
    exact ⟨hholds, rfl⟩

theorem refl (h : Heap) : h.Keeps h := ofSame ⟨rfl, rfl, rfl, rfl⟩

theorem newNative (h : Heap) (native : Native) : h.Keeps (h.newNative native).2 :=
  { refl h with natives := .newNative h native }

theorem newClosure (h : Heap) (closure : Closure) : h.Keeps (h.newClosure closure).2 :=
  { refl h with
    closure := by
      intro ref href
      unfold Heap.newClosure Heap.closure
      rw [Array.getD_eq_getD_getElem?, Array.getElem?_push_lt href, Array.size_push]
      exact ⟨Nat.lt_succ_of_lt href, by rw [Array.getD_eq_getD_getElem?, Array.getElem?_eq_getElem href]⟩ }

theorem newInstance (h : Heap) (type : TypeRef) (members : Members) : h.Keeps (h.newInstance type members).2 :=
  { refl h with
    type := by
      intro handle hholds
      unfold Heap.newInstance Holds inst at *
      rw [Array.getD_eq_getD_getElem?, Array.getElem?_push_lt hholds, Array.size_push]
      exact ⟨Nat.lt_succ_of_lt hholds, by rw [Array.getD_eq_getD_getElem?, Array.getElem?_eq_getElem hholds]⟩ }

/-- An object whose members or whose reserved value change keeps its type. -/
theorem modifyInstance (h : Heap) (index : Nat) {f : Instance → Instance} (hf : ∀ i, (f i).type = i.type)
    : h.Keeps { h with instances := h.instances.modify index f } :=
  { refl h with
    type := by
      intro handle hholds
      unfold Holds inst at *
      rw [Array.size_modify, Array.getD_eq_getD_getElem?, Array.getD_eq_getD_getElem?, Array.getElem?_modify]
      refine ⟨hholds, ?_⟩
      split
      . rw [Array.getElem?_eq_getElem hholds]
        exact hf _
      . rfl }

theorem setMember (h : Heap) (handle : Handle) (name : String) (value : Value)
    : h.Keeps (h.setMember handle name value) :=
  modifyInstance h _ fun _ => rfl

theorem setReserved (h : Heap) (handle : Handle) (payload : Payload) : h.Keeps (h.setReserved handle payload) :=
  modifyInstance h _ fun _ => rfl

theorem setStatics (h : Heap) (ref : TypeRef) (statics : List (String × Value))
    : h.Keeps { h with types := h.types.setStatics ref statics } := by
  have hown (other : TypeRef) (name : String) := Types.ownMember?_setStatics h.types ref other statics name
  exact ofTypes ((Types.setStatics_sameGraph ..).extends hown) fun other name _ => hown other name

theorem superType (h : Heap) (cls : TypeRef) : h.Keeps (h.superType cls).2 :=
  { refl h with
    types := superType_extends h cls
    declared := fun href name => ownMember?_superType_of_has href cls name
    natives := by
      unfold Heap.superType
      split
      . exact .of_eq rfl
      . split
        . exact .of_eq rfl
        . exact .newNative h _
    closure := by
      intro ref href
      unfold Heap.superType
      split
      . exact ⟨href, rfl⟩
      . split
        . exact ⟨href, rfl⟩
        . exact ⟨href, rfl⟩
    type := by
      intro handle hholds
      unfold Heap.superType
      split
      . exact ⟨hholds, rfl⟩
      . split
        . exact ⟨hholds, rfl⟩
        . exact ⟨hholds, rfl⟩ }

theorem superView (h : Heap) (handle : Handle) (owner : TypeRef) : h.Keeps (h.superView handle owner).2 :=
  (superType h owner).trans (ofSame ⟨rfl, rfl, rfl, rfl⟩)

theorem newClass (h : Heap) (name : String) (bases : List TypeRef) : h.Keeps (h.newClass name bases).2 :=
  ofTypes (Types.newClass_extends h.types name bases) fun _ n href => Types.ownMember?_newClass_of_has href name bases n

/-- A class is a new type until its members are set, so that nothing changes in the types that were there before. -/
theorem declare {name : String} {bases : List TypeRef} (hkeeps : (h.newClass name bases).2.Keeps h')
    (members : List (String × Value))
    : h.Keeps { h' with types := h'.types.setMembers (h.newClass name bases).1 members } :=
  have hlater := (newClass h name bases).trans hkeeps
  { hlater with
    types := Types.newClass_setMembers_extends hkeeps.types members
    declared := by
      intro ref href n
      rw [← hlater.declared href]
      exact Types.ownMember?_setMembers_of_ne ((Types.newClass_made h.types name bases).ne href) h'.types members n }

end Keeps

end Heap

end ScriptEngine
