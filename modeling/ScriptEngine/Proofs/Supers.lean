import ScriptEngine.Proofs.BoundTypes
import ScriptEngine.Proofs.Callees
import ScriptEngine.Proofs.Lasting

/-!
This module contains what `super` gives in the methods of a class. While a script runs, the types only grow,
and the type that `super` uses in the methods of a class declares nothing but an initialiser. So a member
comes from the object itself or from the bases of the class that the method was declared in, whatever the
class of the object is.
-/

namespace ScriptEngine

namespace Types

variable {first : Int} {n : Nat} {t u : Types} {cls view ref other : TypeRef} {name : String}

/--
What happens to the types while a script runs. Members are set in types that are not those that `super` uses.
-/
inductive Step (first : Int) : Types → Types → Prop where
  | newClass {t : Types} {name : String} {bases : List TypeRef} (hbases : ∀ base ∈ bases, t.Has base)
    : Step first t (t.newClass name bases).2
  | superType {h : Heap} {cls : TypeRef} (hcls : h.types.IsClass first cls)
    : Step first h.types (h.superType cls).2.types
  | setMember {t : Types} {ref : TypeRef} {name : String} {value : Value} (href : t.Has ref)
      (hview : t.isSuperView ref = false)
    : Step first t (t.setMember ref name value)
  | setStatic {t : Types} {ref : TypeRef} {name : String} {value : Value} (href : t.Has ref)
    : Step first t (t.setStatic ref name value)

/-- The types at some point and the types later on. -/
def Grows (first : Int) : Types → Types → Prop := Relation.ReflTransGen (Step first)

/-- Types that a script finds at some point, with classes that are numbered from after `first`. -/
def Defined (first : Int) (t : Types) : Prop := Grows first (builtin first) t

theorem Step.built (h : t.Step first u) (ht : t.Built first n) : ∃ n', u.Built first n' := by
  cases h with
  | newClass hbases => exact ⟨_, .newClass ht hbases⟩
  | superType hcls => exact ⟨_, .superType ht hcls⟩
  | setMember href _ => exact ⟨_, .setMember ht href⟩
  | setStatic href => exact ⟨_, .setStatic ht href⟩

section Steps

variable (hfirst : 13 ≤ first)
include hfirst

theorem Defined.sound (h : t.Defined first) : ∃ n, t.Sound first n := by
  have hbuilt : ∃ n, t.Built first n := by
    induction h with
    | refl => exact ⟨0, .builtin⟩
    | tail _ hstep ih =>
      rcases ih with ⟨n, hn⟩
      exact hstep.built hn
  rcases hbuilt with ⟨n, hn⟩
  exact ⟨n, hn.sound hfirst⟩

theorem Sound.isSuperView (ht : t.Sound first n) (hview : t.superView? cls = some view)
    : t.isSuperView view = true := by
  rcases ht.view hview with ⟨_, hlt, hid, _⟩
  unfold Types.isSuperView
  rw [decide_eq_true_eq, hid]
  omega

theorem Step.viewsServe (h : t.Step first u) (ht : t.Sound first n) (hserve : t.ViewsServe) : u.ViewsServe := by
  cases h with
  | newClass => exact (newClass_extends ..).serve hserve
  | superType => exact (Heap.superType_extends ..).serve hserve
  | @setMember _ ref name value href hplain =>
    intro cls view hview
    have hgraph := setMember_sameGraph t ref name value
    rw [hgraph.superView?] at hview
    apply (hserve cls view hview).congr hgraph
    intro n
    apply ownMember?_setMember_of_ne
    intro heq
    have hsuper := ht.isSuperView hfirst hview
    rw [heq, hplain] at hsuper
    cases hsuper
  | setStatic => exact ((setStatic_sameGraph ..).extends fun _ _ => ownMember?_setStatic ..).serve hserve

theorem Defined.viewsServe (h : t.Defined first) : t.ViewsServe := by
  induction h with
  | refl =>
    intro cls view hview
    rcases eq_ref_of_has_builtin (has_of_superView? hview) with ⟨b, hb⟩
    rw [hb, superView?, node_builtin] at hview
    cases hview
  | tail hgrows hstep ih =>
    rcases Defined.sound hfirst hgrows with ⟨n, hsound⟩
    exact hstep.viewsServe hfirst hsound ih

omit hfirst in
theorem Extends.layeredBelow (h : t.Extends u) (ht : t.Layered) : u.LayeredBelow t.nodes.size := by
  intro ref base href hbase
  rw [h.bases href] at hbase
  exact ht ref base hbase

/-- However many types were made since, a lookup in what `super` uses goes to the bases of the class. -/
theorem Extends.findMember?_view (h : t.Extends u) (ht : t.Defined first) (hcls : t.Has cls)
    (hview : u.superView? cls = some view) (hname : name ≠ "__init__")
    : u.findMember? view name = (u.bases cls).findSome? fun base => u.findMember? base name := by
  rcases ht.sound hfirst with ⟨n, hsound⟩
  have hserves := h.serve (ht.viewsServe hfirst) cls view hview
  have hlayered := h.layeredBelow hsound.layered
  simp only [findMember?_eq_search]
  rw [search, hserves.bare hname, Option.none_or, hserves.bases]
  apply findSome?_congr
  intro base hbase
  have hlt := hlayered cls base hcls hbase
  apply hlayered.search_eq _ (Nat.lt_trans hlt hcls)
  rcases h.fresh hview with hold | hnew
  . apply hsound.layered view
    rw [(hsound.view hold).2.2.2, ← h.bases hcls]
    exact hbase
  . exact Nat.lt_of_lt_of_le (Nat.lt_trans hlt hcls) (Nat.le_of_not_lt hnew)

end Steps

end Types

namespace Heap

variable {first : Int} {h h' : Heap} {handle view : Handle} {owner ref : TypeRef} {name : String}

theorem bindAll_tables (h : Heap) (scope : ScopeRef) (rest : Bool) (names : List String) (values : List Value)
    : h.SameTables (h.bindAll scope rest names values) := by
  fun_induction bindAll h scope rest names values with
  | case1 => exact ⟨rfl, rfl, rfl, rfl⟩
  | case2 => exact ⟨rfl, rfl, rfl, rfl⟩
  | case3 => exact ⟨rfl, rfl, rfl, rfl⟩
  | case4 h name names values _ ih => exact ⟨ih.types, ih.natives, ih.closures, ih.instances⟩

/-- A view changes no tables but those that its type needs. -/
theorem superView_eq (h : Heap) (handle : Handle) (owner : TypeRef)
    : ∃ natives types nextTag, (h.superView handle owner).2 =
        { h with natives := natives, types := types, nextTag := nextTag } := by
  show ∃ natives types nextTag, { (h.superType owner).2 with nextTag := (h.superType owner).2.nextTag + 1 } =
    { h with natives := natives, types := types, nextTag := nextTag }
  unfold superType
  split
  . exact ⟨_, _, _, rfl⟩
  . split
    . exact ⟨_, _, _, rfl⟩
    . exact ⟨_, _, _, rfl⟩

theorem superView_arrays (h : Heap) (handle : Handle) (owner : TypeRef)
    : (h.superView handle owner).2.arrays = h.arrays := by
  rcases h.superView_eq handle owner with ⟨_, _, _, heq⟩
  rw [heq]

/-- A class that `super` is used in has the type for it from then on. -/
theorem superView?_superType (hfirst : 13 ≤ first) (hcls : h.types.IsClass first owner)
    : (h.superType owner).2.types.superView? owner = some (h.superType owner).1 := by
  have hclass := hcls.not_isSuperView hfirst
  cases hnone : h.types.superView? owner with
  | some view =>
    rw [superType_of_some hclass hnone]
    exact hnone
  | none =>
    rw [(superType_made hclass hcls.1 hnone).2.1, if_pos rfl]

/-- Whether `view` is what `super` stands for in a method of `owner` that was called on `handle`. -/
def IsSuper (h : Heap) (view handle : Handle) (owner : TypeRef) : Prop :=
  ∃ tag type, view = ⟨handle.real, some ⟨tag, type⟩⟩ ∧ h.types.superView? owner = some type

theorem superView_isSuper (hfirst : 13 ≤ first) (hcls : h.types.IsClass first owner) (handle : Handle)
    : (h.superView handle owner).2.IsSuper (h.superView handle owner).1 handle owner :=
  ⟨_, _, rfl, superView?_superType hfirst hcls⟩

theorem IsSuper.extends (hview : h.IsSuper view handle owner) (hext : h.types.Extends h'.types)
    : h'.IsSuper view handle owner := by
  rcases hview with ⟨tag, type, heq, htype⟩
  exact ⟨tag, type, heq, hext.view htype⟩

/--
What `super` gives in a method of `owner` that was called on `handle`: the member that the object has itself,
or else the first one in the bases of the class, depth first and from left to right.
-/
def superMember? (h : Heap) (handle : Handle) (owner : TypeRef) (name : String) : Option Value :=
  ((h.members handle).get? name).or
    ((h.types.bases owner).findSome? fun base => h.types.findMember? base name)

theorem IsSuper.member?_eq {t : Types} (hview : h.IsSuper view handle owner) (hfirst : 13 ≤ first)
    (hdefined : t.Defined first) (hext : t.Extends h.types) (howner : t.Has owner) (hname : name ≠ "__init__")
    : h.member? view name = h.superMember? handle owner name := by
  rcases hview with ⟨tag, type, heq, htype⟩
  rw [heq]
  have hmembers : h.members ⟨handle.real, some ⟨tag, type⟩⟩ = h.members handle := members_congr rfl
  have hfound := hext.findMember?_view hfirst hdefined howner htype hname
  unfold member? superMember?
  rw [hmembers]
  cases (h.members handle).get? name with
  | some member => rfl
  | none =>
    rw [Option.none_or]
    exact hfound

end Heap

namespace Run

variable {first : Int} {closure : Closure} {owner : TypeRef} {handle : Handle} {args : List Value} {s : State}

/-- When a method of a class is called, the class gets the type that `super` uses, and the scope is filled. -/
theorem callScope_tables {scope : ScopeRef} {t : State} (hown : closure.owner = some owner)
    (hused : ownerInUse closure owner handle args (s.opened closure) = .ok true (s.opened closure))
    (hscope : callScope closure (.object handle) args s = .ok scope t)
    : t.context = s.context ∧ t.world = s.world ∧
        ((s.opened closure).heap.superView handle owner).2.SameTables t.heap := by
  rw [callScope_eq (bindReceiver_apply _ hown hused)] at hscope
  injection hscope with _ ht
  rw [← ht]
  refine ⟨rfl, rfl, Heap.SameTables.trans ?_ (Heap.bindAll_tables ..)⟩
  exact ⟨rfl, rfl, rfl, rfl⟩

theorem callScope_keeps {this : Value} {scope : ScopeRef} {t : State}
    (hscope : callScope closure this args s = .ok scope t)
    : s.heap.Keeps t.heap := by
  rcases callScope_opensScope closure this args s with ⟨a, heap, hopens, _, hkeeps⟩
  rw [hscope] at hopens
  injection hopens with _ ht
  rw [ht]
  exact hkeeps

end Run

namespace Machine

variable {m m' : Machine} {e : Expr} {handle : Handle} {name : String} {member : Value} {s t : State}

theorem eval_ident {value : Value} (hm : ∀ e, m'.eval e = Run.lettingGo (m.evalExpr e))
    (hlookup : s.heap.scopes.lookup? s.scope name = some value)
    : m'.eval (.ident name) s = .ok value s := by
  have hvalue : Run.lookup name s = .ok value s := by
    show EStateM.Result.ok ((s.heap.scopes.lookup? s.scope name).getD .undefined) s = _
    rw [hlookup]
    rfl
  rw [hm]
  unfold evalExpr Run.lettingGo
  dsimp only
  rw [hvalue]

/-- A member is read from the object that an expression gives, and bound to it if it can be called. -/
theorem eval_member (hm : ∀ e, m'.eval e = Run.lettingGo (m.evalExpr e))
    (he : m.eval e s = .ok (.object handle) t) (hheld : t.held = s.held)
    (hmember : t.heap.member? handle name = some member)
    : (member.isCallableKind = true →
        m'.eval (.member e name) s =
          .ok (.bound t.heap.nextTag (.object handle) member) (t.withTag (t.heap.nextTag + 1))) ∧
      (member.isCallableKind = false → m'.eval (.member e name) s = .ok member t) := by
  have hreceiver : m.evalHeld e s = .ok (.object handle) (t.holding (.object handle)) := by
    unfold evalHeld
    rw [Run.bind_ok he]
    rfl
  have hread : m.evalExpr (.member e name) s =
      Run.makeMember (.object handle) member (t.holding (.object handle)) := by
    unfold evalExpr
    dsimp only
    rw [Run.bind_ok hreceiver]
    exact getMember_found hmember
  rw [hm]
  unfold Run.lettingGo
  rw [hread, ← hheld]
  unfold Run.makeMember
  constructor
  . intro hkind
    rw [if_pos hkind]
    rfl
  . intro hkind
    rw [if_neg (by rw [hkind]; nofun)]
    rfl

end Machine

end ScriptEngine
