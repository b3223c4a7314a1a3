import ScriptEngine.Proofs.Callees
import ScriptEngine.Proofs.Keywords
import ScriptEngine.Proofs.TypeGraph

/-!
This module contains the two ways in which members of values are looked up: for an operator that a type overrides,
and for an access that a script spells out. Both go through the members of the value itself, those of its type and
all bases, and those that scripts added to these types, and both find the same. The order in which types are gone
through is the same everywhere, and a type is among them if the value's type is a subtype of it.
-/

namespace ScriptEngine

namespace Types

variable {t : Types} {ref other : TypeRef} {α : Type}

def preorder.go (t : Types) : Nat → TypeRef → List TypeRef
  | 0, _ => []
  | fuel + 1, ref => ref :: (t.bases ref).flatMap fun base => go t fuel base

/-- A type and everything that is reached from it through bases, depth first and from left to right. -/
def preorder (t : Types) (ref : TypeRef) : List TypeRef := preorder.go t (ref.index + 1) ref

/-- A search finds the first of what the types have, in the order in which it goes through them. -/
theorem search_eq_findSome? (t : Types) (own : TypeRef → Option α) (fuel : Nat) (ref : TypeRef)
    : t.search own fuel ref = (preorder.go t fuel ref).findSome? own := by
  induction fuel generalizing ref with
  | zero => rfl
  | succ fuel ih =>
    have hbases (bases : List TypeRef) : (bases.findSome? fun base => t.search own fuel base) =
        (bases.flatMap fun base => preorder.go t fuel base).findSome? own := by
      induction bases with
      | nil => rfl
      | cons base bases ih' =>
        rw [List.findSome?_cons, List.flatMap_cons, List.findSome?_append, ih, ih']
        cases (preorder.go t fuel base).findSome? own <;> rfl
    rw [search, preorder.go, List.findSome?_cons, hbases]
    cases own ref <;> rfl

theorem findMember?_eq_findSome? (t : Types) (ref : TypeRef) (name : String)
    : t.findMember? ref name = (t.preorder ref).findSome? (t.ownMember? · name) := by
  rw [findMember?_eq_search, search_eq_findSome?]
  rfl

theorem find?_eq_findSome? (x : Extensions) (t : Types) (ref : TypeRef) (name : String)
    : x.find? t ref name = (t.preorder ref).findSome? fun type => x.get? (t.id type) name := by
  rw [find?_eq_search, search_eq_findSome?]
  rfl

theorem isSubOf_eq_any (t : Types) (ref other : TypeRef)
    : t.isSubOf ref other = (t.preorder ref).any fun type => t.id type = t.id other := by
  rw [isSubOf_eq_search, search_eq_findSome?, List.isSome_findSome?]
  congr 1
  funext type
  split
  . next hid => rw [decide_eq_true hid, Option.isSome_some]
  . next hid => rw [decide_eq_false hid, Option.isSome_none]

theorem Layered.go_eq (ht : t.Layered) {fuel : Nat} (h : ref.index < fuel)
    : preorder.go t fuel ref = t.preorder ref := by
  -- As in a search, no more steps are taken than there are types before it.
  induction fuel using Nat.strongRecOn generalizing ref with
  | ind fuel ih =>
    cases fuel with
    | zero => omega
    | succ fuel =>
      unfold preorder preorder.go
      congr 1
      apply List.flatMap_congr
      intro base hbase
      have hlt := ht ref base hbase
      rw [ih fuel (by omega) (by omega)]
      by_cases hfuel : ref.index = fuel
      . rw [hfuel, ih fuel (by omega) (by omega)]
      . rw [ih ref.index (by omega) hlt]

theorem Layered.preorder_eq (ht : t.Layered) (ref : TypeRef)
    : t.preorder ref = ref :: (t.bases ref).flatMap t.preorder := by
  unfold preorder preorder.go
  congr 1
  apply List.flatMap_congr
  intro base hbase
  exact ht.go_eq (ht ref base hbase)

theorem Layered.index_le (ht : t.Layered) (h : other ∈ t.preorder ref) : other.index ≤ ref.index := by
  induction hindex : ref.index using Nat.strongRecOn generalizing ref with
  | ind index ih =>
    rw [ht.preorder_eq, List.mem_cons, List.mem_flatMap] at h
    rcases h with heq | ⟨base, hbase, h⟩
    . rw [heq, hindex]
    . have hlt := ht ref base hbase
      have hle := ih base.index (by omega) h rfl
      omega

/-- The subtypes of a type are those in whose order it occurs. -/
theorem Sound.isSubOf_iff_mem {first : Int} {n : Nat} (ht : t.Sound first n) (href : t.Has ref) (hother : t.Has other)
    : t.isSubOf ref other = true ↔ other ∈ t.preorder ref := by
  rw [isSubOf_eq_any, List.any_eq_true]
  constructor
  . intro ⟨type, hmem, hid⟩
    have htype : t.Has type := Nat.lt_of_le_of_lt (ht.layered.index_le hmem) href
    rw [ht.unique hother htype (of_decide_eq_true hid).symm]
    exact hmem
  . intro hmem
    exact ⟨other, hmem, decide_eq_true rfl⟩

end Types

namespace Extensions

variable {x : Extensions} {id : Int} {name : String}

/-- The table after members were added to types one after the other. -/
def addAll (x : Extensions) (added : List ((Int × String) × Value)) : Extensions :=
  added.foldl (fun x e => x.insert e.1.1 e.1.2 e.2) x

theorem get?_insert (x : Extensions) (key : Int × String) (value : Value) (id : Int) (name : String)
    : (x.insert key.1 key.2 value).get? id name = if key = (id, name) then some value else x.get? id name := by
  have hrest : ∀ entries : List ((Int × String) × Value), key ≠ (id, name) →
      (entries.filter fun e => e.1 != key).lookup (id, name) = entries.lookup (id, name) := by
    intro entries hne
    induction entries with
    | nil => rfl
    | cons e entries ih =>
      rw [List.filter_cons, List.lookup_cons]
      split
      . rw [List.lookup_cons, ih]
      . next heq =>
        have heq : e.1 = key := by simpa using heq
        rw [ih, heq, beq_false_of_ne (Ne.symm hne)]
  unfold insert get?
  rw [List.lookup_cons]
  by_cases heq : key = (id, name)
  . rw [if_pos heq, heq, beq_self_eq_true]
  . rw [if_neg heq, beq_false_of_ne (Ne.symm heq)]
    exact hrest x.entries heq

/-- Of the members that were added to a type under one name, the last one counts. -/
theorem get?_addAll (x : Extensions) (added : List ((Int × String) × Value)) (id : Int) (name : String)
    : (x.addAll added).get? id name = (lastUnder? added (id, name)).or (x.get? id name) := by
  induction added generalizing x with
  | nil => rfl
  | cons e added ih =>
    have hadd : x.addAll (e :: added) = (x.insert e.1.1 e.1.2 e.2).addAll added := rfl
    rw [hadd, ih, get?_insert, lastUnder?_cons, Option.or_assoc]
    congr 1
    split
    . rfl
    . rfl

end Extensions

namespace Heap

/-- The member that is found in a value itself. -/
def own? (h : Heap) : Value → String → Option Value
  | .object handle, name => (h.members handle).get? name
  | _, _ => none

/-- The first member that one of a type and its bases declares, or else the first one that was added to one of them. -/
def inherited? (h : Heap) (x : Extensions) (type : TypeRef) (name : String) : Option Value :=
  ((h.types.preorder type).findSome? fun t => h.types.ownMember? t name).or
    ((h.types.preorder type).findSome? fun t => x.get? (h.types.id t) name)

/-- The definition of a member: the one that a value has itself, or else the one that its type passes on to it. -/
def definition? (h : Heap) (x : Extensions) (owner : Value) (name : String) : Option Value :=
  (h.own? owner name).or (h.inherited? x (h.typeOf owner) name)

end Heap

section Lookups

variable {m : Machine} {s : State} {owner : Value} {name : String}

theorem ownMember?_apply (owner : Value) (name : String) (s : State)
    : Run.ownMember? owner name s = .ok (s.heap.own? owner name) s := by
  cases owner with
  | object handle => rfl
  | _ => rfl

theorem typeMember?_apply (type : TypeRef) (name : String) (s : State)
    : Run.typeMember? type name s =
        .ok ((s.heap.types.preorder type).findSome? fun t => s.heap.types.ownMember? t name) s := by
  have h : Run.typeMember? type name s = .ok (s.heap.types.findMember? type name) s := rfl
  rw [h, Types.findMember?_eq_findSome?]

theorem extension?_apply (type : TypeRef) (name : String) (s : State)
    : Run.extension? type name s =
        .ok ((s.heap.types.preorder type).findSome? fun t => s.world.extensions.get? (s.heap.types.id t) name) s := by
  have h : Run.extension? type name s = .ok (s.world.extensions.find? s.heap.types type name) s := rfl
  rw [h, Types.find?_eq_findSome?]

/-- An operator takes the definition if it can be called. -/
theorem findHook_apply (owner : Value) (name : String)
    : Run.findHook owner name s =
        match s.heap.definition? s.world.extensions owner name with
        | some member => if s.heap.isCallable member then (some <$> Run.makeMember owner member) s else .ok none s
        | none => .ok none s := by
  have htake (member : Value) : (do
      if ← Run.isCallable member then return some (← Run.makeMember owner member) else return none) s =
        if s.heap.isCallable member then (some <$> Run.makeMember owner member) s else .ok none s := by
    rw [Run.bind_ok (isCallable_apply member s)]
    cases s.heap.isCallable member <;> rfl
  unfold Run.findHook Heap.definition? Heap.inherited?
  rw [Run.bind_ok (rfl : Run.getHeap s = .ok s.heap s), Run.bind_ok (ownMember?_apply owner name s)]
  cases s.heap.own? owner name with
  | some member => exact htake member
  | none =>
    dsimp only
    rw [Option.none_or, Run.bind_ok (typeMember?_apply (s.heap.typeOf owner) name s)]
    cases (s.heap.types.preorder (s.heap.typeOf owner)).findSome? fun t => s.heap.types.ownMember? t name with
    | some member => exact htake member
    | none =>
      dsimp only
      rw [Option.none_or, Run.bind_ok (extension?_apply (s.heap.typeOf owner) name s)]
      cases (s.heap.types.preorder (s.heap.typeOf owner)).findSome? fun t =>
          s.world.extensions.get? (s.heap.types.id t) name with
      | some member => exact htake member
      | none => rfl

/-- Whether the type of a value answers for members that it does not have. -/
def Heap.Answers (h : Heap) (owner : Value) : Prop :=
  ∃ getAttr, h.types.findMember? (h.typeOf owner) "__getAttr__" = some getAttr ∧ h.isCallable getAttr = true

theorem commonMember?_apply (hname : name ≠ "must" ∧ name ≠ "notNil") (s : State)
    : Run.commonMember? name s = .ok none s := by
  unfold Run.commonMember?
  split
  . exact absurd rfl hname.1
  . exact absurd rfl hname.2
  . rfl

/-- What is left of an access when neither the type nor its `__getAttr__` has an answer. -/
theorem addedMember_apply (owner : Value) (type : TypeRef) (hname : name ≠ "must" ∧ name ≠ "notNil") (s : State)
    : (do
        if let some member ← Run.commonMember? name then
          return ← Run.makeMember owner member
        if let some member ← Run.extension? type name then
          return ← Run.makeMember owner member
        return .undefined) s =
        match (s.heap.types.preorder type).findSome? fun t => s.world.extensions.get? (s.heap.types.id t) name with
        | some member => Run.makeMember owner member s
        | none => .ok .undefined s := by
  rw [Run.bind_ok (commonMember?_apply hname s)]
  dsimp only
  rw [Run.bind_ok (extension?_apply type name s)]
  cases (s.heap.types.preorder type).findSome? fun t => s.world.extensions.get? (s.heap.types.id t) name <;> rfl

theorem memberByType_apply (hquiet : ¬s.heap.Answers owner)
    (hname : name ≠ "must" ∧ name ≠ "notNil")
    : m.memberByType owner name s =
        match s.heap.inherited? s.world.extensions (s.heap.typeOf owner) name with
        | some member => Run.makeMember owner member s
        | none => .ok .undefined s := by
  have hlast := addedMember_apply owner (s.heap.typeOf owner) hname s
  unfold Machine.memberByType Heap.inherited?
  rw [Run.bind_ok (rfl : Run.getHeap s = .ok s.heap s)]
  rw [Run.bind_ok (typeMember?_apply (s.heap.typeOf owner) name s)]
  cases (s.heap.types.preorder (s.heap.typeOf owner)).findSome? fun t => s.heap.types.ownMember? t name with
  | some member => rfl
  | none =>
    have hask : Run.typeMember? (s.heap.typeOf owner) "__getAttr__" s =
        .ok (s.heap.types.findMember? (s.heap.typeOf owner) "__getAttr__") s := rfl
    dsimp only
    rw [Run.bind_ok hask]
    cases hget : s.heap.types.findMember? (s.heap.typeOf owner) "__getAttr__" with
    | none => exact hlast
    | some getAttr =>
      dsimp only
      rw [Run.bind_ok (isCallable_apply getAttr s), if_neg fun h => hquiet ⟨getAttr, hget, h⟩]
      exact hlast

/-- An access that is spelled out takes the definition, whatever it is. -/
theorem getMember_apply (hquiet : ¬s.heap.Answers owner)
    (hname : name ≠ "must" ∧ name ≠ "notNil") (hkind : ∀ ref, owner ≠ .type ref) (hfunc : ∀ ref, owner ≠ .func ref)
    : m.getMember owner name s =
        match s.heap.definition? s.world.extensions owner name with
        | some member => Run.makeMember owner member s
        | none => .ok .undefined s := by
  have htype := memberByType_apply (m := m) hquiet hname
  unfold Machine.getMember Heap.definition?
  cases owner with
  | type ref => exact absurd rfl (hkind ref)
  | func ref => exact absurd rfl (hfunc ref)
  | object handle =>
    dsimp only
    rw [Run.bind_ok (rfl : Run.getHeap s = .ok s.heap s)]
    dsimp only [Heap.own?]
    cases (s.heap.members handle).get? name with
    | some member => rfl
    | none => exact htype
  | _ => exact htype

/-- What can be called once it is bound could be called before, and the other way around. -/
theorem makeMember_apply (owner member : Value) (s : State)
    : ∃ value t, Run.makeMember owner member s = .ok value t ∧
        t.heap.isCallable value = s.heap.isCallable member := by
  unfold Run.makeMember
  cases hkind : member.isCallableKind with
  | true =>
    refine ⟨_, _, rfl, ?_⟩
    cases member with
    | func ref => rfl
    | native ref => rfl
    | bound tag this callee => rfl
    | type ref => rfl
    | _ => cases hkind
  | false => exact ⟨member, s, rfl, rfl⟩

/-- An operator takes what an access gives, if that can be called. -/
theorem taken_iff {member value : Value} {t : State}
    : (if s.heap.isCallable member then (some <$> Run.makeMember owner member) s else .ok none s) = .ok (some value) t ↔
        Run.makeMember owner member s = .ok value t ∧ t.heap.isCallable value = true := by
  rcases makeMember_apply owner member s with ⟨bound, u, hmake, hcallable⟩
  have htaken : (some <$> Run.makeMember owner member) s = .ok (some bound) u := Run.bind_ok hmake
  rw [hmake, htaken, ← hcallable]
  constructor
  . intro h
    split at h
    . next hbound =>
      injection h with hvalue hu
      injection hvalue with hvalue
      rw [← hvalue, ← hu]
      exact ⟨rfl, hbound⟩
    . injection h with h _
      cases h
  . intro ⟨h, hvalue⟩
    injection h with hbound hu
    rw [← hbound, ← hu] at hvalue ⊢
    rw [if_pos hvalue]

/-- An extension adds its members one by one, each after its name and its value were evaluated. -/
theorem execExtensions_adds {exported : Bool} {id : Int} {key value : Expr} {defs : List MemberDef} {t : State}
    (h : m.execExtensions exported id (.mk key value :: defs) s = .ok () t)
    : ∃ name v u u', (do let name ← m.evalKey key; return (name, ← m.eval value)) s = .ok (name, v) u ∧
        u'.world.extensions = u.world.extensions.insert id name v ∧
        m.execExtensions exported id defs u' = .ok () t := by
  rw [Machine.execExtensions] at h
  rcases Run.ok_of_bind h with ⟨_, u', hfirst, hrest⟩
  rcases Run.ok_of_lettingGo hfirst with ⟨w, hfirst, hu'⟩
  rcases Run.ok_of_bind hfirst with ⟨name, v', hkey, hfirst⟩
  rcases Run.ok_of_bind hfirst with ⟨v, u, hvalue, hadd⟩
  refine ⟨name, v, u, u', ?_, ?_, hrest⟩
  . rw [Run.bind_ok hkey, Run.bind_ok hvalue]
    rfl
  . rw [hu']
    cases exported with
    | true =>
      injection hadd with _ hw
      rw [← hw]
    | false =>
      injection hadd with _ hw
      rw [← hw]

/--
Operators and accesses that are spelled out find the same members of all values but types and functions, as long as
the type does not answer for members that are missing. What an operator finds is what an access gives, and what an
access gives is what an operator finds if it can be called. A member of the value itself comes first, then the first
one that its type or one of its bases declares, and then the first one that was added to one of these types, of which
the last one counts. Wherever the types were made one after the other, they are gone through depth first and from
left to right, and those that are gone through from a type are those that it is a subtype of.
-/
theorem lookups_agree (m : Machine) {s : State} {owner : Value} {name : String} (htype : ∀ ref, owner ≠ .type ref)
    (hfunc : ∀ ref, owner ≠ .func ref) (hname : name ≠ "must" ∧ name ≠ "notNil") (hquiet : ¬s.heap.Answers owner)
    : (∀ value t, Run.findHook owner name s = .ok (some value) t → m.getMember owner name s = .ok value t) ∧
      (∀ value t, m.getMember owner name s = .ok value t → t.heap.isCallable value = true →
        Run.findHook owner name s = .ok (some value) t) ∧
      (match s.heap.definition? s.world.extensions owner name with
        | some member =>
          m.getMember owner name s = Run.makeMember owner member s ∧
            Run.findHook owner name s =
              if s.heap.isCallable member then (some <$> Run.makeMember owner member) s else .ok none s
        | none => m.getMember owner name s = .ok .undefined s ∧ Run.findHook owner name s = .ok none s) ∧
      (∀ added id name, (s.world.extensions.addAll added).get? id name =
        (lastUnder? added (id, name)).or (s.world.extensions.get? id name)) ∧
      ∀ first n, 13 ≤ first → s.heap.types.Built first n →
        ∀ ref, s.heap.types.preorder ref = ref :: (s.heap.types.bases ref).flatMap s.heap.types.preorder ∧
          ∀ other, s.heap.types.Has ref → s.heap.types.Has other →
            (s.heap.types.isSubOf ref other = true ↔ other ∈ s.heap.types.preorder ref) := by
  have hmember := getMember_apply (m := m) hquiet hname htype hfunc
  have hhook := findHook_apply (s := s) owner name
  refine ⟨?_, ?_, ?_, fun added id name => Extensions.get?_addAll _ added id name, ?_⟩
  . intro value t h
    rw [hhook] at h
    rw [hmember]
    cases hfound : s.heap.definition? s.world.extensions owner name with
    | none =>
      rw [hfound] at h
      injection h with h _
      cases h
    | some member =>
      rw [hfound] at h
      exact (taken_iff.mp h).1
  . intro value t h hcallable
    rw [hmember] at h
    rw [hhook]
    cases hfound : s.heap.definition? s.world.extensions owner name with
    | none =>
      rw [hfound] at h
      injection h with h _
      rw [← h] at hcallable
      cases hcallable
    | some member =>
      rw [hfound] at h
      exact taken_iff.mpr ⟨h, hcallable⟩
  . cases hfound : s.heap.definition? s.world.extensions owner name with
    | none =>
      rw [hfound] at hmember hhook
      exact ⟨hmember, hhook⟩
    | some member =>
      rw [hfound] at hmember hhook
      exact ⟨hmember, hhook⟩
  . intro first n hfirst hbuilt ref
    have hgraph := hbuilt.sound hfirst
    exact ⟨hgraph.layered.preorder_eq ref, fun other href hother => hgraph.isSubOf_iff_mem href hother⟩

/--
An object of a class that derives from two classes with a common base. A method of that base is found before one of
the second class, a member that was added to the first class before one that was added to the second one, and of two
members that were added to the first class the last one.
-/
theorem diamond_lookups_agree
    : let types := (Types.diamond.setMember ⟨15⟩ "f" (.native ⟨1⟩)).setMember ⟨13⟩ "f" (.native ⟨0⟩)
      let bare := Engine.bareState {} .silent 100000
      let added := [((types.id ⟨15⟩, "g"), Value.int 1), ((types.id ⟨14⟩, "g"), .int 2),
        ((types.id ⟨14⟩, "g"), .native ⟨2⟩)]
      let s : State :=
        { bare with
          heap := { bare.heap with types := types, instances := #[⟨⟨18⟩, .empty, none⟩] }
          world := { bare.world with extensions := Extensions.empty.addAll added } }
      let owner := Value.object (.ofInstance ⟨0⟩)
      (s.heap.types.Built 100000 5 ∧ (∀ ref, owner ≠ .type ref) ∧ (∀ ref, owner ≠ .func ref) ∧
        ("f" ≠ "must" ∧ "f" ≠ "notNil") ∧ ("g" ≠ "must" ∧ "g" ≠ "notNil") ∧ ¬s.heap.Answers owner) ∧
      Run.findHook owner "f" s = .ok (some (.bound 0 owner (.native ⟨0⟩))) (s.withTag 1) ∧
      Machine.spent.getMember owner "f" s = .ok (.bound 0 owner (.native ⟨0⟩)) (s.withTag 1) ∧
      Run.findHook owner "g" s = .ok (some (.bound 0 owner (.native ⟨2⟩))) (s.withTag 1) ∧
      Machine.spent.getMember owner "g" s = .ok (.bound 0 owner (.native ⟨2⟩)) (s.withTag 1) ∧
      s.heap.types.preorder ⟨18⟩ = [⟨18⟩, ⟨17⟩, ⟨14⟩, ⟨13⟩, ⟨10⟩, ⟨15⟩, ⟨13⟩, ⟨10⟩] ∧
      s.heap.types.isSubOf ⟨18⟩ ⟨15⟩ = true := by
  intro types bare added s owner
  have hbuilt : s.heap.types.Built 100000 5 := .setMember (.setMember Types.diamond_built (by decide)) (by decide)
  have htype : ∀ ref, owner ≠ .type ref := fun _ => nofun
  have hfunc : ∀ ref, owner ≠ .func ref := fun _ => nofun
  have hquiet : ¬s.heap.Answers owner := by
    intro ⟨getAttr, hget, _⟩
    have hnone : s.heap.types.findMember? (s.heap.typeOf owner) "__getAttr__" = none := by decide +kernel
    rw [hnone] at hget
    cases hget
  have hf : Run.findHook owner "f" s = .ok (some (.bound 0 owner (.native ⟨0⟩))) (s.withTag 1) := by rfl
  have hg : Run.findHook owner "g" s = .ok (some (.bound 0 owner (.native ⟨2⟩))) (s.withTag 1) := by rfl
  have hname : "f" ≠ "must" ∧ "f" ≠ "notNil" := by decide
  have hname' : "g" ≠ "must" ∧ "g" ≠ "notNil" := by decide
  have hagree := lookups_agree .spent htype hfunc hname hquiet
  have hagree' := lookups_agree .spent htype hfunc hname' hquiet
  refine ⟨⟨hbuilt, htype, hfunc, hname, hname', hquiet⟩, hf, hagree.1 _ _ hf, hg, hagree'.1 _ _ hg,
    by decide +kernel, ?_⟩
  have horder := hagree.2.2.2.2 100000 5 (by decide) hbuilt ⟨18⟩
  exact (horder.2 ⟨15⟩ (by decide) (by decide)).mpr (by decide +kernel)

end Lookups

end ScriptEngine
