import Mathlib.Data.List.Induction
import Mathlib.Logic.Basic
import ScriptEngine.Heap.Object

/-!
This module contains the links between objects. Whatever objects are made, views of views included, and whatever is
written to them, a view leads to an instance that is no view and shares its table and its slot with it, and two
instances share nothing. Handles stand for such objects, and what the heap does is what objects do.
-/

namespace ScriptEngine

namespace Objects

/-- The stores that are reached by operations in any order, with all objects that were made on the way. -/
inductive Reached : Objects → List Object → Prop where
  | empty : Reached .empty []
  | made {s : Objects} {made : List Object} (h : Reached s made) (type : TypeRef) (members : Members)
      : Reached (s.withMembers type members).2 ((s.withMembers type members).1 :: made)
  | viewed {s : Objects} {made : List Object} {o : Object} (h : Reached s made) (ho : o ∈ made) (type : TypeRef)
      : Reached s (o.viewAs type :: made)
  | written {s : Objects} {made : List Object} {o : Object} (h : Reached s made) (ho : o ∈ made) (name : String)
      (value : Value)
      : Reached (s.setMember o name value) made
  | kept {s : Objects} {made : List Object} {o : Object} (h : Reached s made) (ho : o ∈ made) (payload : Payload)
      : Reached (s.setReserved o payload) made

/-- All objects have a table and a slot, views have what their instance has, and instances share nothing. -/
structure Sound (s : Objects) (made : List Object) : Prop where
  table : ∀ o ∈ made, o.members.index < s.tables.size
  slot : ∀ o ∈ made, o.reserved.index < s.slots.size
  this : ∀ o ∈ made, ∀ r, o.this = some r →
    r ∈ made ∧ r.this = none ∧ r.members = o.members ∧ r.reserved = o.reserved
  apart : ∀ o ∈ made, ∀ p ∈ made, o.this = none → p.this = none →
    o.members = p.members ∨ o.reserved = p.reserved → o = p

variable {s : Objects} {made : List Object} {o p : Object}

theorem Sound.home (h : s.Sound made) (ho : o ∈ made)
    : o.realThis ∈ made ∧ o.realThis.this = none ∧ o.realThis.members = o.members ∧
        o.realThis.reserved = o.reserved := by
  unfold Object.realThis
  cases hthis : o.this with
  | none => exact ⟨ho, hthis, rfl, rfl⟩
  | some r => exact h.this o ho r hthis

theorem Sound.added (h : s.Sound made) (type : TypeRef) (members : Members)
    : (s.withMembers type members).2.Sound ((s.withMembers type members).1 :: made) where
  table := by
    intro o ho
    rw [withMembers, Array.size_push]
    rcases List.mem_cons.mp ho with rfl | ho
    . exact Nat.lt_succ_self _
    . exact Nat.lt_succ_of_lt (h.table o ho)
  slot := by
    intro o ho
    rw [withMembers, Array.size_push]
    rcases List.mem_cons.mp ho with rfl | ho
    . exact Nat.lt_succ_self _
    . exact Nat.lt_succ_of_lt (h.slot o ho)
  this := by
    intro o ho r hthis
    rcases List.mem_cons.mp ho with rfl | ho
    . cases hthis
    . rcases h.this o ho r hthis with ⟨hr, hrest⟩
      exact ⟨List.mem_cons_of_mem _ hr, hrest⟩
  apart := by
    -- The new instance has the table and the slot after the last ones, which no object had before.
    have hnew (p : Object) (hp : p ∈ made) : ¬(p.members = ⟨s.tables.size⟩ ∨ p.reserved = ⟨s.slots.size⟩) := by
      have htable := h.table p hp
      have hslot := h.slot p hp
      rintro (hmembers | hreserved)
      . rw [hmembers] at htable
        exact Nat.lt_irrefl _ htable
      . rw [hreserved] at hslot
        exact Nat.lt_irrefl _ hslot
    intro o ho p hp hothis hpthis hshared
    rcases List.mem_cons.mp ho with rfl | ho <;> rcases List.mem_cons.mp hp with rfl | hp
    . rfl
    . exact absurd (hshared.imp Eq.symm Eq.symm) (hnew p hp)
    . exact absurd hshared (hnew o ho)
    . exact h.apart o ho p hp hothis hpthis hshared

theorem Sound.viewed (h : s.Sound made) (ho : o ∈ made) (type : TypeRef) : s.Sound (o.viewAs type :: made) where
  table := List.forall_mem_cons.mpr ⟨h.table o ho, h.table⟩
  slot := List.forall_mem_cons.mpr ⟨h.slot o ho, h.slot⟩
  this := by
    intro q hq r hthis
    rcases List.mem_cons.mp hq with rfl | hq
    . injection hthis with hthis
      rw [← hthis]
      rcases h.home ho with ⟨hmem, hrest⟩
      exact ⟨List.mem_cons_of_mem _ hmem, hrest⟩
    . rcases h.this q hq r hthis with ⟨hr, hrest⟩
      exact ⟨List.mem_cons_of_mem _ hr, hrest⟩
  apart := by
    intro q hq p hp hqthis hpthis hshared
    rcases List.mem_cons.mp hq with rfl | hq
    . cases hqthis
    . rcases List.mem_cons.mp hp with rfl | hp
      . cases hpthis
      . exact h.apart q hq p hp hqthis hpthis hshared

/-- What is written does not matter to the links. -/
theorem Sound.of_size {t : Objects} (h : s.Sound made) (htables : t.tables.size = s.tables.size)
    (hslots : t.slots.size = s.slots.size)
    : t.Sound made where
  table := by
    rw [htables]
    exact h.table
  slot := by
    rw [hslots]
    exact h.slot
  this := h.this
  apart := h.apart

theorem Reached.sound (h : Reached s made) : s.Sound made := by
  induction h with
  | empty => exact ⟨List.forall_mem_nil _, List.forall_mem_nil _, List.forall_mem_nil _, List.forall_mem_nil _⟩
  | made _ type members ih => exact ih.added type members
  | viewed _ ho type ih => exact ih.viewed ho type
  | written _ _ name value ih => exact ih.of_size Array.size_modify rfl
  | kept _ _ payload ih => exact ih.of_size rfl Array.size_modify

/-- Objects have the same table if they are views of the same instance, and the same slot. -/
theorem Sound.shared_iff (h : s.Sound made) (ho : o ∈ made) (hp : p ∈ made)
    : (o.members = p.members ↔ o.realThis = p.realThis) ∧ (o.reserved = p.reserved ↔ o.realThis = p.realThis) := by
  rcases h.home ho with ⟨hohome, hothis, homembers, horeserved⟩
  rcases h.home hp with ⟨hphome, hpthis, hpmembers, hpreserved⟩
  have hapart := h.apart _ hohome _ hphome hothis hpthis
  rw [homembers, hpmembers, horeserved, hpreserved] at hapart
  constructor
  . refine ⟨fun hshared => hapart (.inl hshared), ?_⟩
    intro hreal
    rw [← homembers, hreal, hpmembers]
  . refine ⟨fun hshared => hapart (.inr hshared), ?_⟩
    intro hreal
    rw [← horeserved, hreal, hpreserved]

theorem members_setMember_of_eq (h : s.Sound made) (hp : p ∈ made) (hsame : o.members = p.members) (name : String)
    (value : Value)
    : (s.setMember o name value).members p = Members.set (s.members p) name value := by
  have htable := h.table p hp
  unfold setMember members
  rw [hsame]
  simp only [Array.getD_eq_getD_getElem?, Array.getElem?_modify, Array.getElem?_eq_getElem htable]
  rfl

theorem members_setMember_of_ne (hother : o.members ≠ p.members) (name : String) (value : Value)
    : (s.setMember o name value).members p = s.members p := by
  have hindex : o.members.index ≠ p.members.index := by
    intro hindex
    apply hother
    rcases hm : o.members with ⟨i⟩
    rcases hm' : p.members with ⟨j⟩
    rw [hm, hm'] at hindex
    exact congrArg TableRef.mk hindex
  unfold setMember members
  simp only [Array.getD_eq_getD_getElem?, Array.getElem?_modify, if_neg hindex]

theorem reserved?_setReserved_of_eq (h : s.Sound made) (hp : p ∈ made) (hsame : o.reserved = p.reserved)
    (payload : Payload)
    : (s.setReserved o payload).reserved? p = some payload := by
  have hslot := h.slot p hp
  unfold setReserved reserved?
  rw [hsame]
  simp only [Array.getD_eq_getD_getElem?, Array.getElem?_modify, Array.getElem?_eq_getElem hslot]
  rfl

theorem reserved?_setReserved_of_ne (hother : o.reserved ≠ p.reserved) (payload : Payload)
    : (s.setReserved o payload).reserved? p = s.reserved? p := by
  have hindex : o.reserved.index ≠ p.reserved.index := by
    intro hindex
    apply hother
    rcases hm : o.reserved with ⟨i⟩
    rcases hm' : p.reserved with ⟨j⟩
    rw [hm, hm'] at hindex
    exact congrArg SlotRef.mk hindex
  unfold setReserved reserved?
  simp only [Array.getD_eq_getD_getElem?, Array.getElem?_modify, if_neg hindex]

/-- What holds of an object and of all others that were made. -/
structure Linked (s : Objects) (made : List Object) (o : Object) : Prop where
  this {r : Object} (h : o.this = some r)
    : r ∈ made ∧ r.this = none ∧ r.members = o.members ∧ r.reserved = o.reserved
  home : o.realThis ∈ made ∧ o.realThis.this = none ∧ o.realThis.realThis = o.realThis
  same {p : Object} (hp : p ∈ made) : o.sameInstance p = true ↔ o.realThis = p.realThis
  /-- What is written through an object is read through all views of its instance, and through no other object. -/
  written {p : Object} (hp : p ∈ made) (name : String) (value : Value)
    : (o.realThis = p.realThis → (s.setMember o name value).members p = Members.set (s.members p) name value) ∧
        (o.realThis ≠ p.realThis → (s.setMember o name value).members p = s.members p) ∧
        (s.setMember o name value).reserved? p = s.reserved? p
  kept {p : Object} (hp : p ∈ made) (payload : Payload)
    : (o.realThis = p.realThis → (s.setReserved o payload).reserved? p = some payload) ∧
        (o.realThis ≠ p.realThis → (s.setReserved o payload).reserved? p = s.reserved? p) ∧
        (s.setReserved o payload).members p = s.members p

theorem Reached.linked (h : Reached s made) (ho : o ∈ made) : s.Linked made o where
  this := h.sound.this o ho _
  home := by
    rcases h.sound.home ho with ⟨hmem, hthis, _⟩
    refine ⟨hmem, hthis, ?_⟩
    show o.realThis.this.getD o.realThis = _
    rw [hthis]
    rfl
  same hp := beq_iff_eq.trans (h.sound.shared_iff ho hp).1
  written {p} hp name value := by
    have hshared := (h.sound.shared_iff ho hp).1
    refine ⟨?_, ?_, rfl⟩
    . intro hreal
      exact members_setMember_of_eq h.sound hp (hshared.mpr hreal) name value
    . intro hreal
      exact members_setMember_of_ne (mt hshared.mp hreal) name value
  kept {p} hp payload := by
    have hshared := (h.sound.shared_iff ho hp).2
    refine ⟨?_, ?_, rfl⟩
    . intro hreal
      exact reserved?_setReserved_of_eq h.sound hp (hshared.mpr hreal) payload
    . intro hreal
      exact reserved?_setReserved_of_ne (mt hshared.mp hreal) payload

end Objects

/-- What is changed in a row is changed in the row of one of its parts, -/
theorem map_modify {α β : Type} {f : α → α} {g : α → β} {f' : β → β} {i : Nat} (row : Array α)
    (hpart : ∀ a, g (f a) = f' (g a))
    : (row.modify i f).map g = (row.map g).modify i f' := by
  ext1
  . simp only [Array.size_map, Array.size_modify]
  . simp only [Array.getElem_map, Array.getElem_modify]
    split
    . exact hpart _
    . rfl

theorem getD_map {α β : Type} (row : Array α) (g : α → β) (i : Nat) (a : α)
    : g (row.getD i a) = (row.map g).getD i (g a) := by
  rw [Array.getD_eq_getD_getElem?, Array.getD_eq_getD_getElem?, Array.getElem?_map]
  cases row[i]? <;> rfl

/-- unless the change does not touch the part. -/
theorem map_modify_of_eq {α β : Type} {f : α → α} {g : α → β} {i : Nat} (row : Array α) (hpart : ∀ a, g (f a) = g a)
    : (row.modify i f).map g = row.map g := by
  ext1
  . simp only [Array.size_map, Array.size_modify]
  . simp only [Array.getElem_map, Array.getElem_modify]
    split
    . exact hpart _
    . rfl

namespace Heap

variable {h : Heap} {handle other : Handle}

/-- Whether a handle leads to an object that was made. -/
def Holds (h : Heap) (handle : Handle) : Prop := handle.real.index < h.instances.size

instance (h : Heap) (handle : Handle) : Decidable (h.Holds handle) := Nat.decLt _ _

theorem object_eq (h : Heap) (handle : Handle)
    : h.object handle = {
        type := h.objectType handle
        members := ⟨handle.real.index⟩
        reserved := ⟨handle.real.index⟩
        this := handle.view.map fun _ => h.object handle.realThis } := by
  rcases handle with ⟨real, view⟩
  cases view <;> rfl

theorem object_realThis (h : Heap) (handle : Handle) : (h.object handle).realThis = h.object handle.realThis := by
  rcases handle with ⟨real, view⟩
  cases view <;> rfl

theorem object_viewAs (h : Heap) (handle : Handle) (type : TypeRef)
    : (h.viewAs handle type).2.object (h.viewAs handle type).1 = (h.object handle).viewAs type := by
  unfold Object.viewAs
  rw [object_realThis, object_eq, object_eq h handle]
  rfl

theorem superType_instances (h : Heap) (owner : TypeRef) : (h.superType owner).2.instances = h.instances := by
  unfold superType
  split
  . rfl
  . split <;> rfl

theorem superView_instances (h : Heap) (handle : Handle) (owner : TypeRef)
    : (h.superView handle owner).2.instances = h.instances :=
  h.superType_instances owner

/-- An object is made of what the table of instances has. -/
theorem object_of_inst {h' : Heap} (hinst : (h'.inst handle).type = (h.inst handle).type)
    : h'.object handle = h.object handle := by
  unfold object instanceOf
  rw [hinst]

theorem object_modify (h : Heap) (handle : Handle) (ref : InstanceRef) (f : Instance → Instance)
    (hf : ∀ i, (f i).type = i.type)
    : ({ h with instances := h.instances.modify ref.index f } : Heap).object handle = h.object handle := by
  apply object_of_inst
  unfold inst
  simp only [Array.getD_eq_getD_getElem?, Array.getElem?_modify]
  split
  . cases h.instances[handle.real.index]? with
    | none => rfl
    | some i => exact hf i
  . rfl

theorem objects_setMember (h : Heap) (handle : Handle) (name : String) (value : Value)
    : (h.setMember handle name value).objects = h.objects.setMember (h.object handle) name value := by
  rw [object_eq]
  unfold objects setMember Objects.setMember
  dsimp only
  congr 1
  . apply map_modify
    intro
    rfl
  . apply map_modify_of_eq
    intro
    rfl

theorem objects_setReserved (h : Heap) (handle : Handle) (payload : Payload)
    : (h.setReserved handle payload).objects = h.objects.setReserved (h.object handle) payload := by
  rw [object_eq]
  unfold objects setReserved Objects.setReserved
  dsimp only
  congr 1
  . apply map_modify_of_eq
    intro
    rfl
  . apply map_modify
    intro
    rfl

theorem newInstance_eq (h : Heap) (type : TypeRef) (members : Members)
    : ((h.newInstance type members).2.object (h.newInstance type members).1, (h.newInstance type members).2.objects) =
        h.objects.withMembers type members := by
  have htype : ((h.newInstance type members).2.inst (h.newInstance type members).1).type = type := by
    show ((h.instances.push ⟨type, members, none⟩).getD h.instances.size default).type = type
    rw [Array.getD_eq_getD_getElem?, Array.getElem?_push_size]
    rfl
  unfold Objects.withMembers
  refine Prod.ext ?_ (congrArg₂ Objects.mk Array.map_push Array.map_push)
  show Object.mk _ _ _ _ = Object.mk _ _ _ _
  rw [htype]
  simp only [newInstance, Handle.ofInstance, objects, Array.size_map]

theorem newInstance_object (hholds : h.Holds handle) (type : TypeRef) (members : Members)
    : (h.newInstance type members).2.object handle = h.object handle := by
  apply object_of_inst
  unfold newInstance inst
  rw [Array.getD_eq_getD_getElem?, Array.getElem?_push_lt hholds, Array.getD_eq_getD_getElem?,
    Array.getElem?_eq_getElem hholds]

end Heap

namespace Objects

variable {s : Objects} {made : List Object}

/-- The instance that is made next, with what the host keeps in it. -/
theorem Reached.instance_made (h : Reached s made) (i : Instance)
    : ∃ made', Reached ⟨s.tables.push i.members, s.slots.push i.reserved⟩ made' ∧ (∀ o ∈ made, o ∈ made') ∧
        ⟨i.type, ⟨s.tables.size⟩, ⟨s.slots.size⟩, none⟩ ∈ made' := by
  have hnew := h.made i.type i.members
  rcases i with ⟨type, members, reserved⟩
  refine ⟨_, ?_, fun o => List.mem_cons_of_mem _, List.mem_cons_self⟩
  cases reserved with
  | none => exact hnew
  | some payload =>
    have hkept := hnew.kept List.mem_cons_self payload
    have hslots : (s.slots.push none).modify s.slots.size (fun _ => some payload) = s.slots.push (some payload) := by
      ext1
      . simp only [Array.size_modify, Array.size_push]
      . rename_i i hi _
        rw [Array.size_modify, Array.size_push] at hi
        simp only [Array.getElem_modify, Array.getElem_push]
        split <;> split <;> first | rfl | omega
    have hstore : ((s.withMembers type members).2.setReserved (s.withMembers type members).1 payload) =
        ⟨s.tables.push members, s.slots.push (some payload)⟩ := congrArg (Objects.mk _) hslots
    rw [← hstore]
    exact hkept

/-- The tables and slots of instances are those of objects that are made one after another. -/
theorem reached_of_instances (instances : List Instance)
    : ∃ made, Reached ⟨(instances.map Instance.members).toArray, (instances.map Instance.reserved).toArray⟩ made ∧
        ∀ i (hi : i < instances.length), ⟨instances[i].type, ⟨i⟩, ⟨i⟩, none⟩ ∈ made := by
  induction instances using List.reverseRecOn with
  | nil => exact ⟨[], .empty, nofun⟩
  | append_singleton instances last ih =>
    rcases ih with ⟨made, hreached, hmade⟩
    rcases hreached.instance_made last with ⟨made', hreached', hkept, hnew⟩
    refine ⟨made', ?_, ?_⟩
    . simpa only [List.map_append, List.map_singleton, List.push_toArray] using hreached'
    . intro i hi
      rcases Nat.lt_or_ge i instances.length with hlt | hge
      . rw [List.getElem_append_left hlt]
        exact hkept _ (hmade i hlt)
      . have heq : i = instances.length := by
          rw [List.length_append, List.length_singleton] at hi
          omega
        subst heq
        simpa only [List.getElem_concat_length, List.size_toArray, List.length_map] using hnew

end Objects

namespace Heap

variable {h : Heap}

theorem reached_objects (h : Heap)
    : ∃ made, h.objects.Reached made ∧ ∀ handle, h.Holds handle → h.instanceOf handle ∈ made := by
  rcases Objects.reached_of_instances h.instances.toList with ⟨made, hreached, hmade⟩
  have hstore : h.objects =
      ⟨(h.instances.toList.map Instance.members).toArray, (h.instances.toList.map Instance.reserved).toArray⟩ := by
    rw [← Array.toList_map, ← Array.toList_map]
    rfl
  refine ⟨made, hstore ▸ hreached, ?_⟩
  intro handle hholds
  have hinst : h.inst handle = h.instances.toList[handle.real.index] := by
    unfold Holds at hholds
    unfold inst
    rw [Array.getD_eq_getD_getElem?, Array.getElem?_eq_getElem hholds, Array.getElem_toList]
    rfl
  unfold instanceOf
  rw [hinst]
  exact hmade handle.real.index hholds

/-- Handles stand for objects that were made, however many there are. -/
theorem reached_handles (h : Heap) (handles : List Handle) (hholds : ∀ handle ∈ handles, h.Holds handle)
    : ∃ made, h.objects.Reached made ∧ ∀ handle ∈ handles, h.object handle ∈ made := by
  rcases h.reached_objects with ⟨instances, hreached, hinstances⟩
  suffices hall : ∃ made, h.objects.Reached made ∧ (∀ o ∈ instances, o ∈ made) ∧
      ∀ handle ∈ handles, h.object handle ∈ made by
    rcases hall with ⟨made, hmade, _, hobjects⟩
    exact ⟨made, hmade, hobjects⟩
  induction handles with
  | nil => exact ⟨instances, hreached, fun _ => id, nofun⟩
  | cons handle handles ih =>
    rw [List.forall_mem_cons] at hholds
    rcases ih hholds.2 with ⟨made, hmade, hkept, hobjects⟩
    have hinst := hkept _ (hinstances handle hholds.1)
    rcases handle with ⟨real, view⟩
    cases view with
    | none => exact ⟨made, hmade, hkept, List.forall_mem_cons.mpr ⟨hinst, hobjects⟩⟩
    | some view =>
      refine ⟨_, hmade.viewed hinst view.type, fun o ho => List.mem_cons_of_mem _ (hkept o ho), ?_⟩
      rw [List.forall_mem_cons]
      exact ⟨List.mem_cons_self, fun other hother => List.mem_cons_of_mem _ (hobjects other hother)⟩

/-- What the heap does with handles is what objects do. -/
structure ShowsObjects (h : Heap) : Prop where
  /-- Handles of instances that were made stand for objects that were made. -/
  reached (handles : List Handle) (hholds : ∀ handle ∈ handles, h.Holds handle)
    : ∃ made, h.objects.Reached made ∧ ∀ handle ∈ handles, h.object handle ∈ made
  isView (handle : Handle) : handle.view.isSome = (h.object handle).this.isSome
  realThis (handle : Handle) : h.object handle.realThis = (h.object handle).realThis
  same (a b : Handle) : a.sameInstance b = (h.object a).sameInstance (h.object b)
  type (handle : Handle) : h.objectType handle = (h.object handle).type
  members (handle : Handle) : h.members handle = h.objects.members (h.object handle)
  reserved (handle : Handle) : h.reserved? handle = h.objects.reserved? (h.object handle)
  /-- A new instance is a new object, and all others stay what they were. -/
  made (type : TypeRef) (members : Members)
    : ((h.newInstance type members).2.object (h.newInstance type members).1,
          (h.newInstance type members).2.objects) =
        h.objects.withMembers type members ∧
      ∀ handle, h.Holds handle → (h.newInstance type members).2.object handle = h.object handle
  viewed (handle : Handle) (type : TypeRef)
    : (h.viewAs handle type).2.object (h.viewAs handle type).1 = (h.object handle).viewAs type ∧
      (h.viewAs handle type).2.objects = h.objects ∧
      ∀ other, (h.viewAs handle type).2.object other = h.object other
  /-- What `super` stands for is a view through the type that `super` of the class has. -/
  super (handle : Handle) (owner : TypeRef)
    : (h.superView handle owner).2.object (h.superView handle owner).1 =
        (h.object handle).viewAs (h.superType owner).1 ∧
      (h.superView handle owner).2.objects = h.objects ∧
      ∀ other, (h.superView handle owner).2.object other = h.object other
  written (handle : Handle) (name : String) (value : Value)
    : (h.setMember handle name value).objects = h.objects.setMember (h.object handle) name value ∧
      ∀ other, (h.setMember handle name value).object other = h.object other
  kept (handle : Handle) (payload : Payload)
    : (h.setReserved handle payload).objects = h.objects.setReserved (h.object handle) payload ∧
      ∀ other, (h.setReserved handle payload).object other = h.object other

theorem showsObjects (h : Heap) : h.ShowsObjects where
  reached := h.reached_handles
  isView handle := by
    rw [object_eq, Option.isSome_map]
  realThis handle := (h.object_realThis handle).symm
  same a b := by
    rw [object_eq, object_eq h b, Bool.eq_iff_iff]
    unfold Handle.sameInstance Object.sameInstance
    rw [beq_iff_eq, beq_iff_eq, InstanceRef.mk.injEq, TableRef.mk.injEq]
  type handle := by
    rw [object_eq]
  members handle := by
    rw [object_eq]
    exact getD_map h.instances Instance.members handle.real.index default
  reserved handle := by
    rw [object_eq]
    exact getD_map h.instances Instance.reserved handle.real.index default
  made type members := ⟨h.newInstance_eq type members, fun _ hholds => newInstance_object hholds type members⟩
  viewed handle type := ⟨h.object_viewAs handle type, rfl, fun _ => rfl⟩
  super handle owner := by
    have hobject (other : Handle) : (h.superView handle owner).2.object other = h.object other := by
      apply object_of_inst
      unfold inst
      rw [superView_instances]
    refine ⟨?_, ?_, hobject⟩
    . show ((h.superType owner).2.viewAs handle _).2.object ((h.superType owner).2.viewAs handle _).1 = _
      rw [object_viewAs]
      apply congrArg (Object.viewAs · _)
      apply object_of_inst
      unfold inst
      rw [superType_instances]
    . unfold objects
      rw [superView_instances]
  written handle name value :=
    ⟨h.objects_setMember handle name value, fun other => h.object_modify other _ _ fun _ => rfl⟩
  kept handle payload := ⟨h.objects_setReserved handle payload, fun other => h.object_modify other _ _ fun _ => rfl⟩

end Heap

end ScriptEngine
