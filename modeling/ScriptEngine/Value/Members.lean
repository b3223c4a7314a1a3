import ScriptEngine.Table
import ScriptEngine.Value.Basic

/-!
This module contains member tables. They keep their names in the order in which they were first
set, and a member that is set to `undefined` is gone. Beside the entries there is an index with the
place of every name, through which the entries are found.
-/

namespace ScriptEngine

/-- Entries and the places where an index says that they stand. -/
structure MemberTable where
  entries : List (String × Value)
  index : Table Nat

namespace MemberTable

def empty : MemberTable := ⟨[], .empty⟩

def get? (t : MemberTable) (name : String) : Option Value := do
  let place ← t.index.get? name
  let entry ← t.entries[place]?
  return entry.2

def contains (t : MemberTable) (name : String) : Bool := t.index.contains name

def size (t : MemberTable) : Nat := t.entries.length

def isEmpty (t : MemberTable) : Bool := t.entries.isEmpty

def keys (t : MemberTable) : List String := t.entries.map Prod.fst

/-- Where an entry stands after the one at `gone` was taken out. -/
def shift (gone place : Nat) : Nat := if gone < place then place - 1 else place

/-- Takes a member out and gives its value. The members after it move up. -/
def remove (t : MemberTable) (name : String) : Option Value × MemberTable :=
  match t.index.get? name with
  | none => (none, t)
  | some place =>
    (t.entries[place]?.map Prod.snd,
      ⟨t.entries.eraseIdx place, (t.index.erase name).map (shift place)⟩)

/-- Writes a member where it stands. A new one goes to the end, and `undefined` takes it out. -/
def set (t : MemberTable) (name : String) (value : Value) : MemberTable :=
  if value.isUndefined then
    (t.remove name).2
  else
    match t.index.get? name with
    | some place => ⟨t.entries.modify place fun e => (e.1, value), t.index⟩
    | none => ⟨t.entries ++ [(name, value)], t.index.put name t.entries.length⟩

/-- The index is right, and no member is `undefined`. -/
structure Sound (t : MemberTable) : Prop where
  places (name : String) (place : Nat) : t.index.get? name = some place ↔ t.keys[place]? = some name
  defined (e : String × Value) (h : e ∈ t.entries) : e.2.isUndefined = false

theorem empty_sound : empty.Sound where
  places name place := by
    show none = some place ↔ none = some name
    simp
  defined e h := nomatch h

section

variable {t : MemberTable} {name : String} {place : Nat} {value : Value}

theorem keys_modify : (t.entries.modify place fun e => (e.1, value)).map Prod.fst = t.keys := by
  apply List.ext_getElem?
  intro i
  unfold keys
  rw [List.getElem?_map, List.getElem?_map, List.getElem?_modify]
  split
  . cases t.entries[i]? <;> rfl
  . cases t.entries[i]? <;> rfl

theorem Sound.place_unique (h : t.Sound) (name : String) (i j : Nat) (hi : t.keys[i]? = some name)
    (hj : t.keys[j]? = some name)
    : i = j := by
  have hi := (h.places name i).mpr hi
  have hj := (h.places name j).mpr hj
  rw [hi] at hj
  injection hj

theorem Sound.modify (h : t.Sound) (hvalue : value.isUndefined = false)
    : Sound ⟨t.entries.modify place fun e => (e.1, value), t.index⟩ := by
  constructor
  case places =>
    intro name' place'
    show _ ↔ ((t.entries.modify place _).map Prod.fst)[place']? = some name'
    rw [keys_modify]
    exact h.places name' place'
  case defined =>
    intro e he
    obtain ⟨i, hi⟩ := List.mem_iff_getElem?.mp he
    rw [List.getElem?_modify] at hi
    split at hi
    . cases hold : t.entries[i]? with
      | none => simp [hold] at hi
      | some old =>
        rw [hold] at hi
        injection hi with hi
        rw [← hi]
        exact hvalue
    . rw [id_map'] at hi
      exact h.defined e (List.mem_of_getElem? hi)

theorem Sound.push (h : t.Sound) (hvalue : value.isUndefined = false) (hname : t.index.get? name = none)
    : Sound ⟨t.entries ++ [(name, value)], t.index.put name t.entries.length⟩ := by
  have hnew (i : Nat) : t.keys[i]? ≠ some name := by
    intro hi
    rw [(h.places name i).mpr hi] at hname
    injection hname
  constructor
  case places =>
    intro name' place'
    show _ ↔ ((t.entries ++ [(name, value)]).map Prod.fst)[place']? = some name'
    have hlength : t.keys.length = t.entries.length := List.length_map ..
    have hkeys : (t.entries ++ [(name, value)]).map Prod.fst = t.keys ++ [name] := List.map_append ..
    rw [hkeys, Table.get?_put, List.getElem?_append, hlength, List.getElem?_singleton]
    by_cases heq : name' = name
    . rw [if_pos heq, heq, Option.some.injEq]
      split
      . have hnew := hnew place'
        constructor
        . omega
        . exact fun hfound => absurd hfound hnew
      . have hend : place' - t.entries.length = 0 ↔ t.entries.length = place' := by omega
        simp [hend]
    . rw [if_neg heq, h.places]
      split
      . exact Iff.rfl
      . next hend =>
        have hnone : t.keys[place']? = none := List.getElem?_eq_none (by omega)
        rw [hnone]
        split
        . simp [Ne.symm heq]
        . exact Iff.rfl
  case defined =>
    intro e he
    rcases List.mem_append.mp he with he | he
    . exact h.defined e he
    . rw [List.mem_singleton.mp he]
      exact hvalue

theorem Sound.eraseIdx (h : t.Sound) (hname : t.index.get? name = some place)
    : Sound ⟨t.entries.eraseIdx place, (t.index.erase name).map (shift place)⟩ := by
  have hplace : t.keys[place]? = some name := (h.places name place).mp hname
  constructor
  case places =>
    intro name' place'
    have hkeys : ((t.entries.eraseIdx place).map Prod.fst)[place']? =
        if place' < place then t.keys[place']? else t.keys[place' + 1]? := by
      unfold keys
      rw [List.getElem?_map, List.getElem?_map, List.getElem?_map, List.getElem?_eraseIdx]
      split
      . rfl
      . rfl
    show _ ↔ ((t.entries.eraseIdx place).map Prod.fst)[place']? = some name'
    rw [hkeys, Table.get?_map, Table.get?_erase]
    by_cases heq : name' = name
    . rw [if_pos heq, heq]
      have hbefore := h.place_unique name place' place
      have hafter := h.place_unique name (place' + 1) place
      constructor
      . intro hnone
        injection hnone
      . intro hfound
        split at hfound
        . have := hbefore hfound hplace
          omega
        . have := hafter hfound hplace
          omega
    . rw [if_neg heq]
      have hne (i : Nat) (hi : t.keys[i]? = some name') : i ≠ place := by
        intro hi'
        rw [hi', hplace] at hi
        exact heq (Option.some.inj hi).symm
      rw [Option.map_eq_some_iff]
      simp only [h.places, shift]
      constructor
      . rintro ⟨q, hq, hshift⟩
        have := hne q hq
        split at hshift
        . rw [if_neg (by omega), show place' + 1 = q by omega]
          exact hq
        . rw [if_pos (by omega), ← hshift]
          exact hq
      . intro hfound
        split at hfound
        . exact ⟨place', hfound, if_neg (by omega)⟩
        . exact ⟨place' + 1, hfound, if_pos (by omega)⟩
  case defined =>
    intro e he
    exact h.defined e (List.mem_of_mem_eraseIdx he)

theorem Sound.remove (h : t.Sound) (name : String) : (t.remove name).2.Sound := by
  unfold MemberTable.remove
  split
  . exact h
  . next hname => exact h.eraseIdx hname

theorem Sound.set (h : t.Sound) (name : String) (value : Value) : (t.set name value).Sound := by
  unfold MemberTable.set
  split
  . exact h.remove name
  . next hvalue =>
    have hvalue : value.isUndefined = false := Bool.eq_false_iff.mpr hvalue
    split
    . exact h.modify hvalue
    . next hname => exact h.push hvalue hname

end

end MemberTable

/-- The members of an object or of a type. -/
structure Members extends MemberTable where
  sound : toMemberTable.Sound

namespace Members

def empty : Members := ⟨.empty, MemberTable.empty_sound⟩

instance : Inhabited Members := ⟨empty⟩

/-- Writes a member, or removes it if the value is `undefined`. -/
def set (m : Members) (name : String) (value : Value) : Members :=
  ⟨m.toMemberTable.set name value, m.sound.set name value⟩

/-- Removes a member. -/
def erase (m : Members) (name : String) : Members :=
  ⟨(m.toMemberTable.remove name).2, m.sound.remove name⟩

/-- The table that results from setting one member after another. -/
def ofList (entries : List (String × Value)) : Members :=
  entries.foldl (fun m e => set m e.1 e.2) .empty

end Members

end ScriptEngine
