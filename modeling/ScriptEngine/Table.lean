/-!
This module contains tables that map names to values. They keep the names in the order in which
they were first put in.
-/

namespace ScriptEngine

/-- Named values in the order of their first definition. -/
structure Table (α : Type) where
  entries : List (String × α)
deriving Inhabited

namespace Table

variable {α β : Type}

def empty : Table α := ⟨[]⟩

def get? (t : Table α) (name : String) : Option α := t.entries.lookup name

def contains (t : Table α) (name : String) : Bool := (t.get? name).isSome

def size (t : Table α) : Nat := t.entries.length

def isEmpty (t : Table α) : Bool := t.entries.isEmpty

def keys (t : Table α) : List String := t.entries.map Prod.fst

def put.go (name : String) (value : α) : List (String × α) → List (String × α)
  | [] => [(name, value)]
  | (key, old) :: rest => if key = name then (key, value) :: rest else (key, old) :: go name value rest

/-- Writes an entry where it stands. A new one goes to the end. -/
def put (t : Table α) (name : String) (value : α) : Table α := ⟨put.go name value t.entries⟩

/-- Removes an entry. The others keep their order. -/
def erase (t : Table α) (name : String) : Table α := ⟨t.entries.filter fun e => e.1 != name⟩

/-- The table with another value for every name. -/
def map (f : α → β) (t : Table α) : Table β := ⟨t.entries.map fun e => (e.1, f e.2)⟩

@[simp]
theorem get?_empty (name : String) : (empty : Table α).get? name = none := rfl

theorem get?_cons (key : String) (value : α) (rest : List (String × α)) (name : String)
    : get? ⟨(key, value) :: rest⟩ name = if name = key then some value else get? ⟨rest⟩ name := by
  unfold get?
  rw [List.lookup_cons]
  by_cases h : name = key
  . rw [if_pos h, beq_iff_eq.mpr h]
  . rw [if_neg h, beq_eq_false_iff_ne.mpr h]

@[simp]
theorem get?_put (t : Table α) (name : String) (value : α) (other : String)
    : (t.put name value).get? other = if other = name then some value else t.get? other := by
  rcases t with ⟨entries⟩
  show get? ⟨put.go name value entries⟩ other = _
  induction entries with
  | nil => rw [put.go, get?_cons]
  | cons e rest ih =>
    rcases e with ⟨key, old⟩
    unfold put.go
    by_cases hkey : key = name
    . rw [if_pos hkey, get?_cons, get?_cons, hkey]
      split
      . rfl
      . rfl
    . rw [if_neg hkey, get?_cons, get?_cons, ih]
      grind

@[simp]
theorem get?_erase (t : Table α) (name other : String)
    : (t.erase name).get? other = if other = name then none else t.get? other := by
  rcases t with ⟨entries⟩
  show get? ⟨entries.filter fun e => e.1 != name⟩ other = _
  induction entries with
  | nil =>
    split
    . rfl
    . rfl
  | cons e rest ih =>
    rcases e with ⟨key, value⟩
    rw [List.filter_cons, get?_cons]
    split
    . rw [get?_cons, ih]
      grind
    . rw [ih]
      grind

@[simp]
theorem get?_map (f : α → β) (t : Table α) (name : String)
    : (t.map f).get? name = (t.get? name).map f := by
  rcases t with ⟨entries⟩
  show get? ⟨entries.map fun e => (e.1, f e.2)⟩ name = _
  induction entries with
  | nil => rfl
  | cons e rest ih =>
    rw [List.map_cons, get?_cons, get?_cons, ih]
    split
    . rfl
    . rfl

theorem get?_isSome_iff (t : Table α) (name : String) : (t.get? name).isSome ↔ name ∈ t.keys := by
  rcases t with ⟨entries⟩
  induction entries with
  | nil => simp [get?, keys]
  | cons e rest ih =>
    rw [get?_cons]
    simp only [keys, List.map_cons, List.mem_cons] at ih ⊢
    by_cases h : name = e.1
    . simp [h]
    . simp [h, ih]

theorem get?_of_mem {t : Table α} (hnodup : t.keys.Nodup) {name : String} {value : α}
    (hmem : (name, value) ∈ t.entries)
    : t.get? name = some value := by
  rcases t with ⟨entries⟩
  simp only [keys] at hnodup hmem
  induction entries with
  | nil => simp at hmem
  | cons e rest ih =>
    simp only [List.map_cons, List.nodup_cons] at hnodup
    rw [get?_cons]
    rcases List.mem_cons.mp hmem with heq | hrest
    . simp [← heq]
    . have hne : name ≠ e.1 := by
        intro heq
        apply hnodup.1
        rw [← heq]
        exact List.mem_map_of_mem hrest
      rw [if_neg hne]
      exact ih hnodup.2 hrest

theorem keys_put (t : Table α) (name : String) (value : α)
    : (t.put name value).keys = if name ∈ t.keys then t.keys else t.keys ++ [name] := by
  rcases t with ⟨entries⟩
  simp only [keys, put]
  induction entries with
  | nil => simp [put.go]
  | cons e rest ih =>
    unfold put.go
    by_cases h : e.1 = name
    . simp [h]
    . simp only [if_neg h, List.map_cons, ih, List.mem_cons, Ne.symm h, false_or]
      split <;> simp_all

end Table

end ScriptEngine
