import Mathlib.Data.List.Nodup
import Mathlib.Data.List.Perm.Basic
import Mathlib.Tactic.IntervalCases
import ScriptEngine.Engine.Machine
import ScriptEngine.Engine.Setup
import ScriptEngine.Proofs.Run

/-!
This module contains where keyword arguments land. The other arguments come first and lay out to a list. Every
keyword is then written over it at the place of its parameter, so that a later one wins over an earlier one and
the order of keywords with different names does not matter.
-/

namespace ScriptEngine

/-- Arguments without keywords lay out to a list: holes are filled and expanded arrays are opened. -/
inductive Heap.LaysOut (h : Heap) (supplied : List Value) : List PendingArg → List Value → Prop where
  | nil : LaysOut h supplied [] []
  | positional {front : List PendingArg} {laid : List Value} (value : Value) (hrest : LaysOut h supplied front laid)
    : LaysOut h supplied (.positional value :: front) (value :: laid)
  | hole {front : List PendingArg} {laid : List Value} {index : Int} {value : Value}
      (hfill : Args.fillHole index supplied = .ok value) (hrest : LaysOut h supplied front laid)
    : LaysOut h supplied (.hole index :: front) (value :: laid)
  | spread {front : List PendingArg} {laid : List Value} {array : Value} {items : Array Value}
      (hitems : h.items? array = some items) (hrest : LaysOut h supplied front laid)
    : LaysOut h supplied (.spread array :: front) (items.toList ++ laid)

/-- What was given last under a key. -/
def lastUnder? {κ α : Type} [DecidableEq κ] (entries : List (κ × α)) (key : κ) : Option α :=
  (entries.filter (·.1 = key)).getLast?.map (·.2)

theorem lastUnder?_cons {κ α : Type} [DecidableEq κ] (entry : κ × α) (entries : List (κ × α)) (key : κ)
    : lastUnder? (entry :: entries) key =
        (lastUnder? entries key).or (if entry.1 = key then some entry.2 else none) := by
  unfold lastUnder?
  rw [List.filter_cons]
  by_cases heq : entry.1 = key
  . rw [if_pos (decide_eq_true heq), if_pos heq, List.getLast?_cons]
    cases (entries.filter (·.1 = key)).getLast? <;> rfl
  . rw [if_neg (by rw [decide_eq_true_eq]; exact heq), if_neg heq, Option.or_none]

namespace Args

/-- Keyword arguments, given by their names and values. -/
def keywords (keys : List (String × Value)) : List PendingArg := keys.map fun key => .keyword key.1 key.2

/-- The places at which keywords that are not `undefined` land, with their values. -/
def landings (params : List String) (keys : List (String × Value)) : List (Nat × Value) :=
  keys.filterMap fun key => if key.2.isUndefined then none else (params.idxOf? key.1).map fun pos => (pos, key.2)

/-- One past the highest place at which something lands. -/
def extent (landings : List (Nat × Value)) : Nat := landings.foldr (fun landing bound => max (landing.1 + 1) bound) 0

/-- Writes what lands over a list, one after the other. -/
def land (args : List Value) (landings : List (Nat × Value)) : List Value :=
  landings.foldl (fun args landing => putAt args landing.1 landing.2) args

section Slots

variable {args : List Value} {landings : List (Nat × Value)}

theorem length_putAt (args : List Value) (pos : Nat) (value : Value)
    : (putAt args pos value).length = max args.length (pos + 1) := by
  unfold putAt
  split
  . rw [List.length_set]
    omega
  . rw [List.length_append, List.length_append, List.length_replicate, List.length_singleton]
    omega

/-- Only the slot that is written changes. Slots that are padded were `undefined` before. -/
theorem getD_putAt (args : List Value) (pos : Nat) (value : Value) (i : Nat)
    : (putAt args pos value).getD i .undefined = if i = pos then value else args.getD i .undefined := by
  simp only [List.getD_eq_getElem?_getD]
  unfold putAt
  split
  next hpos =>
    rw [List.getElem?_set]
    by_cases heq : pos = i
    . subst heq
      rw [if_pos rfl, if_pos rfl, if_pos hpos, Option.getD_some]
    . rw [if_neg heq, if_neg (Ne.symm heq)]
  next hpos =>
    rcases Nat.lt_or_ge i args.length with hi | hi
    . rw [List.append_assoc, List.getElem?_append_left hi, if_neg (by omega)]
    . rw [List.append_assoc, List.getElem?_append_right hi, List.getElem?_eq_none hi]
      rcases Nat.lt_trichotomy i pos with hlt | heq | hgt
      . rw [List.getElem?_append_left (by rw [List.length_replicate]; omega), if_neg (by omega)]
        rw [List.getElem?_replicate_of_lt (by omega)]
        rfl
      . rw [List.getElem?_append_right (by rw [List.length_replicate]; omega), List.length_replicate, if_pos heq]
        rw [heq, Nat.sub_self]
        rfl
      . rw [List.getElem?_eq_none (by simp; omega), if_neg (by omega)]

/-- Two lists of arguments are the same if they are as long and have the same slots. -/
theorem eq_of_slots {args args' : List Value} (hlength : args.length = args'.length)
    (hslots : ∀ i, args.getD i .undefined = args'.getD i .undefined)
    : args = args' := by
  apply List.ext_getElem hlength
  intro i hi hi'
  have hslot := hslots i
  rw [List.getD_eq_getElem?_getD, List.getD_eq_getElem?_getD, List.getElem?_eq_getElem hi,
    List.getElem?_eq_getElem hi'] at hslot
  exact hslot

/-- Writes at different places may be exchanged. -/
theorem putAt_comm (args : List Value) {pos pos' : Nat} (value value' : Value) (hne : pos ≠ pos')
    : putAt (putAt args pos value) pos' value' = putAt (putAt args pos' value') pos value := by
  apply eq_of_slots
  . simp only [length_putAt]
    omega
  . intro i
    simp only [getD_putAt]
    split
    . next heq => rw [if_neg (by omega)]
    . rfl

theorem length_land (args : List Value) (landings : List (Nat × Value))
    : (land args landings).length = max args.length (extent landings) := by
  induction landings generalizing args with
  | nil => exact (Nat.max_zero args.length).symm
  | cons landing landings ih =>
    have hextent : extent (landing :: landings) = max (landing.1 + 1) (extent landings) := rfl
    have hland : land args (landing :: landings) = land (putAt args landing.1 landing.2) landings := rfl
    rw [hland, ih, length_putAt, hextent, Nat.max_assoc]

theorem getD_land (args : List Value) (landings : List (Nat × Value)) (pos : Nat)
    : (land args landings).getD pos .undefined = (lastUnder? landings pos).getD (args.getD pos .undefined) := by
  induction landings generalizing args with
  | nil => rfl
  | cons landing landings ih =>
    have hland : land args (landing :: landings) = land (putAt args landing.1 landing.2) landings := rfl
    rw [hland, ih, lastUnder?_cons, getD_putAt]
    cases lastUnder? landings pos with
    | some value => rfl
    | none =>
      rw [Option.none_or]
      by_cases heq : pos = landing.1
      . rw [if_pos heq, if_pos heq.symm]
        rfl
      . rw [if_neg heq, if_neg (Ne.symm heq), Option.getD_none]

end Slots

section Landings

variable {params : List String} {keys keys' : List (String × Value)}

/-- What lands comes from a keyword that names the parameter at that place. -/
theorem mem_landings {landing : Nat × Value} (h : landing ∈ landings params keys)
    : ∃ key ∈ keys, params.idxOf? key.1 = some landing.1 ∧ key.2 = landing.2 := by
  unfold landings at h
  rw [List.mem_filterMap] at h
  rcases h with ⟨key, hkey, h⟩
  split at h
  . cases h
  . rw [Option.map_eq_some_iff] at h
    rcases h with ⟨pos, hpos, rfl⟩
    exact ⟨key, hkey, hpos, rfl⟩

theorem eq_of_idxOf? {name name' : String} {pos : Nat} (h : params.idxOf? name = some pos)
    (h' : params.idxOf? name' = some pos)
    : name = name' := by
  rw [List.idxOf?_eq_some_iff] at h h'
  grind

/-- Keywords with different names land at different places. -/
theorem eq_of_landings (hkeys : (keys.map (·.1)).Nodup) {landing landing' : Nat × Value}
    (h : landing ∈ landings params keys) (h' : landing' ∈ landings params keys) (hpos : landing.1 = landing'.1)
    : landing = landing' := by
  rcases mem_landings h with ⟨key, hkey, hidx, hvalue⟩
  rcases mem_landings h' with ⟨key', hkey', hidx', hvalue'⟩
  rw [← hpos] at hidx'
  have hname : key.1 = key'.1 := eq_of_idxOf? hidx hidx'
  have hsame : key = key' := List.inj_on_of_nodup_map hkeys hkey hkey' hname
  rw [hsame] at hvalue
  exact Prod.ext hpos (hvalue.symm.trans hvalue')

/-- The order of keywords with different names does not matter. -/
theorem land_perm (args : List Value) (hperm : keys.Perm keys') (hkeys : (keys.map (·.1)).Nodup)
    : land args (landings params keys) = land args (landings params keys') := by
  apply (hperm.filterMap _).foldl_eq'
  intro landing h landing' h' args
  by_cases hpos : landing.1 = landing'.1
  . rw [eq_of_landings hkeys h h' hpos]
  . exact putAt_comm args _ _ hpos

end Landings

section Layout

variable {heap : Heap} {params : List String} {callee : String} {supplied laid : List Value}
  {front : List PendingArg} {keys : List (String × Value)}

/-- Arguments are laid out from left to right, and the first error counts. -/
theorem place_go_append (args : List Value) (front rest : List PendingArg)
    : place.go heap params callee supplied args (front ++ rest) =
        match place.go heap params callee supplied args front with
        | .ok args => place.go heap params callee supplied args rest
        | .error cause => .error cause := by
  induction front generalizing args with
  | nil => rfl
  | cons arg front ih =>
    rw [List.cons_append]
    cases arg with
    | positional value => exact ih (args ++ [value])
    | keyword name value =>
      rw [place.go, place.go]
      cases putKeyword params callee args name value with
      | ok args => exact ih args
      | error cause => rfl
    | spread value =>
      rw [place.go, place.go]
      cases heap.items? value with
      | some items => exact ih (args ++ items.toList)
      | none => rfl
    | hole index =>
      rw [place.go, place.go]
      cases fillHole index supplied with
      | ok value => exact ih (args ++ [value])
      | error cause => rfl

theorem place_go_laysOut (hfront : heap.LaysOut supplied front laid) (args : List Value)
    : place.go heap params callee supplied args front = .ok (args ++ laid) := by
  induction hfront generalizing args with
  | nil => rw [place.go, List.append_nil]
  | positional value _ ih => rw [place.go, ih, List.append_assoc, List.singleton_append]
  | hole hfill _ ih =>
    rw [place.go, hfill]
    dsimp only
    rw [ih, List.append_assoc, List.singleton_append]
  | spread hitems _ ih =>
    rw [place.go, hitems]
    dsimp only
    rw [ih, List.append_assoc]

theorem landings_cons (key : String × Value) (keys : List (String × Value)) {pos : Nat}
    (hpos : params.idxOf? key.1 = some pos) (args : List Value)
    : land args (landings params (key :: keys)) =
        land (if key.2.isUndefined then args else putAt args pos key.2) (landings params keys) := by
  unfold landings
  rw [List.filterMap_cons, hpos]
  cases key.2.isUndefined <;> rfl

/-- Keywords that are all declared are written one after the other. -/
theorem place_go_keywords (hkeys : ∀ key ∈ keys, key.1 ∈ params) (args : List Value)
    : place.go heap params callee supplied args (keywords keys) = .ok (land args (landings params keys)) := by
  induction keys generalizing args with
  | nil => rfl
  | cons key keys ih =>
    have hkey : params.idxOf? key.1 ≠ none := by
      rw [Ne, List.idxOf?_eq_none_iff, not_not]
      exact hkeys key (List.mem_cons_self ..)
    rcases Option.ne_none_iff_exists'.mp hkey with ⟨pos, hpos⟩
    have hkeyword : keywords (key :: keys) = .keyword key.1 key.2 :: keywords keys := rfl
    rw [hkeyword, place.go, putKeyword, hpos]
    dsimp only
    rw [ih fun key h => hkeys key (List.mem_cons_of_mem _ h), landings_cons key keys hpos]

/-- The first keyword that is not declared is an error. -/
theorem place_go_undeclared (hkeys : ∃ key ∈ keys, key.1 ∉ params) (args : List Value)
    : ∃ key ∈ keys, key.1 ∉ params ∧
        place.go heap params callee supplied args (keywords keys) = .error (.invalidKeyword key.1 callee) := by
  induction keys generalizing args with
  | nil =>
    rcases hkeys with ⟨_, hkey, _⟩
    cases hkey
  | cons key keys ih =>
    have hkeyword : keywords (key :: keys) = .keyword key.1 key.2 :: keywords keys := rfl
    rw [hkeyword, place.go, putKeyword]
    cases hpos : params.idxOf? key.1 with
    | none => exact ⟨key, List.mem_cons_self .., List.idxOf?_eq_none_iff.mp hpos, rfl⟩
    | some pos =>
      have hdeclared : key.1 ∈ params := by
        by_contra hmissing
        rw [List.idxOf?_eq_none_iff.mpr hmissing] at hpos
        cases hpos
      have hrest : ∃ key ∈ keys, key.1 ∉ params := by
        rcases hkeys with ⟨other, hother, hmissing⟩
        rcases List.mem_cons.mp hother with rfl | hother
        . exact absurd hdeclared hmissing
        . exact ⟨other, hother, hmissing⟩
      rcases ih hrest (if key.2.isUndefined then args else putAt args pos key.2) with ⟨bad, hbad, hmissing, hgo⟩
      exact ⟨bad, List.mem_cons_of_mem _ hbad, hmissing, hgo⟩

end Layout

end Args

section Calls

variable {m : Machine} {s : State} {callee : Value} {params : List String} {supplied laid : List Value}
  {front args : List PendingArg} {isOptional : Bool}

theorem isCallable_apply (value : Value) (s : State) : Run.isCallable value s = .ok (s.heap.isCallable value) s := rfl

/-- What can be called is called with its arguments once they are in place. -/
theorem applyArgs_placed (hcallable : s.heap.isCallable callee = true) {placed : List Value} {t : State}
    (hplaced : m.placeArgs callee args supplied s = .ok placed t)
    : m.applyArgs callee args supplied isOptional s = m.invoke callee .undefined placed t := by
  unfold Machine.applyArgs
  rw [Run.bind_ok (isCallable_apply callee s), if_pos hcallable, Run.bind_ok hplaced]

theorem applyArgs_unplaced (hcallable : s.heap.isCallable callee = true) {halt : Halt} {t : State}
    (hplaced : m.placeArgs callee args supplied s = .error halt t)
    : m.applyArgs callee args supplied isOptional s = .error halt t := by
  unfold Machine.applyArgs
  rw [Run.bind_ok (isCallable_apply callee s), if_pos hcallable, Run.bind_error hplaced]

/-- The arguments are laid out with the parameters that were looked up, which happens if there are keywords. -/
theorem placeArgs_apply (hparams : args.any PendingArg.isKeyword = true → m.argNames callee s = .ok params s)
    (hnone : args.any PendingArg.isKeyword = false → params = [])
    : m.placeArgs callee args supplied s =
        Run.ofExcept (Args.place s.heap params (s.heap.calleeName callee) args supplied) s := by
  unfold Machine.placeArgs
  cases hany : args.any PendingArg.isKeyword with
  | true =>
    rw [if_pos rfl, Run.bind_ok (hparams hany)]
    rfl
  | false =>
    rw [if_neg Bool.false_ne_true, hnone hany]
    rfl

/-- Without keywords the parameters are not looked up, and do not matter. -/
theorem placeArgs_keywords_apply (hparams : m.argNames callee s = .ok params s)
    (hfront : s.heap.LaysOut supplied front laid) (keys : List (String × Value))
    : m.placeArgs callee (front ++ Args.keywords keys) supplied s =
        Run.ofExcept (Args.place.go s.heap params (s.heap.calleeName callee) supplied laid (Args.keywords keys)) s := by
  have hplace (params : List String) : Args.place s.heap params (s.heap.calleeName callee)
      (front ++ Args.keywords keys) supplied =
        Args.place.go s.heap params (s.heap.calleeName callee) supplied laid (Args.keywords keys) := by
    unfold Args.place
    rw [Args.place_go_append, Args.place_go_laysOut hfront]
    rfl
  cases keys with
  | nil =>
    cases hany : (front ++ Args.keywords []).any PendingArg.isKeyword with
    | true => rw [placeArgs_apply (fun _ => hparams) (fun h => nomatch hany.symm.trans h), hplace]
    | false =>
      rw [placeArgs_apply (fun h => nomatch hany.symm.trans h) (fun _ => rfl), hplace]
      rfl
  | cons key keys =>
    have hany : (front ++ Args.keywords (key :: keys)).any PendingArg.isKeyword = true := by
      rw [List.any_append, Bool.or_eq_true]
      exact .inr rfl
    rw [placeArgs_apply (fun _ => hparams) (fun h => nomatch hany.symm.trans h), hplace]

/--
Keyword arguments land on their parameters. The arguments before them lay out to a list. If one of them is not
declared, the call fails and nothing is called. Otherwise the list is as long as before, or as it takes to reach the
last parameter that is given a value. A slot holds the last value that was given to its parameter, and if there is
none what was there before, and all that is padded is `undefined`. So keywords with different names may be given in
any order.
-/
theorem placeArgs_keywords (hparams : m.argNames callee s = .ok params s)
    (hfront : s.heap.LaysOut supplied front laid) (keys : List (String × Value)) (isOptional : Bool)
    : ((∃ key ∈ keys, key.1 ∉ params) → ∃ key ∈ keys, key.1 ∉ params ∧
        let refused := Error.ofCause (.invalidKeyword key.1 (s.heap.calleeName callee))
        m.placeArgs callee (front ++ Args.keywords keys) supplied s = .error (.raised refused) s ∧
        (s.heap.isCallable callee = true →
          m.applyArgs callee (front ++ Args.keywords keys) supplied isOptional s = .error (.raised refused) s)) ∧
      ((∀ key ∈ keys, key.1 ∈ params) → ∃ placed,
        placed.length = max laid.length (Args.extent (Args.landings params keys)) ∧
        (∀ pos, pos < placed.length → placed[pos]? =
          some ((lastUnder? (Args.landings params keys) pos).getD (laid.getD pos .undefined))) ∧
        ∀ keys', (keys' = keys ∨ keys'.Perm keys ∧ (keys'.map (·.1)).Nodup) →
          m.placeArgs callee (front ++ Args.keywords keys') supplied s = .ok placed s ∧
          (s.heap.isCallable callee = true →
            m.applyArgs callee (front ++ Args.keywords keys') supplied isOptional s =
              m.invoke callee .undefined placed s)) := by
  constructor
  . intro hmissing
    have hrefused : ∃ key ∈ keys, key.1 ∉ params ∧
        Args.place.go s.heap params (s.heap.calleeName callee) supplied laid (Args.keywords keys) =
          .error (.invalidKeyword key.1 (s.heap.calleeName callee)) :=
      Args.place_go_undeclared hmissing laid
    rcases hrefused with ⟨key, hkey, hmissing, hgo⟩
    have hplaced := placeArgs_keywords_apply hparams hfront keys
    rw [hgo] at hplaced
    exact ⟨key, hkey, hmissing, hplaced, fun hcallable => applyArgs_unplaced hcallable hplaced⟩
  . intro hdeclared
    refine ⟨Args.land laid (Args.landings params keys), Args.length_land .., ?_, ?_⟩
    . intro pos hpos
      rw [← Args.getD_land, List.getD_eq_getElem?_getD, List.getElem?_eq_getElem hpos]
      rfl
    . intro keys' hkeys'
      have hland : Args.land laid (Args.landings params keys') = Args.land laid (Args.landings params keys) := by
        rcases hkeys' with heq | ⟨hperm, hnames⟩
        . rw [heq]
        . exact Args.land_perm laid hperm hnames
      have hdeclared' : ∀ key ∈ keys', key.1 ∈ params := by
        intro key hkey
        rcases hkeys' with heq | ⟨hperm, _⟩
        . rw [heq] at hkey
          exact hdeclared key hkey
        . exact hdeclared key (hperm.mem_iff.mp hkey)
      have hplaced := placeArgs_keywords_apply hparams hfront keys'
      rw [Args.place_go_keywords hdeclared', hland] at hplaced
      exact ⟨hplaced, fun hcallable => applyArgs_placed hcallable hplaced⟩

/-- A keyword that lands on an argument and one that lands further on, in both orders, and one that is not declared. -/
theorem keywords_of_range_land
    : let m := Host.none.machine 9
      let s := Engine.stateAfter (Run.newNative ⟨"range", Builtin.range.params, .builtin .range⟩)
        (Engine.bareState {} .silent 0)
      let range := Value.native ⟨0⟩
      let front := [PendingArg.positional (.int 1)]
      let keys := [("step", Value.int 3), ("end", .undefined), ("begin", .int 5)]
      m.argNames range s = .ok Builtin.range.params s ∧ s.heap.LaysOut [] front [.int 1] ∧
        m.placeArgs range (front ++ Args.keywords keys) [] s = .ok [.int 5, .undefined, .int 3] s ∧
        m.applyArgs range (front ++ Args.keywords keys.reverse) [] false s =
          m.invoke range .undefined [.int 5, .undefined, .int 3] s ∧
        m.applyArgs range (front ++ Args.keywords [("step", .int 3), ("stop", .int 9)]) [] false s =
          .error (.raised (.ofCause (.invalidKeyword "stop" "range"))) s := by
  intro m s range front keys
  have hparams : m.argNames range s = .ok Builtin.range.params s := rfl
  have hfront : s.heap.LaysOut [] front [.int 1] := .positional (.int 1) .nil
  refine ⟨hparams, hfront, ?_⟩
  rcases (placeArgs_keywords hparams hfront keys false).2 (by decide) with ⟨placed, hlength, hslots, hplaced⟩
  rcases (placeArgs_keywords hparams hfront [("step", .int 3), ("stop", .int 9)] false).1
    ⟨_, .tail _ (.head _), by decide⟩ with ⟨key, hkey, hmissing, _, hrefused⟩
  have hplaced' : placed = [.int 5, .undefined, .int 3] := by
    have hlength : placed.length = 3 := hlength
    apply List.ext_getElem?
    intro i
    rcases Nat.lt_or_ge i 3 with hi | hi
    . rw [hslots i (by omega)]
      interval_cases i <;> rfl
    . rw [List.getElem?_eq_none (by omega), List.getElem?_eq_none hi]
  have hkey : key = ("stop", .int 9) := by
    rcases hkey with _ | ⟨_, _ | ⟨_, hkey⟩⟩
    . exact absurd (by decide) hmissing
    . rfl
    . cases hkey
  rw [hplaced'] at hplaced
  rw [hkey] at hrefused
  have hreversed := hplaced keys.reverse (.inr ⟨List.reverse_perm keys, by decide⟩)
  exact ⟨(hplaced keys (.inl rfl)).1, hreversed.2 rfl, hrefused rfl⟩

end Calls

end ScriptEngine
