import Mathlib.Data.List.Infix
import ScriptEngine.Engine.Setup
import ScriptEngine.Library.Methods
import ScriptEngine.Proofs.Slices

/-!
This module contains the pieces of a text between separators. The text is cut at the leftmost separator, and its rest
again, until there is none or the limit is reached. So no character is lost: the pieces with separators between them
are the text.
-/

namespace ScriptEngine

namespace Text

/-- A separator stands at a place of a text. -/
def StandsAt (sep cs : List Char) (i : Nat) : Prop := i ≤ cs.length ∧ sep <+: cs.drop i

/-- How far a separator has to be from the end of the one before it: two empty ones do not stand at one place. -/
def gap (sep : List Char) : Nat := if sep.isEmpty then 1 else 0

/--
The pieces of a text that is cut at separators, each time at the leftmost one that does not stand before the place
`first`. There are at most `limit` pieces, but always one.
-/
inductive Cuts (sep : List Char) : Nat → Nat → List Char → List (List Char) → Prop where
  | whole {first limit : Nat} {cs : List Char} (hwhole : limit ≤ 1 ∨ ∀ i, first ≤ i → ¬StandsAt sep cs i)
    : Cuts sep first limit cs [cs]
  | cut {first limit : Nat} {cs piece rest : List Char} {pieces : List (List Char)} (hlimit : 1 < limit)
      (hcs : piece ++ sep ++ rest = cs) (hfirst : first ≤ piece.length)
      (hleftmost : ∀ i, first ≤ i → StandsAt sep cs i → piece.length ≤ i)
      (hrest : Cuts sep (gap sep) (limit - 1) rest pieces)
    : Cuts sep first limit cs (piece :: pieces)

section Cuts

variable {sep cs piece : List Char} {pieces pieces' : List (List Char)} {first limit limit' : Nat}

theorem Cuts.ne_nil (h : Cuts sep first limit cs pieces) : pieces ≠ [] := by
  cases h <;> exact List.cons_ne_nil _ _

theorem Cuts.intercalate (h : Cuts sep first limit cs pieces) : sep.intercalate pieces = cs := by
  induction h with
  | whole => exact List.intercalate_singleton
  | cut _ hcs _ _ hrest ih =>
    rw [List.intercalate_cons_of_ne_nil hrest.ne_nil, ih, hcs]

theorem Cuts.length_le (h : Cuts sep first limit cs pieces) (hlimit : 0 < limit) : pieces.length ≤ limit := by
  induction h with
  | whole => exact hlimit
  | cut hlimit _ _ _ _ ih =>
    have hrest := ih (by omega)
    rw [List.length_cons]
    omega

/-- A limit that was not reached can be replaced by any other that leaves room for the pieces. -/
theorem Cuts.of_limit (h : Cuts sep first limit cs pieces) (hlength : pieces.length < limit)
    (hlimit : pieces.length ≤ limit')
    : Cuts sep first limit' cs pieces := by
  induction h generalizing limit' with
  | whole hwhole =>
    refine .whole (.inr ?_)
    rcases hwhole with hwhole | hwhole
    . exact absurd hlength (by simpa using hwhole)
    . exact hwhole
  | cut _ hcs hfirst hleftmost hrest ih =>
    rw [List.length_cons] at hlength hlimit
    have hrestLength := List.length_pos_iff.mpr hrest.ne_nil
    exact .cut (by omega) hcs hfirst hleftmost (ih (by omega) (by omega))

theorem StandsAt.of_append (piece sep rest : List Char) : StandsAt sep (piece ++ sep ++ rest) piece.length := by
  refine ⟨by simp, ?_⟩
  rw [List.append_assoc, List.drop_left]
  exact List.prefix_append sep rest

theorem Cuts.unique (h : Cuts sep first limit cs pieces) (h' : Cuts sep first limit cs pieces')
    : pieces = pieces' := by
  induction h generalizing pieces' with
  | whole hwhole =>
    cases h' with
    | whole => rfl
    | @cut _ _ _ piece rest _ hlimit hcs hfirst =>
      rcases hwhole with hwhole | hwhole
      . omega
      . rw [← hcs] at hwhole
        exact absurd (StandsAt.of_append piece sep rest) (hwhole _ hfirst)
  | @cut _ _ _ piece rest _ hlimit hcs hfirst hleftmost _ ih =>
    cases h' with
    | whole hwhole =>
      rcases hwhole with hwhole | hwhole
      . omega
      . rw [← hcs] at hwhole
        exact absurd (StandsAt.of_append piece sep rest) (hwhole _ hfirst)
    | @cut _ _ _ piece' rest' _ _ hcs' hfirst' hleftmost' hrest' =>
      have hlength : piece.length = piece'.length := by
        apply Nat.le_antisymm
        . apply hleftmost _ hfirst'
          rw [← hcs']
          exact StandsAt.of_append piece' sep rest'
        . apply hleftmost' _ hfirst
          rw [← hcs]
          exact StandsAt.of_append piece sep rest
      rw [← hcs', List.append_assoc, List.append_assoc] at hcs
      rcases List.append_inj hcs hlength with ⟨hpiece, hrest⟩
      rw [← List.append_cancel_left hrest] at hrest'
      rw [hpiece, ih hrest']

theorem gap_of_ne_nil (hsep : sep ≠ []) : gap sep = 0 := by
  unfold gap
  rw [if_neg (by simpa using hsep)]

theorem one_le_gap (sep : List Char) : 1 ≤ gap sep + sep.length := by
  cases sep with
  | nil => decide
  | cons c sep => exact Nat.le_add_left 1 _

/-- Every piece but the last takes a character with it, or the separator after it does. -/
theorem Cuts.length_le_of_gap (h : Cuts sep first limit cs pieces) (hgap : 1 ≤ first + sep.length)
    : pieces.length ≤ cs.length + 1 := by
  induction h with
  | whole => exact Nat.le_add_left 1 _
  | cut _ hcs hfirst _ _ ih =>
    have hrest := ih (one_le_gap sep)
    rw [← hcs, List.length_append, List.length_append, List.length_cons]
    omega

theorem Cuts.length_le_text (h : Cuts sep first limit cs pieces) : pieces.length ≤ cs.length + 2 := by
  cases h with
  | whole => exact Nat.le_add_left 1 _
  | cut _ hcs _ _ hrest =>
    have hrest := hrest.length_le_of_gap (one_le_gap sep)
    rw [← hcs, List.length_append, List.length_append, List.length_cons]
    omega

theorem exists_standsAt_of_infix (h : sep <:+: piece) (rest : List Char)
    : ∃ i, i + sep.length ≤ piece.length ∧ StandsAt sep (piece ++ rest) i := by
  rcases h with ⟨before, after, hpiece⟩
  refine ⟨before.length, ?_, ?_⟩
  . rw [← hpiece, List.length_append, List.length_append]
    omega
  . rw [← hpiece, List.append_assoc]
    exact StandsAt.of_append before sep (after ++ rest)

/-- No piece has the separator in it, apart from the last one when the limit is reached. -/
theorem Cuts.not_infix (h : Cuts sep first limit cs pieces) (hfirst : first = 0) (hsep : sep ≠ [])
    (hpiece : piece ∈ pieces.dropLast ∨ piece ∈ pieces ∧ pieces.length < limit)
    : ¬sep <:+: piece := by
  have hlength := List.length_pos_iff.mpr hsep
  induction h with
  | @whole first limit cs hwhole =>
    rcases hpiece with hpiece | ⟨hpiece, hlimit⟩
    . cases hpiece
    . rw [List.mem_singleton.mp hpiece]
      intro hinfix
      rcases exists_standsAt_of_infix hinfix [] with ⟨i, _, hi⟩
      rw [List.append_nil] at hi
      rcases hwhole with hwhole | hwhole
      . exact absurd hlimit (by simpa using hwhole)
      . exact hwhole i (by omega) hi
  | @cut first limit cs front rest pieces _ hcs _ hleftmost hrest ih =>
    rw [List.dropLast_cons_of_ne_nil hrest.ne_nil, List.mem_cons, List.mem_cons, List.length_cons] at hpiece
    by_cases hfront : piece = front
    . intro hinfix
      rcases exists_standsAt_of_infix hinfix (sep ++ rest) with ⟨i, hle, hi⟩
      rw [hfront, ← List.append_assoc, hcs] at hi
      have hge := hleftmost i (by omega) hi
      rw [hfront] at hle
      omega
    . apply ih (gap_of_ne_nil hsep)
      rcases hpiece with hpiece | hpiece
      . exact .inl (hpiece.resolve_left hfront)
      . exact .inr ⟨hpiece.1.resolve_left hfront, by omega⟩

end Cuts

section Split

variable {cs piece : List Char} {sep : List Char} {limit skip : Nat}

theorem standsAt_end (front : List Char) : StandsAt sep (front ++ cs) front.length ↔ sep <+: cs := by
  unfold StandsAt
  rw [List.drop_left, List.length_append]
  exact and_iff_right (Nat.le_add_right _ _)

/--
The pieces from one on that is partly read. As long as another one may follow, no separator stands at a place that
was passed.
-/
theorem split_go_cuts (hsep : sep ≠ [])
    (hpassed : 1 < limit → ∀ i, StandsAt sep (piece.reverse ++ cs.drop skip) i → piece.reverse.length ≤ i)
    : Cuts sep 0 limit (piece.reverse ++ cs.drop skip) (split.go sep limit piece skip cs) := by
  fun_induction split.go sep limit piece skip cs with
  | case1 limit piece skip =>
    rw [List.drop_nil, List.append_nil] at hpassed ⊢
    apply Cuts.whole
    by_cases hlimit : 1 < limit
    . right
      intro i _ hi
      have hend : i = piece.reverse.length := Nat.le_antisymm hi.1 (hpassed hlimit i hi)
      rw [← List.append_nil piece.reverse, hend, standsAt_end, List.prefix_nil] at hi
      exact hsep hi
    . exact .inl (by omega)
  | case2 limit piece c cs k ih => exact ih hpassed
  | case3 limit piece c cs hcut ih =>
    rw [Bool.and_eq_true, decide_eq_true_iff, List.isPrefixOf_iff_prefix] at hcut
    rcases hcut with ⟨hlimit, rest, hrest⟩
    have hskipped : cs.drop (sep.length - 1) = rest := by
      cases sep with
      | nil => exact absurd rfl hsep
      | cons c' sep =>
        injection hrest with _ hrest
        rw [← hrest]
        exact List.drop_left
    have hpieces := ih fun _ i _ => Nat.zero_le i
    rw [List.reverse_nil, List.nil_append, hskipped] at hpieces
    have hcs : piece.reverse ++ sep ++ rest = piece.reverse ++ (c :: cs).drop 0 := by
      rw [List.append_assoc, hrest, List.drop_zero]
    refine .cut hlimit hcs (Nat.zero_le _) (fun i _ hi => hpassed hlimit i hi) ?_
    rw [gap_of_ne_nil hsep]
    exact hpieces
  | case4 limit piece c cs hcut ih =>
    rw [Bool.and_eq_true, decide_eq_true_iff, List.isPrefixOf_iff_prefix] at hcut
    have hcs : (c :: piece).reverse ++ cs.drop 0 = piece.reverse ++ (c :: cs).drop 0 := by simp
    rw [hcs] at ih
    apply ih
    intro hlimit i hi
    have hle := hpassed hlimit i hi
    have hne : i ≠ piece.reverse.length := by
      intro hend
      rw [hend, List.drop_zero, standsAt_end] at hi
      exact hcut ⟨hlimit, hi⟩
    rw [List.reverse_cons, List.length_append, List.length_singleton]
    omega

/-- The empty separator stands wherever it may stand. -/
theorem splitChars_go_cuts (limit : Nat) (cs : List Char) : Cuts [] 1 limit cs (splitChars.go limit cs) := by
  fun_induction splitChars.go limit cs with
  | case1 limit =>
    apply Cuts.whole
    right
    intro i hfirst hi
    exact Nat.not_succ_le_zero 0 (Nat.le_trans hfirst hi.1)
  | case2 limit c cs hlimit => exact .whole (.inl hlimit)
  | case3 limit c cs hlimit ih =>
    have hcs : [c] ++ [] ++ cs = c :: cs := rfl
    exact .cut (by omega) hcs (Nat.le_refl 1) (fun i hfirst _ => hfirst) ih

theorem splitChars_cuts (limit : Nat) (cs : List Char) : Cuts [] 0 limit cs (splitChars limit cs) := by
  unfold splitChars
  split
  . next hlimit => exact .whole (.inl hlimit)
  . next hlimit =>
    have hcs : [] ++ [] ++ cs = cs := rfl
    exact .cut (by omega) hcs (Nat.le_refl 0) (fun i hfirst _ => hfirst) (splitChars_go_cuts _ cs)

section Texts

variable {text sep part : String} {limit : Nat}

theorem splitAtMost_cuts (limit : Nat) (text sep : String)
    : Cuts sep.toList 0 limit text.toList ((splitAtMost limit text sep).map String.toList) := by
  unfold splitAtMost
  rw [List.map_map]
  have hid : String.toList ∘ String.ofList = id := funext fun cs => String.toList_ofList
  rw [hid, List.map_id]
  by_cases hsep : sep.toList = []
  . have hempty : sep.isEmpty = true := by simpa using hsep
    rw [hempty, if_pos rfl, hsep]
    exact splitChars_cuts limit text.toList
  . have hempty : ¬sep.isEmpty = true := by simpa using hsep
    have hcuts : Cuts sep.toList 0 limit ([].reverse ++ text.toList.drop 0)
        (split.go sep.toList limit [] 0 text.toList) :=
      split_go_cuts hsep fun _ i _ => Nat.zero_le i
    rw [if_neg hempty]
    exact hcuts

/-- The pieces are the same with every limit that leaves room for them. -/
theorem split_cuts (hlimit : (split text sep).length ≤ limit)
    : Cuts sep.toList 0 limit text.toList ((split text sep).map String.toList) := by
  have hall := splitAtMost_cuts (text.length + 3) text sep
  have hlength := hall.length_le_text
  rw [String.length_toList] at hlength
  have hsame := (splitAtMost_cuts (text.length + 2) text sep).unique (hall.of_limit (by omega) hlength)
  change (split text sep).map String.toList = _ at hsame
  rw [← hsame] at hall hlength
  rw [← List.length_map] at hlimit
  exact hall.of_limit (by omega) hlimit

theorem eq_of_cuts {pieces pieces' : List String}
    (h : Cuts sep.toList 0 limit text.toList (pieces.map String.toList))
    (h' : Cuts sep.toList 0 limit text.toList (pieces'.map String.toList))
    : pieces = pieces' :=
  (List.map_inj_right fun _ _ => String.toList_inj.mp).mp (h.unique h')

theorem intercalate_of_cuts {pieces : List String}
    (h : Cuts sep.toList 0 limit text.toList (pieces.map String.toList))
    : sep.intercalate pieces = text := by
  rw [← String.toList_inj, String.toList_intercalate]
  exact h.intercalate

theorem contains_iff : contains text part = true ↔ part.toList <:+: text.toList := by
  have hgo (cs : List Char) : contains.go part.toList cs = true ↔ part.toList <:+: cs := by
    induction cs with
    | nil => rw [contains.go, List.isEmpty_iff, List.infix_nil]
    | cons c cs ih => rw [contains.go, Bool.or_eq_true, List.isPrefixOf_iff_prefix, ih, List.infix_cons_iff]
  exact hgo text.toList

theorem not_contains_of_cuts {pieces : List String} {piece : String}
    (h : Cuts sep.toList 0 limit text.toList (pieces.map String.toList)) (hsep : sep ≠ "")
    (hpiece : piece ∈ pieces.dropLast ∨ piece ∈ pieces ∧ pieces.length < limit)
    : contains piece sep = false := by
  rw [Bool.eq_false_iff, ne_eq, contains_iff]
  apply h.not_infix rfl
  . simpa using hsep
  . rw [← List.map_dropLast, List.length_map]
    exact hpiece.imp (List.mem_map_of_mem ·) fun hmem => ⟨List.mem_map_of_mem hmem.1, hmem.2⟩

end Texts

end Split

end Text

section Methods

variable {m : Machine} {s : State} {text sep : String} {pieces : List String}

theorem Machine.mapM_stringify_str (hfuel : m.fuel ≠ 0) (texts : List String) (s : State)
    : (texts.map Value.str).mapM m.stringify s = .ok texts s := by
  induction texts with
  | nil => rfl
  | cons text texts ih =>
    rw [List.map_cons, List.mapM_cons, Run.bind_ok (stringify_str hfuel text s), Run.bind_ok ih]
    rfl

namespace Library

theorem join_texts (hfuel : m.fuel ≠ 0) {ref : ArrayRef}
    (hitems : s.heap.elements? (.array ref) = some (pieces.map Value.str)) (sep : String)
    : runMethod m .arrayJoin (.array ref) [.str sep] s = .ok (.str (sep.intercalate pieces)) s := by
  have htexts := Machine.mapM_stringify_str hfuel pieces s
  rw [← (Heap.elements?_array hitems).2] at htexts
  exact Run.bind_ok htexts

/--
A call of `split` with a separator, and maybe a limit, makes an array of these pieces. Joining them gives the text,
whatever has happened in between.
-/
def SplitsInto (m : Machine) (text sep : String) (limit : List Value) (s : State) (pieces : List String) : Prop :=
  ∃ v h, runMethod m .strSplit (.str text) (.str sep :: limit) s = .ok v { s with heap := h } ∧
    s.heap.Makes h BuiltinType.array.ref v (pieces.map Value.str) ∧
    ∀ u : State, u.heap.elements? v = some (pieces.map Value.str) →
      runMethod m .arrayJoin v [.str sep] u = .ok (.str text) u

theorem splitsInto_of_cuts {limit : List Value} {n : Nat} (hfuel : m.fuel ≠ 0)
    (hsplit : runMethod m .strSplit (.str text) (.str sep :: limit) s = strArray pieces s)
    (hcuts : Text.Cuts sep.toList 0 n text.toList (pieces.map String.toList))
    : SplitsInto m text sep limit s pieces := by
  have hmakes := s.heap.newArray_makes (pieces.map Value.str).toArray
  refine ⟨_, _, hsplit, hmakes, ?_⟩
  intro u hu
  rw [← Text.intercalate_of_cuts hcuts]
  exact join_texts hfuel hu sep

end Library

open Library in
/--
The pieces of a text between separators are joined to the text again. They are cut at the separators from left to
right, and none of them has the separator in it unless it is empty. With a limit there are no more pieces than that.
They are all pieces if these are no more, and otherwise the last one is what was not cut.
-/
theorem pieces_are_joined_again (hfuel : m.fuel ≠ 0) (text sep : String) (s : State)
    : let all := Text.split text sep
      SplitsInto m text sep [] s all ∧
        (∀ limit, all.length ≤ limit → Text.Cuts sep.toList 0 limit text.toList (all.map String.toList)) ∧
        (sep ≠ "" → ∀ piece ∈ all, Text.contains piece sep = false) ∧
        ∀ limit : Int64, 0 < limit →
          let pieces := Text.splitAtMost limit.toInt.toNat text sep
          SplitsInto m text sep [.int limit] s pieces ∧
            Text.Cuts sep.toList 0 limit.toInt.toNat text.toList (pieces.map String.toList) ∧
            (pieces.length : Int) ≤ limit.toInt ∧
            ((all.length : Int) ≤ limit.toInt → pieces = all) ∧
            (sep ≠ "" → ∀ piece ∈ pieces.dropLast, Text.contains piece sep = false) := by
  intro all
  have hall {limit : Nat} (hlimit : all.length ≤ limit) := Text.split_cuts hlimit
  refine ⟨splitsInto_of_cuts hfuel rfl (hall (Nat.le_refl _)), fun _ => hall, ?_, ?_⟩
  . intro hsep piece hpiece
    exact Text.not_contains_of_cuts (hall (Nat.le_succ _)) hsep (.inr ⟨hpiece, Nat.lt_succ_self _⟩)
  . intro limit hlimit pieces
    have hpos : 0 < limit.toInt := Int64.lt_iff_toInt_lt.mp hlimit
    have hcuts := Text.splitAtMost_cuts limit.toInt.toNat text sep
    have hsplit : runMethod m .strSplit (.str text) [.str sep, .int limit] s = strArray pieces s := by
      show (if 0 < limit then strArray pieces else strArray all) s = _
      rw [if_pos hlimit]
    refine ⟨splitsInto_of_cuts hfuel hsplit hcuts, hcuts, ?_, ?_, ?_⟩
    . have hlength : _ ≤ limit.toInt.toNat := hcuts.length_le (by omega)
      rw [List.length_map] at hlength
      change pieces.length ≤ _ at hlength
      omega
    . intro hfits
      exact Text.eq_of_cuts hcuts (hall (by omega))
    . intro hsep piece hpiece
      exact Text.not_contains_of_cuts hcuts hsep (.inl hpiece)

/-- Separators that overlap and one at each end. -/
theorem overlapping_separators_are_joined_again
    : let m := Host.none.machine 12
      let s := Engine.bareState {} .silent 0
      m.fuel ≠ 0 ∧ (0 : Int64) < 2 ∧ "--" ≠ "" ∧
        Library.SplitsInto m "--a---b--" "--" [] s ["", "a", "-b", ""] ∧
        Text.contains "-b" "--" = false ∧
        Library.SplitsInto m "--a---b--" "--" [.int 2] s ["", "a---b--"] := by
  intro m s
  have hfuel : m.fuel ≠ 0 := by decide
  have hlimit : (0 : Int64) < 2 := by decide
  have hsep : "--" ≠ "" := by decide
  rcases pieces_are_joined_again hfuel "--a---b--" "--" s with ⟨hall, _, hnone, hlimited⟩
  have hpieces : Text.split "--a---b--" "--" = ["", "a", "-b", ""] := by decide
  have hfirst : Text.splitAtMost (2 : Int64).toInt.toNat "--a---b--" "--" = ["", "a---b--"] := by decide
  rw [hpieces] at hall hnone
  rcases hlimited 2 hlimit with ⟨htwo, _⟩
  rw [hfirst] at htwo
  exact ⟨hfuel, hlimit, hsep, hall, hnone hsep "-b" (by decide), htwo⟩

end Methods

end ScriptEngine
