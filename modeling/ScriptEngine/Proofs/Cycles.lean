import Mathlib.Data.Fintype.Card
import Mathlib.Data.Set.Finite.List
import Mathlib.Logic.Relation
import ScriptEngine.Heap.Display
import ScriptEngine.Heap.Equality
import ScriptEngine.Proofs.DataOrder

/-!
This module contains values that hold themselves. A walk through the values that a value holds comes to
an end if and only if none of them holds itself, since there are only so many in a heap. The texts of
values and their equality by structure are such walks.
-/

namespace ScriptEngine

open Relation (ReflTransGen TransGen)

namespace Heap

/-- The values whose texts are parts of the text of a value. -/
def shown (h : Heap) : Value → List Value
  | .bound _ _ callee => [callee]
  | value => h.parts value

/-- The values that are compared if a value is compared with another one. -/
def compared (h : Heap) : Value → List Value
  | .bound _ receiver callee => [receiver, callee]
  | value => h.parts value

theorem shown_subset_compared (h : Heap) (value : Value) : h.shown value ⊆ h.compared value := by
  cases value <;> simp [shown, compared]

theorem parts_subset_compared (h : Heap) (value : Value) : h.parts value ⊆ h.compared value := by
  cases value <;> simp [parts, compared]

end Heap

namespace Value

/-- A walk through `value` comes to `part` next. -/
def IsPart (parts : Value → List Value) (part value : Value) : Prop := part ∈ parts value

/-- No walk through a value goes on forever. -/
def IsFinite (parts : Value → List Value) (value : Value) : Prop := Acc (IsPart parts) value

/-- A value holds itself, or it holds a value that holds itself. -/
def HoldsCycle (parts : Value → List Value) (value : Value) : Prop :=
  ∃ inner, ReflTransGen (IsPart parts) inner value ∧ TransGen (IsPart parts) inner inner

variable {parts : Value → List Value} {value : Value}

theorem IsFinite.part {part : Value} (h : IsFinite parts value) (hpart : part ∈ parts value)
    : IsFinite parts part :=
  Acc.inv h hpart

theorem IsFinite.not_mem_self (h : IsFinite parts value) : ¬TransGen (IsPart parts) value value := by
  have hacc : Acc (TransGen (IsPart parts)) value := Acc.transGen h
  induction hacc with
  | intro value _ ih =>
    intro hcycle
    exact ih value hcycle h hcycle

theorem IsFinite.inner {inner : Value} (h : IsFinite parts value)
    (hinner : ReflTransGen (IsPart parts) inner value)
    : IsFinite parts inner := by
  induction hinner with
  | refl => exact h
  | tail _ hpart ih => exact ih (h.part hpart)

theorem IsFinite.not_holdsCycle (h : IsFinite parts value) : ¬HoldsCycle parts value := by
  rintro ⟨inner, hinner, hcycle⟩
  exact (h.inner hinner).not_mem_self hcycle

/-- Where a value holds finitely many others, only a cycle goes on forever. -/
theorem isFinite_of_not_holdsCycle
    (hfew : Set.Finite { inner | ReflTransGen (IsPart parts) inner value }) (h : ¬HoldsCycle parts value)
    : IsFinite parts value := by
  let Inner := { inner // ReflTransGen (IsPart parts) inner value }
  let below (x y : Inner) : Prop := TransGen (IsPart parts) x.1 y.1
  have : Finite Inner := hfew
  have : IsTrans Inner below := ⟨fun x y z hxy hyz => TransGen.trans hxy hyz⟩
  have : Std.Irrefl below := ⟨fun x hcycle => h ⟨x.1, x.2, hcycle⟩⟩
  have hbelow : WellFounded below := Finite.wellFounded_of_trans_of_irrefl below
  have hinner (x : Inner) : Acc (IsPart parts) x.1 := by
    induction x using hbelow.induction with
    | h x ih =>
      constructor
      intro part hpart
      exact ih ⟨part, .head hpart x.2⟩ (.single hpart)
  exact hinner ⟨value, .refl⟩

/-- A value, and the receivers and callees that it consists of. -/
def layers : Value → List Value
  | .bound tag receiver callee => .bound tag receiver callee :: (receiver.layers ++ callee.layers)
  | value => [value]

theorem self_mem_layers (value : Value) : value ∈ value.layers := by
  cases value <;> simp [layers]

theorem mem_layers_bound {tag : Nat} {receiver callee : Value} (h : .bound tag receiver callee ∈ value.layers)
    : receiver ∈ value.layers ∧ callee ∈ value.layers := by
  induction value with
  | bound tag' receiver' callee' ih ih' =>
    simp only [layers, List.mem_cons, List.mem_append, bound.injEq] at h ⊢
    rcases h with ⟨_, hreceiver, hcallee⟩ | h | h
    . rw [hreceiver, hcallee]
      exact ⟨.inr (.inl receiver'.self_mem_layers), .inr (.inr callee'.self_mem_layers)⟩
    . exact ⟨.inr (.inl (ih h).1), .inr (.inl (ih h).2)⟩
    . exact ⟨.inr (.inr (ih' h).1), .inr (.inr (ih' h).2)⟩
  | _ => simp [layers] at h

end Value

namespace Heap

variable {h : Heap} {value inner : Value}

/-- Everything that can be found in a value: what it consists of itself, and what all containers hold. -/
def content (h : Heap) (value : Value) : List Value :=
  value.layers ++ h.containers.flatMap fun container => (h.parts container).flatMap Value.layers

theorem compared_mem_layers {part : Value} (hinner : inner ∈ value.layers) (hpart : part ∈ h.compared inner)
    : part ∈ value.layers ∨ part ∈ h.parts inner := by
  cases inner with
  | bound tag receiver callee =>
    rcases Value.mem_layers_bound hinner with ⟨hreceiver, hcallee⟩
    simp only [compared, List.mem_cons, List.not_mem_nil, or_false] at hpart
    rcases hpart with hpart | hpart
    . exact .inl (hpart ▸ hreceiver)
    . exact .inl (hpart ▸ hcallee)
  | _ => exact .inr hpart

theorem parts_mem_content {part : Value} (hpart : part ∈ h.parts inner) : part ∈ h.content value := by
  rcases h.parts_of_containers inner with hnone | ⟨container, hcontainer, hparts⟩
  . rw [hnone] at hpart
    exact absurd hpart List.not_mem_nil
  . rw [hparts] at hpart
    apply List.mem_append_right
    rw [List.mem_flatMap]
    exact ⟨container, hcontainer, List.mem_flatMap.mpr ⟨part, hpart, part.self_mem_layers⟩⟩

theorem compared_mem_content {part : Value} (hinner : inner ∈ h.content value) (hpart : part ∈ h.compared inner)
    : part ∈ h.content value := by
  rcases List.mem_append.mp hinner with hinner | hinner
  . rcases compared_mem_layers hinner hpart with hlayers | hparts
    . exact List.mem_append_left _ hlayers
    . exact parts_mem_content hparts
  . rw [List.mem_flatMap] at hinner
    rcases hinner with ⟨container, hcontainer, hinner⟩
    rw [List.mem_flatMap] at hinner
    rcases hinner with ⟨held, hheld, hinner⟩
    rcases compared_mem_layers hinner hpart with hlayers | hparts
    . apply List.mem_append_right
      rw [List.mem_flatMap]
      exact ⟨container, hcontainer, List.mem_flatMap.mpr ⟨held, hheld, hlayers⟩⟩
    . exact parts_mem_content hparts

theorem inner_mem_content {parts : Value → List Value} (hparts : ∀ value, parts value ⊆ h.compared value)
    (hinner : ReflTransGen (Value.IsPart parts) inner value)
    : inner ∈ h.content value := by
  induction hinner using ReflTransGen.head_induction_on with
  | refl => exact List.mem_append_left _ value.self_mem_layers
  | head hpart _ ih => exact compared_mem_content ih (hparts _ hpart)

/-- A walk through a value ends if and only if it does not come to a value that holds itself. -/
theorem isFinite_iff {parts : Value → List Value} (hparts : ∀ value, parts value ⊆ h.compared value)
    : Value.IsFinite parts value ↔ ¬Value.HoldsCycle parts value := by
  constructor
  . exact Value.IsFinite.not_holdsCycle
  . apply Value.isFinite_of_not_holdsCycle
    apply (h.content value).finite_toSet.subset
    intro inner hinner
    exact inner_mem_content hparts hinner

end Heap

section Lists

variable {α β : Type} {as : List α}

theorem exists_mem_of_mapM {f : α → Option β} {bs : List β} (h : as.mapM f = some bs) {a : α} (ha : a ∈ as)
    : ∃ b, f a = some b := by
  induction as generalizing bs with
  | nil => exact absurd ha List.not_mem_nil
  | cons a' as ih =>
    rw [List.mapM_cons, Option.bind_eq_bind, Option.bind_eq_some_iff] at h
    rcases h with ⟨b, hb, h⟩
    rw [Option.bind_eq_bind, Option.bind_eq_some_iff] at h
    rcases h with ⟨bs, hbs, _⟩
    rcases List.mem_cons.mp ha with ha | ha
    . exact ⟨b, ha ▸ hb⟩
    . exact ih hbs ha

theorem mapM_of_enough {f : Nat → α → Option β}
    (h : ∀ a ∈ as, ∃ b enough, ∀ depth, enough ≤ depth → f depth a = some b)
    : ∃ bs enough, ∀ depth, enough ≤ depth → as.mapM (f depth) = some bs := by
  induction as with
  | nil => exact ⟨[], 0, fun depth _ => rfl⟩
  | cons a as ih =>
    rw [List.forall_mem_cons] at h
    rcases h.1 with ⟨b, enough, hb⟩
    rcases ih h.2 with ⟨bs, enough', hbs⟩
    refine ⟨b :: bs, max enough enough', ?_⟩
    intro depth hdepth
    rw [List.mapM_cons, hb depth (by omega), hbs depth (by omega)]
    rfl

theorem enough_of_succ {f : Nat → Option β} {b : β} (enough : Nat)
    (h : ∀ depth, enough ≤ depth → f (depth + 1) = some b)
    : ∃ b enough, ∀ depth, enough ≤ depth → f depth = some b := by
  refine ⟨b, enough + 1, ?_⟩
  intro depth hdepth
  cases depth with
  | zero => omega
  | succ depth => exact h depth (by omega)

theorem forall_mem_of_enough {P : Nat → α → Prop} (h : ∀ a ∈ as, ∃ enough, ∀ depth, enough ≤ depth → P depth a)
    : ∃ enough, ∀ depth, enough ≤ depth → ∀ a ∈ as, P depth a := by
  induction as with
  | nil => exact ⟨0, fun depth _ a ha => absurd ha List.not_mem_nil⟩
  | cons a as ih =>
    rw [List.forall_mem_cons] at h
    rcases h.1 with ⟨enough, ha⟩
    rcases ih h.2 with ⟨enough', has⟩
    refine ⟨max enough enough', ?_⟩
    intro depth hdepth
    rw [List.forall_mem_cons]
    exact ⟨ha depth (by omega), has depth (by omega)⟩

end Lists

namespace Heap

variable {h : Heap} {value : Value} {depth : Nat}

/-- Only values that do not hold themselves have a text. -/
theorem display?_isFinite {text : String} (htext : h.display? depth value = some text)
    : Value.IsFinite h.shown value := by
  induction depth generalizing value text with
  | zero => cases htext
  | succ depth ih =>
    constructor
    intro part hpart
    cases value with
    | array ref =>
      rw [display?, Option.map_eq_some_iff] at htext
      rcases htext with ⟨texts, htexts, _⟩
      rcases exists_mem_of_mapM htexts hpart with ⟨text, htext⟩
      exact ih htext
    | object handle =>
      rw [display?, Option.map_eq_some_iff] at htext
      rcases htext with ⟨texts, htexts, _⟩
      rcases List.mem_map.mp hpart with ⟨e, he, hpart⟩
      rcases exists_mem_of_mapM htexts he with ⟨_, htext⟩
      rcases Option.map_eq_some_iff.mp htext with ⟨text, htext, _⟩
      rw [hpart] at htext
      exact ih htext
    | bound tag receiver callee =>
      rw [display?, Option.map_eq_some_iff] at htext
      rcases htext with ⟨text, htext, _⟩
      rw [← List.mem_singleton.mp hpart] at htext
      exact ih htext
    | _ => exact absurd hpart List.not_mem_nil

theorem display?_of_isFinite (hfinite : Value.IsFinite h.shown value)
    : ∃ text enough, ∀ depth, enough ≤ depth → h.display? depth value = some text := by
  induction hfinite with
  | intro value _ ih =>
    cases value with
    | array ref =>
      rcases mapM_of_enough ih with ⟨texts, enough, htexts⟩
      apply enough_of_succ enough
      intro depth hdepth
      have htexts : (h.items ref).toList.mapM (h.display? depth) = some texts := htexts depth hdepth
      rw [display?, htexts, Option.map_some]
    | object handle =>
      have hentries : ∀ e ∈ (h.members handle).entries, ∃ text enough, ∀ depth, enough ≤ depth →
          (h.display? depth e.2).map (fun text => e.1 ++ ": " ++ text) = some text := by
        intro e he
        rcases ih e.2 (List.mem_map_of_mem he) with ⟨text, enough, htext⟩
        refine ⟨e.1 ++ ": " ++ text, enough, ?_⟩
        intro depth hdepth
        rw [htext depth hdepth, Option.map_some]
      rcases mapM_of_enough hentries with ⟨texts, enough, htexts⟩
      apply enough_of_succ enough
      intro depth hdepth
      rw [display?, htexts depth hdepth, Option.map_some]
    | bound tag receiver callee =>
      rcases ih callee List.mem_cons_self with ⟨text, enough, htext⟩
      apply enough_of_succ enough
      intro depth hdepth
      rw [display?, htext depth hdepth, Option.map_some]
    | func ref =>
      cases hname : (h.closure ref).code.name with
      | none =>
        apply enough_of_succ 0
        intro depth _
        rw [display?, hname]
      | some name =>
        apply enough_of_succ 0
        intro depth _
        rw [display?, hname]
    | _ =>
      apply enough_of_succ 0
      intro depth _
      rfl

theorem sameLists?_isSome {α : Type} {same? : α → α → Option Bool} {as bs : List α}
    (hsame : ∀ a ∈ as, ∀ b ∈ bs, (same? a b).isSome)
    : (sameLists? same? as bs).isSome := by
  induction as generalizing bs with
  | nil => cases bs <;> rfl
  | cons a as ih =>
    cases bs with
    | nil => rfl
    | cons b bs =>
      have hfirst := hsame a List.mem_cons_self b List.mem_cons_self
      unfold sameLists?
      split
      . apply ih
        intro a' ha b' hb
        exact hsame a' (List.mem_cons_of_mem a ha) b' (List.mem_cons_of_mem b hb)
      . exact hfirst

theorem same?_isSome {a b : Value}
    (hparts : ∀ part ∈ h.compared a, ∀ part' ∈ h.compared b, (h.same? depth part part').isSome)
    : (h.same? (depth + 1) a b).isSome := by
  unfold same?
  split
  case h_9 x y =>
    split
    . rfl
    . split
      . rfl
      . exact sameLists?_isSome hparts
  case h_10 x y =>
    split
    . rfl
    . split
      . rfl
      . split
        . rfl
        . apply sameLists?_isSome
          intro e he e' he'
          split
          . exact hparts e.2 (List.mem_map_of_mem he) e'.2 (List.mem_map_of_mem he')
          . rfl
  case h_13 t x f u y g =>
    have hreceivers := hparts x (by simp [compared]) y (by simp [compared])
    have hcallees := hparts f (by simp [compared]) g (by simp [compared])
    split
    . rfl
    . split
      . exact hcallees
      . exact hreceivers
  all_goals rfl

theorem sameLists?_mono {α : Type} {same? same?' : α → α → Option Bool} {as bs : List α} {answer : Bool}
    (hsame : ∀ a b answer, same? a b = some answer → same?' a b = some answer)
    (h : sameLists? same? as bs = some answer)
    : sameLists? same?' as bs = some answer := by
  induction as generalizing bs with
  | nil => cases bs <;> exact h
  | cons a as ih =>
    cases bs with
    | nil => exact h
    | cons b bs =>
      unfold sameLists? at h ⊢
      cases hfirst : same? a b with
      | none =>
        rw [hfirst] at h
        cases h
      | some first =>
        rw [hfirst] at h
        rw [hsame a b first hfirst]
        cases first with
        | false => exact h
        | true => exact ih h

theorem same?_mono {a b : Value} {answer : Bool} {depth' : Nat} (hsame : h.same? depth a b = some answer)
    (hle : depth ≤ depth')
    : h.same? depth' a b = some answer := by
  induction depth generalizing a b answer depth' with
  | zero => cases hsame
  | succ depth ih =>
    cases depth' with
    | zero => omega
    | succ depth' =>
      have hle : depth ≤ depth' := by omega
      unfold same? at hsame ⊢
      split at hsame
      case h_9 x y =>
        split at hsame
        . next hxy => rw [if_pos hxy, hsame]
        . next hxy =>
          rw [if_neg hxy]
          split at hsame
          . next hsize => rw [if_pos hsize, hsame]
          . next hsize =>
            rw [if_neg hsize]
            exact sameLists?_mono (fun a b answer hsame => ih hsame hle) hsame
      case h_10 x y =>
        split at hsame
        . next hxy => rw [if_pos hxy, hsame]
        . next hxy =>
          rw [if_neg hxy]
          split at hsame
          . next htype => rw [if_pos htype, hsame]
          . next htype =>
            rw [if_neg htype]
            split at hsame
            . next hsize => rw [if_pos hsize, hsame]
            . next hsize =>
              rw [if_neg hsize]
              refine sameLists?_mono ?_ hsame
              intro e e' answer hsame
              split at hsame
              . next hname =>
                rw [if_pos hname]
                exact ih hsame hle
              . next hname => rw [if_neg hname, hsame]
      case h_13 t x f u y g =>
        split at hsame
        . next htag => rw [if_pos htag, hsame]
        . next htag =>
          rw [if_neg htag]
          cases hreceiver : h.same? depth x y with
          | none =>
            rw [hreceiver] at hsame
            cases hsame
          | some receiver =>
            rw [hreceiver] at hsame
            rw [ih hreceiver hle]
            cases receiver with
            | false => exact hsame
            | true => exact ih hsame hle
      all_goals exact hsame

/-- Equality by structure shows if one of the two values does not hold itself. -/
theorem same?_of_isFinite {a : Value} (hfinite : Value.IsFinite h.compared a)
    : ∃ enough, ∀ depth, enough ≤ depth → ∀ b, (h.same? depth a b).isSome ∧ (h.same? depth b a).isSome := by
  induction hfinite with
  | intro a _ ih =>
    rcases forall_mem_of_enough ih with ⟨enough, hparts⟩
    refine ⟨enough + 1, ?_⟩
    intro depth hdepth b
    cases depth with
    | zero => omega
    | succ depth =>
      have hparts := hparts depth (by omega)
      constructor
      . exact same?_isSome fun part hpart part' _ => (hparts part hpart part').1
      . exact same?_isSome fun part' _ part hpart => (hparts part hpart part').2

end Heap

end ScriptEngine
