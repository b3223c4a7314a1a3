import Mathlib.Data.List.Basic
import ScriptEngine.Eval.Operators

/-!
This module contains what filling a template gives. A template is split into tokens, each of them the
longest one that the rest of the template begins with, and the texts of the values take the place of the
placeholders among them, one after another.
-/

namespace ScriptEngine

namespace Template

/-- The marks that values take the place of. -/
inductive Placeholder where
  | braces | value | text | number

/-- The characters of a placeholder. -/
def Placeholder.spelling : Placeholder → List Char
  | braces => ['{', '}']
  | value => ['%', 'v']
  | text => ['%', 's']
  | number => ['%', 'd']

/-- A placeholder as it is written. -/
def Placeholder.written (p : Placeholder) : String := String.ofList p.spelling

inductive Token where
  | placeholder (p : Placeholder)
  /-- Two percent signs, which stand for one. -/
  | percent
  | char (c : Char)

def Token.spelling : Token → List Char
  | placeholder p => p.spelling
  | percent => ['%', '%']
  | char c => [c]

def Token.isPlaceholder : Token → Bool
  | placeholder _ => true
  | percent | char _ => false

/-- Tokens that spell some characters, each of them the longest one that the rest begins with. -/
inductive Splits : List Char → List Token → Prop where
  | nil : Splits [] []
  | cons {cs rest : List Char} {token : Token} {tokens : List Token} (hcs : token.spelling ++ rest = cs)
      (hlongest : ∀ other : Token, other.spelling <+: cs → other.spelling.length ≤ token.spelling.length)
      (hrest : Splits rest tokens)
      : Splits cs (token :: tokens)

/-- The number of values that tokens have a place for. -/
def places (tokens : List Token) : Nat := tokens.countP Token.isPlaceholder

/--
What tokens become, the first placeholder among them being the `k`-th one. A placeholder becomes the text
with its number, or it stays as it is written if there is none.
-/
def pieces (texts : List String) (k : Nat) : List Token → List String
  | [] => []
  | .placeholder p :: tokens => texts[k]?.getD p.written :: pieces texts (k + 1) tokens
  | .percent :: tokens => "%" :: pieces texts k tokens
  | .char c :: tokens => String.singleton c :: pieces texts k tokens

/-- The tokens with texts in the place of the placeholders. -/
def filled (texts : List String) (tokens : List Token) : String := String.join (pieces texts 0 tokens)

/-- The token that two characters spell. -/
def Token.ofPair? : Char → Char → Option Token
  | '{', '}' => some (.placeholder .braces)
  | '%', 'v' => some (.placeholder .value)
  | '%', 's' => some (.placeholder .text)
  | '%', 'd' => some (.placeholder .number)
  | '%', '%' => some .percent
  | _, _ => none

/-- The token that is spelled so. -/
def Token.ofSpelling? : List Char → Option Token
  | [c] => some (.char c)
  | [a, b] => ofPair? a b
  | _ => none

/-- The tokens of a template. -/
def tokens : List Char → List Token
  | [] => []
  | [c] => [.char c]
  | a :: b :: cs =>
    match Token.ofPair? a b with
    | some token => token :: tokens cs
    | none => .char a :: tokens (b :: cs)

section Tokens

variable {a b c : Char} {cs : List Char} {token : Token} {ts ts' : List Token}

theorem Token.ofPair?_eq_some : ofPair? a b = some token ↔ token.spelling = [a, b] := by
  constructor
  . intro h
    unfold ofPair? at h
    split at h <;> cases h <;> rfl
  . intro h
    rcases token with p | _ | c
    . cases p <;> cases h <;> rfl
    . cases h
      rfl
    . cases h

theorem Token.length_spelling (token : Token) : token.spelling.length = 1 ∨ token.spelling.length = 2 := by
  rcases token with p | _ | c
  . right
    cases p <;> rfl
  . exact .inr rfl
  . exact .inl rfl

theorem Token.ofSpelling?_spelling (token : Token) : ofSpelling? token.spelling = some token := by
  rcases token with p | _ | c
  . cases p <;> rfl
  . rfl
  . rfl

theorem Token.spelling_injective {token token' : Token} (h : token.spelling = token'.spelling) : token = token' := by
  have hsame := token.ofSpelling?_spelling
  rw [h, ofSpelling?_spelling] at hsame
  exact (Option.some.inj hsame).symm

/-- A character is a token of its own unless it begins one with the next character. -/
theorem char_is_longest (hpair : Token.ofPair? a b = none) {other : Token} (h : other.spelling <+: a :: b :: cs)
    : other.spelling.length ≤ 1 := by
  by_contra hlength
  have htwo : other.spelling.length = 2 := by
    rcases other.length_spelling with hone | htwo
    . omega
    . exact htwo
  have hspelling : other.spelling = [a, b] := by
    rw [List.prefix_iff_eq_take.mp h, htwo]
    rfl
  rw [Token.ofPair?_eq_some.mpr hspelling] at hpair
  cases hpair

theorem splits_tokens (cs : List Char) : Splits cs (tokens cs) := by
  fun_induction tokens cs with
  | case1 => exact .nil
  | case2 c =>
    refine .cons rfl ?_ .nil
    intro other hother
    exact hother.length_le
  | case3 a b cs token hpair ih =>
    have hspelling := Token.ofPair?_eq_some.mp hpair
    refine .cons (by rw [hspelling]; rfl) ?_ ih
    intro other _
    rw [hspelling]
    rcases other.length_spelling with hone | htwo
    . exact hone ▸ Nat.le_succ 1
    . exact Nat.le_of_eq htwo
  | case4 a b cs hpair ih => exact .cons rfl (fun _ => char_is_longest hpair) ih

theorem Token.spelling_append_ne_nil {rest : List Char} : token.spelling ++ rest ≠ [] := by
  intro h
  have hlength := token.length_spelling
  rw [(List.append_eq_nil_iff.mp h).1] at hlength
  simp at hlength

theorem Splits.unique (h : Splits cs ts) (h' : Splits cs ts') : ts = ts' := by
  induction h generalizing ts' with
  | nil =>
    cases h' with
    | nil => rfl
    | cons hcs => exact absurd hcs Token.spelling_append_ne_nil
  | @cons cs rest token ts hcs hlongest _ ih =>
    cases h' with
    | nil => exact absurd hcs Token.spelling_append_ne_nil
    | @cons _ rest' token' ts' hcs' hlongest' hrest' =>
      have hlength : token.spelling.length = token'.spelling.length := by
        apply Nat.le_antisymm
        . exact hlongest' token ⟨rest, hcs⟩
        . exact hlongest token' ⟨rest', hcs'⟩
      rcases List.append_inj (hcs.trans hcs'.symm) hlength with ⟨hspelling, hrest⟩
      rw [← hrest] at hrest'
      rw [Token.spelling_injective hspelling, ih hrest']

theorem splits_iff : Splits cs ts ↔ ts = tokens cs := by
  constructor
  . intro h
    exact h.unique (splits_tokens cs)
  . rintro rfl
    exact splits_tokens cs

example : tokens ['%', '%', 'v', '{', '{', '}', '%']
    = [.percent, .char 'v', .char '{', .placeholder .braces, .char '%'] := rfl

end Tokens

section Pieces

variable {texts : List String} {text : String} {k : Nat} {ts : List Token}

theorem pieces_cons : pieces (text :: texts) (k + 1) ts = pieces texts k ts := by
  induction ts generalizing k with
  | nil => rfl
  | cons token ts ih => cases token <;> simp [pieces, ih]

theorem pieces_nil : pieces [] k ts = pieces [] 0 ts := by
  induction ts generalizing k with
  | nil => rfl
  | cons token ts ih => cases token <;> simp [pieces, @ih (k + 1), @ih 1, @ih k]

theorem places_cons (token : Token) : places (token :: ts) = places ts + if token.isPlaceholder then 1 else 0 :=
  List.countP_cons

theorem filled_nil : filled texts [] = "" := String.join_nil

theorem filled_placeholder (p : Placeholder)
    : filled (text :: texts) (.placeholder p :: ts) = text ++ filled texts ts := by
  rw [filled, pieces, pieces_cons, String.join_cons]
  rfl

theorem filled_placeholder_nil (p : Placeholder) : filled [] (.placeholder p :: ts) = p.written ++ filled [] ts := by
  rw [filled, pieces, pieces_nil, String.join_cons]
  rfl

theorem filled_percent : filled texts (.percent :: ts) = "%" ++ filled texts ts := by
  rw [filled, pieces, String.join_cons]
  rfl

theorem filled_char (c : Char) : filled texts (.char c :: ts) = String.singleton c ++ filled texts ts := by
  rw [filled, pieces, String.join_cons]
  rfl

end Pieces

end Template

/-- The values that take places in a template: the items of an array, or the value itself. -/
def Heap.fillings (h : Heap) (value : Value) : List Value :=
  match h.items? value with
  | some items => items.toList
  | none => [value]

namespace Machine

open Template

variable {m : Machine} {out : String} {values : List Value} {cs : List Char} {ts : List Token}

/-- The text that tokens become with the texts of values. -/
def fillTokens (m : Machine) (values : List Value) (ts : List Token) : Run String := do
  let texts ← (values.take (places ts)).mapM m.stringify
  return filled texts ts

theorem format_go_placeholder (p : Placeholder)
    : format.go m out values (p.spelling ++ cs)
        = m.fillPlaceholder p.written values >>= fun filling => format.go m (out ++ filling.1) filling.2 cs := by
  cases p <;> rfl

theorem format_go_char {a b : Char} (hpair : Token.ofPair? a b = none)
    : format.go m out values (a :: b :: cs) = format.go m (out.push a) values (b :: cs) := by
  rw [format.go]
  all_goals
    rintro cs' rfl h
    cases h
    cases hpair

theorem format_go_single (c : Char) : format.go m out values [c] = pure (out.push c) := by
  rw [format.go, format.go] <;> nofun

theorem fillTokens_placeholder (p : Placeholder)
    : m.fillTokens values (.placeholder p :: ts)
        = m.fillPlaceholder p.written values >>= fun filling => (filling.1 ++ ·) <$> m.fillTokens filling.2 ts := by
  have hplaces : places (.placeholder p :: ts) = places ts + 1 := places_cons (.placeholder p)
  rcases values with _ | ⟨value, values⟩
  . simp [fillTokens, fillPlaceholder, filled_placeholder_nil]
  . simp [fillTokens, fillPlaceholder, hplaces, filled_placeholder]

theorem fillTokens_percent : m.fillTokens values (.percent :: ts) = ("%" ++ ·) <$> m.fillTokens values ts := by
  have hplaces : places (.percent :: ts) = places ts := places_cons .percent
  simp [fillTokens, hplaces, filled_percent]

theorem fillTokens_char (c : Char)
    : m.fillTokens values (.char c :: ts) = (String.singleton c ++ ·) <$> m.fillTokens values ts := by
  have hplaces : places (.char c :: ts) = places ts := places_cons (.char c)
  simp [fillTokens, hplaces, filled_char]

theorem fillTokens_nil : m.fillTokens values [] = pure "" := by
  simp [fillTokens, places, filled_nil]

/-- What is in front of the rest of the template stays as it is, texts of values included. -/
theorem format_go_eq (m : Machine) (out : String) (values : List Value) (cs : List Char)
    : format.go m out values cs = (out ++ ·) <$> m.fillTokens values (tokens cs) := by
  fun_induction tokens cs generalizing out values with
  | case1 => simp [format.go, fillTokens_nil]
  | case2 c => simp [format_go_single, fillTokens_char, fillTokens_nil]
  | case3 a b cs token hpair ih =>
    have hspelling := Token.ofPair?_eq_some.mp hpair
    rcases token with p | _ | c
    . calc
        format.go m out values (a :: b :: cs) = format.go m out values (p.spelling ++ cs) := by
          rw [show p.spelling = [a, b] from hspelling]
          rfl
        _ = _ := by simp [format_go_placeholder, fillTokens_placeholder, ih, String.append_assoc]
    . cases hspelling
      simp [format.go, fillTokens_percent, ih, String.push_eq_append, String.append_assoc]
    . cases hspelling
  | case4 a b cs hpair ih =>
    simp [format_go_char hpair, fillTokens_char, ih, ← String.append_assoc]

theorem format_eq (m : Machine) (template : String) (values : List Value)
    : m.format template values = m.fillTokens values (tokens template.toList) := by
  simp [format, format_go_eq]

/-- A template on the left of `%` is filled, whatever is on the right. -/
theorem binaryValues_template (m : Machine) (template : String) (right : Value) (s : State)
    : m.binaryValues .mod (.str template) right s
        = (.str <$> m.format template (s.heap.fillings right) : Run Value) s := by
  have hpromote : Operands.promote? (.str template) right = none := by cases right <;> rfl
  unfold binaryValues builtinBinary?
  rw [hpromote]
  unfold combine?
  simp only [beq_iff_eq, reduceCtorEq, ↓reduceIte, bind_pure_comp, bind_assoc, bind_map_left, Heap.fillings]
  rfl

end Machine

open Template

/--
A template that is applied to values is split into the longest tokens. As many of the values as there are
placeholders are turned into texts, each of them once and one after another, and nothing else happens. The
result is made of the tokens and these texts, in which no token is looked for.
-/
theorem templates_follow_their_tokens (m : Machine) (template : String) (right : Value) (s : State)
    : (∀ ts, Splits template.toList ts ↔ ts = tokens template.toList) ∧
      m.binaryValues .mod (.str template) right s = (do
        let texts ← ((s.heap.fillings right).take (places (tokens template.toList))).mapM m.stringify
        return .str (filled texts (tokens template.toList)) : Run Value) s := by
  refine ⟨fun _ => splits_iff, ?_⟩
  rw [Machine.binaryValues_template, Machine.format_eq]
  simp [Machine.fillTokens]

end ScriptEngine
