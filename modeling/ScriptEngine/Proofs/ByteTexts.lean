import ScriptEngine.Engine.Setup
import ScriptEngine.Library.Methods

/-!
This module contains what the texts of byte strings tell about them. In the quoted form the first characters of a byte
tell how many more belong to it, so that the text is read back from left to right, and no two byte strings have the same
text. Hexadecimal digits are read back in pairs.
-/

namespace ScriptEngine

namespace ByteText

/-- A number of ASCII whose character can be printed. -/
def IsPrintable (n : Nat) : Prop := 0x20 ≤ n ∧ n ≤ 0x7e

instance : DecidablePred IsPrintable := fun n => inferInstanceAs (Decidable (0x20 ≤ n ∧ n ≤ 0x7e))

/-- How a byte may be written between quotes. Only one that cannot be printed is written with digits. -/
inductive QuotedByte : UInt8 → List Char → Prop where
  | quote : QuotedByte 34 ['\\', '"']
  | backslash : QuotedByte 92 ['\\', '\\']
  | printed {byte : UInt8} {c : Char} (hc : c.toNat = byte.toNat) (hprintable : IsPrintable byte.toNat)
      (hquote : c ≠ '"') (hbackslash : c ≠ '\\')
    : QuotedByte byte [c]
  | digits {byte : UInt8} {high low : Char} {x y : Nat} (hprintable : ¬IsPrintable byte.toNat)
      (hhigh : digitValue? high = some x) (hlow : digitValue? low = some y) (hbyte : byte.toNat = 16 * x + y)
    : QuotedByte byte ['\\', 'x', high, low]

/-- The bytes one after another, and the closing quote. -/
inductive QuotedRest : List UInt8 → List Char → Prop where
  | close : QuotedRest [] ['"']
  | byte {byte : UInt8} {data : List UInt8} {part cs : List Char} (hpart : QuotedByte byte part)
      (hcs : QuotedRest data cs)
    : QuotedRest (byte :: data) (part ++ cs)

/-- A quoted form of the bytes. -/
def Quotes (data : List UInt8) (text : List Char) : Prop := ∃ cs, QuotedRest data cs ∧ 'b' :: '"' :: cs = text

/-- Reads bytes up to the closing quote, which has to be the last character. -/
def unquote?.go : List Char → Option (List UInt8)
  | [] => none
  | '"' :: cs => if cs.isEmpty then some [] else none
  | '\\' :: '"' :: cs => (go cs).map (34 :: ·)
  | '\\' :: '\\' :: cs => (go cs).map (92 :: ·)
  | '\\' :: 'x' :: high :: low :: cs =>
    match digitValue? high, digitValue? low with
    | some x, some y =>
      if IsPrintable (16 * x + y) then none else (go cs).map (UInt8.ofNat (16 * x + y) :: ·)
    | _, _ => none
  | '\\' :: _ => none
  | c :: cs => if IsPrintable c.toNat then (go cs).map (UInt8.ofNat c.toNat :: ·) else none

/-- Reads bytes from a quoted form of them. -/
def unquote? : List Char → Option (List UInt8)
  | 'b' :: '"' :: cs => unquote?.go cs
  | _ => none

section Digits

variable {c high low : Char} {n x y : Nat}

theorem digitValue_hexDigit (hn : n < 16) : digitValue? (hexDigit n) = some n := by
  decide +revert

theorem digitValue?_eq_some (h : digitValue? c = some n) : n < 16 ∧ IsPrintable c.toNat := by
  unfold digitValue? at h
  unfold IsPrintable
  grind

/-- Two digits are no more than a byte. -/
theorem toNat_ofNat_digits (hhigh : digitValue? high = some x) (hlow : digitValue? low = some y)
    : (UInt8.ofNat (16 * x + y)).toNat = 16 * x + y := by
  have hx := (digitValue?_eq_some hhigh).1
  have hy := (digitValue?_eq_some hlow).1
  apply UInt8.toNat_ofNat_of_lt'
  show 16 * x + y < 256
  omega

theorem digitValue_hexPair (byte : UInt8)
    : digitValue? (hexDigit (byte.toNat / 16)) = some (byte.toNat / 16) ∧
        digitValue? (hexDigit (byte.toNat % 16)) = some (byte.toNat % 16) := by
  have hbyte := byte.toNat_lt
  exact ⟨digitValue_hexDigit (by omega), digitValue_hexDigit (by omega)⟩

end Digits

section Quoted

variable {byte : UInt8} {data : List UInt8} {cs part text : List Char}

/-- A byte as a character. -/
theorem toNat_ofNat_byte (byte : UInt8) : (Char.ofNat byte.toNat).toNat = byte.toNat := by
  have hvalid : byte.toNat.isValidChar := .inl (Nat.lt_trans byte.toNat_lt (by decide))
  rw [Char.ofNat, dif_pos hvalid]
  rfl

theorem quotedByte_written (byte : UInt8) : QuotedByte byte (quotedByte byte) := by
  have hc := toNat_ofNat_byte byte
  unfold quotedByte
  split
  . next hbyte =>
    have hbyte : byte = 34 := UInt8.toNat_inj.mp hbyte
    rw [hbyte]
    exact .quote
  split
  . next hbyte =>
    have hbyte : byte = 92 := UInt8.toNat_inj.mp hbyte
    rw [hbyte]
    exact .backslash
  split
  . next hquote hbackslash hprintable =>
    refine .printed hc hprintable ?_ ?_
    . intro h
      rw [h] at hc
      exact hquote hc.symm
    . intro h
      rw [h] at hc
      exact hbackslash hc.symm
  . next hprintable =>
    rcases digitValue_hexPair byte with ⟨hhigh, hlow⟩
    exact .digits hprintable hhigh hlow (Nat.div_add_mod byte.toNat 16).symm

theorem quoted_rest (data : List UInt8) : QuotedRest data (data.flatMap quotedByte ++ ['"']) := by
  induction data with
  | nil => exact .close
  | cons byte data ih =>
    rw [List.flatMap_cons, List.append_assoc]
    exact .byte (quotedByte_written byte) ih

theorem quoted_written (data : List UInt8) : Quotes data (quoted data).toList := by
  refine ⟨_, quoted_rest data, ?_⟩
  unfold quoted
  rw [String.toList_ofList]
  rfl

theorem QuotedByte.printable (h : QuotedByte byte part) : ∀ c ∈ part, IsPrintable c.toNat := by
  cases h with
  | quote | backslash =>
    rw [List.forall_mem_cons, List.forall_mem_singleton]
    exact ⟨by decide, by decide⟩
  | printed hc hprintable =>
    rw [List.forall_mem_singleton, hc]
    exact hprintable
  | digits _ hhigh hlow =>
    have hhigh := (digitValue?_eq_some hhigh).2
    have hlow := (digitValue?_eq_some hlow).2
    rw [List.forall_mem_cons, List.forall_mem_cons, List.forall_mem_cons, List.forall_mem_singleton]
    exact ⟨by decide, by decide, hhigh, hlow⟩

theorem QuotedRest.printable (h : QuotedRest data cs) : ∀ c ∈ cs, IsPrintable c.toNat := by
  induction h with
  | close =>
    rw [List.forall_mem_singleton]
    decide
  | byte hpart _ ih =>
    rw [List.forall_mem_append]
    exact ⟨hpart.printable, ih⟩

theorem Quotes.printable (h : Quotes data text) : ∀ c ∈ text, IsPrintable c.toNat := by
  rcases h with ⟨cs, hcs, rfl⟩
  rw [List.forall_mem_cons, List.forall_mem_cons]
  exact ⟨by decide, by decide, hcs.printable⟩

/-- The characters of a byte are read, and none of those after them. -/
theorem QuotedByte.go_append (h : QuotedByte byte part) (cs : List Char)
    : unquote?.go (part ++ cs) = (unquote?.go cs).map (byte :: ·) := by
  cases h with
  | quote => rfl
  | backslash => rfl
  | printed hc hprintable hquote hbackslash =>
    rw [List.singleton_append, unquote?.go, hc, if_pos hprintable, UInt8.ofNat_toNat]
    . exact hquote
    . exact fun _ h _ => hbackslash h
    . exact fun _ h _ => hbackslash h
    . exact fun _ _ _ h _ => hbackslash h
    . exact hbackslash
  | @digits _ high low _ _ hprintable hhigh hlow hbyte =>
    rw [hbyte] at hprintable
    show unquote?.go ('\\' :: 'x' :: high :: low :: cs) = _
    rw [unquote?.go, hhigh, hlow]
    dsimp only
    rw [if_neg hprintable, ← hbyte, UInt8.ofNat_toNat]

theorem QuotedRest.go_eq (h : QuotedRest data cs) : unquote?.go cs = some data := by
  induction h with
  | close => rfl
  | byte hpart _ ih => rw [hpart.go_append, ih, Option.map_some]

/-- One more byte was read. -/
theorem quotedRest_of_map (hpart : QuotedByte byte part)
    (ih : ∀ {data}, unquote?.go cs = some data → QuotedRest data cs)
    (h : (unquote?.go cs).map (byte :: ·) = some data)
    : QuotedRest data (part ++ cs) := by
  rcases Option.map_eq_some_iff.mp h with ⟨rest, hrest, hdata⟩
  rw [← hdata]
  exact .byte hpart (ih hrest)

theorem quotedRest_of_go (h : unquote?.go cs = some data) : QuotedRest data cs := by
  fun_induction unquote?.go cs generalizing data with
  | case2 cs hcs =>
    injection h with h
    rw [← h, List.isEmpty_iff.mp hcs]
    exact .close
  | case4 cs ih =>
    show QuotedRest data (['\\', '"'] ++ cs)
    exact quotedRest_of_map .quote ih h
  | case5 cs ih =>
    show QuotedRest data (['\\', '\\'] ++ cs)
    exact quotedRest_of_map .backslash ih h
  | case7 high low cs x y hlow hhigh hprintable ih =>
    have hbyte := toNat_ofNat_digits hhigh hlow
    rw [← hbyte] at hprintable
    show QuotedRest data (['\\', 'x', high, low] ++ cs)
    exact quotedRest_of_map (.digits hprintable hhigh hlow hbyte) ih h
  | case10 c cs hquote _ _ _ hbackslash hprintable ih =>
    have hc : c.toNat = (UInt8.ofNat c.toNat).toNat := by
      unfold IsPrintable at hprintable
      rw [UInt8.toNat_ofNat_of_lt']
      show c.toNat < 256
      omega
    have hbyte := hprintable
    rw [hc] at hbyte
    show QuotedRest data ([c] ++ cs)
    exact quotedRest_of_map (.printed hc hbyte hquote hbackslash) ih h
  | _ => cases h

/-- What is read from a text is what it is a quoted form of. -/
theorem unquote?_eq_some_iff : unquote? text = some data ↔ Quotes data text := by
  constructor
  . intro h
    unfold unquote? at h
    split at h
    . exact ⟨_, quotedRest_of_go h, rfl⟩
    . cases h
  . intro h
    rcases h with ⟨cs, hcs, rfl⟩
    exact hcs.go_eq

theorem unquote?_quoted (data : List UInt8) : unquote? (quoted data).toList = some data :=
  unquote?_eq_some_iff.mpr (quoted_written data)

theorem quoted_inj {data' : List UInt8} : quoted data = quoted data' ↔ data = data' := by
  constructor
  . intro h
    have hread := unquote?_quoted data
    rw [h, unquote?_quoted, Option.some.injEq] at hread
    exact hread.symm
  . intro h
    rw [h]

end Quoted

section Hex

theorem length_flatMap_hexPair (data : List UInt8) : (data.flatMap hexPair).length = 2 * data.length := by
  induction data with
  | nil => rfl
  | cons byte data ih =>
    rw [List.flatMap_cons, List.length_append, ih, List.length_cons, Nat.mul_succ]
    exact Nat.add_comm 2 _

theorem unhex?_flatMap_hexPair (data : List UInt8) : unhex? (data.flatMap hexPair) = some data := by
  induction data with
  | nil => rfl
  | cons byte data ih =>
    rcases digitValue_hexPair byte with ⟨hhigh, hlow⟩
    rw [List.flatMap_cons]
    show unhex? (_ :: _ :: data.flatMap hexPair) = _
    rw [unhex?, hhigh, hlow, ih]
    dsimp only
    rw [Nat.div_add_mod, UInt8.ofNat_toNat]

theorem length_hex (data : List UInt8) : (hex data).length = 2 * data.length := by
  unfold hex
  rw [String.length_ofList, length_flatMap_hexPair]

theorem unhex?_hex (data : List UInt8) : unhex? (hex data).toList = some data := by
  unfold hex
  rw [String.toList_ofList, unhex?_flatMap_hexPair]

end Hex

end ByteText

open ByteText in
/--
The texts of byte strings are lossless. The quoted form has only characters of ASCII that can be printed, and quotes,
backslashes and other bytes are escaped in it. A reader finds the bytes in each such text, and nothing in other texts,
so that two byte strings have the same text only if their bytes are the same. In hexadecimal there are two digits for
each byte, and they are read back, too.
-/
theorem byte_texts_are_lossless
    : (∀ text data, unquote? text = some data ↔ Quotes data text) ∧
      (∀ data, Quotes data (quoted data).toList ∧ unquote? (quoted data).toList = some data ∧
        ∀ c ∈ (quoted data).toList, IsPrintable c.toNat) ∧
      (∀ (h h' : Heap) (depth depth' : Nat) (a b : BytesRef),
        h.display? (depth + 1) (.bytes a) = some (quoted (h.data a).toList) ∧
        (h.display? (depth + 1) (.bytes a) = h'.display? (depth' + 1) (.bytes b) ↔ h.data a = h'.data b)) ∧
      ∀ (m : Machine) (args : List Value) (s : State) (a : BytesRef),
        let data := (s.heap.data a).toList
        Library.runMethod m .bytesHex (.bytes a) args s = .ok (.str (hex data)) s ∧
          (hex data).length = 2 * data.length ∧ unhex? (hex data).toList = some data := by
  refine ⟨?_, ?_, ?_, ?_⟩
  . intro text data
    exact unquote?_eq_some_iff
  . intro data
    exact ⟨quoted_written data, unquote?_quoted data, (quoted_written data).printable⟩
  . intro h h' depth depth' a b
    have htext (h : Heap) (depth : Nat) (ref : BytesRef)
        : h.display? (depth + 1) (.bytes ref) = some (quoted (h.data ref).toList) := rfl
    refine ⟨htext h depth a, ?_⟩
    rw [htext, htext, Option.some.injEq, quoted_inj, Array.toList_inj]
  . intro m args s a data
    exact ⟨rfl, length_hex data, unhex?_hex data⟩

/-- A byte of its own and the four characters that it is written with. -/
theorem escapes_are_told_apart
    : let text := ByteText.quoted [0]
      let other := ByteText.quoted [92, 120, 48, 48]
      text = "b\"\\x00\"" ∧ other = "b\"\\\\x00\"" ∧ '\\' ∈ other.toList ∧
        ByteText.IsPrintable ('\\').toNat ∧ ByteText.unquote? text.toList = some [0] ∧
        ByteText.unquote? other.toList = some [92, 120, 48, 48] := by
  intro text other
  have hmem : '\\' ∈ other.toList := by decide
  rcases byte_texts_are_lossless.2.1 [92, 120, 48, 48] with ⟨_, hread, hprintable⟩
  exact ⟨by decide, by decide, hmem, hprintable _ hmem, (byte_texts_are_lossless.2.1 [0]).2.1, hread⟩

end ScriptEngine
