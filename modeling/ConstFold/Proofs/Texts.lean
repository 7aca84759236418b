import ConstFold.Text

/-!
# Texts and their characters

The text of a row of characters is read back as that row (`Text.unicode_ofString`), so two rows have one text
only if they are equal (`Text.ofString_inj`).  Any two texts, whether they are rows of characters or not, differ
in the characters that show them (`Text.chars_inj`).  A text is a row of characters (`Text.IsUnicode`) if no half of
a pair stands alone in it, and is then left as it is where only characters are kept (`Text.IsUnicode.toWellFormed_eq`).
-/

namespace ConstFold

/-! ## Code units -/

namespace CodeUnit

theorem number_ofNat {n : Nat} (h : n < 0x10000) : (ofNat n).number = n := Nat.mod_eq_of_lt h

theorem isHalf_iff (u : CodeUnit) : u.isHalf = true ↔ 0xD800 ≤ u.number ∧ u.number < 0xE000 := by
  simp only [isHalf, isHigh, isLow, Bool.or_eq_true, Bool.and_eq_true, decide_eq_true_eq]
  omega

theorem toNat_ofNat {n : Nat} (h : n.isValidChar) : (Char.ofNat n).toNat = n := by
  unfold Char.ofNat
  rw [dif_pos h]
  rfl

theorem toNat_char (u : CodeUnit) : u.char.toNat = if u.isHalf then 0x10000 + u.number else u.number := by
  have hlt := u.number_lt
  have hvalid : (if u.isHalf then 0x10000 + u.number else u.number).isValidChar := by
    by_cases h : u.isHalf = true
    · rw [if_pos h]
      exact .inr ⟨by omega, by omega⟩
    · have hrange := mt (isHalf_iff u).2 h
      rw [if_neg h]
      by_cases hlow : u.number < 0xD800
      · exact .inl hlow
      · exact .inr ⟨by omega, by omega⟩
  exact toNat_ofNat hvalid

/-- A unit is told by the character that shows it. -/
theorem ofChar_char (u : CodeUnit) : ofChar u.char = u := by
  have hlt := u.number_lt
  apply CodeUnit.ext
  show u.char.toNat % 0x10000 = u.number
  rw [toNat_char]
  split <;> omega

theorem char_injective {u v : CodeUnit} (h : u.char = v.char) : u = v := by
  rw [← ofChar_char u, h, ofChar_char]

section

variable {c : Char} (h : c.toNat < 0x10000)
include h

theorem number_ofChar : (ofChar c).number = c.toNat := number_ofNat h

/-- A character of one unit is not half of a pair. -/
theorem isHalf_ofChar : (ofChar c).isHalf = false := by
  apply Bool.eq_false_iff.2
  intro hhalf
  have hrange := (isHalf_iff _).1 hhalf
  have hvalid : c.toNat.isValidChar := c.valid
  rw [number_ofChar h] at hrange
  rcases hvalid with hlow | hhigh <;> omega

theorem char_ofChar : (ofChar c).char = c := by
  rw [char, isHalf_ofChar h, number_ofChar h]
  exact Char.ofNat_toNat c

theorem alone_ofChar : (ofChar c).alone = c := by
  rw [alone, isHalf_ofChar h, number_ofChar h]
  exact Char.ofNat_toNat c

end

theorem decode_cons {u : CodeUnit} (h : u.isHalf = false) (us : List CodeUnit) :
    decode (u :: us) = u.alone :: decode us := by
  have hhigh : u.isHigh = false := (Bool.or_eq_false_iff.1 h).1
  cases us with
  | nil => rfl
  | cons v us => rw [decode, hhigh, Bool.false_and, if_neg Bool.false_ne_true]

/-- The units of a character are read back as the character, whatever follows. -/
theorem decode_unitsOf (c : Char) (us : List CodeUnit) : decode (unitsOf c ++ us) = c :: decode us := by
  unfold unitsOf
  by_cases h : c.toNat < 0x10000
  · rw [if_pos h, List.singleton_append, decode_cons (isHalf_ofChar h), alone_ofChar h]
  · have hmax : c.toNat < 0x110000 := by
      have hvalid : c.toNat.isValidChar := c.valid
      rcases hvalid with hlow | hhigh <;> omega
    have hhigh : (ofNat (0xD800 + (c.toNat - 0x10000) / 0x400)).number =
        0xD800 + (c.toNat - 0x10000) / 0x400 := number_ofNat (by omega)
    have hlow : (ofNat (0xDC00 + (c.toNat - 0x10000) % 0x400)).number =
        0xDC00 + (c.toNat - 0x10000) % 0x400 := number_ofNat (by omega)
    have hpair : (isHigh (ofNat (0xD800 + (c.toNat - 0x10000) / 0x400)) &&
        isLow (ofNat (0xDC00 + (c.toNat - 0x10000) % 0x400))) = true := by
      simp only [isHigh, isLow, hhigh, hlow, Bool.and_eq_true, decide_eq_true_eq]
      omega
    have hchar : 0x10000 + (0xD800 + (c.toNat - 0x10000) / 0x400 - 0xD800) * 0x400 +
        (0xDC00 + (c.toNat - 0x10000) % 0x400 - 0xDC00) = c.toNat := by
      omega
    rw [if_neg h, List.cons_append, List.singleton_append, decode, if_pos hpair, ofPair, hhigh, hlow, hchar,
      Char.ofNat_toNat]

/-- A pair is read back as well. -/
theorem unitsOf_ofPair {u v : CodeUnit} (hu : u.isHigh = true) (hv : v.isLow = true) :
    unitsOf (ofPair u v) = [u, v] := by
  simp only [isHigh, isLow, Bool.and_eq_true, decide_eq_true_eq] at hu hv
  have hvalid : (0x10000 + (u.number - 0xD800) * 0x400 + (v.number - 0xDC00)).isValidChar :=
    .inr ⟨by omega, by omega⟩
  unfold unitsOf ofPair
  rw [toNat_ofNat hvalid, if_neg (by omega)]
  have hhigh : 0xD800 + (0x10000 + (u.number - 0xD800) * 0x400 + (v.number - 0xDC00) - 0x10000) / 0x400 =
      u.number := by
    omega
  have hlow : 0xDC00 + (0x10000 + (u.number - 0xD800) * 0x400 + (v.number - 0xDC00) - 0x10000) % 0x400 =
      v.number := by
    omega
  rw [hhigh, hlow, CodeUnit.ext (number_ofNat u.number_lt), CodeUnit.ext (number_ofNat v.number_lt)]

theorem decode_flatMap_unitsOf (cs : List Char) : decode (cs.flatMap unitsOf) = cs := by
  induction cs with
  | nil => rfl
  | cons c cs ih => rw [List.flatMap_cons, decode_unitsOf, ih]

end CodeUnit

/-! ## Texts -/

namespace Text

theorem unicode_ofString (s : String) : (ofString s).unicode = s := by
  rw [unicode, ofString, CodeUnit.decode_flatMap_unitsOf, String.ofList_toList]

@[simp] theorem ofString_inj {s t : String} : ofString s = ofString t ↔ s = t := by
  constructor
  · intro h
    rw [← unicode_ofString s, h, unicode_ofString]
  · exact congrArg ofString

/-- A text is told by the characters that show it. -/
theorem chars_inj {s t : Text} : s.chars = t.chars ↔ s = t := by
  constructor
  · intro h
    exact Text.ext ((List.map_inj_right fun _ _ => CodeUnit.char_injective).1 h)
  · exact congrArg chars

theorem append_left_cancel {s t t' : Text} (h : s ++ t = s ++ t') : t = t' :=
  Text.ext (List.append_cancel_left (congrArg units h))

@[simp] theorem chars_append (s t : Text) : (s ++ t).chars = s.chars ++ t.chars := List.map_append

@[simp] theorem intercalate_singleton (separator t : Text) : separator.intercalate [t] = t :=
  Text.ext (@List.intercalate_singleton CodeUnit separator.units t.units)

theorem intercalate_cons_cons (separator t t' : Text) (texts : List Text) :
    separator.intercalate (t :: t' :: texts) = t ++ separator ++ separator.intercalate (t' :: texts) :=
  Text.ext (List.intercalate_cons_cons ..)

@[simp] theorem chars_intercalate (separator : Text) (texts : List Text) :
    (separator.intercalate texts).chars = separator.chars.intercalate (texts.map chars) := by
  induction texts with
  | nil => rfl
  | cons t texts ih =>
    cases texts with
    | nil => simp
    | cons t' texts =>
      rw [intercalate_cons_cons, chars_append, chars_append, ih]
      simp only [List.map_cons, List.intercalate_cons_cons]

/-- Characters of one unit each show themselves. -/
theorem chars_ofString {s : String} (h : ∀ c ∈ s.toList, c.toNat < 0x10000) : (ofString s).chars = s.toList := by
  unfold chars ofString
  generalize s.toList = cs at h
  induction cs with
  | nil => rfl
  | cons c cs ih =>
    obtain ⟨hc, hcs⟩ := List.forall_mem_cons.1 h
    have hunits : CodeUnit.unitsOf c = [CodeUnit.ofChar c] := if_pos hc
    rw [List.flatMap_cons, hunits, List.singleton_append, List.map_cons, CodeUnit.char_ofChar hc, ih hcs]

theorem toNat_lt_of_isDigit {c : Char} (h : c.isDigit = true) : c.toNat < 0x10000 :=
  Nat.lt_of_le_of_lt (Char.isDigit_iff_toNat.1 h).2 (by decide)

theorem chars_toString (n : Nat) : (ofString (toString n)).chars = Nat.toDigits 10 n := by
  rw [Nat.toString_eq_ofList_toDigits, chars_ofString, String.toList_ofList]
  intro c hc
  rw [String.toList_ofList] at hc
  exact toNat_lt_of_isDigit (Nat.isDigit_of_mem_toDigits (by decide) (by decide) hc)

theorem units_ofString_ofList (cs : List Char) : (ofString (String.ofList cs)).units = cs.flatMap CodeUnit.unitsOf := by
  rw [ofString, String.toList_ofList]

theorem ofString_append (s t : String) : ofString (s ++ t) = ofString s ++ ofString t := by
  apply Text.ext
  show (s ++ t).toList.flatMap _ = s.toList.flatMap _ ++ t.toList.flatMap _
  rw [String.toList_append, List.flatMap_append]

/-! ## Rows of characters -/

/-- A text that is a row of characters. -/
def IsUnicode (t : Text) : Prop := ∃ s : String, t = s

namespace IsUnicode

theorem ofString (s : String) : IsUnicode s := ⟨s, rfl⟩

theorem append {s t : Text} (hs : s.IsUnicode) (ht : t.IsUnicode) : (s ++ t).IsUnicode := by
  obtain ⟨s, rfl⟩ := hs
  obtain ⟨t, rfl⟩ := ht
  exact ⟨s ++ t, (ofString_append s t).symm⟩

theorem intercalate {separator : Text} {texts : List Text} (h : separator.IsUnicode)
    (htexts : ∀ t ∈ texts, t.IsUnicode) : (separator.intercalate texts).IsUnicode := by
  induction texts with
  | nil => exact ⟨"", rfl⟩
  | cons t texts ih =>
    obtain ⟨ht, hrest⟩ := List.forall_mem_cons.1 htexts
    cases texts with
    | nil =>
      rw [intercalate_singleton]
      exact ht
    | cons t' texts =>
      rw [intercalate_cons_cons]
      exact (ht.append h).append (ih hrest)

/-- A unit that is no half of a pair. -/
theorem unit {u : CodeUnit} (h : u.isHalf = false) : IsUnicode ⟨[u]⟩ := by
  have hlt : u.char.toNat < 0x10000 := by
    rw [CodeUnit.toNat_char, h]
    exact u.number_lt
  refine ⟨String.ofList [u.char], Text.ext ?_⟩
  rw [units_ofString_ofList, List.flatMap_singleton, CodeUnit.unitsOf, if_pos hlt, CodeUnit.ofChar_char]

theorem pair {u v : CodeUnit} (hu : u.isHigh = true) (hv : v.isLow = true) : IsUnicode ⟨[u, v]⟩ := by
  refine ⟨String.ofList [CodeUnit.ofPair u v], Text.ext ?_⟩
  rw [units_ofString_ofList, List.flatMap_singleton, CodeUnit.unitsOf_ofPair hu hv]

theorem toWellFormed_eq {t : Text} (h : t.IsUnicode) : t.toWellFormed = t := by
  obtain ⟨s, rfl⟩ := h
  rw [toWellFormed, unicode_ofString]

end IsUnicode

end Text

theorem isUnicode_indentation (level : Nat) : (indentation level).IsUnicode := by
  unfold indentation
  induction 2 * level with
  | zero => exact ⟨"", rfl⟩
  | succ n ih => exact Text.IsUnicode.append (s := ⟨[' ']⟩) ⟨" ", rfl⟩ ih

end ConstFold
