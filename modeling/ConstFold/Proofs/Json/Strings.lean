import ConstFold.Json.Lexer
import ConstFold.Proofs.Texts

/-!
# Strings survive writing and reading

A unit of a string is written as itself or as an escape, and each of the two is read back as the unit
(`Quoted.units?_escape`); a pair is written as it is.  So a text between quotes is read back
(`Quoted.read?_spell`), whether it is a row of characters or not.  What is written is always one
(`Quoted.isUnicode_write`).

`Quoted.Written` is the grammar of all strings that can be read, those with other escapes too, by the units
that stand in them: what it derives is read as these units (`Quoted.Written.read?_eq`), and nothing else is read
(`Quoted.written_of_read?`).
-/

namespace ConstFold.Json.Quoted

/-! ## Writing -/

theorem hexDigit?_digitChar_all : ∀ n, n < 16 → hexDigit? (Nat.digitChar n) = some n := by
  decide

theorem unit?_fourHexDigits (u : CodeUnit) :
    unit? (Nat.digitChar (u.number / 0x1000)) (Nat.digitChar (u.number / 0x100 % 16))
      (Nat.digitChar (u.number / 16 % 16)) (Nat.digitChar (u.number % 16)) = some u := by
  have hlt := u.number_lt
  have h₁ := hexDigit?_digitChar_all (u.number / 0x1000) (by omega)
  have h₂ := hexDigit?_digitChar_all (u.number / 0x100 % 16) (by omega)
  have h₃ := hexDigit?_digitChar_all (u.number / 16 % 16) (by omega)
  have h₄ := hexDigit?_digitChar_all (u.number % 16) (by omega)
  have hnumber : ((u.number / 0x1000 * 16 + u.number / 0x100 % 16) * 16 + u.number / 16 % 16) * 16 +
      u.number % 16 = u.number := by
    omega
  simp only [unit?, h₁, h₂, h₃, h₄, hnumber, Option.bind_eq_bind, Option.bind_some, Option.pure_def]
  exact congrArg some (CodeUnit.ext (CodeUnit.number_ofNat hlt))

theorem digitChar_lt_all : ∀ n, n < 16 → (Nat.digitChar n).toNat < 0x10000 := by
  decide

theorem chars_fourHexDigits (u : CodeUnit) :
    (Text.ofString (String.ofList (fourHexDigits u.number))).chars = fourHexDigits u.number := by
  have hlt := u.number_lt
  rw [Text.chars_ofString, String.toList_ofList]
  rw [String.toList_ofList]
  simp only [fourHexDigits, List.forall_mem_cons]
  exact ⟨digitChar_lt_all _ (by omega), digitChar_lt_all _ (by omega), digitChar_lt_all _ (by omega),
    digitChar_lt_all _ (by omega), by simp⟩

/-- A letter after a backslash is read as the character it stands for. -/
theorem units?_escaped {e c : Char} (h : escaped? e = some c) (s : List Char) :
    units? ('\\' :: e :: s) = (units? s).map fun (units, rest) => (.ofChar c :: units, rest) := by
  have hu : e ≠ 'u' := by
    rintro rfl
    cases h
  cases hs : units? s with
  | none => simp [units?, hu, h, hs]
  | some r => simp [units?, hu, h, hs]

/-- A unit that stands for itself. -/
theorem units?_char {c : Char} (hquote : c ≠ '"') (hback : c ≠ '\\') (hcontrol : isControl c = false) (s : List Char) :
    units? (c :: s) = (units? s).map fun (units, rest) => (.ofChar c :: units, rest) := by
  rw [units?.eq_def]
  simp only [if_neg hquote, if_neg hback, hcontrol, Bool.false_eq_true, if_false]
  cases units? s <;> rfl

theorem units?_escape (u : CodeUnit) (s : List Char) :
    units? ((escape u).chars ++ s) = (units? s).map fun (units, rest) => (u :: units, rest) := by
  have hescaped {e c : Char} (h : escaped? e = some c) (hc : u.char = c) :
      units? ('\\' :: e :: s) = (units? s).map fun (units, rest) => (u :: units, rest) := by
    rw [units?_escaped h, ← hc, CodeUnit.ofChar_char]
  unfold escape
  split
  · exact hescaped rfl ‹_›
  · exact hescaped rfl ‹_›
  · exact hescaped rfl ‹_›
  · exact hescaped rfl ‹_›
  · exact hescaped rfl ‹_›
  · exact hescaped rfl ‹_›
  · exact hescaped rfl ‹_›
  · rename_i hquote hback _ _ _ _ _
    split
    · rw [Text.chars_append, chars_fourHexDigits]
      show units? ('\\' :: 'u' :: (fourHexDigits u.number ++ s)) = _
      cases hs : units? s <;> simp [fourHexDigits, units?, unit?_fourHexDigits, hs]
    · rename_i hplain
      simp only [Bool.or_eq_true, not_or, Bool.not_eq_true] at hplain
      have hread := units?_char hquote hback hplain.1 s
      rwa [CodeUnit.ofChar_char] at hread

/-- Half of a pair is shown by none of the characters that need an escape. -/
theorem units?_half {u : CodeUnit} (h : u.isHalf = true) (s : List Char) :
    units? (u.char :: s) = (units? s).map fun (units, rest) => (u :: units, rest) := by
  have hlarge : 0x10000 ≤ u.char.toNat := by
    rw [CodeUnit.toNat_char, h]
    exact Nat.le_add_right _ _
  have hne (c : Char) (hc : c.toNat < 0x10000) : u.char ≠ c := by
    rintro rfl
    omega
  have hcontrol : isControl u.char = false := by
    simp only [isControl, decide_eq_false_iff_not]
    omega
  have hread := units?_char (hne '"' (by decide)) (hne '\\' (by decide)) hcontrol s
  rwa [CodeUnit.ofChar_char] at hread

theorem units?_spell (us : List CodeUnit) (rest : List Char) :
    units? ((spell us).chars ++ '"' :: rest) = some (us, rest) := by
  have hclose : units? ('"' :: rest) = some ([], rest) := by
    rw [units?.eq_def]
    rfl
  fun_induction spell us with
  | case1 => exact hclose
  | case2 u => rw [units?_escape, hclose, Option.map_some]
  | case3 u v us hpair ih =>
    obtain ⟨hu, hv⟩ := Bool.and_eq_true_iff.1 hpair
    have hhigh : u.isHalf = true := by rw [CodeUnit.isHalf, hu, Bool.true_or]
    have hlow : v.isHalf = true := by rw [CodeUnit.isHalf, hv, Bool.or_true]
    rw [Text.chars_append, List.append_assoc]
    show units? (u.char :: v.char :: ((spell us).chars ++ '"' :: rest)) = _
    rw [units?_half hhigh, units?_half hlow, ih, Option.map_some, Option.map_some]
  | case4 u v us _ ih => rw [Text.chars_append, List.append_assoc, units?_escape, ih, Option.map_some]

/-- What is written between quotes is read back. -/
theorem read?_spell (t : Text) (rest : List Char) :
    read? ((spell t.units).chars ++ '"' :: rest) = some (t, rest) := by
  rw [read?, units?_spell, Option.map_some]

/-! ## What is written -/

theorem isUnicode_escape (u : CodeUnit) : (escape u).IsUnicode := by
  unfold escape
  split
  · exact .ofString _
  · exact .ofString _
  · exact .ofString _
  · exact .ofString _
  · exact .ofString _
  · exact .ofString _
  · exact .ofString _
  · split
    · exact (Text.IsUnicode.ofString _).append (.ofString _)
    · rename_i hplain
      simp only [Bool.or_eq_true, not_or, Bool.not_eq_true] at hplain
      exact .unit hplain.2

theorem isUnicode_spell (us : List CodeUnit) : (spell us).IsUnicode := by
  fun_induction spell us with
  | case1 => exact .ofString _
  | case2 u => exact isUnicode_escape u
  | case3 u v us hpair ih =>
    obtain ⟨hu, hv⟩ := Bool.and_eq_true_iff.1 hpair
    exact (Text.IsUnicode.pair hu hv).append ih
  | case4 u v us _ ih => exact (isUnicode_escape u).append ih

/-- A written string is a row of characters, whatever text it stands for. -/
theorem isUnicode_write (s : Text) : (write s).IsUnicode :=
  ((Text.IsUnicode.ofString _).append (isUnicode_spell s.units)).append (.ofString _)

/-! ## Grammar -/

/-- A letter after a backslash, with the character that it names. -/
inductive Escape : Char → Char → Prop
  | quote : Escape '"' '"'
  | backslash : Escape '\\' '\\'
  | slash : Escape '/' '/'
  | backspace : Escape 'b' '\x08'
  | formFeed : Escape 'f' '\x0c'
  | lineFeed : Escape 'n' '\n'
  | carriageReturn : Escape 'r' '\r'
  | tab : Escape 't' '\t'

/-- A hexadecimal digit in either case, with its number. -/
inductive HexDigit : Char → Nat → Prop
  | lower {n : Nat} : n < 16 → HexDigit (Nat.digitChar n) n
  | upper {n : Nat} : n < 16 → HexDigit (Nat.digitChar n).toUpper n

/-- What stands in a string after its opening quote, with the units that it stands for.  Each unit is written on its
own, as itself or as an escape, and halves of pairs are no exception. -/
inductive Written : List Char → List CodeUnit → Prop
  | close : Written ['"'] []
  | char {c : Char} {s : List Char} {us : List CodeUnit} : c ≠ '"' → c ≠ '\\' → 0x20 ≤ c.toNat → Written s us →
      Written (c :: s) (.ofChar c :: us)
  | escape {e c : Char} {s : List Char} {us : List CodeUnit} : Escape e c → Written s us →
      Written ('\\' :: e :: s) (.ofChar c :: us)
  | unit {h₁ h₂ h₃ h₄ : Char} {n₁ n₂ n₃ n₄ : Nat} {s : List Char} {us : List CodeUnit} : HexDigit h₁ n₁ →
      HexDigit h₂ n₂ → HexDigit h₃ n₃ → HexDigit h₄ n₄ → Written s us →
      Written ('\\' :: 'u' :: h₁ :: h₂ :: h₃ :: h₄ :: s) (.ofNat (((n₁ * 16 + n₂) * 16 + n₃) * 16 + n₄) :: us)

theorem escape_iff (e c : Char) : Escape e c ↔ escaped? e = some c := by
  constructor
  · rintro ⟨⟩ <;> rfl
  · intro h
    unfold escaped? at h
    split at h <;> cases h <;> constructor

theorem hexDigit_of_hexDigit?_all : ∀ k, k < 128 → ∀ n ∈ hexDigit? (Char.ofNat k),
    n < 16 ∧ (Char.ofNat k = Nat.digitChar n ∨ Char.ofNat k = (Nat.digitChar n).toUpper) := by
  decide

theorem hexDigit?_toUpper_all : ∀ n, n < 16 → hexDigit? (Nat.digitChar n).toUpper = some n := by
  decide

theorem hexDigit_iff (c : Char) (n : Nat) : HexDigit c n ↔ hexDigit? c = some n := by
  constructor
  · rintro (h | h)
    · exact hexDigit?_digitChar_all n h
    · exact hexDigit?_toUpper_all n h
  · intro h
    have hlt : c.toNat < 128 := by
      unfold hexDigit? at h
      split at h
      · rename_i hc
        exact Nat.lt_of_le_of_lt (Char.le_def.1 hc.2) (by decide)
      · split at h
        · rename_i hc
          exact Nat.lt_of_le_of_lt (Char.le_def.1 hc.2) (by decide)
        · split at h
          · rename_i hc
            exact Nat.lt_of_le_of_lt (Char.le_def.1 hc.2) (by decide)
          · cases h
    have hall := hexDigit_of_hexDigit?_all c.toNat hlt n (by rwa [Char.ofNat_toNat])
    rw [Char.ofNat_toNat] at hall
    obtain ⟨hn, rfl | rfl⟩ := hall
    · exact .lower hn
    · exact .upper hn

/-! ## Reading -/

theorem Written.units?_eq {s : List Char} {us : List CodeUnit} (h : Written s us) (rest : List Char) :
    units? (s ++ rest) = some (us, rest) := by
  induction h with
  | close =>
    rw [List.singleton_append, units?.eq_def]
    rfl
  | @char c s us hquote hback hle _ ih =>
    have hcontrol : isControl c = false := by simpa [isControl] using hle
    rw [List.cons_append, units?_char hquote hback hcontrol, ih, Option.map_some]
  | @escape e c s us he _ ih =>
    rw [List.cons_append, List.cons_append, units?_escaped ((escape_iff e c).1 he), ih, Option.map_some]
  | unit h₁ h₂ h₃ h₄ _ ih =>
    rw [hexDigit_iff] at h₁ h₂ h₃ h₄
    simp [units?, unit?, h₁, h₂, h₃, h₄, ih]

theorem written_of_units? {s rest : List Char} {us : List CodeUnit} (h : units? s = some (us, rest)) :
    ∃ t, s = t ++ rest ∧ Written t us := by
  fun_induction units? s generalizing us rest with
  | case1 => cases h
  | case2 s =>
    cases h
    exact ⟨_, rfl, .close⟩
  | case3 => cases h
  | case4 h₁ h₂ h₃ h₄ s _ ih =>
    obtain ⟨u, hu, h⟩ := Option.bind_eq_some_iff.1 h
    obtain ⟨⟨us, r⟩, hs, hr⟩ := Option.bind_eq_some_iff.1 h
    cases hr
    obtain ⟨t, rfl, ht⟩ := ih hs
    obtain ⟨n₁, hn₁, hu⟩ := Option.bind_eq_some_iff.1 hu
    obtain ⟨n₂, hn₂, hu⟩ := Option.bind_eq_some_iff.1 hu
    obtain ⟨n₃, hn₃, hu⟩ := Option.bind_eq_some_iff.1 hu
    obtain ⟨n₄, hn₄, hu⟩ := Option.bind_eq_some_iff.1 hu
    cases hu
    rw [← hexDigit_iff] at hn₁ hn₂ hn₃ hn₄
    exact ⟨_, rfl, .unit hn₁ hn₂ hn₃ hn₄ ht⟩
  | case5 e s _ _ ih =>
    obtain ⟨c, hc, h⟩ := Option.bind_eq_some_iff.1 h
    obtain ⟨⟨us, r⟩, hs, hr⟩ := Option.bind_eq_some_iff.1 h
    cases hr
    obtain ⟨t, rfl, ht⟩ := ih hs
    exact ⟨_, rfl, .escape ((escape_iff e c).2 hc) ht⟩
  | case6 => cases h
  | case7 c s hquote hback hcontrol ih =>
    obtain ⟨⟨us, r⟩, hs, hr⟩ := Option.bind_eq_some_iff.1 h
    cases hr
    obtain ⟨t, rfl, ht⟩ := ih hs
    exact ⟨_, rfl, .char hquote hback (by simpa [isControl] using hcontrol) ht⟩

/-- A string is read to its closing quote and no further. -/
theorem Written.read?_eq {s : List Char} {us : List CodeUnit} (h : Written s us) (rest : List Char) :
    read? (s ++ rest) = some (⟨us⟩, rest) := by
  rw [read?, h.units?_eq, Option.map_some]

theorem written_of_read? {s rest : List Char} {text : Text} (h : read? s = some (text, rest)) :
    ∃ t us, s = t ++ rest ∧ Written t us ∧ text = ⟨us⟩ := by
  obtain ⟨⟨us, r⟩, hs, hr⟩ := Option.map_eq_some_iff.1 h
  cases hr
  obtain ⟨t, ht, hwritten⟩ := written_of_units? hs
  exact ⟨t, us, ht, hwritten, rfl⟩

theorem length_of_read? {s rest : List Char} {text : Text} (h : read? s = some (text, rest)) :
    rest.length < s.length := by
  obtain ⟨t, us, rfl, ht, -⟩ := written_of_read? h
  have hpos : 0 < t.length := by cases ht <;> exact Nat.succ_pos _
  rw [List.length_append]
  omega

end ConstFold.Json.Quoted
