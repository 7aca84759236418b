import ConstFold.Json.Lexer
import ConstFold.Json.Basic
import ConstFold.Proofs.Texts

/-!
# Numbers are written as numerals

`Numeral.Written` is the grammar of numerals: what it derives is read to its end and no further
(`Numeral.Written.read?_eq`), and nothing else is read (`Numeral.written_of_read?`).  Whatever a finite number
is, its text is a numeral (`Decimal.spelled_text`).  Which number the numeral denotes does not matter here: no
document is refused for the numbers in it.
-/

namespace ConstFold.Json.Numeral

/-! ## Spelling -/

def AllDigits (ds : List Char) : Prop := ∀ c ∈ ds, c.isDigit = true

/-- A point with digits after it, or nothing. -/
inductive SpelledFraction : List Char → Prop
  | none : SpelledFraction []
  | point {ds : List Char} : ds ≠ [] → AllDigits ds → SpelledFraction ('.' :: ds)

/-- A power of ten with its sign, or nothing. -/
inductive SpelledPower : List Char → Prop
  | none : SpelledPower []
  | plus {ds : List Char} : ds ≠ [] → AllDigits ds → SpelledPower ('e' :: '+' :: ds)
  | minus {ds : List Char} : ds ≠ [] → AllDigits ds → SpelledPower ('e' :: '-' :: ds)

/-- A numeral without a sign of its own. -/
inductive SpelledMagnitude : List Char → Prop
  | mk {whole fraction power : List Char} : isWhole whole = true → AllDigits whole →
      SpelledFraction fraction → SpelledPower power → SpelledMagnitude (whole ++ (fraction ++ power))

inductive Spelled : List Char → Prop
  | plain {s : List Char} : SpelledMagnitude s → Spelled s
  | minus {s : List Char} : SpelledMagnitude s → Spelled ('-' :: s)

theorem AllDigits.lt {ds : List Char} (h : AllDigits ds) : ∀ c ∈ ds, c.toNat < 0x10000 :=
  fun c hc => Text.toNat_lt_of_isDigit (h c hc)

theorem SpelledFraction.lt {s : List Char} (h : SpelledFraction s) : ∀ c ∈ s, c.toNat < 0x10000 := by
  cases h with
  | none => simp
  | point _ hds => exact List.forall_mem_cons.2 ⟨by decide, hds.lt⟩

theorem SpelledPower.lt {s : List Char} (h : SpelledPower s) : ∀ c ∈ s, c.toNat < 0x10000 := by
  cases h with
  | none => simp
  | plus _ hds => exact List.forall_mem_cons.2 ⟨by decide, List.forall_mem_cons.2 ⟨by decide, hds.lt⟩⟩
  | minus _ hds => exact List.forall_mem_cons.2 ⟨by decide, List.forall_mem_cons.2 ⟨by decide, hds.lt⟩⟩

theorem SpelledMagnitude.lt {s : List Char} (h : SpelledMagnitude s) : ∀ c ∈ s, c.toNat < 0x10000 := by
  obtain ⟨_, hwhole, hfraction, hpower⟩ := h
  rw [List.forall_mem_append, List.forall_mem_append]
  exact ⟨hwhole.lt, hfraction.lt, hpower.lt⟩

/-- Each character of a numeral is one unit. -/
theorem Spelled.lt {s : List Char} (h : Spelled s) : ∀ c ∈ s, c.toNat < 0x10000 := by
  cases h with
  | plain hs => exact hs.lt
  | minus hs => exact List.forall_mem_cons.2 ⟨by decide, hs.lt⟩

/-! ## Grammar -/

/-- A lone zero, or digits that do not start with one. -/
inductive Whole : List Char → Prop
  | zero : Whole ['0']
  | digits {d : Char} {ds : List Char} : d ≠ '0' → AllDigits (d :: ds) → Whole (d :: ds)

/-- A fraction, if there is one, with its digits. -/
inductive Fraction : List Char → List Char → Prop
  | none : Fraction [] []
  | point {ds : List Char} : ds ≠ [] → AllDigits ds → Fraction ('.' :: ds) ds

/-- A power of ten, if there is one, with its exponent. -/
inductive Power : List Char → Int → Prop
  | none : Power [] 0
  | plain {mark : Char} {ds : List Char} : mark = 'e' ∨ mark = 'E' → ds ≠ [] → AllDigits ds →
      Power (mark :: ds) (Nat.ofDigitChars 10 ds 0)
  | plus {mark : Char} {ds : List Char} : mark = 'e' ∨ mark = 'E' → ds ≠ [] → AllDigits ds →
      Power (mark :: '+' :: ds) (Nat.ofDigitChars 10 ds 0)
  | minus {mark : Char} {ds : List Char} : mark = 'e' ∨ mark = 'E' → ds ≠ [] → AllDigits ds →
      Power (mark :: '-' :: ds) (-Nat.ofDigitChars 10 ds 0)

/-- The text of a numeral after its sign. -/
inductive Magnitude (negative : Bool) : List Char → Numeral → Prop
  | mk {whole fraction ds power : List Char} {e : Int} : Whole whole → Fraction fraction ds → Power power e →
      Magnitude negative (whole ++ (fraction ++ power)) ⟨negative, whole, ds, e⟩

/-- The text of a numeral. -/
inductive Written : List Char → Numeral → Prop
  | plain {s : List Char} {n : Numeral} : Magnitude false s n → Written s n
  | minus {s : List Char} {n : Numeral} : Magnitude true s n → Written ('-' :: s) n

theorem whole_iff (ds : List Char) : Whole ds ↔ isWhole ds = true ∧ AllDigits ds := by
  constructor
  · intro h
    cases h with
    | zero => exact ⟨rfl, by simp [AllDigits]⟩
    | digits hd hds => exact ⟨by simp [isWhole, hd], hds⟩
  · rintro ⟨hwhole, hds⟩
    cases ds with
    | nil => cases hwhole
    | cons d ds =>
      by_cases hd : d = '0'
      · obtain rfl : ds = [] := by simpa [isWhole, hd] using hwhole
        exact hd ▸ .zero
      · exact .digits hd hds

theorem SpelledFraction.exists_fraction {s : List Char} (h : SpelledFraction s) : ∃ ds, Fraction s ds := by
  cases h with
  | none => exact ⟨_, .none⟩
  | point hne hds => exact ⟨_, .point hne hds⟩

theorem SpelledPower.exists_power {s : List Char} (h : SpelledPower s) : ∃ e, Power s e := by
  cases h with
  | none => exact ⟨_, .none⟩
  | plus hne hds => exact ⟨_, .plus (.inl rfl) hne hds⟩
  | minus hne hds => exact ⟨_, .minus (.inl rfl) hne hds⟩

theorem SpelledMagnitude.exists_magnitude {s : List Char} (h : SpelledMagnitude s) (negative : Bool) :
    ∃ n, Magnitude negative s n := by
  obtain ⟨hwhole, hdigits, hfraction, hpower⟩ := h
  obtain ⟨ds, hfraction⟩ := hfraction.exists_fraction
  obtain ⟨e, hpower⟩ := hpower.exists_power
  exact ⟨_, .mk ((whole_iff _).2 ⟨hwhole, hdigits⟩) hfraction hpower⟩

theorem Spelled.exists_written {s : List Char} (h : Spelled s) : ∃ n, Written s n := by
  cases h with
  | plain h =>
    obtain ⟨n, hn⟩ := h.exists_magnitude false
    exact ⟨n, .plain hn⟩
  | minus h =>
    obtain ⟨n, hn⟩ := h.exists_magnitude true
    exact ⟨n, .minus hn⟩

/-! ## What is written is read -/

/-- A text that no numeral before it runs on into. -/
def Stops (rest : List Char) : Prop :=
  ∀ c ∈ rest.head?, c.isDigit = false ∧ c ≠ '.' ∧ c ≠ 'e' ∧ c ≠ 'E'

theorem stops_nil : Stops [] := by
  intro c hc
  cases hc

theorem stops_cons {c : Char} (h : c.isDigit = false ∧ c ≠ '.' ∧ c ≠ 'e' ∧ c ≠ 'E') (rest : List Char) :
    Stops (c :: rest) := by
  intro x hx
  cases hx
  exact h

theorem digits_append {ds rest : List Char} (hds : AllDigits ds)
    (hrest : ∀ c ∈ rest.head?, c.isDigit = false) : digits (ds ++ rest) = (ds, rest) := by
  have hstop : rest.takeWhile Char.isDigit = [] ∧ rest.dropWhile Char.isDigit = rest := by
    cases rest with
    | nil => exact ⟨rfl, rfl⟩
    | cons c cs =>
      have hc : c.isDigit = false := hrest c rfl
      simp [hc]
  rw [digits, List.takeWhile_append_of_pos hds, List.dropWhile_append_of_pos hds, hstop.1, hstop.2,
    List.append_nil]

/-- Digits are not taken for a sign. -/
theorem sign_append {ds : List Char} (hne : ds ≠ []) (hds : AllDigits ds) (rest : List Char) :
    sign (ds ++ rest) = (false, ds ++ rest) := by
  cases ds with
  | nil => exact absurd rfl hne
  | cons d ds =>
    have hd := hds d List.mem_cons_self
    rw [List.cons_append]
    unfold sign
    split
    case h_3 => rfl
    all_goals
      rename_i heq
      cases heq
      exact absurd hd (by decide)

theorem Power.power?_eq {power rest : List Char} {e : Int} (h : Power power e) (hrest : Stops rest) :
    power? (power ++ rest) = some (e, rest) := by
  have hstop : ∀ c ∈ rest.head?, c.isDigit = false := fun c hc => (hrest c hc).1
  cases h with
  | none =>
    cases rest with
    | nil => rfl
    | cons c cs =>
      obtain ⟨-, -, he, hE⟩ := hrest c rfl
      simp [power?, he, hE]
  | plain hmark hne hds => simp [power?, hmark, sign_append hne hds, digits_append hds hstop, hne]
  | plus hmark hne hds => simp [power?, hmark, sign, digits_append hds hstop, hne]
  | minus hmark hne hds => simp [power?, hmark, sign, digits_append hds hstop, hne]

/-- After a fraction comes the mark of a power or the end of the numeral. -/
theorem Power.head_append {power rest : List Char} {e : Int} (h : Power power e) (hrest : Stops rest) :
    ∀ c ∈ (power ++ rest).head?, c.isDigit = false ∧ c ≠ '.' := by
  have hmark : ∀ {mark : Char}, mark = 'e' ∨ mark = 'E' → mark.isDigit = false ∧ mark ≠ '.' := by
    rintro _ (rfl | rfl) <;> decide
  intro c hc
  cases h with
  | none => exact ⟨(hrest c hc).1, (hrest c hc).2.1⟩
  | plain h =>
    cases hc
    exact hmark h
  | plus h =>
    cases hc
    exact hmark h
  | minus h =>
    cases hc
    exact hmark h

theorem Fraction.fraction?_eq {fraction ds rest : List Char} (h : Fraction fraction ds)
    (hrest : ∀ c ∈ rest.head?, c.isDigit = false ∧ c ≠ '.') : fraction? (fraction ++ rest) = some (ds, rest) := by
  cases h with
  | none =>
    cases rest with
    | nil => rfl
    | cons c cs =>
      have hc : c ≠ '.' := (hrest c rfl).2
      simp [fraction?, hc]
  | point hne hds => simp [fraction?, digits_append hds fun c hc => (hrest c hc).1, hne]

theorem Fraction.head_append {fraction ds rest : List Char} (h : Fraction fraction ds)
    (hrest : ∀ c ∈ rest.head?, c.isDigit = false) :
    ∀ c ∈ (fraction ++ rest).head?, c.isDigit = false := by
  intro c hc
  cases h with
  | none => exact hrest c hc
  | point =>
    cases hc
    decide

theorem Magnitude.unsigned?_eq {negative : Bool} {s rest : List Char} {n : Numeral} (h : Magnitude negative s n)
    (hrest : Stops rest) : unsigned? negative (s ++ rest) = some (n, rest) := by
  obtain @⟨whole, fraction, ds, power, e, hwhole, hfraction, hpower⟩ := h
  obtain ⟨hisWhole, hdigits⟩ := (whole_iff whole).1 hwhole
  have hhead := hpower.head_append hrest
  have hsplit : digits (whole ++ (fraction ++ (power ++ rest))) = (whole, fraction ++ (power ++ rest)) :=
    digits_append hdigits (hfraction.head_append fun c hc => (hhead c hc).1)
  rw [List.append_assoc, List.append_assoc, unsigned?, hsplit]
  simp [hisWhole, hfraction.fraction?_eq hhead, hpower.power?_eq hrest]

theorem Magnitude.head {negative : Bool} {s : List Char} {n : Numeral} (h : Magnitude negative s n) :
    ∃ c cs, s = c :: cs ∧ c.isDigit = true := by
  obtain ⟨hwhole, -, -⟩ := h
  cases hwhole with
  | zero => exact ⟨'0', _, rfl, rfl⟩
  | digits _ hds => exact ⟨_, _, rfl, hds _ List.mem_cons_self⟩

theorem Written.head {s : List Char} {n : Numeral} (h : Written s n) :
    ∃ c cs, s = c :: cs ∧ (c = '-' ∨ c.isDigit = true) := by
  cases h with
  | plain h =>
    obtain ⟨c, cs, rfl, hc⟩ := h.head
    exact ⟨c, cs, rfl, .inr hc⟩
  | minus => exact ⟨'-', _, rfl, .inl rfl⟩

/-- A numeral is read to its end and no further. -/
theorem Written.read?_eq {s rest : List Char} {n : Numeral} (h : Written s n) (hrest : Stops rest) :
    read? (s ++ rest) = some (n, rest) := by
  cases h with
  | plain h =>
    have hread := h.unsigned?_eq hrest
    obtain ⟨c, cs, rfl, hc⟩ := h.head
    have hminus : c ≠ '-' := by
      rintro rfl
      cases hc
    rw [← hread, List.cons_append, read?]
    simpa using hminus
  | minus h => exact h.unsigned?_eq hrest

/-! ## What is read is written -/

theorem append_of_digits {s ds rest : List Char} (h : digits s = (ds, rest)) : s = ds ++ rest ∧ AllDigits ds := by
  cases h
  exact ⟨List.takeWhile_append_dropWhile.symm, List.all_eq_true.1 List.all_takeWhile⟩

theorem fraction_of_fraction? {s ds rest : List Char} (h : fraction? s = some (ds, rest)) :
    ∃ fraction, s = fraction ++ rest ∧ Fraction fraction ds := by
  unfold fraction? at h
  split at h
  · rename_i s
    cases hdigits : digits s with
    | mk ds' rest' =>
      simp only [hdigits] at h
      split at h
      · cases h
      · rename_i hne
        cases h
        obtain ⟨rfl, hds⟩ := append_of_digits hdigits
        exact ⟨_, rfl, .point (by simpa using hne) hds⟩
  · cases h
    exact ⟨[], rfl, .none⟩

/-- A power is told by its sign. -/
theorem power_of_sign {mark : Char} (hmark : mark = 'e' ∨ mark = 'E') {s s' ds rest : List Char} {negative : Bool}
    (hsign : sign s = (negative, s')) (hdigits : digits s' = (ds, rest)) (hne : ds ≠ []) :
    ∃ power, mark :: s = power ++ rest ∧
      Power power (if negative then -Nat.ofDigitChars 10 ds 0 else Nat.ofDigitChars 10 ds 0) := by
  obtain ⟨rfl, hds⟩ := append_of_digits hdigits
  unfold sign at hsign
  split at hsign
  · cases hsign
    exact ⟨_, rfl, .minus hmark hne hds⟩
  · cases hsign
    exact ⟨_, rfl, .plus hmark hne hds⟩
  · cases hsign
    exact ⟨_, rfl, .plain hmark hne hds⟩

theorem power_of_power? {s rest : List Char} {e : Int} (h : power? s = some (e, rest)) :
    ∃ power, s = power ++ rest ∧ Power power e := by
  cases s with
  | nil =>
    cases h
    exact ⟨[], rfl, .none⟩
  | cons c s =>
    rw [power?] at h
    split at h
    · rename_i hmark
      cases hsign : sign s with
      | mk negative s' =>
        cases hdigits : digits s' with
        | mk ds rest' =>
          simp only [hsign, hdigits] at h
          split at h
          · cases h
          · rename_i hne
            cases h
            exact power_of_sign hmark hsign hdigits (by simpa using hne)
    · cases h
      exact ⟨[], rfl, .none⟩

theorem magnitude_of_unsigned? {negative : Bool} {s rest : List Char} {n : Numeral}
    (h : unsigned? negative s = some (n, rest)) : ∃ t, s = t ++ rest ∧ Magnitude negative t n := by
  cases hdigits : digits s with
  | mk whole s' =>
    simp only [unsigned?, hdigits] at h
    split at h
    · rename_i hwhole
      obtain ⟨⟨ds, s''⟩, hfraction, h⟩ := Option.bind_eq_some_iff.1 h
      obtain ⟨⟨e, rest'⟩, hpower, h⟩ := Option.bind_eq_some_iff.1 h
      cases h
      obtain ⟨hs, hds⟩ := append_of_digits hdigits
      obtain ⟨fraction, hs', hfraction⟩ := fraction_of_fraction? hfraction
      obtain ⟨power, hs'', hpower⟩ := power_of_power? (s := s'') hpower
      refine ⟨whole ++ (fraction ++ power), ?_, .mk ((whole_iff whole).2 ⟨hwhole, hds⟩) hfraction hpower⟩
      simp only [hs, hs', hs'', List.append_assoc]
    · cases h

theorem written_of_read? {s rest : List Char} {n : Numeral} (h : read? s = some (n, rest)) :
    ∃ t, s = t ++ rest ∧ Written t n := by
  unfold read? at h
  split at h
  · obtain ⟨t, rfl, ht⟩ := magnitude_of_unsigned? h
    exact ⟨_, rfl, .minus ht⟩
  · obtain ⟨t, rfl, ht⟩ := magnitude_of_unsigned? h
    exact ⟨t, rfl, .plain ht⟩

theorem length_of_read? {s rest : List Char} {n : Numeral} (h : read? s = some (n, rest)) :
    rest.length < s.length := by
  obtain ⟨t, rfl, ht⟩ := written_of_read? h
  obtain ⟨c, cs, rfl, -⟩ := ht.head
  simp only [List.length_append, List.length_cons]
  omega

end ConstFold.Json.Numeral

namespace ConstFold.Decimal

open Json.Numeral

/-! ## Writing -/

theorem allDigits_toDigits (n : Nat) : AllDigits (Nat.toDigits 10 n) := fun _ hc =>
  Nat.isDigit_of_mem_toDigits (by decide) (by decide) hc

theorem allDigits_zeros (n : Int) : AllDigits (zeros n) := by
  intro c hc
  rw [List.eq_of_mem_replicate hc]
  rfl

theorem allDigits_append {ds es : List Char} (hds : AllDigits ds) (hes : AllDigits es) :
    AllDigits (ds ++ es) := by
  intro c hc
  exact (List.mem_append.1 hc).elim (hds c) (hes c)

theorem toDigits_head {n : Nat} (h : n ≠ 0) : ∃ c cs, Nat.toDigits 10 n = c :: cs ∧ c ≠ '0' := by
  induction n using Nat.strongRecOn with
  | ind n ih =>
    by_cases hlt : n < 10
    · refine ⟨Nat.digitChar n, [], Nat.toDigits_of_lt_base hlt, ?_⟩
      rw [Ne, Nat.digitChar_eq_zero]
      exact h
    · obtain ⟨c, cs, hcs, hc⟩ := ih (n / 10) (by omega) (by omega)
      refine ⟨c, cs ++ [Nat.digitChar (n % 10)], ?_, hc⟩
      rw [Nat.toDigits_of_base_le (by decide) (by omega), hcs, List.cons_append]

theorem trimZeros_cons {c : Char} (h : c ≠ '0') (cs : List Char) :
    trimZeros (c :: cs) = c :: trimZeros cs := by
  have hc : List.dropWhile (· == '0') [c] = [c] := by simp [h]
  rw [trimZeros, trimZeros, List.reverse_cons, List.dropWhile_append, hc]
  split
  · rename_i hempty
    rw [List.isEmpty_iff.1 hempty]
    rfl
  · rw [List.reverse_append]
    rfl

theorem allDigits_trimZeros {ds : List Char} (h : AllDigits ds) : AllDigits (trimZeros ds) := by
  intro c hc
  have hmem := (List.dropWhile_sublist _).mem (List.mem_reverse.1 hc)
  exact h c (List.mem_reverse.1 hmem)

theorem spelledPower_signed (e : Int) : SpelledPower ('e' :: signed e) := by
  have hne : Nat.toDigits 10 e.natAbs ≠ [] := Nat.toDigits_ne_nil
  rw [signed]
  split
  · exact .minus hne (allDigits_toDigits _)
  · exact .plus hne (allDigits_toDigits _)

/-- Digits of which the first is not zero are laid out as a numeral. -/
theorem spelledMagnitude_layout {c : Char} {cs : List Char} (hc : c ≠ '0') (h : AllDigits (c :: cs))
    (point : Int) : SpelledMagnitude (layout (c :: cs) point) := by
  have hlead (ds : List Char) : isWhole (c :: ds) = true := by simp [isWhole, hc]
  have hlast : AllDigits [c] := by
    intro x hx
    exact h x (by simp [List.mem_singleton.1 hx])
  rw [layout]
  split
  · -- a whole number
    have := SpelledMagnitude.mk (hlead (cs ++ zeros (point - (c :: cs).length)))
      (allDigits_append h (allDigits_zeros _)) .none .none
    simpa using this
  · rename_i hwhole
    split
    · -- the point falls between digits
      rename_i hinside
      obtain ⟨k, hk⟩ : ∃ k : Nat, point.toNat = k + 1 := ⟨point.toNat - 1, by omega⟩
      have hlt : k < cs.length := by
        simp only [List.length_cons] at hwhole
        omega
      have hfraction : SpelledFraction ('.' :: cs.drop k) := by
        refine .point ?_ fun x hx => h x (List.mem_cons_of_mem c (List.mem_of_mem_drop hx))
        intro hnil
        have := List.drop_eq_nil_iff.1 hnil
        omega
      have hdigits : AllDigits (c :: cs.take k) := by
        intro x hx
        rcases List.mem_cons.1 hx with rfl | hx
        · exact h x List.mem_cons_self
        · exact h x (List.mem_cons_of_mem c (List.mem_of_mem_take hx))
      have := SpelledMagnitude.mk (hlead (cs.take k)) hdigits hfraction .none
      simpa [hk] using this
    · split
      · -- zeros between the point and the digits
        have hfraction : SpelledFraction ('.' :: (zeros (-point) ++ c :: cs)) :=
          .point (by simp) (allDigits_append (allDigits_zeros _) h)
        have := @SpelledMagnitude.mk ['0'] _ [] rfl (by simp [AllDigits]) hfraction .none
        simpa using this
      · -- one digit before the point, and a power of ten
        have hfraction : SpelledFraction (if ((c :: cs).length : Int) = 1 then [] else '.' :: cs) := by
          split
          · exact .none
          · rename_i hmany
            refine .point ?_ fun x hx => h x (List.mem_cons_of_mem c hx)
            rintro rfl
            exact hmany rfl
        have := SpelledMagnitude.mk (hlead []) hlast hfraction (spelledPower_signed (point - 1))
        simpa using this

theorem nearerHit_cases {d r b e : Nat} {lowHit highHit : Bool}
    (h : nearerHit d r b lowHit highHit = some e) : (e = d ∧ lowHit = true) ∨ e = d + 1 := by
  unfold nearerHit at h
  grind

/-- The grid never offers zero for a number that is not zero: the decimals that round to it are positive. -/
theorem onGrid_ne_zero {m n d : Nat} {q p t : Int} (hm : m ≠ 0) (h : onGrid m q p n = some (d, t)) :
    d ≠ 0 := by
  obtain ⟨e, hhit, he⟩ := Option.map_eq_some_iff.1 h
  cases he
  rcases nearerHit_cases hhit with ⟨rfl, hlow⟩ | rfl
  · intro hzero
    have hscale : 0 < Nat.pow 2 (q - 2).toNat * Nat.pow 10 (-(p - n + 1)).toNat :=
      Nat.mul_pos (Nat.pow_pos (by decide)) (Nat.pow_pos (by decide))
    have hbelow : 0 < 4 * m - (if m = Binary64.leastNormal ∧ q ≠ Binary64.leastExponent then 1 else 2) := by
      split <;> omega
    have hpos := Nat.mul_pos hbelow hscale
    rw [hzero, Nat.zero_mul] at hlow
    split at hlow
    · have := of_decide_eq_true hlow
      omega
    · have := of_decide_eq_true hlow
      omega
  · exact Nat.succ_ne_zero _

theorem shortest_cases {m : Nat} (hm : m ≠ 0) (q : Int) :
    (shortest m q).1 ≠ 0 ∨ shortest m q = (0, 0) := by
  rw [shortest]
  cases hfind : (List.range 17).findSome? fun i =>
      onGrid m q (leadingPower (m * Nat.pow 2 q.toNat) (Nat.pow 2 (-q).toNat)) (i + 1) with
  | none => exact .inr rfl
  | some hit =>
    obtain ⟨i, -, hi⟩ := List.exists_of_findSome?_eq_some hfind
    exact .inl (onGrid_ne_zero hm hi)

/-- The text of a magnitude is a numeral. -/
theorem spelledMagnitude_magnitudeText (m : Nat) (q : Int) : SpelledMagnitude (magnitudeText m q) := by
  have hzero : SpelledMagnitude ['0'] := @SpelledMagnitude.mk ['0'] [] [] rfl (by simp [AllDigits]) .none .none
  rw [magnitudeText]
  split
  · exact hzero
  · rename_i hm
    rcases shortest_cases hm q with hd | hd
    · obtain ⟨c, cs, hcs, hc⟩ := toDigits_head hd
      have hdigits : AllDigits (c :: trimZeros cs) := by
        rw [← trimZeros_cons hc, ← hcs]
        exact allDigits_trimZeros (allDigits_toDigits _)
      simp only [hcs, trimZeros_cons hc]
      exact spelledMagnitude_layout hc hdigits _
    · rw [hd]
      exact hzero

/-- The text of a finite number is a numeral. -/
theorem spelled_text (negative : Bool) (m : Nat) (q : Int) :
    Spelled (Binary64.finite negative m q).text.chars := by
  have hspelled : Spelled ((if negative ∧ m ≠ 0 then ['-'] else []) ++ magnitudeText m q) := by
    split
    · exact .minus (spelledMagnitude_magnitudeText m q)
    · exact .plain (spelledMagnitude_magnitudeText m q)
  rw [Binary64.text, Text.chars_ofString, String.toList_ofList]
  · exact hspelled
  · rw [String.toList_ofList]
    exact hspelled.lt

end ConstFold.Decimal
