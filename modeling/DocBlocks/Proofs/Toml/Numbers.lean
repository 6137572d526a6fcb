import DocBlocks.Proofs.Number.Shortest
import DocBlocks.Toml.Document
import Mathlib.Tactic.IntervalCases

/-!
# Numbers of documents read back

A number that is written into a document is read from it again: whole numbers by their digits,
others by the layout of their shortest decimal. A reader decides between the kinds of values by
their first characters, so it has to be shown that no number looks like a string or like a time.

## Main definitions

* `Shortest.IsDecimal`: the digits on both sides of a decimal point.

## Main results

* `Shortest.isLayout_layout`: what a layout consists of.
* `value?_toDigits`: a whole number is read back.
* `exists_value?_text`: **a number of 32 bits is read back.**
-/

namespace DocBlocks

/-! ## Layouts -/

namespace Shortest

variable {d n : ℕ} {g : ℤ}

/-- A positive number does not start with a zero. -/
lemma head?_toDigits_ne (hn : 0 < n) : (Nat.toDigits 10 n).head? ≠ some '0' := by
  induction n using Nat.strong_induction_on with
  | _ n ih =>
    rw [Nat.toDigits_eq_if (by decide)]
    split
    · rename_i hlt
      interval_cases n <;> decide
    · rename_i hge
      rw [List.head?_append_of_ne_nil _ Nat.toDigits_ne_nil]
      exact ih (n / 10) (by omega) (by omega)

/-- The digits of a whole number: there are some, and a leading zero stands alone. -/
structure IsWhole (ds : Text) : Prop where
  isDigit : ∀ c ∈ ds, c.isDigit = true
  ne_nil : ds ≠ []
  leading : ds.head? = some '0' → ds = ['0']

/-- The digits on both sides of a decimal point. -/
structure IsDecimal (whole fraction : Text) : Prop where
  whole : IsWhole whole
  isDigit : ∀ c ∈ fraction, c.isDigit = true
  ne_nil : fraction ≠ []

lemma isDigit_toDigits {c : Char} (hc : c ∈ Nat.toDigits 10 n) : c.isDigit = true :=
  Nat.isDigit_of_mem_toDigits (by decide) (by decide) hc

lemma isWhole_toDigits (n : ℕ) : IsWhole (Nat.toDigits 10 n) := by
  refine ⟨fun c => isDigit_toDigits, Nat.toDigits_ne_nil, fun hzero => ?_⟩
  obtain rfl | hpos := Nat.eq_zero_or_pos n
  · rfl
  · exact absurd hzero (head?_toDigits_ne hpos)

lemma isDigit_of_mem_replicate {c : Char} {k : ℕ} (hc : c ∈ List.replicate k '0') : c.isDigit = true := by
  rw [List.eq_of_mem_replicate hc]
  rfl

/-- Whether a text is a decimal with digits on both sides of its point, and with a value. -/
def IsLayout (t : Text) (v : ℚ) : Prop :=
  ∃ whole fraction, t = whole ++ '.' :: fraction ∧ IsDecimal whole fraction ∧
    (Nat.ofDigitChars 10 (whole ++ fraction) 0 : ℚ) * 10 ^ (-(fraction.length : ℤ)) = v

/-- The point stands behind the digits and the zeros that follow. -/
lemma isLayout_followed {k : ℕ} (h : d = 0 → k = 0) :
    IsLayout (Nat.toDigits 10 d ++ List.replicate k '0' ++ ['.', '0']) (d * 10 ^ k) := by
  refine ⟨Nat.toDigits 10 d ++ List.replicate k '0', ['0'], rfl, ⟨⟨?_, ?_, ?_⟩, by simp, by simp⟩, ?_⟩
  · intro c hc
    obtain hc | hc := List.mem_append.mp hc
    exacts [isDigit_toDigits hc, isDigit_of_mem_replicate hc]
  · exact List.append_ne_nil_of_left_ne_nil Nat.toDigits_ne_nil _
  · intro hzero
    rw [List.head?_append_of_ne_nil _ Nat.toDigits_ne_nil] at hzero
    obtain rfl : d = 0 := by_contra fun hd => head?_toDigits_ne (Nat.pos_of_ne_zero hd) hzero
    rw [h rfl]
    rfl
  · rw [Nat.ofDigitChars_append, Nat.ofDigitChars_append, Nat.ofDigitChars_toDigits (by decide) (by decide),
      Nat.ofDigitChars_replicate_zero]
    simp only [Nat.ofDigitChars_cons, Nat.ofDigitChars_nil, Nat.sub_self, Nat.add_zero, List.length_singleton,
      Nat.cast_one, zpow_neg_one]
    push_cast
    ring

/-- The digits in front of the point, if zeros have been put before them so that there is one. -/
lemma isWhole_take_padded (hd : 0 < d) {places : ℕ} {ds : Text}
    (hds : ds = List.replicate (places + 1 - (Nat.toDigits 10 d).length) '0' ++ Nat.toDigits 10 d) :
    IsWhole (ds.take (ds.length - places)) ∧ ∀ c ∈ ds, c.isDigit = true := by
  have hlength : ds.length = places + 1 - (Nat.toDigits 10 d).length + (Nat.toDigits 10 d).length := by
    rw [hds, List.length_append, List.length_replicate]
  have hdigit : ∀ c ∈ ds, c.isDigit = true := by
    intro c hc
    rw [hds] at hc
    obtain hc | hc := List.mem_append.mp hc
    exacts [isDigit_of_mem_replicate hc, isDigit_toDigits hc]
  refine ⟨⟨fun c hc => hdigit c (List.mem_of_mem_take hc), ?_, fun hzero => ?_⟩, hdigit⟩
  · rw [ne_eq, ← List.length_eq_zero_iff, List.length_take]
    omega
  · rw [List.head?_take, if_neg (by omega)] at hzero
    by_cases hpadded : (Nat.toDigits 10 d).length < places + 1
    · rw [show ds.length - places = 1 by omega]
      cases ds with
      | nil => cases hzero
      | cons c ds => rw [List.take_succ_cons, List.take_zero, Option.some.inj hzero]
    · rw [hds, Nat.sub_eq_zero_of_le (by omega), List.replicate_zero, List.nil_append] at hzero
      exact absurd hzero (head?_toDigits_ne hd)

/-- The point stands among the digits, or in front of them behind a zero. -/
lemma isLayout_padded (hd : 0 < d) {places : ℕ} (hplaces : 0 < places) {ds : Text}
    (hds : ds = List.replicate (places + 1 - (Nat.toDigits 10 d).length) '0' ++ Nat.toDigits 10 d) :
    IsLayout (ds.take (ds.length - places) ++ ['.'] ++ ds.drop (ds.length - places)) (d * 10 ^ (-(places : ℤ))) := by
  have hlength : places ≤ ds.length := by
    rw [hds, List.length_append, List.length_replicate]
    omega
  obtain ⟨hwhole, hdigit⟩ := isWhole_take_padded hd hds
  refine ⟨_, ds.drop (ds.length - places), by simp, ⟨hwhole, fun c hc => hdigit c (List.mem_of_mem_drop hc), ?_⟩, ?_⟩
  · rw [ne_eq, ← List.length_eq_zero_iff, List.length_drop]
    omega
  · rw [List.take_append_drop, List.length_drop, Nat.sub_sub_self hlength, hds, Nat.ofDigitChars_append,
      Nat.ofDigitChars_replicate_zero, mul_zero, Nat.ofDigitChars_toDigits (by decide) (by decide)]

/-- **What a layout consists of**: digits on both sides of a point, which spell the decimal. -/
lemma isLayout_layout (h : d = 0 → g = 0) : IsLayout (layout d g) (d * 10 ^ g) := by
  rw [layout]
  split
  · rename_i hg
    obtain ⟨k, rfl⟩ := Int.eq_ofNat_of_zero_le hg
    rw [zpow_natCast]
    exact isLayout_followed fun hd => by exact_mod_cast h hd
  · rename_i hg
    have hd : 0 < d := Nat.pos_of_ne_zero fun hd => hg (h hd).ge
    have hplaces := isLayout_padded hd (show 0 < (-g).toNat by omega) rfl
    rwa [show -((-g).toNat : ℤ) = g by omega] at hplaces

end Shortest

namespace Toml

open Binary Shortest

variable {ds whole fraction rest t : Text} {c : Char} {depth n : ℕ}

/-! ## Digits -/

lemma hexValue?_of_isDigit (hc : c.isDigit = true) : hexValue? c = some (c.toNat - '0'.toNat) := by
  rw [hexValue?, if_pos hc]
  rfl

/-- What decimal digits spell is their number. -/
lemma spelled_eq_ofDigitChars (hds : ∀ c ∈ ds, c.isDigit = true) : spelled 10 ds = Nat.ofDigitChars 10 ds 0 := by
  rw [spelled, Nat.ofDigitChars_eq_foldl]
  refine List.foldl_ext _ _ _ fun n c hc => ?_
  rw [hexValue?_of_isDigit (hds c hc), Option.getD_some]

/-- Digits are read up to what is none. -/
lemma digitTail_append (hds : ∀ c ∈ ds, c.isDigit = true) (hc : c.isDigit = false) (hlow : c ≠ '_') (rest : Text) :
    digitTail Char.isDigit (ds ++ c :: rest) = (ds, c :: rest) := by
  induction ds with
  | nil => cases rest <;> simp [digitTail, hc, hlow]
  | cons d ds ih =>
    have hd := hds d List.mem_cons_self
    specialize ih fun c hc => hds c (List.mem_cons_of_mem _ hc)
    cases ds with
    | nil =>
      rw [List.nil_append] at ih
      rw [List.cons_append, List.nil_append, digitTail, if_pos hd, ih]
    | cons b ds =>
      rw [List.cons_append] at ih
      rw [List.cons_append, List.cons_append, digitTail, if_pos hd, ih]

lemma digits?_append (hds : ∀ c ∈ ds, c.isDigit = true) (hne : ds ≠ []) (hc : c.isDigit = false) (hlow : c ≠ '_')
    (rest : Text) : digits? Char.isDigit (ds ++ c :: rest) = some (ds, c :: rest) := by
  obtain ⟨d, ds, rfl⟩ := List.exists_cons_of_ne_nil hne
  rw [List.cons_append, digits?, if_pos (hds d List.mem_cons_self), ← List.cons_append,
    digitTail_append hds hc hlow]

lemma decimal?_append (h : IsWhole ds) (hc : c.isDigit = false) (hlow : c ≠ '_') (rest : Text) :
    decimal? (ds ++ c :: rest) = some (ds, c :: rest) := by
  by_cases hzero : ds.head? = some '0'
  · rw [h.leading hzero]
    rfl
  · obtain ⟨d, ds, rfl⟩ := List.exists_cons_of_ne_nil h.ne_nil
    have hd : d ≠ '0' := fun hd => hzero (congrArg some hd)
    have hdecimal : decimal? (d :: ds ++ c :: rest) = digits? Char.isDigit (d :: ds ++ c :: rest) := by
      rw [decimal?]
      simpa using hd
    rw [hdecimal, digits?_append h.isDigit h.ne_nil hc hlow]

/-! ## Times -/

lemma fixed?_cons_eq_none (hc : c.isDigit = false) (count : ℕ) (t : Text) : fixed? (count + 1) (c :: t) = none := by
  simp [fixed?, hc]

/-- What is read behind some digits of a row is a digit, or what follows the row. -/
lemma exactly?_of_fixed? {mark : Char} {count : ℕ} {x : ℕ × Text} (hds : ∀ c ∈ ds, c.isDigit = true)
    (hc : c.isDigit = false) (hmark : mark.isDigit = false) (hne : c ≠ mark)
    (h : fixed? count (ds ++ c :: rest) = some x) : exactly? mark x.2 = none := by
  rw [fixed?] at h
  split at h
  · rename_i hall
    obtain rfl := (Option.some.inj h).symm
    have hle : count ≤ ds.length := by
      by_contra hlt
      have hmem : c ∈ (ds ++ c :: rest).take count := by
        rw [List.take_append, List.mem_append]
        refine .inr ?_
        obtain ⟨k, hk⟩ : ∃ k, count - ds.length = k + 1 := ⟨count - ds.length - 1, by omega⟩
        rw [hk, List.take_succ_cons]
        exact List.mem_cons_self
      have := List.all_eq_true.mp hall.2 c hmem
      rw [hc] at this
      cases this
    rw [List.drop_append_of_le_length hle]
    cases hrest : ds.drop count with
    | nil => rw [List.nil_append, exactly?, if_neg hne]
    | cons d more =>
      have hd : d.isDigit = true := hds d (List.mem_of_mem_drop (hrest ▸ List.mem_cons_self))
      rw [List.cons_append, exactly?, if_neg]
      rintro rfl
      rw [hd] at hmark
      cases hmark
  · cases h

/-- **No row of digits is a time**, unless a dash or a colon follows. -/
lemma moment?_digits (hds : ∀ c ∈ ds, c.isDigit = true) (hc : c.isDigit = false) (hdash : c ≠ '-') (hcolon : c ≠ ':') :
    moment? (ds ++ c :: rest) = none := by
  have hdate : date? (ds ++ c :: rest) = none := by
    rw [date?]
    cases h : fixed? 4 (ds ++ c :: rest) with
    | none => rfl
    | some x =>
      have := exactly?_of_fixed? hds hc rfl hdash h
      simp [this]
  have htime : time? (ds ++ c :: rest) = none := by
    rw [time?]
    cases h : fixed? 2 (ds ++ c :: rest) with
    | none => rfl
    | some x =>
      have := exactly?_of_fixed? hds hc rfl hcolon h
      simp [this]
  rw [moment?, hdate, htime]

/-- What does not start with a digit is no time. -/
lemma moment?_cons (hc : c.isDigit = false) (t : Text) : moment? (c :: t) = none := by
  have hdate : date? (c :: t) = none := by
    rw [date?, fixed?_cons_eq_none hc]
    rfl
  have htime : time? (c :: t) = none := by
    rw [time?, fixed?_cons_eq_none hc]
    rfl
  rw [moment?, hdate, htime]

/-! ## Values -/

/-- The characters that values other than numbers start with. Dates and times start with digits like
numbers. -/
def otherStarts : List Char := ['[', '\x7b', '"', '\'', 't', 'f']

lemma not_mem_otherStarts (hc : c.isDigit = true) : c ∉ otherStarts := by
  intro h
  have hall : ∀ c ∈ otherStarts, c.isDigit = false := by simp [otherStarts, Char.isDigit]
  rw [hall c h] at hc
  cases hc

/-- **What starts like a number and is no time is read as a number.** -/
lemma value?_eq_number? (hc : c ∉ otherStarts) (hmoment : moment? (c :: t) = none) :
    value? depth (c :: t) = number? (c :: t) := by
  simp only [otherStarts, List.mem_cons, List.not_mem_nil, or_false, not_or] at hc
  obtain ⟨hbracket, hbrace, hdouble, hsingle, htrue, hfalse⟩ := hc
  have hstring : string? (c :: t) = none := by
    simp [string?, basicString?, literalString?, hdouble, hsingle, Ne.symm hdouble, Ne.symm hsingle]
  unfold value?
  split
  · rename_i heq
    exact absurd (List.cons.inj heq).1 hbracket
  · rename_i heq
    exact absurd (List.cons.inj heq).1 hbrace
  · simp [hstring, hmoment, List.isPrefixOf?, Ne.symm htrue, Ne.symm hfalse]

/-- The sign in front of a number. -/
def signText (negative : Bool) : Text := if negative then ['-'] else []

lemma ne_sign_of_isDigit (hc : c.isDigit = true) : c ≠ '-' ∧ c ≠ '+' := by
  constructor <;> rintro rfl <;> cases hc

/-- **A number starts with its whole part**, and what follows this tells its kind. -/
lemma number?_append (h : IsWhole ds) (hc : c.isDigit = false) (hmark : c ∉ ['_', 'x', 'o', 'b']) (negative : Bool)
    (t : Text) :
    number? (signText negative ++ (ds ++ c :: t)) =
      match fractional? (c :: t) with
      | some (fraction, exponent, t) => float? negative ds fraction exponent t
      | none => integer? (if negative then -(spelled 10 ds : ℤ) else spelled 10 ds) (c :: t) := by
  simp only [List.mem_cons, List.not_mem_nil, or_false, not_or] at hmark
  obtain ⟨hlow, hhex, hoctal, hbinary⟩ := hmark
  have hdecimal := decimal?_append h hc hlow t
  obtain ⟨d, ds, rfl⟩ := List.exists_cons_of_ne_nil h.ne_nil
  have hsign : sign (signText negative ++ (d :: ds ++ c :: t)) = (negative, d :: ds ++ c :: t) := by
    cases negative with
    | true => rfl
    | false => simp [signText, sign, ne_sign_of_isDigit (h.isDigit d List.mem_cons_self)]
  -- a zero in front is the only digit, so the character behind it marks no other base
  have hsecond : ∀ b u, signText negative ++ (d :: ds ++ c :: t) = '0' :: b :: u → c = b := by
    intro b u heq
    cases negative with
    | true => cases heq
    | false =>
      obtain ⟨rfl, htail⟩ := List.cons.inj heq
      obtain rfl : ds = [] := by simpa using h.leading rfl
      exact (List.cons.inj htail).1
  unfold number?
  split
  · rename_i heq
    exact absurd (hsecond _ _ heq) hhex
  · rename_i heq
    exact absurd (hsecond _ _ heq) hoctal
  · rename_i heq
    exact absurd (hsecond _ _ heq) hbinary
  · rw [hsign]
    cases hfraction : fractional? (c :: t) <;> simp only [hdecimal, hfraction]

lemma exponent?_newline (rest : Text) : exponent? ('\n' :: rest) = none := rfl

/-- **A whole number is read back.** -/
lemma value?_toDigits (hn : n < 2 ^ 32) (rest : Text) :
    value? depth (Nat.toDigits 10 n ++ '\n' :: rest) = some (.integer n, '\n' :: rest) := by
  have hwhole := isWhole_toDigits n
  have hmoment : moment? (Nat.toDigits 10 n ++ '\n' :: rest) = none :=
    moment?_digits hwhole.isDigit rfl (by decide) (by decide)
  have hspelled : spelled 10 (Nat.toDigits 10 n) = n :=
    (spelled_eq_ofDigitChars hwhole.isDigit).trans (Nat.ofDigitChars_toDigits (by decide) (by decide))
  have hrange : Int64.minValue.toInt ≤ (n : ℤ) ∧ (n : ℤ) ≤ Int64.maxValue.toInt := by
    rw [show Int64.minValue.toInt = -2 ^ 63 from rfl, show Int64.maxValue.toInt = 2 ^ 63 - 1 from rfl]
    omega
  have hnumber : number? (Nat.toDigits 10 n ++ '\n' :: rest) = some (.integer n, '\n' :: rest) := by
    have h := number?_append (c := '\n') hwhole rfl (by decide) false rest
    rw [show fractional? ('\n' :: rest) = none from rfl, hspelled] at h
    exact h.trans (if_pos hrange)
  rw [← hnumber]
  obtain ⟨d, ds, hds⟩ := List.exists_cons_of_ne_nil hwhole.ne_nil
  rw [hds] at hwhole hmoment ⊢
  exact value?_eq_number? (not_mem_otherStarts (hwhole.isDigit d List.mem_cons_self)) hmoment

/-- **A decimal is read as the number with its value.** -/
lemma value?_decimal (h : IsDecimal whole fraction) (negative : Bool) (rest : Text) :
    value? depth (signText negative ++ (whole ++ '.' :: fraction) ++ '\n' :: rest) =
      float? negative whole fraction 0 ('\n' :: rest) := by
  have hfractional : fractional? ('.' :: (fraction ++ '\n' :: rest)) = some (fraction, 0, '\n' :: rest) := by
    have hdigits := digits?_append (c := '\n') h.isDigit h.ne_nil rfl (by decide) rest
    simp only [fractional?, hdigits, exponent?_newline, bind, Option.bind, pure]
  have hnumber := number?_append (c := '.') h.whole rfl (by decide) negative (fraction ++ '\n' :: rest)
  rw [hfractional] at hnumber
  have hmoment : moment? (signText negative ++ (whole ++ '.' :: (fraction ++ '\n' :: rest))) = none := by
    cases negative with
    | true => exact moment?_cons rfl _
    | false => exact moment?_digits h.whole.isDigit rfl (by decide) (by decide)
  rw [List.append_assoc, List.append_assoc, List.cons_append]
  refine Eq.trans ?_ hnumber
  obtain ⟨d, ds, rfl⟩ := List.exists_cons_of_ne_nil h.whole.ne_nil
  cases negative with
  | true => exact value?_eq_number? (by decide) hmoment
  | false => exact value?_eq_number? (not_mem_otherStarts (h.whole.isDigit d List.mem_cons_self)) hmoment

/-- A layout that is read spells its decimal. -/
lemma ofDecimal_spelled {d : ℕ} {g : ℤ} (h : IsDecimal whole fraction)
    (hvalue : (Nat.ofDigitChars 10 (whole ++ fraction) 0 : ℚ) * 10 ^ (-(fraction.length : ℤ)) = d * 10 ^ g) :
    (spelled 10 (whole ++ fraction) : ℚ) * 10 ^ ((0 : ℤ) - fraction.length) = d * 10 ^ g := by
  rw [spelled_eq_ofDigitChars, zero_sub, hvalue]
  intro c hc
  obtain hc | hc := List.mem_append.mp hc
  exacts [h.whole.isDigit c hc, h.isDigit c hc]

/-- **A number of 32 bits is read back.** -/
lemma exists_value?_text (depth : ℕ) {x : Binary} (hx : x.IsOf single) :
    ∃ y, (∀ rest, value? depth (x.text ++ '\n' :: rest) = some (.float y, '\n' :: rest)) ∧ y.convert single = x := by
  cases x with
  | nan => exact ⟨nan, fun _ => value?_eq_number? (by decide) (moment?_cons rfl _), rfl⟩
  | infinite negative =>
    refine ⟨infinite negative, fun rest => ?_, rfl⟩
    cases negative <;> exact value?_eq_number? (by decide) (moment?_cons rfl _)
  | finite negative m e =>
    by_cases hm : m = 0
    · subst hm
      have he : e = single.least := hx.full.resolve_right (by decide)
      subst he
      obtain ⟨whole, fraction, hlayout, hdecimal, hvalue⟩ := isLayout_layout (d := 0) (g := 0) fun _ => rfl
      refine ⟨finite negative 0 double.least, fun rest => ?_, rfl⟩
      simp only [Binary.text, if_true, hlayout]
      refine (value?_decimal hdecimal negative rest).trans ?_
      have hzero := ofDecimal_spelled hdecimal hvalue
      rw [Nat.cast_zero, zero_mul, mul_eq_zero, or_iff_left (by positivity), Nat.cast_eq_zero] at hzero
      simp [float?, hzero, ofDecimal]
    · have hpos := Nat.pos_of_ne_zero hm
      obtain ⟨whole, fraction, hlayout, hdecimal, hvalue⟩ := isLayout_layout (g := (Shortest.digits m e).2)
        fun hzero => absurd hzero (digits_pos hpos hx).ne'
      refine ⟨_, fun rest => ?_, convert_normal hpos hx negative⟩
      simp only [Binary.text, if_neg hm, hlayout]
      refine (value?_decimal hdecimal negative rest).trans ?_
      have hread := ofDecimal_digits hpos hx negative (ofDecimal_spelled hdecimal hvalue)
      simp only [float?, hread, reduceCtorEq, if_false]

end Toml

end DocBlocks
