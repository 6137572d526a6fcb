import DocBlocks.Proofs.Text.Occurrence
import DocBlocks.Toml.Document
import DocBlocks.Toml.Quoted
import Mathlib.Data.List.Infix

/-!
# Strings of documents read back

A string that is written in any of the four kinds of quotes is read from them again. Quotes of one
line are left by the first quote that no backslash hides. Three quotes are more involved: single
quotes may stand inside, also right in front of the last three, so the reader looks at whole rows of
quotes.

## Main definitions

* `Toml.Spells`: what stands within three quotes, piece by piece.

## Main results

* `escape?_escaped`: an escape is read back.
* `basicBody?_basicInside`: what double quotes of one line hold is read back.
* `longBody?_append`: what three quotes hold is read back.
* `value?_quoted`: **every string is read back.**
-/

namespace DocBlocks.Toml

variable {c quote : Char} {t u rest : Text} {quotes fuel depth : ℕ}

/-! ## Escapes -/

/-- Whether a character stands as an escape wherever escapes are in use. A line feed does not in
strings of several lines. -/
def IsHidden (isLong : Bool) (c : Char) : Prop :=
  ¬(c = '\n' ∧ isLong = true) ∧ (c = '\t' ∨ c = '\n' ∨ c = '\\' ∨ needsEscape c = true)

lemma needsEscape_eq_false_iff : needsEscape c = false ↔ isPlain c = true ∨ c = '\n' := by
  by_cases htab : c = '\t'
  · subst htab
    decide
  by_cases hline : c = '\n'
  · subst hline
    decide
  simp [needsEscape, isPlain, htab, hline]

lemma toNat_lt_of_needsEscape (h : needsEscape c = true) : c.toNat < 128 := by
  simp only [needsEscape, Bool.or_eq_true, Bool.and_eq_true, decide_eq_true_eq] at h
  obtain ⟨⟨hlt, -⟩, -⟩ | rfl := h
  · have : c.toNat < ' '.toNat := hlt
    exact this.trans (by decide)
  · decide

lemma IsHidden.toNat_lt {isLong : Bool} (h : IsHidden isLong c) : c.toNat < 128 := by
  obtain rfl | rfl | rfl | h := h.2
  · decide
  · decide
  · decide
  · exact toNat_lt_of_needsEscape h

lemma codePoint?_hex (hc : c.toNat < 128) (rest : Text) :
    codePoint? 4 ('0' :: '0' :: upperHex (c.toNat / 16) :: upperHex (c.toNat % 16) :: rest) = some (c, rest) := by
  have hhex : ∀ n < 16, hexValue? (upperHex n) = some n := by decide
  have hvalid : c.toNat.isValidChar := c.valid
  have hsum : 16 * (c.toNat / 16) + c.toNat % 16 = c.toNat := Nat.div_add_mod _ _
  have hzero : hexValue? '0' = some 0 := rfl
  simp [codePoint?, hzero, hhex (c.toNat / 16) (by omega), hhex (c.toNat % 16) (by omega), hsum, hvalid]

/-- **An escape is read back**, and it does not join its line with the next. -/
lemma escape?_escaped (hc : c.toNat < 128) :
    ∃ e, escaped c = '\\' :: e ∧ ∀ rest, escape? (e ++ rest) = some (c, rest) ∧ continued? (e ++ rest) = none := by
  rw [escaped]
  split
  · rename_i e h
    refine ⟨[e], rfl, fun rest => ?_⟩
    obtain ⟨front, back, htable, -⟩ := List.lookup_eq_some_iff.mp h
    have hmem : (c, e) ∈ front ++ (c, e) :: back := List.mem_append_right front List.mem_cons_self
    rw [← htable] at hmem
    simp only [List.mem_cons, Prod.mk.injEq, List.not_mem_nil, or_false] at hmem
    obtain ⟨rfl, rfl⟩ | ⟨rfl, rfl⟩ | ⟨rfl, rfl⟩ | ⟨rfl, rfl⟩ | ⟨rfl, rfl⟩ | ⟨rfl, rfl⟩ | ⟨rfl, rfl⟩ := hmem <;>
      exact ⟨rfl, rfl⟩
  · exact ⟨_, rfl, fun rest => ⟨codePoint?_hex hc rest, rfl⟩⟩

/-! ## Quotes of one line -/

/-- What double quotes hold for one more character, unless it is a double quote. -/
lemma basicInside_cons (hquote : c ≠ '"') (allowed : ℕ) (isLong : Bool) (quotes : ℕ) (t : Text) :
    (IsHidden isLong c ∧ basicInside allowed isLong quotes (c :: t) = escaped c ++ basicInside allowed isLong 0 t) ∨
      (needsEscape c = false ∧ c ≠ '\\' ∧ (c = '\n' → isLong = true) ∧
        basicInside allowed isLong quotes (c :: t) = c :: basicInside allowed isLong 0 t) := by
  rw [basicInside, if_neg hquote]
  split
  · rename_i h
    simp only [not_or] at h
    obtain ⟨rfl, hlong⟩ | ⟨-, hline, hslash, hplain⟩ := h
    · exact .inr ⟨rfl, by decide, fun _ => hlong, rfl⟩
    · exact .inr ⟨Bool.eq_false_iff.mpr hplain, hslash, fun h => absurd h hline, rfl⟩
  · rename_i h
    rw [not_or, not_not] at h
    exact .inl ⟨h, rfl⟩

/-- Within one double quote at each end no double quote stands as it is. -/
lemma head?_basicInside_ne (quotes : ℕ) (t : Text) : (basicInside 0 false quotes t).head? ≠ some '"' := by
  cases t with
  | nil => exact nofun
  | cons c t =>
    by_cases hquote : c = '"'
    · subst hquote
      have hescaped : escaped '"' = ['\\', '"'] := rfl
      simp [basicInside, hescaped]
    · obtain ⟨hhidden, heq⟩ | ⟨-, -, -, heq⟩ := basicInside_cons hquote 0 false quotes t
      · obtain ⟨e, he, -⟩ := escape?_escaped hhidden.toNat_lt
        simp [heq, he]
      · simpa [heq] using hquote

/-- An escape in front of the rest of a string of one line. -/
lemma basicBody?_escaped (hc : c.toNat < 128) (h : basicBody? fuel u = some (t, rest)) :
    basicBody? (fuel + 1) (escaped c ++ u) = some (c :: t, rest) := by
  obtain ⟨e, he, hread⟩ := escape?_escaped hc
  rw [he, List.cons_append, basicBody?, (hread u).1]
  simp [h]

/-- **What double quotes of one line hold is read back.** -/
lemma basicBody?_basicInside (hfuel : (basicInside 0 false quotes t).length < fuel) (rest : Text) :
    basicBody? fuel (basicInside 0 false quotes t ++ '"' :: rest) = some (t, rest) := by
  induction t generalizing quotes fuel with
  | nil =>
    obtain ⟨fuel, rfl⟩ := Nat.exists_eq_add_of_lt hfuel
    rfl
  | cons c t ih =>
    obtain ⟨fuel, rfl⟩ : ∃ n, fuel = n + 1 := ⟨fuel - 1, by omega⟩
    -- behind an escape, which is not empty, the fuel is still enough
    have hescaped : ∀ hc : c.toNat < 128, basicInside 0 false quotes (c :: t) = escaped c ++ basicInside 0 false 0 t →
        basicBody? (fuel + 1) (escaped c ++ basicInside 0 false 0 t ++ '"' :: rest) = some (c :: t, rest) := by
      intro hc heq
      obtain ⟨e, he, -⟩ := escape?_escaped hc
      rw [heq, he, List.length_append, List.length_cons] at hfuel
      rw [List.append_assoc]
      exact basicBody?_escaped hc (ih (by omega))
    by_cases hquote : c = '"'
    · subst hquote
      exact hescaped (by decide) rfl
    · obtain ⟨hhidden, heq⟩ | ⟨hplain, hslash, hline, heq⟩ := basicInside_cons hquote 0 false quotes t
      · rw [heq]
        exact hescaped hhidden.toNat_lt heq
      · rw [heq, List.length_cons] at hfuel
        replace ih := ih (show (basicInside 0 false 0 t).length < fuel by omega)
        rw [heq, List.cons_append]
        unfold basicBody?
        split
        · rename_i h
          exact absurd (List.cons.inj h).1 hquote
        · rename_i h
          exact absurd (List.cons.inj h).1 hslash
        · rename_i h
          obtain ⟨rfl, rfl⟩ := List.cons.inj h
          rw [if_pos ((needsEscape_eq_false_iff.mp hplain).resolve_right fun h => nomatch hline h), ih]
          rfl
        · rename_i h
          cases h

/-! ## Three quotes -/

/-- Whether something other than a quote comes up in a text behind at most two quotes. -/
def HasOther (quote : Char) (u : Text) : Prop :=
  ∃ j d v, u = List.replicate j quote ++ d :: v ∧ d ≠ quote ∧ j ≤ 2

/-- What stands within three quotes for a text, piece by piece: characters as they are, escapes
within double quotes, and up to two quotes at the end. -/
inductive Spells (quote : Char) : Text → Text → Prop
  | quotes {j : ℕ} (hj : j ≤ 2) : Spells quote (List.replicate j quote) (List.replicate j quote)
  | own {c : Char} {t u : Text} (hc : needsEscape c = false) (hslash : ¬(c = '\\' ∧ quote = '"'))
      (hother : HasOther quote (c :: u)) (h : Spells quote t u) : Spells quote (c :: t) (c :: u)
  | escape {c : Char} {t u : Text} (hquote : quote = '"') (hc : c.toNat < 128) (h : Spells quote t u) :
      Spells quote (c :: t) (escaped c ++ u)

lemma newline?_cons (hline : c ≠ '\n') (hreturn : c ≠ '\r') (t : Text) : newline? (c :: t) = none := by
  unfold newline?
  split <;> simp_all

/-- A row of quotes is taken as far as it goes. -/
lemma takeWhile_replicate (hrest : rest.head? ≠ some quote) (j : ℕ) :
    (List.replicate j quote ++ rest).takeWhile (· = quote) = List.replicate j quote := by
  rw [List.takeWhile_append_of_pos (by simp +contextual)]
  cases rest with
  | nil => simp
  | cons d v =>
    have hd : d ≠ quote := fun hd => hrest (congrArg some hd)
    simp [hd]

/-- The last quotes of a string are the end of a longer row. -/
lemma longBody?_quotes {j : ℕ} (hj : j ≤ 2) (hrest : rest.head? ≠ some quote) (fuel : ℕ) :
    longBody? quote (fuel + 1) (List.replicate j quote ++ (List.replicate 3 quote ++ rest)) =
      some (List.replicate j quote, rest) := by
  rw [← List.append_assoc, ← List.replicate_add]
  unfold longBody?
  simp only [takeWhile_replicate hrest, List.length_replicate, List.drop_replicate]
  rw [if_pos (by omega), if_pos (by omega), Nat.add_sub_cancel]
  simp

/-- A row of at most two quotes with something behind it does not end a string. -/
lemma HasOther.length_lt (h : HasOther quote u) (v : Text) : ((u ++ v).takeWhile (· = quote)).length < 3 := by
  obtain ⟨j, d, w, rfl, hd, hj⟩ := h
  rw [List.append_assoc, takeWhile_replicate (by simpa using hd), List.length_replicate]
  omega

/-- **What three quotes hold is read back.** -/
lemma longBody?_append (h : Spells quote t u) (hrest : rest.head? ≠ some quote) (hfuel : u.length < fuel) :
    longBody? quote fuel (u ++ (List.replicate 3 quote ++ rest)) = some (t, rest) := by
  induction h generalizing fuel with
  | quotes hj =>
    obtain ⟨fuel, rfl⟩ : ∃ n, fuel = n + 1 := ⟨fuel - 1, by omega⟩
    exact longBody?_quotes hj hrest fuel
  | @own c t u hc hslash hother h ih =>
    obtain ⟨fuel, rfl⟩ : ∃ n, fuel = n + 1 := ⟨fuel - 1, by omega⟩
    rw [List.length_cons] at hfuel
    have hrow := hother.length_lt (List.replicate 3 quote ++ rest)
    replace ih := ih (show u.length < fuel by omega)
    generalize List.replicate 3 quote ++ rest = tail at hrow ih ⊢
    rw [List.cons_append] at hrow ⊢
    unfold longBody?
    simp only [if_neg (not_le.mpr hrow)]
    by_cases hline : c = '\n'
    · subst hline
      simp [newline?, ih]
    · have hplain : isPlain c = true := (needsEscape_eq_false_iff.mp hc).resolve_right hline
      have hreturn : c ≠ '\r' := by
        rintro rfl
        cases hplain
      have hnewline := newline?_cons hline hreturn (u ++ tail)
      simp only [hnewline, if_neg hslash, hplain, if_true, ih, Option.map_some]
  | @escape c t u hquote hc h ih =>
    subst hquote
    obtain ⟨fuel, rfl⟩ : ∃ n, fuel = n + 1 := ⟨fuel - 1, by omega⟩
    obtain ⟨e, he, hread⟩ := escape?_escaped hc
    rw [he, List.length_append, List.length_cons] at hfuel
    replace ih := ih (show u.length < fuel by omega)
    generalize List.replicate 3 '"' ++ rest = tail at ih ⊢
    obtain ⟨hescape, hcontinued⟩ := hread (u ++ tail)
    rw [he, List.cons_append, List.cons_append, List.append_assoc]
    unfold longBody?
    simp [newline?, hcontinued, hescape, ih]

/-! ## Writing within three quotes -/

/-- A text without three quotes in a row consists of at most two quotes, or has something else
behind them. -/
lemma eq_replicate_or_hasOther (h : ¬List.replicate 3 quote <:+: t) :
    (∃ j ≤ 2, t = List.replicate j quote) ∨ HasOther quote t := by
  obtain ⟨j, hj⟩ : ∃ j, t.takeWhile (· = quote) = List.replicate j quote :=
    ⟨_, List.eq_replicate_of_mem fun c hc => by
      simpa using List.all_eq_true.mp List.all_takeWhile c hc⟩
  have hsplit : t = List.replicate j quote ++ t.dropWhile (· = quote) := by
    rw [← hj, List.takeWhile_append_dropWhile]
  have hle : j ≤ 2 := by
    by_contra hlt
    refine h ⟨[], List.replicate (j - 3) quote ++ t.dropWhile (· = quote), ?_⟩
    rw [List.nil_append, ← List.append_assoc, ← List.replicate_add, Nat.add_sub_cancel' (by omega), ← hsplit]
  cases hrest : t.dropWhile (· = quote) with
  | nil => exact .inl ⟨j, hle, by rw [hsplit, hrest, List.append_nil]⟩
  | cons d v =>
    have hd := List.head_dropWhile_not (· = quote) (l := t) (by simp [hrest])
    exact .inr ⟨j, d, v, by rw [hsplit, hrest], by simpa [hrest] using hd, hle⟩

/-- **Single quotes hold a text as it is** if it has no three of them in a row. -/
lemma spells_self (hquote : quote ≠ '"') (hplain : ∀ c ∈ t, needsEscape c = false)
    (hrun : ¬List.replicate 3 quote <:+: t) : Spells quote t t := by
  induction t with
  | nil => exact .quotes (j := 0) (Nat.zero_le 2)
  | cons c t ih =>
    obtain ⟨j, hj, heq⟩ | hother := eq_replicate_or_hasOther hrun
    · rw [heq]
      exact .quotes hj
    · exact .own (hplain c List.mem_cons_self) (fun h => hquote h.2) hother
        (ih (fun c hc => hplain c (List.mem_cons_of_mem _ hc)) fun h => hrun (List.infix_cons h))

/-- **Double quotes in a row** are counted: behind two of them the third one is hidden. So what is
left to write is quotes that may stand at the end, or something else comes up in time. -/
lemma basicInside_eq_or_hasOther (hquotes : quotes ≤ 2) (t : Text) :
    (∃ j, quotes + j ≤ 2 ∧ t = List.replicate j '"' ∧ basicInside 2 true quotes t = List.replicate j '"') ∨
      ∃ j d v, basicInside 2 true quotes t = List.replicate j '"' ++ d :: v ∧ d ≠ '"' ∧ quotes + j ≤ 2 := by
  induction t generalizing quotes with
  | nil => exact .inl ⟨0, hquotes, rfl, rfl⟩
  | cons c t ih =>
    by_cases hquote : c = '"'
    · subst hquote
      rw [basicInside, if_pos rfl]
      split
      · rename_i hlt
        obtain ⟨j, hj, ht, heq⟩ | ⟨j, d, v, heq, hd, hj⟩ := ih (show quotes + 1 ≤ 2 from hlt)
        · exact .inl ⟨j + 1, by omega, by rw [List.replicate_succ, ← ht], by rw [List.replicate_succ, heq]⟩
        · exact .inr ⟨j + 1, d, v, by rw [List.replicate_succ, heq, List.cons_append], hd, by omega⟩
      · exact .inr ⟨0, '\\', '"' :: basicInside 2 true 0 t, rfl, by decide, hquotes⟩
    · obtain ⟨hhidden, heq⟩ | ⟨-, -, -, heq⟩ := basicInside_cons hquote 2 true quotes t
      · obtain ⟨e, he, -⟩ := escape?_escaped hhidden.toNat_lt
        exact .inr ⟨0, '\\', e ++ basicInside 2 true 0 t, by rw [heq, he]; rfl, by decide, hquotes⟩
      · exact .inr ⟨0, c, basicInside 2 true 0 t, heq, hquote, hquotes⟩

/-- **Double quotes hold every text**, with escapes. -/
lemma spells_basicInside (hquotes : quotes ≤ 2) (t : Text) : Spells '"' t (basicInside 2 true quotes t) := by
  induction t generalizing quotes with
  | nil => exact .quotes (j := 0) (Nat.zero_le 2)
  | cons c t ih =>
    obtain ⟨j, hj, ht, heq⟩ | ⟨j, d, v, hv, hd, hj⟩ := basicInside_eq_or_hasOther hquotes (c :: t)
    · rw [heq, ht]
      exact .quotes (by omega)
    have hother : HasOther '"' (basicInside 2 true quotes (c :: t)) := ⟨j, d, v, hv, hd, by omega⟩
    by_cases hquote : c = '"'
    · subst hquote
      rw [basicInside, if_pos rfl] at hother ⊢
      split
      · rename_i hlt
        rw [if_pos hlt] at hother
        exact .own rfl (by decide) hother (ih hlt)
      · exact .escape rfl (by decide) (ih (Nat.zero_le 2))
    · obtain ⟨hhidden, heq⟩ | ⟨hplain, hslash, -, heq⟩ := basicInside_cons hquote 2 true quotes t
      · rw [heq]
        exact .escape rfl hhidden.toNat_lt (ih (Nat.zero_le 2))
      · rw [heq] at hother ⊢
        exact .own hplain (fun h => hslash h.1) hother (ih (Nat.zero_le 2))

/-! ## Strings of all kinds -/

/-- What three quotes hold does not start with a line break, unless the string has one. -/
lemma Spells.newline?_eq_none (h : Spells quote t u) (hquote : quote = '"' ∨ quote = '\'') (hline : '\n' ∉ t)
    (rest : Text) : newline? (u ++ quote :: rest) = none := by
  have hown : quote ≠ '\n' ∧ quote ≠ '\r' := by
    obtain rfl | rfl := hquote <;> decide
  cases h with
  | @quotes j =>
    cases j with
    | zero => exact newline?_cons hown.1 hown.2 rest
    | succ j => exact newline?_cons hown.1 hown.2 _
  | own hc =>
    have hc' := fun h => hline (List.mem_cons.mpr (.inl h))
    refine newline?_cons (Ne.symm hc') ?_ _
    rintro rfl
    cases hc
  | escape _ hc =>
    obtain ⟨e, he, -⟩ := escape?_escaped hc
    rw [he]
    exact newline?_cons (by decide) (by decide) _

/-- **Three quotes at each end** are read back. -/
lemma string?_longQuoted (h : Spells quote t u) (hquote : quote = '"' ∨ quote = '\'') (hrest : rest.head? ≠ some quote) :
    string? (longQuoted quote u t ++ rest) = some (t, rest) := by
  obtain ⟨tail, htail⟩ : ∃ tail, tail = List.replicate 3 quote ++ rest := ⟨_, rfl⟩
  have hfuel : u.length < (u ++ tail).length + 1 := by
    rw [List.length_append]
    omega
  have hread := longBody?_append h hrest hfuel
  rw [← htail] at hread
  have hlong : longString? quote (longQuoted quote u t ++ rest) = some (t, rest) := by
    by_cases hline : '\n' ∈ t
    · have hopen : longQuoted quote u t ++ rest = quote :: quote :: quote :: '\n' :: (u ++ tail) := by
        simp [longQuoted, hline, htail, List.replicate_succ]
      simp only [hopen, longString?, List.isPrefixOf?, beq_self_eq_true, if_true]
      exact hread
    · have hopen : longQuoted quote u t ++ rest = quote :: quote :: quote :: (u ++ tail) := by
        simp [longQuoted, hline, htail, List.replicate_succ]
      have hnewline : newline? (u ++ tail) = none :=
        htail ▸ h.newline?_eq_none hquote hline (quote :: quote :: rest)
      simp only [hopen, longString?, List.isPrefixOf?, beq_self_eq_true, if_true, hnewline, Option.getD_none]
      exact hread
  have hstart : longQuoted quote u t ++ rest =
      quote :: quote :: quote :: ((if t.contains '\n' then ['\n'] else []) ++ u ++ tail) := by
    simp [longQuoted, htail, List.replicate_succ]
  rw [← hlong, string?, hstart]
  obtain rfl | rfl := hquote <;> rfl

/-- **One double quote at each end** is read back. -/
lemma string?_basicQuoted (t rest : Text) : string? (basicQuoted t ++ '\n' :: rest) = some (t, '\n' :: rest) := by
  have hopen : basicQuoted t ++ '\n' :: rest = '"' :: (basicInside 0 false 0 t ++ '"' :: '\n' :: rest) := by
    simp [basicQuoted]
  have hthree : ['"', '"', '"'].isPrefixOf ('"' :: (basicInside 0 false 0 t ++ '"' :: '\n' :: rest)) = false := by
    have hhead := head?_basicInside_ne 0 t
    cases h : basicInside 0 false 0 t with
    | nil => rfl
    | cons c u =>
      have hc : '"' ≠ c := fun hc => hhead (by rw [h, hc]; rfl)
      simp [List.isPrefixOf, hc]
  have hread : basicString? ('"' :: (basicInside 0 false 0 t ++ '"' :: '\n' :: rest)) = some (t, '\n' :: rest) := by
    refine basicBody?_basicInside ?_ _
    rw [List.length_append]
    omega
  rw [hopen, string?, hthree, hread]
  rfl

/-- **One single quote at each end** is read back. -/
lemma string?_literal (hplain : ∀ c ∈ t, isPlain c = true) (hquote : '\'' ∉ t) (rest : Text) :
    string? (['\''] ++ t ++ ['\''] ++ '\n' :: rest) = some (t, '\n' :: rest) := by
  have hopen : ['\''] ++ t ++ ['\''] ++ '\n' :: rest = '\'' :: (t ++ '\'' :: '\n' :: rest) := by simp
  have hinner : ∀ c ∈ t, (isPlain c && c ≠ '\'') = true := by
    intro c hc
    rw [hplain c hc, Bool.true_and, decide_eq_true_eq]
    rintro rfl
    exact hquote hc
  have hthree : ['\'', '\'', '\''].isPrefixOf ('\'' :: (t ++ '\'' :: '\n' :: rest)) = false := by
    cases t with
    | nil => rfl
    | cons c u =>
      have hc : '\'' ≠ c := fun hc => hquote (hc ▸ List.mem_cons_self)
      simp [List.isPrefixOf, hc]
  have hread : literalString? ('\'' :: (t ++ '\'' :: '\n' :: rest)) = some (t, '\n' :: rest) := by
    simp only [literalString?, List.dropWhile_append_of_pos hinner, List.takeWhile_append_of_pos hinner]
    simp
  rw [hopen, string?, hthree, hread]
  rfl

lemma hasRun_eq_false_iff {count : ℕ} : hasRun count quote t = false ↔ ¬List.replicate count quote <:+: t := by
  rw [hasRun, Option.isSome_eq_false_iff, Option.isNone_iff_eq_none, Text.breakAt?_eq_none_iff]

/-- **Every string is read back.** -/
lemma string?_quoted (t rest : Text) : string? (quoted t ++ '\n' :: rest) = some (t, '\n' :: rest) := by
  have hlong : string? (longQuoted '"' (basicInside 2 true 0 t) t ++ '\n' :: rest) = some (t, '\n' :: rest) :=
    string?_longQuoted (spells_basicInside (Nat.zero_le 2) t) (.inl rfl) (by simp)
  simp only [quoted]
  split
  · exact string?_basicQuoted t rest
  split
  · rename_i h
    simp only [Bool.and_eq_true, Bool.not_eq_true', hasRun_eq_false_iff, List.any_eq_false, List.contains_eq_mem,
      decide_eq_false_iff_not] at h
    obtain ⟨⟨hplain, hquote⟩, hline⟩ := h
    refine string?_literal (fun c hc => ?_) (fun h => hquote ?_) rest
    · have hneeds : needsEscape c = false := Bool.eq_false_iff.mpr (hplain c hc)
      refine (needsEscape_eq_false_iff.mp hneeds).resolve_right ?_
      rintro rfl
      exact hline hc
    · obtain ⟨front, back, rfl⟩ := List.append_of_mem h
      exact ⟨front, back, by simp⟩
  split
  · exact hlong
  split
  · rename_i h
    simp only [Bool.and_eq_true, Bool.not_eq_true', hasRun_eq_false_iff, List.any_eq_false] at h
    obtain ⟨hplain, hrun⟩ := h
    exact string?_longQuoted (spells_self (by decide) (fun c hc => Bool.eq_false_iff.mpr (hplain c hc)) hrun)
      (.inr rfl) (by simp)
  split
  · exact hlong
  · exact string?_basicQuoted t rest

/-- **A string is read back as a value.** -/
lemma value?_quoted (t rest : Text) :
    value? depth (quoted t ++ '\n' :: rest) = some (.string t, '\n' :: rest) := by
  have hread := string?_quoted t rest
  generalize quoted t ++ '\n' :: rest = u at hread ⊢
  unfold value?
  split
  · cases hread
  · cases hread
  · rw [hread]

end DocBlocks.Toml
