import DocBlocks.Text.Search
import Mathlib.Data.List.Infix
import Mathlib.Tactic.Lemma

/-!
# Cuts

A place of a text is a cut if it falls between two characters. At a cut a text comes apart into a
front and a back, and the number of bytes of the front tells the cut. Lines and blanks cut a text in
the same way: what is in front of the last line, and what is in front of the blanks at the end.

## Main definitions

* `Text.IsCut`: the places where a text can be cut.
* `Text.EndsLine`: the texts behind which a line starts.

## Main results

* `Text.splitAt?_eq_some_iff`, `Text.slice?_eq_some_iff`: cutting at bytes is taking a text apart.
* `Text.exists_of_bytes_le`: of two cuts of a text, the earlier one cuts the front of the later one.
* `Text.splitLastLine_eq_iff`: the one cut in front of a last line.
* `Text.trimEnd_eq_iff`: the one cut in front of the blanks at the end.
-/

namespace DocBlocks.Text

/-! ## Bytes -/

/-- Only the empty text has no bytes. -/
@[simp] lemma bytes_eq_zero_iff {t : Text} : bytes t = 0 ↔ t = [] := by
  cases t with
  | nil => simp
  | cons c t =>
    have := c.utf8Size_pos
    simp only [bytes_cons, reduceCtorEq, iff_false]
    omega

/-- A text that is not empty has bytes. -/
lemma bytes_pos {t : Text} (h : t ≠ []) : 0 < bytes t := by
  have := mt bytes_eq_zero_iff.mp h
  omega

/-- Of two cuts of a text, the one with fewer bytes in front cuts the front of the other one. -/
lemma exists_of_bytes_le {a b a' b' : Text} (h : a ++ b = a' ++ b') (hle : bytes a ≤ bytes a') :
    ∃ m, a' = a ++ m ∧ b = m ++ b' := by
  rcases List.append_eq_append_iff.mp h with ⟨m, rfl, hb⟩ | ⟨m, rfl, hb⟩
  · exact ⟨m, rfl, hb⟩
  · have hm : m = [] := by
      rw [← bytes_eq_zero_iff]
      rw [bytes_append] at hle
      omega
    subst hm
    exact ⟨[], by simp, by simpa using hb.symm⟩

/-- A text has one cut for each number of bytes in front. -/
lemma append_inj_of_bytes {a b a' b' : Text} (h : a ++ b = a' ++ b') (he : bytes a = bytes a') :
    a = a' ∧ b = b' := by
  obtain ⟨m, ha, hb⟩ := exists_of_bytes_le h he.le
  have hm : m = [] := by
    rw [← bytes_eq_zero_iff]
    have := congrArg bytes ha
    rw [bytes_append] at this
    omega
  subst hm
  exact ⟨by simpa using ha.symm, by simpa using hb⟩

/-! ## Cutting at bytes -/

/-- Cutting a text behind its front gives that front. -/
lemma splitAt?_append (a b : Text) : splitAt? (a ++ b) (bytes a) = some (a, b) := by
  induction a with
  | nil => cases b <;> simp [splitAt?]
  | cons c a ih =>
    obtain ⟨n, hn⟩ : ∃ n, bytes (c :: a) = n + 1 :=
      Nat.exists_eq_succ_of_ne_zero (bytes_pos (List.cons_ne_nil c a)).ne'
    have hle : c.utf8Size ≤ n + 1 := by
      rw [← hn, bytes_cons]
      omega
    have hrest : n + 1 - c.utf8Size = bytes a := by
      rw [← hn, bytes_cons]
      omega
    rw [List.cons_append, hn, splitAt?, if_pos hle, hrest, ih]
    rfl

/-- **Cutting a text** at a byte takes it apart into two texts, the first of which ends at that
byte. -/
lemma splitAt?_eq_some_iff {t a b : Text} {n : Nat} :
    splitAt? t n = some (a, b) ↔ t = a ++ b ∧ bytes a = n := by
  constructor
  · intro h
    induction t generalizing n a with
    | nil =>
      cases n with
      | zero =>
        obtain ⟨rfl, rfl⟩ : [] = a ∧ [] = b := by simpa [splitAt?] using h
        simp
      | succ n => simp [splitAt?] at h
    | cons c t ih =>
      cases n with
      | zero =>
        obtain ⟨rfl, rfl⟩ : [] = a ∧ c :: t = b := by simpa [splitAt?] using h
        simp
      | succ n =>
        rw [splitAt?, Option.ite_none_right_eq_some] at h
        obtain ⟨hle, h⟩ := h
        obtain ⟨⟨a', b'⟩, h', he⟩ := Option.map_eq_some_iff.mp h
        obtain ⟨rfl, rfl⟩ : c :: a' = a ∧ b' = b := by simpa using he
        obtain ⟨rfl, hn⟩ := ih h'
        refine ⟨rfl, ?_⟩
        rw [bytes_cons, hn]
        omega
  · rintro ⟨rfl, rfl⟩
    exact splitAt?_append a b

/-- Cutting a text behind its front is cutting its back. -/
lemma splitAt?_append_add (a b : Text) (n : Nat) :
    splitAt? (a ++ b) (bytes a + n) = (splitAt? b n).map fun (x, y) => (a ++ x, y) := by
  cases h : splitAt? b n with
  | some found =>
    obtain ⟨x, y⟩ := found
    obtain ⟨rfl, rfl⟩ := splitAt?_eq_some_iff.mp h
    exact splitAt?_eq_some_iff.mpr ⟨by simp, by simp⟩
  | none =>
    rw [Option.map_none, Option.eq_none_iff_forall_ne_some]
    rintro ⟨x, y⟩ hxy
    obtain ⟨he, hx⟩ := splitAt?_eq_some_iff.mp hxy
    obtain ⟨m, rfl, rfl⟩ := exists_of_bytes_le he (by omega)
    rw [bytes_append, Nat.add_left_cancel_iff] at hx
    rw [splitAt?_eq_some_iff.mpr ⟨rfl, hx⟩] at h
    cases h

/-- Whether a text can be cut at a byte. -/
def IsCut (t : Text) (n : Nat) : Prop := (splitAt? t n).isSome

instance (t : Text) (n : Nat) : Decidable (IsCut t n) := inferInstanceAs (Decidable (_ = true))

/-- A text is cut where it comes apart. -/
lemma isCut_iff {t : Text} {n : Nat} : IsCut t n ↔ ∃ a b, t = a ++ b ∧ bytes a = n := by
  simp only [IsCut, Option.isSome_iff_exists, Prod.exists, splitAt?_eq_some_iff]

/-- The text from one cut to a later one. -/
lemma slice?_append (a m b : Text) : slice? (a ++ (m ++ b)) (bytes a) (bytes a + bytes m) = some m := by
  rw [slice?, if_pos (Nat.le_add_right _ _), splitAt?_append]
  simp [splitAt?_append]

/-- **The text between two bytes** is there if both are cuts, the first not behind the second. -/
lemma slice?_eq_some_iff {t m : Text} {i j : Nat} :
    slice? t i j = some m ↔ ∃ a b, t = a ++ (m ++ b) ∧ bytes a = i ∧ bytes a + bytes m = j := by
  constructor
  · intro h
    rw [slice?] at h
    split at h
    · rename_i hle
      split at h
      · rename_i a rest hs
        obtain ⟨⟨m', b⟩, hm, rfl⟩ := Option.map_eq_some_iff.mp h
        obtain ⟨rfl, ha⟩ := splitAt?_eq_some_iff.mp hs
        obtain ⟨rfl, hb⟩ := splitAt?_eq_some_iff.mp hm
        exact ⟨a, b, rfl, ha, by rw [ha, hb]; omega⟩
      · cases h
    · cases h
  · rintro ⟨a, b, rfl, rfl, rfl⟩
    exact slice?_append a m b

/-! ## Lines -/

/-- A text of two parts, the second of which has no line feed: its last line starts in the first
part. -/
lemma splitLastLine_append {a b : Text} (h : '\n' ∉ b) :
    splitLastLine (a ++ b) = ((splitLastLine a).1, (splitLastLine a).2 ++ b) := by
  induction a with
  | nil =>
    induction b with
    | nil => rfl
    | cons c b ih =>
      rw [List.mem_cons, not_or] at h
      have hb : splitLastLine b = ([], b) := by simpa [splitLastLine] using ih h.2
      simp [splitLastLine, hb, Ne.symm h.1]
  | cons c a ih =>
    rw [List.cons_append, splitLastLine, ih, splitLastLine]
    rcases splitLastLine a with ⟨_ | ⟨d, lines⟩, line⟩
    · by_cases hc : c = '\n' <;> simp [hc]
    · simp

/-- Behind a line feed a new line starts. -/
@[simp] lemma splitLastLine_concat (a : Text) : splitLastLine (a ++ ['\n']) = (a ++ ['\n'], []) := by
  induction a with
  | nil => rfl
  | cons c a ih =>
    rw [List.cons_append, splitLastLine, ih]
    rcases a with _ | ⟨d, a⟩ <;> rfl

/-- Whether a text is empty or ends with a line feed, so that what follows it starts a line. -/
def EndsLine (t : Text) : Prop := t = [] ∨ ['\n'] <:+ t

/-- The last line of what follows whole lines is a part of what follows. -/
lemma splitLastLine_of_endsLine {a : Text} (b : Text) (h : EndsLine a) :
    splitLastLine (a ++ b) = (a ++ (splitLastLine b).1, (splitLastLine b).2) := by
  rcases h with rfl | ⟨a, rfl⟩
  · rfl
  · induction b using List.reverseRecOn with
    | nil => simp [splitLastLine]
    | append_singleton b c ih =>
      by_cases hc : c = '\n'
      · subst hc
        rw [← List.append_assoc, splitLastLine_concat, splitLastLine_concat]
        simp
      · have hmem : '\n' ∉ [c] := by simpa using Ne.symm hc
        rw [← List.append_assoc, splitLastLine_append hmem, ih, splitLastLine_append hmem]

/-- What stands in front of a last line, and the last line, are the text. -/
lemma splitLastLine_spec (t : Text) :
    t = (splitLastLine t).1 ++ (splitLastLine t).2 ∧ '\n' ∉ (splitLastLine t).2 ∧
      EndsLine (splitLastLine t).1 := by
  induction t using List.reverseRecOn with
  | nil => simp [splitLastLine, EndsLine]
  | append_singleton t c ih =>
    by_cases hc : c = '\n'
    · subst hc
      rw [splitLastLine_concat]
      exact ⟨by simp, by simp, .inr ⟨t, rfl⟩⟩
    · have hmem : '\n' ∉ [c] := by simpa using Ne.symm hc
      rw [splitLastLine_append hmem]
      obtain ⟨ht, hline, hlines⟩ := ih
      refine ⟨?_, ?_, hlines⟩
      · rw [← List.append_assoc, ← ht]
      · rw [List.mem_append]
        exact not_or.mpr ⟨hline, hmem⟩

/-- **The last line of a text**: the only part at its end that starts a line and has no line
feed. -/
lemma splitLastLine_eq_iff {t lines line : Text} :
    splitLastLine t = (lines, line) ↔ t = lines ++ line ∧ '\n' ∉ line ∧ EndsLine lines := by
  constructor
  · intro h
    simpa [h] using splitLastLine_spec t
  · rintro ⟨rfl, hline, hlines⟩
    have hnil : splitLastLine ([] ++ line) = ([], [] ++ line) := splitLastLine_append hline
    rw [splitLastLine_of_endsLine line hlines, show splitLastLine line = ([], line) from hnil]
    simp

/-- Behind a place, the last line of a text starts at the earliest at that place: where the last
line of the text behind it starts. -/
lemma max_lineStart (a m : Text) :
    max (bytes (splitLastLine (a ++ m)).1) (bytes a) = bytes (a ++ (splitLastLine m).1) := by
  obtain ⟨hm, hline, hlines⟩ := splitLastLine_spec m
  rcases hlines with hnil | ⟨l, hl⟩
  · rw [hnil, List.nil_append] at hm
    rw [splitLastLine_append (hm ▸ hline), hnil, List.append_nil]
    have := congrArg bytes (splitLastLine_spec a).1
    rw [bytes_append] at this
    simp only
    omega
  · have hwhole : splitLastLine (a ++ m) = (a ++ (splitLastLine m).1, (splitLastLine m).2) := by
      refine splitLastLine_eq_iff.mpr ⟨by rw [List.append_assoc, ← hm], hline, .inr ⟨a ++ l, ?_⟩⟩
      rw [List.append_assoc, hl]
    rw [hwhole, bytes_append]
    simp

/-! ## Blanks -/

/-- **The blanks at the end of a text**: the only part at its end that holds nothing else and has
none in front. -/
lemma trimEnd_eq_iff {t a : Text} :
    trimEnd t = a ↔ ∃ w, t = a ++ w ∧ (∀ c ∈ w, isWhite c) ∧ ∀ c, a.getLast? = some c → isWhite c = false := by
  have key : ∀ r b : Text, r.dropWhile isWhite = b ↔
      ∃ w, r = w ++ b ∧ (∀ c ∈ w, isWhite c) ∧ ∀ c, b.head? = some c → isWhite c = false := by
    intro r b
    constructor
    · rintro rfl
      refine ⟨r.takeWhile isWhite, List.takeWhile_append_dropWhile.symm, ?_, fun c hc => ?_⟩
      · exact List.all_eq_true.mp List.all_takeWhile
      · have := List.head?_dropWhile_not isWhite r
        rwa [hc] at this
    · rintro ⟨w, rfl, hw, hb⟩
      rw [List.dropWhile_append_of_pos hw]
      cases b with
      | nil => rfl
      | cons c b => simp [hb c rfl]
  rw [trimEnd, List.reverse_eq_iff, key]
  constructor
  · rintro ⟨w, hr, hw, ha⟩
    refine ⟨w.reverse, ?_, by simpa using hw, fun c hc => ha c (by simpa using hc)⟩
    rw [← List.reverse_reverse t, hr]
    simp
  · rintro ⟨w, rfl, hw, ha⟩
    exact ⟨w.reverse, by simp, by simpa using hw, fun c hc => ha c (by simpa using hc)⟩

end DocBlocks.Text
