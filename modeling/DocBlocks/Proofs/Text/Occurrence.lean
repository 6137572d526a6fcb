import DocBlocks.Text.Search
import Mathlib.Data.List.Infix
import Mathlib.Tactic.Lemma
import Mathlib.Tactic.Tauto

/-!
# Occurrences of a mark

Where a mark stands in a text, and what the searches for its first and its last occurrence find. The
marks of comments have two characters, so most facts are about such marks: they stand in a joined
text where they stand in one of its parts, or across the seam.

## Main results

* `Text.breakAt?_eq_some_iff`, `Text.breakAt?_eq_none_iff`: the search for the first occurrence.
* `Text.pair_isInfix_append`: a mark of two characters in a joined text.
* `Text.splitBehindLast_eq_iff`: a text cut behind the last occurrence of a mark of two characters.
-/

namespace DocBlocks.Text

/-! ## The first occurrence -/

/-- A search that finds nothing is one in a text without the mark. -/
lemma breakAt?_eq_none_iff {mark t : Text} : breakAt? mark t = none ↔ ¬ mark <:+: t := by
  induction t with
  | nil => by_cases h : mark = [] <;> simp [breakAt?, h]
  | cons c t ih =>
    simp only [breakAt?, List.isPrefixOf_iff_prefix, List.infix_cons_iff]
    split
    · rename_i h
      simp [h]
    · rename_i h
      simp [h, ih]

/-- **The first occurrence**: a search cuts the text where the mark stands and where no earlier
place has it.

**Proof sketch.** Induction on the text. Where the mark stands at its start, no place is earlier.
Elsewhere the places of the mark are those in the tail, one further on. -/
lemma breakAt?_eq_some_iff {mark t a b : Text} :
    breakAt? mark t = some (a, b) ↔
      t = a ++ b ∧ mark <+: b ∧ ∀ x y, t = x ++ y → mark <+: y → a.length ≤ x.length := by
  induction t generalizing a with
  | nil =>
    by_cases h : mark = []
    · subst h
      simp only [breakAt?, if_true, Option.some.injEq, Prod.mk.injEq, List.nil_eq, List.append_eq_nil_iff]
      constructor
      · rintro ⟨rfl, rfl⟩
        simp
      · rintro ⟨⟨rfl, rfl⟩, -⟩
        simp
    · simp only [breakAt?, h, if_false, reduceCtorEq, List.nil_eq, List.append_eq_nil_iff, false_iff]
      rintro ⟨⟨-, rfl⟩, hp, -⟩
      exact h (List.prefix_nil.mp hp)
  | cons c t ih =>
    simp only [breakAt?, List.isPrefixOf_iff_prefix]
    split
    · rename_i h
      simp only [Option.some.injEq, Prod.mk.injEq]
      constructor
      · rintro ⟨rfl, rfl⟩
        exact ⟨rfl, h, fun x y _ _ => Nat.zero_le _⟩
      · rintro ⟨he, -, hmin⟩
        have ha : a = [] := List.length_eq_zero_iff.mp (Nat.le_zero.mp (hmin [] (c :: t) rfl h))
        subst ha
        exact ⟨rfl, he⟩
    · rename_i h
      simp only [Option.map_eq_some_iff, Prod.mk.injEq, Prod.exists]
      constructor
      · rintro ⟨front, rest, hs, rfl, rfl⟩
        obtain ⟨rfl, hp, hmin⟩ := ih.mp hs
        refine ⟨rfl, hp, fun x y hxy hy => ?_⟩
        cases x with
        | nil =>
          subst hxy
          exact absurd hy h
        | cons d x =>
          obtain ⟨-, hxy⟩ := List.cons.inj hxy
          simpa using hmin x y hxy hy
      · rintro ⟨he, hp, hmin⟩
        cases a with
        | nil =>
          subst he
          exact absurd hp h
        | cons d a =>
          obtain ⟨rfl, rfl⟩ := List.cons.inj he
          refine ⟨a, b, ih.mpr ⟨rfl, hp, fun x y hxy hy => ?_⟩, rfl, rfl⟩
          simpa using hmin (c :: x) y (by rw [hxy]; rfl) hy

/-- What a search finds is the text, cut in two. -/
lemma append_of_breakAt? {mark t a b : Text} (h : breakAt? mark t = some (a, b)) : t = a ++ b :=
  (breakAt?_eq_some_iff.mp h).1

/-! ## Marks of two characters -/

section Pair

variable {p q : Char}

/-- A mark of two characters in a text with one more character in front. -/
lemma pair_isInfix_cons {c : Char} {t : Text} :
    [p, q] <:+: c :: t ↔ (c = p ∧ t.head? = some q) ∨ [p, q] <:+: t := by
  rw [List.infix_cons_iff]
  cases t with
  | nil => simp
  | cons d t => simp [eq_comm]

/-- **A mark of two characters in a joined text** stands in one of the parts or across the seam. -/
lemma pair_isInfix_append {x y : Text} :
    [p, q] <:+: x ++ y ↔
      [p, q] <:+: x ∨ [p, q] <:+: y ∨ (x.getLast? = some p ∧ y.head? = some q) := by
  induction x with
  | nil => simp
  | cons c x ih =>
    rw [List.cons_append, pair_isInfix_cons, ih, pair_isInfix_cons]
    cases x with
    | nil => simp; tauto
    | cons d x => simp; tauto

/-- A mark of two characters does not stand in a single one. -/
@[simp] lemma not_pair_isInfix_singleton {c : Char} : ¬ [p, q] <:+: [c] := by
  simp [pair_isInfix_cons]

/-- A mark of two characters with something behind it starts in front of the mark at the end. -/
lemma pair_isInfix_of_append_eq {x y a : Text} (h : x ++ [p, q] ++ y = a ++ [p, q]) (hy : y ≠ []) :
    [p, q] <:+: a ++ [p] := by
  obtain ⟨y, c, rfl⟩ := (List.eq_nil_or_concat' y).resolve_left hy
  have hlast : x ++ [p, q] ++ y ++ [c] = a ++ [p] ++ [q] := by simpa using h
  rw [← (List.append_inj' hlast rfl).1]
  exact ⟨x, y, rfl⟩

/-- A mark of two characters at a place of a text is the first one if the text up to its first
character has none. -/
lemma breakAt?_pair_iff {a t : Text} :
    breakAt? [p, q] (a ++ p :: q :: t) = some (a, p :: q :: t) ↔ ¬ [p, q] <:+: a ++ [p] := by
  rw [breakAt?_eq_some_iff]
  constructor
  · rintro ⟨-, -, hmin⟩ ⟨x, y, hxy⟩
    have hlen := hmin x (p :: q :: (y ++ q :: t)) (by
      have := congrArg (· ++ q :: t) hxy
      simpa using this.symm) (by simp)
    have := congrArg List.length hxy
    simp at this
    omega
  · intro h
    refine ⟨rfl, by simp, fun x y hxy hy => ?_⟩
    by_contra hlt
    apply h
    obtain ⟨z, rfl⟩ := hy
    -- the earlier occurrence ends within `a ++ [p]`
    have hx : x ++ [p, q] <+: a ++ [p] := by
      refine List.prefix_of_prefix_length_le (?_ : _ <+: a ++ p :: q :: t) ?_ ?_
      · exact ⟨z, by rw [hxy]; simp⟩
      · exact ⟨q :: t, by simp⟩
      · simp; omega
    exact (List.infix_append' x [p, q] []).trans (by simpa using hx.isInfix)

end Pair

/-! ## The last occurrence -/

/-- A search for the last occurrence that finds nothing is one in a text without the mark. -/
lemma breakAtLast?_eq_none_iff {mark t : Text} : breakAtLast? mark t = none ↔ ¬ mark <:+: t := by
  induction t with
  | nil => by_cases h : mark = [] <;> simp [breakAtLast?, h]
  | cons c t ih =>
    rw [breakAtLast?, List.infix_cons_iff]
    cases hb : breakAtLast? mark t with
    | some found =>
      have : mark <:+: t := by
        by_contra hn
        rw [ih.mpr hn] at hb
        cases hb
      simp [this]
    | none =>
      have : ¬ mark <:+: t := ih.mp hb
      simp [this, List.isPrefixOf_iff_prefix]

/-- What a search for the last occurrence finds: the text is cut in two, and the mark stands at the
start of the second part and nowhere behind it. -/
lemma breakAtLast?_eq_some {mark t a b : Text} (hm : mark ≠ []) (h : breakAtLast? mark t = some (a, b)) :
    t = a ++ b ∧ mark <+: b ∧ ¬ mark <:+: b.tail := by
  induction t generalizing a with
  | nil => simp [breakAtLast?, hm] at h
  | cons c t ih =>
    rw [breakAtLast?] at h
    cases hb : breakAtLast? mark t with
    | some found =>
      obtain ⟨front, rest⟩ := found
      rw [hb] at h
      obtain ⟨rfl, rfl⟩ : c :: front = a ∧ rest = b := by simpa using h
      obtain ⟨rfl, hp, hn⟩ := ih hb
      exact ⟨rfl, hp, hn⟩
    | none =>
      rw [hb] at h
      simp only [List.isPrefixOf_iff_prefix, Option.ite_none_right_eq_some, Option.some.injEq,
        Prod.mk.injEq] at h
      obtain ⟨hp, rfl, rfl⟩ := h
      exact ⟨rfl, hp, breakAtLast?_eq_none_iff.mp hb⟩

section Pair

variable {p q : Char} (hpq : p ≠ q)

include hpq in
/-- Two cuts of a text, each at its start or behind a mark and with no mark behind it, are the same
cut. -/
lemma cut_unique {e r e' r' : Text} (h : e ++ r = e' ++ r') (hr : ¬ [p, q] <:+: r) (hr' : ¬ [p, q] <:+: r')
    (he : e = [] ∨ [p, q] <:+ e) (he' : e' = [] ∨ [p, q] <:+ e') : e = e' ∧ r = r' := by
  -- a longer second part would hold the mark that the shorter first part ends with
  have longer : ∀ {e r e' z : Text}, e' = e ++ z → r = z ++ (r.drop z.length) → ¬ [p, q] <:+: r →
      (e = [] ∨ [p, q] <:+ e) → (e' = [] ∨ [p, q] <:+ e') → z = [] := by
    rintro e r e' z rfl hz hr he (he' | ⟨w, hw⟩)
    · exact (List.append_eq_nil_iff.mp he').2
    · by_contra hne
      obtain ⟨y, d, rfl⟩ : ∃ y d, z = y ++ [d] := ⟨_, _, (List.dropLast_append_getLast hne).symm⟩
      have hw' : (w ++ [p]) ++ [q] = (e ++ y) ++ [d] := by simpa using hw
      obtain ⟨hfront, rfl⟩ : w ++ [p] = e ++ y ∧ q = d := by
        simpa using List.append_inj' hw' rfl
      rcases List.eq_nil_or_concat y with rfl | ⟨y, d, rfl⟩
      · rw [List.append_nil] at hfront
        rcases he with rfl | ⟨v, rfl⟩
        · simp at hfront
        · have : w ++ [p] = (v ++ [p]) ++ [q] := by simpa using hfront
          exact hpq (by simpa using (List.append_inj' this rfl).2)
      · have : w ++ [p] = (e ++ y) ++ [d] := by simpa using hfront
        obtain rfl : p = d := by simpa using (List.append_inj' this rfl).2
        apply hr
        rw [hz]
        exact ⟨y, r.drop (y ++ [p] ++ [q]).length, by simp⟩
  rcases List.append_eq_append_iff.mp h with ⟨z, h1, h2⟩ | ⟨z, h1, h2⟩
  · have hz := longer h1 (by rw [h2]; simp) hr he he'
    subst hz
    exact ⟨by simpa using h1.symm, by simpa using h2⟩
  · have hz := longer h1 (by rw [h2]; simp) hr' he' he
    subst hz
    exact ⟨by simpa using h1, by simpa using h2.symm⟩

include hpq in
/-- **The cut behind the last mark**: the only cut of a text, at its start or behind a mark, with no
mark behind it. -/
lemma splitBehindLast_eq_iff {t e r : Text} :
    splitBehindLast [p, q] t = (e, r) ↔ t = e ++ r ∧ ¬ [p, q] <:+: r ∧ (e = [] ∨ [p, q] <:+ e) := by
  have spec : ∃ e r, splitBehindLast [p, q] t = (e, r) ∧ t = e ++ r ∧ ¬ [p, q] <:+: r ∧
      (e = [] ∨ [p, q] <:+ e) := by
    cases hb : breakAtLast? [p, q] t with
    | none => exact ⟨[], t, by simp [splitBehindLast, hb], rfl, breakAtLast?_eq_none_iff.mp hb, .inl rfl⟩
    | some found =>
      obtain ⟨a, b⟩ := found
      obtain ⟨rfl, ⟨r, rfl⟩, hn⟩ := breakAtLast?_eq_some (by simp) hb
      have hs : splitBehindLast [p, q] (a ++ ([p, q] ++ r)) = (a ++ [p, q], r) := by
        rw [splitBehindLast, hb]
        simp
      refine ⟨a ++ [p, q], r, hs, by simp, ?_, .inr ⟨a, rfl⟩⟩
      intro hr
      exact hn (List.infix_cons hr)
  obtain ⟨e', r', hs, ht, hr', he'⟩ := spec
  rw [hs]
  constructor
  · rintro ⟨⟩
    exact ⟨ht, hr', he'⟩
  · rintro ⟨ht', hr, he⟩
    obtain ⟨rfl, rfl⟩ := cut_unique hpq (ht.symm.trans ht') hr' hr he' he
    rfl

end Pair

end DocBlocks.Text
