import DocBlocks.Text.Search
import Mathlib.Data.List.SplitBy
import Mathlib.Tactic.Lemma

/-!
# Runs of a text

A text falls apart at the characters that separate, and between neighbours that some rule tells
apart. What is left between these places are its runs. They can be told character by character, and
where two texts are put together they either fall apart there, or the last run of the one goes on
with the first run of the other.

## Main definitions

* `CutAt`: the places between the parts of a list.
* `Text.runsBy`: the runs of a text between separators, cut between some neighbours.

## Main results

* `eq_of_cutAt_iff`: parts are told by their cuts.
* `Text.runsBy_cons`: the runs of a text, character by character.
* `Text.flatten_runsBy`: they lose nothing but the separators.
* `Text.runsBy_append`, `Text.exists_runsBy_append`: the runs of texts that are put together.
* `Text.words_eq_runsBy`: the words of a text as runs.
-/

namespace DocBlocks

/-! ## Cuts -/

section CutAt

variable {α : Type} {p q front back : List α} {ps qs : List (List α)}

/-- Whether a list of parts is cut between `front` and `back`: its first parts make up the one, the
others the other. -/
def CutAt (ps : List (List α)) (front back : List α) : Prop :=
  ∃ left right, ps = left ++ right ∧ left.flatten = front ∧ right.flatten = back

lemma CutAt.append_eq (h : CutAt ps front back) : front ++ back = ps.flatten := by
  obtain ⟨left, right, rfl, rfl, rfl⟩ := h
  rw [List.flatten_append]

/-- A cut that is not at the very start has the first part in front of it. -/
lemma CutAt.isPrefix (h : CutAt (p :: ps) front back) (hne : front ≠ []) : p <+: front := by
  obtain ⟨left, right, hps, rfl, -⟩ := h
  cases left with
  | nil => exact absurd rfl hne
  | cons q left =>
    obtain ⟨rfl, -⟩ := List.cons.inj hps
    exact List.prefix_append ..

/-- The cuts behind the first part are those of the others. -/
lemma cutAt_cons_iff (hp : p ≠ []) : CutAt (p :: ps) (p ++ front) back ↔ CutAt ps front back := by
  constructor
  · rintro ⟨left, right, hps, hfront, hback⟩
    cases left with
    | nil => exact absurd (List.append_eq_nil_iff.mp hfront.symm).1 hp
    | cons q left =>
      obtain ⟨rfl, rfl⟩ := List.cons.inj hps
      exact ⟨left, right, rfl, List.append_cancel_left hfront, hback⟩
  · rintro ⟨left, right, rfl, rfl, rfl⟩
    exact ⟨p :: left, right, rfl, rfl, rfl⟩

/-- **Parts are told by their cuts**, if none of them is empty.

**Proof sketch.** Induction on the parts. Each of the two lists is cut behind its first part, so the
other one is, too, and its first part is no longer. -/
lemma eq_of_cutAt_iff (hps : [] ∉ ps) (hqs : [] ∉ qs) (hflatten : ps.flatten = qs.flatten)
    (h : ∀ front back, CutAt ps front back ↔ CutAt qs front back) : ps = qs := by
  induction ps generalizing qs with
  | nil =>
    cases qs with
    | nil => rfl
    | cons q qs =>
      obtain ⟨rfl, -⟩ := List.append_eq_nil_iff.mp hflatten.symm
      exact absurd List.mem_cons_self hqs
  | cons p ps ih =>
    rw [List.mem_cons, not_or] at hps
    obtain ⟨hp, hps⟩ := hps
    cases qs with
    | nil => exact absurd (List.append_eq_nil_iff.mp hflatten).1.symm hp
    | cons q qs =>
      rw [List.mem_cons, not_or] at hqs
      obtain ⟨hq, hqs⟩ := hqs
      have hqp : q <+: p := ((h p ps.flatten).mp ⟨[p], ps, rfl, by simp, rfl⟩).isPrefix (Ne.symm hp)
      have hpq : p <+: q := ((h q qs.flatten).mpr ⟨[q], qs, rfl, by simp, rfl⟩).isPrefix (Ne.symm hq)
      obtain rfl := hpq.eq_of_length (le_antisymm hpq.length_le hqp.length_le)
      rw [List.flatten_cons, List.flatten_cons] at hflatten
      rw [ih hps hqs (List.append_cancel_left hflatten) fun front back => ?_]
      rw [← cutAt_cons_iff (Ne.symm hp), h, cutAt_cons_iff (Ne.symm hp)]

/-- Inside a part there is no cut. -/
lemma not_cutAt (hp : p ≠ []) (hq : q ≠ []) : ¬ CutAt (ps ++ (p ++ q) :: qs) (ps.flatten ++ p) (q ++ qs.flatten) := by
  rintro ⟨left, right, hsplit, hleft, -⟩
  rcases List.append_eq_append_iff.mp hsplit with ⟨more, rfl, hmore⟩ | ⟨rest, rfl, -⟩
  · cases more with
    | nil => simp [hp] at hleft
    | cons first more =>
      obtain ⟨rfl, -⟩ := List.cons.inj hmore
      simp [hq] at hleft
  · simp [hp] at hleft

end CutAt

/-! ## Runs -/

section SplitBy

variable {α : Type} {r : α → α → Bool} {a b : α} {l : List α}

lemma exists_splitBy_cons (r : α → α → Bool) (a : α) (l : List α) :
    ∃ part parts, (a :: l).splitBy r = (a :: part) :: parts ∧ (a :: part).IsChain fun x y => r x y := by
  obtain ⟨part, parts, hparts⟩ := List.exists_cons_of_ne_nil (List.splitBy_ne_nil (r := r).mpr (List.cons_ne_nil a l))
  obtain ⟨hflatten, hne, hchains, -⟩ := List.splitBy_eq_iff.mp hparts
  obtain ⟨b, part, rfl⟩ := List.exists_cons_of_ne_nil fun h : part = [] => hne (by simp [h])
  obtain ⟨rfl, -⟩ := List.cons.inj hflatten
  exact ⟨part, parts, hparts, hchains _ List.mem_cons_self⟩

/-- A list starts with a part of its own if its first member is not joined with the next one. -/
lemma splitBy_cons_of_not (h : ∀ b ∈ l.head?, r a b = false) : (a :: l).splitBy r = [a] :: l.splitBy r :=
  List.splitBy_append (l := [a]) (by simpa using h)

/-- A member that is joined with the next one stands in its part. -/
lemma splitBy_cons_cons (h : r a b) : (a :: b :: l).splitBy r = ((b :: l).splitBy r).modifyHead (a :: ·) := by
  obtain ⟨part, parts, hparts, hchain⟩ := exists_splitBy_cons r b l
  obtain ⟨hflatten, hne, hchains, hseams⟩ := List.splitBy_eq_iff.mp hparts
  rw [hparts, List.modifyHead_cons, List.splitBy_eq_iff]
  refine ⟨by rw [hflatten]; rfl, by simpa using hne, ?_, ?_⟩
  · rw [List.forall_mem_cons] at hchains ⊢
    exact ⟨List.isChain_cons_cons.mpr ⟨h, hchain⟩, hchains.2⟩
  · cases parts with
    | nil => exact List.isChain_singleton _
    | cons next parts =>
      rw [List.isChain_cons_cons] at hseams ⊢
      obtain ⟨⟨hpart, hnext, hseam⟩, hseams⟩ := hseams
      exact ⟨⟨List.cons_ne_nil _ _, hnext, by rwa [List.getLast_cons hpart]⟩, hseams⟩

end SplitBy

namespace Text

/-- Whether two neighbours in a text stand in one run: neither of them separates, and `cuts` does
not tell them apart. -/
def joined (separates : Char → Bool) (cuts : Char → Char → Bool) (a b : Char) : Bool :=
  !separates a && !separates b && !cuts a b

/-- The runs of a text between the characters that separate, cut between the neighbours that `cuts`
tells apart. -/
def runsBy (separates : Char → Bool) (cuts : Char → Char → Bool) (t : Text) : List Text :=
  (t.splitBy (joined separates cuts)).filter fun run => !run.any separates

section Runs

variable {separates : Char → Bool} {cuts : Char → Char → Bool}

lemma joined_iff {a b : Char} :
    joined separates cuts a b ↔ separates a = false ∧ separates b = false ∧ cuts a b = false := by
  simp [joined, and_assoc]

@[simp] lemma runsBy_nil : runsBy separates cuts [] = [] := rfl

lemma exists_cons_of_any_head? {p : Char → Bool} {t : Text} (h : t.head?.any p) : ∃ b rest, t = b :: rest ∧ p b := by
  cases t with
  | nil => exact absurd h Bool.false_ne_true
  | cons b rest => exact ⟨b, rest, rfl, h⟩

/-- What is joined with a character that does not separate holds none that does. -/
lemma any_separates_of_isChain {c : Char} {run : Text} (hc : separates c = false)
    (h : (c :: run).IsChain fun a b => joined separates cuts a b) : (c :: run).any separates = false := by
  induction run generalizing c with
  | nil => rw [List.any_cons, hc, List.any_nil, Bool.or_false]
  | cons d run ih =>
    obtain ⟨hjoined, htail⟩ := List.isChain_cons_cons.mp h
    rw [List.any_cons, hc, ih (joined_iff.mp hjoined).2.1 htail, Bool.or_false]

/-- **The runs of a text**, character by character. One that separates is left out, one that is
joined with the next stands in its run, and any other is a run of its own. -/
lemma runsBy_cons (c : Char) (t : Text) :
    runsBy separates cuts (c :: t) =
      if separates c then runsBy separates cuts t
      else if t.head?.any (joined separates cuts c) then (runsBy separates cuts t).modifyHead (c :: ·)
      else [c] :: runsBy separates cuts t := by
  by_cases hc : separates c
  · rw [if_pos hc, runsBy, splitBy_cons_of_not (by simp [joined, hc]), List.filter_cons_of_neg (by simp [hc])]
    rfl
  · rw [if_neg hc]
    rw [Bool.not_eq_true] at hc
    split
    · rename_i hnext
      obtain ⟨b, t, rfl, hjoined⟩ := exists_cons_of_any_head? hnext
      obtain ⟨run, runs, hruns, hchain⟩ := exists_splitBy_cons (joined separates cuts) b t
      have hrun := any_separates_of_isChain (joined_iff.mp hjoined).2.1 hchain
      rw [runsBy, splitBy_cons_cons hjoined, runsBy, hruns, List.modifyHead_cons,
        List.filter_cons_of_pos (by rw [List.any_cons, hc, hrun]; rfl), List.filter_cons_of_pos (by rw [hrun]; rfl),
        List.modifyHead_cons]
    · rename_i hnext
      have happart : ∀ b ∈ t.head?, joined separates cuts c b = false := by
        intro b hb
        rwa [Option.mem_def.mp hb, Option.any_some, Bool.not_eq_true] at hnext
      rw [runsBy, splitBy_cons_of_not happart, List.filter_cons_of_pos (by simp [hc])]
      rfl

lemma nil_notMem_runsBy {t : Text} : [] ∉ runsBy separates cuts t := fun h =>
  List.nil_notMem_splitBy _ t (List.mem_of_mem_filter h)

/-- A character that does not separate starts a run. -/
lemma exists_runsBy_cons (cuts : Char → Char → Bool) {c : Char} (hc : separates c = false) (t : Text) :
    ∃ run runs, runsBy separates cuts (c :: t) = run :: runs := by
  induction t generalizing c with
  | nil => exact ⟨[c], [], by simp [runsBy_cons, hc]⟩
  | cons b t ih =>
    rw [runsBy_cons, if_neg (by simp [hc])]
    split
    · rename_i hjoined
      obtain ⟨run, runs, hruns⟩ := ih (joined_iff.mp hjoined).2.1
      exact ⟨c :: run, runs, by rw [hruns, List.modifyHead_cons]⟩
    · exact ⟨[c], _, rfl⟩

/-- **The runs of a text** put together are the text without the characters that separate. -/
lemma flatten_runsBy (t : Text) : (runsBy separates cuts t).flatten = t.filter fun c => !separates c := by
  induction t with
  | nil => rfl
  | cons c t ih =>
    rw [runsBy_cons]
    split
    · rename_i hc
      rw [ih, List.filter_cons_of_neg (by simp [hc])]
    · rename_i hc
      rw [List.filter_cons_of_pos (by simpa using hc), ← ih]
      split
      · rename_i hnext
        obtain ⟨b, t, rfl, hjoined⟩ := exists_cons_of_any_head? hnext
        obtain ⟨run, runs, hruns⟩ := exists_runsBy_cons cuts (joined_iff.mp hjoined).2.1 t
        rw [hruns, List.modifyHead_cons]
        rfl
      · rfl

/-- Between characters that are not joined the runs fall apart. -/
lemma runsBy_append {x y : Text} (h : ∀ a ∈ x.getLast?, ∀ b ∈ y.head?, joined separates cuts a b = false) :
    runsBy separates cuts (x ++ y) = runsBy separates cuts x ++ runsBy separates cuts y := by
  rw [runsBy, List.splitBy_append h, List.filter_append]
  rfl

/-- **Between characters that are joined** the last run of one text goes on with the first run of
the other.

**Proof sketch.** Induction on the characters in front of the two. Each of them is left out, stands
alone or stands in the run behind it, whether or not the text goes on. -/
lemma exists_runsBy_append {a b : Char} (h : joined separates cuts a b) (x y : Text) :
    ∃ runs last first runs', runsBy separates cuts (x ++ [a]) = runs ++ [last] ∧
      runsBy separates cuts (b :: y) = first :: runs' ∧
      runsBy separates cuts (x ++ a :: b :: y) = runs ++ (last ++ first) :: runs' := by
  induction x with
  | nil =>
    obtain ⟨ha, hb, -⟩ := joined_iff.mp h
    obtain ⟨first, runs', hfirst⟩ := exists_runsBy_cons cuts hb y
    refine ⟨[], [a], first, runs', by simp [runsBy_cons, ha], hfirst, ?_⟩
    rw [List.nil_append, runsBy_cons, if_neg (by simp [ha]), List.head?_cons, Option.any_some, if_pos h, hfirst]
    rfl
  | cons c x ih =>
    obtain ⟨runs, last, first, runs', hlast, hfirst, hall⟩ := ih
    have hhead : (x ++ a :: b :: y).head? = (x ++ [a]).head? := by
      rw [List.head?_append, List.head?_append]
      rfl
    rw [List.cons_append, List.cons_append, runsBy_cons, runsBy_cons c (x ++ a :: b :: y), hhead, hlast, hall]
    split
    · exact ⟨runs, last, first, runs', rfl, hfirst, rfl⟩
    · split
      · cases runs with
        | nil => exact ⟨[], c :: last, first, runs', rfl, hfirst, rfl⟩
        | cons run runs => exact ⟨(c :: run) :: runs, last, first, runs', rfl, hfirst, rfl⟩
      · exact ⟨[c] :: runs, last, first, runs', rfl, hfirst, rfl⟩

end Runs

/-- **The words of a text** are its runs between white space. -/
lemma words_eq_runsBy (t : Text) : words t = runsBy isWhite (fun _ _ => false) t := by
  induction t with
  | nil => simp [words]
  | cons c t ih =>
    rw [runsBy_cons, ← ih, words, List.splitOnP_cons_eq_if_modifyHead]
    split
    · exact List.filter_cons_of_neg (by simp)
    · rename_i hc
      cases t with
      | nil => simp [words]
      | cons b t =>
        obtain ⟨part, parts, hparts⟩ := List.exists_cons_of_ne_nil (List.splitOnP_ne_nil isWhite t)
        by_cases hb : isWhite b <;> simp [words, joined, List.splitOnP_cons_eq_if_modifyHead, hc, hb, hparts]

end Text

end DocBlocks
