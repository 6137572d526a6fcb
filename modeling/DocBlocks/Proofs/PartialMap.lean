import Mathlib.Data.List.Forall2
import Mathlib.Tactic.Lemma

/-!
# Partial functions on lists

## Main results

* `mapM_eq_some_iff`: all values of a partial function on a list.
* `forall_mem_iff_of_forall₂`: what holds of the members of two lists, one by one.
-/

namespace DocBlocks

/-- All values of a partial function on a list, if it has them all. -/
lemma mapM_eq_some_iff {α β : Type} {f : α → Option β} {l : List α} {bs : List β} :
    l.mapM f = some bs ↔ l.map f = bs.map some := by
  induction l generalizing bs with
  | nil => cases bs <;> simp
  | cons a l ih =>
    cases bs with
    | nil =>
      rw [List.mapM_cons]
      cases f a <;> cases l.mapM f <;> simp
    | cons b bs =>
      simp only [List.mapM_cons, Option.bind_eq_bind, Option.bind_eq_some_iff, Option.pure_def, List.map_cons,
        List.cons.injEq, Option.some.injEq]
      constructor
      · rintro ⟨b', hb', bs', hbs', rfl, rfl⟩
        exact ⟨hb', ih.mp hbs'⟩
      · rintro ⟨hb, hbs⟩
        exact ⟨b, hb, bs, ih.mpr hbs, rfl, rfl⟩

/-- A partial function has all its values on a list if it has each of them. -/
lemma isSome_mapM_iff {α β : Type} {f : α → Option β} {l : List α} :
    (l.mapM f).isSome ↔ ∀ a ∈ l, (f a).isSome := by
  induction l with
  | nil => simp
  | cons a l ih =>
    rw [List.forall_mem_cons, ← ih, List.mapM_cons]
    cases f a <;> cases l.mapM f <;> simp

/-- The values of a partial function on a list, one by one. -/
lemma forall₂_of_mapM {α β : Type} {f : α → Option β} {l : List α} {bs : List β} (h : l.mapM f = some bs) :
    List.Forall₂ (fun a b => f a = some b) l bs := by
  have hvalues := mapM_eq_some_iff.mp h
  rwa [← List.forall₂_eq_eq_eq, List.forall₂_map_left_iff, List.forall₂_map_right_iff] at hvalues

/-- Of two lists that are related one by one, each member of the second belongs to one of the
first. -/
lemma exists_mem_of_forall₂ {α β : Type} {R : α → β → Prop} {as : List α} {bs : List β} (h : List.Forall₂ R as bs) {b : β}
    (hb : b ∈ bs) : ∃ a ∈ as, R a b := by
  induction h with
  | nil => cases hb
  | @cons a c as bs hac _ ih =>
    rcases List.mem_cons.mp hb with rfl | hb
    · exact ⟨a, by simp, hac⟩
    · obtain ⟨a', ha', hab⟩ := ih hb
      exact ⟨a', by simp [ha'], hab⟩

/-- Where the values of a partial function on a list come from. -/
lemma exists_mem_of_mapM {α β : Type} {f : α → Option β} {l : List α} {bs : List β} (h : l.mapM f = some bs) {b : β}
    (hb : b ∈ bs) : ∃ a ∈ l, f a = some b :=
  exists_mem_of_forall₂ (forall₂_of_mapM h) hb

/-- What holds of the members of one list exactly if it does of those of another, one by one, holds
of all of them exactly if it does of all of those. -/
lemma forall_mem_iff_of_forall₂ {α β : Type} {P : α → Prop} {Q : β → Prop} {as : List α} {bs : List β}
    (h : List.Forall₂ (fun a b => P a ↔ Q b) as bs) : (∀ a ∈ as, P a) ↔ ∀ b ∈ bs, Q b := by
  induction h with
  | nil => simp
  | cons hab _ ih => rw [List.forall_mem_cons, List.forall_mem_cons, hab, ih]

end DocBlocks
