import DocBlocks.Proofs.Grammar.Splits
import DocBlocks.Proofs.Syntax.Nested
import DocBlocks.Proofs.Text.Cut
import Mathlib.Data.List.Forall2

/-!
# Trees laid in a source

A tree fits a source if each of its nodes starts and ends where the source can be cut, holds its
parts one behind the other, and, if it is a block comment, ends with a closer. A forest is laid
between two places of the source if its trees fit and lie one behind the other from the first place
to the second. So a tree fits if its parts are laid between its ends.

What is read may be changed afterwards: a tree is read as another one at its place, trees get a
role, or become the parts of one node. None of this moves a forest.

## Main definitions

* `Syntax.Tree.Stands`, `Syntax.Tree.Fits`: the trees that fit a source.
* `Syntax.Tree.OnCuts`: the trees whose nodes start and stop between characters.
* `Laid`: the forests between two places of a source.
* `Recasts`: the trees that stand for another one at its place.
* `Relaid`: the forests that lie wherever another one lies.

## Main results

* `Syntax.Tree.Fits.wellNested`: a tree that fits is well nested.
* `laid_append_iff`: forests one behind the other.
* `Laid.recast`, `Laid.wrap`: what does not move a forest.
-/

namespace DocBlocks

open Text

namespace Syntax.Tree

/-! ## Fitting trees -/

/-- Whether a range of a source is covered by a text that ends with a closer if it starts with an
opener. -/
def CoversComment (source : Text) (start stop : Nat) : Prop :=
  ∃ x w y, source = x ++ (w ++ y) ∧ bytes x = start ∧ bytes x + bytes w = stop ∧ Grammar.ClosesBlock w

/-- Whether the root of a tree stands in a source. -/
structure Stands (source : Text) (t : Tree) : Prop where
  start : IsCut source t.start
  stop : IsCut source t.stop
  covers : t.isComment → CoversComment source t.start t.stop
  nests : t.Nests

/-- Whether each node of a tree stands in a source. -/
def Fits (source : Text) (t : Tree) : Prop := ∀ n ∈ t.preorder, n.Stands source

variable {source : Text} {t : Tree}

/-- A tree fits if its root stands and its parts fit. -/
lemma fits_iff : t.Fits source ↔ t.Stands source ∧ ∀ p ∈ t.parts, p.Fits source := by
  simp only [Fits, preorder_eq t, List.forall_mem_cons, List.forall_mem_flatMap]

/-- The root of a tree that fits. -/
lemma Fits.stands (h : t.Fits source) : t.Stands source := (fits_iff.mp h).1

/-- The parts of a tree that fits. -/
lemma Fits.parts (h : t.Fits source) : ∀ p ∈ t.parts, p.Fits source := (fits_iff.mp h).2

/-- **A tree that fits** is well nested. -/
lemma Fits.wellNested (h : t.Fits source) : t.WellNested := fun n hn => (h n hn).nests

/-- A tree that fits does not end in front of its start. -/
lemma Fits.forward (h : t.Fits source) : t.start ≤ t.stop := h.stands.nests.forward

/-- Whether each node of a tree starts and stops where the source can be cut. -/
def OnCuts (source : Text) (t : Tree) : Prop := ∀ n ∈ t.preorder, IsCut source n.start ∧ IsCut source n.stop

lemma onCuts_iff : t.OnCuts source ↔ (IsCut source t.start ∧ IsCut source t.stop) ∧ ∀ p ∈ t.parts, p.OnCuts source := by
  simp only [OnCuts, preorder_eq t, List.forall_mem_cons, List.forall_mem_flatMap]

/-- The ends of a tree on cuts. -/
lemma OnCuts.ends (h : t.OnCuts source) : IsCut source t.start ∧ IsCut source t.stop := (onCuts_iff.mp h).1

/-- The parts of a tree on cuts. -/
lemma OnCuts.parts (h : t.OnCuts source) : ∀ p ∈ t.parts, p.OnCuts source := (onCuts_iff.mp h).2

/-- A tree that fits is on cuts. -/
lemma Fits.onCuts (h : t.Fits source) : t.OnCuts source := fun n hn => ⟨(h n hn).start, (h n hn).stop⟩

/-- Whether a label is none of comments. -/
@[reducible] def Plain : Label → Prop
  | .node .comment | .node .htmlComment => False
  | _ => True

lemma Plain.isComment {l : Label} (h : Plain l) (r : Option Role) (m : Bool) (s e : Nat) (ps : List Tree) :
    (mk l r m s e ps).isComment = false := by
  by_contra hc
  rcases (Bool.or_eq_true _ _).mp (eq_true_of_ne_false hc) with hc | hc
  · obtain rfl : l = .node .comment := of_decide_eq_true hc
    exact h
  · obtain rfl : l = .node .htmlComment := of_decide_eq_true hc
    exact h

end Syntax.Tree

namespace Grammar

open Syntax Syntax.Tree

variable {source : Text} {a b c : Nat} {t t' : Tree} {ts us : List Tree}

/-! ## Forests between two places -/

/-- Whether trees that fit a source lie one behind the other between two places. -/
def Laid (source : Text) : Nat → Nat → List Tree → Prop
  | start, stop, [] => start ≤ stop
  | start, stop, t :: ts => start ≤ t.start ∧ t.Fits source ∧ Laid source t.stop stop ts

@[simp] lemma laid_nil : Laid source a b [] ↔ a ≤ b := Iff.rfl

@[simp] lemma laid_cons : Laid source a b (t :: ts) ↔ a ≤ t.start ∧ t.Fits source ∧ Laid source t.stop b ts := Iff.rfl

/-- What is laid between two places takes no more room than there is. -/
lemma Laid.le (h : Laid source a b ts) : a ≤ b := by
  induction ts generalizing a with
  | nil => exact h
  | cons t ts ih =>
    obtain ⟨hstart, ht, hts⟩ := h
    exact hstart.trans (ht.forward.trans (ih hts))

/-- What lies between two places does so between any that are further apart. -/
lemma Laid.mono {a' b' : Nat} (h : Laid source a b ts) (ha : a' ≤ a) (hb : b ≤ b') : Laid source a' b' ts := by
  induction ts generalizing a a' with
  | nil => exact ha.trans (h.le.trans hb)
  | cons t ts ih =>
    obtain ⟨hstart, ht, hts⟩ := h
    exact ⟨ha.trans hstart, ht, ih hts le_rfl⟩

/-- **Forests one behind the other**: the second starts at a place where the first has ended. -/
lemma laid_append_iff : Laid source a c (ts ++ us) ↔ ∃ b, Laid source a b ts ∧ Laid source b c us := by
  induction ts generalizing a with
  | nil => exact ⟨fun h => ⟨a, le_rfl, h⟩, fun ⟨_, hle, hus⟩ => hus.mono hle le_rfl⟩
  | cons t ts ih =>
    rw [List.cons_append, laid_cons, ih]
    constructor
    · rintro ⟨hstart, ht, b, hts, hus⟩
      exact ⟨b, ⟨hstart, ht, hts⟩, hus⟩
    · rintro ⟨b, ⟨hstart, ht, hts⟩, hus⟩
      exact ⟨hstart, ht, b, hts, hus⟩

lemma Laid.append (h : Laid source a b ts) (h' : Laid source b c us) : Laid source a c (ts ++ us) :=
  laid_append_iff.mpr ⟨b, h, h'⟩

/-- A single tree lies between its ends. -/
lemma Laid.single (h : t.Fits source) : Laid source t.start t.stop [t] := ⟨le_rfl, h, le_rfl⟩

/-- **What it is to be laid**, tree by tree. -/
lemma laid_iff :
    Laid source a b ts ↔ a ≤ b ∧ (∀ t ∈ ts, t.Fits source) ∧ (∀ t ∈ ts, a ≤ t.start ∧ t.stop ≤ b) ∧
      ts.Pairwise fun t u => t.stop ≤ u.start := by
  induction ts generalizing a with
  | nil => simp
  | cons t ts ih =>
    rw [laid_cons, ih]
    simp only [List.forall_mem_cons, List.pairwise_cons]
    constructor
    · rintro ⟨hstart, ht, hstop, hts, hinside, hordered⟩
      have hforward := ht.forward
      exact ⟨by omega, ⟨ht, hts⟩, ⟨⟨hstart, hstop⟩, fun u hu => ⟨by have := hinside u hu; omega, (hinside u hu).2⟩⟩,
        fun u hu => (hinside u hu).1, hordered⟩
    · rintro ⟨-, ⟨ht, hts⟩, ⟨⟨hstart, hstop⟩, hinside⟩, hbehind, hordered⟩
      exact ⟨hstart, ht, hstop, hts, fun u hu => ⟨hbehind u hu, (hinside u hu).2⟩, hordered⟩

/-- The trees of a forest that is laid fit. -/
lemma Laid.fits (h : Laid source a b ts) : ∀ t ∈ ts, t.Fits source := (laid_iff.mp h).2.1

/-- **A tree fits** if its parts are laid between its ends. -/
lemma fits_mk_iff {l : Label} {r : Option Role} {m : Bool} :
    (mk l r m a b ts).Fits source ↔ IsCut source a ∧ IsCut source b ∧
      ((mk l r m a b ts).isComment → CoversComment source a b) ∧ Laid source a b ts := by
  rw [fits_iff, laid_iff]
  constructor
  · rintro ⟨⟨hstart, hstop, hcovers, hforward, hinside, hordered⟩, hparts⟩
    exact ⟨hstart, hstop, hcovers, hforward, hparts, hinside, hordered⟩
  · rintro ⟨hstart, hstop, hcovers, hforward, hparts, hinside, hordered⟩
    exact ⟨⟨hstart, hstop, hcovers, hforward, hinside, hordered⟩, hparts⟩

/-- The parts of a tree that fits are laid between its ends. -/
lemma laid_parts (h : t.Fits source) : Laid source t.start t.stop t.parts := by
  obtain ⟨l, r, m, s, e, ps⟩ := t
  exact (fits_mk_iff.mp h).2.2.2

/-- A node fits if it is no comment and its parts are laid between its ends, where the source can be
cut. -/
lemma fits_node {l : Label} {r : Option Role} {m : Bool} (hl : Plain l) (ha : IsCut source a) (hb : IsCut source b)
    (h : Laid source a b ts) : (mk l r m a b ts).Fits source :=
  fits_mk_iff.mpr ⟨ha, hb, by simp [hl.isComment], h⟩

/-- Each tree of a forest can give way to others that lie between its ends. -/
lemma Laid.flatMap {f : Tree → List Tree} (h : Laid source a b ts) (hf : ∀ t ∈ ts, Laid source t.start t.stop (f t)) :
    Laid source a b (ts.flatMap f) := by
  induction ts generalizing a with
  | nil => exact h
  | cons t ts ih =>
    obtain ⟨hstart, -, hts⟩ := h
    rw [List.forall_mem_cons] at hf
    rw [List.flatMap_cons]
    exact (hf.1.mono hstart le_rfl).append (ih hts hf.2)

/-! ## Trees in the place of others -/

/-- Whether a tree that fits stands where another one does. -/
structure Recasts (source : Text) (t t' : Tree) : Prop where
  fits : t'.Fits source
  start : t'.start = t.start
  stop : t'.stop = t.stop

lemma recasts_self (h : t.Fits source) : Recasts source t t := ⟨h, rfl, rfl⟩

/-- A tree stands at its place in any role. -/
lemma recasts_withRole (h : t.Fits source) (r : Role) : Recasts source t (t.withRole r) := by
  obtain ⟨l, r', m, s, e, ps⟩ := t
  obtain ⟨hstart, hstop, hcovers, hparts⟩ := fits_mk_iff.mp h
  exact ⟨fits_mk_iff.mpr ⟨hstart, hstop, hcovers, hparts⟩, rfl, rfl⟩

/-- **A forest with other trees in the places** of its trees. -/
lemma Laid.recast (h : Laid source a b ts) (hus : List.Forall₂ (Recasts source) ts us) : Laid source a b us := by
  induction hus generalizing a with
  | nil => exact h
  | cons hrecast _ ih =>
    obtain ⟨hstart, -, hts⟩ := h
    exact ⟨hrecast.start ▸ hstart, hrecast.fits, hrecast.stop ▸ ih hts⟩

/-- A tree stands at its place under any label that is none of comments, also with other trees in
the places of its parts. -/
lemma recasts_under {l l' : Label} {r r' : Option Role} {m m' : Bool} (h : (mk l r m a b ts).Fits source)
    (hl : Plain l') (hus : List.Forall₂ (Recasts source) ts us) :
    Recasts source (mk l r m a b ts) (mk l' r' m' a b us) := by
  obtain ⟨hstart, hstop, -, hparts⟩ := fits_mk_iff.mp h
  exact ⟨fits_node hl hstart hstop (hparts.recast hus), rfl, rfl⟩

/-- Each of some trees that fit stands at its own place. -/
lemma forall₂_recasts_self (h : ∀ t ∈ ts, t.Fits source) : List.Forall₂ (Recasts source) ts ts :=
  List.forall₂_same.mpr fun t ht => recasts_self (h t ht)

/-! ## Forests in the place of others -/

/-- A condition that holds. -/
class Holds (p : Prop) : Prop where
  holds : p

instance holds_true : Holds True := ⟨trivial⟩

/-- Whether a forest lies wherever another one lies. -/
class Relaid (source : Text) (forest forest' : List Tree) : Prop where
  laid : ∀ {start stop}, Laid source start stop forest → Laid source start stop forest'

/-- Trees in a role stand at their places. -/
lemma Laid.inRole (h : Laid source a b ts) (r : Role) : Laid source a b (inRole r ts) := by
  refine h.recast (List.forall₂_map_right_iff.mpr (List.forall₂_same.mpr fun t ht => ?_))
  split
  · exact recasts_self (h.fits t ht)
  · exact recasts_withRole (h.fits t ht) r

/-- **Trees as the parts of one node**, which starts with the first and ends with the last of
them. -/
lemma Laid.wrap {k : Kind} (hk : Plain (.node k)) (h : Laid source a b ts) : Laid source a b (wrap k ts) := by
  rw [← List.takeWhile_append_dropWhile (p := Tree.isComment) (l := ts), laid_append_iff] at h
  obtain ⟨mid, hlead, hbody⟩ := h
  simp only [Grammar.wrap]
  split
  · rename_i hnil
    rw [hnil] at hbody
    exact hlead.mono le_rfl hbody
  · rename_i t us hcons
    rw [hcons] at hbody
    obtain ⟨front, last, hlast⟩ : ∃ front last, t :: us = front ++ [last] :=
      ⟨_, _, (List.dropLast_append_getLast (List.cons_ne_nil t us)).symm⟩
    have hget : (t :: us).getLast (by simp) = last := by simp [hlast]
    have hparts : Laid source t.start last.stop (t :: us) := by
      have htail : Laid source t.start b (t :: us) := ⟨le_rfl, hbody.2⟩
      rw [hlast, laid_append_iff] at htail ⊢
      obtain ⟨n, hfront, hstart, hfits, -⟩ := htail
      exact ⟨n, hfront, hstart, hfits, le_rfl⟩
    have hstop : last.stop ≤ b := by
      rw [hlast, laid_append_iff] at hbody
      obtain ⟨n, -, -, -, hle⟩ := hbody
      exact hle
    have hmem : last ∈ t :: us := by simp [hlast]
    rw [hget]
    exact hlead.append ⟨hbody.1, fits_node hk hbody.2.1.stands.start (hparts.fits last hmem).stands.stop hparts, hstop⟩

section Relaid

variable {forest forest' more more' : List Tree}

instance relaid_refl : Relaid source forest forest := ⟨id⟩

instance relaid_append [h : Relaid source forest forest'] [h' : Relaid source more more'] :
    Relaid source (forest ++ more) (forest' ++ more') := by
  refine ⟨fun {start stop} hlaid => ?_⟩
  obtain ⟨mid, hforest, hmore⟩ := laid_append_iff.mp hlaid
  exact (h.laid hforest).append (h'.laid hmore)

instance relaid_inRole [h : Relaid source forest forest'] {r : Role} : Relaid source forest (inRole r forest') :=
  ⟨fun hlaid => (h.laid hlaid).inRole r⟩

instance relaid_wrap {k : Kind} [hk : Holds (Plain (.node k))] [h : Relaid source forest forest'] :
    Relaid source forest (wrap k forest') :=
  ⟨fun hlaid => (h.laid hlaid).wrap hk.holds⟩

end Relaid

end Grammar

end DocBlocks
