import DocBlocks.Proofs.Grammar.Laid

/-!
# Rules that keep to their source

A rule extends a forest if, wherever it starts to read in a source behind that forest, it answers
with a forest that is laid from the start of the first one up to the cursor, at a place of the
source. It has then read on from trees that were read before and answers for all of them. A rule
keeps to its source if it extends the empty forest.

What builds rules from rules extends a forest if its parts do. These facts are instances, so that a
production keeps to its source because it is put together from rules that do.

## Main definitions

* `Extends`, `Keeps`: the rules that extend a forest, and those that start anew.
* `Rereads`: what may change a tree after it has been read.

## Main results

* `keeps_comment`, `keeps_lexeme`: comments and tokens.
* `extends_after`, `extends_continueWith`, `extends_growing`: reading on behind a forest.
* `extends_seq`, `extends_oneOf`, `keeps_many`, `extends_node`, …: rules built from rules.
-/

namespace DocBlocks

open Text

namespace Grammar

open Syntax Syntax.Tree

/-! ## Cursors and rules -/

/-- Whether a cursor is at a place of a source. -/
def At (source : Text) (c : Cursor) : Prop := ∃ front, source = front ++ c.rest ∧ bytes front = c.offset

/-- Whether an answer leaves the cursor at a place of a source, with trees that are laid from
`start` up to there. -/
def Sound (source : Text) (start : Nat) : Reply → Prop
  | .accepted forest next => At source next ∧ Laid source start next.offset forest
  | .refused _ => True

/-- The rules that, from each place of a source behind the trees `left`, answer with trees that are
laid from where those are. -/
class Extends (source : Text) (left : List Tree) (r : Rule) : Prop where
  sound : ∀ {c start}, At source c → Laid source start c.offset left → Sound source start (r c)

/-- The rules that, from each place of a source, answer with trees that are laid from there. -/
abbrev Keeps (source : Text) (r : Rule) : Prop := Extends source [] r

/-- The lists of rules that extend a forest. -/
class AllExtend (source : Text) (left : List Tree) (ps : List Rule) : Prop where
  all : ∀ p ∈ ps, Extends source left p

/-- The lists of rules that keep to a source. -/
abbrev AllKeep (source : Text) (ps : List Rule) : Prop := AllExtend source [] ps

/-- What may change a tree that fits into one at the same place. -/
class Rereads (source : Text) (change : Tree → Option Tree) : Prop where
  recasts : ∀ {t t'}, t.Fits source → change t = some t' → Recasts source t t'

section Cursors

variable {source : Text} {c : Cursor}

/-- A place of a source is a cut. -/
lemma At.isCut (h : At source c) : IsCut source c.offset := by
  obtain ⟨front, hs, hb⟩ := h
  exact isCut_iff.mpr ⟨front, c.rest, hs, hb⟩

/-- No place of a source is behind its end. -/
lemma At.le (h : At source c) : c.offset ≤ bytes source := by
  obtain ⟨front, hs, hb⟩ := h
  rw [hs, bytes_append]
  omega

/-- Only the place of a cursor matters. -/
lemma At.congr {c' : Cursor} (h : At source c) (hrest : c'.rest = c.rest) (hoffset : c'.offset = c.offset) :
    At source c' := by
  rw [At, hrest, hoffset]
  exact h

/-- Behind a part of the remaining text, the cursor is at a place of the source. -/
lemma At.past (h : At source c) {lexeme rest : Text} (hrest : c.rest = lexeme ++ rest) :
    At source (c.past lexeme rest) := by
  obtain ⟨front, hs, hb⟩ := h
  refine ⟨front ++ lexeme, ?_, ?_⟩
  · rw [hs, hrest]
    simp [Cursor.past]
  · simp [Cursor.past, hb]

lemma le_past (c : Cursor) (lexeme rest : Text) : c.offset ≤ (c.past lexeme rest).offset := Nat.le_add_right ..

lemma at_skipBlanks (hc : At source c) : At source (skipBlanks c) :=
  hc.past List.takeWhile_append_dropWhile.symm

lemma le_skipBlanks (c : Cursor) : c.offset ≤ (skipBlanks c).offset := le_past ..

end Cursors

section Combinators

variable {source : Text} {left : List Tree} {p q : Rule} {ps qs : List Rule}

/-- A rule that keeps to its source, wherever it starts. -/
lemma Keeps.reads (h : Keeps source p) {c : Cursor} (hc : At source c) : Sound source c.offset (p c) :=
  h.sound hc (laid_nil.mpr le_rfl)

/-- An accepted forest is laid up to a place of the source. -/
lemma Sound.of_accepted {start : Nat} {answer : Reply} {forest : List Tree} {next : Cursor} (h : Sound source start answer)
    (hn : answer = .accepted forest next) : At source next ∧ Laid source start next.offset forest := by
  rwa [hn] at h

/-- What is laid behind a place is so behind an earlier one. -/
lemma Sound.mono {start start' : Nat} {answer : Reply} (h : Sound source start answer) (hle : start' ≤ start) :
    Sound source start' answer := by
  cases answer with
  | accepted forest next => exact ⟨h.1, h.2.mono hle le_rfl⟩
  | refused seen => trivial

/-- A rule keeps to a source if it does so wherever it starts. -/
lemma keeps_of_reads (h : ∀ {c}, At source c → Sound source c.offset (p c)) : Keeps source p :=
  ⟨fun hc hle => (h hc).mono hle⟩

/-- A rule that extends a forest also extends one that lies where that one would. -/
lemma Extends.of_relaid {left' : List Tree} (h : Extends source left' p) [hleft : Relaid source left left'] :
    Extends source left p :=
  ⟨fun hc hlaid => h.sound hc (hleft.laid hlaid)⟩

instance allExtend_nil : AllExtend source left [] := ⟨by simp⟩

instance allExtend_cons [hp : Extends source left p] [hps : AllExtend source left ps] : AllExtend source left (p :: ps) :=
  ⟨List.forall_mem_cons.mpr ⟨hp, hps.all⟩⟩

instance allExtend_append [hps : AllExtend source left ps] [hqs : AllExtend source left qs] :
    AllExtend source left (ps ++ qs) :=
  ⟨List.forall_mem_append.mpr ⟨hps.all, hqs.all⟩⟩

instance allExtend_map {α : Type} {f : α → Rule} {xs : List α} [h : ∀ x, Extends source left (f x)] :
    AllExtend source left (xs.map f) :=
  ⟨List.forall_mem_map.mpr fun x _ => h x⟩

/-! ### Rules that read nothing -/

instance keeps_done : Keeps source done := ⟨fun hc hle => ⟨hc, hle⟩⟩

instance extends_refuse : Extends source left refuse := ⟨fun _ _ => trivial⟩

instance extends_keeping {forest : List Tree} [h : Relaid source left forest] : Extends source left (keeping forest) :=
  ⟨fun hc hleft => ⟨hc, h.laid hleft⟩⟩

instance keeps_whereSo {b : Cursor → Bool} : Keeps source (whereSo b) := by
  refine ⟨fun {c _} hc hle => ?_⟩
  rw [whereSo]
  split
  · exact ⟨hc, hle⟩
  · trivial

instance keeps_ahead : Keeps source (ahead p) := by
  refine ⟨fun {c _} hc hle => ?_⟩
  rw [ahead]
  split
  · exact ⟨hc, hle⟩
  · trivial

instance keeps_notAhead : Keeps source (notAhead p) := by
  refine ⟨fun {c _} hc hle => ?_⟩
  rw [notAhead]
  split
  · trivial
  · exact ⟨hc, hle⟩

/-! ### Reading on -/

instance extends_ite {b : Prop} [Decidable b] [hp : Extends source left p] [hq : Extends source left q] :
    Extends source left (if b then p else q) := by
  split
  · exact hp
  · exact hq

instance extends_after {forest : List Tree} [h : Relaid source left forest] [hp : Keeps source p] :
    Extends source left (after forest p) := by
  refine ⟨fun {c _} hc hleft => ?_⟩
  have hreply := Keeps.reads hp hc
  rw [after]
  split
  · rename_i more next hn
    obtain ⟨hnext, hmore⟩ := hreply.of_accepted hn
    exact ⟨hnext, (h.laid hleft).append hmore⟩
  · trivial

/-- A rule that extends a forest by the trees of another rule, which only sees these. -/
instance (priority := low) extends_continueWith_behind {f : List Tree → Rule} [hp : Keeps source p]
    [hf : ∀ forest, Extends source (left ++ forest) (f forest)] : Extends source left (continueWith p f) := by
  refine ⟨fun {c _} hc hleft => ?_⟩
  have hreply := Keeps.reads hp hc
  rw [continueWith]
  split
  · rename_i forest next hn
    obtain ⟨hnext, hforest⟩ := hreply.of_accepted hn
    exact (hf forest).sound hnext (hleft.append hforest)
  · trivial

instance extends_continueWith {f : List Tree → Rule} [hp : Extends source left p]
    [hf : ∀ forest, Extends source forest (f forest)] : Extends source left (continueWith p f) := by
  refine ⟨fun {c start} hc hleft => ?_⟩
  have hreply := hp.sound hc hleft
  rw [continueWith]
  split
  · rename_i forest next hn
    obtain ⟨hnext, hforest⟩ := hreply.of_accepted hn
    exact (hf forest).sound hnext hforest
  · trivial

/-- A sequence of rules that keep to a source. -/
lemma keeps_seq_of_all (h : ∀ p ∈ ps, Keeps source p) : Keeps source (seq ps) := by
  induction ps with
  | nil => exact keeps_done
  | cons p ps ih =>
    obtain ⟨hp, hps⟩ := List.forall_mem_cons.mp h
    cases ps with
    | nil => exact hp
    | cons q ps =>
      have := ih hps
      exact extends_continueWith

instance keeps_seq_nil : Keeps source (seq []) := keeps_done

/-- In a sequence only the first rule has to extend what was read before. -/
instance extends_seq [hp : Extends source left p] [hps : AllKeep source ps] : Extends source left (seq (p :: ps)) := by
  cases ps with
  | nil => exact hp
  | cons q ps =>
    have := keeps_seq_of_all hps.all
    exact extends_continueWith

/-- A condition in front of a sequence. -/
instance (priority := low) extends_seq_whereSo {b : Cursor → Bool} [hq : Extends source left (seq (q :: qs))] :
    Extends source left (seq (whereSo b :: q :: qs)) := by
  refine ⟨fun {c start} hc hleft => ?_⟩
  have hreply := hq.sound hc hleft
  simp only [seq, continueWith, whereSo]
  split
  · rename_i forest next hn
    split at hn
    · obtain ⟨rfl, rfl⟩ := Reply.accepted.inj hn
      rw [after]
      split
      · rename_i more next' hn'
        rwa [hn'] at hreply
      · trivial
    · cases hn
  · trivial

instance extends_oneOf [h : AllExtend source left ps] : Extends source left (oneOf ps) := by
  obtain ⟨h⟩ := h
  induction ps with
  | nil => exact extends_refuse
  | cons p ps ih =>
    obtain ⟨hp, hps⟩ := List.forall_mem_cons.mp h
    cases ps with
    | nil => exact hp
    | cons q ps =>
      refine ⟨fun {c start} hc hleft => ?_⟩
      have hreply := hp.sound hc hleft
      simp only [oneOf]
      split
      · rename_i forest next hn
        rwa [hn] at hreply
      · exact (ih hps).sound (hc.congr rfl rfl) hleft

instance keeps_opt [Keeps source p] : Keeps source (opt p) := by
  delta opt
  infer_instance

/-! ### Repetition -/

instance keeps_upTo [hp : Keeps source p] (n : Nat) : Keeps source (upTo p n) := by
  induction n with
  | zero => exact keeps_done
  | succ n ih =>
    refine ⟨fun {c start} hc hle => ?_⟩
    have hreply := hp.sound hc hle
    simp only [upTo]
    split
    · rename_i forest next hn
      obtain ⟨hnext, hforest⟩ := hreply.of_accepted hn
      have hbehind : Extends source forest (after forest (upTo p n)) := extends_after
      exact hbehind.sound hnext hforest
    · exact ⟨hc.congr rfl rfl, hle⟩

instance keeps_many [Keeps source p] : Keeps source (many p) := ⟨fun hc hle => (keeps_upTo _).sound hc hle⟩

instance keeps_many1 [Keeps source p] : Keeps source (many1 p) := by
  delta many1
  infer_instance

instance keeps_sepBy1 [Keeps source p] [Keeps source q] : Keeps source (sepBy1 p q) := by
  delta sepBy1
  infer_instance

instance keeps_sepBy [Keeps source p] [Keeps source q] : Keeps source (sepBy p q) := by
  delta sepBy
  infer_instance

/-- Growing up to `n` times. -/
lemma extends_growUpTo {grow : List Tree → Rule} (hgrow : ∀ forest, Extends source forest (grow forest)) (n : Nat)
    (left : List Tree) : Extends source left (growUpTo grow n left) := by
  induction n generalizing left with
  | zero => exact extends_keeping
  | succ n ih =>
    refine ⟨fun {c start} hc hleft => ?_⟩
    have hreply := (hgrow left).sound hc hleft
    simp only [growUpTo]
    split
    · rename_i larger next hn
      obtain ⟨hnext, hlarger⟩ := hreply.of_accepted hn
      exact (ih larger).sound hnext hlarger
    · exact ⟨hc.congr rfl rfl, hleft⟩

instance extends_growing {grow : List Tree → Rule} [hgrow : ∀ forest, Extends source forest (grow forest)] :
    Extends source left (growing grow left) :=
  ⟨fun hc hleft => (extends_growUpTo hgrow _ left).sound hc hleft⟩

/-! ### Building trees -/

instance extends_node {k : Kind} [hk : Holds (Plain (.node k))] [hp : Extends source left p] :
    Extends source left (node k p) := by
  refine ⟨fun {c start} hc hleft => ?_⟩
  have hreply := hp.sound hc hleft
  rw [node]
  split
  · rename_i forest next hn
    obtain ⟨hnext, hforest⟩ := hreply.of_accepted hn
    have hwrapped := hforest.wrap hk.holds
    show Sound source start (.accepted (wrap k forest) (((head? (wrap k forest)).map next.gathered).getD next))
    cases head? (wrap k forest) with
    | none => exact ⟨hnext, hwrapped⟩
    | some t => exact ⟨hnext.congr rfl rfl, hwrapped⟩
  · trivial

instance keeps_item [hp : Keeps source p] : Keeps source (item p) := by
  refine ⟨fun {c start} hc hle => ?_⟩
  have hreply := hp.sound hc hle
  rw [item]
  split
  · rename_i forest next hn
    obtain ⟨hnext, hforest⟩ := hreply.of_accepted hn
    cases head? forest with
    | none => exact ⟨hnext, hforest⟩
    | some t => exact ⟨hnext.congr rfl rfl, hforest⟩
  · trivial

instance extends_role {r : Role} [hp : Extends source left p] : Extends source left (role r p) := by
  refine ⟨fun {c start} hc hleft => ?_⟩
  have hreply := hp.sound hc hleft
  rw [role]
  split
  · rename_i forest next hn
    obtain ⟨hnext, hforest⟩ := hreply.of_accepted hn
    exact ⟨hnext, hforest.inRole r⟩
  · trivial

instance extends_converting {change : Tree → Option Tree} [hp : Extends source left p]
    [hchange : Rereads source change] : Extends source left (converting p change) := by
  refine ⟨fun {c start} hc hleft => ?_⟩
  have hreply := hp.sound hc hleft
  rw [converting]
  split
  · trivial
  · rename_i forest next hn
    obtain ⟨hnext, hforest⟩ := hreply.of_accepted hn
    split
    · trivial
    · rename_i t lead hrev
      obtain rfl : forest = (t :: lead).reverse := by rw [← hrev, List.reverse_reverse]
      split
      · rename_i t' ht'
        rw [List.reverse_cons, laid_append_iff] at hforest
        obtain ⟨mid, hlead, hlast⟩ := hforest
        have hrecast := hchange.recasts hlast.2.1 ht'
        exact ⟨hnext, hlead.append (hlast.recast (.cons hrecast .nil))⟩
      · trivial

end Combinators

/-! ## Tokens -/

section Tokens

variable {source : Text} {r : Recogniser} {label : Label}

/-- The leaf of a lexeme is laid if it is no comment, or covers one. -/
lemma laid_leaf {c : Cursor} (hc : At source c) {lexeme rest : Text} (hrest : c.rest = lexeme ++ rest)
    (hcomment : ¬ Plain label → ClosesBlock lexeme) :
    Laid source c.offset (c.past lexeme rest).offset [Tree.leaf label c.offset (c.past lexeme rest).offset] := by
  refine ⟨le_rfl, fits_mk_iff.mpr ⟨hc.isCut, (hc.past hrest).isCut, fun hk => ?_, le_past c lexeme rest⟩, le_rfl⟩
  obtain ⟨front, hs, hb⟩ := hc
  refine ⟨front, lexeme, rest, by rw [hs, hrest], hb, ?_, hcomment fun hplain => ?_⟩
  · simp [Cursor.past, hb]
  · simp [hplain.isComment] at hk

/-- A lexeme of either kind of comments, read right here. -/
lemma keeps_exactly_of (hr : Splits r) (hcomment : ¬ Plain label → ∀ t lexeme rest, r t = some (lexeme, rest) →
    ClosesBlock lexeme) :
    Keeps source (exactly r label) := by
  refine keeps_of_reads fun {c} hc => ?_
  rw [exactly]
  split
  · rename_i lexeme rest h
    have hrest := hr.append _ _ _ h
    exact ⟨(hc.past hrest).congr rfl rfl, laid_leaf hc hrest fun hl => hcomment hl _ _ _ h⟩
  · trivial

instance keeps_exactly [hr : Splits r] [hl : Holds (Plain label)] : Keeps source (exactly r label) :=
  keeps_exactly_of hr fun h => absurd hl.holds h

instance keeps_comment : Keeps source comment := by
  refine keeps_of_reads fun {c} hc => ?_
  have hkeeps : Keeps source (exactly comment? (.node .comment)) :=
    keeps_exactly_of splits_comment? fun _ _ _ _ h => (comment?_eq_some h).2
  have hreply := (hkeeps.reads (at_skipBlanks hc)).mono (le_skipBlanks c)
  rw [comment]
  split
  · rename_i forest next hn
    obtain ⟨hnext, hforest⟩ := hreply.of_accepted hn
    exact ⟨hnext.congr rfl rfl, hforest⟩
  · trivial

instance keeps_comments : Keeps source comments := keeps_many

/-- The comments in front of a token are laid, and the token is at a place of the source. -/
lemma skipTrivia_sound {c : Cursor} (hc : At source c) :
    At source (skipTrivia c).2 ∧ Laid source c.offset (skipTrivia c).2.offset (skipTrivia c).1 := by
  have hreply := Keeps.reads (p := comments) inferInstance hc
  rw [skipTrivia]
  split
  · rename_i forest next hn
    obtain ⟨hnext, hforest⟩ := hreply.of_accepted hn
    exact ⟨(at_skipBlanks hnext).congr rfl rfl, hforest.mono le_rfl (le_skipBlanks next)⟩
  · exact ⟨at_skipBlanks hc, le_skipBlanks c⟩

/-- A lexeme of either kind of comments, read behind blanks and comments. -/
lemma keeps_lexeme_of (hr : Splits r) (hcomment : ¬ Plain label → ∀ t lexeme rest, r t = some (lexeme, rest) →
    ClosesBlock lexeme) :
    Keeps source (lexeme r label) := by
  refine keeps_of_reads fun {c} hc => ?_
  obtain ⟨hhere, hlead⟩ := skipTrivia_sound hc
  rw [lexeme]
  simp only
  split
  · rename_i text rest h
    have hrest := hr.append _ _ _ h
    exact ⟨(hhere.past hrest).congr rfl rfl, hlead.append (laid_leaf hhere hrest fun hl => hcomment hl _ _ _ h)⟩
  · trivial

instance keeps_lexeme [hr : Splits r] [hl : Holds (Plain label)] : Keeps source (lexeme r label) :=
  keeps_lexeme_of hr fun h => absurd hl.holds h

end Tokens

end Grammar

end DocBlocks
