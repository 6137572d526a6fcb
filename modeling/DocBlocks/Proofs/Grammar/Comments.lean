import DocBlocks.Grammar.Statement
import DocBlocks.Proofs.Comment.Single
import DocBlocks.Proofs.Grammar.Splits

/-!
# Comments in front of tokens

Each token is read behind any comments, which come along as trees in front of it. So a rule that
starts with a token reads on behind a comment as it would without it, and answers with the comment
in front: a comment stays in front of the node that starts with the token.

## Main definitions

* `IsBlock`: a single comment behind blanks.
* `Grammar.TakesLead`: the rules that read behind a comment as without it.

## Main results

* `Grammar.skipTrivia_block`: what is skipped where a comment stands.
* `Grammar.takesLead_lexeme`: tokens; `Grammar.takesLead_seq`, `Grammar.takesLead_node`, …: the
  rules that start with one.
* `Grammar.statement_block`: statements that start with a keyword.
-/

namespace DocBlocks

open Text Comment Syntax

/-- Whether a block is a single comment behind blanks. -/
def IsBlock (block : Text) : Prop :=
  ∃ blanks comment, block = blanks ++ comment ∧ blanks.all Grammar.isAsciiBlank ∧ IsSingle comment

/-- A block has a slash. -/
lemma IsBlock.slash_mem {block : Text} (h : IsBlock block) : '/' ∈ block := by
  obtain ⟨blanks, comment, rfl, -, hsingle⟩ := h
  exact List.mem_append_right _ (hsingle.closes.subset (by decide))

namespace Grammar

/-! ## Skipping comments -/

/-- The cursor some bytes further on. -/
def Cursor.later (c : Cursor) (n : Nat) : Cursor := { c with offset := c.offset + n }

/-- The cursor in front of a text. -/
def Cursor.before (c : Cursor) (t : Text) : Cursor := { c with rest := t ++ c.rest }

section Skipped

variable {c c' next : Cursor} {forest : List Tree} {n : Nat}

/-- The comments that at most `n` readings find in front of the next token, and the cursor at that
token. -/
def skipUpTo (n : Nat) (c : Cursor) : List Tree × Cursor :=
  match upTo comment n c with
  | .accepted forest next => (forest, { skipBlanks next with seen := c.seen })
  | .refused _ => ([], skipBlanks c)

lemma comment_eq_accepted (h : comment c = .accepted forest next) :
    next.seen = c.seen ∧ next.rest.length < c.rest.length := by
  rw [comment] at h
  split at h
  · rename_i forest' next' hread
    obtain ⟨rfl, rfl⟩ := Reply.accepted.inj h
    rw [exactly] at hread
    split at hread
    · rename_i lexeme rest hlexeme
      obtain ⟨-, rfl⟩ := Reply.accepted.inj hread
      refine ⟨rfl, ?_⟩
      have hne : lexeme ≠ [] := by
        rintro rfl
        rw [comment?.eq_def] at hlexeme
        split at hlexeme <;> simp at hlexeme
      have hsplit := (comment?_eq_some hlexeme).1
      have hlong := (List.dropWhile_sublist isBlank (l := c.rest)).length_le
      rw [skipBlanks, Cursor.past] at hsplit
      have hlength := congrArg List.length hsplit
      have hpos := List.length_pos_iff.mpr hne
      simp only [List.length_append] at hlength
      change rest.length < c.rest.length
      omega
    · cases hread
  · cases h

lemma skipUpTo_of_accepted (h : comment c = .accepted forest next) :
    skipUpTo (n + 1) c = (forest ++ (skipUpTo n next).1, (skipUpTo n next).2) := by
  obtain ⟨hseen, -⟩ := comment_eq_accepted h
  have hall : ∀ n (c : Cursor), ∃ forest next, upTo comment n c = .accepted forest next := by
    intro n
    induction n with
    | zero => exact fun c => ⟨[], c, rfl⟩
    | succ n ih =>
      intro c
      cases hread : comment c with
      | accepted forest next =>
        obtain ⟨more, next', hmore⟩ := ih next
        exact ⟨forest ++ more, next', by simp only [upTo, hread, after, hmore]⟩
      | refused seen => exact ⟨[], { c with seen := seen }, by simp only [upTo, hread]⟩
  obtain ⟨more, next', hmore⟩ := hall n next
  simp only [skipUpTo, upTo, h, after, hmore, hseen]

lemma skipUpTo_of_refused {seen : Frontier} (h : comment c = .refused seen) : skipUpTo n c = ([], skipBlanks c) := by
  cases n with
  | zero => rfl
  | succ n =>
    simp only [skipUpTo, upTo, h]
    rfl

/-- As many readings as there are characters find all comments. -/
lemma skipUpTo_eq (h : c.rest.length ≤ n) : skipUpTo n c = skipTrivia c := by
  change skipUpTo n c = skipUpTo c.rest.length c
  induction n using Nat.strong_induction_on generalizing c with
  | _ n ih =>
    cases hread : comment c with
    | refused seen => rw [skipUpTo_of_refused hread, skipUpTo_of_refused hread]
    | accepted forest next =>
      obtain ⟨-, hshort⟩ := comment_eq_accepted hread
      obtain ⟨n, rfl⟩ : ∃ m, n = m + 1 := ⟨n - 1, by omega⟩
      obtain ⟨m, hm⟩ : ∃ m, c.rest.length = m + 1 := ⟨c.rest.length - 1, by omega⟩
      rw [hm, skipUpTo_of_accepted hread, skipUpTo_of_accepted hread, ih n (by omega) (by omega),
        ih m (by omega) (by omega)]

/-- Behind a comment all comments are found. -/
lemma skipTrivia_of_accepted (h : comment c = .accepted forest next) :
    skipTrivia c = (forest ++ (skipTrivia next).1, (skipTrivia next).2) := by
  obtain ⟨-, hshort⟩ := comment_eq_accepted h
  rw [← skipUpTo_eq (Nat.le_succ c.rest.length), skipUpTo_of_accepted h, skipUpTo_eq (by omega)]

/-- Whether a comment is read depends on what stands behind the blanks. -/
lemma comment_congr (h : skipBlanks c = skipBlanks c') (hread : comment c = .accepted forest next) :
    comment c' = .accepted forest next := by
  have htrail : (skipBlanks c).trail = (skipBlanks c').trail := congrArg Cursor.trail h
  change c.trail = c'.trail at htrail
  unfold comment at hread ⊢
  rw [h, htrail] at hread
  cases hexactly : exactly comment? (.node .comment) (skipBlanks c') with
  | accepted forest' next' => simpa only [hexactly] using hread
  | refused seen => simp only [hexactly, reduceCtorEq] at hread

/-- What is skipped depends on what stands behind the blanks. -/
lemma skipTrivia_congr (h : skipBlanks c = skipBlanks c') : skipTrivia c = skipTrivia c' := by
  cases hc : comment c with
  | accepted forest next => rw [skipTrivia_of_accepted hc, skipTrivia_of_accepted (comment_congr h hc)]
  | refused seen =>
    cases hc' : comment c' with
    | accepted forest next =>
      rw [comment_congr h.symm hc'] at hc
      cases hc
    | refused seen' => rw [← skipUpTo_eq le_rfl, skipUpTo_of_refused hc, ← skipUpTo_eq le_rfl, skipUpTo_of_refused hc', h]

/-- What a token skips: the comments in front of it, and the cursor there, behind no statement that
has ended. -/
def skipped (c : Cursor) : List Tree × Cursor := ((skipTrivia c).1, { (skipTrivia c).2 with ended := false })

/-- Whether a statement has ended does not matter. -/
lemma skipped_ended (c : Cursor) : skipped { c with ended := false } = skipped c := by
  have hskip : ∀ e, skipBlanks { c with ended := e } = { skipBlanks c with ended := e } := fun _ => rfl
  cases hc : comment? (skipBlanks c).rest with
  | some read =>
    have hread : comment { c with ended := false } = comment c := by
      rw [comment, comment, hskip]
      simp only [exactly, hc]
      rfl
    obtain ⟨forest, next, haccepted⟩ : ∃ forest next, comment c = .accepted forest next := by
      simp only [comment, exactly, hc]
      exact ⟨_, _, rfl⟩
    rw [skipped, skipped, skipTrivia_of_accepted haccepted, skipTrivia_of_accepted (hread.trans haccepted)]
  | none =>
    have hrefused : ∀ e, ∃ seen, comment { c with ended := e } = .refused seen := by
      intro e
      rw [comment, hskip]
      simp only [exactly, hc]
      exact ⟨_, rfl⟩
    obtain ⟨seen, hread⟩ := hrefused c.ended
    obtain ⟨seen', hread'⟩ := hrefused false
    rw [skipped, skipped, ← skipUpTo_eq le_rfl, skipUpTo_of_refused hread', ← skipUpTo_eq le_rfl, skipUpTo_of_refused hread]
    rfl

end Skipped

/-! ## Comments in front -/

section Blocks

variable {block : Text}

/-- A single comment is read as a whole. -/
lemma comment?_append {comment : Text} (h : IsSingle comment) (rest : Text) :
    comment? (comment ++ rest) = some (comment, rest) := by
  have hend : ∀ inner : Text, ¬ closer <:+: inner ++ ['*'] → afterCommentEnd? (inner ++ closer ++ rest) = some rest := by
    intro inner
    induction inner with
    | nil => exact fun _ => rfl
    | cons a inner ih =>
      intro hn
      rw [List.cons_append, closer, pair_isInfix_cons, not_or] at hn
      have hrest := ih hn.2
      have hother : ∀ t, a = '*' → inner ++ closer ++ rest = '/' :: t → False := by
        rintro t rfl ht
        refine hn.1 ⟨rfl, ?_⟩
        cases inner with
        | nil => cases ht
        | cons b inner => exact congrArg some (List.cons.inj ht).1
      rw [List.cons_append, List.cons_append, afterCommentEnd?]
      · exact hrest
      · exact hother
  obtain ⟨⟨t, rfl⟩, hclosed⟩ := h
  obtain ⟨inner, ht, hn⟩ := first_closer_iff.mp hclosed
  have hopen : docOpener ++ t = '/' :: '*' :: (inner ++ closer) := congrArg (['/', '*'] ++ ·) ht
  have htake : (inner ++ closer ++ rest).take ((inner ++ closer ++ rest).length - rest.length) = inner ++ closer := by
    rw [List.length_append, Nat.add_sub_cancel, List.take_left]
  rw [hopen, List.cons_append, List.cons_append, comment?, hend inner hn, Option.map_some, htake]

/-- The leaf of a block. -/
def leafOfBlock (c : Cursor) (block : Text) : Tree :=
  .leaf (.node .comment) (c.offset + bytes (block.takeWhile isBlank)) (c.offset + bytes block)

/-- **What a token skips where a comment stands**: the comment, and what it skips without it. -/
lemma skipped_block (h : IsBlock block) (c : Cursor) :
    skipped (c.before (block ++ ['\n'])) =
      (leafOfBlock c block :: (skipped (c.later (bytes block + 1))).1, (skipped (c.later (bytes block + 1))).2) := by
  obtain ⟨blanks, single, rfl, hblanks, hsingle⟩ := h
  have hall : ∀ a ∈ blanks, isBlank a := fun a ha => by
    rw [isBlank, List.all_eq_true.mp hblanks a ha, Bool.true_or]
  have hfirst : ∀ rest, (single ++ rest).takeWhile isBlank = [] ∧ (single ++ rest).dropWhile isBlank = single ++ rest := by
    obtain ⟨t, rfl⟩ := hsingle.1
    exact fun rest => ⟨rfl, rfl⟩
  have htext : blanks ++ single ++ ['\n'] ++ c.rest = blanks ++ (single ++ '\n' :: c.rest) := by simp
  have htake : (blanks ++ single).takeWhile isBlank = blanks := by
    rw [List.takeWhile_append_of_pos hall, ← List.append_nil single, (hfirst []).1, List.append_nil]
  have hskip : skipBlanks (c.before (blanks ++ single ++ ['\n'])) =
      { c with rest := single ++ '\n' :: c.rest, offset := c.offset + bytes blanks } := by
    rw [skipBlanks, Cursor.before, htext, List.takeWhile_append_of_pos hall, List.dropWhile_append_of_pos hall,
      (hfirst _).1, (hfirst _).2, List.append_nil]
    rfl
  have hread : comment (c.before (blanks ++ single ++ ['\n'])) =
      .accepted [leafOfBlock c (blanks ++ single)]
        { c with rest := '\n' :: c.rest, offset := c.offset + bytes (blanks ++ single), ended := false } := by
    rw [comment, hskip, exactly, comment?_append hsingle, leafOfBlock, htake, bytes_append, ← Nat.add_assoc]
    rfl
  have hbreak : skipBlanks { c with rest := '\n' :: c.rest, offset := c.offset + bytes (blanks ++ single), ended := false } =
      skipBlanks { c.later (bytes (blanks ++ single) + 1) with ended := false } := by
    have hoffset : ∀ n m : Nat, n + (1 + m) = n + 1 + m := fun n m => (Nat.add_assoc n 1 m).symm
    exact congrArg (fun offset => ({ c with
      rest := c.rest.dropWhile isBlank, offset := offset, ended := false } : Cursor)) (hoffset _ _)
  have hrest := skipped_ended (c.later (bytes (blanks ++ single) + 1))
  rw [skipped, ← skipTrivia_congr hbreak] at hrest
  rw [skipped, skipTrivia_of_accepted hread, ← hrest]
  rfl

end Blocks

/-! ## Rules that read behind comments -/

/-- The rules that accept behind a comment what they accept without it, with the comment in front of
what they answer. -/
class TakesLead (p : Rule) : Prop where
  behind : ∀ {block c forest next}, IsBlock block → p (c.later (bytes block + 1)) = .accepted forest next →
    p (c.before (block ++ ['\n'])) = .accepted (leafOfBlock c block :: forest) next

section Rules

variable {p : Rule}

/-- **Tokens** are read behind comments. -/
instance takesLead_lexeme (lexeme? : Recogniser) (label : Label) : TakesLead (lexeme lexeme? label) := by
  have hlexeme : ∀ c, lexeme lexeme? label c =
      match lexeme? (skipped c).2.rest with
      | some (text, rest) =>
        let next := (skipped c).2.past text rest
        let leaf := .leaf label (skipped c).2.offset next.offset
        .accepted ((skipped c).1 ++ [leaf]) (next.withTree leaf)
      | none => .refused (c.refusing (skipped c).2.offset) := fun c => rfl
  refine ⟨fun {block c forest next} hblock h => ?_⟩
  rw [hlexeme] at h
  rw [hlexeme, skipped_block hblock]
  dsimp only
  split at h
  · rename_i text rest hread
    obtain ⟨rfl, rfl⟩ := Reply.accepted.inj h
    rfl
  · cases h

/-- A rule that goes on behind another one. -/
instance takesLead_seq [TakesLead p] (ps : List Rule) : TakesLead (seq (p :: ps)) := by
  cases ps with
  | nil => exact ‹TakesLead p›
  | cons q ps =>
    refine ⟨fun {block c forest next} hblock h => ?_⟩
    change continueWith p (fun forest => after forest (seq (q :: ps))) _ = _ at h ⊢
    rw [continueWith] at h ⊢
    split at h
    · rename_i first here hfirst
      rw [TakesLead.behind hblock hfirst]
      simp only [after] at h ⊢
      split at h
      · obtain ⟨rfl, rfl⟩ := Reply.accepted.inj h
        rfl
      · cases h
    · cases h

/-- What plays a part. -/
instance takesLead_role [TakesLead p] (r : Role) : TakesLead (role r p) := by
  refine ⟨fun {block c forest next} hblock h => ?_⟩
  rw [role] at h ⊢
  split at h
  · rename_i forest' here hread
    obtain ⟨rfl, rfl⟩ := Reply.accepted.inj h
    rw [TakesLead.behind hblock hread]
    rfl
  · cases h

/-- A comment in front of a forest is not its last tree that is no comment. -/
lemma head?_cons_comment {t : Tree} (ht : t.isComment) (forest : List Tree) : head? (t :: forest) = head? forest := by
  rw [head?, head?, List.reverse_cons, List.find?_append]
  simp [ht]

/-- A node: the comment stays in front of it. -/
instance takesLead_node [TakesLead p] (k : Kind) : TakesLead (node k p) := by
  refine ⟨fun {block c forest next} hblock h => ?_⟩
  have hleaf : (leafOfBlock c block).isComment := rfl
  have hwrap : ∀ forest, wrap k (leafOfBlock c block :: forest) = leafOfBlock c block :: wrap k forest := by
    intro forest
    rw [wrap, wrap, List.takeWhile_cons_of_pos hleaf, List.dropWhile_cons_of_pos hleaf]
    split <;> rfl
  rw [node] at h ⊢
  split at h
  · rename_i forest' here hread
    obtain ⟨rfl, rfl⟩ := Reply.accepted.inj h
    rw [TakesLead.behind hblock hread]
    simp only [hwrap, head?_cons_comment hleaf]
  · cases h

/-- An item of a list. -/
instance takesLead_item [TakesLead p] : TakesLead (item p) := by
  refine ⟨fun {block c forest next} hblock h => ?_⟩
  have hleaf : (leafOfBlock c block).isComment := rfl
  rw [item] at h ⊢
  split at h
  · rename_i forest' here hread
    obtain ⟨rfl, rfl⟩ := Reply.accepted.inj h
    rw [TakesLead.behind hblock hread]
    simp only [head?_cons_comment hleaf]
    rfl
  · cases h

end Rules

/-! ## Statements that start with a keyword -/

section Statements

variable (d : Dialect) (g : Rules)

instance (s : String) : TakesLead (token s) := takesLead_lexeme ..

instance (w : String) : TakesLead (word w) := takesLead_lexeme ..

instance : TakesLead (ifStatement d g) := takesLead_node ..

instance : TakesLead (switchStatement d g) := takesLead_node ..

instance : TakesLead (tryStatement d g) := takesLead_node ..

instance (k : Kind) (w : String) : TakesLead (jump d k w) := takesLead_node ..

instance : TakesLead (returnStatement d g) := takesLead_node ..

instance : TakesLead (variableDeclaration d g) := takesLead_node ..

variable {d g} {w : Text} {rule : Rule}

/-- A statement that starts with a keyword, if its production is a single one. -/
lemma takesLead_keywordStatement? (h : keywordStatement? d g w = some rule) (hfor : w ≠ "for".toList) :
    TakesLead rule := by
  have hone : ∀ {c : Prop} [Decidable c] {r : Rule} {other : Option Rule}, (if c then some r else other) = some rule →
      TakesLead r → (other = some rule → TakesLead rule) → TakesLead rule := by
    intro c _ r other h hr hother
    split at h
    · cases h
      exact hr
    · exact hother h
  rw [keywordStatement?] at h
  refine hone h inferInstance fun h => ?_
  rw [if_neg hfor] at h
  repeat refine hone h inferInstance fun h => ?_
  cases h

/-- **A statement that starts with a keyword** is read behind a comment as without it, and the
comment stays in front of it. -/
theorem statement_block {block rest : Text} {c next : Cursor} {forest : List Tree} (hblock : IsBlock block)
    (hword : name? (upcoming (c.later (bytes block + 1))) = some (w, rest)) (hkeyword : (keywordStatement? d g w).isSome)
    (hfor : w ≠ "for".toList) (h : statement d g (c.later (bytes block + 1)) = .accepted forest next) :
    statement d g (c.before (block ++ ['\n'])) = .accepted (leafOfBlock c block :: forest) next := by
  obtain ⟨rule, hrule⟩ := Option.isSome_iff_exists.mp hkeyword
  have hstatement : ∀ c rest, name? (upcoming c) = some (w, rest) → statement d g c = rule c := by
    intro c rest hc
    rw [statement, hc]
    simp only [wordStatement, hrule]
  have hupcoming : upcoming (c.before (block ++ ['\n'])) = upcoming (c.later (bytes block + 1)) :=
    congrArg (·.2.rest) (skipped_block hblock c)
  rw [hstatement _ _ hword] at h
  rw [hstatement _ rest (hupcoming ▸ hword)]
  exact (takesLead_keywordStatement? hrule hfor).behind hblock h

end Statements

end Grammar

end DocBlocks
