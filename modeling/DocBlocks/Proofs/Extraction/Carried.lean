import DocBlocks.Proofs.Extraction.Alike

/-!
# Texts that move along

Where blocks are put into a source, a node that moves along keeps its text unless a block is put
inside it. A unit shows the texts of some nodes, so it stays the same unless a block is put inside
one of those.

## Main definitions

* `Extraction.Carried`: a node that has moved with its source.
* `Extraction.Untouched`: whether no block is put inside a range.
* `Extraction.Found.shown`: the ranges whose texts a unit shows.
* `CodeUnit.Agrees`: whether two units are the same but for where they stand.

## Main results

* `Extraction.textOf_eq_iff`: when the text of a node stays the same.
* `Extraction.forall₂_agrees_iff`: when the units of a source do.
-/

namespace DocBlocks

open Syntax Text Splice

namespace Extraction

/-! ## Texts -/

/-- Whether edits put nothing inside a range. -/
def Untouched (edits : List Edit) (b : Span) : Prop := ∀ e ∈ edits, e.point ≤ b.start ∨ b.stop ≤ e.point

instance (edits : List Edit) (b : Span) : Decidable (Untouched edits b) := List.decidableBAll ..

/-- The range of a node. -/
def spanOf (t : Tree) : Span := ⟨t.start, t.stop⟩

/-- Whether a node stands in a source and has moved with it. -/
structure Carried (source : Text) (edits : List Edit) (t u : Tree) : Prop where
  start : IsCut source t.start
  stop : IsCut source t.stop
  moved : moves edits t u

/-- A node that ends where it starts, or before, has no text. -/
lemma textOf_eq_nil {source : Text} {t : Tree} (h : t.stop ≤ t.start) : textOf source t = [] := by
  rw [textOf]
  cases hs : source.slice? t.start t.stop with
  | none => rfl
  | some m =>
    obtain ⟨a, b, -, ha, hb⟩ := slice?_eq_some_iff.mp hs
    have hm : bytes m = 0 := by omega
    exact bytes_eq_zero_iff.mp hm

section Texts

variable {source : Text} {edits : List Edit} (hcut : ∀ e ∈ edits, IsCut source e.point)
  (hslash : ∀ e ∈ edits, '/' ∈ e.block) {t u : Tree} (h : Carried source edits t u)

include hcut hslash h in
/-- **The text of a node** stays the same, as far as slashes tell, exactly if no block is put inside
the node: each block has slashes. -/
lemma textOf_eq_iff {f : Text → Text} (hf : ∀ w, (f w).count '/' = w.count '/') :
    f (textOf source t) = f (textOf (grown edits source) u) ↔ Untouched edits (spanOf t) := by
  have hmoved := h.moved
  simp only [moves, Bool.and_eq_true, decide_eq_true_eq] at hmoved
  rcases Nat.lt_or_ge t.start t.stop with hlt | hge
  · -- a text of its own: the part of the source between two cuts
    obtain ⟨a, rest, hsource, ha⟩ := isCut_iff.mp h.start
    obtain ⟨am, b, hsource', ham⟩ := isCut_iff.mp h.stop
    obtain ⟨m, rfl, rfl⟩ := exists_of_bytes_le (hsource.symm.trans hsource') (by omega)
    rw [bytes_append, ha] at ham
    have hm : m ≠ [] := by
      rintro rfl
      simp at ham
      omega
    have htext : textOf source t = m := by
      rw [textOf, ← ham, ← ha, hsource, slice?_append, Option.getD_some]
    have htext' : textOf (grown edits source) u =
        ((grown edits source).slice? (Splice.moved edits (bytes a)) (movedEnd edits (bytes a + bytes m))).getD [] := by
      rw [textOf, hmoved.1, hmoved.2, ← ham, ha]
    rw [htext, htext', Untouched, spanOf, ← ham, ← ha]
    constructor
    · intro heq e he
      by_contra hinside
      simp only at hinside
      have hμ : ∀ a b : Text, (a ++ b).count '/' = a.count '/' + b.count '/' := fun _ _ => List.count_append
      obtain ⟨w, hw, hlong⟩ := measure_slice?_grown hsource hm hcut hμ
      rw [hw, Option.getD_some] at heq
      have hcount : m.count '/' = w.count '/' := by rw [← hf m, heq, hf w]
      have hadded : 0 < (added e).count '/' := List.count_pos_iff.mpr (List.mem_append_left _ (hslash e he))
      have hmore := measure_added_le hμ (p := fun e => bytes a < e.point && e.point < bytes a + bytes m) he
        (by simp; omega)
      omega
    · intro huntouched
      rw [slice?_grown_plain hsource hm hcut huntouched, Option.getD_some]
  · have hge' : u.stop ≤ u.start := by
      rw [hmoved.1, hmoved.2]
      exact movedEnd_le_moved edits hge
    rw [textOf_eq_nil hge, textOf_eq_nil hge']
    refine iff_of_true rfl fun e _ => ?_
    simp only [spanOf]
    omega

include hcut hslash in
/-- What is read of the text of a node, if there is one, stays the same if no block is put inside
the node. -/
lemma map_textOf_eq_iff {x y : Option Tree} (h : Option.Rel (Carried source edits) x y) {f : Text → Text}
    (hf : ∀ w, (f w).count '/' = w.count '/') :
    x.map (fun t => f (textOf source t)) = y.map (fun u => f (textOf (grown edits source) u)) ↔
      ∀ n ∈ x.toList, Untouched edits (spanOf n) := by
  cases h with
  | none => simp
  | some htu => simpa using textOf_eq_iff hcut hslash htu hf

/-- Trimming takes away no slash. -/
lemma count_trim (w : Text) : (trim w).count '/' = w.count '/' := by
  have hdrop : ∀ w : Text, (w.dropWhile isWhite).count '/' = w.count '/' := by
    intro w
    induction w with
    | nil => rfl
    | cons c w ih =>
      rw [List.dropWhile_cons]
      split
      · rename_i hc
        have hne : c ≠ '/' := by
          rintro rfl
          exact absurd hc (by decide)
        rw [ih, List.count_cons_of_ne hne]
      · rfl
  rw [trim, trimEnd, trimStart, List.count_reverse, hdrop, List.count_reverse, hdrop]

/-- A type as written, told from the text of its node. -/
def written (w : Text) : Text :=
  match trim w with
  | ':' :: rest => trim rest
  | text => trim text

/-- A type as written has the slashes of its node. -/
lemma count_written (w : Text) : (written w).count '/' = w.count '/' := by
  rw [written]
  split
  · rename_i rest hw
    rw [count_trim, ← count_trim w, hw, List.count_cons_of_ne (by decide)]
  · rw [count_trim, count_trim]

end Texts

/-! ## Parameters -/

/-- The nodes whose texts a parameter shows. -/
def Shown.nodes (x : Shown) : List Tree := x.name.toList ++ x.type.toList ++ x.default.toList

/-- Whether a parameter shows the same, moved with its source. -/
structure Shown.Moved (source : Text) (edits : List Edit) (x y : Shown) : Prop where
  lead : x.lead = y.lead
  name : Option.Rel (Carried source edits) x.name y.name
  type : Option.Rel (Carried source edits) x.type y.type
  default : Option.Rel (Carried source edits) x.default y.default

section Parameters

variable {source : Text} {edits : List Edit}

/-- **A parameter** stays the same exactly if no block is put inside a node it shows. -/
lemma parameter_eq_iff (hcut : ∀ e ∈ edits, IsCut source e.point) (hslash : ∀ e ∈ edits, '/' ∈ e.block) {x y : Shown}
    (h : x.Moved source edits y) :
    x.parameter source = y.parameter (grown edits source) ↔ ∀ n ∈ x.nodes, Untouched edits (spanOf n) := by
  have hname := map_textOf_eq_iff hcut hslash h.name (f := id) fun _ => rfl
  have htype := map_textOf_eq_iff hcut hslash h.type count_written
  have hdefault := map_textOf_eq_iff hcut hslash h.default (f := id) fun _ => rfl
  have hsame : x.lead ++ (x.name.map (textOf source)).getD [] =
      y.lead ++ (y.name.map (textOf (grown edits source))).getD [] ↔
        x.name.map (textOf source) = y.name.map (textOf (grown edits source)) := by
    rw [h.lead, List.append_cancel_left_eq]
    have hrel := h.name
    generalize x.name = name, y.name = name' at hrel
    cases hrel <;> simp
  rw [Shown.parameter, Shown.parameter, Parameter.mk.injEq, hsame]
  simp only [Shown.nodes, List.forall_mem_append, ← hname, ← htype, ← hdefault, and_assoc]
  rfl

variable {source' : Text} {head : Bool} {t u : Tree}

/-- Nodes below one whose text a unit shows have moved. -/
lemma Agree.carried (h : Agree source source' edits head t u) (hhead : head || opensHead t.role) (ht : t.OnCuts source) :
    Carried source edits t u := ⟨ht.ends.1, ht.ends.2, h.moved hhead⟩

lemma shownAmong_eq (role : Role) (ts : List Tree) :
    shownAmong role ts = (ts.find? fun t => t.role = some role).map shownOf := by
  induction ts with
  | nil => rw [shownAmong, List.find?_nil, Option.map_none]
  | cons t ts ih =>
    rw [shownAmong, List.find?_cons]
    split
    · simp [*]
    · simp [*]

/-- What is declared, told from the parts in a role. -/
lemma shownOf_eq (t : Tree) :
    shownOf t =
      match t.kind? with
      | some .objectPattern => ⟨"\x7b...\x7d".toList, none, none, none⟩
      | some .arrayPattern => ⟨"[...]".toList, none, none, none⟩
      | some .restPattern => shownRest t
      | some .assignmentPattern =>
        { ((t.part? .left).map shownOf).getD { name := some t } with default := t.part? .right }
      | some .requiredParameter | some .optionalParameter =>
        let inner := ((t.part? .pattern).map shownOf).getD { name := some t }
        { inner with type := t.part? .type, default := (t.part? .value).or inner.default }
      | _ => { name := some t } := by
  obtain ⟨l, r, m, s, e, ps⟩ := t
  rw [shownOf]
  simp only [shownAmong_eq]
  rfl

lemma label_of_kind? {k : Kind} (h : t.kind? = some k) : t.label = .node k := by
  rw [Tree.kind?] at h
  split at h
  · rename_i k' hk
    rw [hk, Option.some.inj h]
  · cases h

lemma role_part? {r : Role} {p : Tree} (hp : t.part? r = some p) : p.role = some r := by
  simpa using List.find?_some hp

/-- What a rest pattern shows. -/
lemma moved_shownRest (h : Agree source source' edits head t u) (hhead : head || opensHead t.role)
    (ht : t.OnCuts source) (hrest : t.label = .node .restPattern) : (shownRest t).Moved source edits (shownRest u) := by
  have hrel := rel_find? (p := Tree.named) (fun p q hpq => (agree_of_alike hpq).named) h.parts
  rw [← head?_namedParts_eq hrest, ← head?_namedParts_eq (h.label.symm.trans hrest)] at hrel
  rw [shownRest, shownRest]
  obtain ⟨hp, hq⟩ | ⟨p, q, hp, hq, hpq⟩ := rel_cases hrel
  · rw [hp, hq]
    exact ⟨rfl, .none, .none, .none⟩
  · have hpq := agree_of_alike hpq
    have hcuts := ht.parts p (List.mem_of_mem_filter (List.mem_of_mem_head? hp))
    rw [hp, hq]
    simp only [← hpq.hasKind]
    split
    · exact ⟨rfl, .some (hpq.carried (by rw [hhead, Bool.true_or]) hcuts), .none, .none⟩
    · exact ⟨rfl, .none, .none, .none⟩

/-- **What is declared** below a node whose text a unit shows is the same, moved with the source. -/
lemma moved_shownOf (halike : alike source source' edits head t u) (hhead : head || opensHead t.role)
    (ht : t.OnCuts source) : (shownOf t).Moved source edits (shownOf u) := by
  refine alike_induct
    (P := fun head t u => head || opensHead t.role → t.OnCuts source → (shownOf t).Moved source edits (shownOf u))
    (fun head t u h hparts hhead ht => ?_) t head u halike hhead ht
  have hbelow : ∀ p : Tree, head || opensHead t.role || opensHead p.role := fun p => by rw [hhead, Bool.true_or]
  have hpart := rel_part? (fun _ _ hpq => hpq.1.role) hparts
  have hcarried : ∀ r, Option.Rel (Carried source edits) (t.part? r) (u.part? r) := by
    intro r
    obtain ⟨hp, hq⟩ | ⟨p, q, hp, hq, hpq⟩ := rel_cases (hpart r)
    · rw [hp, hq]
      exact .none
    · rw [hp, hq]
      exact .some (hpq.1.carried (hbelow p) (onCuts_part? ht hp))
  have hself := h.carried hhead ht
  have hwhole : Shown.Moved source edits { name := some t } { name := some u } := ⟨rfl, .some hself, .none, .none⟩
  have hinner : ∀ r, (((t.part? r).map shownOf).getD { name := some t }).Moved source edits
      (((u.part? r).map shownOf).getD { name := some u }) := by
    intro r
    obtain ⟨hp, hq⟩ | ⟨p, q, hp, hq, hpq⟩ := rel_cases (hpart r)
    · rw [hp, hq]
      exact hwhole
    · rw [hp, hq]
      exact hpq.2 (hbelow p) (onCuts_part? ht hp)
  have htyped : Shown.Moved source edits
      { ((t.part? .pattern).map shownOf).getD { name := some t } with
        type := t.part? .type
        default := (t.part? .value).or (((t.part? .pattern).map shownOf).getD { name := some t }).default }
      { ((u.part? .pattern).map shownOf).getD { name := some u } with
        type := u.part? .type
        default := (u.part? .value).or (((u.part? .pattern).map shownOf).getD { name := some u }).default } := by
    refine ⟨(hinner _).lead, (hinner _).name, hcarried _, ?_⟩
    obtain ⟨hp, hq⟩ | ⟨p, q, hp, hq, hpq⟩ := rel_cases (hcarried .value)
    · rw [hp, hq]
      exact (hinner _).default
    · rw [hp, hq]
      exact .some hpq
  rw [shownOf_eq t, shownOf_eq u, ← h.kind?]
  split
  · exact ⟨rfl, .none, .none, .none⟩
  · exact ⟨rfl, .none, .none, .none⟩
  · rename_i hk
    exact moved_shownRest h hhead ht (label_of_kind? hk)
  · exact ⟨(hinner _).lead, (hinner _).name, (hinner _).type, hcarried _⟩
  · exact htyped
  · exact htyped
  · exact hwhole

/-- **The parameters of a function** are the same, moved with the source. -/
lemma moved_shownIn (h : Agree source source' edits head t u) (ht : t.OnCuts source) :
    List.Forall₂ (Shown.Moved source edits) (shownIn t) (shownIn u) := by
  rw [shownIn, shownIn]
  obtain ⟨hp, hq⟩ | ⟨params, params', hp, hq, hparams⟩ := h.part?_cases .parameters
  · rw [hp, hq]
    obtain ⟨hp, hq⟩ | ⟨p, q, hp, hq, hpq⟩ := h.part?_cases .parameter
    · rw [hp, hq]
      exact .nil
    · have hhead : opensHead p.role := by rw [role_part? hp]; rfl
      rw [hp, hq]
      exact .cons (moved_shownOf hpq (by rw [hhead, Bool.or_true]) (onCuts_part? ht hp)) .nil
  · have hhead : opensHead params.role := by rw [role_part? hp]; rfl
    have hcuts := onCuts_part? ht hp
    rw [hp, hq]
    simp only [namedParts_eq]
    rw [List.forall₂_map_left_iff, List.forall₂_map_right_iff]
    have hrel := (List.forall₂_and_left _ _).mpr
      ⟨fun p hp => hcuts.parts p (List.mem_of_mem_filter hp), (agree_of_alike hparams).parts⟩
    refine (List.rel_filter (fun p q hpq => ?_) hrel).imp fun p q hpq => ?_
    · have hpq := agree_of_alike hpq.2
      change (p.named && !p.hasKind .comment) = true ↔ (q.named && !q.hasKind .comment) = true
      rw [hpq.named, hpq.hasKind]
    · exact moved_shownOf hpq.2 (by rw [hhead, Bool.or_true, Bool.true_or]) hpq.1

end Parameters

/-! ## Units -/

/-- The nodes whose texts a unit shows. -/
def Found.nodes (x : Found) : List Tree :=
  x.name.toList ++ (shownIn x.node).flatMap Shown.nodes ++ (x.node.part? .returnType).toList

/-- Whether a unit is the same, moved with its source. -/
structure Found.Moved (source source' : Text) (edits : List Edit) (x y : Found) : Prop where
  shape : x.shape = y.shape
  name : Option.Rel (Carried source edits) x.name y.name
  node : ∃ head, Agree source source' edits head x.node y.node
  cuts : x.node.OnCuts source

end Extraction

/-- Whether two units are the same but for where they stand. -/
def CodeUnit.Agrees (u v : CodeUnit) : Prop := u = { v with span := u.span }

instance (u v : CodeUnit) : Decidable (u.Agrees v) := inferInstanceAs (Decidable (_ = _))

lemma CodeUnit.agrees_iff {u v : CodeUnit} :
    u.Agrees v ↔ u.name = v.name ∧ u.shape = v.shape ∧ u.parameters = v.parameters ∧ u.returnType = v.returnType ∧
      u.isAsync = v.isAsync ∧ u.called = v.called ∧ u.summary = v.summary := by
  obtain ⟨name, shape, parameters, returnType, span, isAsync, called, summary⟩ := u
  rw [CodeUnit.Agrees, CodeUnit.mk.injEq]
  simp

namespace Extraction

section Units

variable {source source' : Text} {edits : List Edit} {head : Bool} {t u : Tree}

/-- Nothing is found in what comes and goes. -/
lemma foundAt_of_extra {rest : Bool} (parent : Option Kind) (ht : extra rest t) : foundAt parent t = [] := by
  obtain ⟨l, r, m, s, e, ps⟩ := t
  obtain ⟨hparts, hlabel⟩ := shape_of_extra ht
  obtain rfl : ps = [] := hparts
  rw [foundAt]
  split
  · rcases hlabel with hlabel | hlabel <;> obtain rfl : l = _ := hlabel <;> rfl
  · rfl

lemma foundIn_eq_kept (t : Tree) : foundIn t = (kept t).flatMap (foundAt t.kind?) := by
  rw [foundIn_eq, kept]
  generalize decide (t.label = _) = rest, t.kind? = parent, t.parts = ps
  induction ps with
  | nil => rfl
  | cons p ps ih =>
    cases hp : extra rest p with
    | true => simp [hp, foundAt_of_extra parent hp, ih]
    | false => simp [hp, ih]

/-- The name of a node moves with it. -/
lemma Agree.name_cases (h : Agree source source' edits head t u) (ht : t.OnCuts source) :
    t.part? .name = none ∧ u.part? .name = none ∨
      ∃ p q, t.part? .name = some p ∧ u.part? .name = some q ∧ (∀ k, p.hasKind k = q.hasKind k) ∧
        Carried source edits p q := by
  obtain hnone | ⟨p, q, hp, hq, hpq⟩ := h.part?_cases .name
  · exact .inl hnone
  · have hhead : opensHead p.role := by rw [role_part? hp]; rfl
    have hpq := agree_of_alike hpq
    exact .inr ⟨p, q, hp, hq, hpq.hasKind, hpq.carried (by rw [hhead, Bool.or_true]) (onCuts_part? ht hp)⟩

/-- A unit found in a part of a node. -/
lemma rel_found? (parent : Option Kind) (h : Agree source source' edits head t u) (ht : t.OnCuts source) :
    Option.Rel (Found.Moved source source' edits) (found? parent t) (found? parent u) := by
  have hname : Option.Rel (Carried source edits) (t.part? .name) (u.part? .name) := by
    obtain ⟨hp, hq⟩ | ⟨p, q, hp, hq, -, hpq⟩ := h.name_cases ht
    · rw [hp, hq]
      exact .none
    · rw [hp, hq]
      exact .some hpq
  rw [found?, found?, ← h.kind?]
  split
  · exact .some ⟨rfl, hname, ⟨head, h⟩, ht⟩
  · exact .some ⟨rfl, hname, ⟨head, h⟩, ht⟩
  · split
    · refine .some ⟨rfl, ?_, ⟨head, h⟩, ht⟩
      obtain ⟨hp, hq⟩ | ⟨p, q, hp, hq, hkind, hpq⟩ := h.name_cases ht
      · rw [hp, hq]
        exact .none
      · rw [hp, hq, Option.filter_some, Option.filter_some, ← hkind]
        split
        · exact .some hpq
        · exact .none
    · exact .none
  · -- an arrow function: its name is that of the variable, its node the value
    obtain ⟨hp, hq⟩ | ⟨name, name', hp, hq, hkind, hnames⟩ := h.name_cases ht
    · rw [hp, hq]
      exact .none
    · rw [hp, hq]
      obtain ⟨hp, hq⟩ | ⟨value, value', hp, hq, hvalues⟩ := h.part?_cases .value
      · rw [hp, hq]
        exact .none
      · have hagree := agree_of_alike hvalues
        rw [hp, hq]
        simp only [← hkind, ← hagree.hasKind]
        split
        · exact .some ⟨rfl, .some hnames, ⟨_, hagree⟩, onCuts_part? ht hp⟩
        · exact .none
  · exact .none

/-- **The units of trees that are alike** are the same, moved with the source. -/
lemma moved_foundIn (halike : alike source source' edits head t u) (ht : t.OnCuts source) :
    List.Forall₂ (Found.Moved source source' edits) (foundIn t) (foundIn u) := by
  refine alike_induct
    (P := fun _ t u => t.OnCuts source → List.Forall₂ (Found.Moved source source' edits) (foundIn t) (foundIn u))
    (fun head t u h hparts ht => ?_) t head u halike ht
  rw [foundIn_eq_kept, foundIn_eq_kept, ← h.kind?]
  have hrel := (List.forall₂_and_left _ _).mpr ⟨fun p hp => ht.parts p (List.mem_of_mem_filter hp), hparts⟩
  refine List.rel_flatMap hrel fun p q ⟨hp, hpq, hfound⟩ => ?_
  have hunit := rel_found? t.kind? hpq hp
  rw [foundAt, foundAt, ← hpq.named]
  split
  · generalize found? t.kind? p = x, found? t.kind? q = y at hunit
    cases hunit with
    | none => exact hfound hp
    | some hxy => exact .cons hxy .nil
  · exact .nil

/-! ## Where units start -/

/-- What is found is a node of one of the kinds of units. -/
lemma isUnit_of_found? {parent : Option Kind} {x : Found} (h : found? parent t = some x) :
    unitKinds.any (x.node.hasKind ·) := by
  have hkind : ∀ {k : Kind} {t : Tree}, t.kind? = some k → unitKinds.contains k → unitKinds.any (t.hasKind ·) := by
    intro k t hk hmem
    exact List.any_eq_true.mpr ⟨k, List.contains_iff_mem.mp hmem, decide_eq_true (label_of_kind? hk)⟩
  rw [found?] at h
  split at h
  · rename_i hk
    obtain rfl := Option.some.inj h
    exact hkind hk rfl
  · rename_i hk
    obtain rfl := Option.some.inj h
    exact hkind hk rfl
  · rename_i hk
    split at h
    · obtain rfl := Option.some.inj h
      exact hkind hk rfl
    · cases h
  · split at h
    · rename_i name value _ _
      split at h
      · rename_i hboth
        obtain rfl := Option.some.inj h
        exact List.any_eq_true.mpr ⟨.arrowFunction, by decide, hboth.2⟩
      · cases h
    · cases h
  · cases h

lemma isUnit_of_mem_foundIn {x : Found} (hx : x ∈ foundIn t) : unitKinds.any (x.node.hasKind ·) := by
  induction t using Tree.induct with
  | node t ih =>
    rw [foundIn_eq] at hx
    obtain ⟨p, hp, hx⟩ := List.mem_flatMap.mp hx
    rw [foundAt] at hx
    split at hx
    · split at hx
      · rename_i y hy
        obtain rfl := List.mem_singleton.mp hx
        exact isUnit_of_found? hy
      · exact ih p hp hx
    · cases hx

/-- **A unit starts** where its start has moved with the source. -/
lemma Found.Moved.start {x y : Found} (h : x.Moved source source' edits y) (hx : unitKinds.any (x.node.hasKind ·)) :
    y.node.start = Splice.moved edits x.node.start := by
  obtain ⟨head, hnode⟩ := h.node
  have hstarts := hnode.starts
  rw [startsAlike, hx, Bool.not_true, Bool.false_or] at hstarts
  exact of_decide_eq_true hstarts

/-! ## What a unit shows -/

section Marks

variable (h : Agree source source' edits head t u) (name name' : Text) (shape shape' : CodeUnit.Shape)

include h in
/-- The words in front of the parameters are the same. -/
lemma isAsync_unitOf : (unitOf source name shape t).isAsync = (unitOf source' name' shape' u).isAsync := by
  have hextra : ∀ {rest : Bool} {t : Tree}, extra rest t → t.isToken "async" = false := by
    intro rest t ht
    obtain ⟨-, hlabel⟩ := shape_of_extra ht
    rcases hlabel with hlabel | hlabel <;> rw [Tree.isToken, hlabel] <;> rfl
  change (t.parts.any fun p => p.isToken "async") = u.parts.any fun p => p.isToken "async"
  rw [← any_kept hextra, ← any_kept hextra]
  exact any_eq (h.parts.imp fun p q hpq => (agree_of_alike hpq).isToken "async")

include h in
/-- So are the names called in the body. -/
lemma called_unitOf : (unitOf source name shape t).called = (unitOf source' name' shape' u).called := by
  dsimp only [unitOf]
  obtain ⟨hp, hq⟩ | ⟨p, q, hp, hq, hpq⟩ := h.part?_cases .body
  · rw [hp, hq]
  · rw [hp, hq]
    dsimp only
    rw [calledIn_eq_of_alike hpq []]

end Marks

section Agrees

variable (hcut : ∀ e ∈ edits, IsCut source e.point) (hslash : ∀ e ∈ edits, '/' ∈ e.block) {x y : Found}

include hcut hslash in
/-- Parameters stay the same exactly if no block is put inside a node they show. -/
lemma map_parameter_eq_iff {xs ys : List Shown} (h : List.Forall₂ (Shown.Moved source edits) xs ys) :
    xs.map (Shown.parameter source) = ys.map (Shown.parameter (grown edits source)) ↔
      ∀ n ∈ xs.flatMap Shown.nodes, Untouched edits (spanOf n) := by
  induction h with
  | nil => simp
  | cons hxy _ ih =>
    rw [List.map_cons, List.map_cons, List.cons_eq_cons, ih, parameter_eq_iff hcut hslash hxy, List.flatMap_cons,
      List.forall_mem_append]

include hcut hslash in
/-- **A unit** stays the same exactly if no block is put inside a node whose text it shows. -/
lemma agrees_iff (h : x.Moved source (grown edits source) edits y) :
    (x.unit source).Agrees (y.unit (grown edits source)) ↔ ∀ n ∈ x.nodes, Untouched edits (spanOf n) := by
  obtain ⟨head, hnode⟩ := h.node
  have hname : x.nameText source = y.nameText (grown edits source) ↔
      ∀ n ∈ x.name.toList, Untouched edits (spanOf n) := by
    rw [← map_textOf_eq_iff hcut hslash h.name (f := id) fun _ => rfl, Found.nameText, Found.nameText]
    obtain ⟨hp, hq⟩ | ⟨p, q, hp, hq, -⟩ := rel_cases h.name
    · simp [hp, hq]
    · simp [hp, hq]
  have hparameters := map_parameter_eq_iff hcut hslash (moved_shownIn hnode h.cuts)
  rw [← parametersOf_eq, ← parametersOf_eq] at hparameters
  have hresult : Option.Rel (Carried source edits) (x.node.part? .returnType) (y.node.part? .returnType) := by
    obtain ⟨hp, hq⟩ | ⟨p, q, hp, hq, hpq⟩ := hnode.part?_cases .returnType
    · rw [hp, hq]
      exact .none
    · have hhead : opensHead p.role := by rw [role_part? hp]; rfl
      rw [hp, hq]
      exact .some ((agree_of_alike hpq).carried (by rw [hhead, Bool.or_true]) (onCuts_part? h.cuts hp))
  have hreturns := map_textOf_eq_iff hcut hslash hresult count_written
  have hasync := isAsync_unitOf hnode (x.nameText source) (y.nameText (grown edits source)) x.shape y.shape
  have hcalled := called_unitOf hnode (x.nameText source) (y.nameText (grown edits source)) x.shape y.shape
  rw [CodeUnit.agrees_iff, Found.nodes, List.forall_mem_append, List.forall_mem_append, ← hname, ← hparameters,
    ← hreturns]
  exact ⟨fun ⟨h1, _, h3, h4, _⟩ => ⟨⟨h1, h3⟩, h4⟩, fun ⟨⟨h1, h3⟩, h4⟩ => ⟨h1, h.shape, h3, h4, hasync, hcalled, rfl⟩⟩

include hcut hslash in
/-- **The units of a source** stay the same, in their order, exactly if no block is put inside a
node whose text one of them shows. -/
lemma forall₂_agrees_iff {xs ys : List Found} (h : List.Forall₂ (Found.Moved source (grown edits source) edits) xs ys) :
    List.Forall₂ CodeUnit.Agrees (xs.map (Found.unit source)) (ys.map (Found.unit (grown edits source))) ↔
      ∀ x ∈ xs, ∀ n ∈ x.nodes, Untouched edits (spanOf n) := by
  induction h with
  | nil => simp
  | cons hxy _ ih =>
    rw [List.map_cons, List.map_cons, List.forall₂_cons, ih, agrees_iff hcut hslash hxy, List.forall_mem_cons]

end Agrees

end Units

end Extraction

end DocBlocks
