import DocBlocks.Proofs.Annotation.Planned
import DocBlocks.Proofs.Extraction.Outermost

/-!
# Places and the code of other units

The units of an accepted source lie one behind the other. A comment that goes right in front of its
unit is therefore outside of every other one. A comment that moves to the start of the line may pass
over the end of a unit that has started on an earlier line: then it lands inside that unit.

## Main definitions

* `Reaches`: the units that end on the line of another one, in front of it, and start on an earlier
  line.

## Main results

* `pairwise_of_extract`: the units of an accepted source.
* `lineStart_inside_iff`: when the start of a line lies inside a part in front of it.
* `insertionPoint?_inside_iff`: when the comment of a unit lands inside another unit.
-/

namespace DocBlocks

open Syntax Text

variable {d : Dialect} {source : Text} {units : List CodeUnit}

/-! ## Units of accepted sources -/

/-- **The units of an accepted source** lie one behind the other. -/
lemma pairwise_of_extract (h : extract d source = .ok units) :
    units.Pairwise fun u v => u.span.stop ≤ v.span.start := by
  obtain ⟨hsound, rfl⟩ := extract_eq_ok_iff.mp h
  rw [Extraction.unitsIn_eq, List.pairwise_map]
  exact Extraction.pairwise_foundIn (fits_syntaxTree hsound).wellNested

/-- A unit of an accepted source is a part of it. -/
lemma exists_parts_of_extract (h : extract d source = .ok units) {u : CodeUnit} (hu : u ∈ units) :
    ∃ front code rest, source = front ++ code ++ rest ∧ u.span = ⟨bytes front, bytes (front ++ code)⟩ := by
  obtain ⟨n, hn, hspan⟩ := exists_fits_of_extract h u hu
  obtain ⟨front, back, hsource, hstart⟩ := isCut_iff.mp hn.stands.start
  obtain ⟨whole, rest, hwhole, hstop⟩ := isCut_iff.mp hn.stands.stop
  have hle : bytes front ≤ bytes whole := hstart.trans_le (hn.forward.trans_eq hstop.symm)
  obtain ⟨code, rfl, -⟩ := exists_of_bytes_le (hsource.symm.trans hwhole) hle
  exact ⟨front, code, rest, hwhole, by rw [hspan, hstart, hstop]⟩

/-- Of two units of an accepted source, one ends in front of the other. -/
lemma stop_le_start_of_ne (h : extract d source = .ok units) {i j : Nat} (hij : i ≠ j) {u v : CodeUnit}
    (hu : units[i]? = some u) (hv : units[j]? = some v) :
    u.span.stop ≤ v.span.start ∨ v.span.stop ≤ u.span.start := by
  have hpairwise := List.pairwise_iff_getElem.mp (pairwise_of_extract h)
  obtain ⟨hi, rfl⟩ := List.getElem?_eq_some_iff.mp hu
  obtain ⟨hj, rfl⟩ := List.getElem?_eq_some_iff.mp hv
  rcases Nat.lt_or_gt_of_ne hij with hlt | hlt
  · exact .inl (hpairwise i j hi hj hlt)
  · exact .inr (hpairwise j i hj hi hlt)

/-! ## Lines that a unit reaches -/

/-- Whether a unit ends on the line where another one starts, in front of it, and starts on an
earlier line. `last` is what stands of the unit on that line, and `gap` what is between the two. -/
def Reaches (source : Text) (v u : CodeUnit) (last gap : Text) : Prop :=
  ∃ front lines rest, source = front ++ (lines ++ '\n' :: last) ++ gap ++ rest ∧
    v.span = ⟨bytes front, bytes (front ++ (lines ++ '\n' :: last))⟩ ∧
    u.span.start = bytes (front ++ (lines ++ '\n' :: last) ++ gap) ∧ last ≠ [] ∧ '\n' ∉ last ++ gap

/-- The line behind the last line feed of a part goes on behind that part. -/
lemma splitLastLine_reaching {last gap : Text} (front lines : Text) (hfeed : '\n' ∉ last ++ gap) :
    splitLastLine (front ++ (lines ++ '\n' :: last) ++ gap) = (front ++ lines ++ ['\n'], last ++ gap) :=
  splitLastLine_eq_iff.mpr ⟨by simp, hfeed, .inr ⟨front ++ lines, rfl⟩⟩

/-- **The start of a line** lies inside a part in front of it exactly if the part goes on behind a
line feed, and there is none from there on. -/
lemma lineStart_inside_iff (front code gap : Text) :
    (bytes front < bytes (splitLastLine (front ++ code ++ gap)).1 ∧
        bytes (splitLastLine (front ++ code ++ gap)).1 < bytes (front ++ code)) ↔
      ∃ lines last, code = lines ++ '\n' :: last ∧ last ≠ [] ∧ '\n' ∉ last ++ gap ∧
        (splitLastLine (front ++ code ++ gap)).2 = last ++ gap := by
  constructor
  · rintro ⟨hbehind, hbefore⟩
    obtain ⟨hline, hfeed, hends⟩ := splitLastLine_spec (front ++ code ++ gap)
    generalize (splitLastLine (front ++ code ++ gap)).1 = lines at *
    generalize (splitLastLine (front ++ code ++ gap)).2 = line at *
    obtain ⟨last, hcode, rfl⟩ := exists_of_bytes_le hline.symm hbefore.le
    obtain ⟨lines, rfl, rfl⟩ := exists_of_bytes_le hcode hbehind.le
    have hlast : last ≠ [] := by
      rintro rfl
      simp at hbefore
    have hlines : lines ≠ [] := by
      rintro rfl
      simp at hbehind
    -- what stands in front of the line ends with a line feed, and so does its part behind `front`
    have hsuffix : ['\n'] <:+ lines := by
      rcases hends with hnil | hsuffix
      · simp [hlines] at hnil
      · exact List.suffix_of_suffix_length_le hsuffix (List.suffix_append front lines)
          (List.length_pos_iff.mpr hlines)
    obtain ⟨lines, rfl⟩ := hsuffix
    exact ⟨lines, last, by simp, hlast, hfeed, rfl⟩
  · rintro ⟨lines, last, rfl, hlast, hfeed, -⟩
    have hpos := bytes_pos hlast
    have hbreak : Char.utf8Size '\n' = 1 := rfl
    rw [splitLastLine_reaching front lines hfeed]
    simp only [bytes_append, bytes_cons, bytes_nil, hbreak]
    omega

/-- A unit reaches the line of another one with what stands of it behind its last line feed. -/
lemma reaches_iff {front code gap rest : Text} {v u : CodeUnit} (hsource : source = front ++ code ++ gap ++ rest)
    (hv : v.span = ⟨bytes front, bytes (front ++ code)⟩) (hu : u.span.start = bytes (front ++ code ++ gap))
    {last gap' : Text} :
    Reaches source v u last gap' ↔ gap' = gap ∧ ∃ lines, code = lines ++ '\n' :: last ∧ last ≠ [] ∧ '\n' ∉ last ++ gap := by
  constructor
  · rintro ⟨front', lines, rest', hsource', hv', hu', hlast, hfeed⟩
    have hstart : bytes front = bytes front' := congrArg Span.start (hv.symm.trans hv')
    have hstop : bytes (front ++ code) = bytes (front' ++ (lines ++ '\n' :: last)) :=
      congrArg Span.stop (hv.symm.trans hv')
    obtain ⟨hfront, -⟩ := append_inj_of_bytes (hsource.symm.trans hsource') (hu.symm.trans hu')
    obtain ⟨hpart, rfl⟩ := append_inj_of_bytes hfront hstop
    obtain ⟨-, rfl⟩ := append_inj_of_bytes hpart hstart
    exact ⟨rfl, lines, rfl, hlast, hfeed⟩
  · rintro ⟨rfl, lines, rfl, hlast, hfeed⟩
    exact ⟨front, lines, rest, hsource, hv, hu, hlast, hfeed⟩

/-- A unit that reaches the line of another one stands in front of it. -/
lemma Reaches.lt {v u : CodeUnit} {last gap : Text} (h : Reaches source v u last gap) :
    v.span.start < v.span.stop ∧ v.span.stop ≤ u.span.start := by
  obtain ⟨front, lines, rest, -, hv, hu, hlast, -⟩ := h
  have hpos := bytes_pos hlast
  rw [hv, hu]
  simp only [bytes_append, bytes_cons]
  omega

/-! ## Places inside other units -/

/-- No place is behind the start of its unit. -/
lemma insertionPoint?_le {shape : CodeUnit.Shape} {start p : Nat} (h : insertionPoint? source shape start = some p) :
    p ≤ start := by
  obtain ⟨before, rest, rfl, rfl⟩ := isCut_iff.mp (isCut_start_of_insertionPoint? h)
  rw [insertionPoint?_append] at h
  obtain rfl := Option.some.inj h
  split
  · have hline := congrArg bytes (splitLastLine_spec before).1
    rw [bytes_append] at hline
    omega
  · exact le_rfl

/-- **The place of a unit behind another part** of the source lies inside that part exactly if the
part reaches the line of the unit, and the comment moves to the start of the line. -/
lemma insertionPoint?_inside_part_iff {front code gap rest : Text} {v u : CodeUnit} {p : Nat}
    (hsource : source = front ++ code ++ gap ++ rest) (hv : v.span = ⟨bytes front, bytes (front ++ code)⟩)
    (hu : u.span.start = bytes (front ++ code ++ gap)) (hp : insertionPoint? source u.shape u.span.start = some p) :
    (v.span.start < p ∧ p < v.span.stop) ↔
      ∃ last gap, Reaches source v u last gap ∧ Placement.moves u.shape (last ++ gap) := by
  have hplace : p = if Placement.moves u.shape (splitLastLine (front ++ code ++ gap)).2 then
      bytes (splitLastLine (front ++ code ++ gap)).1 else bytes (front ++ code ++ gap) := by
    rw [hu, hsource, insertionPoint?_append] at hp
    exact (Option.some.inj hp).symm
  have hbehind : bytes (front ++ code) ≤ bytes (front ++ code ++ gap) := by simp
  have hmoved : (v.span.start < p ∧ p < v.span.stop) ↔
      Placement.moves u.shape (splitLastLine (front ++ code ++ gap)).2 ∧
        bytes front < bytes (splitLastLine (front ++ code ++ gap)).1 ∧
        bytes (splitLastLine (front ++ code ++ gap)).1 < bytes (front ++ code) := by
    rw [hv, hplace]
    split
    · rename_i hmoves
      simp only [hmoves, true_and]
    · rename_i hmoves
      simp only [hmoves, Bool.false_eq_true, false_and, iff_false, not_and]
      omega
  rw [hmoved, lineStart_inside_iff]
  constructor
  · rintro ⟨hmoves, lines, last, hcode, hlast, hfeed, hline⟩
    exact ⟨last, gap, (reaches_iff hsource hv hu).mpr ⟨rfl, lines, hcode, hlast, hfeed⟩, hline ▸ hmoves⟩
  · rintro ⟨last, gap', hreaches, hmoves⟩
    obtain ⟨rfl, lines, rfl, hlast, hfeed⟩ := (reaches_iff hsource hv hu).mp hreaches
    rw [splitLastLine_reaching front lines hfeed]
    exact ⟨hmoves, lines, last, rfl, hlast, hfeed, rfl⟩

/-- **The comment of a unit lands inside another one** exactly if the other one ends on the line of
the unit, in front of it, and starts on an earlier line, and what stands on this line in front of
the unit, the end of the other one included, lets the comment move to the start of the line. The
units are any two of an accepted source. In particular a comment that stays in front of its unit is
outside of all others, and so is one that moves on a line that no unit from an earlier line reaches.

**Proof sketch.** The tree of an accepted source is well nested, so of two units one ends in front
of the other (`pairwise_of_extract`). No place is behind the start of its unit. So only a unit in
front can hold it, and only if the place is the start of the line (`lineStart_inside_iff`). -/
theorem insertionPoint?_inside_iff (h : extract d source = .ok units) {i j : Nat} (hij : i ≠ j) {u v : CodeUnit}
    (hu : units[i]? = some u) (hv : units[j]? = some v) :
    ∃ p, insertionPoint? source u.shape u.span.start = some p ∧
      (v.span.start < p ∧ p < v.span.stop ↔
        ∃ last gap, Reaches source v u last gap ∧ Placement.moves u.shape (last ++ gap)) := by
  obtain ⟨before, code, rest, hsource, huspan⟩ := exists_parts_of_extract h (List.mem_of_getElem? hu)
  have hstart : u.span.start = bytes before := congrArg Span.start huspan
  obtain ⟨p, hp⟩ : ∃ p, insertionPoint? source u.shape u.span.start = some p :=
    ⟨_, by rw [hstart, hsource, List.append_assoc]; exact insertionPoint?_append u.shape before (code ++ rest)⟩
  refine ⟨p, hp, ?_⟩
  rcases stop_le_start_of_ne h hij hu hv with hbehind | hfront
  · have hle := insertionPoint?_le hp
    have hforward : u.span.start ≤ u.span.stop := by simp [huspan]
    constructor
    · rintro ⟨hinside, -⟩
      omega
    · rintro ⟨last, gap, hreaches, -⟩
      have hlt := hreaches.lt
      omega
  · obtain ⟨front, code', rest', hsource', hvspan⟩ := exists_parts_of_extract h (List.mem_of_getElem? hv)
    have hparts : front ++ code' ++ rest' = before ++ (code ++ rest) := by
      rw [← hsource', hsource, List.append_assoc]
    obtain ⟨gap, rfl, -⟩ := exists_of_bytes_le hparts (by rwa [hstart, hvspan] at hfront)
    exact insertionPoint?_inside_part_iff (by rw [hsource, List.append_assoc]) hvspan hstart hp

/-- The end of a function on the line of another one. -/
theorem insertionPoint?_inside_brace :
    let source := "function f() \x7b\n\x7d; const g = () => 1;\n".toList
    let f : CodeUnit := ⟨"f".toList, .function, [], none, ⟨0, 16⟩, false, [], []⟩
    let g : CodeUnit := ⟨"g".toList, .arrow, [], none, ⟨28, 35⟩, false, [], []⟩
    extract .javaScript source = .ok [f, g] ∧ (1 : Nat) ≠ 0 ∧ [f, g][1]? = some g ∧ [f, g][0]? = some f ∧
      ∃ p, insertionPoint? source g.shape g.span.start = some p ∧ f.span.start < p ∧ p < f.span.stop := by
  intro source f g
  have h : extract .javaScript source = .ok [f, g] := by decide +kernel
  have hij : (1 : Nat) ≠ 0 := by decide
  obtain ⟨p, hp, hinside⟩ := insertionPoint?_inside_iff h hij (u := g) (v := f) rfl rfl
  have hreaches : Reaches source f g "\x7d".toList "; const g = ".toList :=
    ⟨[], "function f() \x7b".toList, "() => 1;\n".toList, by decide +kernel⟩
  exact ⟨h, hij, rfl, rfl, p, hp, hinside.mpr ⟨_, _, hreaches, by decide +kernel⟩⟩

/-- The last line of a function starts inside a template. What the comment of the other function is
put in front of is the rest of this template, so the comment becomes a part of what the function
returns. -/
theorem insertionPoint?_inside_template :
    let source := "function f() \x7b return `\n`; \x7d const g = () => 1;\n".toList
    let f : CodeUnit := ⟨"f".toList, .function, [], none, ⟨0, 28⟩, false, [], []⟩
    let g : CodeUnit := ⟨"g".toList, .arrow, [], none, ⟨39, 46⟩, false, [], []⟩
    extract .javaScript source = .ok [f, g] ∧ insertionPoint? source g.shape g.span.start = some 24 ∧
      ¬(24 ≤ f.span.start ∨ f.span.stop ≤ 24) ∧
      (splice? source [⟨g.name, 24, 24, "/** g */".toList⟩]).map Spliced.text =
        some "function f() \x7b return `\n/** g */\n`; \x7d const g = () => 1;\n".toList := by
  decide +kernel

end DocBlocks
