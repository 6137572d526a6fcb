import DocBlocks.Proofs.Toml.Numbers
import DocBlocks.Proofs.Toml.Strings
import Mathlib.Data.List.Nodup

/-!
# Documents of one table read back

A document with one header and a line for each of some keys is read as a table of these keys with
their values, as long as no key stands twice.

## Main definitions

* `Toml.Setting`: a key with a value and the text that it is written with.
* `Toml.Reads`: what lines make of a document under way.

## Main results

* `line?_setting`: a line adds its key and its value.
* `reads_settings`: so do several lines, one after another.
* `document?_settings`: **a document of one table is read back.**
-/

namespace DocBlocks.Toml

variable {c : Char} {key rest t : Text} {depth : ℕ} {d d' d'' : Draft} {entries : Table}

/-! ## Keys -/

lemma isBlank_of_isBare (hc : isBare c = true) : isBlank c = false := by
  rw [isBlank, Bool.or_eq_false_iff, decide_eq_false_iff_not, decide_eq_false_iff_not]
  constructor <;> rintro rfl <;> cases hc

/-- Whether a text may stand as a key without quotes. -/
structure IsKey (key : Text) : Prop where
  isBare : ∀ c ∈ key, isBare c = true
  ne_nil : key ≠ []

lemma isKey_iff : IsKey key ↔ key.all isBare = true ∧ key ≠ [] :=
  ⟨fun h => ⟨List.all_eq_true.mpr h.isBare, h.ne_nil⟩, fun h => ⟨List.all_eq_true.mp h.1, h.2⟩⟩

instance : Decidable (IsKey key) := decidable_of_iff _ isKey_iff.symm

lemma IsKey.skipBlank_append (h : IsKey key) (rest : Text) : skipBlank (key ++ rest) = key ++ rest := by
  obtain ⟨c, key, rfl⟩ := List.exists_cons_of_ne_nil h.ne_nil
  simp [skipBlank, isBlank_of_isBare (h.isBare c List.mem_cons_self)]

/-- **A key without quotes** is read up to what is no part of it. -/
lemma key?_append (h : IsKey key) (hrest : ∀ c ∈ rest.head?, isBare c = false) (hdot : (skipBlank rest).head? ≠ some '.') :
    key? (key ++ rest) = some ([], key, skipBlank rest) := by
  have htake : (key ++ rest).takeWhile isBare = key := by
    rw [List.takeWhile_append_of_pos h.isBare]
    cases rest with
    | nil => simp
    | cons c rest => simp [hrest c rfl]
  have hdrop : (key ++ rest).dropWhile isBare = rest := by
    rw [List.dropWhile_append_of_pos h.isBare]
    cases rest with
    | nil => rfl
    | cons c rest => simp [hrest c rfl]
  have hpart : part? (key ++ rest) = some (key, rest) := by
    rw [part?, htake, hdrop]
    split
    · exact absurd rfl h.ne_nil
    · rfl
  have hparts : parts? 79 (key ++ rest) = some ([key], skipBlank rest) := by
    unfold parts?
    rw [h.skipBlank_append, hpart]
    simp only [bind, Option.bind, pure]
    split
    · rename_i heq
      rw [heq] at hdot
      exact absurd rfl hdot
    · rfl
  rw [key?, hparts]
  rfl

/-! ## Lines -/

/-- A key with a value, and the text that the value is written with. -/
structure Setting where
  key : Text
  text : Text
  value : Value

/-- The line with a setting. -/
def Setting.line (s : Setting) : Text := s.key ++ " = ".toList ++ s.text ++ ['\n']

/-- The key with its value. -/
def Setting.entry (s : Setting) : Text × Value := (s.key, s.value)

/-- Whether the text is read as the value at the end of a line. -/
structure Setting.IsRead (s : Setting) : Prop where
  isKey : IsKey s.key
  value : ∀ rest, value? maxDepth (s.text ++ '\n' :: rest) = some (s.value, '\n' :: rest)

/-- No value starts with a blank. -/
lemma value?_blank (hc : isBlank c = true) (t : Text) : value? depth (c :: t) = none := by
  rw [isBlank, Bool.or_eq_true, decide_eq_true_eq, decide_eq_true_eq] at hc
  obtain rfl | rfl := hc
  · exact (value?_eq_number? (by decide) (moment?_cons rfl t)).trans rfl
  · exact (value?_eq_number? (by decide) (moment?_cons rfl t)).trans rfl

lemma skipBlank_of_value? {x : Value × Text} (h : value? depth t = some x) : skipBlank t = t := by
  cases t with
  | nil => rfl
  | cons c t =>
    have hc : isBlank c ≠ true := by
      intro hc
      rw [value?_blank hc] at h
      cases h
    simp [skipBlank, hc]

/-- The document under way while its one table, with some entries so far, is being read. -/
def oneTable (table : Text) (entries : Table) : Draft := ⟨[(table, .table .header entries)], [table]⟩

/-- **A line of a table** adds its key and its value. -/
lemma assignment?_setting {s : Setting} {table : Text} (h : s.IsRead) (hnew : entries.lookup s.key = none) (rest : Text) :
    assignment? (oneTable table entries) (s.line ++ rest) = some (oneTable table (entries ++ [s.entry]), rest) := by
  have hline : s.line ++ rest = s.key ++ (' ' :: '=' :: ' ' :: (s.text ++ '\n' :: rest)) := by
    simp [Setting.line]
  have hkey : key? (s.line ++ rest) = some ([], s.key, '=' :: ' ' :: (s.text ++ '\n' :: rest)) := by
    rw [hline]
    exact key?_append h.isKey (by rintro _ ⟨⟩; rfl) nofun
  have hvalue : value? maxDepth (skipBlank (' ' :: (s.text ++ '\n' :: rest))) = some (s.value, '\n' :: rest) := by
    have hread := h.value rest
    have hskip : skipBlank (' ' :: (s.text ++ '\n' :: rest)) = s.text ++ '\n' :: rest := skipBlank_of_value? hread
    rw [hskip, hread]
  have hinsert : within? (insert? [] s.key s.value) [table] [(table, .table .header entries)] =
      some [(table, .table .header (entries ++ [s.entry]))] := by
    simp [within?, insert?, hnew, put, Setting.entry]
  rw [assignment?, hkey]
  simp only [Option.bind_eq_bind, Option.bind_some, exactly?, if_true, hvalue, oneTable, hinsert]
  rfl

/-- A line that starts with a key, a bracket in front of it or not, is not empty. -/
lemma endLine?_eq_none (hblank : isBlank c = false) (hmark : c ∉ ['#', '\n', '\r']) (t : Text) : endLine? (c :: t) = none := by
  simp only [List.mem_cons, List.not_mem_nil, or_false, not_or] at hmark
  have hskip : skipBlank (c :: t) = c :: t := by simp [skipBlank, hblank]
  rw [endLine?, hskip]
  split
  · rename_i heq
    cases heq
  · rename_i heq
    exact absurd (List.cons.inj heq).1 hmark.1
  · unfold newline?
    split
    · rename_i heq
      exact absurd (List.cons.inj heq).1 hmark.2.1
    · rename_i heq
      exact absurd (List.cons.inj heq).1 hmark.2.2
    · rfl

/-- A character of a key is no mark. -/
lemma not_mark_of_isBare (hc : isBare c = true) : c ∉ ['#', '\n', '\r'] ∧ c ≠ '[' := by
  simp only [List.mem_cons, List.not_mem_nil, or_false, not_or]
  refine ⟨⟨?_, ?_, ?_⟩, ?_⟩ <;> rintro rfl <;> cases hc

/-- **A line with a setting** adds its key and its value. -/
lemma line?_setting {s : Setting} {table : Text} (h : s.IsRead) (hnew : entries.lookup s.key = none) (rest : Text) :
    line? (oneTable table entries) (s.line ++ rest) = some (oneTable table (entries ++ [s.entry]), rest) := by
  rw [← assignment?_setting h hnew]
  obtain ⟨c, key, hkey⟩ := List.exists_cons_of_ne_nil h.isKey.ne_nil
  have hc : isBare c = true := h.isKey.isBare c (hkey ▸ List.mem_cons_self)
  obtain ⟨hmark, hbracket⟩ := not_mark_of_isBare hc
  have hblank := isBlank_of_isBare hc
  obtain ⟨t, ht⟩ : ∃ t, s.line ++ rest = c :: t := by
    rw [Setting.line, hkey]
    exact ⟨_, rfl⟩
  have hskip : skipBlank (c :: t) = c :: t := by simp [skipBlank, hblank]
  rw [ht, line?, endLine?_eq_none hblank hmark]
  simp only [hskip]
  split
  · rename_i heq
    exact absurd (List.cons.inj heq).1 hbracket
  · rename_i heq
    exact absurd (List.cons.inj heq).1 hbracket
  · rfl

/-- **A header** opens its table. -/
lemma line?_header {table : Text} (h : IsKey table) (rest : Text) :
    line? ⟨[], []⟩ ('[' :: table ++ "]\n".toList ++ rest) = some (oneTable table [], rest) := by
  have htext : '[' :: table ++ "]\n".toList ++ rest = '[' :: (table ++ ']' :: '\n' :: rest) := by simp
  have hkey : key? (table ++ ']' :: '\n' :: rest) = some ([], table, ']' :: '\n' :: rest) :=
    key?_append h (by rintro _ ⟨⟩; rfl) nofun
  have hopen : openTable? [] table [] = some [(table, .table .header [])] := rfl
  have hheader : header? false ⟨[], []⟩ (table ++ ']' :: '\n' :: rest) = some (oneTable table [], rest) := by
    rw [header?, hkey]
    simp only [Option.bind_eq_bind, Option.bind_some, exactly?, if_true, Bool.false_eq_true, if_false, hopen]
    rfl
  rw [htext, line?, endLine?_eq_none rfl (by decide), ← hheader]
  have hskip : skipBlank ('[' :: (table ++ ']' :: '\n' :: rest)) = '[' :: (table ++ ']' :: '\n' :: rest) := rfl
  simp only [hskip]
  obtain ⟨c, key, rfl⟩ := List.exists_cons_of_ne_nil h.ne_nil
  obtain ⟨-, hbracket⟩ := not_mark_of_isBare (h.isBare c List.mem_cons_self)
  split
  · rename_i heq
    exact absurd (List.cons.inj (List.cons.inj heq).2).1 hbracket
  · rename_i heq
    rw [(List.cons.inj heq).2]
  · rename_i hne
    exact absurd rfl (hne _)

/-! ## Documents -/

/-- What lines make of a document under way, whatever the fuel. -/
def Reads (t : Text) (d d' : Draft) : Prop := ∀ fuel, t.length < fuel → lines? fuel d t = some d'

lemma reads_nil (d : Draft) : Reads [] d d := by
  intro fuel hfuel
  obtain ⟨fuel, rfl⟩ : ∃ n, fuel = n + 1 := ⟨fuel - 1, by omega⟩
  rfl

lemma reads_append {l : Text} (hne : l ≠ []) (hline : line? d (l ++ rest) = some (d', rest)) (h : Reads rest d' d'') :
    Reads (l ++ rest) d d'' := by
  intro fuel hfuel
  obtain ⟨fuel, rfl⟩ : ∃ n, fuel = n + 1 := ⟨fuel - 1, by omega⟩
  have hlength := List.length_pos_iff.mpr hne
  rw [List.length_append] at hfuel
  rw [lines?, if_neg (List.append_ne_nil_of_left_ne_nil hne _), hline]
  exact h fuel (by omega)

/-- **Several lines** add their keys and values one after another. -/
lemma reads_settings {table : Text} {settings : List Setting} (h : ∀ s ∈ settings, s.IsRead)
    (hkeys : (entries.map Prod.fst ++ settings.map Setting.key).Nodup) :
    Reads (settings.flatMap Setting.line) (oneTable table entries)
      (oneTable table (entries ++ settings.map Setting.entry)) := by
  induction settings generalizing entries with
  | nil =>
    rw [List.map_nil, List.append_nil]
    exact reads_nil _
  | cons s settings ih =>
    have hread := h s List.mem_cons_self
    have hnew : entries.lookup s.key = none := by
      rw [List.lookup_eq_none_iff]
      intro x hx
      rw [bne_iff_ne]
      exact fun heq => List.disjoint_of_nodup_append hkeys (List.mem_map_of_mem hx)
        (by rw [← heq, List.map_cons]; exact List.mem_cons_self)
    have hkeys' : ((entries ++ [s.entry]).map Prod.fst ++ settings.map Setting.key).Nodup := by
      simpa [Setting.entry] using hkeys
    have hne : s.line ≠ [] := by simp [Setting.line]
    rw [List.flatMap_cons, List.map_cons, List.append_cons]
    exact reads_append hne (line?_setting hread hnew _) (ih (fun s hs => h s (List.mem_cons_of_mem _ hs)) hkeys')

/-- **A document of one table is read back.** -/
lemma document?_settings {table : Text} {settings : List Setting} (htable : IsKey table)
    (h : ∀ s ∈ settings, s.IsRead) (hkeys : (settings.map Setting.key).Nodup) :
    document? ('[' :: table ++ "]\n".toList ++ settings.flatMap Setting.line) =
      some [(table, .table .header (settings.map Setting.entry))] := by
  have hreads : Reads ('[' :: table ++ "]\n".toList ++ settings.flatMap Setting.line) ⟨[], []⟩
      (oneTable table ([] ++ settings.map Setting.entry)) :=
    reads_append (by simp) (line?_header htable _) (reads_settings h hkeys)
  rw [document?]
  exact congrArg (Option.map Draft.root) (hreads _ (Nat.lt_succ_self _))

end DocBlocks.Toml
