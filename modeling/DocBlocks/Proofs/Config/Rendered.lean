import DocBlocks.Config.File
import DocBlocks.Proofs.Toml.Settings

/-!
# Configurations read back

The file that is written for settings is read as these settings again. Each setting that is not open
has one line, and each line is read back by its key.

## Main definitions

* `Config.IsStorable`: whether settings are such as can be stored.

## Main results

* `isStorable_of_read?`: what is read from a file can be stored.
* `read?_render`: **what is stored is read back.**
-/

namespace DocBlocks.Config

open Binary Toml

variable {c : Config} {x : Binary} {α : Type}

/-! ## What can be stored -/

/-- Whether settings can be stored: a temperature is a number of 32 bits. -/
def IsStorable (c : Config) : Prop := ∀ x ∈ c.temperature, x.IsOf single

lemma isOf_convert (x : Binary) : (x.convert single).IsOf single := by
  cases x with
  | finite negative m e => exact isOf_ofQuotient (by decide) (by decide) negative _ (power_pos two_pos _)
  | infinite | nan => trivial

lemma isOf_temperature? {v : Value} (h : temperature? v = some x) : x.IsOf single := by
  rw [temperature?.eq_def] at h
  split at h
  · cases h
    exact isOf_convert _
  · cases h
    exact isOf_ofQuotient (by decide) (by decide) _ _ one_pos
  · cases h

lemma isOf_setting? {t : Table} {o : Option Binary} (h : setting? temperature? "temperature" t = some o) :
    ∀ x ∈ o, x.IsOf single := by
  rintro x rfl
  rw [setting?] at h
  split at h
  · obtain ⟨y, hy, heq⟩ := Option.map_eq_some_iff.mp h
    cases heq
    exact isOf_temperature? hy
  · cases h

/-- **What is read from a file can be stored.** -/
lemma isStorable_of_read? {t : Text} (h : read? t = some c) : c.IsStorable := by
  obtain ⟨doc, -, hdoc⟩ := Option.bind_eq_some_iff.mp h
  rw [ofDocument?] at hdoc
  split at hdoc
  · cases hdoc
    exact nofun
  · simp only [ofTable?, Option.bind_eq_bind, Option.bind_eq_some_iff, pure, Option.some.injEq] at hdoc
    obtain ⟨provider, -, key, -, url, -, model, -, tokens, -, temperature, htemperature, rfl⟩ := hdoc
    exact isOf_setting? htemperature
  · rename_i items _
    unfold ofItems? at hdoc
    split at hdoc
    · simp only [Option.bind_eq_bind, Option.bind_eq_some_iff, pure, Option.some.injEq] at hdoc
      obtain ⟨provider, -, key, -, url, -, model, -, tokens, -, temperature, htemperature, rfl⟩ := hdoc
      rintro x ⟨⟩
      exact isOf_temperature? htemperature
    · cases hdoc
  · cases hdoc

/-! ## What is stored -/

/-- The line of a setting, if it is not open. -/
def optional (key : String) (write : α → Text) (value : α → Value) (o : Option α) : List Setting :=
  o.toList.map fun a => ⟨key.toList, write a, value a⟩

lemma flatMap_optional (key : String) (write : α → Text) (value : α → Value) (o : Option α) :
    (optional key write value o).flatMap Setting.line = line key write o := by
  cases o <;> simp [optional, line, Setting.line]

/-- A setting is looked up by its key only. -/
lemma lookup_optional (k : Text) (key : String) (write : α → Text) (value : α → Value) (o : Option α) :
    ((optional key write value o).map Setting.entry).lookup k = if k = key.toList then o.map value else none := by
  cases o with
  | none => simp [optional]
  | some a =>
    by_cases hk : k = key.toList
    · simp [optional, Setting.entry, hk]
    · simp [optional, Setting.entry, List.lookup_cons, beq_eq_false_iff_ne.mpr hk, hk]

lemma isRead_optional {key : String} {write : α → Text} {value : α → Value} {o : Option α}
    (hkey : IsKey key.toList)
    (h : ∀ a ∈ o, ∀ rest, value? maxDepth (write a ++ '\n' :: rest) = some (value a, '\n' :: rest)) :
    ∀ s ∈ optional key write value o, s.IsRead := by
  intro s hs
  obtain ⟨a, ha, rfl⟩ := List.mem_map.mp hs
  exact ⟨hkey, h a (Option.mem_toList.mp ha)⟩

lemma sublist_keys_optional (key : String) (write : α → Text) (value : α → Value) (o : Option α) :
    ((optional key write value o).map Setting.key).Sublist [key.toList] := by
  cases o with
  | none => exact List.nil_sublist _
  | some a => exact List.Sublist.refl _

/-- What is looked up under the key of a setting is read as the setting. -/
lemma setting?_eq {β : Type} {t : Table} {key : String} {o : Option α} {read : Value → Option β} {f : α → β}
    (value : α → Value) (h : t.lookup key.toList = o.map value) (hread : ∀ a, read (value a) = some (f a)) :
    setting? read key t = some (o.map f) := by
  rw [setting?, h]
  cases o with
  | none => rfl
  | some a => simp [hread]

/-- The lines of a file, with the number of 64 bits that its temperature is read as. -/
def settings (c : Config) (temperature : Option Binary) : List Setting :=
  optional "provider" (quoted ∘ Provider.name) (.string ∘ Provider.name) (some c.provider) ++
    (optional "api_key" quoted .string c.apiKey ++ (optional "base_url" quoted .string c.baseUrl ++
      (optional "model" quoted .string c.model ++
        (optional "max_tokens" (fun n : UInt32 => Nat.toDigits 10 n.toNat) (fun n => .integer n.toNat) c.maxTokens ++
          optional "temperature" (Binary.text ∘ Binary.convert single) .float temperature))))

lemma render_eq {y : Option Binary} (hy : c.temperature = y.map (Binary.convert single)) :
    c.render = '[' :: "llm".toList ++ "]\n".toList ++ (settings c y).flatMap Setting.line := by
  have hline : line "temperature" (Binary.text ∘ Binary.convert single) y = line "temperature" Binary.text c.temperature := by
    rw [hy]
    cases y <;> rfl
  have hheader : "[llm]\n".toList = '[' :: "llm".toList ++ "]\n".toList := by simp
  unfold render
  simp only [settings, List.flatMap_append, flatMap_optional, hline, hheader, List.append_assoc]

lemma ofName?_name (p : Provider) : Provider.ofName? p.name = some p := by cases p <;> rfl

lemma tokens?_toNat (n : UInt32) : tokens? (.integer n.toNat) = some n := by
  have hrange : (0 : ℤ) ≤ n.toNat ∧ (n.toNat : ℤ).toNat < UInt32.size := ⟨by omega, n.toNat_lt⟩
  rw [tokens?, if_pos hrange, Int.toNat_natCast, UInt32.ofNat_toNat]

/-- **The table of the written settings** is read as these settings. -/
lemma ofTable?_settings {y : Option Binary} (hy : c.temperature = y.map (Binary.convert single)) :
    ofTable? ((settings c y).map Setting.entry) = some c := by
  obtain ⟨t, ht⟩ : ∃ t, t = (settings c y).map Setting.entry := ⟨_, rfl⟩
  have hlookup := fun k => congrArg (List.lookup k) ht
  simp only [settings, List.map_append, List.lookup_append, lookup_optional] at hlookup
  have hprovider : setting? provider? "provider" t = some ((some c.provider).map id) :=
    setting?_eq (.string ∘ Provider.name) (by simp [hlookup]) ofName?_name
  have hkey : setting? string? "api_key" t = some (c.apiKey.map id) :=
    setting?_eq .string (by simp [hlookup]) fun _ => rfl
  have hurl : setting? string? "base_url" t = some (c.baseUrl.map id) :=
    setting?_eq .string (by simp [hlookup]) fun _ => rfl
  have hmodel : setting? string? "model" t = some (c.model.map id) :=
    setting?_eq .string (by simp [hlookup]) fun _ => rfl
  have htokens : setting? tokens? "max_tokens" t = some (c.maxTokens.map id) :=
    setting?_eq (fun n : UInt32 => .integer n.toNat) (by simp [hlookup]) tokens?_toNat
  have htemperature : setting? temperature? "temperature" t = some (y.map (Binary.convert single)) :=
    setting?_eq .float (by simp [hlookup]) fun _ => rfl
  rw [← ht]
  simp only [ofTable?, hprovider, hkey, hurl, hmodel, htokens, htemperature, ← hy, Option.map_id]
  rfl

/-- **What is stored is read back.** -/
lemma read?_render (h : c.IsStorable) : read? c.render = some c := by
  obtain ⟨y, hy, htext⟩ : ∃ y : Option Binary, c.temperature = y.map (Binary.convert single) ∧
      ∀ b ∈ y, ∀ rest, value? maxDepth ((b.convert single).text ++ '\n' :: rest) = some (.float b, '\n' :: rest) := by
    cases hx : c.temperature with
    | none => exact ⟨none, rfl, nofun⟩
    | some x =>
      obtain ⟨y, hread, hconvert⟩ := exists_value?_text maxDepth (h x hx)
      refine ⟨some y, by rw [Option.map_some, hconvert], ?_⟩
      rintro b ⟨⟩
      rw [hconvert]
      exact hread
  have hread : ∀ s ∈ settings c y, s.IsRead := by
    simp only [settings, List.forall_mem_append]
    refine ⟨isRead_optional (by decide) ?_, isRead_optional (by decide) ?_, isRead_optional (by decide) ?_,
      isRead_optional (by decide) ?_, isRead_optional (by decide) ?_, isRead_optional (by decide) htext⟩
    · exact fun p _ => value?_quoted p.name
    · exact fun t _ => value?_quoted t
    · exact fun t _ => value?_quoted t
    · exact fun t _ => value?_quoted t
    · exact fun n _ => value?_toDigits n.toNat_lt
  have hkeys : ((settings c y).map Setting.key).Nodup := by
    have hsublist := (sublist_keys_optional "provider" (quoted ∘ Provider.name) (.string ∘ Provider.name)
      (some c.provider)).append ((sublist_keys_optional "api_key" quoted .string c.apiKey).append
        ((sublist_keys_optional "base_url" quoted .string c.baseUrl).append
          ((sublist_keys_optional "model" quoted .string c.model).append
            ((sublist_keys_optional "max_tokens" (fun n : UInt32 => Nat.toDigits 10 n.toNat) (fun n => .integer n.toNat)
              c.maxTokens).append (sublist_keys_optional "temperature" (Binary.text ∘ Binary.convert single) .float y)))))
    rw [settings]
    simp only [List.map_append]
    exact hsublist.nodup (by decide)
  rw [read?, render_eq hy, document?_settings (by decide) hread hkeys, Option.bind_some]
  exact ofTable?_settings hy

end DocBlocks.Config
