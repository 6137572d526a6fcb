import DocBlocks.CommandLine.Run
import DocBlocks.Proofs.Config.Stored

/-!
# The model command

What a model that is stored changes: the model, and nothing else.

## Main results

* `CommandLine.runOn_model_kept`: **the other settings and the other files are kept.**
-/

namespace DocBlocks

open Entry

/-- **The model command works on what is stored.** The settings that the environment changes are
loaded before it, but it does not look at them. -/
lemma CommandLine.runOn_model_eq (named : Option Text) (name : Text) (e : Environment) (disk : Entry)
    (answers : List Http.Answer) (refusals : List (Option Disk.Fault)) (closed : List (Place × Disk.Fault)) :
    CommandLine.runOn ⟨named, .model name⟩ e disk answers refusals closed =
      match Command.storeModel named name
        { disk := disk, answers := answers, decisions := none, refusals := refusals, closed := closed } with
      | (.ok text, s) => (⟨text, [], none⟩, s)
      | (.error error, s) => (⟨[], [], some error⟩, s) := by
  rw [CommandLine.runOn, Command.storeModel, Config.forRun]
  simp only [Command.run, Command.storeModel, Config.loadIfThere_destination]
  cases Config.stored disk named with
  | error f => rfl
  | ok c =>
    simp only [Except.map, Session.refusal]
    cases Config.store { c with model := some name } disk (Config.destination disk named) (refusals.headD none) <;> rfl

/-- **The model command changes the model and nothing else.** When it succeeds, a run without an
environment reads the settings that it read before, but for the model; the disk is the one before
but for the file of these settings, which may be new. When it fails, also because the system refuses
the write, the disk is the one before; so it does when the settings cannot be loaded. In no case
does anything depend on the environment.

**Proof sketch.** The settings are loaded from the file that a run looks into, and written back to
it or to the first file that a run will find. What is written is read back, and what was read before
could be stored. -/
theorem CommandLine.runOn_model_kept (named : Option Text) (name : Text) (e : Environment) (disk : Entry)
    (answers : List Http.Answer) (refusals : List (Option Disk.Fault)) (closed : List (Place × Disk.Fault)) :
    let r := CommandLine.runOn ⟨named, .model name⟩ e disk answers refusals closed
    (r.1.error = none → ∃ c, Config.forRun disk named {} = .ok c ∧
        Config.forRun r.2.disk named {} = .ok { c with model := some name } ∧
        AddedAt (Disk.placeOf (Config.destination disk named)) ({ c with model := some name } : Config).render disk r.2.disk) ∧
      (r.1.error ≠ none → r.2.disk = disk) ∧
      (∀ f, Config.forRun disk named {} = .error f → r.1.error = some (.failed f)) ∧
      ∀ e', CommandLine.runOn ⟨named, .model name⟩ e' disk answers refusals closed = r := by
  intro r
  have hr : r = _ := CommandLine.runOn_model_eq named name e disk answers refusals closed
  have hsame := fun e' => (CommandLine.runOn_model_eq named name e' disk answers refusals closed).trans hr.symm
  simp only [Config.forRun_default]
  simp only [Command.storeModel, Config.loadIfThere_destination] at hr
  cases hstored : Config.stored disk named with
  | error f =>
    simp only [hstored] at hr
    refine ⟨fun h => ?_, fun _ => by rw [hr], ?_, hsame⟩
    · rw [hr] at h
      cases h
    · rintro f ⟨⟩
      rw [hr]
  | ok c =>
    simp only [hstored] at hr
    cases hstore : Config.store { c with model := some name } disk (Config.destination disk named)
        (refusals.headD none) with
    | error f =>
      simp only [Session.refusal, hstore] at hr
      refine ⟨fun h => ?_, fun _ => by rw [hr], nofun, hsame⟩
      rw [hr] at h
      cases h
    | ok after =>
      simp only [Session.refusal, hstore] at hr
      have hstorable := Config.isStorable_of_stored hstored
      obtain ⟨hread, hadded⟩ := Config.stored_of_store (c := { c with model := some name }) hstorable hstore
      refine ⟨fun _ => ⟨c, rfl, ?_, ?_⟩, fun h => absurd (by rw [hr]) h, nofun, hsame⟩
      · rw [hr]
        exact hread
      · rw [hr]
        exact hadded

/-- Settings in a file with the name of a provider that is spelled another way, a temperature that
is no binary number, and a setting that only the environment has. -/
theorem CommandLine.runOn_model_kept_alias :
    let disk : Entry := .folder [(".annotator.toml".toList, .file (.text
      "[llm]\nprovider = \"ollama\"\ntemperature = 0.7\n".toList))]
    let r := CommandLine.runOn ⟨none, .model "tiny".toList⟩ { apiKey := some "key".toList } disk [] [] []
    r.1.error = none ∧ ∃ c, Config.forRun disk none {} = .ok c ∧
      Config.forRun r.2.disk none {} = .ok { c with model := some "tiny".toList } := by
  intro disk r
  have herror : r.1.error = none := by decide +kernel
  obtain ⟨c, hbefore, hafter, -⟩ :=
    (CommandLine.runOn_model_kept none "tiny".toList { apiKey := some "key".toList } disk [] [] []).1 herror
  exact ⟨herror, c, hbefore, hafter⟩

end DocBlocks
