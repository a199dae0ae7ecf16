import EvmAtlas.Command.Basic
import EvmAtlas.Proofs.Committing
import EvmAtlas.Proofs.Scripts

/-!
# What a run saves

A run makes its call on an overlay of a state set. If the call returns, the overlay is committed
to the set and the set is written to a file, and nothing is written if not. That holds for any file
system and for any way to read a settings file.
-/

namespace EvmAtlas

namespace Command

variable {φ : Type} {system : FileSystem φ} {time : UInt64} {files : φ} {read : SettingsReader}
variable {options : RunOptions} {settings : Settings} {set : StateSet} {input : Bytes}

theorem runOn_save (path : String) (records : Records) :
    let text := (records.writes.foldl StateSet.write set).toJson.indentedText
    runOn system time (save path (set, records)) files =
      ((opened path (system.write files path text).1).mapError
        (·.within (.during "writing state set")), (system.write files path text).2) := by
  have committed : Overlay.commit .second (StateSet.writer .first) (set, records) =
      (.ok (), records.writes.foldl StateSet.write set, {}) := by
    unfold Overlay.commit
    rw [StateSet.performAll_writer]
    rfl
  unfold save
  rw [committed]
  dsimp only
  rw [runOn_bind, runOn_ofExcept]
  dsimp only
  rw [runOn_within, runOn_writeFile]

/-- Options that ask for a run on the state set of a file, without a node, and to save what the
run leaves. -/
structure SavesRun (system : FileSystem φ) (time : UInt64) (files : φ) (read : SettingsReader)
    (options : RunOptions) (settings : Settings) (set : StateSet) (input : Bytes) : Prop where
  settings_read : (runOn system time (Command.settings read options.configFile) files).1 =
    .ok settings
  no_node : options.node?.getD settings.node = ""
  set_named : options.stateFile?.getD settings.stateFile ≠ ""
  set_read : ∃ content,
    system.read files (options.stateFile?.getD settings.stateFile) = .ok content ∧
      StateSet.ofBytes content = .ok set
  input_read : HexInput.read options.input = .ok input
  out_named : options.save ≠ ""

/-- The code that the options of a run give, if it can be had. -/
def givenCode? (system : FileSystem φ) (time : UInt64) (files : φ) (options : RunOptions) :
    Option Bytes :=
  (runOn system time (code options.toCodeOptions) files).1.toOption

/-- The writes that a run notes before its call. -/
def givenWrites (system : FileSystem φ) (time : UInt64) (files : φ) (options : RunOptions) :
    List Write :=
  ((givenCode? system time files options).map (Write.code (callee options))).toList

/-- The call of a run on a state set itself, with a record of what it stores. -/
def plainCall (config : MachineConfig) (options : RunOptions) (input : Bytes) (set : StateSet) :
    Verdict × StateSet × List Write :=
  evaluate (StateSet.chain .whole).recorded none
    (some { origin := (requestedCall options input).sender }) (requestedCall options input)
    (some config) manySteps (set, [])

/-- Whatever a run has noted before, it reads its input and makes its call. -/
theorem runOn_makeCall {config : MachineConfig} {base : Chain CallState} (records : Records)
    (input_read : HexInput.read options.input = .ok input) :
    runOn system time (do
      let records ← pure records
      let input ← within (ofExcept (HexInput.read options.input)) "input"
      makeCall config options base (set, records) input) files =
        runOn system time (makeCall config options base (set, records) input) files := by
  have given : runOn system time (ofExcept (HexInput.read options.input)) files =
      (.ok input, files) := by
    rw [runOn_ofExcept, input_read]
  rw [runOn_bind_of_ok (runOn_pure records), runOn_bind_of_ok (runOn_within_of_ok given _)]

theorem SavesRun.runOn_runCall
    (saves : SavesRun system time files read options settings set input) :
    runOn system time (runCall read options) files =
      runOn system time (makeCall settings.machine options (StateSet.chain .first)
        (set, (givenWrites system time files options).foldl Records.note {}) input) files := by
  obtain ⟨content, content_read, decoded⟩ := saves.set_read
  have opened : runOn system time (openChain { settings with
      node := options.node?.getD settings.node
      stateFile := options.stateFile?.getD settings.stateFile }) files =
        (.ok (StateSet.chain .first, set), files) :=
    runOn_openChain saves.no_node saves.set_named content_read decoded
  have named : (options.stateFile?.getD settings.stateFile).isEmpty = false := by
    simpa using saves.set_named
  rw [runCall,
    runOn_bind_of_ok ((readsOnly_settings read options.configFile).runOn_eq saves.settings_read)]
  dsimp only
  rw [runOn_bind_of_ok opened, runOn_bind, runOn_outcome, readsOnly_code]
  dsimp only
  unfold givenWrites givenCode?
  cases (runOn system time (code options.toCodeOptions) files).1 with
  | ok code => exact runOn_makeCall _ saves.input_read
  | error fault =>
      rw [named]
      exact runOn_makeCall _ saves.input_read

theorem makeCall_eq {config : MachineConfig} {base : Chain CallState} {state after : CallState}
    {verdict : Verdict}
    (ran : evaluate (Overlay.chain .second base) none
      (some { origin := (requestedCall options input).sender }) (requestedCall options input)
      (some config) manySteps state = (verdict, after)) :
    makeCall config options base state input = conclude config options.save verdict after := by
  unfold makeCall
  dsimp only
  rw [ran]

/-- A run goes on with the verdict of the call on the state set itself, and with an overlay that
holds the given code and what the call stores. -/
theorem SavesRun.exists_conclude
    (saves : SavesRun system time files read options settings set input) :
    ∃ verdict copy stored kept,
      plainCall settings.machine options input
          ((givenWrites system time files options).foldl StateSet.write set) =
        (verdict, copy, stored) ∧
      runOn system time (runCall read options) files =
        runOn system time (conclude settings.machine options.save verdict (set, kept)) files ∧
      ∀ question, kept.find? question =
        lastWritten? question (givenWrites system time files options ++ stored) := by
  obtain ⟨verdict, kept, copy, stored, overlaid, plain, kept_eq⟩ := evaluate_overlay set
    (Records.find?_foldl_note (givenWrites system time files options))
    (some { origin := (requestedCall options input).sender }) (requestedCall options input)
    (some settings.machine) manySteps
  refine ⟨verdict, copy, stored, kept, plain, ?_, kept_eq⟩
  rw [saves.runOn_runCall, makeCall_eq overlaid]

theorem runOn_conclude {out : String} (named : out ≠ "") (config : MachineConfig)
    {result : CallResult} (returned : result.reverted = false) (state : CallState) :
    runOn system time (conclude config out (.completed result) state) files =
      runOn system time (save out state) files := by
  have saved : (!out.isEmpty && !result.reverted) = true := by
    simp [named, returned]
  rw [conclude, completed, runOn_bind, runOn_pure]
  dsimp only
  rw [runOn_bind, runOn_print, if_pos saved]

theorem readsOnly_conclude (config : MachineConfig) (path : String) {verdict : Verdict}
    (unsaved : ∀ result, verdict = .completed result → result.reverted = true)
    (state : CallState) : ReadsOnly (conclude config path verdict state) := by
  cases verdict with
  | completed result =>
      have skipped : ¬ (!path.isEmpty && !result.reverted) = true := by
        simp [unsaved result rfl]
      intro φ system time files
      rw [conclude, completed, runOn_bind, runOn_pure]
      dsimp only
      rw [runOn_bind, runOn_print, if_neg skipped]
      rfl
  | failed | crashed | unfinished => exact fun _ _ _ _ => rfl

end Command

/-- A run writes exactly the effects of a call that returned. Whatever a run does on the state
set of a file, without a node, it touches no file but the one to save in. If the call fails or
reverts, nothing is written. If it returns, what is saved is read as the state set with the
given code, if any, and with what the call stored there. It is saved unless the file cannot
be written, and then the run fails. -/
theorem run_saves_effects {φ : Type} {system : FileSystem φ} {time : UInt64} {files : φ}
    {read : SettingsReader} {options : RunOptions} {settings : Settings} {set : StateSet}
    {input : Bytes} {paths : String → Prop}
    (saves : Command.SavesRun system time files read options settings set input)
    (outFile : system.FileAt files options.save paths) :
    let call := Command.requestedCall options input
    let code? := Command.givenCode? system time files options
    let start := code?.elim set (set.setCode call.address)
    let ran := Command.plainCall settings.machine options input start
    let stored := ran.2.2
    let done := Command.runOn system time (Command.runCall read options) files
    (∀ path, ¬ paths path → ∀ content,
      system.read done.2 path = .ok content ↔ system.read files path = .ok content) ∧
    ((∀ result, ran.1 = .completed result → result.reverted = true) → done.2 = files) ∧
    ∀ result, ran.1 = .completed result → result.reverted = false →
      ∃ text saved, StateSet.ofBytes text.toUTF8 = .ok saved ∧
        saved.Same (stored.foldl StateSet.write start) ∧
        set.HasEffects call.address code? stored saved ∧
        done.2 = (system.write files options.save text).2 ∧
        match (system.write files options.save text).1 with
        | .ok () => done.1 = .ok () ∧ ∀ path, paths path → system.read done.2 path = .ok text.toUTF8
        | .error _ => ∃ fault, done.1 = .error fault := by
  intro call code? start ran stored done
  have start_eq : (Command.givenWrites system time files options).foldl StateSet.write set =
      start := by
    dsimp only [start, code?, Command.givenWrites]
    cases Command.givenCode? system time files options with
    | none => rfl
    | some code => rfl
  obtain ⟨verdict, copy, issued, kept, ran_eq, done_eq, kept_eq⟩ := saves.exists_conclude
  rw [start_eq] at ran_eq
  have stores := storesAt_of_evaluate ran_eq
  have stored_eq : stored = issued := congrArg (·.2.2) ran_eq
  replace ran_eq : ran = (verdict, copy, issued) := ran_eq
  replace done_eq : done = Command.runOn system time
      (Command.conclude settings.machine options.save verdict (set, kept)) files := done_eq
  clear_value done stored ran
  subst done_eq ran_eq stored_eq
  dsimp only
  by_cases unsaved : ∀ result, verdict = .completed result → result.reverted = true
  · have untouched : (Command.runOn system time
        (Command.conclude settings.machine options.save verdict (set, kept)) files).2 = files :=
      Command.readsOnly_conclude settings.machine options.save unsaved (set, kept) φ system time
        files
    rw [untouched]
    refine ⟨fun path _ content => Iff.rfl, fun _ => rfl, ?_⟩
    intro result completed returned
    rw [unsaved result completed] at returned
    cases returned
  · obtain ⟨result, completed, returned⟩ := by simpa only [not_forall] using unsaved
    rw [Bool.not_eq_true] at returned
    subst completed
    obtain ⟨saved, decoded, same⟩ := StateSet.exists_saved set kept_eq
    have built : saved.Same (stored.foldl StateSet.write start) := by
      rwa [List.foldl_append, start_eq] at same
    rw [Command.runOn_conclude saves.out_named settings.machine returned, Command.runOn_save]
    generalize (kept.writes.foldl StateSet.write set).toJson.indentedText = text at decoded ⊢
    refine ⟨fun path apart => outFile.read_other text path apart,
      fun reverts => (unsaved reverts).elim, ?_⟩
    intro _ _ _
    refine ⟨text, saved, (StateSet.ofBytes_toUTF8 text).trans decoded, built,
      same.hasEffects stores, rfl, ?_⟩
    rcases written : system.write files options.save text with ⟨reason | _, after⟩
    · exact ⟨_, rfl⟩
    · exact ⟨rfl, outFile.read_written text after written⟩

/-- A directory with a state set without accounts. -/
def plainDirectory : Directory where
  files := [("in.json", ({} : StateSet).toJson.indentedText)]

/-- The options of a run on that state set, of code that stores a word. -/
def storingOptions : RunOptions where
  code? := some "602a60015500"
  stateFile? := some "in.json"
  save := "out.json"

theorem storingOptions_save :
    Command.SavesRun Directory.system 0 plainDirectory Settings.ofBytes storingOptions {} {}
      ByteArray.empty where
  settings_read := rfl
  no_node := rfl
  set_named := by decide
  set_read := by
    have written : ({} : StateSet).toJson.indentedText ∈ ({} : StateSet).texts := by
      simp [StateSet.texts]
    refine ⟨({} : StateSet).toJson.indentedText.toUTF8, ?_, ?_⟩
    · decide +kernel
    · rw [StateSet.ofBytes_toUTF8]
      exact StateSet.ofText_texts written
  input_read := by decide +kernel
  out_named := by decide

/-- The word and the code are in the file that is written, and the other file is untouched. -/
theorem storingOptions_saves_effects :
    ∃ after content saved,
      Command.runOn Directory.system 0 (Command.runCall Settings.ofBytes storingOptions)
        plainDirectory = (.ok (), after) ∧
      Directory.system.read after "./in.json" = Directory.system.read plainDirectory "in.json" ∧
      Directory.system.read after "./out.json" = .ok content ∧
      StateSet.ofBytes content = .ok saved ∧
      (saved.account 0xca).code = Bytes.ofList [0x60, 0x2a, 0x60, 0x01, 0x55, 0x00] ∧
      saved.storageAt 0xca 1 = 42 := by
  have given : Command.givenCode? Directory.system 0 plainDirectory storingOptions =
      some (Bytes.ofList [0x60, 0x2a, 0x60, 0x01, 0x55, 0x00]) := by
    decide +kernel
  obtain ⟨untouched, -, written⟩ := run_saves_effects storingOptions_save
    (plainDirectory.fileAt storingOptions.save)
  rw [given, Option.elim_some] at written
  have called : (Command.plainCall {} storingOptions ByteArray.empty
      (({} : StateSet).setCode (Command.callee storingOptions)
        (Bytes.ofList [0x60, 0x2a, 0x60, 0x01, 0x55, 0x00]))).1.result?.any (!·.reverted) =
          true := by
    decide +kernel
  have stored : lastStored? 0xca 1 (Command.plainCall {} storingOptions ByteArray.empty
      (({} : StateSet).setCode (Command.callee storingOptions)
        (Bytes.ofList [0x60, 0x2a, 0x60, 0x01, 0x55, 0x00]))).2.2 = some 42 := by
    decide +kernel
  obtain ⟨result, completed, returned⟩ := Verdict.exists_completed called
  obtain ⟨text, saved, decoded, -, effects, after_eq, outcome⟩ :=
    written result completed (by simpa using returned)
  obtain ⟨changed, accepted⟩ : ∃ changed, plainDirectory.write storingOptions.save text =
      .ok changed := by
    apply Directory.exists_write
    · decide
    · decide
    · decide
  have wrote : Directory.system.write plainDirectory storingOptions.save text =
      (.ok (), changed) := by
    simp only [Directory.system, accepted]
  rw [wrote] at after_eq outcome
  obtain ⟨succeeds, reads⟩ := outcome
  have held : Directory.system.read plainDirectory "./in.json" =
      .ok ({} : StateSet).toJson.indentedText.toUTF8 := by
    decide +kernel
  refine ⟨changed, text.toUTF8, saved, Prod.ext succeeds after_eq, ?_, ?_, decoded,
    effects.code_eq, ?_⟩
  · rw [after_eq] at untouched
    rw [(untouched "./in.json" (by decide) _).mpr held]
    decide +kernel
  · rw [after_eq] at reads
    exact reads "./out.json" (by decide)
  · exact (effects.storage_eq 1).trans (congrArg (fun word : Option Word => word.getD 0) stored)

end EvmAtlas
