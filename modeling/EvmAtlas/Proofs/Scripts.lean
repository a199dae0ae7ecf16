import EvmAtlas.Command.Actions
import EvmAtlas.Proofs.HexGrammar

/-!
# What commands do to files

`Command.runOn` is what a command does on a file system, without what it prints. It goes through the
steps of a command one by one, up to the first that fails. Commands that only read leave the files
as they are.

What a write does is up to the file system. `FileSystem.FileAt` says what is relied on: a write to a
path reaches one file, by whatever path it is read later, and no other.
-/

namespace EvmAtlas

/-! ## Text in files -/

namespace Bytes

theorem charsFrom_eq_drop (inner : Nat) (bytes : List UInt8) :
    charsFrom inner bytes = charsFrom 0 (bytes.drop inner) := by
  induction inner generalizing bytes with
  | zero => rfl
  | succ inner ih =>
      cases bytes with
      | nil => rfl
      | cons byte rest => exact ih rest

theorem charsFrom_encode (chars : List Char) : charsFrom 0 (HexInput.encode chars) = chars := by
  induction chars with
  | nil => rfl
  | cons char chars ih =>
      have leads := HexInput.leading?_append char (HexInput.encode chars)
      have size := String.length_utf8EncodeChar char
      rw [HexInput.encode, List.flatMap_cons]
      rw [HexInput.encode] at leads ih
      cases encoded : String.utf8EncodeChar char with
      | nil => exact absurd encoded String.utf8EncodeChar_ne_nil
      | cons byte more =>
          rw [encoded] at leads size
          rw [List.cons_append] at leads ⊢
          simp only [charsFrom, leads]
          rw [charsFrom_eq_drop, ← size, List.length_cons, Nat.add_sub_cancel, List.drop_left, ih]

theorem asText_toUTF8 (text : String) : asText text.toUTF8 = text := by
  rw [asText, HexInput.toList_toUTF8, charsFrom_encode, String.ofList_toList]

end Bytes

theorem StateSet.ofBytes_toUTF8 (text : String) : ofBytes text.toUTF8 = ofText text := by
  rw [ofBytes, Bytes.asText_toUTF8]

/-! ## Files and their paths -/

/-- A path at which there is a file, or room for one, with all paths of this file. -/
structure FileSystem.FileAt {φ : Type} (system : FileSystem φ) (files : φ) (path : String)
    (paths : String → Prop) : Prop where
  self : paths path
  read_written (text : String) (after : φ)
    (written : system.write files path text = (.ok (), after))
    (other : String) (same : paths other) : system.read after other = .ok text.toUTF8
  /-- Other files keep their content, even if the text was not written. -/
  read_other (text other : String) (apart : ¬ paths other) (content : Bytes) :
    system.read (system.write files path text).2 other = .ok content ↔
      system.read files other = .ok content

theorem not_mem_of_mem_splitOn {separator : Char} {chars part : List Char}
    (member : part ∈ chars.splitOn separator) : separator ∉ part := by
  induction chars generalizing part with
  | nil =>
      rw [List.splitOn_nil, List.mem_singleton] at member
      rw [member]
      exact List.not_mem_nil
  | cons first rest ih =>
      rw [List.splitOn_cons_eq_if_modifyHead] at member
      split at member
      · rcases List.mem_cons.mp member with rfl | member
        · exact List.not_mem_nil
        · exact ih member
      · next apart =>
          generalize split : rest.splitOn separator = parts at member ih
          cases parts with
          | nil => cases member
          | cons head tail =>
              rcases List.mem_cons.mp member with rfl | member
              · intro inside
                rcases List.mem_cons.mp inside with rfl | inside
                · exact apart (beq_self_eq_true _)
                · exact ih List.mem_cons_self inside
              · exact ih (List.mem_cons_of_mem head member)

namespace Directory

variable {directory after : Directory} {path content : String}

/-- The parts of a path, with nothing else between them, have the same parts. -/
theorem parts_intercalate (path : String) :
    parts (String.intercalate "/" (parts path)) = parts path := by
  have plain : ∀ chars ∈ (parts path).map String.toList, '/' ∉ chars := by
    intro chars member
    obtain ⟨part, counts, rfl⟩ := List.mem_map.mp member
    obtain ⟨source, split, rfl⟩ := List.mem_map.mp (List.mem_filter.mp counts).1
    rw [String.toList_ofList]
    exact not_mem_of_mem_splitOn split
  have again : ∀ part ∈ parts path, (!part.isEmpty && part != ".") = true := by
    intro part counts
    exact (List.mem_filter.mp counts).2
  generalize parts path = place at plain again
  rw [parts, String.toList_intercalate]
  cases place with
  | nil => rfl
  | cons first rest =>
      have separated : "/".toList = ['/'] := rfl
      rw [separated, List.splitOn_intercalate '/' plain (List.cons_ne_nil _ _), List.map_map]
      have same : String.ofList ∘ String.toList = id := by
        funext part
        exact String.ofList_toList
      rw [same, List.map_id, List.filter_eq_self.mpr again]

/-- A file can be written in a folder that is there, unless a folder is in its place. -/
theorem exists_write (named : path.isEmpty = false)
    (folder : directory.holds (parts path).dropLast = true)
    (free : directory.holds (parts path) = false) (content : String) :
    ∃ changed, directory.write path content = .ok changed := by
  unfold write
  dsimp only
  rw [named, folder, free]
  exact ⟨_, rfl⟩

/-- After a file was written, its path in any spelling reads as what was written, and any
other path as before. -/
theorem read_of_write (written : directory.write path content = .ok after) (other : String) :
    after.read other =
      if parts other = parts path then .ok content else directory.read other := by
  unfold write at written
  dsimp only at written
  split at written
  · cases written
  · split at written
    · cases written
    · cases written
      rw [read, List.find?_append, List.find?_filter, List.find?_singleton, parts_intercalate]
      by_cases same : parts other = parts path
      · have replaced : directory.files.find? (fun file => decide
            ((parts file.1 != parts path) = true ∧ (parts file.1 == parts other) = true)) =
              none := by
          rw [List.find?_eq_none, same]
          simp
        rw [replaced, if_pos same]
        simp [same]
      · have kept : (fun file : String × String => decide
            ((parts file.1 != parts path) = true ∧ (parts file.1 == parts other) = true)) =
              fun file => parts file.1 == parts other := by
          funext file
          by_cases found : parts file.1 = parts other
          · simp [found, same]
          · simp [found]
        rw [kept, if_neg same, read]
        simp [Ne.symm same]

theorem fileAt (directory : Directory) (path : String) :
    system.FileAt directory path fun other => parts other = parts path where
  self := rfl
  read_written text after written other same := by
    dsimp only [system] at written ⊢
    split at written
    · next changed accepted =>
        cases written
        rw [read_of_write accepted, if_pos same]
        rfl
    · cases written
  read_other text other apart content := by
    dsimp only [system]
    split
    · next changed accepted => rw [read_of_write accepted, if_neg apart]
    · rfl

end Directory

/-- A script that goes on after another one starts with what the other one has left. -/
theorem Script.runOn_bind {φ α β : Type} (system : FileSystem φ) (time : UInt64)
    (script : Script α) (rest : α → Script β) (files : φ) :
    (script >>= rest).runOn system time files =
      let (answer, between, output) := script.runOn system time files
      let (final, after, more) := (rest answer).runOn system time between
      (final, after, output ++ more) := by
  change (script.bind rest).runOn system time files = _
  induction script generalizing files with
  | done answer => simp [Script.bind, Script.runOn]
  | readFile path next ih => exact ih _ files
  | writeFile path content next ih => exact ih _ _
  | print text next ih =>
      rw [Script.bind, Script.runOn, ih, Script.runOn]
      simp [String.append_assoc]
  | now next ih => exact ih time files

namespace Command

variable {φ α β : Type} {system : FileSystem φ} {time : UInt64} {files : φ}

/-- The outcome of a command, and the files afterwards. -/
def runOn (system : FileSystem φ) (time : UInt64) (command : Command α) (files : φ) :
    Except Fault α × φ :=
  ((command.script.runOn system time files).1, (command.script.runOn system time files).2.1)

theorem runOn_pure (answer : α) :
    runOn system time (pure answer : Command α) files = (.ok answer, files) :=
  rfl

theorem runOn_ofExcept (outcome : Except Fault α) :
    runOn system time (ofExcept outcome : Command α) files = (outcome, files) := by
  cases outcome with
  | ok answer => rfl
  | error fault => rfl

theorem runOn_readFile (path : String) :
    runOn system time (readFile path) files = (opened path (system.read files path), files) :=
  rfl

theorem runOn_writeFile (path content : String) :
    runOn system time (writeFile path content) files =
      (opened path (system.write files path content).1, (system.write files path content).2) :=
  rfl

theorem runOn_print (text : String) :
    runOn system time (print text) files = (.ok (), files) :=
  rfl

/-- A command that goes on with the outcome of another one, which may be a fault. -/
theorem runOn_script_bind (command : Command α)
    (rest : Except Fault α → Script (Except Fault β)) :
    runOn system time (ExceptT.mk (command.script >>= rest)) files =
      runOn system time (ExceptT.mk (rest (runOn system time command files).1))
        (runOn system time command files).2 := by
  change (((command.script >>= rest).runOn system time files).1,
    ((command.script >>= rest).runOn system time files).2.1) = _
  rw [Script.runOn_bind]
  rfl

theorem runOn_bind (command : Command α) (next : α → Command β) :
    runOn system time (command >>= next) files =
      match runOn system time command files with
      | (.ok answer, after) => runOn system time (next answer) after
      | (.error fault, after) => (.error fault, after) := by
  refine (runOn_script_bind command (ExceptT.bindCont next)).trans ?_
  generalize runOn system time command files = ran
  obtain ⟨outcome, after⟩ := ran
  cases outcome with
  | ok answer => rfl
  | error fault => rfl

theorem runOn_bind_of_ok {command : Command α} {answer : α} {after : φ}
    (ran : runOn system time command files = (.ok answer, after)) (next : α → Command β) :
    runOn system time (command >>= next) files = runOn system time (next answer) after := by
  rw [runOn_bind, ran]

theorem runOn_within (command : Command α) (text : String) :
    runOn system time (within command text) files =
      ((runOn system time command files).1.mapError (·.within (.during text)),
        (runOn system time command files).2) := by
  refine (runOn_script_bind command _).trans ?_
  generalize runOn system time command files = ran
  obtain ⟨outcome, after⟩ := ran
  cases outcome with
  | ok answer => rfl
  | error fault => rfl

theorem runOn_within_of_ok {command : Command α} {answer : α} {after : φ}
    (ran : runOn system time command files = (.ok answer, after)) (text : String) :
    runOn system time (within command text) files = (.ok answer, after) := by
  rw [runOn_within, ran]
  rfl

theorem runOn_outcome (command : Command α) :
    runOn system time (outcome command) files =
      (.ok (runOn system time command files).1, (runOn system time command files).2) :=
  runOn_script_bind command _

/-! ## Commands that only read -/

/-- A command that leaves all files as they are. -/
def ReadsOnly (command : Command α) : Prop :=
  ∀ (φ : Type) (system : FileSystem φ) (time : UInt64) (files : φ),
    (runOn system time command files).2 = files

namespace ReadsOnly

theorem bind {command : Command α} {next : α → Command β} (first : ReadsOnly command)
    (rest : ∀ answer, ReadsOnly (next answer)) : ReadsOnly (command >>= next) := by
  intro φ system time files
  have kept := first φ system time files
  rw [runOn_bind]
  generalize runOn system time command files = ran at kept
  obtain ⟨outcome, after⟩ := ran
  cases kept
  cases outcome with
  | ok answer => exact rest answer φ system time after
  | error fault => rfl

theorem ofExcept (outcome : Except Fault α) : ReadsOnly (ofExcept outcome) := by
  intro φ system time files
  rw [runOn_ofExcept]

/-- What such a command does, by its outcome. -/
theorem runOn_eq {command : Command α} (reads : ReadsOnly command) {outcome : Except Fault α}
    (ran : (runOn system time command files).1 = outcome) :
    runOn system time command files = (outcome, files) :=
  Prod.ext ran (reads φ system time files)

end ReadsOnly

theorem readsOnly_settings (read : SettingsReader) (file : String) :
    ReadsOnly (settings read file) := by
  unfold settings
  split
  · exact fun _ _ _ _ => rfl
  · exact ReadsOnly.bind (fun _ _ _ _ => rfl) fun _ => .ofExcept _

theorem readsOnly_codeFile (path : String) : ReadsOnly (codeFile path) :=
  ReadsOnly.bind (fun _ _ _ _ => rfl) fun _ => .ofExcept _

theorem readsOnly_code (options : CodeOptions) : ReadsOnly (code options) := by
  unfold code
  split
  · exact .ofExcept _
  · exact readsOnly_codeFile _
  · exact readsOnly_codeFile _
  · exact fun _ _ _ _ => rfl

theorem runOn_openChain {settings : Settings} {content : Bytes} {set : StateSet}
    (no_node : settings.node = "") (named : settings.stateFile ≠ "")
    (read : system.read files settings.stateFile = .ok content)
    (decoded : StateSet.ofBytes content = .ok set) :
    runOn system time (openChain settings) files =
      (.ok (StateSet.chain .first, set), files) := by
  have named : settings.stateFile.isEmpty = false := by simpa using named
  have no_node : settings.node.isEmpty = true := by simpa using no_node
  have file_read : runOn system time (readFile settings.stateFile) files =
      (.ok content, files) := by
    rw [runOn_readFile, read]
    rfl
  have set_read : runOn system time (ofExcept (StateSet.ofBytes content)) files =
      (.ok set, files) := by
    rw [runOn_ofExcept, decoded]
  simp only [openChain, no_node, named, Bool.not_true, Bool.false_eq_true, if_false]
  rw [runOn_bind_of_ok (runOn_within_of_ok file_read _),
    runOn_bind_of_ok (runOn_within_of_ok set_read _), runOn_pure]

end Command

end EvmAtlas
