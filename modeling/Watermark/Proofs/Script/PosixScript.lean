import Watermark.Proofs.Command.Arguments
import Watermark.Proofs.Script.Path
import Watermark.Proofs.Script.ShellWords
import Watermark.Proofs.Settings.Sanitized

/-!
# What a shell script says

The lines of a script for a shell are read as the edit means them, whatever characters its folders and the image
hold: the output folder is one literal word, the files of the loop are the input folder with one glob behind it, and
the command for the file at hand splits into exactly its words (`posix_script_reads`). Every folder stands in quotes
and is escaped, and outside quotes there are only fixed words, numbers and the extension.
-/

namespace Watermark

open Shell

/-! ## Arguments -/

/-- An argument as a shell reads it: what has quotes stands for itself. -/
def Argument.shellWord (input output : Text) : Argument → Word
  | word t => Shell.bare t
  | bare t => Shell.bare t
  | quoted s => literal (s.render id input output)

theorem Argument.text_shellWord (input output : Text) (a : Argument) :
    (a.shellWord input output).text = a.value input output := by
  cases a with
  | word t => exact Word.text_bare t
  | bare t => exact Word.text_bare t
  | quoted s => exact Word.text_literal _

theorem Shell.Word.globs_bare_of_isWordChar {t : Text} (h : t.All Text.isWordChar) :
    (Shell.bare t).globs = [] := by
  rw [globs_bare, List.filter_eq_nil_iff]
  intro c hc hglob
  have hword := h c hc
  simp only [isGlob, Bool.or_eq_true, beq_iff_eq] at hglob
  rcases hglob with (rfl | rfl) | rfl <;> exact absurd hword (by decide)

/-- Outside quotes stands no glob. -/
theorem Argument.Expected.globs_shellWord {image : Text} {a : Argument} (h : a.Expected image)
    (input output : Text) : (a.shellWord input output).globs = [] := by
  cases h with
  | fixed a h =>
    cases h with
    | word t _ ht => exact Word.globs_bare_of_isWordChar ht
    | bare t _ ht => exact Word.globs_bare_of_isWordChar ht
    | quoted t _ => exact Word.globs_literal _
  | input => exact Word.globs_literal _
  | output => exact Word.globs_literal _
  | image => exact Word.globs_literal _

theorem Text.isOrdinary_of_isWordChar (c : Char) : isWordChar c = true → isOrdinary c = true := by
  refine of_isAlphanumOr (fun c h => ?_) (by decide)
  have hspecial : All (fun d => !d.isAlphanum) (' ' :: '\t' :: ';' :: '"' :: activeChars) := by decide
  have hc := hspecial.not_mem (c := c) (by rw [h]; rfl)
  simp only [List.mem_cons, not_or] at hc
  obtain ⟨hblank, htab, hsemicolon, hquote, hactive⟩ := hc
  simp [isOrdinary, isActive, hblank, htab, hsemicolon, hquote, hactive]

namespace Dialect

variable {env : Text → Text}

theorem closes_currentFile : Closes env posix.currentFile (literal (env "f".toList)) :=
  Closes.reference (n := "f".toList) (by decide)

/-- The path of the output file, where the folder is not trimmed yet. -/
theorem closes_outputFile {s : Settings} (h : s.inputFolder ≠ []) :
    Closes env (posix.outputFile (.ofSettings .posix s))
      (literal ((posix.join s.inputFolder s.outputFolder).dropTrailing posix.isSeparator
        ++ '/' :: (env "base".toList ++ '.' :: s.extension))) := by
  rw [outputFile_ofSettings h]
  generalize (posix.join s.inputFolder s.outputFolder).dropTrailing posix.isSeparator = folder
  have hextension : Closes env ('.' :: posix.escape s.extension) (literal ('.' :: s.extension)) :=
    Closes.escape ('.' :: s.extension)
  have hbase := Closes.reference_append (n := "base".toList) (by decide) (by decide) hextension
  have hfolder := Closes.escape_append (folder ++ ['/']) hbase
  rw [← literal_append, ← literal_append] at hfolder
  have htext : posix.escape folder ++ posix.separator :: (posix.currentBase ++ '.' :: posix.escape s.extension)
      = posix.escape (folder ++ ['/']) ++ '$' :: ("base".toList ++ '.' :: posix.escape s.extension) := by
    rw [escape_append, List.append_assoc]
    rfl
  have hvalue : folder ++ '/' :: (env "base".toList ++ '.' :: s.extension)
      = folder ++ ['/'] ++ (env "base".toList ++ '.' :: s.extension) := by
    rw [List.append_assoc]
    rfl
  rw [htext, hvalue]
  exact hfolder

/-- An argument is read as one word. -/
theorem spells_argument {image input output : Text} {i o : Text} {a : Argument} (ha : a.Expected image)
    (hi : Closes env i (literal input)) (ho : Closes env o (literal output)) :
    Spells env (a.render posix.escape i o) (a.shellWord input output) := by
  cases ha with
  | fixed a ha =>
    cases ha with
    | word t hne ht => exact .bare hne (ht.mono Text.isOrdinary_of_isWordChar)
    | bare t hne ht =>
      have hescape : posix.escape t = t := escape_of_inert posix (ht.mono Text.isInert_of_isWordChar)
      rw [Argument.render, hescape]
      exact .bare hne (ht.mono Text.isOrdinary_of_isWordChar)
    | quoted t _ => exact .quoted (.escape t)
  | input => exact .quoted hi
  | output => exact .quoted ho
  | image => exact .quoted (.escape image)

/-! ## Lines -/

theorem header_posix {s : Settings} (h : s.inputFolder ≠ []) :
    posix.header (.ofSettings .posix s)
      = ["for f in \"".toList ++ posix.escape (s.inputFolder.dropTrailing posix.isSeparator) ++ "\"/".toList
          ++ ("*.".toList ++ posix.escape s.extension) ++ "; do".toList] := by
  have hempty : ¬ (Layout.ofSettings .posix s).inputFolder.isEmpty = true := by
    rw [List.isEmpty_iff]
    exact escape_ne_nil h
  rw [header, if_neg hempty, Layout.ofSettings, escape_dropTrailing, glob]

theorem read_setup (env : Text → Text) (s : Settings) :
    (posix.setup (.ofSettings .posix s))[1]?.bind (read env)
      = some [.word (bare "mkdir".toList), .word (bare "-p".toList),
          .word (literal (posix.join s.inputFolder s.outputFolder))] := by
  generalize hf : posix.join s.inputFolder s.outputFolder = folder
  have hwords : ∀ p ∈ [("mkdir".toList, bare "mkdir".toList), ("-p".toList, bare "-p".toList),
      ('"' :: (posix.escape folder ++ ['"']), literal folder)], Spells env p.1 p.2 := by
    simp only [List.forall_mem_cons]
    refine ⟨.bare ?_ ?_, .bare ?_ ?_, .quoted (.escape folder), nofun⟩ <;> decide
  have hline : (posix.setup (.ofSettings .posix s))[1]?
      = some ("mkdir -p \"".toList ++ posix.escape folder ++ "\"".toList) := by
    rw [← hf]
    rfl
  have hread := read_words hwords
  rw [hline, Option.bind_some, ← read_blank]
  simpa using hread

/-- The file word of the loop header. -/
def fileWord (s : Settings) : Word :=
  literal (s.inputFolder.dropTrailing posix.isSeparator) ++ bare ("/*.".toList ++ s.extension)

theorem read_header (env : Text → Text) (settings : Settings) :
    (posix.header (.ofSettings .posix settings.sanitized)).map (read env)
      = [some [.word (bare "for".toList), .word (bare "f".toList), .word (bare "in".toList),
          .word (fileWord settings.sanitized), .separator, .word (bare "do".toList)]] := by
  have hfolder := settings.inputFolder_sanitized_ne_nil
  have hextension := settings.inert_extension
  have hordinary : Text.All isOrdinary ("/*.".toList ++ settings.sanitized.extension) :=
    Text.All.append (by decide) (settings.word_extension.mono Text.isOrdinary_of_isWordChar)
  rw [fileWord]
  generalize settings.sanitized = s at hfolder hextension hordinary
  generalize hd : s.inputFolder.dropTrailing posix.isSeparator = folder
  have hfile : Spells env ('"' :: (posix.escape folder ++ ['"']) ++ ("/*.".toList ++ s.extension))
      (literal folder ++ bare ("/*.".toList ++ s.extension)) :=
    (Spells.quoted (.escape folder)).append_bare hordinary
  have hwords : ∀ p ∈ [("for".toList, bare "for".toList), ("f".toList, bare "f".toList),
      ("in".toList, bare "in".toList),
      ('"' :: (posix.escape folder ++ ['"']) ++ ("/*.".toList ++ s.extension),
        literal folder ++ bare ("/*.".toList ++ s.extension))], Spells env p.1 p.2 := by
    simp only [List.forall_mem_cons]
    refine ⟨.bare ?_ ?_, .bare ?_ ?_, .bare ?_ ?_, hfile, nofun⟩ <;> decide
  have hdo : ∀ p ∈ [("do".toList, bare "do".toList)], Spells env p.1 p.2 := by
    simp only [List.forall_mem_cons]
    refine ⟨.bare ?_ ?_, nofun⟩ <;> decide
  have hread := read_words_separator hwords hdo
  rw [header_posix hfolder, hd, escape_of_inert posix hextension, List.map_singleton, ← read_blank]
  simpa using hread

theorem read_invocation (env : Text → Text) {s : Settings} (image : Text) (h : s.inputFolder ≠ []) :
    ∃ ws : List Word,
      (posix.body (s.template image) (.ofSettings .posix s))[4]?.bind (read env) = some (ws.map .word)
        ∧ ws.map Word.text = s.words image (env "f".toList)
          ((posix.join s.inputFolder s.outputFolder).dropTrailing posix.isSeparator
            ++ '/' :: (env "base".toList ++ '.' :: s.extension))
        ∧ ∀ w ∈ ws, w.globs = [] := by
  generalize hout : (posix.join s.inputFolder s.outputFolder).dropTrailing posix.isSeparator
    ++ '/' :: (env "base".toList ++ '.' :: s.extension) = output
  have houtput : Closes env (posix.outputFile (.ofSettings .posix s)) _ := closes_outputFile h
  rw [hout] at houtput
  let pair (a : Argument) : Text × Word :=
    (a.render posix.escape posix.currentFile (posix.outputFile (.ofSettings .posix s)),
      a.shellWord (env "f".toList) output)
  have hwords : ∀ p ∈ ("ffmpeg".toList, bare "ffmpeg".toList) :: (s.arguments image).map pair,
      Spells env p.1 p.2 := by
    simp only [List.forall_mem_cons, List.forall_mem_map]
    refine ⟨.bare (by decide) (by decide), fun a ha => ?_⟩
    exact spells_argument (s.expected_arguments image a ha) closes_currentFile houtput
  have hread := read_words hwords
  refine ⟨bare "ffmpeg".toList :: (s.arguments image).map fun a => a.shellWord (env "f".toList) output,
    ?_, ?_, ?_⟩
  · have hline : (posix.body (s.template image) (.ofSettings .posix s))[4]?
        = some (posix.invocation (s.template image) (.ofSettings .posix s)) := rfl
    have hindent : ∀ t, indent ++ t = ' ' :: ' ' :: ' ' :: ' ' :: t := fun _ => rfl
    rw [hline, Option.bind_some, invocation, Settings.render_template, hindent, read_blank, read_blank,
      read_blank]
    rw [List.flatMap_cons, List.flatMap_map] at hread
    rw [List.cons_append] at hread
    refine hread.trans ?_
    rw [List.map_cons, List.map_map, List.map_cons, List.map_map]
    rfl
  · rw [List.map_cons, List.map_map, Word.text_bare, Settings.words]
    exact congrArg _ (List.map_congr_left fun a _ => a.text_shellWord _ _)
  · simp only [List.forall_mem_cons, List.forall_mem_map]
    exact ⟨by decide, fun a ha => (s.expected_arguments image a ha).globs_shellWord _ _⟩

theorem globs_fileWord (settings : Settings) : (fileWord settings.sanitized).globs = ['*'] := by
  have hextension : (bare settings.sanitized.extension).globs = [] :=
    Word.globs_bare_of_isWordChar settings.word_extension
  rw [fileWord, bare_append, Word.globs_append, Word.globs_append, Word.globs_literal, hextension]
  rfl

end Dialect

/-- The script of an edit, read by a shell: the output folder is one literal word; the files of the loop are the
input folder with one glob behind it; and for each file `f` with the name `base` the command splits into exactly
its words, none of them with a glob. -/
theorem posix_script_reads (settings : Settings) (image : Text) (env : Text → Text) :
    let s := settings.sanitized
    let l := Layout.ofSettings .posix s
    let folder := Dialect.posix.join s.inputFolder s.outputFolder
    let output := folder.dropTrailing Dialect.posix.isSeparator
      ++ '/' :: (env "base".toList ++ '.' :: s.extension)
    (Dialect.posix.setup l)[1]?.bind (read env)
        = some [.word (bare "mkdir".toList), .word (bare "-p".toList), .word (literal folder)]
      ∧ (∃ file : Word,
        (Dialect.posix.header l).map (read env)
            = [some [.word (bare "for".toList), .word (bare "f".toList), .word (bare "in".toList),
                .word file, .separator, .word (bare "do".toList)]]
          ∧ file = literal (s.inputFolder.dropTrailing Dialect.posix.isSeparator)
              ++ bare ("/*.".toList ++ s.extension)
          ∧ file.globs = ['*'])
      ∧ ∃ ws : List Word,
        (Dialect.posix.body (s.template image) l)[4]?.bind (read env) = some (ws.map .word)
          ∧ ws.map Word.text = s.words image (env "f".toList) output
          ∧ ∀ w ∈ ws, w.globs = [] := by
  refine ⟨Dialect.read_setup env _, ⟨_, Dialect.read_header env settings, rfl, ?_⟩, ?_⟩
  · exact Dialect.globs_fileWord settings
  · exact Dialect.read_invocation env image settings.inputFolder_sanitized_ne_nil

end Watermark
