import Mathlib.Data.List.Basic
import Watermark.Proofs.Script.BatchCommand
import Watermark.Proofs.Script.LoopVariables
import Watermark.Proofs.Script.PosixScript

/-!
# Names of output files

The body of the loop writes the file at hand under the name that a shell or `cmd.exe` takes for its base, with the
extension of the edit behind it. Both take the text before the *last* dot, whatever the extension of the edit is. So
the name is the one of the source exactly if the extension holds no dot of its own.

* `Shell.Runs`: what the lines of a body run, its assignments one by one (`Shell.assign?`);
* `Dialect.Writes`: the command that the body runs for a file writes another file;
* `writes_posix_iff`, `writes_windows_iff`: the file that is written, whatever folders and extension hold;
* `batch_keeps_names_iff`: when every source keeps its name.
-/

namespace Watermark

/-! ## Parts of a file name -/

namespace Text

/-- The text behind the last character in `p`, all of it where there is none. -/
def afterLast (p : Char → Bool) (t : Text) : Text := (t.reverse.takeWhile fun c => !p c).reverse

/-- The text before the last `x`, all of it where there is none. -/
def beforeLast (x : Char) (t : Text) : Text :=
  match t.reverse.dropWhile (· != x) with
  | [] => t
  | _ :: r => r.reverse

variable {x : Char} {s t : Text}

theorem afterLast_append {p : Char → Bool} (hx : p x = true) (s : Text) (ht : t.All fun c => !p c) :
    afterLast p (s ++ x :: t) = t := by
  have hreverse : (s ++ x :: t).reverse = t.reverse ++ x :: s.reverse := by simp
  have hall : ∀ c ∈ t.reverse, (!p c) = true := fun c hc => ht c (List.mem_reverse.1 hc)
  rw [afterLast, hreverse, List.takeWhile_append_of_pos hall]
  simp [hx]

theorem beforeLast_of_not_mem (h : x ∉ t) : beforeLast x (s ++ x :: t) = s := by
  have hreverse : (s ++ x :: t).reverse = t.reverse ++ x :: s.reverse := by simp
  have hall : ∀ c ∈ t.reverse, (c != x) = true := fun c hc => by
    rw [bne_iff_ne]
    rintro rfl
    exact h (List.mem_reverse.1 hc)
  rw [beforeLast, hreverse, List.dropWhile_append_of_pos hall]
  simp

theorem beforeLast_of_mem (h : x ∈ t) : beforeLast x (s ++ x :: t) = s ++ x :: beforeLast x t := by
  have hreverse : (s ++ x :: t).reverse = t.reverse ++ x :: s.reverse := by simp
  have hne : t.reverse.dropWhile (· != x) ≠ [] := fun hnil =>
    absurd (List.dropWhile_eq_nil_iff.1 hnil x (List.mem_reverse.2 h)) (by simp)
  obtain ⟨c, r, hr⟩ := List.exists_cons_of_ne_nil hne
  rw [beforeLast, beforeLast, hreverse, List.dropWhile_append, hr]
  simp

end Text

/-! ## Assignments in a shell -/

namespace Shell

/-- The values of the variables. -/
abbrev Env := Text → Text

def Env.set (env : Env) (name value : Text) : Env := fun n => if n = name then value else env n

/-- The last part of a path, without slashes at the end. -/
def baseName (t : Text) : Text :=
  match t.dropTrailing (· == '/') with
  | [] => t.take 1
  | path => path.afterLast (· == '/')

/-- The text between `front` and `back`, if it is that. -/
def between? (front back t : Text) : Option Text := (t.dropPrefix? front).bind (·.dropSuffix? back)

/-- The value of an assignment: what `basename` prints for a word, without line feeds at the end, or a variable
without the text from its last dot on. -/
def value? (env : Env) (t : Text) : Option Text :=
  match between? "$(basename -- ".toList ")".toList t with
  | some word =>
    match read env word with
    | some [.word w] => some ((baseName w.text).dropTrailing (· == '\n'))
    | _ => none
  | none => (between? "\"$\x7b".toList "%.*\x7d\"".toList t).map fun name => (env name).beforeLast '.'

/-- The variables after a line. Only an assignment changes them. -/
def assign? (env : Env) (line : Text) : Option Env :=
  let command := line.dropWhile (· == ' ')
  match command.dropWhile isNameChar with
  | '=' :: value => (value? env value).map (env.set (command.takeWhile isNameChar))
  | _ => some env

/-- The lines set variables, and with these the last one is the command with the words given. -/
def Runs (env : Env) (lines words : List Text) : Prop :=
  ∃ env' : Env, lines.dropLast.foldlM assign? env = some env'
    ∧ ∃ ws : List Word, lines.getLast?.bind (read env') = some (ws.map .word) ∧ ws.map Word.text = words

theorem Runs.words_unique {env : Env} {lines words words' : List Text} (h : Runs env lines words)
    (h' : Runs env lines words') : words = words' := by
  obtain ⟨env₁, hrun, ws, hread, rfl⟩ := h
  obtain ⟨env₂, hrun', ws', hread', rfl⟩ := h'
  obtain rfl : env₁ = env₂ := Option.some.inj (hrun.symm.trans hrun')
  have hws := Option.some.inj (hread.symm.trans hread')
  rw [List.map_inj_right fun _ _ => Token.word.inj] at hws
  rw [hws]

/-- The base of a file as the body of the loop finds it. -/
def baseOf (file : Text) : Text := ((baseName file).dropTrailing (· == '\n')).beforeLast '.'

theorem read_currentFile (env : Env) :
    read env "\"$f\"".toList = some [.word (literal (env "f".toList))] := by
  have hfile : Closes env Dialect.posix.currentFile (literal (env "f".toList)) := Dialect.closes_currentFile
  have h := Spells.quoted hfile []
  rw [read, State.start, show "\"$f\"".toList = '"' :: (Dialect.posix.currentFile ++ ['"']) from rfl, h]
  rfl

/-- The variables in which a body runs its command. -/
theorem foldlM_assign_body (env : Env) (t : Template) (l : Layout) :
    ∃ env' : Env, (Dialect.posix.body t l).dropLast.foldlM assign? env = some env'
      ∧ env' "f".toList = env "f".toList ∧ env' "base".toList = baseOf (env "f".toList) := by
  let named := env.set "filename".toList ((baseName (env "f".toList)).dropTrailing (· == '\n'))
  refine ⟨named.set "base".toList (baseOf (env "f".toList)), ?_, rfl, rfl⟩
  have hname : assign? env (Dialect.indent ++ "filename=$(basename -- \"$f\")".toList) = some named := by
    show (value? env "$(basename -- \"$f\")".toList).map _ = _
    have hword : between? "$(basename -- ".toList ")".toList "$(basename -- \"$f\")".toList
        = some "\"$f\"".toList := by decide
    rw [value?, hword]
    dsimp only
    rw [read_currentFile]
    dsimp only
    rw [Word.text_literal]
    rfl
  have hbase : assign? named (Dialect.indent ++ "base=\"$\x7bfilename%.*\x7d\"".toList)
      = some (named.set "base".toList (baseOf (env "f".toList))) := rfl
  have htest : assign? env (Dialect.indent ++ "[ -e \"$f\" ] || continue".toList) = some env := rfl
  have hecho : ∀ e : Env, assign? e (Dialect.indent ++ "echo \"Processing: $f\"".toList) = some e := fun _ => rfl
  show List.foldlM assign? env [_, _, _, _] = _
  simp only [List.foldlM_cons, List.foldlM_nil, htest, hname, hbase, hecho, Option.bind_eq_bind, Option.bind_some]
  rfl

end Shell

/-! ## Base names in a batch file -/

namespace Cmd

/-- The name of a file without its folder and without the text from the last dot on. -/
def baseName (file : Text) : Text := (file.afterLast Dialect.windows.isSeparator).beforeLast '.'

variable {file base : Text}

/-- What takes the place of a variable is at least as long. -/
theorem length_le_expand (hfile : 2 ≤ file.length) (hbase : 4 ≤ base.length) (t : Text) :
    t.length ≤ (expand file base t).length := by
  fun_induction expand file base t with
  | case1 t ih =>
    simp only [List.length_append, List.length_cons]
    omega
  | case2 t ih =>
    simp only [List.length_append, List.length_cons]
    omega
  | case3 c t hne hne' ih =>
    simp only [List.length_cons]
    omega
  | case4 => exact Nat.le_refl _

/-- A text that holds a variable becomes longer. -/
theorem length_lt_expand (hfile : 2 < file.length) (hbase : 4 < base.length) {t : Text} (h : Refers t) :
    t.length < (expand file base t).length := by
  have hle := length_le_expand (Nat.le_of_lt hfile) (Nat.le_of_lt hbase)
  fun_induction expand file base t with
  | case1 t ih =>
    have := hle t
    simp only [List.length_append, List.length_cons]
    omega
  | case2 t ih =>
    have := hle t
    simp only [List.length_append, List.length_cons]
    omega
  | case3 c t hne hne' ih =>
    have := ih (refers_of_cons hne hne' h)
    simp only [List.length_cons]
    omega
  | case4 => exact absurd h (by decide)

end Cmd

open Cmd (Refers readLine expand)

/-! ## Commands and their output -/

namespace Settings

theorem getLast?_words (s : Settings) (image input output : Text) :
    (s.words image input output).getLast? = some output := by
  rw [words, arguments, List.map_append, ← List.cons_append]
  exact List.getLast?_concat

/-- The output can be read off a command. -/
theorem substitute_output_inj {s : Settings} {image input output output' : Text} :
    (s.template image).substitute input output = (s.template image).substitute input output'
      ↔ output = output' := by
  constructor
  · intro h
    rw [substitute_template_eq, substitute_template_eq] at h
    -- both commands are the same up to the quote in front of the output
    have h := List.append_cancel_left h
    have h := List.append_cancel_left (List.cons.inj h).2
    have h := List.append_cancel_left (List.cons.inj h).2
    have h := List.append_cancel_left (List.cons.inj h).2
    have h := List.append_cancel_left (List.cons.inj h).2
    exact List.append_cancel_right (List.cons.inj h).2
  · rintro rfl
    rfl

end Settings

/-! ## Names in a batch -/

/-- What a glob finds before the dot and the extension: a text that is not empty, does not begin with a dot and holds
no separator of either dialect. -/
structure Stem (t : Text) : Prop where
  ne_nil : t ≠ []
  no_dot : t.head? ≠ some '.'
  no_slash : '/' ∉ t
  no_backslash : '\\' ∉ t

namespace Stem

variable {stem e : Text} {d : Dialect}

theorem not_separator (h : Stem stem) : ∀ c ∈ stem, d.isSeparator c = false := fun c hc => by
  have hslash : c ≠ '/' := fun he => h.no_slash (he ▸ hc)
  have hback : c ≠ '\\' := fun he => h.no_backslash (he ▸ hc)
  cases d <;> simp [Dialect.isSeparator, hslash, hback]

theorem not_separator_append (h : Stem stem) (he : e.All Text.isWordChar) :
    ∀ c ∈ stem ++ '.' :: e, d.isSeparator c = false := by
  have hdot : d.isSeparator '.' = false := by cases d <;> rfl
  have hword : ∀ c ∈ e, d.isSeparator c = false := fun c hc => by
    have hslash : c ≠ '/' := fun hs => he.not_mem (by decide) (hs ▸ hc)
    have hback : c ≠ '\\' := fun hs => he.not_mem (by decide) (hs ▸ hc)
    cases d <;> simp [Dialect.isSeparator, hslash, hback]
  intro c hc
  rcases List.mem_append.1 hc with hc | hc
  · exact h.not_separator c hc
  · rcases List.mem_cons.1 hc with rfl | hc
    · exact hdot
    · exact hword c hc

theorem join_eq (h : Stem stem) {folder : Text} (hfolder : folder ≠ []) :
    d.join folder (stem ++ '.' :: e)
      = folder.dropTrailing d.isSeparator ++ d.separator :: (stem ++ '.' :: e) := by
  obtain ⟨c, r, rfl⟩ := List.exists_cons_of_ne_nil h.ne_nil
  have hc := h.not_separator (d := d) c List.mem_cons_self
  rw [Dialect.join_of_ne_nil hfolder, List.cons_append, List.dropWhile_cons_of_neg (by simp [hc])]

/-- The base that both dialects find is the stem, and the part of the extension before its last dot. -/
theorem length_le_beforeLast (stem e : Text) : stem.length ≤ (Text.beforeLast '.' (stem ++ '.' :: e)).length := by
  by_cases hdot : '.' ∈ e
  · rw [Text.beforeLast_of_mem hdot, List.length_append]
    omega
  · exact Nat.le_of_eq (congrArg List.length (Text.beforeLast_of_not_mem hdot).symm)

theorem length_beforeLast_le_iff (stem e : Text) :
    (Text.beforeLast '.' (stem ++ '.' :: e)).length ≤ stem.length ↔ '.' ∉ e := by
  by_cases hdot : '.' ∈ e
  · rw [Text.beforeLast_of_mem hdot, List.length_append, List.length_cons]
    exact iff_of_false (by omega) (not_not_intro hdot)
  · rw [Text.beforeLast_of_not_mem hdot]
    exact iff_of_true (Nat.le_refl _) hdot

theorem cmd_baseName (h : Stem stem) (he : e.All Text.isWordChar) (folder : Text) :
    Cmd.baseName (folder ++ '\\' :: (stem ++ '.' :: e)) = Text.beforeLast '.' (stem ++ '.' :: e) := by
  have hname : Text.All (fun c => !Dialect.windows.isSeparator c) (stem ++ '.' :: e) := fun c hc =>
    congrArg not (h.not_separator_append he c hc)
  rw [Cmd.baseName, Text.afterLast_append (by decide) folder hname]

theorem shell_baseOf (h : Stem stem) (he : e.All Text.isWordChar) (folder : Text) :
    Shell.baseOf (folder ++ '/' :: (stem ++ '.' :: e)) = Text.beforeLast '.' (stem ++ '.' :: e) := by
  have hseparator : ∀ c ∈ stem ++ '.' :: e, (c == '/') = false := h.not_separator_append (d := .posix) he
  have hfeed : ∀ c ∈ e, (c == '\n') = false := fun c hc => by
    rw [beq_eq_false_iff_ne]
    rintro rfl
    exact he.not_mem (by decide) hc
  have hpath : Text.dropTrailing (· == '/') (folder ++ '/' :: (stem ++ '.' :: e))
      = folder ++ '/' :: (stem ++ '.' :: e) := by
    have hsplit : folder ++ '/' :: (stem ++ '.' :: e) = folder ++ '/' :: stem ++ '.' :: e := by simp
    rw [hsplit, Text.dropTrailing_append_of_not (by decide), Text.dropTrailing_eq_self fun c hc =>
      hseparator c (List.mem_append_right _ (List.mem_cons_of_mem _ hc))]
  have hname : Shell.baseName (folder ++ '/' :: (stem ++ '.' :: e)) = stem ++ '.' :: e := by
    obtain ⟨c, r, hpath'⟩ := List.exists_cons_of_ne_nil (l := folder ++ '/' :: (stem ++ '.' :: e)) (by simp)
    rw [Shell.baseName, hpath, hpath']
    dsimp only
    rw [← hpath', Text.afterLast_append (by decide) folder fun c hc => congrArg not (hseparator c hc)]
  rw [Shell.baseOf, hname, Text.dropTrailing_append_of_not (by decide), Text.dropTrailing_eq_self hfeed]

end Stem

namespace Dialect

/-- The body of the loop runs, for the file at hand, the command of the edit that writes the output. A shell has the
file in the variable `f`. In a batch file the name of the image is read like the rest of the line. -/
def Writes (d : Dialect) (s : Settings) (image file output : Text) : Prop :=
  let body := d.body (s.template image) (.ofSettings d s)
  match d with
  | .windows =>
    let base := Cmd.baseName file
    body.getLast?.map (readLine file base)
      = some (indent ++ (s.template (expand file base image)).substitute file output)
  | .posix => ∀ env : Shell.Env, env "f".toList = file → Shell.Runs env body (s.words image file output)

variable {s : Settings} {file output : Text}

theorem writes_windows_iff (image : Text) (h : s.inputFolder ≠ []) (hext : s.extension.Inert) :
    windows.Writes s image file output
      ↔ expand file (Cmd.baseName file) ((windows.join s.inputFolder s.outputFolder).dropTrailing windows.isSeparator)
        ++ '\\' :: (Cmd.baseName file ++ '.' :: s.extension) = output := by
  rw [Writes, getLast?_body, Option.map_some, readLine_invocation image h hext, Option.some_inj,
    List.append_right_inj, Settings.substitute_output_inj]

theorem writes_posix_iff (image : Text) (h : s.inputFolder ≠ []) :
    posix.Writes s image file output
      ↔ (posix.join s.inputFolder s.outputFolder).dropTrailing posix.isSeparator
        ++ '/' :: (Shell.baseOf file ++ '.' :: s.extension) = output := by
  generalize hwritten : (posix.join s.inputFolder s.outputFolder).dropTrailing posix.isSeparator
    ++ '/' :: (Shell.baseOf file ++ '.' :: s.extension) = written
  have hruns : ∀ env : Shell.Env, env "f".toList = file →
      Shell.Runs env (posix.body (s.template image) (.ofSettings .posix s)) (s.words image file written) := by
    intro env hf
    obtain ⟨env', hrun, hfile, hbase⟩ :=
      Shell.foldlM_assign_body env (s.template image) (.ofSettings .posix s)
    obtain ⟨ws, hread, hwords, -⟩ := read_invocation env' image h
    rw [hfile, hbase, hf, hwritten] at hwords
    exact ⟨env', hrun, ws, hread, hwords⟩
  constructor
  · intro hw
    have hwords := (hw (fun _ => file) rfl).words_unique (hruns (fun _ => file) rfl)
    have hlast := congrArg List.getLast? hwords
    rw [Settings.getLast?_words, Settings.getLast?_words] at hlast
    exact (Option.some.inj hlast).symm
  · rintro rfl
    exact hruns

/-- Every source keeps its name: the file `stem.extension` of the input folder is written into the output folder
under this name. -/
def KeepsNames (d : Dialect) (s : Settings) (image : Text) : Prop :=
  ∀ stem, Stem stem →
    let name := stem ++ '.' :: s.extension
    d.Writes s image (d.join s.inputFolder name) (d.join (d.join s.inputFolder s.outputFolder) name)

theorem stem_clips : Stem "clips".toList := ⟨by decide, by decide, by decide, by decide⟩

theorem keepsNames_posix_iff (image : Text) (h : s.inputFolder ≠ []) (hext : s.extension.All Text.isWordChar) :
    posix.KeepsNames s image ↔ '.' ∉ s.extension := by
  have hwrites : ∀ stem, Stem stem →
      (posix.Writes s image (posix.join s.inputFolder (stem ++ '.' :: s.extension))
          (posix.join (posix.join s.inputFolder s.outputFolder) (stem ++ '.' :: s.extension))
        ↔ Text.beforeLast '.' (stem ++ '.' :: s.extension) = stem) := fun stem hstem => by
    rw [writes_posix_iff image h, hstem.join_eq h, hstem.join_eq (join_ne_nil h)]
    show _ ++ '/' :: (Shell.baseOf (_ ++ '/' :: _) ++ _) = _ ++ '/' :: _ ↔ _
    rw [hstem.shell_baseOf hext, List.append_right_inj, List.cons_inj_right, List.append_left_inj]
  constructor
  · intro hkeeps
    have hbase := (hwrites _ stem_clips).1 (hkeeps _ stem_clips)
    exact (Stem.length_beforeLast_le_iff _ _).1 (Nat.le_of_eq (congrArg List.length hbase))
  · intro hdot stem hstem
    exact (hwrites stem hstem).2 (Text.beforeLast_of_not_mem hdot)

theorem keepsNames_windows_iff (image : Text) (h : s.inputFolder ≠ []) (hext : s.extension.All Text.isWordChar) :
    windows.KeepsNames s image
      ↔ '.' ∉ s.extension ∧ ¬ Refers s.inputFolder ∧ ¬ Refers s.outputFolder := by
  have hinert : s.extension.Inert := hext.mono Text.isInert_of_isWordChar
  have hwrites : ∀ stem, Stem stem →
      (windows.Writes s image (windows.join s.inputFolder (stem ++ '.' :: s.extension))
          (windows.join (windows.join s.inputFolder s.outputFolder) (stem ++ '.' :: s.extension))
        ↔ expand (windows.join s.inputFolder (stem ++ '.' :: s.extension))
              (Text.beforeLast '.' (stem ++ '.' :: s.extension))
              ((windows.join s.inputFolder s.outputFolder).dropTrailing windows.isSeparator)
            ++ '\\' :: (Text.beforeLast '.' (stem ++ '.' :: s.extension) ++ '.' :: s.extension)
          = (windows.join s.inputFolder s.outputFolder).dropTrailing windows.isSeparator
            ++ '\\' :: (stem ++ '.' :: s.extension)) := fun stem hstem => by
    have hbase : Cmd.baseName (windows.join s.inputFolder (stem ++ '.' :: s.extension))
        = Text.beforeLast '.' (stem ++ '.' :: s.extension) := by
      rw [hstem.join_eq h]
      exact hstem.cmd_baseName hext _
    rw [writes_windows_iff image h hinert, hbase, hstem.join_eq (join_ne_nil h)]
    rfl
  rw [← not_or, ← refers_join h]
  generalize (windows.join s.inputFolder s.outputFolder).dropTrailing windows.isSeparator = folder at hwrites ⊢
  constructor
  · intro hkeeps
    have hwritten := congrArg List.length ((hwrites _ stem_clips).1 (hkeeps _ stem_clips))
    have hfile : 5 < (windows.join s.inputFolder ("clips".toList ++ '.' :: s.extension)).length := by
      rw [stem_clips.join_eq h]
      simp only [List.length_append, List.length_cons]
      show 5 < _ + (5 + _ + 1)
      omega
    have hbase := Stem.length_le_beforeLast "clips".toList s.extension
    have hdot := Stem.length_beforeLast_le_iff "clips".toList s.extension
    generalize windows.join s.inputFolder ("clips".toList ++ '.' :: s.extension) = file at hwritten hfile
    generalize Text.beforeLast '.' ("clips".toList ++ '.' :: s.extension) = base at hwritten hbase hdot
    have hlen : "clips".toList.length = 5 := rfl
    simp only [List.length_append, List.length_cons, hlen] at hwritten hbase hdot
    -- neither the folder nor the base becomes shorter, so neither may become longer
    have hle : folder.length ≤ (expand file base folder).length :=
      Cmd.length_le_expand (by omega) (by omega) folder
    refine ⟨hdot.1 (by omega), fun hrefers => ?_⟩
    have hlt : folder.length < (expand file base folder).length :=
      Cmd.length_lt_expand (by omega) (by omega) hrefers
    omega
  · rintro ⟨hdot, hrefers⟩ stem hstem
    refine (hwrites stem hstem).2 ?_
    rw [Cmd.expand_of_not_refers hrefers, Text.beforeLast_of_not_mem hdot]

end Dialect

/-- In a batch every source keeps its name exactly if the extension holds no dot of its own; and in a batch file only
if, besides, neither folder holds text that looks like a loop variable. -/
theorem batch_keeps_names_iff (settings : Settings) (image : Text) (d : Dialect) :
    let s := settings.sanitized
    (∀ stem, Stem stem →
        let name := stem ++ '.' :: s.extension
        d.Writes s image (d.join s.inputFolder name) (d.join (d.join s.inputFolder s.outputFolder) name))
      ↔ '.' ∉ s.extension ∧ (d = .windows → ¬ Refers s.inputFolder ∧ ¬ Refers s.outputFolder) := by
  intro s
  have hfolder := settings.inputFolder_sanitized_ne_nil
  have hword := settings.word_extension
  cases d with
  | windows =>
    refine (Dialect.keepsNames_windows_iff image hfolder hword).trans ?_
    exact and_congr_right fun _ => ⟨fun h _ => h, fun h => h rfl⟩
  | posix =>
    refine (Dialect.keepsNames_posix_iff image hfolder hword).trans ?_
    exact ⟨fun h => ⟨h, nofun⟩, fun h => h.1⟩

/-- The sanitizer keeps the extension `tar.gz`, and `clip.tar.gz` is written as `clip.tar.tar.gz`. -/
theorem batch_renames_tar_gz :
    let s := { Settings.initial with batch := true, extension := "tar.gz".toList }.sanitized
    s.extension = "tar.gz".toList
      ∧ Dialect.posix.Writes s "logo.png".toList "./clip.tar.gz".toList "./processed/clip.tar.tar.gz".toList
      ∧ ¬ Dialect.posix.Writes s "logo.png".toList "./clip.tar.gz".toList "./processed/clip.tar.gz".toList := by
  intro s
  have hfolder : s.inputFolder ≠ [] := Settings.inputFolder_sanitized_ne_nil _
  refine ⟨by decide +kernel, ?_, ?_⟩
  · exact (Dialect.writes_posix_iff _ hfolder).2 (by decide +kernel)
  · rw [Dialect.writes_posix_iff _ hfolder]
    decide +kernel

end Watermark
