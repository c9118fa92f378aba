import Watermark.Proofs.Script.Join
import Watermark.Proofs.Script.LoopVariables

/-!
# Percent signs in a batch file

To `cmd.exe` two percent signs are one, and a single one begins a reference to a variable of the environment. A batch
file holds no single one: as a whole it is the escape of a plain script, in which the folders, the extension and the
image stand as they are and the loop variables are `%f` and `%~nf`. Folders are escaped before they are joined and the
image is escaped where the command is filled in, but either way every text is escaped once, and the script's own texts
hold no percent sign but those of its variables.

* `Text.RunsEven`: percent signs come in pairs; `runsEven_escape` says so of whatever is escaped;
* `Cmd.resolve`: how `cmd.exe` reads percent signs, whatever a reference stands for; by `Cmd.resolve_escape` it finds
  no reference in an escaped text;
* `escape_substitute`: escaping goes through filling in a command;
* `scriptLines_windows`: every line of a batch file is the escape of its plain line.
-/

namespace Watermark

/-! ## Runs of one character -/

namespace Text

/-- Wherever a run of `x` begins, it has an even number of characters. -/
def RunsEven (x : Char) (t : Text) : Prop :=
  ∀ before rest, t = before ++ rest → before.getLast? ≠ some x → 2 ∣ (rest.takeWhile (· == x)).length

theorem getLast?_ne_of_cons {x c : Char} {t : Text} (h : (c :: t).getLast? ≠ some x) : t.getLast? ≠ some x := by
  cases t with
  | nil => exact nofun
  | cons d t =>
    rw [List.getLast?_cons_cons] at h
    exact h

end Text

namespace Dialect

theorem runsEven_escape (t : Text) : (windows.escape t).RunsEven '%' := by
  induction t with
  | nil =>
    intro before rest heq _
    rw [(List.append_eq_nil_iff.1 heq.symm).2]
    exact Nat.dvd_zero 2
  | cons c t ih =>
    intro before rest heq hlast
    by_cases hc : c = '%'
    · rw [hc, escape_percent] at heq
      match before, heq with
      | [], heq =>
        -- the run begins with the pair and goes on with the run at the start of the rest
        have hrest : 2 ∣ ((windows.escape t).takeWhile (· == '%')).length := ih [] _ rfl nofun
        have hrun : rest = '%' :: '%' :: windows.escape t := heq.symm
        simp only [hrun, List.takeWhile_cons, beq_self_eq_true, if_true, List.length_cons]
        omega
      | [b], heq =>
        rw [(List.cons.inj heq).1] at hlast
        exact absurd rfl hlast
      | b :: b' :: before, heq =>
        have heq := (List.cons.inj (List.cons.inj heq).2).2
        exact ih before rest heq (Text.getLast?_ne_of_cons (Text.getLast?_ne_of_cons hlast))
    · rw [escape_of_ne_percent hc] at heq
      match before, heq with
      | [], heq =>
        have hrun : rest = c :: windows.escape t := heq.symm
        rw [hrun, List.takeWhile_cons_of_neg (by simpa using hc)]
        exact Nat.dvd_zero 2
      | b :: before, heq =>
        exact ih before rest (List.cons.inj heq).2 (Text.getLast?_ne_of_cons hlast)

end Dialect

/-! ## Reading percent signs -/

namespace Cmd

/-- The script that `cmd.exe` runs: two percent signs are one, and a single one begins a reference, which becomes the
text `reference` together with all that stands behind it. -/
def resolve (reference : Text → Text) : Text → Text
  | '%' :: '%' :: t => '%' :: resolve reference t
  | '%' :: t => reference t
  | c :: t => c :: resolve reference t
  | [] => []

theorem resolve_escape (reference : Text → Text) (t : Text) : resolve reference (Dialect.windows.escape t) = t := by
  induction t with
  | nil => rfl
  | cons c t ih =>
    by_cases hc : c = '%'
    · rw [hc, Dialect.escape_percent, resolve, ih]
    · rw [Dialect.escape_of_ne_percent hc, resolve, ih]
      · exact fun u h _ => hc h
      · exact hc

end Cmd

/-! ## Filling in a command -/

/-- Escaping a command is filling in the escaped files with escaped values, if the fixed parts need no escape. -/
theorem Dialect.escape_substitute (d : Dialect) {t : Template}
    (h : ∀ w, Segment.fixed w ∈ t.segments → d.escape w = w) (input output : Text) :
    d.escape (t.substitute input output) = t.render d.escape (d.escape input) (d.escape output) := by
  rw [Template.substitute, Template.render, Template.render, escape, List.flatMap_assoc]
  refine congrArg List.flatten (List.map_congr_left fun g hg => ?_)
  cases g with
  | fixed w => exact h w hg
  | value v => rfl
  | input => rfl
  | output => rfl

/-- The fixed parts of an argument are a word, blanks and quotes. -/
theorem Argument.Expected.percent_not_mem_fixed {image w : Text} {a : Argument} (ha : a.Expected image)
    (h : Segment.fixed w ∈ a.segments) : '%' ∉ w := by
  have hquoted : ∀ g : Segment, (∀ t, g ≠ .fixed t) → Segment.fixed w ∈ Template.quoted g → '%' ∉ w := by
    intro g hg hw
    simp only [Template.quoted, List.mem_cons, List.not_mem_nil, or_false, Segment.fixed.injEq] at hw
    rcases hw with rfl | hw | rfl
    · decide
    · exact absurd hw.symm (hg w)
    · decide
  cases ha with
  | fixed a ha =>
    cases ha with
    | word t _ ht =>
      simp only [segments, Template.word, List.mem_singleton, Segment.fixed.injEq] at h
      rw [h, List.mem_cons, not_or]
      exact ⟨by decide, ht.not_mem (by decide)⟩
    | bare t _ _ =>
      simp only [segments, Template.bare, List.mem_cons, List.not_mem_nil, or_false, Segment.fixed.injEq,
        reduceCtorEq] at h
      rw [h]
      decide
    | quoted t _ => exact hquoted (.value t) (by simp) h
  | input => exact hquoted .input (by simp) h
  | output => exact hquoted .output (by simp) h
  | image => exact hquoted (.value image) (by simp) h

theorem Settings.percent_not_mem_fixed (s : Settings) (image : Text) {w : Text}
    (h : Segment.fixed w ∈ (s.template image).segments) : '%' ∉ w := by
  rw [segments_template, List.mem_cons, List.mem_flatMap] at h
  rcases h with h | ⟨a, ha, h⟩
  · cases h
    decide
  · exact (s.expected_arguments image a ha).percent_not_mem_fixed h

/-! ## The script -/

namespace Dialect

/-- The lines of a batch file as they are meant: nothing is escaped, and the loop variables are `%f` and `%~nf`. -/
def plainLines (t : Template) (s : Settings) : List Text :=
  let folder := windows.join s.inputFolder s.outputFolder
  let output := windows.join folder ("%~nf.".toList ++ s.extension)
  [ "@echo off".toList,
    "if not exist \"".toList ++ folder ++ "\" mkdir \"".toList ++ folder ++ "\"".toList,
    "echo Processing ".toList ++ s.extension ++ " files...".toList,
    "for %f in (\"".toList ++ windows.join s.inputFolder ("*.".toList ++ s.extension) ++ "\") do (".toList,
    "    echo Processing: %f".toList,
    "    ".toList ++ t.substitute "%f".toList output,
    ")".toList,
    "echo Done!".toList,
    "pause".toList ]

theorem escape_of_percent_not_mem {t : Text} (h : '%' ∉ t) : windows.escape t = t :=
  escape_eq_self fun c hc => by
    have hne : c ≠ '%' := fun he => h (he ▸ hc)
    simp [escapeChar, hne]

theorem scriptLines_windows (s : Settings) (image : Text) :
    windows.scriptLines (s.template image) (.ofSettings .windows s)
      = (plainLines (s.template image) s).map windows.escape := by
  have hfolder : (Layout.ofSettings .windows s).outputFolder
      = windows.escape (windows.join s.inputFolder s.outputFolder) := rfl
  have hextension : (Layout.ofSettings .windows s).extension = windows.escape s.extension := rfl
  have hglob : windows.join (Layout.ofSettings .windows s).inputFolder (glob (.ofSettings .windows s))
      = windows.escape (windows.join s.inputFolder ("*.".toList ++ s.extension)) := by
    rw [escape_join, escape_append]
    rfl
  have houtput : windows.outputFile (.ofSettings .windows s)
      = windows.escape (windows.join (windows.join s.inputFolder s.outputFolder) ("%~nf.".toList ++ s.extension)) := by
    rw [escape_join, escape_append]
    rfl
  have hcommand : windows.invocation (s.template image) (.ofSettings .windows s)
      = windows.escape ("    ".toList ++ (s.template image).substitute "%f".toList
        (windows.join (windows.join s.inputFolder s.outputFolder) ("%~nf.".toList ++ s.extension))) := by
    rw [escape_append, windows.escape_substitute fun w hw => escape_of_percent_not_mem
      (s.percent_not_mem_fixed image hw), invocation, houtput]
    rfl
  rw [scriptLines, setup, header, body, footer, hfolder, hextension, hglob, hcommand, plainLines]
  simp only [List.map_cons, List.map_nil, List.cons_append, List.nil_append, escape_append]
  rfl

theorem escape_lines (ls : List Text) : windows.escape (Text.lines ls) = Text.lines (ls.map windows.escape) := by
  induction ls with
  | nil => rfl
  | cons l ls ih =>
    cases ls with
    | nil => simp [Text.lines]
    | cons l' ls =>
      have hfeed : windows.escape ['\n'] = ['\n'] := rfl
      rw [List.map_cons] at ih
      rw [Text.lines, List.intercalate_cons_cons, escape_append, escape_append, hfeed, ← Text.lines, ih,
        List.map_cons, List.map_cons, Text.lines, Text.lines, List.intercalate_cons_cons]

end Dialect

/-- In a batch file all percent signs come in pairs, and with one for each pair it is the script that is meant: the
configured texts as they are and nothing but the two loop variables. So there is no text in which `cmd.exe` would find
a reference to the environment, whatever such a reference stands for. -/
theorem windows_percents_paired (s : Settings) (image : Text) :
    let script := Dialect.windows.script (s.template image) s
    let plain := Text.lines (Dialect.plainLines (s.template image) s)
    script.RunsEven '%' ∧ Cmd.halve script = plain ∧ ∀ reference, Cmd.resolve reference script = plain := by
  intro script plain
  have hscript : script = Dialect.windows.escape plain := by
    rw [Dialect.escape_lines, ← Dialect.scriptLines_windows]
    rfl
  rw [hscript]
  exact ⟨Dialect.runsEven_escape plain, Cmd.halve_escape plain, fun r => Cmd.resolve_escape r plain⟩

end Watermark
