import Watermark.Proofs.Command.Arguments
import Watermark.Proofs.Script.Path
import Watermark.Proofs.Settings.Sanitized

/-!
# Loop variables in a batch file

In the body of a loop over `%%f`, `cmd.exe` first makes one percent sign of two (`Cmd.halve`) and then replaces
`%f` by the file at hand and `%~nf` by its name (`Cmd.expand`). Escaping doubles percent signs, so the first pass
gives back every configured text as it was. But the second pass sees the text then, and replaces in it what looks
like one of the two variables.

* `Cmd.halve_escape_append`: the first pass undoes the escaping;
* `Cmd.expand_of_not_refers`, `Cmd.count_expand_lt`: the second pass changes just the texts that hold a variable;
* `Dialect.readLine_invocation`: what the two passes make of a command, whatever it holds.
-/

namespace Watermark

namespace Cmd

/-! ## The two passes -/

/-- Makes one percent sign of two. -/
def halve : Text → Text
  | '%' :: '%' :: t => '%' :: halve t
  | c :: t => c :: halve t
  | [] => []

/-- Replaces the variables by the file at hand and its name. -/
def expand (file base : Text) : Text → Text
  | '%' :: 'f' :: t => file ++ expand file base t
  | '%' :: '~' :: 'n' :: 'f' :: t => base ++ expand file base t
  | c :: t => c :: expand file base t
  | [] => []

/-- A line in the body of a loop, as it is run. -/
def readLine (file base t : Text) : Text := expand file base (halve t)

/-- A text that looks like a loop variable somewhere. -/
def Refers (t : Text) : Prop := "%f".toList <:+: t ∨ "%~nf".toList <:+: t

instance (t : Text) : Decidable (Refers t) := inferInstanceAs (Decidable (_ ∨ _))

/-! ## The first pass -/

theorem halve_cons {c : Char} (h : c ≠ '%') (t : Text) : halve (c :: t) = c :: halve t := by
  rw [halve]
  rintro t rfl
  exact absurd rfl h

theorem halve_append {x y : Text} (h : y.head? ≠ some '%') : halve (x ++ y) = halve x ++ halve y := by
  fun_induction halve x with
  | case1 t ih => rw [List.cons_append, List.cons_append, halve, ih, List.cons_append]
  | case2 c t hne ih =>
    rw [List.cons_append, halve, ih, List.cons_append]
    -- the percent sign that `c` needs is neither in `t` nor at the front of `y`
    intro u hc hu
    cases t with
    | nil => exact h (by rw [← List.nil_append y, hu]; rfl)
    | cons d t => exact hne t hc (by rw [(List.cons.inj hu).1])
  | case3 => rfl

theorem halve_eq_self {t : Text} (h : '%' ∉ t) : halve t = t := by
  induction t with
  | nil => rfl
  | cons c t ih =>
    rw [List.mem_cons, not_or] at h
    rw [halve_cons (Ne.symm h.1), ih h.2]

/-- The first pass undoes the escaping. -/
theorem halve_escape_append (t u : Text) : halve (Dialect.windows.escape t ++ u) = t ++ halve u := by
  induction t with
  | nil => rfl
  | cons c t ih =>
    by_cases h : c = '%'
    · rw [h, Dialect.escape_percent, List.cons_append, List.cons_append, halve, ih, List.cons_append]
    · rw [Dialect.escape_of_ne_percent h, List.cons_append, halve_cons h, ih, List.cons_append]

theorem halve_escape (t : Text) : halve (Dialect.windows.escape t) = t := by
  have h := halve_escape_append t []
  rwa [List.append_nil, halve, List.append_nil] at h

/-! ## The second pass -/

section

variable {file base : Text}

theorem expand_cons {c : Char} (h : c ≠ '%') (t : Text) :
    expand file base (c :: t) = c :: expand file base t := by
  rw [expand]
  · rintro t rfl
    exact absurd rfl h
  · rintro t rfl
    exact absurd rfl h

theorem expand_eq_self {t : Text} (h : '%' ∉ t) : expand file base t = t := by
  induction t with
  | nil => rfl
  | cons c t ih =>
    rw [List.mem_cons, not_or] at h
    rw [expand_cons (Ne.symm h.1), ih h.2]

/-- No variable reaches beyond a character that none of them has behind its percent sign. -/
theorem expand_append {c : Char} (hc : c ∉ "~nf".toList) (x y : Text) :
    expand file base (x ++ c :: y) = expand file base x ++ expand file base (c :: y) := by
  have hout : c ≠ '~' ∧ c ≠ 'n' ∧ c ≠ 'f' := by
    refine ⟨?_, ?_, ?_⟩ <;> rintro rfl <;> exact hc (by decide)
  obtain ⟨htilde, hn, hf⟩ := hout
  fun_induction expand file base x with
  | case1 t ih => rw [List.cons_append, List.cons_append, expand, ih, List.append_assoc]
  | case2 t ih =>
    rw [List.cons_append, List.cons_append, List.cons_append, List.cons_append, expand, ih, List.append_assoc]
  | case3 d t hne hne' ih =>
    rw [List.cons_append, expand, ih, List.cons_append]
    · intro u hd hu
      cases t with
      | nil => exact hf (List.cons.inj hu).1
      | cons e t => exact hne t hd (by rw [(List.cons.inj hu).1])
    · intro u hd hu
      match t, hu with
      | [], hu => exact htilde (List.cons.inj hu).1
      | [_], hu => exact hn (List.cons.inj (List.cons.inj hu).2).1
      | [_, _], hu => exact hf (List.cons.inj (List.cons.inj (List.cons.inj hu).2).2).1
      | a :: b :: e :: t, hu =>
        simp only [List.cons_append, List.cons.injEq] at hu
        exact hne' t hd (by rw [hu.1, hu.2.1, hu.2.2.1])
  | case4 => rfl

/-- A text without a variable stays as it is. -/
theorem expand_of_not_refers {t : Text} (h : ¬ Refers t) : expand file base t = t := by
  fun_induction expand file base t with
  | case1 t ih => exact absurd (.inl (List.prefix_append "%f".toList t).isInfix) h
  | case2 t ih => exact absurd (.inr (List.prefix_append "%~nf".toList t).isInfix) h
  | case3 c t hne hne' ih =>
    rw [ih fun ht => h (ht.imp List.infix_cons List.infix_cons)]
  | case4 => rfl

/-- With percent signs neither in the file nor in its name, there are no more of them afterwards. -/
theorem count_expand_le (hfile : '%' ∉ file) (hbase : '%' ∉ base) (t : Text) :
    (expand file base t).count '%' ≤ t.count '%' := by
  have hf := List.count_eq_zero_of_not_mem hfile
  have hb := List.count_eq_zero_of_not_mem hbase
  fun_induction expand file base t with
  | case1 t ih =>
    simp only [List.count_append, List.count_cons] at *
    omega
  | case2 t ih =>
    simp only [List.count_append, List.count_cons] at *
    omega
  | case3 c t hne hne' ih =>
    simp only [List.count_cons]
    omega
  | case4 => exact Nat.le_refl _

/-- A variable that does not begin at the first character stands behind it. -/
theorem refers_of_cons {c : Char} {t : Text} (hne : ∀ u, c = '%' → t = 'f' :: u → False)
    (hne' : ∀ u, c = '%' → t = '~' :: 'n' :: 'f' :: u → False) (h : Refers (c :: t)) : Refers t := by
  rcases h with h | h
  · rcases List.infix_cons_iff.1 h with ⟨u, hu⟩ | h
    · have hu : '%' :: 'f' :: u = c :: t := hu
      cases hu
      exact absurd rfl (hne u rfl)
    · exact .inl h
  · rcases List.infix_cons_iff.1 h with ⟨u, hu⟩ | h
    · have hu : '%' :: '~' :: 'n' :: 'f' :: u = c :: t := hu
      cases hu
      exact absurd rfl (hne' u rfl)
    · exact .inr h

/-- And fewer, if the text holds a variable. -/
theorem count_expand_lt (hfile : '%' ∉ file) (hbase : '%' ∉ base) {t : Text} (h : Refers t) :
    (expand file base t).count '%' < t.count '%' := by
  have hf := List.count_eq_zero_of_not_mem hfile
  have hb := List.count_eq_zero_of_not_mem hbase
  have hle := count_expand_le hfile hbase
  fun_induction expand file base t with
  | case1 t ih =>
    have := hle t
    have hpercent : ('%' == '%') = true := rfl
    simp only [List.count_append, List.count_cons, hpercent, if_true]
    omega
  | case2 t ih =>
    have := hle t
    have hpercent : ('%' == '%') = true := rfl
    simp only [List.count_append, List.count_cons, hpercent, if_true]
    omega
  | case3 c t hne hne' ih =>
    have := ih (refers_of_cons hne hne' h)
    simp only [List.count_cons]
    omega
  | case4 => exact absurd h (by decide)

end

/-! ## Texts with variables -/

theorem refers_iff (t : Text) : Refers t ↔ (expand [] [] t).count '%' < t.count '%' := by
  constructor
  · exact count_expand_lt (by simp) (by simp)
  · intro h
    by_cases ht : Refers t
    · exact ht
    · rw [expand_of_not_refers ht] at h
      omega

theorem refers_append {c : Char} (hc : c ∉ "~nf".toList) (x y : Text) :
    Refers (x ++ c :: y) ↔ Refers x ∨ Refers (c :: y) := by
  have hempty : '%' ∉ ([] : Text) := by simp
  have hx := count_expand_le hempty hempty x
  have hy := count_expand_le hempty hempty (c :: y)
  rw [refers_iff, refers_iff, refers_iff, expand_append hc, List.count_append, List.count_append]
  omega

theorem refers_append_of_not_mem {x : Text} (hx : '%' ∉ x) (y : Text) : Refers (x ++ y) ↔ Refers y := by
  induction x with
  | nil => rfl
  | cons c x ih =>
    rw [List.mem_cons, not_or] at hx
    rw [List.cons_append, refers_iff, expand_cons (Ne.symm hx.1), List.count_cons, List.count_cons,
      Nat.add_lt_add_iff_right, ← refers_iff, ih hx.2]

theorem not_refers_of_not_mem {t : Text} (h : '%' ∉ t) : ¬ Refers t := by
  rw [← List.append_nil t, refers_append_of_not_mem h]
  decide

end Cmd

open Cmd (Refers readLine halve expand refers_append refers_append_of_not_mem)

namespace Dialect

/-! ## Folders -/

theorem refers_dropTrailing (t : Text) :
    Refers (t.dropTrailing windows.isSeparator) ↔ Refers t := by
  obtain ⟨s, hs, hall⟩ := Text.exists_dropTrailing_append windows.isSeparator t
  conv => rhs; rw [← hs]
  cases s with
  | nil => rw [List.append_nil]
  | cons c s =>
    have hc : c ∉ "~nf".toList := by
      have hletters : Text.All (fun c => !windows.isSeparator c) "~nf".toList := by decide
      have hsep := hall c List.mem_cons_self
      exact hletters.not_mem (by rw [hsep]; rfl)
    have hrest : ¬ Refers (c :: s) := Cmd.not_refers_of_not_mem (hall.not_mem (by decide))
    rw [refers_append hc, or_iff_left hrest]

theorem refers_dropWhile (t : Text) : Refers (t.dropWhile windows.isSeparator) ↔ Refers t := by
  conv => rhs; rw [← List.takeWhile_append_dropWhile (p := windows.isSeparator) (l := t)]
  rw [refers_append_of_not_mem ((Text.all_takeWhile _ t).not_mem (by decide))]

/-- The joined folders hold a variable just if one of them does. -/
theorem refers_join {base child : Text} (h : base ≠ []) :
    Refers ((windows.join base child).dropTrailing windows.isSeparator) ↔ Refers base ∨ Refers child := by
  have hchild : Refers (windows.separator :: child.dropWhile windows.isSeparator) ↔ Refers child := by
    rw [← List.singleton_append, refers_append_of_not_mem (by decide), refers_dropWhile]
  rw [refers_dropTrailing, join_of_ne_nil h, refers_append (by decide), refers_dropTrailing, hchild]

end Dialect

/-! ## Commands -/

namespace Cmd

variable {file base : Text}

/-- The passes work apart on the two sides of a character that takes part in neither. -/
theorem readLine_append {c : Char} (hc : c ∉ "%~nf".toList) (x y : Text) :
    readLine file base (x ++ c :: y) = readLine file base x ++ c :: readLine file base y := by
  have hpercent : c ≠ '%' := by
    rintro rfl
    exact hc (by decide)
  have hletter : c ∉ "~nf".toList := fun h => hc (List.mem_cons_of_mem _ h)
  have hhead : (c :: y).head? ≠ some '%' := by simpa using hpercent
  rw [readLine, halve_append hhead, halve_cons hpercent, expand_append hletter, expand_cons hpercent]
  rfl

theorem readLine_escape (t : Text) :
    readLine file base (Dialect.windows.escape t) = expand file base t := by
  rw [readLine, halve_escape]

theorem readLine_of_not_mem {t : Text} (h : '%' ∉ t) : readLine file base t = t := by
  rw [readLine, halve_eq_self h, expand_eq_self h]

end Cmd

namespace Dialect

variable {file base : Text}

theorem readLine_currentFile : readLine file base windows.currentFile = file := by
  show file ++ [] = file
  exact List.append_nil file

/-- The path of the output file with the folder as the passes leave it. -/
theorem readLine_outputFile {s : Settings} (h : s.inputFolder ≠ []) (hext : s.extension.Inert) :
    readLine file base (windows.outputFile (.ofSettings .windows s))
      = expand file base ((windows.join s.inputFolder s.outputFolder).dropTrailing windows.isSeparator)
        ++ '\\' :: (base ++ '.' :: s.extension) := by
  have hbase : readLine file base windows.currentBase = base := by
    show base ++ [] = base
    exact List.append_nil base
  have hseparator : windows.separator = '\\' := rfl
  have hextension : '%' ∉ s.extension := hext.not_mem (by decide)
  rw [outputFile_ofSettings h, hseparator, Cmd.readLine_append (by decide), Cmd.readLine_append (by decide), hbase,
    Cmd.readLine_escape, Cmd.readLine_escape, Cmd.expand_eq_self hextension]

theorem percent_not_mem_line {as : List Argument} (h : ∀ a ∈ as, a.Fixed) : '%' ∉ Argument.line as := fun hc => by
  rcases Argument.mem_line h hc with hc | hc | hc
  · exact absurd hc (by decide)
  · exact absurd hc (by decide)
  · exact absurd hc (by decide)

/-- What the passes make of the command: the command of the edit, where the variables in the image and in the
folders are replaced as well. -/
theorem readLine_invocation {s : Settings} (image : Text) (h : s.inputFolder ≠ []) (hext : s.extension.Inert) :
    readLine file base (windows.invocation (s.template image) (.ofSettings .windows s))
      = indent ++ (s.template (expand file base image)).substitute file
        (expand file base ((windows.join s.inputFolder s.outputFolder).dropTrailing windows.isSeparator)
          ++ '\\' :: (base ++ '.' :: s.extension)) := by
  have hquote : '"' ∉ "%~nf".toList := by decide
  have hstart : readLine file base (indent ++ ("ffmpeg".toList ++ Argument.line s.timing ++ " -i ".toList))
      = indent ++ ("ffmpeg".toList ++ Argument.line s.timing ++ " -i ".toList) := by
    refine Cmd.readLine_of_not_mem ?_
    simp only [List.mem_append, not_or]
    exact ⟨by decide, ⟨by decide, percent_not_mem_line s.fixed_timing⟩, by decide⟩
  have hpicture : readLine file base (Argument.line s.picture ++ [' ']) = Argument.line s.picture ++ [' '] := by
    refine Cmd.readLine_of_not_mem ?_
    simp only [List.mem_append, not_or]
    exact ⟨percent_not_mem_line s.fixed_picture, by decide⟩
  have hinput : readLine file base " -i ".toList = " -i ".toList := rfl
  have hend : readLine file base [] = [] := rfl
  rw [invocation, s.render_template_eq image fun _ => escape_of_inert windows, s.substitute_template_eq]
  -- the quotes cut the line into texts that the passes read one by one
  rw [← List.append_assoc, Cmd.readLine_append hquote, Cmd.readLine_append hquote,
    Cmd.readLine_append hquote, Cmd.readLine_append hquote, Cmd.readLine_append hquote, Cmd.readLine_append hquote,
    hstart, readLine_currentFile, hinput, Cmd.readLine_escape, hpicture, readLine_outputFile h hext, hend]
  rfl

/-- The passes keep the command just if neither the image nor a folder holds a variable: each variable that is
replaced is a percent sign less. -/
theorem readLine_invocation_eq_iff {s : Settings} (image : Text) (h : s.inputFolder ≠ [])
    (hext : s.extension.Inert) (hfile : '%' ∉ file) (hbase : '%' ∉ base) :
    readLine file base (windows.invocation (s.template image) (.ofSettings .windows s))
        = indent ++ (s.template image).substitute file
          ((windows.join s.inputFolder s.outputFolder).dropTrailing windows.isSeparator
            ++ '\\' :: (base ++ '.' :: s.extension))
      ↔ ¬ Refers image ∧ ¬ Refers s.inputFolder ∧ ¬ Refers s.outputFolder := by
  rw [← not_or, ← not_or, ← refers_join h, readLine_invocation image h hext]
  generalize (windows.join s.inputFolder s.outputFolder).dropTrailing windows.isSeparator = folder
  constructor
  · intro heq hrefers
    have himage := Cmd.count_expand_le hfile hbase image
    have hfolder := Cmd.count_expand_le hfile hbase folder
    have hcount := congrArg (List.count '%') heq
    simp only [Settings.substitute_template_eq, List.count_append, List.count_cons] at hcount
    rcases hrefers with hrefers | hrefers
    · have := Cmd.count_expand_lt hfile hbase hrefers
      omega
    · have := Cmd.count_expand_lt hfile hbase hrefers
      omega
  · intro hrefers
    rw [not_or] at hrefers
    rw [Cmd.expand_of_not_refers hrefers.1, Cmd.expand_of_not_refers hrefers.2]

/-- A name without separators is joined as it is. -/
theorem join_name {folder : Text} (hfolder : folder ≠ []) (extension : Text)
    (hbase : base.All fun c => !windows.isSeparator c) :
    windows.join folder (base ++ '.' :: extension)
      = folder.dropTrailing windows.isSeparator ++ '\\' :: (base ++ '.' :: extension) := by
  have hname : (base ++ '.' :: extension).dropWhile windows.isSeparator = base ++ '.' :: extension := by
    cases base with
    | nil => rfl
    | cons c base => rw [List.cons_append, List.dropWhile_cons_of_neg (by simpa using hbase c List.mem_cons_self)]
  rw [join_of_ne_nil hfolder, hname]
  rfl

/-- The line of the command in the body of the loop is read as the command of the edit. -/
def ReadsCommand (s : Settings) (image file base : Text) : Prop :=
  (windows.body (s.template image) (.ofSettings .windows s))[1]?.map (readLine file base)
    = some (indent ++ (s.template image).substitute file
      (windows.join (windows.join s.inputFolder s.outputFolder) (base ++ '.' :: s.extension)))

theorem readsCommand_iff {s : Settings} (image : Text) (h : s.inputFolder ≠ []) (hext : s.extension.Inert)
    (hfile : '%' ∉ file) (hbase : '%' ∉ base) (hname : base.All fun c => !windows.isSeparator c) :
    ReadsCommand s image file base
      ↔ ¬ Refers image ∧ ¬ Refers s.inputFolder ∧ ¬ Refers s.outputFolder := by
  rw [ReadsCommand, join_name (join_ne_nil h) _ hname,
    ← readLine_invocation_eq_iff image h hext hfile hbase]
  exact Option.some_inj

end Dialect

/-- In the body of a loop over the files, the command for a file and its name is the command of the edit, just if
neither the image nor one of the two folders holds text that looks like a loop variable. -/
theorem windows_command_reads_iff (settings : Settings) (image file base : Text) (hfile : '%' ∉ file)
    (hbase : '%' ∉ base) (hname : base.All fun c => !Dialect.windows.isSeparator c) :
    Dialect.ReadsCommand settings.sanitized image file base
      ↔ ¬ Refers image ∧ ¬ Refers settings.sanitized.inputFolder ∧ ¬ Refers settings.sanitized.outputFolder :=
  Dialect.readsCommand_iff image settings.inputFolder_sanitized_ne_nil settings.inert_extension hfile hbase hname

/-- An image without a variable, in the folders of the start. -/
theorem windows_command_reads_logo :
    '%' ∉ "clip.mp4".toList ∧ '%' ∉ "clip".toList
      ∧ Text.All (fun c => !Dialect.windows.isSeparator c) "clip".toList
      ∧ Dialect.ReadsCommand { Settings.initial with batch := true }.sanitized "logo.png".toList "clip.mp4".toList
        "clip".toList := by
  refine ⟨by decide, by decide, by decide, ?_⟩
  refine (windows_command_reads_iff _ _ _ _ ?_ ?_ ?_).2 ⟨?_, ?_, ?_⟩
  · decide
  · decide
  · decide
  · decide +kernel
  · decide +kernel
  · decide +kernel

/-- The name `50%f.png` has neither quotes nor line feeds, and yet the command runs with another image. -/
theorem windows_command_captures_image :
    '"' ∉ "50%f.png".toList ∧ '\n' ∉ "50%f.png".toList
      ∧ ¬ Dialect.ReadsCommand { Settings.initial with batch := true }.sanitized "50%f.png".toList
        "clip.mp4".toList "clip".toList := by
  refine ⟨by decide, by decide, ?_⟩
  rw [Dialect.readsCommand_iff _ (Settings.inputFolder_sanitized_ne_nil _) (Settings.inert_extension _) (by decide)
    (by decide) (by decide)]
  exact fun h => absurd h.1 (by decide +kernel)

end Watermark
