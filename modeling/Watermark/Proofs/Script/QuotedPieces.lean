import Watermark.Proofs.Command.Arguments
import Watermark.Proofs.Script.Path
import Watermark.Proofs.Settings.Sanitized

/-!
# Quotes in a batch file

A line of a batch file goes in and out of quotes at each double quote. So cut at its quotes, a line gives its
pieces, every second of them quoted. `Dialect.pieces` says which pieces the lines of a script are written from, with
each configured text in a quoted piece of its own. Escaping for `cmd.exe` changes percent signs only, so a quote or
a line feed in a configured text is written as it is, and the lines are read as they were written just if there
is none (`windows_quotes_iff`).
-/

namespace Watermark

namespace Dialect

/-! ## The pieces of a script -/

def soundPieces : Soundtrack → List Text
  | .copied => [" -map 0:a -c:a copy ".toList]
  | .tempo factor => [" -filter:a ".toList, "atempo=".toList ++ factor.numeral, [' ']]

/-- The lines up to the end of the loop's body, each as its pieces, every second of them quoted. -/
def pieces (s : Settings) (image : Text) : List (List Text) :=
  let folder := windows.escape (windows.join s.inputFolder s.outputFolder)
  [ ["@echo off".toList],
    ["if not exist ".toList, folder, " mkdir ".toList, folder, []],
    ["echo Processing ".toList ++ s.extension ++ " files...".toList],
    ["for %%f in (".toList,
      windows.escape (s.inputFolder.dropTrailing windows.isSeparator) ++ "\\*.".toList ++ s.extension,
      ") do (".toList],
    [indent ++ "echo Processing: %%f".toList],
    [indent ++ ("ffmpeg".toList ++ Argument.line s.timing ++ " -i ".toList), "%%f".toList,
        " -i ".toList, windows.escape image,
        " -filter_complex ".toList, s.chain.pipeline, " -map ".toList, s.chain.active.label]
      ++ soundPieces s.soundtrack
      ++ [windows.escape ((windows.join s.inputFolder s.outputFolder).dropTrailing windows.isSeparator)
          ++ "\\%%~nf.".toList ++ s.extension,
        []] ]

/-- The lines up to the end of the loop's body. -/
def openingLines (d : Dialect) (s : Settings) (image : Text) : List Text :=
  let l := Layout.ofSettings d s
  d.setup l ++ d.header l ++ d.body (s.template image) l

theorem intercalate_soundPieces (t : Soundtrack) (p q : Text) :
    List.intercalate ['"'] (p :: (soundPieces t ++ [q, []]))
      = p ++ '"' :: (Argument.line (Argument.soundtrack t) ++ [' '] ++ '"' :: (q ++ ['"'])) := by
  cases t with
  | copied => simp [soundPieces, Argument.soundtrack, Argument.line, Argument.render]
  | tempo factor => simp [soundPieces, Argument.soundtrack, Argument.line, Argument.render, Segment.render]

theorem header_windows {s : Settings} (h : s.inputFolder ≠ []) (hext : s.extension.Inert) :
    windows.header (.ofSettings .windows s)
      = ["for %%f in (\"".toList ++ (windows.escape (s.inputFolder.dropTrailing windows.isSeparator)
          ++ "\\*.".toList ++ s.extension) ++ "\") do (".toList] := by
  have hfolder : (Layout.ofSettings .windows s).inputFolder ≠ [] := escape_ne_nil h
  have hglob : (glob (Layout.ofSettings .windows s)).dropWhile windows.isSeparator
      = "*.".toList ++ s.extension := by
    rw [glob, Layout.ofSettings, escape_of_inert windows hext]
    rfl
  rw [header, join_of_ne_nil hfolder, hglob, Layout.ofSettings, escape_dropTrailing,
    List.append_assoc _ _ s.extension]
  rfl

/-- The line of the command is written from its pieces. -/
theorem invocation_windows {s : Settings} (image : Text) (h : s.inputFolder ≠ []) (hext : s.extension.Inert) :
    windows.invocation (s.template image) (.ofSettings .windows s)
      = List.intercalate ['"']
        ([indent ++ ("ffmpeg".toList ++ Argument.line s.timing ++ " -i ".toList), "%%f".toList,
            " -i ".toList, windows.escape image,
            " -filter_complex ".toList, s.chain.pipeline, " -map ".toList, s.chain.active.label]
          ++ soundPieces s.soundtrack
          ++ [windows.escape ((windows.join s.inputFolder s.outputFolder).dropTrailing windows.isSeparator)
              ++ "\\%%~nf.".toList ++ s.extension,
            []]) := by
  have houtput : windows.outputFile (.ofSettings .windows s)
      = windows.escape ((windows.join s.inputFolder s.outputFolder).dropTrailing windows.isSeparator)
        ++ "\\%%~nf.".toList ++ s.extension := by
    rw [outputFile_ofSettings h, escape_of_inert windows hext, List.append_assoc _ _ s.extension]
    rfl
  rw [invocation, s.render_template_eq image fun _ => escape_of_inert windows, houtput]
  simp only [List.cons_append, List.nil_append, List.append_assoc, List.intercalate_cons_cons,
    intercalate_soundPieces, Settings.picture]
  simp [currentFile, Argument.line, Argument.render, Segment.render]

/-- The lines are written from their pieces. -/
theorem openingLines_eq {s : Settings} (image : Text) (h : s.inputFolder ≠ []) (hext : s.extension.Inert) :
    windows.openingLines s image = (pieces s image).map (List.intercalate ['"']) := by
  rw [openingLines, header_windows h hext, body, invocation_windows image h hext, pieces, setup]
  simp [Layout.ofSettings, escape_of_inert windows hext]

/-! ## Quotes and line feeds in configured texts -/

section

variable {x : Char} {t : Text}

/-- Escaping neither adds nor removes a character that it does not know. -/
theorem mem_escape_iff (hx : x ≠ '%') : x ∈ windows.escape t ↔ x ∈ t := by
  induction t with
  | nil => rfl
  | cons c t ih =>
    rw [escape_cons, List.mem_append, ih, List.mem_cons, escapeChar]
    by_cases hc : c = '%'
    · simp [hc, hx]
    · simp [hc]

theorem mem_join_iff {d : Dialect} {base child : Text} (h : base ≠ []) (hx : d.isSeparator x = false)
    (hsep : x ≠ d.separator) : x ∈ d.join base child ↔ x ∈ base ∨ x ∈ child := by
  rw [join_of_ne_nil h, List.mem_append, List.mem_cons, Text.mem_dropTrailing_iff hx, Text.mem_dropWhile_iff hx,
    or_iff_right hsep]

end

theorem not_mem_soundPieces {x : Char} (hx : x = '"' ∨ x = '\n') (t : Soundtrack) :
    ∀ p ∈ soundPieces t, x ∉ p := by
  have hinert : Text.isInert x = false := by rcases hx with rfl | rfl <;> decide
  cases t with
  | copied =>
    simp only [soundPieces, List.forall_mem_cons]
    refine ⟨?_, nofun⟩
    rcases hx with rfl | rfl <;> decide
  | tempo factor =>
    have hatempo : Text.Plain "atempo=".toList := by decide
    have hfactor : x ∉ "atempo=".toList ++ factor.numeral :=
      ((hatempo.append factor.plain_numeral).mono Text.isInert_of_isPlain).not_mem hinert
    simp only [soundPieces, List.forall_mem_cons]
    refine ⟨?_, hfactor, ?_, nofun⟩ <;> rcases hx with rfl | rfl <;> decide

/-- A quote or a line feed is in no piece, just if it is in no configured text. -/
theorem not_mem_pieces_iff {x : Char} (hx : x = '"' ∨ x = '\n') {s : Settings} (image : Text)
    (h : s.inputFolder ≠ []) (hext : s.extension.Inert) :
    (∀ ps ∈ pieces s image, ∀ p ∈ ps, x ∉ p)
      ↔ x ∉ s.inputFolder ∧ x ∉ s.outputFolder ∧ x ∉ image := by
  have hinert : Text.isInert x = false := by rcases hx with rfl | rfl <;> decide
  have hpercent : x ≠ '%' := by rcases hx with rfl | rfl <;> decide
  have hsep : windows.isSeparator x = false := by rcases hx with rfl | rfl <;> decide
  have hjoin : x ≠ windows.separator := by rcases hx with rfl | rfl <;> decide
  have hextension : x ∉ s.extension := hext.not_mem hinert
  have hpipeline : x ∉ s.chain.pipeline := s.chain.inert_pipeline.not_mem hinert
  have hlabel : x ∉ s.chain.active.label := s.chain.active.inert_label.not_mem hinert
  have htiming : x ∉ Argument.line s.timing := fun hc => by
    rcases Settings.mem_line_timing hc with hc | hc
    · rcases hx with rfl | rfl <;> exact absurd hc (by decide)
    · rw [Text.isInert_of_isWordChar x hc] at hinert
      cases hinert
  have hfixed : ∀ t ∈ ["@echo off".toList, "if not exist ".toList, " mkdir ".toList, "echo Processing ".toList,
      " files...".toList, "for %%f in (".toList, "\\*.".toList, ") do (".toList, indent,
      "echo Processing: %%f".toList, "ffmpeg".toList, " -i ".toList, "%%f".toList, " -filter_complex ".toList,
      " -map ".toList, "\\%%~nf.".toList], x ∉ t := by
    rcases hx with rfl | rfl <;> decide
  simp only [List.forall_mem_cons] at hfixed
  have hsound := not_mem_soundPieces hx s.soundtrack
  simp only [pieces, List.forall_mem_cons, List.forall_mem_append]
  simp only [List.mem_append, not_or, mem_escape_iff hpercent, Text.mem_dropTrailing_iff hsep,
    mem_join_iff h hsep hjoin, hfixed, hextension, hpipeline, hlabel, htiming]
  -- what is left names the folders several times and the image once
  constructor
  · rintro ⟨-, ⟨-, ⟨hin, hout⟩, -⟩, -, -, -, ⟨⟨⟨-, -, -, himage, -⟩, -⟩, -⟩, -⟩
    exact ⟨hin, hout, himage⟩
  · rintro ⟨hin, hout, himage⟩
    simp only [hin, hout, himage, not_false_eq_true, true_and, and_true, List.not_mem_nil, false_implies,
      implies_true]
    exact hsound

/-- The lines up to the end of the loop's body are read as they are written: cut at their quotes, they give their
pieces, and each is one line. -/
def KeepsQuotes (s : Settings) (image : Text) : Prop :=
  (windows.openingLines s image).map (List.splitOn '"') = pieces s image
    ∧ ∀ line ∈ windows.openingLines s image, '\n' ∉ line

theorem keepsQuotes_iff {s : Settings} (image : Text) (h : s.inputFolder ≠ []) (hext : s.extension.Inert) :
    KeepsQuotes s image
      ↔ ∀ t ∈ [s.inputFolder, s.outputFolder, image], '"' ∉ t ∧ '\n' ∉ t := by
  have hne : ∀ ps ∈ pieces s image, ps ≠ [] := by
    simp only [pieces, List.forall_mem_cons]
    refine ⟨?_, ?_, ?_, ?_, ?_, ?_, nofun⟩ <;> exact List.cons_ne_nil _ _
  have hquotes : (windows.openingLines s image).map (List.splitOn '"') = pieces s image
      ↔ ∀ ps ∈ pieces s image, ∀ p ∈ ps, '"' ∉ p := by
    rw [openingLines_eq image h hext, List.map_map]
    conv => lhs; rhs; rw [← List.map_id (pieces s image)]
    rw [List.map_inj_left]
    exact forall₂_congr fun ps hps => Text.splitOn_intercalate_iff (hne ps hps)
  have hlines : (∀ line ∈ windows.openingLines s image, '\n' ∉ line)
      ↔ ∀ ps ∈ pieces s image, ∀ p ∈ ps, '\n' ∉ p := by
    rw [openingLines_eq image h hext, List.forall_mem_map]
    exact forall₂_congr fun ps _ => Text.not_mem_intercalate_iff (by decide)
  rw [KeepsQuotes, hquotes, hlines, not_mem_pieces_iff (.inl rfl) image h hext,
    not_mem_pieces_iff (.inr rfl) image h hext]
  simp only [List.forall_mem_cons]
  constructor
  · rintro ⟨⟨hqi, hqo, hqm⟩, hni, hno, hnm⟩
    exact ⟨⟨hqi, hni⟩, ⟨hqo, hno⟩, ⟨hqm, hnm⟩, nofun⟩
  · rintro ⟨⟨hqi, hni⟩, ⟨hqo, hno⟩, ⟨hqm, hnm⟩, -⟩
    exact ⟨⟨hqi, hqo, hqm⟩, hni, hno, hnm⟩

end Dialect

/-- A batch file keeps each configured text in its quotes and on its line, just if neither a folder nor the image
holds a quote or a line feed. -/
theorem windows_quotes_iff (settings : Settings) (image : Text) :
    Dialect.KeepsQuotes settings.sanitized image
      ↔ ∀ t ∈ [settings.sanitized.inputFolder, settings.sanitized.outputFolder, image], '"' ∉ t ∧ '\n' ∉ t :=
  Dialect.keepsQuotes_iff image settings.inputFolder_sanitized_ne_nil settings.inert_extension

/-- A quote in the name of the image ends its quoted piece. -/
theorem windows_quote_in_image :
    ¬ Dialect.KeepsQuotes { Settings.initial with batch := true }.sanitized "a\" & calc & \".png".toList := by
  rw [Dialect.keepsQuotes_iff _ (Settings.inputFolder_sanitized_ne_nil _) (Settings.inert_extension _)]
  intro h
  exact absurd (h _ (List.mem_cons_of_mem _ (List.mem_cons_of_mem _ List.mem_cons_self))).1 (by decide)

end Watermark
