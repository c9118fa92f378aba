import Watermark.Command.Assemble
import Watermark.Proofs.Filter.Pipeline

/-!
# The arguments of a command

A template is a list of segments, where words, blanks and quotes are apart. Here it is seen as what it stands for:
the program and its arguments (`Settings.arguments`), each with one blank before it (`render_template`). Apart from
the two slots and the name of the image, an argument is made of characters that no script interprets
(`Argument.Fixed`, `expected_arguments`). So the command is the same text under every escape, but for the image
(`render_template_eq`).
-/

namespace Watermark

/-- An argument as it is written. -/
inductive Argument where
  /-- A fixed word. -/
  | word (text : Text)
  /-- A value without quotes. -/
  | bare (value : Text)
  /-- A segment in double quotes. -/
  | quoted (segment : Segment)

namespace Argument

def segments : Argument → List Segment
  | word t => Template.word t
  | bare v => Template.bare v
  | quoted s => Template.quoted s

/-- The text of an argument, without the blank before it. -/
def render (escape : Text → Text) (input output : Text) : Argument → Text
  | word t => t
  | bare v => escape v
  | quoted s => '"' :: (s.render escape input output ++ ['"'])

/-- The argument as the program sees it, without escapes and quotes. -/
def value (input output : Text) : Argument → Text
  | word t => t
  | bare v => v
  | quoted s => s.render id input output

theorem flatMap_segments (escape : Text → Text) (input output : Text) (a : Argument) :
    a.segments.flatMap (Segment.render escape input output) = ' ' :: a.render escape input output := by
  cases a with
  | word t => simp [segments, Template.word, Segment.render, render]
  | bare v => simp [segments, Template.bare, Segment.render, render]
  | quoted s => simp [segments, Template.quoted, Segment.render, render]

/-- A flag with a number, where there is one. -/
def timed (flag : Text) : Option Binary64 → List Argument
  | some t => [word flag, bare t.numeral]
  | none => []

def soundtrack : Soundtrack → List Argument
  | .copied => [word "-map".toList, word "0:a".toList, word "-c:a".toList, word "copy".toList]
  | .tempo factor => [word "-filter:a".toList, quoted (.value ("atempo=".toList ++ factor.numeral))]

theorem segments_timed (flag : Text) (t : Option Binary64) :
    Template.timed flag t = (timed flag t).flatMap segments := by
  cases t with
  | none => rfl
  | some t => rfl

theorem segments_soundtrack (t : Soundtrack) : Template.soundtrack t = (soundtrack t).flatMap segments := by
  cases t with
  | copied => rfl
  | tempo factor => rfl

end Argument

namespace Settings

/-- The arguments for the part of the source. -/
def timing (s : Settings) : List Argument :=
  Argument.timed "-ss".toList s.trimWindow.seek ++ Argument.timed "-t".toList s.trimWindow.length

/-- The arguments for the picture and the audio. -/
def picture (s : Settings) : List Argument :=
  [.word "-filter_complex".toList, .quoted (.value s.chain.pipeline),
      .word "-map".toList, .quoted (.value s.chain.active.label)]
    ++ Argument.soundtrack s.soundtrack

/-- The arguments of the edit, in their fixed order. -/
def arguments (s : Settings) (image : Text) : List Argument :=
  s.timing ++ [.word "-i".toList, .quoted .input, .word "-i".toList, .quoted (.value image)]
    ++ s.picture ++ [.quoted .output]

variable (s : Settings) (image : Text)

/-- The words of the command for two files. -/
def words (input output : Text) : List Text :=
  "ffmpeg".toList :: (s.arguments image).map (Argument.value input output)

theorem segments_template :
    (s.template image).segments
      = .fixed "ffmpeg".toList :: (s.arguments image).flatMap Argument.segments := by
  rw [template, Template.assemble, arguments, timing, picture, Argument.segments_timed, Argument.segments_timed,
    Argument.segments_soundtrack]
  simp [Argument.segments, List.append_assoc]

/-- The command is the program and its arguments, with a blank before each. -/
theorem render_template (escape : Text → Text) (input output : Text) :
    (s.template image).render escape input output
      = "ffmpeg".toList
        ++ (s.arguments image).flatMap fun a => ' ' :: a.render escape input output := by
  rw [Template.render, segments_template, List.flatMap_cons, List.flatMap_assoc]
  simp only [Argument.flatMap_segments]
  rfl

end Settings

/-! ## The characters of arguments -/

namespace Argument

/-- An argument without characters that a script interprets. -/
inductive Fixed : Argument → Prop where
  | word (t : Text) : t ≠ [] → t.All Text.isWordChar → Fixed (word t)
  | bare (t : Text) : t ≠ [] → t.All Text.isWordChar → Fixed (bare t)
  | quoted (t : Text) : t.Inert → Fixed (quoted (.value t))

/-- The arguments that a command with the image is made of. Only the slots and the image hold any character. -/
inductive Expected (image : Text) : Argument → Prop where
  | fixed (a : Argument) : a.Fixed → Expected image a
  | input : Expected image (quoted .input)
  | output : Expected image (quoted .output)
  | image : Expected image (quoted (.value image))

theorem fixed_timed {flag : Text} {t : Option Binary64} (hne : flag ≠ [])
    (hflag : flag.All Text.isWordChar) : ∀ a ∈ timed flag t, Fixed a := by
  cases t with
  | none => exact nofun
  | some t =>
    simp only [timed, List.forall_mem_cons]
    exact ⟨.word _ hne hflag, .bare _ t.numeral_ne_nil t.word_numeral, nofun⟩

theorem fixed_soundtrack (t : Soundtrack) : ∀ a ∈ soundtrack t, Fixed a := by
  cases t with
  | copied =>
    simp only [soundtrack, List.forall_mem_cons]
    refine ⟨.word _ ?_ ?_, .word _ ?_ ?_, .word _ ?_ ?_, .word _ ?_ ?_, nofun⟩ <;> decide
  | tempo factor =>
    have hatempo : Text.Plain "atempo=".toList := by decide
    have hfilter := (hatempo.append factor.plain_numeral).mono Text.isInert_of_isPlain
    simp only [soundtrack, List.forall_mem_cons]
    refine ⟨.word _ ?_ ?_, .quoted _ hfilter, nofun⟩ <;> decide

end Argument

namespace Settings

variable (s : Settings) (image : Text)

theorem fixed_timing : ∀ a ∈ s.timing, a.Fixed := by
  rw [timing, List.forall_mem_append]
  exact ⟨Argument.fixed_timed (by decide) (by decide), Argument.fixed_timed (by decide) (by decide)⟩

theorem fixed_picture : ∀ a ∈ s.picture, a.Fixed := by
  rw [picture, List.forall_mem_append]
  refine ⟨?_, Argument.fixed_soundtrack _⟩
  simp only [List.forall_mem_cons]
  refine ⟨.word _ ?_ ?_, .quoted _ s.chain.inert_pipeline, .word _ ?_ ?_,
    .quoted _ s.chain.active.inert_label, nofun⟩ <;> decide

theorem expected_arguments : ∀ a ∈ s.arguments image, a.Expected image := by
  have hfiles : ∀ a ∈ [Argument.word "-i".toList, .quoted .input, .word "-i".toList, .quoted (.value image)],
      a.Expected image := by
    simp only [List.forall_mem_cons]
    refine ⟨.fixed _ (.word _ ?_ ?_), .input, .fixed _ (.word _ ?_ ?_), .image, nofun⟩ <;> decide
  have houtput : ∀ a ∈ [Argument.quoted .output], a.Expected image := by
    simp only [List.forall_mem_cons]
    exact ⟨.output, nofun⟩
  simp only [arguments, List.forall_mem_append]
  exact ⟨⟨⟨fun a ha => .fixed a (s.fixed_timing a ha), hfiles⟩, fun a ha => .fixed a (s.fixed_picture a ha)⟩,
    houtput⟩

end Settings

/-! ## The text of a command -/

namespace Argument

/-- The text of arguments without slots. -/
def line (as : List Argument) : Text := as.flatMap fun a => ' ' :: a.render id [] []

theorem line_append (as bs : List Argument) : line (as ++ bs) = line as ++ line bs := List.flatMap_append

theorem Fixed.render_eq {a : Argument} (h : a.Fixed) {escape : Text → Text}
    (hescape : ∀ t : Text, t.Inert → escape t = t) (input output : Text) :
    a.render escape input output = a.render id [] [] := by
  cases h with
  | word t _ _ => rfl
  | bare t _ ht => exact hescape t (ht.mono Text.isInert_of_isWordChar)
  | quoted t ht =>
    show '"' :: (escape t ++ ['"']) = '"' :: (t ++ ['"'])
    rw [hescape t ht]

theorem flatMap_render {as : List Argument} (h : ∀ a ∈ as, a.Fixed) {escape : Text → Text}
    (hescape : ∀ t : Text, t.Inert → escape t = t) (input output : Text) :
    (as.flatMap fun a => ' ' :: a.render escape input output) = line as := by
  refine congrArg List.flatten (List.map_congr_left fun a ha => ?_)
  rw [(h a ha).render_eq hescape]

theorem mem_line {as : List Argument} (h : ∀ a ∈ as, a.Fixed) {c : Char} (hc : c ∈ line as) :
    c = ' ' ∨ c = '"' ∨ Text.isInert c = true := by
  obtain ⟨a, ha, hc⟩ := List.mem_flatMap.1 hc
  rcases List.mem_cons.1 hc with rfl | hc
  · exact .inl rfl
  cases h a ha with
  | word t _ ht => exact .inr (.inr (Text.isInert_of_isWordChar c (ht c hc)))
  | bare t _ ht => exact .inr (.inr (Text.isInert_of_isWordChar c (ht c hc)))
  | quoted t ht =>
    have hc : c ∈ '"' :: (t ++ ['"']) := hc
    simp only [List.mem_cons, List.mem_append, List.not_mem_nil, or_false] at hc
    rcases hc with rfl | hc | rfl
    · exact .inr (.inl rfl)
    · exact .inr (.inr (ht c hc))
    · exact .inr (.inl rfl)

theorem line_timed (flag : Text) (t : Binary64) :
    line (timed flag (some t)) = ' ' :: (flag ++ ' ' :: t.numeral) := by
  simp [line, timed, render]

theorem mem_line_timed {flag : Text} (hflag : flag.All Text.isWordChar) {t : Option Binary64}
    {c : Char} (hc : c ∈ line (timed flag t)) : c = ' ' ∨ Text.isWordChar c = true := by
  cases t with
  | none => cases hc
  | some t =>
    rw [line_timed, List.mem_cons, List.mem_append, List.mem_cons] at hc
    rcases hc with rfl | hc | rfl | hc
    · exact .inl rfl
    · exact .inr (hflag c hc)
    · exact .inl rfl
    · exact .inr (t.word_numeral c hc)

end Argument

theorem Settings.mem_line_timing {s : Settings} {c : Char} (hc : c ∈ Argument.line s.timing) :
    c = ' ' ∨ Text.isWordChar c = true := by
  rw [timing, Argument.line_append, List.mem_append] at hc
  exact hc.elim (Argument.mem_line_timed (by decide)) (Argument.mem_line_timed (by decide))

/-- The command around its two files and the image, under an escape that keeps what needs none. -/
theorem Settings.render_template_eq (s : Settings) (image : Text) {escape : Text → Text}
    (hescape : ∀ t : Text, t.Inert → escape t = t) (input output : Text) :
    (s.template image).render escape input output
      = "ffmpeg".toList ++ Argument.line s.timing ++ " -i ".toList ++ '"' :: (input ++ '"' :: (" -i ".toList
        ++ '"' :: (escape image ++ '"' :: (Argument.line s.picture ++ [' '] ++ '"' :: (output ++ ['"']))))) := by
  rw [render_template, arguments]
  simp only [List.flatMap_append, Argument.flatMap_render s.fixed_timing hescape,
    Argument.flatMap_render s.fixed_picture hescape]
  simp [Argument.render, Segment.render]

/-- The command for two files. -/
theorem Settings.substitute_template_eq (s : Settings) (image input output : Text) :
    (s.template image).substitute input output
      = "ffmpeg".toList ++ Argument.line s.timing ++ " -i ".toList ++ '"' :: (input ++ '"' :: (" -i ".toList
        ++ '"' :: (image ++ '"' :: (Argument.line s.picture ++ [' '] ++ '"' :: (output ++ ['"']))))) :=
  @render_template_eq s image id (fun _ _ => rfl) input output

end Watermark
