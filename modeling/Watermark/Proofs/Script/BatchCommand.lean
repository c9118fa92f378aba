import Watermark.Proofs.Command.Arguments
import Watermark.Proofs.Script.Path

/-!
# One command, single or in a batch

A batch script renders the template of the edit with its own escape, a single file without one. Of what a template
holds only the name of the image has characters that an escape changes, so the line in the loop is the single
command of an image whose name is the escaped one:

* `invocation_eq`: the line for any layout, which need not come from the settings of the command;
* `escape_eq_self_iff`: a text is its own escape exactly if it holds no special character;
* `Settings.substitute_image_inj`: a command determines the name of its image;
* `batch_command_eq`: what a batch runs is, behind the indent, the single command with the escaped image, and the
  single command itself exactly if the name of the image holds no special character.
-/

namespace Watermark

namespace Dialect

/-! ## Special characters -/

/-- A character that does not stand for itself inside double quotes. -/
def special : Dialect → Char → Bool
  | .windows, c => c == '%'
  | .posix, c => isSpecial c

theorem escapeChar_of_special {d : Dialect} {c : Char} (h : d.special c = true) :
    ∃ e, d.escapeChar c = [e, c] := by
  cases d with
  | windows =>
    have hc : c = '%' := by simpa [special] using h
    exact ⟨'%', by simp [escapeChar, hc]⟩
  | posix =>
    have hc : isSpecial c = true := h
    exact ⟨'\\', by simp [escapeChar, hc]⟩

theorem escapeChar_of_not_special {d : Dialect} {c : Char} (h : d.special c = false) : d.escapeChar c = [c] := by
  cases d with
  | windows =>
    have hc : c ≠ '%' := by simpa [special] using h
    simp [escapeChar, hc]
  | posix =>
    have hc : isSpecial c = false := h
    simp [escapeChar, hc]

theorem length_escapeChar_pos (d : Dialect) (c : Char) : 0 < (d.escapeChar c).length := by
  obtain ⟨e, he, -⟩ := d.exists_escapeChar c
  simp [he]

theorem length_le_escape (d : Dialect) (t : Text) : t.length ≤ (d.escape t).length := by
  induction t with
  | nil => simp
  | cons c t ih =>
    have := d.length_escapeChar_pos c
    simp only [escape_cons, List.length_append, List.length_cons]
    omega

/-- Every special character makes the escaped text longer. -/
theorem length_lt_escape {d : Dialect} {t : Text} {c : Char} (hc : c ∈ t) (h : d.special c = true) :
    t.length < (d.escape t).length := by
  obtain ⟨a, b, rfl⟩ := List.append_of_mem hc
  obtain ⟨e, he⟩ := escapeChar_of_special h
  have ha := d.length_le_escape a
  have hb := d.length_le_escape b
  simp only [escape_append, escape_cons, he, List.length_append, List.length_cons, List.length_nil]
  omega

/-- A text is its own escape exactly if it holds no special character. -/
theorem escape_eq_self_iff {d : Dialect} {t : Text} : d.escape t = t ↔ ∀ c ∈ t, d.special c = false := by
  constructor
  · intro h c hc
    by_contra hspecial
    rw [Bool.not_eq_false] at hspecial
    have hlt := length_lt_escape hc hspecial
    rw [h] at hlt
    omega
  · intro h
    exact escape_eq_self fun c hc => escapeChar_of_not_special (h c hc)

end Dialect

/-! ## The line of a batch -/

/-- The image can be read off a command, whatever its name holds. -/
theorem Settings.substitute_image_inj {s : Settings} {image image' input output : Text} :
    (s.template image).substitute input output = (s.template image').substitute input output ↔ image = image' := by
  constructor
  · intro h
    rw [substitute_template_eq, substitute_template_eq] at h
    -- in front of the image both commands are the same, and so they are behind it
    have h := List.append_cancel_left h
    have h := List.append_cancel_left (List.cons.inj h).2
    have h := List.append_cancel_left (List.cons.inj h).2
    exact List.append_cancel_right (List.cons.inj h).2
  · rintro rfl
    rfl

namespace Dialect

/-- The command for the file at hand escapes the image and nothing else. -/
theorem invocation_eq (d : Dialect) (s : Settings) (image : Text) (l : Layout) :
    d.invocation (s.template image) l
      = indent ++ (s.template (d.escape image)).substitute d.currentFile (d.outputFile l) := by
  have hescape : ∀ t : Text, t.Inert → d.escape t = t := fun _ => d.escape_of_inert
  rw [invocation, s.render_template_eq image hescape, s.substitute_template_eq]

theorem getLast?_body (d : Dialect) (t : Template) (l : Layout) : (d.body t l).getLast? = some (d.invocation t l) := by
  cases d <;> rfl

end Dialect

/-- A batch runs, behind the indent, the single command for the loop's own input and output and the escaped name of
the image. That is the command of the image itself exactly if its name holds no character that is special to the
dialect. -/
theorem batch_command_eq (s : Settings) (image : Text) (d : Dialect) (l : Layout) :
    let line := (d.body (s.template image) l).getLast?
    let single := fun name => (s.template name).substitute d.currentFile (d.outputFile l)
    line = some (Dialect.indent ++ single (d.escape image))
      ∧ (line = some (Dialect.indent ++ single image) ↔ ∀ c ∈ image, d.special c = false) := by
  intro line single
  have hline : line = some (Dialect.indent ++ single (d.escape image)) := by
    rw [show line = some (d.invocation (s.template image) l) from d.getLast?_body _ l, d.invocation_eq]
  refine ⟨hline, ?_⟩
  rw [hline, Option.some_inj, List.append_right_inj, Settings.substitute_image_inj, Dialect.escape_eq_self_iff]

end Watermark
