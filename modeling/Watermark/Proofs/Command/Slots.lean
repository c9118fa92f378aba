import Watermark.Command.Assemble

/-!
# The two slots of a command

A command has one slot for the input and, behind it, one for the output. The segments before, between and behind them
hold no slot (`Slotless`), so their text is the same for every two files (`render_of_slotless`), and filling in a
command puts the two files between three texts that do not depend on them (`render_around_slots`). So a name that goes
in is never looked at again, also if it looks like a slot or ends a quote.

What stands before the input (`literal_opening`) and between the two files (`literal_middle`) is written out with the
escape at each text that comes from the settings or names the image, and nowhere else.
-/

namespace Watermark

/-! ## Segments without slots -/

namespace Segment

def isSlot : Segment → Bool
  | .input | .output => true
  | .fixed _ | .value _ => false

@[simp] theorem isSlot_fixed (w : Text) : (Segment.fixed w).isSlot = false := rfl

@[simp] theorem isSlot_value (v : Text) : (Segment.value v).isSlot = false := rfl

/-- A segment that is no slot has a text of its own. -/
theorem render_of_not_isSlot {g : Segment} (h : g.isSlot = false) (escape : Text → Text) (input output : Text) :
    g.render escape input output = g.render escape [] [] := by
  cases g with
  | fixed t => rfl
  | value t => rfl
  | input => cases h
  | output => cases h

end Segment

namespace Template

def Slotless (gs : List Segment) : Prop := ∀ g ∈ gs, g.isSlot = false

/-- The text of segments without slots. -/
def literal (escape : Text → Text) (gs : List Segment) : Text := gs.flatMap (Segment.render escape [] [])

section
variable (escape : Text → Text) (g : Segment) (fs gs : List Segment)

@[simp] theorem slotless_nil : Slotless [] := List.forall_mem_nil _

@[simp] theorem slotless_cons : Slotless (g :: gs) ↔ g.isSlot = false ∧ Slotless gs := List.forall_mem_cons

@[simp] theorem slotless_append : Slotless (fs ++ gs) ↔ Slotless fs ∧ Slotless gs := List.forall_mem_append

@[simp] theorem slotless_word (w : Text) : Slotless (word w) := by simp [word]

@[simp] theorem slotless_bare (v : Text) : Slotless (bare v) := by simp [bare]

@[simp] theorem slotless_quoted : Slotless (quoted g) ↔ g.isSlot = false := by simp [quoted]

@[simp] theorem slotless_timed (flag : Text) (t : Option Binary64) : Slotless (timed flag t) := by
  cases t <;> simp [timed]

@[simp] theorem slotless_soundtrack (t : Soundtrack) : Slotless (soundtrack t) := by
  cases t <;> simp [soundtrack]

@[simp] theorem literal_nil : literal escape [] = [] := rfl

@[simp] theorem literal_fixed (w : Text) : literal escape (.fixed w :: gs) = w ++ literal escape gs :=
  List.flatMap_cons

@[simp] theorem literal_value (v : Text) : literal escape (.value v :: gs) = escape v ++ literal escape gs :=
  List.flatMap_cons

@[simp] theorem literal_append : literal escape (fs ++ gs) = literal escape fs ++ literal escape gs :=
  List.flatMap_append

theorem render_of_slotless {gs : List Segment} (h : Slotless gs) (input output : Text) :
    gs.flatMap (Segment.render escape input output) = literal escape gs :=
  congrArg List.flatten (List.map_congr_left fun g hg => g.render_of_not_isSlot (h g hg) escape input output)

theorem filter_isSlot_of_slotless {gs : List Segment} (h : Slotless gs) : gs.filter Segment.isSlot = [] :=
  List.filter_eq_nil_iff.2 fun g hg => Bool.eq_false_iff.1 (h g hg)

end

/-! ## Segments around two slots -/

section
variable {t : Template} {front middle back : List Segment}

/-- The two files go between three texts that are the same for all files. -/
theorem render_around_slots (ht : t.segments = front ++ .input :: (middle ++ .output :: back))
    (hfront : Slotless front) (hmiddle : Slotless middle) (hback : Slotless back) (escape : Text → Text)
    (input output : Text) :
    t.render escape input output
      = literal escape front ++ input ++ literal escape middle ++ output ++ literal escape back := by
  rw [render, ht, List.flatMap_append, List.flatMap_cons, List.flatMap_append, List.flatMap_cons,
    render_of_slotless escape hfront, render_of_slotless escape hmiddle, render_of_slotless escape hback]
  simp only [Segment.render, List.append_assoc]

theorem filter_isSlot_segments (ht : t.segments = front ++ .input :: (middle ++ .output :: back))
    (hfront : Slotless front) (hmiddle : Slotless middle) (hback : Slotless back) :
    t.segments.filter Segment.isSlot = [.input, .output] := by
  rw [ht, List.filter_append, List.filter_cons_of_pos rfl, List.filter_append, List.filter_cons_of_pos rfl,
    filter_isSlot_of_slotless hfront, filter_isSlot_of_slotless hmiddle, filter_isSlot_of_slotless hback]
  rfl

end

end Template

/-! ## The command of an edit -/

namespace Template

variable (s : Settings) (c : Chain) (image : Text) (escape : Text → Text)

/-- The text of a flag with a number, where there is one. -/
def timedText (flag : Text) : Option Binary64 → Text
  | some t => ' ' :: flag ++ ' ' :: escape t.numeral
  | none => []

def soundtrackText : Soundtrack → Text
  | .copied => ' ' :: "-map 0:a -c:a copy".toList
  | .tempo factor => ' ' :: ("-filter:a \"".toList ++ escape ("atempo=".toList ++ factor.numeral) ++ ['"'])

theorem literal_timed (flag : Text) (t : Option Binary64) :
    literal escape (timed flag t) = timedText escape flag t := by
  cases t <;> simp [timed, word, bare, timedText]

theorem literal_soundtrack (t : Soundtrack) : literal escape (soundtrack t) = soundtrackText escape t := by
  cases t <;> simp [soundtrack, word, quoted, soundtrackText]

/-- The segments up to the slot of the input. -/
def opening : List Segment :=
  .fixed "ffmpeg".toList :: timed "-ss".toList s.trimWindow.seek ++ timed "-t".toList s.trimWindow.length
    ++ word "-i".toList ++ [.fixed [' ', '"']]

/-- The segments between the two slots. -/
def middle : List Segment :=
  .fixed ['"'] :: word "-i".toList ++ quoted (.value image)
    ++ word "-filter_complex".toList ++ quoted (.value c.pipeline)
    ++ word "-map".toList ++ quoted (.value c.active.label)
    ++ soundtrack s.soundtrack ++ [.fixed [' ', '"']]

theorem segments_assemble :
    (assemble s c image).segments = opening s ++ .input :: (middle s c image ++ .output :: [.fixed ['"']]) := by
  simp [assemble, opening, middle, quoted]

theorem slotless_opening : Slotless (opening s) := by
  simp [opening]

theorem slotless_middle : Slotless (middle s c image) := by
  simp [middle]

theorem literal_opening :
    literal escape (opening s)
      = "ffmpeg".toList ++ timedText escape "-ss".toList s.trimWindow.seek
        ++ timedText escape "-t".toList s.trimWindow.length ++ " -i \"".toList := by
  simp [opening, literal_timed, word]

theorem literal_middle :
    literal escape (middle s c image)
      = "\" -i \"".toList ++ escape image ++ "\" -filter_complex \"".toList ++ escape c.pipeline
        ++ "\" -map \"".toList ++ escape c.active.label ++ "\"".toList ++ soundtrackText escape s.soundtrack
        ++ " \"".toList := by
  simp [middle, literal_soundtrack, word, quoted]

end Template

/-- A command around any chain and image is a text up to the quoted name of its input, the input, a text up to the
quoted name of its output, the output and a quote, whatever the two names and the image hold. Neither text depends on
the names, and the escape is applied once to each time, the image, the pipeline, its label and the tempo. -/
theorem slots_filled_in_place (s : Settings) (c : Chain) (image : Text) :
    let t := Template.assemble s c image
    let before := fun escape : Text → Text =>
      "ffmpeg".toList ++ Template.timedText escape "-ss".toList s.trimWindow.seek
        ++ Template.timedText escape "-t".toList s.trimWindow.length ++ " -i \"".toList
    let between := fun escape : Text → Text =>
      "\" -i \"".toList ++ escape image ++ "\" -filter_complex \"".toList ++ escape c.pipeline
        ++ "\" -map \"".toList ++ escape c.active.label ++ "\"".toList
        ++ Template.soundtrackText escape s.soundtrack ++ " \"".toList
    t.segments.filter Segment.isSlot = [.input, .output]
      ∧ (∀ escape, "-i \"".toList <:+ before escape)
      ∧ (∀ escape input output, t.render escape input output
        = before escape ++ input ++ between escape ++ output ++ ['"'])
      ∧ (∀ input output, t.substitute input output = before id ++ input ++ between id ++ output ++ ['"'])
      ∧ t.text = before id ++ "%INPUT%".toList ++ between id ++ "%OUTPUT%".toList ++ ['"'] := by
  intro t before between
  have hsegments := Template.segments_assemble s c image
  have hback : Template.Slotless [.fixed ['"']] := by simp
  have hrender : ∀ escape input output,
      t.render escape input output = before escape ++ input ++ between escape ++ output ++ ['"'] := by
    intro escape input output
    rw [Template.render_around_slots hsegments (Template.slotless_opening s) (Template.slotless_middle s c image) hback,
      Template.literal_opening, Template.literal_middle]
    rfl
  refine ⟨?_, ?_, hrender, hrender id, hrender id _ _⟩
  · exact Template.filter_isSlot_segments hsegments (Template.slotless_opening s) (Template.slotless_middle s c image)
      hback
  · exact fun escape => List.suffix_append_of_suffix (List.suffix_cons ' ' _)

end Watermark
