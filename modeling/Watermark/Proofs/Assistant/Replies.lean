import Watermark.Assistant.Reply
import Watermark.Proofs.Json.RecordShape

/-!
# Every reply is classified

The content of a body decides what it is. A response holds candidates and feedback on the question, each of which may be
missing (`isResponse`); a refusal has to hold a message (`isRefusal`). At every level other members may stand between
those that are looked for. What is made of a response is said twice, as the reader stores it (`bodyOf`) and straight
from the content (`answerText`, `blockReason?`), and both agree.

* `takesAs_body`, `takesAs_refusal`: the contents that are read as such bodies;
* `text_bodyOf`, `blockReason_bodyOf`: no text is lost or added, and no reason;
* `replies_classified`: the answer in any reply.
-/

namespace Watermark.Reply

open Json (Slot TakesAs Typed)

/-! ## What a response is -/

def partSlots : List Slot := [⟨"text".toList, .initial, Json.Content.isText⟩]

/-- A piece of an answer. -/
def isPart : Json.Content → Bool := Json.Content.isRecord partSlots

def partText (c : Json.Content) : Text := (c.get partSlots "text").text

def contentSlots : List Slot :=
  [ ⟨"role".toList, .initial, Json.Content.isNullOr Json.Content.isText⟩,
    ⟨"parts".toList, .initial, Json.Content.isListOf isPart⟩ ]

/-- What a candidate says, and who speaks. -/
def isContent : Json.Content → Bool := Json.Content.isRecord contentSlots

def contentText (c : Json.Content) : Text := (c.get contentSlots "parts").items.flatMap partText

def candidateSlots : List Slot := [⟨"content".toList, .initialInObject, Json.Content.isNullOr isContent⟩]

/-- A candidate for the answer. -/
def isCandidate : Json.Content → Bool := Json.Content.isRecord candidateSlots

def candidateText (c : Json.Content) : Text := contentText (c.get candidateSlots "content")

def feedbackSlots : List Slot := [⟨"blockReason".toList, .initialInObject, Json.Content.isNullOr Json.Content.isText⟩]

/-- What the provider has to say about the question. -/
def isFeedback : Json.Content → Bool := Json.Content.isRecord feedbackSlots

def responseSlots : List Slot :=
  [ ⟨"candidates".toList, .initial, Json.Content.isListOf isCandidate⟩,
    ⟨"promptFeedback".toList, .initial, Json.Content.isNullOr isFeedback⟩ ]

/-- The body of a reply that is no refusal. -/
def isResponse : Json.Content → Bool := Json.Content.isRecord responseSlots

/-- Why the answer was blocked, where there is a reason. -/
def blockReason? (c : Json.Content) : Option Text :=
  ((c.get responseSlots "promptFeedback").get feedbackSlots "blockReason").text?

/-- The texts of all parts of all candidates in order. -/
def answerText (c : Json.Content) : Text := (c.get responseSlots "candidates").items.flatMap candidateText

def detailSlots : List Slot := [⟨"message".toList, .refused, Json.Content.isText⟩]

def refusalSlots : List Slot := [⟨"error".toList, .refused, Json.Content.isRecord detailSlots⟩]

/-- The body of a refusal that explains itself. -/
def isRefusal : Json.Content → Bool := Json.Content.isRecord refusalSlots

def refusalMessage (c : Json.Content) : Text := ((c.get refusalSlots "error").get detailSlots "message").text

/-! ## How bodies are read -/

section Shapes

open Json (Shape takesAs_text takesAs_optional takesAs_optionalText takesAs_list takesAs_record takesAs_single)
open Json.Typed (stores_of leaves_of slot_of)

theorem takesAs_part : TakesAs (Json.record Body.partFields ⟨[]⟩) isPart fun c => ⟨partText c⟩ :=
  takesAs_single "text" .initial Part.mk (fun _ _ => rfl) takesAs_text rfl

def contentShape : Shape (List Part) where
  fields :=
    [ .of "role" .initial (fun _ ps => ps) (takesAs_optional takesAs_text),
      .of "parts" .initial (fun v _ => v) (takesAs_list takesAs_part) ]
  slots := contentSlots
  nodup := by decide
  slots_eq := by simp [contentSlots, slot_of]

/-- The parts of what a candidate says. -/
def partsOf (c : Json.Content) : List Part := (c.get contentSlots "parts").items.map fun p => ⟨partText p⟩

theorem takesAs_content : TakesAs (Json.record Body.contentFields []) isContent partsOf := by
  refine (takesAs_record contentShape []).congr fun c hc => ?_
  exact contentShape.get_result (List.mem_cons_of_mem _ List.mem_cons_self) rfl id
    (fun v => v.items.map fun p => ⟨partText p⟩) (stores_of fun _ _ => rfl)
    (List.forall_mem_cons.2 ⟨fun _ => leaves_of fun _ _ => rfl, List.forall_mem_singleton.2 fun h => absurd rfl h⟩)
    rfl hc

/-- The parts of a candidate that says anything. -/
def contentOf (c : Json.Content) : Option (List Part) :=
  if (c.get candidateSlots "content").isNull then none else some (partsOf (c.get candidateSlots "content"))

theorem takesAs_candidate : TakesAs (Json.record Body.candidateFields none) isCandidate contentOf :=
  takesAs_single "content" .initialInObject id (fun _ _ => rfl) (takesAs_optional takesAs_content) rfl

theorem takesAs_feedback : TakesAs (Json.record Body.feedbackFields none) isFeedback
    fun c => (c.get feedbackSlots "blockReason").text? :=
  takesAs_single "blockReason" .initialInObject id (fun _ _ => rfl) takesAs_optionalText rfl

def bodyShape : Shape Body where
  fields :=
    [ .of "candidates" .initial (fun v b => { b with candidates := v }) (takesAs_list takesAs_candidate),
      .of "promptFeedback" .initial (fun v b => { b with blockReason := v.join }) (takesAs_optional takesAs_feedback) ]
  slots := responseSlots
  nodup := by decide
  slots_eq := by simp [responseSlots, slot_of]

/-- What is made of the body of a response. -/
def bodyOf (c : Json.Content) : Body := bodyShape.result ⟨[], none⟩ c

theorem takesAs_body : TakesAs (Json.record Body.fields ⟨[], none⟩) isResponse bodyOf := takesAs_record bodyShape _

theorem text_parts (c : Json.Content) : ((contentOf c).getD []).flatMap Part.text = candidateText c := by
  have hparts : ∀ v : Json.Content, (partsOf v).flatMap Part.text = contentText v := fun v => List.flatMap_map ..
  rw [contentOf, candidateText, ← hparts]
  cases c.get candidateSlots "content" <;> rfl

/-- The text of a body is that of all its candidates; one that says nothing adds nothing. -/
theorem text_candidates (cs : List Json.Content) (reason : Option Text) :
    (Body.mk (cs.map contentOf) reason).text = cs.flatMap candidateText := by
  induction cs with
  | nil => rfl
  | cons c cs ih =>
    have htext : (Body.mk ((c :: cs).map contentOf) reason).text
        = ((contentOf c).getD []).flatMap Part.text ++ (Body.mk (cs.map contentOf) reason).text := by
      cases h : contentOf c <;> simp [Body.text, h]
    rw [htext, ih, text_parts, List.flatMap_cons]

theorem text_bodyOf {c : Json.Content} (hc : isResponse c = true) : (bodyOf c).text = answerText c :=
  bodyShape.get_result List.mem_cons_self rfl Body.text (fun v => v.items.flatMap candidateText)
    (stores_of fun c b => text_candidates c.items b.blockReason)
    (List.forall_mem_cons.2 ⟨fun h => absurd rfl h, List.forall_mem_singleton.2 fun _ => leaves_of fun _ _ => rfl⟩)
    rfl hc

theorem blockReason_bodyOf {c : Json.Content} (hc : isResponse c = true) : (bodyOf c).blockReason = blockReason? c :=
  bodyShape.get_result (List.mem_cons_of_mem _ List.mem_cons_self) rfl Body.blockReason
    (fun v => (v.get feedbackSlots "blockReason").text?)
    (stores_of fun c _ => by cases c <;> rfl)
    (List.forall_mem_cons.2 ⟨fun _ => leaves_of fun _ _ => rfl, List.forall_mem_singleton.2 fun h => absurd rfl h⟩)
    rfl hc

theorem takesAs_detail : TakesAs (Json.record detailFields []) (Json.Content.isRecord detailSlots)
    fun c => (c.get detailSlots "message").text :=
  takesAs_single "message" .refused id (fun _ _ => rfl) takesAs_text rfl

theorem takesAs_refusal : TakesAs (Json.record refusalFields []) isRefusal refusalMessage :=
  takesAs_single "error" .refused id (fun _ _ => rfl) takesAs_detail rfl

end Shapes

/-! ## What else is in the bodies -/

section OnlyValues

open Json (OnlyValues onlyValues_text onlyValues_optional onlyValues_list onlyValues_record)

theorem onlyValues_content : OnlyValues (Json.record Body.contentFields []) := by
  have hpart : OnlyValues (Json.record Body.partFields ⟨[]⟩) :=
    onlyValues_record (List.forall_mem_singleton.2 (onlyValues_text.map _)) _
  exact onlyValues_record (List.forall_mem_cons.2 ⟨(onlyValues_optional onlyValues_text).map _,
    List.forall_mem_singleton.2 ((onlyValues_list hpart).map _)⟩) _

theorem onlyValues_body : OnlyValues (Json.record Body.fields ⟨[], none⟩) := by
  have hcandidate : OnlyValues (Json.record Body.candidateFields none) :=
    onlyValues_record (List.forall_mem_singleton.2 ((onlyValues_optional onlyValues_content).map _)) _
  have hfeedback : OnlyValues (Json.record Body.feedbackFields none) :=
    onlyValues_record (List.forall_mem_singleton.2 ((onlyValues_optional onlyValues_text).map _)) _
  exact onlyValues_record (List.forall_mem_cons.2 ⟨(onlyValues_list hcandidate).map _,
    List.forall_mem_singleton.2 ((onlyValues_optional hfeedback).map _)⟩) _

theorem onlyValues_refusal : OnlyValues (Json.record refusalFields []) := by
  have hdetail : OnlyValues (Json.record detailFields []) :=
    onlyValues_record (List.forall_mem_singleton.2 (onlyValues_text.map _)) _
  exact onlyValues_record (List.forall_mem_singleton.2 (hdetail.map _)) _

end OnlyValues

/-! ## The classes of replies -/

section Classes

open Json (ValueText)

variable (w : Wording) {status : Nat} {body : Text} {c : Json.Content}

/-- What a response amounts to: a block comes before all text, and text has to be more than blanks. -/
def verdict (c : Json.Content) : Except Failure Text :=
  match blockReason? c with
  | some reason => .error (.blocked reason)
  | none => if (answerText c).allBlank then .error .emptyAnswer else .ok (answerText c)

theorem refusalText_of_refusal (hvalue : ValueText c body) (hc : isRefusal c = true) :
    refusalText body = refusalMessage c := by
  have hread : Json.readAll (Json.record refusalFields []) body = .ok (refusalMessage c) :=
    (Json.readAll_eq_ok_iff onlyValues_refusal takesAs_refusal).2 ⟨c, hvalue, Json.Content.as_of_fits hc⟩
  rw [refusalText, hread]

/-- A body that explains nothing is the explanation. -/
theorem refusalText_of_other (h : ∀ c, ValueText c body → isRefusal c = false) : refusalText body = body := by
  rw [refusalText]
  cases hread : Json.readAll (Json.record refusalFields []) body with
  | error f => rfl
  | ok t =>
    obtain ⟨c, hvalue, htake⟩ := (Json.readAll_eq_ok_iff onlyValues_refusal takesAs_refusal).1 hread
    exact absurd (Json.Content.as_eq_some_iff.1 htake).1 (Bool.eq_false_iff.1 (h c hvalue))

theorem answerOf_response (hvalue : ValueText c body) (hc : isResponse c = true) : answerOf w body = verdict c := by
  have hread : Body.ofJson body = .ok (bodyOf c) :=
    (Json.readAll_eq_ok_iff onlyValues_body takesAs_body).2 ⟨c, hvalue, Json.Content.as_of_fits hc⟩
  rw [answerOf, hread]
  dsimp only
  rw [blockReason_bodyOf hc, text_bodyOf hc]
  rfl

theorem answerOf_other (h : ∀ c, ValueText c body → isResponse c = false) :
    ∃ detail, answerOf w body = .error (.malformed detail) := by
  rw [answerOf]
  cases hread : Body.ofJson body with
  | error f => exact ⟨w.json f, rfl⟩
  | ok b =>
    obtain ⟨c, hvalue, htake⟩ := (Json.readAll_eq_ok_iff onlyValues_body takesAs_body).1 hread
    exact absurd (Json.Content.as_eq_some_iff.1 htake).1 (Bool.eq_false_iff.1 (h c hvalue))

/-- A status outside of 200 to 299 is a refusal: its body holds a message, or is one as it stands. With any other status
a body that is no response is malformed, and a response gives its verdict. -/
theorem replies_classified (status : Nat) (body : Text) :
    (¬(200 ≤ status ∧ status ≤ 299) →
      (∀ c, ValueText c body → isRefusal c = true →
        answer w ⟨status, body⟩ = .error (.api status (refusalMessage c)))
      ∧ ((∀ c, ValueText c body → isRefusal c = false) → answer w ⟨status, body⟩ = .error (.api status body)))
    ∧ (200 ≤ status ∧ status ≤ 299 →
      ((∀ c, ValueText c body → isResponse c = false) → ∃ detail, answer w ⟨status, body⟩ = .error (.malformed detail))
      ∧ ∀ c, ValueText c body → isResponse c = true → answer w ⟨status, body⟩ = verdict c) := by
  constructor
  · intro hstatus
    have hanswer : answer w ⟨status, body⟩ = .error (.api status (refusalText body)) := if_neg hstatus
    rw [hanswer]
    constructor
    · intro c hvalue hc
      rw [refusalText_of_refusal hvalue hc]
    · intro hother
      rw [refusalText_of_other hother]
  · intro hstatus
    have hanswer : answer w ⟨status, body⟩ = answerOf w body := if_pos hstatus
    rw [hanswer]
    exact ⟨answerOf_other w, fun c => answerOf_response w⟩

/-- A reason stands behind a candidate with text, and blocks it. -/
theorem block_behind_text :
    let part : Json.Content := .object [(some "text".toList, .string (some "a".toList))]
    let said : Json.Content := .object [(some "parts".toList, .array [part])]
    let candidate : Json.Content := .object [(some "content".toList, said), (some "index".toList, .null)]
    let feedback : Json.Content := .object [(some "blockReason".toList, .string (some "b".toList))]
    let c : Json.Content :=
      .object [(some "candidates".toList, .array [candidate]), (some "promptFeedback".toList, feedback)]
    let body : Text :=
      "\x7b\"candidates\":[\x7b\"content\":\x7b\"parts\":[\x7b\"text\":\"a\"\x7d]\x7d,\"index\":null\x7d],".toList
        ++ "\"promptFeedback\":\x7b\"blockReason\":\"b\"\x7d\x7d".toList
    ValueText c body ∧ answerText c = "a".toList ∧ answer .standard ⟨200, body⟩ = .error (.blocked "b".toList) := by
  intro part said candidate feedback c body
  have hpart : Json.Derives (.value part) "\x7b\"text\":\"a\"\x7d".toList :=
    .object .nil (.lastMember (.plainMember (by decide) .nil .nil (.plain (by decide)) .nil))
  have hsaid : Json.Derives (.value said) "\x7b\"parts\":[\x7b\"text\":\"a\"\x7d]\x7d".toList :=
    .object .nil (.lastMember (.plainMember (by decide) .nil .nil (.array .nil (.lastElement hpart .nil)) .nil))
  have hcandidate : Json.Derives (.value candidate)
      "\x7b\"content\":\x7b\"parts\":[\x7b\"text\":\"a\"\x7d]\x7d,\"index\":null\x7d".toList :=
    .object .nil (.moreMembers (.plainMember (by decide) .nil .nil hsaid .nil) .nil
      (.lastMember (.plainMember (by decide) .nil .nil .null .nil)))
  have hfeedback : Json.Derives (.value feedback) "\x7b\"blockReason\":\"b\"\x7d".toList :=
    .object .nil (.lastMember (.plainMember (by decide) .nil .nil (.plain (by decide)) .nil))
  have hbody : Json.Derives (.value c) body :=
    .object .nil (.moreMembers
      (.plainMember (by decide) .nil .nil (.array .nil (.lastElement hcandidate .nil)) .nil) .nil
      (.lastMember (.plainMember (by decide) .nil .nil hfeedback .nil)))
  have hvalue : ValueText c body := ⟨[], body, [], .nil, hbody, .nil, (List.append_nil body).symm⟩
  refine ⟨hvalue, by decide, ?_⟩
  exact ((replies_classified .standard 200 body).2 (by decide)).2 c hvalue (by decide)

end Classes

end Watermark.Reply
