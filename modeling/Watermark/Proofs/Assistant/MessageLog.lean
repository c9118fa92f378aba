import Mathlib.Data.Finset.Card
import Watermark.Assistant.Conversation
import Watermark.Proofs.Text

/-!
# The messages of a conversation

A conversation is used by calls: a question is asked, or an outcome is recorded (`Conversation.Call`). Calls come in
any order. Whatever they are, each one that is not refused adds one message that depends on the call alone
(`Conversation.Call.message?`), behind all messages that are there (`Conversation.messages_after`).

How many questions wait is counted up and down. The count is right as long as every outcome belongs to a question of
its own that was asked before (`Conversation.Resolves`): then it is the number of the open questions
(`Conversation.inFlight_after`), because each call changes both alike (`Conversation.openQuestions_concat_question` and
its companions).
-/

namespace Watermark.Conversation

/-! ## Calls -/

/-- A use of a conversation. -/
inductive Call where
  | begin (question : Text) (settings : Settings) (generation : UInt64) (now : Text)
  | finish (outcome : Outcome) (current : UInt64) (now : Text)

/-- The conversation after a call. A question that is refused leaves it as it was. -/
def call (c : Conversation) : Call → Conversation
  | .begin question s generation now =>
    match c.begin question s generation now with
    | .ok (_, c') => c'
    | .error _ => c
  | .finish o current now => (c.finish o current now).2

/-- The conversation after calls. -/
def after (c : Conversation) (calls : List Call) : Conversation := calls.foldl call c

namespace Call

/-- A question that is not refused. -/
def isQuestion : Call → Bool
  | .begin question .. => !question.allBlank
  | .finish .. => false

def isFinish : Call → Bool
  | .begin .. => false
  | .finish .. => true

/-- What a call adds: a question without the blanks around it, an answer as it is, or a notice with the text of the
failure. -/
def message? : Call → Option Message
  | .begin question _ _ now =>
    if question.allBlank then none else some ⟨.user, question.trim, now, false, false⟩
  | .finish ⟨generation, .ok answer⟩ current now => some ⟨.model, answer, now, generation != current, false⟩
  | .finish ⟨generation, .error f⟩ current now =>
    some ⟨.model, apology ++ f.message, now, generation != current, true⟩

end Call

variable (c : Conversation) {question : Text} {s : Settings} {generation : UInt64} {now : Text}

theorem begin_of_blank (h : question.allBlank = true) :
    c.begin question s generation now = .error .emptyQuestion := by
  simp only [begin, Text.trim_eq_nil_iff.2 h]
  rfl

theorem begin_of_not_blank (h : question.allBlank = false) :
    c.begin question s generation now
      = .ok (⟨question.trim, s.summary, generation⟩,
          ⟨c.messages ++ [⟨.user, question.trim, now, false, false⟩], c.inFlight + 1⟩) := by
  have hne : question.trim.isEmpty = false := by
    rw [Bool.eq_false_iff, ne_eq, List.isEmpty_iff, Text.trim_eq_nil_iff, h]
    nofun
  simp only [begin, hne]
  rfl

/-! ## Messages -/

theorem messages_call (k : Call) : (c.call k).messages = c.messages ++ k.message?.toList := by
  cases k with
  | begin question s generation now =>
    cases h : question.allBlank with
    | true => simp [call, c.begin_of_blank h, Call.message?, h]
    | false => simp [call, c.begin_of_not_blank h, Call.message?, h]
  | finish o current now =>
    obtain ⟨generation, result⟩ := o
    cases result with
    | ok answer => rfl
    | error f => rfl

theorem messages_after (calls : List Call) :
    (c.after calls).messages = c.messages ++ calls.filterMap Call.message? := by
  induction calls generalizing c with
  | nil => simp [after]
  | cons k calls ih =>
    have hstep : c.after (k :: calls) = (c.call k).after calls := rfl
    rw [hstep, ih, messages_call, List.append_assoc, List.filterMap_cons]
    cases k.message? <;> rfl

/-- No call changes a message that is there. -/
theorem messages_prefix {earlier calls : List Call} (h : earlier <+: calls) :
    (c.after earlier).messages <+: (c.after calls).messages := by
  obtain ⟨later, rfl⟩ := h
  rw [messages_after, messages_after, List.filterMap_append, ← List.append_assoc]
  exact List.prefix_append _ _

/-! ## Open questions -/

theorem after_concat (calls : List Call) (k : Call) : c.after (calls ++ [k]) = (c.after calls).call k := by
  rw [after, List.foldl_append]
  rfl

theorem inFlight_call (k : Call) :
    (c.call k).inFlight
      = if k.isQuestion then c.inFlight + 1 else if k.isFinish then c.inFlight - 1 else c.inFlight := by
  cases k with
  | begin question s generation now =>
    cases h : question.allBlank with
    | true => simp [call, c.begin_of_blank h, Call.isQuestion, Call.isFinish, h]
    | false => simp [call, c.begin_of_not_blank h, Call.isQuestion, h]
  | finish o current now => rfl

/-- Whether there is a call at `i` and it is of a kind. -/
def has (p : Call → Bool) (calls : List Call) (i : Nat) : Bool := calls[i]?.any p

variable {calls : List Call} {begun : Nat → Nat} {k : Call} {i j : Nat}

theorem lt_of_has {p : Call → Bool} (h : has p calls i = true) : i < calls.length := by
  by_contra hle
  rw [has, List.getElem?_eq_none (Nat.le_of_not_lt hle)] at h
  cases h

theorem has_concat_iff {p : Call → Bool} :
    has p (calls ++ [k]) i = true ↔ i = calls.length ∧ p k = true ∨ has p calls i = true := by
  unfold has
  rcases Nat.lt_trichotomy i calls.length with hlt | rfl | hgt
  · rw [List.getElem?_append_left hlt]
    exact ⟨.inr, fun h => h.resolve_left fun ⟨heq, _⟩ => absurd heq (Nat.ne_of_lt hlt)⟩
  · simp
  · rw [List.getElem?_eq_none (by simp; omega), List.getElem?_eq_none (by omega)]
    exact ⟨.inr, fun h => h.resolve_left fun ⟨heq, _⟩ => absurd heq.symm (Nat.ne_of_lt hgt)⟩

theorem has_of_concat {p : Call → Bool} (h : has p (calls ++ [k]) i = true) (hne : i ≠ calls.length) :
    has p calls i = true :=
  (has_concat_iff.1 h).resolve_left fun ⟨heq, _⟩ => hne heq

/-- The outcome that is recorded at `i` belongs to the question at `begun i`. Each belongs to a question that was asked
before and not refused, and no two belong to one. -/
structure Resolves (calls : List Call) (begun : Nat → Nat) : Prop where
  earlier : ∀ i, has Call.isFinish calls i = true → begun i < i
  question : ∀ i, has Call.isFinish calls i = true → has Call.isQuestion calls (begun i) = true
  distinct : ∀ i j, has Call.isFinish calls i = true → has Call.isFinish calls j = true → begun i = begun j → i = j

/-- The questions without an outcome yet, by their places. -/
def openQuestions (calls : List Call) (begun : Nat → Nat) : Finset Nat :=
  (Finset.range calls.length).filter fun j =>
    has Call.isQuestion calls j = true ∧ ∀ i < calls.length, has Call.isFinish calls i = true → begun i ≠ j

theorem mem_openQuestions_iff : j ∈ openQuestions calls begun ↔
    has Call.isQuestion calls j = true ∧ ∀ i, has Call.isFinish calls i = true → begun i ≠ j := by
  rw [openQuestions, Finset.mem_filter, Finset.mem_range]
  constructor
  · rintro ⟨-, hj, hopen⟩
    exact ⟨hj, fun i hi => hopen i (lt_of_has hi) hi⟩
  · rintro ⟨hj, hopen⟩
    exact ⟨lt_of_has hj, hj, fun i _ hi => hopen i hi⟩

/-- The calls before the last one. -/
theorem Resolves.init (h : Resolves (calls ++ [k]) begun) : Resolves calls begun := by
  have hback : ∀ {i}, has Call.isFinish calls i = true → has Call.isFinish (calls ++ [k]) i = true := fun hi =>
    has_concat_iff.2 (.inr hi)
  refine ⟨fun i hi => h.earlier i (hback hi), fun i hi => ?_, fun i j hi hj => h.distinct i j (hback hi) (hback hj)⟩
  have hlt := h.earlier i (hback hi)
  have hlen := lt_of_has hi
  exact has_of_concat (h.question i (hback hi)) (by omega)

/-- The outcome of the last call belongs to an open question. -/
theorem Resolves.begun_mem_openQuestions (h : Resolves (calls ++ [k]) begun) (hk : k.isFinish = true) :
    begun calls.length ∈ openQuestions calls begun := by
  have hlast : has Call.isFinish (calls ++ [k]) calls.length = true := has_concat_iff.2 (.inl ⟨rfl, hk⟩)
  refine mem_openQuestions_iff.2 ⟨?_, fun i hi heq => ?_⟩
  · exact has_of_concat (h.question _ hlast) (Nat.ne_of_lt (h.earlier _ hlast))
  · have := h.distinct i _ (has_concat_iff.2 (.inr hi)) hlast heq
    have := lt_of_has hi
    omega

theorem openQuestions_concat_question (h : Resolves calls begun) (hk : k.isQuestion = true)
    (hk' : k.isFinish = false) :
    openQuestions (calls ++ [k]) begun = insert calls.length (openQuestions calls begun) := by
  ext j
  simp only [Finset.mem_insert, mem_openQuestions_iff, has_concat_iff, hk, hk', and_true, Bool.false_eq_true,
    and_false, false_or]
  constructor
  · rintro ⟨rfl | hj, hopen⟩
    · exact .inl rfl
    · exact .inr ⟨hj, hopen⟩
  · rintro (rfl | ⟨hj, hopen⟩)
    · refine ⟨.inl rfl, fun i hi => ?_⟩
      have := h.earlier i hi
      have := lt_of_has hi
      omega
    · exact ⟨.inr hj, hopen⟩

theorem openQuestions_concat_finish (hk : k.isQuestion = false) (hk' : k.isFinish = true) :
    openQuestions (calls ++ [k]) begun = (openQuestions calls begun).erase (begun calls.length) := by
  ext j
  simp only [Finset.mem_erase, mem_openQuestions_iff, has_concat_iff, hk, hk', and_true, Bool.false_eq_true,
    and_false, false_or]
  constructor
  · rintro ⟨hj, hopen⟩
    exact ⟨(hopen _ (.inl rfl)).symm, hj, fun i hi => hopen i (.inr hi)⟩
  · rintro ⟨hne, hj, hopen⟩
    refine ⟨hj, ?_⟩
    rintro i (rfl | hi)
    · exact hne.symm
    · exact hopen i hi

theorem openQuestions_concat_refused (hk : k.isQuestion = false) (hk' : k.isFinish = false) :
    openQuestions (calls ++ [k]) begun = openQuestions calls begun := by
  ext j
  simp only [mem_openQuestions_iff, has_concat_iff, hk, hk', Bool.false_eq_true, and_false, false_or]

theorem Call.not_isFinish_of_isQuestion (h : k.isQuestion = true) : k.isFinish = false := by
  cases k with
  | begin => rfl
  | finish => cases h

/-- So many questions wait as are open. -/
theorem inFlight_after (h : Resolves calls begun) (hc : c.inFlight = 0) :
    (c.after calls).inFlight = (openQuestions calls begun).card := by
  induction calls using List.reverseRecOn with
  | nil => exact hc
  | append_singleton calls k ih =>
    rw [after_concat, inFlight_call, ih h.init]
    cases hquestion : k.isQuestion with
    | true =>
      have hfresh : calls.length ∉ openQuestions calls begun := fun hmem =>
        Nat.lt_irrefl _ (lt_of_has (mem_openQuestions_iff.1 hmem).1)
      rw [openQuestions_concat_question h.init hquestion (Call.not_isFinish_of_isQuestion hquestion),
        Finset.card_insert_of_notMem hfresh]
      rfl
    | false =>
      cases hfinish : k.isFinish with
      | true =>
        rw [openQuestions_concat_finish hquestion hfinish,
          Finset.card_erase_of_mem (h.begun_mem_openQuestions hfinish)]
        rfl
      | false =>
        rw [openQuestions_concat_refused hquestion hfinish]
        rfl

theorem isWaiting_after_iff (h : Resolves calls begun) (hc : c.inFlight = 0) :
    (c.after calls).isWaiting = true ↔
      ∃ j, has Call.isQuestion calls j = true ∧ ∀ i, has Call.isFinish calls i = true → begun i ≠ j := by
  rw [isWaiting, decide_eq_true_eq, c.inFlight_after h hc, gt_iff_lt, Finset.card_pos]
  exact exists_congr fun j => mem_openQuestions_iff

/-! ## The record of all calls -/

/-- After any calls the messages are the greeting and what each call added, in the order of the calls, and no call
changed a message that was there. Only blank questions are refused, and they leave the conversation as it was. If every
outcome belongs to a question of its own that was asked before, then the conversation waits exactly while a question
has no outcome. -/
theorem record_after_calls (now : Text) (calls : List Call) :
    let c := (start now).after calls
    c.messages = ⟨.model, greeting, now, false, false⟩ :: calls.filterMap Call.message?
      ∧ (∀ earlier, earlier <+: calls → ((start now).after earlier).messages <+: c.messages)
      ∧ (∀ question s generation t, question.allBlank = true →
          c.begin question s generation t = .error .emptyQuestion
            ∧ c.call (.begin question s generation t) = c)
      ∧ (∀ question s generation t, question.allBlank = false →
          ∃ e, c.begin question s generation t = .ok (e, c.call (.begin question s generation t))
            ∧ e.question = question.trim)
      ∧ ∀ begun, Resolves calls begun → (c.isWaiting = true ↔
          ∃ j, has Call.isQuestion calls j = true ∧ ∀ i, has Call.isFinish calls i = true → begun i ≠ j) := by
  intro c
  refine ⟨messages_after _ calls, fun earlier h => messages_prefix _ h, fun question s generation t h => ?_,
    fun question s generation t h => ?_, fun begun h => isWaiting_after_iff _ h rfl⟩
  · have hrefused : c.begin question s generation t = .error .emptyQuestion := c.begin_of_blank h
    exact ⟨hrefused, by rw [call, hrefused]⟩
  · refine ⟨⟨question.trim, s.summary, generation⟩, ?_, rfl⟩
    rw [call, c.begin_of_not_blank h]

/-- The second of two questions is answered first, and the blank one between them is refused. -/
theorem waiting_for_first_question :
    let ask (question : String) : Call := .begin question.toList .initial 0 []
    let calls := [ask "How to crop?", ask " ", ask "How to rotate?", .finish ⟨0, .ok "transpose=1".toList⟩ 0 []]
    Resolves calls (fun _ => 2) ∧ ((start []).after calls).isWaiting = true := by
  intro ask calls
  have hlast : ∀ i, has Call.isFinish calls i = true → i = 3 := fun i hi => by
    have hplaces : ∀ i < 4, has Call.isFinish calls i = true → i = 3 := by decide
    exact hplaces i (lt_of_has hi) hi
  have hresolves : Resolves calls (fun _ => 2) := by
    refine ⟨fun i hi => ?_, fun i hi => ?_, fun i j hi hj _ => ?_⟩
    · rw [hlast i hi]
      decide
    · decide
    · rw [hlast i hi, hlast j hj]
  have hopen : has Call.isQuestion calls 0 = true := by decide
  exact ⟨hresolves, ((record_after_calls [] calls).2.2.2.2 _ hresolves).2 ⟨0, hopen, fun i _ => by decide⟩⟩

end Watermark.Conversation
