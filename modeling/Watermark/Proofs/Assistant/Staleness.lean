import Mathlib.Data.Nat.Count
import Watermark.Proofs.Assistant.History

/-!
# Stale answers

All handles of a session reach one counter, so the generation is the number of the changes that were counted before,
through whatever handle (`Session.current_before`), as long as a history counts fewer than `2 ^ 64 - 1`. An exchange
remembers the generation of its beginning, and its outcome carries it on. So an answer is stale exactly if the two
generations differ, that is if a change was counted between the beginning and the end of its exchange
(`Session.stale_iff_bumped`).
-/

namespace Watermark

theorem Conversation.stale_reply (o : Outcome) (current : UInt64) (now : Text) :
    (reply o current now).stale = (o.generation != current) := by
  unfold reply
  cases o.result <;> rfl

namespace Session

/-! ## The generation -/

/-- The generation that an event gives back. -/
def Result.counted? : Result → Option UInt64
  | .generation g => some g
  | _ => none

variable (s : Session) (history : List Event)

/-- Whether event `k` counts a change. -/
def changesAt (k : Nat) : Bool := history[k]?.any (s.before history k).countsChange

/-- How many of the first `k` events count a change. -/
def changes (k : Nat) : Nat := Nat.count (s.changesAt history ·) k

theorem changesAt_iff (k : Nat) :
    s.changesAt history k = true ↔ ∃ now handle, history[k]? = some ⟨now, .bump handle⟩ ∧
      ((s.before history k).counters.reached? handle).isSome := by
  rw [changesAt, Option.any_eq_true]
  constructor
  · rintro ⟨⟨now, action⟩, hevent, hcounts⟩
    cases action with
    | bump handle => exact ⟨now, handle, hevent, hcounts⟩
    | edit | clone | begin | run | finish => cases hcounts
  · rintro ⟨now, handle, hevent, hthere⟩
    exact ⟨_, hevent, hthere⟩

variable {s} (hs : s.counters.Shared)
include hs

theorem counted?_result (e : Event) :
    (s.result e).counted? = if s.countsChange e then some (s.generation.current + 1) else none := by
  obtain ⟨now, action⟩ := e
  cases action with
  | begin question generation =>
    cases h : question.allBlank with
    | true => simp [result, step, Conversation.begin_of_blank _ h, countsChange, Result.counted?]
    | false => simp [result, step, Conversation.begin_of_not_blank _ h, countsChange, Result.counted?]
  | run index assistant =>
    cases h : s.exchanges[index]? <;> simp [result, step, countsChange, Result.counted?, h]
  | finish index generation =>
    cases h : s.outcomes[index]? <;> simp [result, step, countsChange, Result.counted?, h]
  | edit e => rfl
  | clone handle => cases h : s.counters.reached? handle <;> simp [result, step, countsChange, Result.counted?, h]
  | bump handle =>
    cases h : s.counters.reached? handle with
    | none => simp [result, step, countsChange, Result.counted?, h]
    | some i => simp [result, step, countsChange, Result.counted?, h, hs.count_eq h, generation, Generation.bump]

theorem current_before (k : Nat) :
    (s.before history k).generation.current = s.generation.current + UInt64.ofNat (s.changes history k) := by
  induction k with
  | zero => simp [before, changes]
  | succ k ih =>
    rw [changes, Nat.count_succ, ← changes]
    cases hevent : history[k]? with
    | none => simp [before_succ_of_none s history hevent, ih, changesAt, hevent]
    | some e =>
      have hadded : s.changesAt history k = (s.before history k).countsChange e := by simp [changesAt, hevent]
      rw [before_succ s history hevent, current_next (shared_before history hs k), ih, hadded, UInt64.ofNat_add,
        UInt64.add_assoc]
      split <;> rfl

/-- Each change gives back one generation more than the change before. -/
theorem counted_results :
    (s.results history).filterMap Result.counted?
      = (List.range (s.changes history history.length)).map fun k => s.generation.current + UInt64.ofNat (k + 1) := by
  induction history generalizing s with
  | nil => rfl
  | cons e history ih =>
    have hchanges : s.changes (e :: history) (history.length + 1)
        = (s.next e).changes history history.length + if s.countsChange e then 1 else 0 := Nat.count_succ' _ _
    rw [results, List.filterMap_cons, counted?_result hs, ih (shared_next hs e), current_next hs, List.length_cons,
      hchanges]
    cases h : s.countsChange e with
    | false => simp
    | true =>
      simp only [if_true, List.range_succ_eq_map, List.map_cons, List.map_map]
      refine congrArg _ (List.map_congr_left fun k _ => ?_)
      rw [Function.comp_apply, UInt64.add_assoc, UInt64.add_comm 1, Nat.succ_eq_add_one, UInt64.ofNat_add (k + 1) 1]
      rfl

omit hs

variable {history} {settings : Settings} {opened : Text}

/-- Counting from the start of a session does not wrap below `2 ^ 64`. -/
theorem toNat_start_add {n : Nat} (h : n < 2 ^ 64) :
    ((start settings opened).generation.current + UInt64.ofNat n).toNat = n := by
  show (0 + UInt64.ofNat n).toNat = n
  rw [UInt64.zero_add, UInt64.toNat_ofNat_of_lt' h]

theorem shared_start : (start settings opened).counters.Shared := Counters.shared_start

theorem counted_results_start (hfew : (start settings opened).changes history history.length < 2 ^ 64 - 1) :
    (((start settings opened).results history).filterMap Result.counted?).map UInt64.toNat
      = List.range' 1 ((start settings opened).changes history history.length) := by
  rw [counted_results history shared_start, List.map_map, List.range'_eq_map_range]
  refine List.map_congr_left fun k hk => ?_
  have hlt : k + 1 < 2 ^ 64 := by
    have := List.mem_range.1 hk
    omega
  rw [Function.comp_apply, toNat_start_add hlt, Nat.add_comm]

theorem toNat_current_before (hfew : (start settings opened).changes history history.length < 2 ^ 64) {k : Nat}
    (hk : k ≤ history.length) :
    ((start settings opened).before history k).generation.current.toNat
      = (start settings opened).changes history k := by
  have hle : (start settings opened).changes history k ≤ (start settings opened).changes history history.length :=
    Nat.count_monotone _ hk
  rw [current_before history shared_start, toNat_start_add (Nat.lt_of_le_of_lt hle hfew)]

/-- Two times have different generations exactly if a change was counted between them. -/
theorem current_before_ne_iff (hfew : (start settings opened).changes history history.length < 2 ^ 64) {b f : Nat}
    (h : b ≤ f) (hf : f ≤ history.length) :
    ((start settings opened).before history b).generation.current
        ≠ ((start settings opened).before history f).generation.current ↔
      ∃ k, b ≤ k ∧ k < f ∧ (start settings opened).changesAt history k = true := by
  rw [ne_eq, ← UInt64.toNat_inj, toNat_current_before hfew (h.trans hf), toNat_current_before hfew hf]
  constructor
  · intro hne
    have hlt := Nat.lt_of_le_of_ne (Nat.count_monotone _ h) hne
    obtain ⟨k, ⟨hb, hk⟩, hchange⟩ := Nat.exists_of_count_lt_count hlt
    exact ⟨k, hb, hk, hchange⟩
  · rintro ⟨k, hb, hk, hchange⟩
    have hmore := Nat.count_strict_mono (p := ((start settings opened).changesAt history · = true)) hchange hk
    exact Nat.ne_of_lt ((Nat.count_monotone _ hb).trans_lt hmore)

/-! ## Questions about the current settings -/

/-- Whoever asks or records gives no generation but the current one. -/
def Event.passesCurrent (e : Event) : Bool :=
  match e.action with
  | .begin _ generation => generation.isNone
  | .finish _ generation => generation.isNone
  | _ => true

variable {b i r j f : Nat} {question : Text} {generation : Option UInt64} {assistant : Assistant Id}

theorem Begins.generation_eq_none (h : s.Begins history b i question generation)
    (hcurrent : ∀ e ∈ history, e.passesCurrent = true) : generation = none := by
  obtain ⟨now, hevent⟩ := h.event
  exact Option.isNone_iff_eq_none.1 (hcurrent _ (List.mem_of_getElem? hevent))

/-- What an exchange holds when all questions are about the current settings. -/
theorem exists_begins_current (hcurrent : ∀ e ∈ history, e.passesCurrent = true) {k : Nat} {e : Exchange}
    (h : ((start settings opened).before history k).exchanges[i]? = some e) :
    ∃ b < k, ∃ question, (start settings opened).Begins history b i question none ∧
      e = ⟨question.trim, ((start settings opened).before history b).settings.summary,
        ((start settings opened).before history b).generation.current⟩ := by
  obtain ⟨b, hb, question, generation, hbegins, he⟩ := exists_begins rfl h
  obtain rfl := hbegins.generation_eq_none hcurrent
  exact ⟨b, hb, question, hbegins, he⟩

theorem result_run {e : Exchange} {now : Text} (h : s.exchanges[i]? = some e) :
    s.result ⟨now, .run i assistant⟩ = .outcome ⟨e.generation, assistant e.context e.question⟩ := by
  simp only [result, step, h]
  rfl

theorem result_finish {o : Outcome} {now : Text} (h : s.outcomes[j]? = some o) :
    s.result ⟨now, .finish j none⟩ = .message (Conversation.reply o s.generation.current now) := by
  simp only [result, step, h]
  rfl

theorem messages_next_finish {o : Outcome} {now : Text} (h : s.outcomes[j]? = some o) :
    (s.next ⟨now, .finish j none⟩).conversation.messages
      = s.conversation.messages ++ [Conversation.reply o s.generation.current now] := by
  simp only [next, step, h]
  rfl

/-- The event at `b` is no change, so a change from `b` on is one after `b`. -/
theorem Begins.exists_change_iff (h : s.Begins history b i question generation) :
    (∃ k, b ≤ k ∧ k < f ∧ s.changesAt history k = true) ↔
      ∃ k, b < k ∧ k < f ∧ ∃ now handle, history[k]? = some ⟨now, .bump handle⟩ ∧
        ((s.before history k).counters.reached? handle).isSome := by
  obtain ⟨begun, hevent⟩ := h.event
  simp only [changesAt_iff]
  constructor
  · rintro ⟨k, hb, hf, now, handle, hk, hthere⟩
    refine ⟨k, Nat.lt_of_le_of_ne hb ?_, hf, now, handle, hk, hthere⟩
    rintro rfl
    rw [hevent] at hk
    cases hk
  · rintro ⟨k, hb, hf, hchange⟩
    exact ⟨k, Nat.le_of_lt hb, hf, hchange⟩

/-- Let handles be cloned and changes be counted through any of them, fewer than `2 ^ 64 - 1` in all, in any order with
edits, questions, runs and records, where questions and records are about the current settings. Then every handle
reaches the one counter at all times, and a clone is a new handle that stays; the changes give back `1, 2, 3, …`; an
assistant is given the settings in one line as they were when the exchange began, and the question without the blanks
around it; and what is recorded for the outcome is stale exactly if a change was counted after the exchange began. -/
theorem stale_iff_bumped (settings : Settings) (opened : Text) (history : List Event)
    (hcurrent : ∀ e ∈ history, e.passesCurrent = true)
    (hfew : (start settings opened).changes history history.length < 2 ^ 64 - 1) :
    let s := start settings opened
    (∀ k handle i, (s.before history k).counters.reached? handle = some i → i = (s.before history k).counters.first)
      ∧ (∀ k now handle, history[k]? = some ⟨now, .clone handle⟩ →
          ((s.before history k).counters.reached? handle).isSome →
          ∃ new, (s.before history k).result ⟨now, .clone handle⟩ = .handle new ∧
            (s.before history k).counters.reached? new = none ∧
            ∀ n, k < n → ((s.before history n).counters.reached? new).isSome)
      ∧ ((s.results history).filterMap Result.counted?).map UInt64.toNat
          = List.range' 1 (s.changes history history.length)
      ∧ (∀ r now i assistant, history[r]? = some ⟨now, .run i assistant⟩ → i < (s.before history r).exchanges.length →
          ∃ b < r, ∃ question, s.Begins history b i question none ∧
            (s.before history r).result ⟨now, .run i assistant⟩
              = .outcome ⟨(s.before history b).generation.current,
                  assistant (s.before history b).settings.summary question.trim⟩)
      ∧ (∀ f now j, history[f]? = some ⟨now, .finish j none⟩ → j < (s.before history f).outcomes.length →
          ∃ r < f, ∃ b < r, ∃ i question assistant m,
            s.Begins history b i question none ∧ s.Runs history r i j assistant ∧
            (s.before history f).result ⟨now, .finish j none⟩ = .message m ∧
            (s.before history (f + 1)).conversation.messages = (s.before history f).conversation.messages ++ [m] ∧
            (m.stale = true ↔ ∃ k, b < k ∧ k < f ∧ ∃ now handle, history[k]? = some ⟨now, .bump handle⟩ ∧
              ((s.before history k).counters.reached? handle).isSome)) := by
  intro s
  refine ⟨fun k => shared_before history shared_start k, fun k now handle => exists_handle_of_clone,
    counted_results_start hfew, fun r now i assistant _ hi => ?_, fun f now j hf hj => ?_⟩
  · have he := List.getElem?_eq_getElem hi
    obtain ⟨b, hb, question, hbegins, heq⟩ := exists_begins_current hcurrent he
    refine ⟨b, hb, question, hbegins, ?_⟩
    rw [result_run he, heq]
  · have ho := List.getElem?_eq_getElem hj
    obtain ⟨r, hr, i, assistant, e, hruns, he, hout⟩ := exists_runs rfl ho
    obtain ⟨b, hb, question, hbegins, heq⟩ := exists_begins_current hcurrent he
    refine ⟨r, hr, b, hb, i, question, assistant, _, hbegins, hruns, result_finish ho, ?_, ?_⟩
    · rw [before_succ s history hf, messages_next_finish ho]
    · have hfewer : s.changes history history.length < 2 ^ 64 := Nat.lt_of_lt_of_le hfew (Nat.sub_le _ _)
      have hlength : f < history.length := (List.getElem?_eq_some_iff.1 hf).1
      rw [Conversation.stale_reply, bne_iff_ne, hout, heq, ← hbegins.exists_change_iff,
        ← current_before_ne_iff hfewer (Nat.le_of_lt (hb.trans hr)) (Nat.le_of_lt hlength)]

/-- Two questions are asked, the handle is cloned, a change is counted through each of the two handles, and the answer
to the first question is stale when the second is answered already. -/
theorem stale_after_second_handle :
    let ask (question : String) : Event := ⟨[], .begin question.toList none⟩
    let history : List Event := [ask "How to crop?", ask "How to rotate?", ⟨[], .clone ⟨0⟩⟩, ⟨[], .bump ⟨0⟩⟩,
      ⟨[], .bump ⟨1⟩⟩, ⟨[], .run 1 fun _ question => .ok question⟩, ⟨[], .run 0 fun _ _ => .error .emptyQuestion⟩,
      ⟨[], .finish 0 none⟩, ⟨[], .finish 1 none⟩]
    let s := start .initial []
    (∀ e ∈ history, e.passesCurrent = true) ∧ s.changes history history.length < 2 ^ 64 - 1 ∧
      ((s.results history).filterMap Result.counted?).map UInt64.toNat = [1, 2] ∧
      ∃ m, (s.before history 8).result ⟨[], .finish 1 none⟩ = .message m ∧ m.stale = true := by
  intro ask history s
  have hcurrent : ∀ e ∈ history, e.passesCurrent = true := by decide
  have hfew : s.changes history history.length < 2 ^ 64 - 1 := by decide
  obtain ⟨-, -, hcounted, -, hfinish⟩ := stale_iff_bumped .initial [] history hcurrent hfew
  obtain ⟨r, hr, b, hb, i, question, assistant, m, hbegins, -, hresult, -, hstale⟩ :=
    hfinish 8 [] 1 rfl (by decide)
  have hbegin : b < 2 := by
    by_contra hle
    obtain ⟨now, hevent⟩ := hbegins.event
    obtain rfl | rfl | rfl | rfl | rfl : b = 2 ∨ b = 3 ∨ b = 4 ∨ b = 5 ∨ b = 6 := by omega
    all_goals cases hevent
  exact ⟨hcurrent, hfew, hcounted, m, hresult, hstale.2 ⟨4, by omega, by decide, [], ⟨1⟩, rfl, by decide⟩⟩

end Session

end Watermark
