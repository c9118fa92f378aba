import Watermark.Assistant.Session
import Watermark.Proofs.Assistant.Counter
import Watermark.Proofs.Assistant.MessageLog

/-!
# Histories of a session

A history is a list of events, whatever the order in which several people and several assistants make them. Event `k`
happens in the session `Session.before history k`.

Each event makes at most one call of the conversation, adds at most one exchange and one outcome, and clones a handle or
counts a change at most (`Session.next_eq`). So the conversation is the record of the calls
(`Session.conversation_before`), and all handles reach one counter at all times (`Session.shared_before`). Exchanges and
outcomes are never removed, so each one that is there was added by an event before, when there were as many as its
number says (`Session.exists_event`). This is where it comes from: `Session.exists_begins` and `Session.exists_runs`.
-/

namespace Watermark.Session

/-! ## Events -/

/-- An action at a time. -/
structure Event where
  now : Text
  action : Action

variable (s : Session) (history : List Event)

/-- What an event gives back. -/
def result (e : Event) : Result := (s.step e.now e.action).1

/-- The session after an event. -/
def next (e : Event) : Session := (s.step e.now e.action).2

/-- The session after the first `k` events. -/
def before (k : Nat) : Session := (history.take k).foldl next s

/-- What the events give back, in their order. -/
def results (s : Session) : List Event → List Result
  | [] => []
  | e :: es => s.result e :: results (s.next e) es

theorem before_succ {k : Nat} {e : Event} (h : history[k]? = some e) :
    s.before history (k + 1) = (s.before history k).next e := by
  rw [before, List.take_add_one, h, List.foldl_append]
  rfl

theorem before_succ_of_none {k : Nat} (h : history[k]? = none) :
    s.before history (k + 1) = s.before history k := by
  rw [before, List.take_add_one, h, Option.toList_none, List.append_nil]
  rfl

/-- What every event keeps, a history keeps. -/
theorem keep_before {P : Session → Prop} (hnext : ∀ t e, P t → P (t.next e)) {k n : Nat} (hle : k ≤ n)
    (h : P (s.before history k)) : P (s.before history n) := by
  induction hle with
  | refl => exact h
  | @step n _ ih =>
    cases hevent : history[n]? with
    | none => rwa [before_succ_of_none s history hevent]
    | some e =>
      rw [before_succ s history hevent]
      exact hnext _ e ih

/-! ## What an event adds -/

/-- The exchange that an event begins. -/
def begun? (e : Event) : Option Exchange :=
  match e.action with
  | .begin question generation =>
    if question.allBlank then none
    else some ⟨question.trim, s.settings.summary, generation.getD s.generation.current⟩
  | _ => none

/-- The outcome of the exchange that an event runs. -/
def outcome? (e : Event) : Option Outcome :=
  match e.action with
  | .run index assistant => s.exchanges[index]?.map fun e => ⟨e.generation, assistant e.context e.question⟩
  | _ => none

/-- The call of the conversation that an event makes. -/
def call? (e : Event) : Option Conversation.Call :=
  match e.action with
  | .begin question generation =>
    some (.begin question s.settings (generation.getD s.generation.current) e.now)
  | .finish index generation =>
    s.outcomes[index]?.map fun o => .finish o (generation.getD s.generation.current) e.now
  | _ => none

/-- The settings after an event. -/
def edited (e : Event) : Settings :=
  match e.action with
  | .edit edit => edit.apply s.settings
  | _ => s.settings

/-- The counters after an event. -/
def countersAfter (e : Event) : Counters :=
  match e.action with
  | .clone h => (s.counters.reached? h).elim s.counters s.counters.clone
  | .bump h => (s.counters.reached? h).elim s.counters s.counters.bump
  | _ => s.counters

/-- An event that counts a change: through a handle, if there is such a handle. -/
def countsChange (e : Event) : Bool :=
  match e.action with
  | .bump h => (s.counters.reached? h).isSome
  | _ => false

/-- All that an event does. -/
theorem next_eq (e : Event) :
    s.next e = ⟨s.edited e, s.countersAfter e, (s.call? e).elim s.conversation s.conversation.call,
      s.exchanges ++ (s.begun? e).toList, s.outcomes ++ (s.outcome? e).toList⟩ := by
  obtain ⟨now, action⟩ := e
  cases action with
  | begin question generation =>
    cases h : question.allBlank with
    | true =>
      simp [next, step, edited, countersAfter, call?, begun?, outcome?, Conversation.call,
        Conversation.begin_of_blank _ h, h]
    | false =>
      simp [next, step, edited, countersAfter, call?, begun?, outcome?, Conversation.call,
        Conversation.begin_of_not_blank _ h, h]
  | run index assistant =>
    cases h : s.exchanges[index]? with
    | none => simp [next, step, edited, countersAfter, call?, begun?, outcome?, h]
    | some x =>
      simp [next, step, edited, countersAfter, call?, begun?, outcome?, h]
      rfl
  | finish index generation =>
    cases h : s.outcomes[index]? <;>
      simp [next, step, edited, countersAfter, call?, begun?, outcome?, Conversation.call, h]
  | edit edit => simp [next, step, edited, countersAfter, call?, begun?, outcome?]
  | clone handle | bump handle =>
    cases h : s.counters.reached? handle <;> simp [next, step, edited, countersAfter, call?, begun?, outcome?, h]

theorem exchanges_next (e : Event) : (s.next e).exchanges = s.exchanges ++ (s.begun? e).toList := by
  rw [next_eq]

theorem outcomes_next (e : Event) : (s.next e).outcomes = s.outcomes ++ (s.outcome? e).toList := by
  rw [next_eq]

/-- The calls of the conversation that the first `k` events make. -/
def calls (k : Nat) : List Conversation.Call :=
  (List.range k).filterMap fun k => history[k]?.bind (s.before history k).call?

/-- The conversation of a session is what its calls have made of it. -/
theorem conversation_before (k : Nat) :
    (s.before history k).conversation = s.conversation.after (s.calls history k) := by
  induction k with
  | zero => rfl
  | succ k ih =>
    rw [calls, List.range_succ, List.filterMap_append, ← calls]
    cases hevent : history[k]? with
    | none =>
      rw [before_succ_of_none s history hevent, ih]
      simp [hevent]
    | some e =>
      rw [before_succ s history hevent, next_eq, ih]
      cases hcall : (s.before history k).call? e with
      | none => simp [hevent, hcall]
      | some call => simp [hevent, hcall, Conversation.after_concat]

/-! ## One counter -/

/-- All that can happen to the counters: nothing, or a handle that is there is cloned, or counts a change. -/
theorem counters_next (e : Event) :
    ((s.next e).counters = s.counters ∧ s.countsChange e = false)
      ∨ (∃ h i, s.counters.reached? h = some i ∧ (s.next e).counters = s.counters.clone i ∧ s.countsChange e = false)
      ∨ ∃ h i, s.counters.reached? h = some i ∧ (s.next e).counters = s.counters.bump i ∧ s.countsChange e = true := by
  rw [next_eq]
  obtain ⟨now, action⟩ := e
  cases action with
  | clone handle =>
    cases h : s.counters.reached? handle with
    | none => exact .inl ⟨by simp only [countersAfter, h, Option.elim_none], rfl⟩
    | some i => exact .inr (.inl ⟨handle, i, h, by simp only [countersAfter, h, Option.elim_some], rfl⟩)
  | bump handle =>
    cases h : s.counters.reached? handle with
    | none =>
      exact .inl ⟨by simp only [countersAfter, h, Option.elim_none], by simp only [countsChange, h, Option.isSome_none]⟩
    | some i =>
      exact .inr (.inr ⟨handle, i, h, by simp only [countersAfter, h, Option.elim_some],
        by simp only [countsChange, h, Option.isSome_some]⟩)
  | edit | begin | run | finish => exact .inl ⟨rfl, rfl⟩

/-- A handle that is there stays there. -/
theorem isSome_reached?_next {handle : Handle} (e : Event) (h : (s.counters.reached? handle).isSome) :
    ((s.next e).counters.reached? handle).isSome := by
  rw [Counters.isSome_reached?] at h ⊢
  obtain ⟨hsame, -⟩ | ⟨-, i, -, hcloned, -⟩ | ⟨-, i, -, hbumped, -⟩ := s.counters_next e
  · rwa [hsame]
  · rw [hcloned]
    exact h.trans (List.sublist_append_left _ _).length_le
  · rwa [hbumped]

section Counter

variable {s}

theorem shared_next (hs : s.counters.Shared) (e : Event) : (s.next e).counters.Shared := by
  obtain ⟨hsame, -⟩ | ⟨h, i, hi, hcloned, -⟩ | ⟨-, i, -, hbumped, -⟩ := s.counters_next e
  · rwa [hsame]
  · rw [hcloned]
    exact hs.clone hi
  · rw [hbumped]
    exact hs.bump

/-- If all handles reach one counter, then they always will. -/
theorem shared_before (hs : s.counters.Shared) (k : Nat) : (s.before history k).counters.Shared :=
  keep_before s history (P := fun t => t.counters.Shared) (fun _ e h => shared_next h e) (Nat.zero_le k) hs

theorem step_clone {handle : Handle} {i : Fin s.counters.size} (hi : s.counters.reached? handle = some i) (now : Text) :
    s.step now (.clone handle) = (.handle s.counters.nextHandle, { s with counters := s.counters.clone i }) := by
  simp only [step, hi]

/-- A clone of a handle that is there is a new handle, and it is there from then on. -/
theorem exists_handle_of_clone {history : List Event} {k : Nat} {now : Text} {handle : Handle}
    (hevent : history[k]? = some ⟨now, .clone handle⟩)
    (hthere : ((s.before history k).counters.reached? handle).isSome) :
    ∃ new, (s.before history k).result ⟨now, .clone handle⟩ = .handle new ∧
      (s.before history k).counters.reached? new = none ∧
      ∀ n, k < n → ((s.before history n).counters.reached? new).isSome := by
  obtain ⟨i, hi⟩ := Option.isSome_iff_exists.1 hthere
  refine ⟨(s.before history k).counters.nextHandle, by rw [result, step_clone hi], Counters.reached?_nextHandle,
    fun n hn => keep_before s history (P := fun t => (t.counters.reached? _).isSome)
      (fun t e => t.isSome_reached?_next e) hn ?_⟩
  rw [before_succ s history hevent, next, step_clone hi]
  exact Option.isSome_iff_exists.2 ⟨i, Counters.reached?_clone.2 (.inr ⟨rfl, rfl⟩)⟩

/-- The count that everyone sees goes up by one with each event that counts a change, and else stays. -/
theorem current_next (hs : s.counters.Shared) (e : Event) :
    (s.next e).generation.current = s.generation.current + if s.countsChange e then 1 else 0 := by
  obtain ⟨hsame, hcounts⟩ | ⟨-, i, -, hcloned, hcounts⟩ | ⟨h, i, hi, hbumped, hcounts⟩ := s.counters_next e
  · rw [generation, hsame, hcounts]
    exact (UInt64.add_zero _).symm
  · rw [generation, hcloned, Counters.generation_clone, hcounts]
    exact (UInt64.add_zero _).symm
  · rw [generation, hbumped, hs.generation_bump hi, hcounts]
    rfl

end Counter

/-! ## Where exchanges and outcomes come from -/

/-- The event at `b` begins the exchange of number `i`. -/
structure Begins (b i : Nat) (question : Text) (generation : Option UInt64) : Prop where
  event : ∃ now, history[b]? = some ⟨now, .begin question generation⟩
  not_blank : question.allBlank = false
  number : (s.before history b).exchanges.length = i

/-- The event at `r` runs the exchange of number `i`, and this gives the outcome of number `j`. -/
structure Runs (r i j : Nat) (assistant : Assistant Id) : Prop where
  event : ∃ now, history[r]? = some ⟨now, .run i assistant⟩
  known : i < (s.before history r).exchanges.length
  number : (s.before history r).outcomes.length = j

variable {s history} {k i j : Nat}

/-- What stands in a part of the session to which each event adds at most one was added by an event, and its place is
the length of that part before the event. -/
theorem exists_event {α : Type} {part : Session → List α} {added : Session → Event → Option α}
    (hnext : ∀ t e, part (t.next e) = part t ++ (added t e).toList) (hs : part s = []) {x : α}
    (h : (part (s.before history k))[i]? = some x) :
    ∃ b < k, ∃ e, history[b]? = some e ∧ added (s.before history b) e = some x
      ∧ (part (s.before history b)).length = i := by
  induction k with
  | zero =>
    have hempty : part (s.before history 0) = [] := hs
    rw [hempty] at h
    cases h
  | succ k ih =>
    have hearlier (h : (part (s.before history k))[i]? = some x) :
        ∃ b < k + 1, ∃ e, history[b]? = some e ∧ added (s.before history b) e = some x
          ∧ (part (s.before history b)).length = i := by
      obtain ⟨b, hb, hx⟩ := ih h
      exact ⟨b, Nat.lt_succ_of_lt hb, hx⟩
    cases hevent : history[k]? with
    | none =>
      rw [before_succ_of_none s history hevent] at h
      exact hearlier h
    | some e =>
      rw [before_succ s history hevent, hnext] at h
      rcases Nat.lt_or_ge i (part (s.before history k)).length with hlt | hle
      · rw [List.getElem?_append_left hlt] at h
        exact hearlier h
      · rw [List.getElem?_append_right hle] at h
        cases hadded : added (s.before history k) e with
        | none =>
          rw [hadded] at h
          cases h
        | some y =>
          rw [hadded, Option.toList_some, List.getElem?_singleton] at h
          obtain ⟨hi, hx⟩ := Option.ite_none_right_eq_some.1 h
          exact ⟨k, Nat.lt_succ_self k, e, hevent, hadded.trans hx, by omega⟩

/-- Every exchange began in an event, with the question, the settings and the generation of that time. -/
theorem exists_begins (hs : s.exchanges = []) {e : Exchange} (h : (s.before history k).exchanges[i]? = some e) :
    ∃ b < k, ∃ question generation, s.Begins history b i question generation ∧
      e = ⟨question.trim, (s.before history b).settings.summary,
        generation.getD (s.before history b).generation.current⟩ := by
  obtain ⟨b, hb, ⟨now, action⟩, hevent, hbegun, hnumber⟩ := exists_event exchanges_next hs h
  cases action with
  | begin question generation =>
    obtain ⟨hblank, he⟩ := Option.ite_none_left_eq_some.1 hbegun
    exact ⟨b, hb, question, generation, ⟨⟨now, hevent⟩, Bool.eq_false_iff.2 hblank, hnumber⟩,
      (Option.some.inj he).symm⟩
  | run | finish | edit | clone | bump => cases hbegun

/-- Every outcome is that of an event that ran an exchange of its time. -/
theorem exists_runs (hs : s.outcomes = []) {o : Outcome} (h : (s.before history k).outcomes[j]? = some o) :
    ∃ r < k, ∃ i assistant e, s.Runs history r i j assistant ∧ (s.before history r).exchanges[i]? = some e ∧
      o = ⟨e.generation, assistant e.context e.question⟩ := by
  obtain ⟨r, hr, ⟨now, action⟩, hevent, houtcome, hnumber⟩ := exists_event outcomes_next hs h
  cases action with
  | run i assistant =>
    obtain ⟨e, he, ho⟩ := Option.map_eq_some_iff.1 houtcome
    have hknown := (List.getElem?_eq_some_iff.1 he).1
    exact ⟨r, hr, i, assistant, e, ⟨⟨now, hevent⟩, hknown, hnumber⟩, he, ho.symm⟩
  | begin | finish | edit | clone | bump => cases houtcome

end Watermark.Session
