import Watermark.Proofs.Json.Content
import Watermark.Proofs.Json.Record
import Watermark.Proofs.Json.Skip

/-!
# Records are read from objects with any members

An object is read member by member, whatever the members are: a member whose key is no field is passed over, one with
the key of a field makes the change that the content of its value stands for (`Typed.change`). So what is made of an
object depends on its members only, not on the text that spells them (`toOption_readAll_record`).

It is refused exactly if a key is no text, a field occurs twice or a value is not what its field takes
(`Typed.Accepts`), as `foldlM_change_eq_some_iff` shows by induction on the members.
-/

namespace Watermark.Json

variable {σ α : Type}

/-- A field together with what it makes of the content of its value. -/
structure Typed (σ : Type) where
  field : Field σ
  take : Content → Option (σ → σ)
  takes : Takes field.read take

/-- A field whose value is read by `r`. -/
def Typed.of (key : String) (absence : Absence) {r : Reader α} (store : α → σ → σ) {take : Content → Option α}
    (h : Takes r take) : Typed σ :=
  ⟨.of key absence r store, fun c => (take c).map store, h.map store⟩

namespace Typed

/-! ## Reading the members -/

/-- The field with a key. -/
def find? (fs : List (Typed σ)) (k : Text) : Option (Typed σ) := fs.find? fun f => f.field.key == k

/-- What a member makes of the keys that have occurred and of the record; none where the member is refused. -/
def change (fs : List (Typed σ)) (p : List Text × σ) (m : Option Text × Content) : Option (List Text × σ) :=
  m.1.bind fun k =>
    match find? fs k with
    | none => some p
    | some f => if p.1.contains k then none else (f.take m.2).map fun g => (k :: p.1, g p.2)

theorem find?_map_field (fs : List (Typed σ)) (k : Text) :
    ((fs.map (·.field)).find? fun f => f.key == k) = (find? fs k).map (·.field) := by
  rw [List.find?_map]
  rfl

end Typed

open Typed (change)

theorem ignoresBlanks_nextKey (first : Bool) : IgnoresBlanks (nextKey first) := ignoresBlanks_peek.bind _

theorem ignoresBlanks_members (fields : List (Field σ)) (n : Nat) (first : Bool) (seen : List Text) (s : σ) :
    IgnoresBlanks (members fields n first seen s) := by
  cases n with
  | zero => exact fun _ _ _ => rfl
  | succ n => exact (ignoresBlanks_nextKey first).bind _

theorem run_nextKey_closing (first : Bool) (rest : Text) :
    (nextKey first).run ('\x7d' :: rest) = .ok (none, rest) := by
  rw [nextKey, run_bind_of_ok (run_peek_cons (by decide) rest)]
  rfl

theorem toOption_run_nextKey (first : Bool) {k gap : Text} {ps : List Quoted.Piece} (h : Quoted.Pieces k ps)
    (hgap : gap.All isBlank) (rest : Text) :
    ((nextKey first).run (Layout.separator first ++ (gap ++ '"' :: (k ++ '"' :: rest)))).toOption
      = (Quoted.decode? ps).map fun t => (some t, rest) := by
  have hkey : ∀ gap : Text, gap.All isBlank →
      ((do expect '"'; return some (← Quoted.read) : Reader (Option Text)).run
        (gap ++ '"' :: (k ++ '"' :: rest))).toOption = (Quoted.decode? ps).map fun t => (some t, rest) := by
    intro gap hgap
    rw [run_bind_of_ok (run_expect hgap (by decide)), toOption_run_bind, Quoted.read_pieces h]
    cases Quoted.decode? ps <;> rfl
  cases first with
  | true =>
    have hpeek := run_peek (c := '"') (t := k ++ '"' :: rest) hgap (by decide)
    show ((nextKey true).run (gap ++ '"' :: (k ++ '"' :: rest))).toOption = _
    rw [nextKey, run_bind_of_ok hpeek]
    exact hkey [] .nil
  | false =>
    have hpeek := run_peek_cons (c := ',') (by decide) (gap ++ '"' :: (k ++ '"' :: rest))
    have hcomma := run_expect_cons (c := ',') (by decide) (gap ++ '"' :: (k ++ '"' :: rest))
    show ((nextKey false).run (',' :: (gap ++ '"' :: (k ++ '"' :: rest)))).toOption = _
    rw [nextKey, run_bind_of_ok hpeek]
    show ((expect ',' >>= fun _ => (do expect '"'; return some (← Quoted.read))).run _).toOption = _
    rw [run_bind_of_ok hcomma]
    exact hkey gap hgap

variable (fs : List (Typed σ))

/-- Reading a member and those behind it. -/
theorem toOption_run_member {k : Option Text} {c : Content} {w : Text} (h : Derives (.member k c) w) (first : Bool)
    (n : Nat) (p : List Text × σ) {gap rest : Text} (hgap : gap.All isBlank) (hrest : Ends rest) :
    ((members (fs.map (·.field)) (n + 1) first p.1 p.2).run
        (Layout.separator first ++ (gap ++ (w ++ rest)))).toOption
      = (change fs p (k, c)).bind fun q => ((members (fs.map (·.field)) n false q.1 q.2).run rest).toOption := by
  cases h with
  | @member k ps before after w last _ hk hbefore hafter hw hlast =>
    have hends := ends_append hlast hrest
    have htext : '"' :: (k ++ '"' :: (before ++ ':' :: (after ++ (w ++ last)))) ++ rest
        = '"' :: (k ++ '"' :: (before ++ ':' :: (after ++ (w ++ (last ++ rest))))) := by simp
    rw [htext, members, toOption_run_bind, toOption_run_nextKey first hk hgap]
    cases Quoted.decode? ps with
    | none => rfl
    | some key =>
      have hcolon := run_expect hbefore (t := after ++ (w ++ (last ++ rest))) (c := ':') (by decide)
      simp only [Option.map_some, Option.bind_some, Typed.find?_map_field, change]
      cases Typed.find? fs key with
      | none =>
        rw [Option.map_none]
        dsimp only
        rw [run_bind_of_ok hcolon, run_bind_of_ok (Skip.run_value hw hafter hends),
          ignoresBlanks_members _ _ _ _ _ last rest hlast]
        rfl
      | some f =>
        rw [Option.map_some]
        dsimp only
        split
        · rfl
        · rw [run_bind_of_ok hcolon, toOption_run_bind, f.takes c w after _ hw hafter hends]
          cases f.take c with
          | none => rfl
          | some g => exact congrArg Except.toOption (ignoresBlanks_members _ _ _ _ _ last rest hlast)

theorem run_members_closing (n : Nat) (first : Bool) (p : List Text × σ) (rest : Text) :
    (members (fs.map (·.field)) (n + 1) first p.1 p.2).run ('\x7d' :: rest) = .ok (p, rest) := by
  rw [members, run_bind_of_ok (run_nextKey_closing first rest)]
  rfl

/-- Members are read one after the other. -/
theorem toOption_run_members {ms : Members} {w : Text} (h : Derives (.members ms) w) (first : Bool) {n : Nat}
    (hn : ms.length < n) (p : List Text × σ) {gap : Text} (hgap : gap.All isBlank) (rest : Text) :
    ((members (fs.map (·.field)) n first p.1 p.2).run
        (Layout.separator first ++ (gap ++ (w ++ '\x7d' :: rest)))).toOption
      = (ms.foldlM (change fs) p).map (·, rest) := by
  -- on the members, not on the derivation, since each member takes one turn of the reader
  induction ms generalizing w first n p gap with
  | nil => cases h
  | cons m ms ih =>
    obtain ⟨n, rfl⟩ := Nat.exists_eq_succ_of_ne_zero (Nat.ne_zero_of_lt hn)
    rw [List.length_cons, Nat.succ_lt_succ_iff] at hn
    rw [List.foldlM_cons]
    cases h with
    | @lastMember k c w hm =>
      obtain ⟨n, rfl⟩ := Nat.exists_eq_succ_of_ne_zero (Nat.ne_zero_of_lt hn)
      rw [toOption_run_member fs hm first _ p hgap (ends_cons (by decide))]
      cases change fs p (k, c) with
      | none => rfl
      | some q => exact congrArg Except.toOption (run_members_closing fs n false q rest)
    | @moreMembers k c ms w gap' v hm hgap' hv =>
      have htext : w ++ ',' :: (gap' ++ v) ++ '\x7d' :: rest = w ++ ',' :: (gap' ++ (v ++ '\x7d' :: rest)) := by simp
      rw [htext, toOption_run_member fs hm first _ p hgap (ends_cons (by decide))]
      cases change fs p (k, c) with
      | none => rfl
      | some q => exact ih hv false hn q hgap'

theorem length_le_of_members {ms : Members} {w : Text} (h : Derives (.members ms) w) : ms.length ≤ w.length := by
  induction ms generalizing w with
  | nil => cases h
  | cons m ms ih =>
    cases h with
    | lastMember hm =>
      cases hm
      simp
    | moreMembers _ _ hv =>
      have := ih hv
      simp
      omega

/-! ## Reading a text -/

theorem toOption_readAll {r : Reader α} {t last : Text} {x : Option α} (hlast : last.All isBlank)
    (h : (r.run t).toOption = x.map (·, last)) : (readAll r t).toOption = x := by
  have hempty : (last.dropWhile isBlank).isEmpty = true := by
    have hdrop : (last ++ []).dropWhile isBlank = [].dropWhile isBlank := List.dropWhile_append_of_pos hlast
    rw [List.append_nil] at hdrop
    rw [hdrop]
    rfl
  rw [readAll]
  cases hrun : r.run t with
  | error e =>
    rw [hrun] at h
    cases x with
    | none => rfl
    | some a => cases h
  | ok p =>
    rw [hrun] at h
    cases x with
    | none => cases h
    | some a =>
      cases h
      show (if (last.dropWhile isBlank).isEmpty = true then .ok a
        else .error Fault.malformed : Except Fault α).toOption = _
      rw [if_pos hempty]
      rfl

/-- Behind an opening brace the members are read, and then no field must be missing that has to be there. -/
theorem toOption_run_objectForm {ms : Members} {body rest : Text} {initial : σ}
    (h : ((members (fs.map (·.field)) (body.length + 1) true [] initial).run body).toOption
      = (ms.foldlM (change fs) ([], initial)).map (·, rest)) :
    ((objectForm (fs.map (·.field)) initial).run body).toOption
      = ((ms.foldlM (change fs) ([], initial)).bind fun q =>
          if fs.all fun f => f.field.absence != .refused || q.1.contains f.field.key then some q.2 else none).map
        (·, rest) := by
  have hget : (get : Reader Text).run body = .ok (body, body) := rfl
  rw [objectForm, run_bind_of_ok hget, toOption_run_bind, h]
  cases ms.foldlM (change fs) ([], initial) with
  | none => rfl
  | some q =>
    rw [Option.map_some, Option.bind_some, Option.bind_some]
    dsimp only
    rw [List.all_map]
    dsimp only [Function.comp_def]
    split <;> rfl

/-- Reading an object none of whose fields has to be there. -/
theorem toOption_run_record {ms : Members} {gap body last : Text} {initial : σ} (hgap : gap.All isBlank)
    (habsence : ∀ f ∈ fs, f.field.absence ≠ .refused)
    (h : ((members (fs.map (·.field)) (body.length + 1) true [] initial).run body).toOption
      = (ms.foldlM (change fs) ([], initial)).map (·, last)) :
    ((record (fs.map (·.field)) initial).run (gap ++ '\x7b' :: body)).toOption
      = ((ms.foldlM (change fs) ([], initial)).map Prod.snd).map (·, last) := by
  rw [record, run_bind_of_ok (run_peek hgap (by decide))]
  show ((objectForm (fs.map (·.field)) initial).run body).toOption = _
  rw [toOption_run_objectForm fs h]
  cases ms.foldlM (change fs) ([], initial) with
  | none => rfl
  | some q =>
    have hall : (fs.all fun f => f.field.absence != .refused || q.1.contains f.field.key) = true := by
      rw [List.all_eq_true]
      intro f hf
      exact Bool.or_eq_true_iff.2 (.inl (bne_iff_ne.2 (habsence f hf)))
    rw [Option.bind_some, if_pos hall]
    rfl

/-- What is made of an object depends on its members only. -/
theorem toOption_readAll_record {ms : Members} {t : Text} (h : ObjectText ms t)
    (habsence : ∀ f ∈ fs, f.field.absence ≠ .refused) (initial : σ) :
    (readAll (record (fs.map (·.field)) initial) t).toOption = (ms.foldlM (change fs) ([], initial)).map Prod.snd := by
  cases h with
  | @empty gap gap' last hgap hgap' hlast =>
    refine toOption_readAll hlast (toOption_run_record fs hgap habsence ?_)
    rw [ignoresBlanks_members _ _ _ _ _ gap' _ hgap']
    exact congrArg Except.toOption (run_members_closing fs _ true ([], initial) last)
  | @members ms gap gap' w last hgap hgap' hw hlast =>
    have hlength := length_le_of_members hw
    have hn : ms.length < (gap' ++ (w ++ '\x7d' :: last)).length + 1 := by simp; omega
    refine toOption_readAll hlast (toOption_run_record fs hgap habsence ?_)
    exact toOption_run_members fs hw true hn ([], initial) hgap' last

/-! ## What is accepted -/

namespace Typed

/-- The keys of fields among the keys of members, in their order. -/
def known (ms : Members) : List Text := (ms.filterMap Prod.fst).filter fun k => (find? fs k).isSome

/-- What a member makes of a record, nothing where it is refused. -/
def apply (s : σ) (m : Option Text × Content) : σ := (((m.1.bind (find? fs)).bind fun f => f.take m.2).getD id) s

/-- Members that are read where the fields with the keys `seen` have occurred. -/
structure Accepts (seen : List Text) (ms : Members) : Prop where
  names : ∀ m ∈ ms, m.1.isSome
  fresh : ∀ k ∈ known fs ms, k ∉ seen
  once : (known fs ms).Nodup
  fits : ∀ m ∈ ms, ∀ f ∈ m.1.bind (find? fs), (f.take m.2).isSome

variable {fs} {seen : List Text} {ms : Members} {k : Text} {c : Content} {f : Typed σ}

theorem known_cons_of_none (h : find? fs k = none) : known fs ((some k, c) :: ms) = known fs ms := by
  simp [known, h]

theorem known_cons_of_some (h : find? fs k = some f) : known fs ((some k, c) :: ms) = k :: known fs ms := by
  simp [known, h]

theorem not_accepts_nameless : ¬ Accepts fs seen ((none, c) :: ms) := by
  intro h
  cases h.names _ List.mem_cons_self

theorem accepts_unknown (h : find? fs k = none) : Accepts fs seen ((some k, c) :: ms) ↔ Accepts fs seen ms := by
  constructor
  · rintro ⟨hnames, hfresh, honce, hfits⟩
    rw [known_cons_of_none h] at hfresh honce
    exact ⟨fun m hm => hnames m (List.mem_cons_of_mem _ hm), hfresh, honce,
      fun m hm => hfits m (List.mem_cons_of_mem _ hm)⟩
  · rintro ⟨hnames, hfresh, honce, hfits⟩
    refine ⟨List.forall_mem_cons.2 ⟨rfl, hnames⟩, ?_, ?_, List.forall_mem_cons.2 ⟨?_, hfits⟩⟩
    · rwa [known_cons_of_none h]
    · rwa [known_cons_of_none h]
    · intro f hf
      rw [Option.bind_some, h] at hf
      cases hf

theorem accepts_known (h : find? fs k = some f) :
    Accepts fs seen ((some k, c) :: ms) ↔ k ∉ seen ∧ (f.take c).isSome ∧ Accepts fs (k :: seen) ms := by
  constructor
  · rintro ⟨hnames, hfresh, honce, hfits⟩
    rw [known_cons_of_some h] at hfresh honce
    rw [List.nodup_cons] at honce
    refine ⟨hfresh k List.mem_cons_self, hfits _ List.mem_cons_self f h,
      fun m hm => hnames m (List.mem_cons_of_mem _ hm), fun k' hk' => ?_, honce.2,
      fun m hm => hfits m (List.mem_cons_of_mem _ hm)⟩
    rintro (_ | ⟨_, hseen⟩)
    · exact honce.1 hk'
    · exact hfresh k' (List.mem_cons_of_mem _ hk') hseen
  · rintro ⟨hseen, hfit, hnames, hfresh, honce, hfits⟩
    refine ⟨List.forall_mem_cons.2 ⟨rfl, hnames⟩, ?_, ?_, List.forall_mem_cons.2 ⟨?_, hfits⟩⟩
    · rw [known_cons_of_some h]
      exact List.forall_mem_cons.2 ⟨hseen, fun k' hk' hmem => hfresh k' hk' (List.mem_cons_of_mem _ hmem)⟩
    · rw [known_cons_of_some h, List.nodup_cons]
      exact ⟨fun hk => hfresh k hk List.mem_cons_self, honce⟩
    · intro f' hf'
      rw [Option.bind_some, h] at hf'
      cases hf'
      exact hfit

/-- The members are read exactly if they are accepted, each making its change. -/
theorem foldlM_change_eq_some_iff {p q : List Text × σ} : ms.foldlM (change fs) p = some q ↔
    Accepts fs p.1 ms ∧ q = ((known fs ms).reverse ++ p.1, ms.foldl (apply fs) p.2) := by
  -- the keys that have occurred grow with each field, so they are any here
  induction ms generalizing p with
  | nil =>
    have haccepts : Accepts fs p.1 [] := ⟨nofun, nofun, List.nodup_nil, nofun⟩
    rw [List.foldlM_nil]
    exact ⟨fun h => ⟨haccepts, (Option.some.inj h).symm⟩, fun h => congrArg some h.2.symm⟩
  | cons m ms ih =>
    obtain ⟨_ | k, c⟩ := m
    · exact ⟨nofun, fun h => absurd h.1 not_accepts_nameless⟩
    rw [List.foldlM_cons, List.foldl_cons]
    cases hf : find? fs k with
    | none =>
      have hchange : change fs p (some k, c) = some p := by simp [change, hf]
      have happly : apply fs p.2 (some k, c) = p.2 := by simp [apply, hf]
      rw [hchange, accepts_unknown hf, known_cons_of_none hf, happly]
      exact ih
    | some f =>
      rw [accepts_known hf, known_cons_of_some hf]
      by_cases hseen : k ∈ p.1
      · have hchange : change fs p (some k, c) = none := by simp [change, hf, hseen]
        rw [hchange]
        exact ⟨nofun, fun h => absurd hseen h.1.1⟩
      cases hg : f.take c with
      | none =>
        have hchange : change fs p (some k, c) = none := by simp [change, hf, hg]
        rw [hchange]
        exact ⟨nofun, fun h => nomatch h.1.2.1⟩
      | some g =>
        have hchange : change fs p (some k, c) = some (k :: p.1, g p.2) := by simp [change, hf, hseen, hg]
        have happly : apply fs p.2 (some k, c) = g p.2 := by simp [apply, hf, hg]
        rw [hchange, happly]
        refine (ih (p := (k :: p.1, g p.2))).trans ?_
        simp [hseen]

end Typed

/-- An object is read exactly if its members are accepted. -/
theorem readAll_record_eq_ok_iff {ms : Members} {t : Text} (h : ObjectText ms t)
    (habsence : ∀ f ∈ fs, f.field.absence ≠ .refused) (initial : σ) {s : σ} :
    readAll (record (fs.map (·.field)) initial) t = .ok s
      ↔ Typed.Accepts fs [] ms ∧ s = ms.foldl (Typed.apply fs) initial := by
  rw [← toOption_eq_some_iff, toOption_readAll_record fs h habsence, Option.map_eq_some_iff]
  constructor
  · rintro ⟨q, hq, rfl⟩
    obtain ⟨haccepts, rfl⟩ := Typed.foldlM_change_eq_some_iff.1 hq
    exact ⟨haccepts, rfl⟩
  · rintro ⟨haccepts, rfl⟩
    exact ⟨_, Typed.foldlM_change_eq_some_iff.2 ⟨haccepts, rfl⟩, rfl⟩

end Watermark.Json
