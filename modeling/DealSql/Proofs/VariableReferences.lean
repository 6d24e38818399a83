import DealSql.Environment
import DealSql.Proofs.Characters
import DealSql.Proofs.LeftCuts
import Mathlib.Data.List.TakeWhile

/-!
# References to variables

What a text with references is made of, said without reading it: a name in
braces up to the first closing brace, a name without braces that no character of
a name follows, a dollar sign before which neither begins, and the characters
between these.  From the left there is one way to cut a text into such parts.

Expansion replaces the parts once, each by itself: a reference by the value as it
is, whatever dollar signs are in it, and any other part by its own text.  Of the
variables without a value the leftmost is reported.

* `existsUnique_isCut` — a text has one cut.
* `IsCut.segments_eq` — the segments of a text are those of its parts.
* `expand_eq_outcome` — expansion replaces the parts of the cut.
-/

namespace DealSql.Environment

open DealSql.Text

/-- A part of a text: a character, a reference with or without braces, of
which the closing one may be missing, or a dollar sign for itself. -/
inductive Part where
  | char (c : Char)
  | braced (name : List Char) (closed : Bool)
  | bare (name : List Char)
  | dollar
  deriving Repr, DecidableEq

namespace Part

/-- A part as it stands in the text. -/
def text : Part → List Char
  | char c => [c]
  | braced name closed => '$' :: '\x7b' :: name ++ if closed then ['\x7d'] else []
  | bare name => '$' :: name
  | dollar => ['$']

/-- Whether a part, which stands in front of a text, begins and ends where one
does: a name in braces at the first closing brace or, when there is none, with
the text, and a name without braces as far on as it can. -/
def StandsBefore (rest : List Char) : Part → Prop
  | char c => c ≠ '$'
  | braced name true => '\x7d' ∉ name
  | braced name false => '\x7d' ∉ name ∧ rest = []
  | bare name => name ≠ [] ∧ (∀ c ∈ name, isNameChar c = true) ∧
      ∀ c ∈ rest.head?, isNameChar c = false
  | dollar => ∀ c ∈ rest.head?, c ≠ '\x7b' ∧ isNameChar c = false

/-- The variable to which a part refers. -/
def name? : Part → Option String
  | braced name _ => some (String.ofList name)
  | bare name => some (String.ofList name)
  | _ => none

/-- What a part is replaced by: the value of its variable, or itself. -/
def value (env : Environment) (part : Part) : List Char :=
  match part.name? with
  | some name => ((env name).getD "").toList
  | none => part.text

/-- The segment that a part is. -/
def segment : Part → Segment
  | char c => .plain c
  | braced name _ => .reference (String.ofList name)
  | bare name => .reference (String.ofList name)
  | dollar => .plain '$'

end Part

/-- The parts of a text, in order. -/
inductive IsCut : List Char → List Part → Prop
  | nil : IsCut [] []
  | cons {part : Part} {rest : List Char} {parts : List Part} (h : part.StandsBefore rest)
      (hrest : IsCut rest parts) : IsCut (part.text ++ rest) (part :: parts)

/-- The leftmost variable of some parts that has no value. -/
def missing? (env : Environment) (parts : List Part) : Option String :=
  (parts.filterMap Part.name?).find? fun name => (env name).isNone

/-- What becomes of a text with some parts: a variable is missing, or every part is replaced. -/
def outcome (env : Environment) (parts : List Part) : Except Missing (List Char) :=
  match missing? env parts with
  | some name => .error ⟨name⟩
  | none => .ok (parts.flatMap (Part.value env))

variable {c : Char} {s name rest : List Char} {part : Part} {parts : List Part}

/-! ## Names -/

/-- No brace stands in a name without braces. -/
theorem ne_brace (h : isNameChar c = true) : c ≠ '\x7b' := ne_of_test h (by decide)

/-- What stands in front of the first closing brace, and what stands behind. -/
theorem exists_closing (s : List Char) : '\x7d' ∉ s ∨
    ∃ name rest, s = name ++ '\x7d' :: rest ∧ '\x7d' ∉ name := by
  by_cases h : '\x7d' ∈ s
  · exact Or.inr (List.eq_append_cons_of_mem h)
  · exact Or.inl h

/-- A name in braces ends at the closing brace. -/
theorem takeWhile_closed (h : '\x7d' ∉ name) (rest : List Char) :
    (name ++ '\x7d' :: rest).takeWhile (· != '\x7d') = name := by
  refine (run_append_of_stop (fun c hc => ?_) (by simp)).1
  simpa using fun heq : c = '\x7d' => h (heq ▸ hc)

/-- Without a closing brace it ends with the text. -/
theorem takeWhile_unclosed (h : '\x7d' ∉ s) : s.takeWhile (· != '\x7d') = s := by
  refine List.takeWhile_eq_self_iff.2 fun c hc => ?_
  simpa using fun heq : c = '\x7d' => h (heq ▸ hc)

/-! ## The segment of a part -/

theorem segments_char (hc : c ≠ '$') (r : List Char) :
    segments (c :: r) = .plain c :: segments r := by
  rw [segments, if_neg hc]

theorem segments_braced (r : List Char) : segments ('$' :: '\x7b' :: r) =
    .reference (String.ofList (r.takeWhile (· != '\x7d'))) ::
      segments (r.drop ((r.takeWhile (· != '\x7d')).length + 1)) := by
  rw [segments, if_pos rfl, List.head?_cons, if_pos rfl]
  rfl

theorem segments_bare (h : rest.head? ≠ some '\x7b') : segments ('$' :: rest) =
    if (rest.takeWhile isNameChar).isEmpty then .plain '$' :: segments rest
    else .reference (String.ofList (rest.takeWhile isNameChar)) ::
      segments (rest.drop (rest.takeWhile isNameChar).length) := by
  rw [segments, if_pos rfl, if_neg h]

/-- **A text begins with the segment of its first part.** -/
theorem Part.StandsBefore.segments_append (h : part.StandsBefore rest) :
    segments (part.text ++ rest) = part.segment :: segments rest := by
  cases part with
  | char c => exact segments_char h rest
  | braced name closed =>
    cases closed with
    | true =>
      have htext : (braced name true).text ++ rest = '$' :: '\x7b' :: (name ++ '\x7d' :: rest) := by
        simp [text]
      rw [htext, segments_braced, takeWhile_closed h]
      simp [segment]
    | false =>
      obtain ⟨hname, rfl⟩ := h
      have htext : (braced name false).text ++ [] = '$' :: '\x7b' :: name := by simp [text]
      have hbehind : name.drop (name.length + 1) = [] := List.drop_eq_nil_of_le (Nat.le_succ _)
      rw [htext, segments_braced, takeWhile_unclosed hname, hbehind]
      rfl
  | bare name =>
    obtain ⟨hne, hname, hrest⟩ := h
    obtain ⟨htake, -⟩ := run_append_of_stop hname hrest
    have hbrace : (name ++ rest).head? ≠ some '\x7b' := by
      obtain ⟨c, r, rfl⟩ := List.exists_cons_of_ne_nil hne
      simpa using ne_brace (hname c List.mem_cons_self)
    rw [text, List.cons_append, segments_bare hbrace, htake, if_neg (by simpa using hne)]
    simp [segment]
  | dollar =>
    have hbrace : rest.head? ≠ some '\x7b' := fun hhead => (h _ hhead).1 rfl
    have htake : rest.takeWhile isNameChar = [] := by
      cases rest with
      | nil => rfl
      | cons c r =>
        have hc : isNameChar c = false := (h c rfl).2
        simp [hc]
    rw [text, List.singleton_append, segments_bare hbrace, htake]
    rfl

/-- **The segments of a text** are those of its parts. -/
theorem IsCut.segments_eq (h : IsCut s parts) : segments s = parts.map Part.segment := by
  induction h with
  | nil => simp [segments]
  | cons hpart _ ih => rw [hpart.segments_append, ih, List.map_cons]

/-! ## Cuts -/

namespace Part

theorem text_ne_nil (part : Part) : part.text ≠ [] := by cases part <;> simp [text]

/-- A text begins with a part. -/
theorem exists_standsBefore (c : Char) (s : List Char) :
    ∃ part rest, StandsBefore rest part ∧ c :: s = part.text ++ rest := by
  by_cases hc : c = '$'
  swap
  · exact ⟨char c, s, hc, rfl⟩
  subst hc
  by_cases hbrace : s.head? = some '\x7b'
  · obtain ⟨s, rfl⟩ := List.head?_eq_some_iff.1 hbrace
    rcases exists_closing s with hopen | ⟨name, rest, rfl, hname⟩
    · exact ⟨braced s false, [], ⟨hopen, rfl⟩, by simp [text]⟩
    · exact ⟨braced name true, rest, hname, by simp [text]⟩
  · have hstop := List.head?_dropWhile_not isNameChar s
    have hrun : s = s.takeWhile isNameChar ++ s.dropWhile isNameChar :=
      List.takeWhile_append_dropWhile.symm
    have hrest : ∀ c ∈ (s.dropWhile isNameChar).head?, isNameChar c = false := by
      intro c hc
      rw [Option.mem_def.1 hc] at hstop
      simpa using hstop
    rcases eq_or_ne (s.takeWhile isNameChar) [] with hnil | hne
    · rw [hnil, List.nil_append] at hrun
      refine ⟨dollar, s, fun c hc => ⟨?_, hrest c (hrun ▸ hc)⟩, rfl⟩
      rintro rfl
      exact hbrace hc
    · refine ⟨bare _, _, ⟨hne, fun c => List.mem_takeWhile_imp, hrest⟩, ?_⟩
      rw [text, List.cons_append, ← hrun]

/-- The first part of a text is determined. -/
theorem eq_of_standsBefore {part' : Part} {rest' : List Char} (h : StandsBefore rest part)
    (h' : StandsBefore rest' part') (heq : part.text ++ rest = part'.text ++ rest') :
    part = part' ∧ rest = rest' := by
  -- The segments agree, so what is left to tell apart are the spellings of one reference.
  have hsegment : part.segment = part'.segment := by
    have hcons : part.segment :: segments rest = part'.segment :: segments rest' := by
      rw [← h.segments_append, ← h'.segments_append, heq]
    exact (List.cons.inj hcons).1
  have hbare : ∀ {name inside r r' : List Char}, StandsBefore r (bare name) →
      '\x7b' :: inside = name ++ r' → False := by
    intro name inside r r' hstands hbrace
    obtain ⟨c, u, rfl⟩ := List.exists_cons_of_ne_nil hstands.1
    obtain ⟨rfl, -⟩ := List.cons.inj hbrace
    exact ne_brace (hstands.2.1 _ List.mem_cons_self) rfl
  cases part with
  | char c =>
    cases part' with
    | char c' =>
      obtain rfl : c = c' := by simpa [segment] using hsegment
      exact ⟨rfl, by simpa [text] using heq⟩
    | dollar => exact absurd (by simpa [segment] using hsegment) h
    | _ => simp [segment] at hsegment
  | braced name closed =>
    cases part' with
    | braced name' closed' =>
      obtain rfl : name = name' := String.ofList_injective (Segment.reference.inj hsegment)
      cases closed <;> cases closed'
      · exact ⟨rfl, h.2.trans h'.2.symm⟩
      · simp [text, h.2] at heq
      · simp [text, h'.2] at heq
      · exact ⟨rfl, by simpa [text] using heq⟩
    | bare name' =>
      simp only [text, List.cons_append, List.cons.injEq, true_and] at heq
      exact (hbare h' heq).elim
    | _ => simp [segment] at hsegment
  | bare name =>
    cases part' with
    | bare name' =>
      obtain rfl : name = name' := String.ofList_injective (Segment.reference.inj hsegment)
      exact ⟨rfl, by simpa [text] using heq⟩
    | braced name' closed =>
      simp only [text, List.cons_append, List.cons.injEq, true_and] at heq
      exact (hbare h heq.symm).elim
    | _ => simp [segment] at hsegment
  | dollar =>
    cases part' with
    | dollar => exact ⟨rfl, by simpa [text] using heq⟩
    | char c => exact absurd (by simpa [segment] using hsegment.symm) h'
    | _ => simp [segment] at hsegment

end Part

/-- **A text has one cut**, from the left. -/
theorem existsUnique_isCut (s : List Char) : ∃! parts, IsCut s parts := by
  have hcut : LeftCut Part.text Part.StandsBefore IsCut :=
    { nil := .nil
      cons := .cons
      inv := fun h => by
        cases h with
        | nil => exact Or.inl ⟨rfl, rfl⟩
        | cons h hrest => exact Or.inr ⟨_, _, _, h, hrest, rfl, rfl⟩
      ne_nil := Part.text_ne_nil
      exists_first := Part.exists_standsBefore
      first_unique := Part.eq_of_standsBefore }
  exact hcut.existsUnique s

/-! ## Expansion -/

/-- Parts are replaced one after another, up to the first that is missing. -/
theorem outcome_append (env : Environment) (as bs : List Part) :
    outcome env (as ++ bs) =
      (outcome env as).bind fun a => (outcome env bs).map (a ++ ·) := by
  have hmissing : missing? env (as ++ bs) = (missing? env as).or (missing? env bs) := by
    rw [missing?, List.filterMap_append, List.find?_append]
    rfl
  rw [outcome, outcome, outcome, hmissing, List.flatMap_append]
  cases missing? env as with
  | some name => rfl
  | none => cases missing? env bs <;> rfl

/-- What stands for a segment is what becomes of its part. -/
theorem valueOf_segment (env : Environment) (part : Part) :
    valueOf env part.segment = outcome env [part] := by
  cases part with
  | char c => rfl
  | dollar => rfl
  | braced name closed | bare name =>
    cases hvalue : env (String.ofList name) <;>
      simp [valueOf, Part.segment, outcome, missing?, Part.value, Part.name?, hvalue]

/-- **The values of the segments** are put together, unless one is missing. -/
theorem mapM_valueOf (env : Environment) (parts : List Part) :
    ((parts.map Part.segment).mapM (valueOf env)).map List.flatten = outcome env parts := by
  induction parts with
  | nil => rfl
  | cons part parts ih =>
    have hsplit : outcome env (part :: parts) = _ := outcome_append env [part] parts
    rw [List.map_cons, List.mapM_cons, valueOf_segment, hsplit, ← ih]
    cases outcome env [part] with
    | error e => rfl
    | ok value => cases (parts.map Part.segment).mapM (valueOf env) <;> rfl

/-- **Expansion replaces the parts of a text.**  A text has one cut.  The leftmost of its variables
without a value is missing; if there is none, each reference is replaced by its value as it is,
and the rest of the text is left as it was. -/
theorem expand_eq_outcome (env : Environment) (s : List Char) :
    ∃ parts, (∀ t, IsCut s t ↔ t = parts) ∧ env.expand s = outcome env parts := by
  obtain ⟨parts, hparts, hunique⟩ := existsUnique_isCut s
  refine ⟨parts, fun t => ⟨hunique t, fun h => h ▸ hparts⟩, ?_⟩
  rw [expand, hparts.segments_eq, mapM_valueOf]

/-- A dollar sign in front of another stands for itself, one in a value is not read again, and
braces that are not closed reach to the end. -/
example : expand (fun name => if name = "b" then some "$c" else none) "$$b $\x7bb".toList =
    .ok "$$c $c".toList := by
  decide +kernel

end DealSql.Environment
