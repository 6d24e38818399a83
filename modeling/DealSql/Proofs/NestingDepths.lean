import DealSql.Proofs.NestedQueries
import Mathlib.Data.List.Induction

/-!
# Nesting depths

While a text is cut, the depth is no more than a number: one up at each `(`, one
down at each `)`, but never below zero.  Here it is told by the parentheses that
belong together.  A `(` is closed by the `)` up to which all others belong
together, and open as long as there is none; a `)` that closes nothing has no
effect.

* `matched_iff` — parentheses belong together where the count says so.
* `unclosed_append_singleton` — a `)` closes the nearest `(` that is open.
* `length_unclosed` — the count is the number of those that are open.
* `standsNested_lexFrom` — what the depths of a text mean, and that the search
  for the query of a `FROM` ends at the parenthesis around it.
-/

namespace DealSql.Review

open DealSql.Text DealSql.Statement

variable {ls ms gs : List Lexeme} {l : Lexeme} {p g : Position} {n : Nat}

/-- Lexemes whose parentheses all belong together, `(` with `)`. -/
inductive Matched : List Lexeme → Prop
  | nil : Matched []
  | other {l : Lexeme} {ls : List Lexeme} (hopen : l.isPunct '(' = false)
      (hclose : l.isPunct ')' = false) (h : Matched ls) : Matched (l :: ls)
  | group {opening closing : Lexeme} {inner ls : List Lexeme}
      (hopening : opening.isPunct '(' = true) (hclosing : closing.isPunct ')' = true)
      (hinner : Matched inner) (h : Matched ls) : Matched (opening :: (inner ++ closing :: ls))

/-- Whether a `(` in front of some lexemes is closed among them. -/
def IsClosed (ls : List Lexeme) : Prop :=
  ∃ inner closing rest, ls = inner ++ closing :: rest ∧ closing.isPunct ')' = true ∧ Matched inner

/-! ## Parentheses that belong together -/

/-- Where one more is open than in the end, the lexeme that closes it can be told. -/
theorem exists_closing (h : openBehind? (n + 1) ls = some 0) : ∃ inner closing rest,
    ls = inner ++ closing :: rest ∧ closing.isPunct ')' = true ∧
      openBehind? n inner = some 0 ∧ openBehind? 0 rest = some 0 := by
  induction ls generalizing n with
  | nil => cases h
  | cons l ls ih =>
    -- The lexeme stands in front of one that is found behind it.
    have hon : ∀ m, openBehind? (m + 1) ls = some 0 →
        (∀ inner, openBehind? n (l :: inner) = openBehind? m inner) → ∃ inner closing rest,
          l :: ls = inner ++ closing :: rest ∧ closing.isPunct ')' = true ∧
            openBehind? n inner = some 0 ∧ openBehind? 0 rest = some 0 := by
      intro m hm hl
      obtain ⟨inner, closing, rest, rfl, hclosing, hinner, hrest⟩ := ih hm
      exact ⟨l :: inner, closing, rest, rfl, hclosing, (hl inner).trans hinner, hrest⟩
    rcases paren_cases l with ⟨hopen, -, -⟩ | ⟨-, hclose, -⟩ | ⟨hopen, hclose, -⟩
    · rw [openBehind?_of_opens hopen] at h
      exact hon (n + 1) h fun _ => openBehind?_of_opens hopen
    · rw [openBehind?_succ_of_closes hclose] at h
      cases n with
      | zero => exact ⟨[], l, ls, rfl, hclose, rfl, h⟩
      | succ n => exact hon n h fun _ => openBehind?_succ_of_closes hclose
    · rw [openBehind?_of_other hopen hclose] at h
      exact hon n h fun _ => openBehind?_of_other hopen hclose

/-- What is in a group and what is behind it are shorter than both with the group. -/
theorem length_lt_group (opening closing : Lexeme) (inner rest : List Lexeme) :
    inner.length < (opening :: (inner ++ closing :: rest)).length ∧
      rest.length < (opening :: (inner ++ closing :: rest)).length := by
  rw [List.length_cons, List.length_append, List.length_cons]
  omega

/-- Behind parentheses that belong together as many are open as before. -/
theorem Matched.openBehind?_eq (h : Matched ls) (n : Nat) : openBehind? n ls = some n := by
  induction h generalizing n with
  | nil => rfl
  | other hopen hclose _ ih => rw [openBehind?_of_other hopen hclose, ih]
  | group hopening hclosing _ _ ihInner ih =>
    rw [openBehind?_of_opens hopening, openBehind?_append, ihInner, Option.bind_some,
      openBehind?_succ_of_closes hclosing, ih]

/-- **Parentheses belong together** where the count never falls below zero and
ends there. -/
theorem matched_iff : Matched ls ↔ IsPaired ls := by
  refine ⟨fun h => h.openBehind?_eq 0, fun h => ?_⟩
  induction hlength : ls.length using Nat.strongRecOn generalizing ls with
  | ind n ih =>
    subst hlength
    cases ls with
    | nil => exact .nil
    | cons l ls =>
      rw [IsPaired] at h
      rcases paren_cases l with ⟨hopen, -, -⟩ | ⟨-, hclose, -⟩ | ⟨hopen, hclose, -⟩
      · rw [openBehind?_of_opens hopen] at h
        obtain ⟨inner, closing, rest, rfl, hclosing, hinner, hrest⟩ := exists_closing h
        obtain ⟨hinside, hbehind⟩ := length_lt_group l closing inner rest
        exact .group hopen hclosing (ih _ hinside hinner rfl) (ih _ hbehind hrest rfl)
      · rw [openBehind?_zero_of_closes hclose] at h
        cases h
      · rw [openBehind?_of_other hopen hclose] at h
        exact .other hopen hclose (ih _ (Nat.lt_succ_self _) h rfl)

instance (ls : List Lexeme) : Decidable (IsClosed ls) :=
  decidable_of_iff (∃ p ∈ positions ls, p.here.isPunct ')' = true ∧ IsPaired p.before.reverse)
    ⟨fun ⟨p, hp, hclose, h⟩ =>
        ⟨_, p.here, p.after, mem_positions_iff.1 hp, hclose, matched_iff.2 h⟩,
      fun ⟨inner, closing, rest, hls, hclose, h⟩ => ⟨⟨inner.reverse, closing, rest⟩,
        mem_positions_iff.2 (by simpa using hls), hclose, by simpa using matched_iff.1 h⟩⟩

/-! ## Parentheses that are open -/

/-- Each `(` among some lexemes that is open behind them. -/
def unclosed : List Lexeme → List Lexeme
  | [] => []
  | l :: ls => if l.isPunct '(' = true ∧ ¬ IsClosed ls then l :: unclosed ls else unclosed ls

/-- What is open behind one more lexeme: a `(` as well, and the nearest no longer
behind a `)`. -/
def openAfter (gs : List Lexeme) (l : Lexeme) : List Lexeme :=
  if l.isPunct '(' then gs ++ [l] else if l.isPunct ')' then gs.dropLast else gs

theorem Matched.not_isClosed (h : Matched ls) : ¬ IsClosed ls := by
  rintro ⟨inner, closing, rest, rfl, hclosing, hinner⟩
  have hpaired := h.openBehind?_eq 0
  rw [openBehind?_append, hinner.openBehind?_eq, Option.bind_some,
    openBehind?_zero_of_closes hclosing] at hpaired
  cases hpaired

/-- What is closed by a lexeme at the end was closed before, or all in between
belongs together. -/
theorem isClosed_append_singleton (ls : List Lexeme) (l : Lexeme) : IsClosed (ls ++ [l]) ↔
    IsClosed ls ∨ l.isPunct ')' = true ∧ Matched ls := by
  constructor
  · rintro ⟨inner, closing, rest, hls, hclosing, hinner⟩
    rcases List.eq_nil_or_concat' rest with rfl | ⟨rest, last, rfl⟩
    · obtain ⟨rfl, rfl⟩ : ls = inner ∧ l = closing := by simpa using hls
      exact Or.inr ⟨hclosing, hinner⟩
    · have hcut : ls ++ [l] = (inner ++ closing :: rest) ++ [last] := by simpa using hls
      exact Or.inl ⟨inner, closing, rest, (List.append_inj' hcut rfl).1, hclosing, hinner⟩
  · rintro (⟨inner, closing, rest, rfl, hclosing, hinner⟩ | ⟨hclose, h⟩)
    · exact ⟨inner, closing, rest ++ [l], by simp, hclosing, hinner⟩
    · exact ⟨ls, l, [], rfl, hclose, h⟩

/-- Where parentheses belong together none is left open, -/
theorem unclosed_matched_append (h : Matched ls) : unclosed (ls ++ ms) = unclosed ms := by
  induction h generalizing ms with
  | nil => rfl
  | other hopen _ _ ih => simp [unclosed, hopen, ih]
  | @group opening closing inner ls _ hclosing hinner _ ihInner ih =>
    have hclosed : IsClosed (inner ++ closing :: ls ++ ms) :=
      ⟨inner, closing, ls ++ ms, by simp, hclosing, hinner⟩
    rw [List.cons_append, unclosed, if_neg fun h => h.2 hclosed, List.append_assoc, ihInner,
      List.cons_append, unclosed, if_neg (by simp [not_opens_of_closes hclosing]), ih]

/-- All parentheses belong together where none is open and none closes another
in front of them. -/
theorem matched_iff_unclosed : Matched ls ↔ unclosed ls = [] ∧ ¬ IsClosed ls := by
  constructor
  · intro h
    have hnone : unclosed (ls ++ []) = [] := unclosed_matched_append h
    exact ⟨by simpa using hnone, h.not_isClosed⟩
  · rintro ⟨hnone, hstray⟩
    induction hlength : ls.length using Nat.strongRecOn generalizing ls with
    | ind n ih =>
      subst hlength
      cases ls with
      | nil => exact .nil
      | cons l ls =>
        rw [unclosed] at hnone
        rcases paren_cases l with ⟨hopen, -, -⟩ | ⟨-, hclose, -⟩ | ⟨hopen, hclose, -⟩
        · obtain ⟨inner, closing, rest, rfl, hclosing, hinner⟩ : IsClosed ls := by
            by_contra hopened
            simp [hopen, hopened] at hnone
          have hbehind : unclosed rest = [] := by
            rw [if_neg fun h => h.2 ⟨inner, closing, rest, rfl, hclosing, hinner⟩,
              unclosed_matched_append hinner, unclosed,
              if_neg (by simp [not_opens_of_closes hclosing])] at hnone
            exact hnone
          have hshorter := (length_lt_group l closing inner rest).2
          refine .group hopen hclosing hinner (ih _ hshorter hbehind ?_ rfl)
          rintro ⟨inner', closing', rest', rfl, hclosing', hinner'⟩
          exact hstray
            ⟨_, closing', rest', by simp, hclosing', .group hopen hclosing hinner hinner'⟩
        · exact absurd ⟨[], l, ls, rfl, hclose, .nil⟩ hstray
        · rw [if_neg (by simp [hopen])] at hnone
          refine .other hopen hclose (ih _ (Nat.lt_succ_self _) hnone ?_ rfl)
          rintro ⟨inner, closing, rest, rfl, hclosing, hinner⟩
          exact hstray ⟨l :: inner, closing, rest, rfl, hclosing, .other hopen hclose hinner⟩

/-- The outermost stays open unless it is the nearest, and a `)` closes it. -/
theorem openAfter_cons (h : l.isPunct ')' = true → gs ≠ []) (a : Lexeme) :
    openAfter (a :: gs) l = a :: openAfter gs l := by
  rcases paren_cases l with ⟨hopen, -, -⟩ | ⟨hopen, hclose, -⟩ | ⟨hopen, hclose, -⟩
  · simp [openAfter, hopen]
  · simp [openAfter, hopen, hclose, List.dropLast_cons_of_ne_nil (h hclose)]
  · simp [openAfter, hopen, hclose]

/-- **A `)` closes the nearest `(`** that is open, and nothing where none is. -/
theorem unclosed_append_singleton (ls : List Lexeme) (l : Lexeme) :
    unclosed (ls ++ [l]) = openAfter (unclosed ls) l := by
  induction ls with
  | nil =>
    have hend : ¬ IsClosed [] := Matched.nil.not_isClosed
    by_cases hopen : l.isPunct '(' = true <;> simp [unclosed, openAfter, hopen, hend]
  | cons a ls ih =>
    have hclosed := isClosed_append_singleton ls l
    rw [List.cons_append, unclosed, unclosed, ih]
    by_cases ha : a.isPunct '(' = true ∧ ¬ IsClosed ls
    · rw [if_pos ha]
      by_cases hmatch : l.isPunct ')' = true ∧ Matched ls
      · -- The parenthesis is the nearest that is open, and is closed.
        have hnone : unclosed ls = [] := (matched_iff_unclosed.1 hmatch.2).1
        rw [if_neg (by tauto), hnone]
        simp [openAfter, hmatch.1, not_opens_of_closes hmatch.1]
      · rw [if_pos (by tauto), openAfter_cons]
        intro hclose hnone
        exact hmatch ⟨hclose, matched_iff_unclosed.2 ⟨hnone, ha.2⟩⟩
    · rw [if_neg ha, if_neg (by tauto)]

/-- How many are open is counted. -/
theorem length_openAfter (gs : List Lexeme) (l : Lexeme) :
    (openAfter gs l).length = depthBehind gs.length l := by
  rw [openAfter, depthBehind]
  split
  · simp
  · split <;> simp

theorem length_unclosed (ls : List Lexeme) :
    (unclosed ls).length = ls.foldl depthBehind 0 := by
  induction ls using List.reverseRecOn with
  | nil => rfl
  | append_singleton ls l ih =>
    rw [unclosed_append_singleton, length_openAfter, ih, List.foldl_append]
    rfl

/-- and none that stands in front of them is closed. -/
theorem unclosed_append_matched (h : Matched ms) (ls : List Lexeme) :
    unclosed (ls ++ ms) = unclosed ls := by
  induction h generalizing ls with
  | nil => simp
  | @other l ms hopen hclose _ ih =>
    have hcut : ls ++ l :: ms = (ls ++ [l]) ++ ms := by simp
    rw [hcut, ih, unclosed_append_singleton]
    simp [openAfter, hopen, hclose]
  | @group opening closing inner ms hopening hclosing _ _ ihInner ih =>
    have hcut : ls ++ opening :: (inner ++ closing :: ms) =
        (((ls ++ [opening]) ++ inner) ++ [closing]) ++ ms := by simp
    rw [hcut, ih, unclosed_append_singleton, ihInner, unclosed_append_singleton]
    simp [openAfter, hopening, hclosing, not_opens_of_closes hclosing]

/-! ## The depths of a text -/

/-- In a group the parenthesis that opens it is the nearest that is open. -/
theorem Position.Within.unclosed_eq (h : p.Within g) :
    unclosed p.before.reverse = unclosed g.before.reverse ++ [g.here] := by
  have hcut : p.before.reverse = (g.before.reverse ++ [g.here]) ++ g.after := by
    rw [h.before_eq]
    simp
  rw [hcut, unclosed_append_matched (matched_iff.2 h.paired), unclosed_append_singleton]
  simp [openAfter, h.opens]

/-- A position stands in a group where something is open. -/
theorem exists_within_iff_unclosed (p : Position) :
    (∃ g, p.Within g) ↔ unclosed p.before.reverse ≠ [] := by
  constructor
  · rintro ⟨g, h⟩
    rw [h.unclosed_eq]
    simp
  · intro h
    refine exists_within_of_open ?_
    rw [← length_unclosed]
    exact List.length_pos_iff.2 h

/-- The lexemes in front of a position, and a `)` at it. -/
def Position.upTo (p : Position) : List Lexeme :=
  if p.here.isPunct ')' then p.before.reverse ++ [p.here] else p.before.reverse

/-- What the depth at a position means. -/
structure Position.StandsNested (p : Position) : Prop where
  /-- It is the number of those `(` in front that are open, behind a `)` already
  without the one that is closed. -/
  count : p.here.depth = (unclosed p.upTo).length
  /-- A `(` is open from here on, and a `)` closes the nearest, if any is open. -/
  discipline : unclosed (p.before.reverse ++ [p.here]) =
    openAfter (unclosed p.before.reverse) p.here
  /-- Where any is open there is a group around the position, -/
  enclosed : unclosed p.before.reverse ≠ [] → ∃ g, p.Within g
  /-- behind whose parenthesis, the nearest that is open, all others belong together. -/
  innermost : ∀ g, p.Within g → (unclosed p.before.reverse).getLast? = some g.here ∧
    Matched g.after
  /-- The `)` that closes a group has the depth of the `(` that opens it. -/
  closing : p.here.isPunct ')' = true → ∀ g, p.Within g → p.here.depth = g.here.depth
  /-- Any other lexeme in a group stands one level further in.  Of the parentheses one
  level outside of it the last in front is the one that opens the group, and by
  what stands behind that one a `FROM` is told. -/
  inside : p.here.isPunct ')' = false → p.here.depth ≠ 0 → ∃ g, p.Within g ∧
    p.here.depth = g.here.depth + 1 ∧
    p.before.find? (opensAt p.here.depth) = some g.here ∧
    (∀ l ∈ g.after, opensAt p.here.depth l = false) ∧
    p.isQueryFrom = (!p.follows "DISTINCT" &&
      (g.after ++ [p.here]).head?.any (·.isKeyword "SELECT"))

/-- **The depth of a lexeme** is that at which it is nested, in every text and in either
reading.  Where it is not zero the search for the query of a `FROM` ends at the parenthesis
that opens the innermost group around it, so that no `FROM` in parentheses counts as that of a
query because none was found. -/
theorem standsNested_lexFrom {names : Bool} {t : List Char}
    (hp : p ∈ positions (lexFrom names 0 0 t)) : p.StandsNested := by
  have hls := atDepths_lexFrom names 0 0 t
  have hhere : p.here.depth = if p.here.isPunct ')' then (unclosed p.before.reverse).length - 1
      else (unclosed p.before.reverse).length := by
    have hcut := hls
    rw [mem_positions_iff.1 hp, atDepths_append] at hcut
    rw [length_unclosed]
    exact hcut.2.1
  refine ⟨?_, unclosed_append_singleton _ _, (exists_within_iff_unclosed p).2, fun g h => ?_,
    fun hclose g h => ?_, fun hclose hdepth => ?_⟩
  · rw [hhere, Position.upTo]
    cases hclose : p.here.isPunct ')' with
    | false => rfl
    | true =>
      simp [unclosed_append_singleton, openAfter, hclose, not_opens_of_closes hclose]
  · exact ⟨by rw [h.unclosed_eq, List.getLast?_concat], matched_iff.2 h.paired⟩
  · rw [hhere, if_pos hclose, length_unclosed, (h.open_eq hls hp).1, Nat.add_sub_cancel]
  · obtain ⟨g, h⟩ := (exists_within hls hp hclose).2 hdepth
    obtain ⟨hopens, hpassed⟩ := h.opensAt_eq hls hp hclose
    refine ⟨g, h, (h.depth_eq hls hp hclose).1, ?_, hpassed, ?_⟩
    · rw [h.before_eq, List.find?_append, List.find?_eq_none.2 fun l hl => by
        simp [hpassed l (by simpa using hl)], Option.none_or, List.find?_cons_of_pos hopens]
    · rw [Position.isQueryFrom, h.opensQuery_eq hls hp hclose, beq_eq_false_iff_ne.2 hdepth,
        Bool.false_or]

/-- A text with a `)` that closes nothing, a group that is closed, and one that is not. -/
def unbalancedText : List Char := "a ) ( b ) ( c ( d ) FROM e".toList

/-- Its `FROM` is found in the group that is open. -/
theorem unbalancedText_nested : ∃ p ∈ positions (lexFrom true 0 0 unbalancedText),
    p.here.isKeyword "FROM" = true ∧ p.here.depth = 1 ∧ (unclosed p.upTo).length = 1 ∧
      ∃ g, p.Within g ∧ p.before.find? (opensAt 1) = some g.here := by
  obtain ⟨p, hp, hfrom, hclose, hdepth⟩ : ∃ p ∈ positions (lexFrom true 0 0 unbalancedText),
      p.here.isKeyword "FROM" = true ∧ p.here.isPunct ')' = false ∧ p.here.depth = 1 := by
    decide +kernel
  have hnested := standsNested_lexFrom hp
  obtain ⟨g, h, -, hfound, -⟩ := hnested.inside hclose (by omega)
  rw [hdepth] at hfound
  exact ⟨p, hp, hfrom, hdepth, hnested.count.symm.trans hdepth, g, h, hfound⟩

end DealSql.Review
