import DealSql.Proofs.LeftCuts
import DealSql.Proofs.LocalReadings
import DealSql.Proofs.WholeTexts
import Mathlib.Data.List.Basic

/-!
# Segments

What a statement is made of, said without reading it character by character: a
comment up to the end of its line, a comment between a slash with a star and
the first star with a slash behind it, a literal up to the first single quote
that is not doubled, a name up to the next double quote, and between these
the characters of the code, of which none begins one.  What is not closed runs
to the end of the statement.

From the left there is one way to cut a statement into such segments.  The
reading gives every character the role that it has in its segment.

* `Segment.first_of_standsBefore` — the segment with which a text begins.
* `existsUnique_segmentation` — a text has one segmentation.
* `IsSegmentation.marks_eq` — the marks of a text are those of its segments.
-/

namespace DealSql.Statement

open DealSql.Text

/-- A part of a statement.  A comment between marks, a literal or a name may
lack its end. -/
inductive Segment where
  | code (c : Char)
  | lineComment (text : List Char)
  | blockComment (text : List Char) (closed : Bool)
  | literal (inside : List Char) (closed : Bool)
  | name (inside : List Char) (closed : Bool)
  deriving Repr, DecidableEq

namespace Segment

/-- The characters of a segment with their roles. -/
def marks : Segment → List (Char × Role)
  | code c => [(c, .code)]
  | lineComment text => ('-' :: '-' :: text).map (·, .comment)
  | blockComment text closed =>
    ('/' :: '*' :: text ++ if closed then ['*', '/'] else []).map (·, .comment)
  | literal inside closed =>
    ('\'', .code) :: inside.map (·, .literal) ++ if closed then [('\'', .code)] else []
  | name inside closed =>
    ('"', .code) :: inside.map (·, .name) ++ if closed then [('"', .code)] else []

/-- The characters of a segment. -/
def text (s : Segment) : List Char := s.marks.map Prod.fst

/-- Whether a segment, which stands in front of a text, begins and ends where
one does: nothing begins with a character of code, and a segment ends at its
first closing mark or, when there is none, with the statement. -/
def StandsBefore (rest : List Char) : Segment → Prop
  | code c => c ≠ '\'' ∧ c ≠ '"' ∧ ¬ (c = '-' ∧ rest.head? = some '-') ∧
      ¬ (c = '/' ∧ rest.head? = some '*')
  | lineComment text => '\n' ∉ text ∧ ∀ c ∈ rest.head?, c = '\n'
  | blockComment text true => ¬ ['*', '/'] <:+: text ++ ['*']
  | blockComment text false => ¬ ['*', '/'] <:+: text ∧ rest = []
  | literal inside true => (∃ u, inside = double '\'' u) ∧ rest.head? ≠ some '\''
  | literal inside false => (∃ u, inside = double '\'' u) ∧ rest = []
  | name inside true => '"' ∉ inside
  | name inside false => '"' ∉ inside ∧ rest = []

@[simp] theorem text_code (c : Char) : (code c).text = [c] := rfl

@[simp] theorem text_lineComment (t : List Char) : (lineComment t).text = '-' :: '-' :: t := by
  simp [text, marks, Function.comp_def]

@[simp] theorem text_blockComment (t : List Char) (closed : Bool) :
    (blockComment t closed).text = '/' :: '*' :: t ++ if closed then ['*', '/'] else [] := by
  cases closed <;> simp [text, marks, Function.comp_def]

@[simp] theorem text_literal (inside : List Char) (closed : Bool) :
    (literal inside closed).text = '\'' :: inside ++ if closed then ['\''] else [] := by
  cases closed <;> simp [text, marks, Function.comp_def]

@[simp] theorem text_name (inside : List Char) (closed : Bool) :
    (name inside closed).text = '"' :: inside ++ if closed then ['"'] else [] := by
  cases closed <;> simp [text, marks, Function.comp_def]

end Segment

/-- The segments of a text, in order. -/
inductive IsSegmentation : List Char → List Segment → Prop
  | nil : IsSegmentation [] []
  | cons {s : Segment} {rest : List Char} {segs : List Segment} (h : s.StandsBefore rest)
      (hrest : IsSegmentation rest segs) : IsSegmentation (s.text ++ rest) (s :: segs)

variable {s : Segment} {t rest sql : List Char}

/-! ## Closing marks -/

/-- The text in front of the first star with a slash, and what stands behind. -/
def closeBlock : List Char → Option (List Char × List Char)
  | [] => none
  | c :: r =>
    if c = '*' ∧ r.head? = some '/' then some ([], r.tail)
    else (closeBlock r).map fun x => (c :: x.1, x.2)

/-- A text begins with a star and a slash, or has them further on. -/
theorem isInfix_cons_iff (c : Char) (r : List Char) : ['*', '/'] <:+: c :: r ↔
    (c = '*' ∧ r.head? = some '/') ∨ ['*', '/'] <:+: r := by
  rw [List.infix_cons_iff]
  refine or_congr_left ?_
  cases r <;> simp [eq_comm]

/-- A text that ends with a character begins alike whatever follows the character. -/
theorem head?_append_cons (r : List Char) (c : Char) (rest : List Char) :
    (r ++ c :: rest).head? = (r ++ [c]).head? := by cases r <;> rfl

/-- There is no closing mark in a text that has none. -/
theorem closeBlock_eq_none : closeBlock t = none ↔ ¬ ['*', '/'] <:+: t := by
  induction t with
  | nil => simp [closeBlock]
  | cons c r ih =>
    rw [isInfix_cons_iff, closeBlock, not_or, ← ih]
    split <;> simp_all

/-- What is cut off in front of a closing mark has none. -/
theorem eq_of_closeBlock (h : closeBlock sql = some (t, rest)) :
    sql = t ++ '*' :: '/' :: rest ∧ ¬ ['*', '/'] <:+: t ++ ['*'] := by
  induction sql generalizing t with
  | nil => cases h
  | cons c r ih =>
    rw [closeBlock] at h
    split_ifs at h with hclose
    · cases h
      obtain ⟨rfl, hslash⟩ := hclose
      refine ⟨?_, by simp [isInfix_cons_iff]⟩
      rw [List.nil_append, ← List.eq_cons_of_mem_head? hslash]
    · obtain ⟨⟨t, rest⟩, hr, heq⟩ := Option.map_eq_some_iff.1 h
      cases heq
      obtain ⟨rfl, hfirst⟩ := ih hr
      refine ⟨rfl, ?_⟩
      rw [head?_append_cons] at hclose
      rw [List.cons_append, isInfix_cons_iff, not_or]
      exact ⟨hclose, hfirst⟩

/-- A text with none of the closing marks closes nothing at its first character. -/
theorem not_closing_of_cons {c : Char} {r : List Char} (h : ¬ ['*', '/'] <:+: c :: r ++ ['*'])
    (rest : List Char) : ¬ (c = '*' ∧ (r ++ '*' :: '/' :: rest).head? = some '/') ∧
      ¬ ['*', '/'] <:+: r ++ ['*'] := by
  rw [List.cons_append, isInfix_cons_iff, not_or] at h
  rw [head?_append_cons]
  exact h

/-- A closing mark with none in front of it is the first. -/
theorem closeBlock_append (h : ¬ ['*', '/'] <:+: t ++ ['*']) (rest : List Char) :
    closeBlock (t ++ '*' :: '/' :: rest) = some (t, rest) := by
  induction t with
  | nil => simp [closeBlock]
  | cons c r ih =>
    obtain ⟨hclose, hrest⟩ := not_closing_of_cons h rest
    rw [List.cons_append, closeBlock, if_neg hclose, ih hrest]
    rfl

/-- A text without a quote that stands alone consists of doubled ones and of
other characters. -/
theorem closeQuoted_eq_none {stop : Char} :
    closeQuoted stop t = none ↔ ∃ u, t = double stop u := by
  constructor
  · intro h
    fun_induction closeQuoted stop t with
    | case1 => exact ⟨[], rfl⟩
    | case2 => cases h
    | case3 r' ih =>
      obtain ⟨u, rfl⟩ := ih (Option.map_eq_none_iff.1 h)
      exact ⟨stop :: u, by simp [double_cons]⟩
    | case4 => cases h
    | case5 c r hc ih =>
      obtain ⟨u, rfl⟩ := ih (Option.map_eq_none_iff.1 h)
      exact ⟨c :: u, by simp [double_cons, hc]⟩
  · rintro ⟨u, rfl⟩
    induction u with
    | nil => rfl
    | cons c r ih =>
      rw [double_cons]
      by_cases hc : c = stop
      · subst hc
        simp [closeQuoted, ih]
      · simp only [if_neg hc, List.singleton_append]
        rw [closeQuoted.eq_def]
        simp [hc, ih]

/-! ## The first segment -/

/-- The segment with which a text begins, and what stands behind it. -/
def Segment.first (c : Char) (r : List Char) : Segment × List Char :=
  if c = '-' ∧ r.head? = some '-' then
    (.lineComment (r.tail.takeWhile (· != '\n')), r.tail.dropWhile (· != '\n'))
  else if c = '/' ∧ r.head? = some '*' then
    match closeBlock r.tail with
    | some (text, rest) => (.blockComment text true, rest)
    | none => (.blockComment r.tail false, [])
  else if c = '\'' then
    match closeQuoted '\'' r with
    | some (u, rest) => (.literal (double '\'' u) true, rest)
    | none => (.literal r false, [])
  else if c = '"' then
    match r.dropWhile (· != '"') with
    | _ :: rest => (.name (r.takeWhile (· != '"')) true, rest)
    | [] => (.name r false, [])
  else (.code c, r)

/-- What stands in front of the first of a character and of what follows it. -/
theorem takeWhile_append_of_not_mem {stop : Char} (h : stop ∉ t)
    (hrest : ∀ c ∈ rest.head?, c = stop) :
    (t ++ rest).takeWhile (· != stop) = t ∧ (t ++ rest).dropWhile (· != stop) = rest := by
  refine run_append_of_stop (fun c hc => ?_) fun c hc => ?_
  · rw [bne_iff_ne]
    exact ne_of_mem_of_not_mem hc h
  · simp [hrest c hc]

/-- A text is cut in front of the first of a character. -/
theorem not_mem_takeWhile (stop : Char) (t : List Char) : stop ∉ t.takeWhile (· != stop) ∧
    ∀ c ∈ (t.dropWhile (· != stop)).head?, c = stop := by
  constructor
  · intro h
    simpa using List.mem_takeWhile_imp h
  · intro c hc
    have hstop := List.head?_dropWhile_not (· != stop) t
    rw [Option.mem_def.1 hc] at hstop
    simpa using hstop

/-- A segment that may stand in front of a text is the first of both together. -/
theorem Segment.first_of_standsBefore {c : Char} {r : List Char} (h : s.StandsBefore rest)
    (heq : s.text ++ rest = c :: r) : first c r = (s, rest) := by
  cases s with
  | code d =>
    obtain ⟨hquote, hname, hdash, hslash⟩ := h
    cases heq
    simp [first, hquote, hname, hdash, hslash]
  | lineComment t =>
    obtain ⟨htake, hdrop⟩ := takeWhile_append_of_not_mem h.1 h.2
    obtain ⟨rfl, rfl⟩ : '-' = c ∧ '-' :: (t ++ rest) = r := by simpa using heq
    simp [first, htake, hdrop]
  | blockComment t closed =>
    cases closed with
    | true =>
      obtain ⟨rfl, rfl⟩ : '/' = c ∧ '*' :: (t ++ '*' :: '/' :: rest) = r := by simpa using heq
      simp [first, closeBlock_append h rest]
    | false =>
      obtain ⟨hopen, rfl⟩ := h
      obtain ⟨rfl, rfl⟩ : '/' = c ∧ '*' :: t = r := by simpa using heq
      simp [first, closeBlock_eq_none.2 hopen]
  | literal inside closed =>
    cases closed with
    | true =>
      obtain ⟨⟨u, rfl⟩, hrest⟩ := h
      obtain ⟨rfl, rfl⟩ : '\'' = c ∧ double '\'' u ++ '\'' :: rest = r := by simpa using heq
      simp [first, closeQuoted_double '\'' u rest hrest]
    | false =>
      obtain ⟨hopen, rfl⟩ := h
      obtain ⟨rfl, rfl⟩ : '\'' = c ∧ inside = r := by simpa using heq
      simp [first, closeQuoted_eq_none.2 hopen]
  | name inside closed =>
    cases closed with
    | true =>
      have hstop : ∀ c ∈ ('"' :: rest).head?, c = '"' := by simp
      obtain ⟨htake, hdrop⟩ := takeWhile_append_of_not_mem h hstop
      obtain ⟨rfl, rfl⟩ : '"' = c ∧ inside ++ '"' :: rest = r := by simpa using heq
      simp [first, htake, hdrop]
    | false =>
      obtain ⟨hopen, rfl⟩ := h
      have hstop : ∀ c ∈ ([] : List Char).head?, c = '"' := by simp
      obtain ⟨-, hdrop⟩ := takeWhile_append_of_not_mem hopen hstop
      obtain ⟨rfl, rfl⟩ : '"' = c ∧ inside = r := by simpa using heq
      rw [List.append_nil] at hdrop
      simp [first, hdrop]

/-- The first segment of a text may stand in front of the rest, and with it makes
up the text. -/
theorem Segment.standsBefore_first (c : Char) (r : List Char) :
    (first c r).1.StandsBefore (first c r).2 ∧ (first c r).1.text ++ (first c r).2 = c :: r := by
  have hcons : ∀ d, r.head? = some d → r = d :: r.tail := fun _ => List.eq_cons_of_mem_head?
  rw [first]
  split_ifs with hdash hslash hquote hname
  · obtain ⟨hnot, hstop⟩ := not_mem_takeWhile '\n' r.tail
    refine ⟨⟨hnot, hstop⟩, ?_⟩
    rw [text_lineComment, List.cons_append, List.cons_append, List.takeWhile_append_dropWhile,
      ← hcons _ hdash.2, hdash.1]
  · cases hclose : closeBlock r.tail with
    | some x =>
      obtain ⟨heq, hfirst⟩ := eq_of_closeBlock hclose
      refine ⟨hfirst, ?_⟩
      rw [hslash.1, hcons _ hslash.2, heq]
      simp
    | none =>
      refine ⟨⟨closeBlock_eq_none.1 hclose, rfl⟩, ?_⟩
      rw [hslash.1]
      simp [← hcons _ hslash.2]
  · subst hquote
    cases hclose : closeQuoted '\'' r with
    | some x =>
      refine ⟨⟨⟨x.1, rfl⟩, head?_ne_of_closeQuoted hclose⟩, ?_⟩
      rw [eq_of_closeQuoted hclose]
      simp
    | none => exact ⟨⟨closeQuoted_eq_none.1 hclose, rfl⟩, by simp⟩
  · subst hname
    obtain ⟨hnot, hstop⟩ := not_mem_takeWhile '"' r
    have hr : r.takeWhile (· != '"') ++ r.dropWhile (· != '"') = r :=
      List.takeWhile_append_dropWhile
    cases hclose : r.dropWhile (· != '"') with
    | cons d rest =>
      rw [hclose] at hstop hr
      obtain rfl : d = '"' := hstop d rfl
      exact ⟨hnot, by simp [hr]⟩
    | nil =>
      rw [hclose, List.append_nil] at hr
      rw [hr] at hnot
      exact ⟨⟨hnot, rfl⟩, by simp⟩
  · exact ⟨⟨hquote, hname, hdash, hslash⟩, rfl⟩

/-- The star of an opening mark does not close the comment. -/
example : Segment.first '/' "*/ x */ y".toList = (.blockComment "/ x ".toList true, " y".toList) :=
  by decide

/-! ## The segments of a text -/

/-- No segment is empty. -/
theorem Segment.text_ne_nil (s : Segment) : s.text ≠ [] := by
  cases s <;> simp

/-- Segments that may stand in front of texts are the same when they spell the same
with them. -/
theorem Segment.eq_of_standsBefore {s' : Segment} {rest' : List Char} (h : s.StandsBefore rest)
    (h' : s'.StandsBefore rest') (heq : s.text ++ rest = s'.text ++ rest') :
    s = s' ∧ rest = rest' := by
  obtain ⟨c, t, ht⟩ := List.exists_cons_of_ne_nil s.text_ne_nil
  have hfirst : first c (t ++ rest) = (s, rest) := first_of_standsBefore h (by rw [ht]; rfl)
  have hfirst' : first c (t ++ rest) = (s', rest') :=
    first_of_standsBefore h' (by rw [← heq, ht]; rfl)
  exact Prod.mk.inj (hfirst.symm.trans hfirst')

/-- **A text has one segmentation**, from the left. -/
theorem existsUnique_segmentation (sql : List Char) : ∃! segs, IsSegmentation sql segs := by
  have hcut : LeftCut Segment.text Segment.StandsBefore IsSegmentation :=
    { nil := .nil
      cons := .cons
      inv := fun h => by
        cases h with
        | nil => exact Or.inl ⟨rfl, rfl⟩
        | cons h hrest => exact Or.inr ⟨_, _, _, h, hrest, rfl, rfl⟩
      ne_nil := Segment.text_ne_nil
      exists_first := fun c r =>
        ⟨_, _, (Segment.standsBefore_first c r).1, (Segment.standsBefore_first c r).2.symm⟩
      first_unique := Segment.eq_of_standsBefore }
  exact hcut.existsUnique sql

/-! ## The reading of segments -/

/-- A comment is read up to the end of its line, which is read as code. -/
theorem marksFrom_line (h : '\n' ∉ t) (hrest : ∀ c ∈ rest.head?, c = '\n') :
    marksFrom .line (t ++ rest) = t.map (·, .comment) ++ marksFrom .code rest := by
  induction t with
  | nil =>
    cases rest with
    | nil => rfl
    | cons c r =>
      obtain rfl : c = '\n' := hrest c rfl
      rfl
  | cons c r ih =>
    obtain ⟨hc, hr⟩ : '\n' ≠ c ∧ '\n' ∉ r := by simpa using h
    rw [List.cons_append, marksFrom, Region.read, if_neg hc.symm, List.map_cons]
    simp [ih hr]

/-- A comment is read up to its closing mark. -/
theorem marksFrom_block (h : ¬ ['*', '/'] <:+: t ++ ['*']) :
    marksFrom .block (t ++ '*' :: '/' :: rest) =
      (t ++ ['*', '/']).map (·, .comment) ++ marksFrom .code rest := by
  induction t with
  | nil => rfl
  | cons c r ih =>
    obtain ⟨hclose, hrest⟩ := not_closing_of_cons h rest
    rw [List.cons_append, marksFrom, Region.read, if_neg hclose]
    simp [ih hrest]

/-- A comment without a closing mark is read to the end. -/
theorem marksFrom_block_open (h : ¬ ['*', '/'] <:+: t) :
    marksFrom .block t = t.map (·, .comment) := by
  induction t with
  | nil => rfl
  | cons c r ih =>
    rw [isInfix_cons_iff, not_or] at h
    rw [marksFrom, Region.read, if_neg h.1]
    simp [ih h.2]

/-- A name is read up to the next quote. -/
theorem marksFrom_name (h : '"' ∉ t) (rest : List Char) :
    marksFrom .name (t ++ rest) = t.map (·, .name) ++ marksFrom .name rest := by
  induction t with
  | nil => rfl
  | cons c r ih =>
    obtain ⟨hc, hr⟩ : '"' ≠ c ∧ '"' ∉ r := by simpa using h
    rw [List.cons_append, marksFrom, Region.read, if_neg hc.symm, List.map_cons]
    simp [ih hr]

/-- A literal is read over doubled quotes. -/
theorem marksFrom_literal (u rest : List Char) : marksFrom .literal (double '\'' u ++ rest) =
    (double '\'' u).map (·, .literal) ++ marksFrom .literal rest := by
  obtain ⟨hafter, hmarks⟩ := after_double_literal rest.head? u
  rw [marksFrom_append, hmarks, hafter]

/-- **A segment in front of a text** is read as it stands, and the text by itself. -/
theorem Segment.StandsBefore.marks_append (h : s.StandsBefore rest) :
    Statement.marks (s.text ++ rest) = s.marks ++ Statement.marks rest := by
  cases s with
  | code c =>
    obtain ⟨hquote, hname, hdash, hslash⟩ := h
    rw [text_code, List.singleton_append, Statement.marks, marksFrom, Region.read, if_neg hdash,
      if_neg hslash, if_neg hquote, if_neg hname]
    rfl
  | lineComment t =>
    have hopen : marksFrom .code ('-' :: '-' :: (t ++ rest)) =
        ('-', .comment) :: ('-', .comment) :: marksFrom .line (t ++ rest) := rfl
    rw [text_lineComment, List.cons_append, List.cons_append, Statement.marks, hopen,
      marksFrom_line h.1 h.2]
    rfl
  | blockComment t closed =>
    have hopen : ∀ s, marksFrom .code ('/' :: '*' :: s) =
        ('/', .comment) :: ('*', .comment) :: marksFrom .block s := fun _ => rfl
    cases closed with
    | true =>
      have htext : (blockComment t true).text ++ rest =
          '/' :: '*' :: (t ++ '*' :: '/' :: rest) := by simp
      rw [htext, Statement.marks, hopen, marksFrom_block h]
      rfl
    | false =>
      obtain ⟨hnot, rfl⟩ := h
      have htext : (blockComment t false).text ++ [] = '/' :: '*' :: t := by simp
      rw [htext, Statement.marks, hopen, marksFrom_block_open hnot]
      simp [marks, Statement.marks, marksFrom]
  | literal inside closed =>
    have hopen : ∀ s, marksFrom .code ('\'' :: s) = ('\'', .code) :: marksFrom .literal s :=
      fun _ => rfl
    cases closed with
    | true =>
      obtain ⟨⟨u, rfl⟩, hrest⟩ := h
      have htext : (literal (double '\'' u) true).text ++ rest =
          '\'' :: (double '\'' u ++ '\'' :: rest) := by simp
      have hclose : marksFrom .literal ('\'' :: rest) = ('\'', .code) :: marksFrom .code rest := by
        rw [marksFrom, Region.read, if_pos rfl, if_neg hrest]
      rw [htext, Statement.marks, hopen, marksFrom_literal, hclose]
      simp [marks, Statement.marks]
    | false =>
      obtain ⟨⟨u, rfl⟩, rfl⟩ := h
      have htext : (literal (double '\'' u) false).text ++ [] = '\'' :: (double '\'' u ++ []) := by
        simp
      rw [htext, Statement.marks, hopen, marksFrom_literal]
      simp [marks, Statement.marks, marksFrom]
  | name inside closed =>
    have hopen : ∀ s, marksFrom .code ('"' :: s) = ('"', .code) :: marksFrom .name s :=
      fun _ => rfl
    cases closed with
    | true =>
      have htext : (name inside true).text ++ rest = '"' :: (inside ++ '"' :: rest) := by simp
      have hclose : marksFrom .name ('"' :: rest) = ('"', .code) :: marksFrom .code rest := rfl
      rw [htext, Statement.marks, hopen, marksFrom_name h, hclose]
      simp [marks, Statement.marks]
    | false =>
      obtain ⟨hnot, rfl⟩ := h
      have htext : (name inside false).text ++ [] = '"' :: (inside ++ []) := by simp
      rw [htext, Statement.marks, hopen, marksFrom_name hnot]
      simp [marks, Statement.marks, marksFrom]

/-- **The marks of a text** are those of its segments. -/
theorem IsSegmentation.marks_eq {segs : List Segment} (h : IsSegmentation sql segs) :
    marks sql = segs.flatMap Segment.marks := by
  induction h with
  | nil => rfl
  | cons hs _ ih => rw [hs.marks_append, ih, List.flatMap_cons]

end DealSql.Statement
