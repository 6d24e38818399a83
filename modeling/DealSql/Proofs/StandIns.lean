import DealSql.Proofs.SubstitutionMask
import DealSql.Review.Verdict

/-!
# Stand-ins

While a dialect is asked whether it accepts a statement, every placeholder in it is replaced
by a stand-in.  The statement that is asked about and the one that will run are
spelled by the same template, so they differ in the texts between its pieces and in
nothing else.

A stand-in is written with digits, blanks, parentheses and an equals sign, none of
which has a meaning of its own.  Wherever its placeholder stands, in the code, in a
literal or in a name, it is read as what surrounds it: nothing begins or ends
with it.

* `standIn_ordinary` — the characters of the stand-ins.
* `neutralize_of_isClean` — the statement that a dialect is asked about.
-/

namespace DealSql.Review

open DealSql.Text DealSql.Statement DealSql.Placeholder

variable {sql : List Char} {g : Region} {u : Template}

/-- The characters of stand-ins have no meaning of their own, and there are no braces
among them. -/
theorem standIn_ordinary (p : Placeholder) :
    (∀ c ∈ standIn p, isOrdinary c = true) ∧ BraceFree (standIn p) := by
  unfold standIn
  cases p.category <;> decide

/-- A stand-in keeps every steady region. -/
theorem keeps_standIn (hg : g.Steady) (p : Placeholder) : g.Keeps (standIn p) := by
  refine Region.keeps_of_ordinary hg ?_ (standIn_ordinary p).1
  unfold standIn
  cases p.category <;> decide

/-- The mask of a neutralized statement spells the stand-ins. -/
theorem maskComments_neutralize (hu : IsTemplateOf u sql) :
    maskComments (neutralize sql) = (u.masked .comments .code).spell standIn := by
  rw [neutralize, hu.fill_eq]
  exact Template.maskFrom_spell (a := .start) (hu.steady.imp fun a p _ ha =>
    ⟨keeps_standIn ha.region p, maskComments_ordinary ha.region (standIn_ordinary p).1⟩)

/-- The marks of a neutralized statement. -/
theorem marks_neutralize (hu : IsTemplateOf u sql) :
    marks (neutralize sql) = u.marks standIn .code :=
  hu.marks_fill (hu.steady.imp fun _ p _ ha => keeps_standIn ha.region p)

/-- Stand-ins neither add to the comments nor take from them. -/
theorem comments_neutralize (hu : IsTemplateOf u sql) :
    comments (neutralize sql) = comments sql := by
  rw [comments, comments, marks_neutralize hu, hu.marks_eq]
  congr 1
  exact Template.comments_marks (a := .start)
    (hu.steady.imp fun a p _ ha => not_comment_of_ordinary ha.region (standIn_ordinary p).1)
    (hu.steady.imp fun a p _ ha => not_comment_of_ordinary ha.region (display_ordinary p))

/-- **The statement that a dialect is asked about.**  It, the statement itself and the one
that will run are spelled by one template.  Its comments masked, it is the masked statement
with the stand-ins in place, and has no braces left.  The pieces have the roles that they have
in the statement, its comments are the same, and each stand-in has the role that its
placeholder has. -/
theorem neutralize_of_isClean (sql : List Char) (h : (scan sql).isClean = true) :
    ∃ u : Template, u.occurrencesFrom 0 = (scan sql).occurrences ∧
      sql = u.spell display ∧ neutralize sql = u.spell standIn ∧
      (∀ d x out, substitute d x sql = .ok out →
        ∃ f, out = u.spell f ∧ ∀ p ∈ u.holes, value d x p = .ok (f p)) ∧
      maskComments (neutralize sql) =
        fillFrom standIn (maskComments sql) 0 (scan sql).occurrences ∧
      BraceFree (maskComments (neutralize sql)) ∧
      comments (neutralize sql) = comments sql ∧
      marks sql = u.marks display .code ∧ marks (neutralize sql) = u.marks standIn .code ∧
      u.Within (fun a p => marksFrom a.region p.display = p.display.map (·, a.region.role) ∧
        marksFrom a.region (standIn p) = (standIn p).map (·, a.region.role)) .start := by
  obtain ⟨u, hu⟩ := exists_template_of_clean h
  refine ⟨u, hu.occurrences.symm, hu.spells, hu.fill_eq standIn, ?_, ?_, ?_,
    comments_neutralize hu, hu.marks_eq, marks_neutralize hu, ?_⟩
  · intro d x out hout
    refine ⟨written d x, ?_, fun p hp => value_of_mem_holes hu hout hp⟩
    rw [(substitute_eq_ok hout).2.2, hu.fill_eq]
  · rw [maskComments_neutralize hu, fillFrom_maskComments hu]
  · rw [maskComments_neutralize hu]
    exact Template.braceFree_spell hu.plain fun p _ => (standIn_ordinary p).2
  · exact hu.steady.imp fun a p _ ha => ⟨(read_ordinary_text ha.region (display_ordinary p)).1,
      (read_ordinary_text ha.region (standIn_ordinary p).1).1⟩

/-- Placeholders behind a dash, behind a doubled quote and in a name, and a brace
in a comment. -/
def placeholdersAnywhere : List Char :=
  "SELECT -\x7bcurrent_cycle\x7d, 'it''\x7bdeal_filter\x7d' AS \"\x7bdeal_numbers\x7d\" /* \x7b */".toList

/-- Every one of them has its stand-in, and the comment is kept. -/
theorem placeholdersAnywhere_neutralized : (scan placeholdersAnywhere).isClean = true ∧
    maskComments (neutralize placeholdersAnywhere) =
      "SELECT -0, 'it''1 = 1' AS \"(0)\"        ".toList ∧
    (∃ out, substitute .duckdb quotedSelection placeholdersAnywhere = .ok out) ∧
    ∃ u : Template, neutralize placeholdersAnywhere = u.spell standIn ∧
      ∀ out, substitute .duckdb quotedSelection placeholdersAnywhere = .ok out →
        ∃ f, out = u.spell f := by
  have hclean : (scan placeholdersAnywhere).isClean = true := by decide +kernel
  obtain ⟨u, -, -, hneutral, hout, hmask, -⟩ := neutralize_of_isClean placeholdersAnywhere hclean
  refine ⟨hclean, ?_, ⟨_, by rfl⟩, u, hneutral, fun out h => ?_⟩
  · rw [hmask]
    decide +kernel
  · obtain ⟨f, hf, -⟩ := hout .duckdb quotedSelection out h
    exact ⟨f, hf⟩

end DealSql.Review
