import DealSql.Proofs.SubstitutionMask
import DealSql.Proofs.TokenSources
import DealSql.Review.Verdict

/-!
# Braces that stay in the code

Placeholders in comments are left alone.  What is a comment is decided by
the mask, which knows no dialect: to it two dashes begin a comment in a
string between dollar signs too, and in a name between brackets.  A dialect
that reads on behind the string finds a placeholder there, and the statement
is not filled.

So the braces that stay are those of the comments of the mask, and no brace
is live exactly when the comments of the dialect have them all.

* `substitute_braces` — the braces of a filled statement, and those of them
  in its code.
* `commentInString_live` — a valid statement with a live placeholder.
-/

namespace DealSql.Placeholder

open DealSql.Text DealSql.Statement

variable {d : Dialect} {x : Execution} {sql out code : List Char} {u : Template} {a : Place}
  {f : Placeholder → List Char}

/-! ## Braces of comments -/

theorem braceFree_iff {s : List Char} : BraceFree s ↔ braces s = [] := by
  rw [braces_eq_nil]
  simp [BraceFree, isBrace]

/-- Where the mask shows no brace all are in comments. -/
theorem braces_of_masked {ms : List (Char × Role)}
    (h : BraceFree (ms.flatMap Mask.comments.show)) :
    braces (ms.map Prod.fst) = braces ((ms.filter fun y => y.2 = .comment).map Prod.fst) := by
  induction ms with
  | nil => rfl
  | cons y ms ih =>
    rw [List.flatMap_cons, braceFree_append] at h
    rw [List.map_cons, braces_cons, ih h.2]
    by_cases hy : y.2 = .comment
    · rw [List.filter_cons_of_pos (by simpa using hy), List.map_cons, ← braces_cons]
    · have hvisible : Mask.comments.hides y.2 = false := by
        cases hrole : y.2 <;> simp_all [Mask.hides]
      rw [Mask.show_of_visible hvisible] at h
      rw [List.filter_cons_of_neg (by simpa using hy), braceFree_iff.1 h.1, List.nil_append]

/-- The braces of a filled template are those of its comments. -/
theorem Template.braces_spell (hplain : (u.masked .comments a.region).Plain)
    (hsteady : u.Within (fun a _ => a.Steady) a) (hf : ∀ p ∈ u.holes, BraceFree (f p)) :
    braces (u.spell f) =
      braces (((u.marks display a.region).filter fun y => y.2 = .comment).map Prod.fst) := by
  induction u generalizing a with
  | last s =>
    have hlast := braces_of_masked hplain
    rw [marksFrom_text] at hlast
    exact hlast
  | piece s p rest ih =>
    have hfirst := braces_of_masked hplain.1
    rw [marksUpTo_text] at hfirst
    have hhole : braces (f p) = [] := braceFree_iff.1 (hf p List.mem_cons_self)
    have hdisplay : (marksFrom (a.after s).region p.display).filter (fun y => y.2 = .comment) =
        [] := by
      refine List.filter_eq_nil_iff.2 fun y hy => ?_
      simpa using not_comment_of_ordinary hsteady.1.region (display_ordinary p) y hy
    have hrest := ih hplain.2 hsteady.2 fun q hq => hf q (List.mem_cons_of_mem _ hq)
    have hregion : a.region.after opening s = (a.after s).region := rfl
    simp only [spell, marks, hregion, braces_append, hfirst, hhole, hrest, List.filter_append,
      hdisplay, List.map_append, List.append_nil]

/-! ## Filled statements -/

/-- The braces that stay are those of the comments, when no tranche has one. -/
theorem braces_substitute (hids : ∀ i ∈ x.trancheIds, BraceFree i.toList)
    (h : substitute d x sql = .ok out) : braces out = braces (comments sql) := by
  obtain ⟨hclean, -, rfl⟩ := substitute_eq_ok h
  obtain ⟨u, hu⟩ := exists_template_of_clean hclean
  have hvalues : ∀ p ∈ u.holes, BraceFree (written d x p) :=
    fun p hp => value_braceFree (value_of_mem_holes hu h hp) hids
  rw [hu.fill_eq, Template.braces_spell (a := .start) hu.plain hu.steady hvalues, comments,
    hu.marks_eq]
  rfl

theorem mem_braces {b : Char} (hb : isBrace b = true) {s : List Char} : b ∈ braces s ↔ b ∈ s := by
  simp [braces, hb]

/-- Where nothing is decoded a brace is live when it was read outside comments. -/
theorem brace_mem_shown_iff {ss : List Span} {b : Char} (hb : isBrace b = true)
    (hss : ∀ y ∈ ss, y.token = .comment ∨ y.token.isFaithful = true) :
    b ∈ ss.flatMap Span.shown ↔ ∃ y ∈ ss, y.token ≠ .comment ∧ b ∈ y.source := by
  rw [List.mem_flatMap]
  refine exists_congr fun y => and_congr_right fun hy => ?_
  unfold Span.shown
  rcases hss y hy with hcomment | hfaithful
  · have hnone : b ∉ braces [' '] := by simp [braces, isBrace]
    simpa [hcomment, Token.isFaithful, Token.text] using hnone
  · have hne : y.token ≠ .comment := by
      intro hcomment
      rw [hcomment] at hfaithful
      cases hfaithful
    rw [if_pos hfaithful, mem_braces hb]
    exact ⟨fun hmem => ⟨hne, hmem⟩, And.right⟩

/-- **The braces of a filled statement** are those of its comments, as the
mask has them.  The code that a dialect reads has those of them that the
dialect reads outside its own comments; escapes may add to them, and a
question mark hide one.  So nothing stays where the comments hold no brace. -/
theorem substitute_braces (d : Dialect) (x : Execution) (sql out code : List Char)
    (hids : ∀ i ∈ x.trancheIds, BraceFree i.toList) (h : substitute d x sql = .ok out)
    (hcode : stripComments d out = some code) :
    braces out = braces (comments sql) ∧
      ∃ ss, spans d out = some ss ∧ ss.flatMap Span.source = out ∧
        braces code = ss.flatMap Span.shown ∧
        ((∀ y ∈ ss, y.token = .comment ∨ y.token.isFaithful = true) →
          ('\x7b' ∈ code ↔ ∃ y ∈ ss, y.token ≠ .comment ∧ '\x7b' ∈ y.source) ∧
          ('\x7b' ∉ comments sql → '\x7b' ∉ code)) := by
  have hbraces := braces_substitute hids h
  obtain ⟨ss, hss, hsource, hshown⟩ := braces_stripComments hcode
  refine ⟨hbraces, ss, hss, hsource, hshown, fun hplain => ?_⟩
  have hbrace : isBrace '\x7b' = true := by decide
  have hiff : '\x7b' ∈ code ↔ ∃ y ∈ ss, y.token ≠ .comment ∧ '\x7b' ∈ y.source := by
    rw [← brace_mem_shown_iff hbrace hplain, ← hshown, mem_braces hbrace]
  refine ⟨hiff, fun hnone hmem => hnone ?_⟩
  obtain ⟨y, hy, -, hsourceMem⟩ := hiff.1 hmem
  have hout : '\x7b' ∈ out := by
    rw [← hsource]
    exact List.mem_flatMap.2 ⟨y, hy, hsourceMem⟩
  rwa [← mem_braces hbrace, ← hbraces, mem_braces hbrace]

/-- A statement with two dashes in a string between dollar signs. -/
def commentInString : List Char :=
  "SELECT deal.dl_nbr, 1 AS x FROM deal WHERE $$ -- $$ <> 'a' AND \x7bdeal_filter\x7d".toList

/-- A tranche of a deal. -/
def oneSelection : Execution := ⟨quotedSelection.anchor, [⟨1, some ["A"]⟩]⟩

/-- The statement is valid, and PostgreSQL reads a placeholder in what was filled. -/
theorem commentInString_live :
    (Review.review .standard commentInString .deal "x").isValid = true ∧
      (∀ i ∈ oneSelection.trancheIds, BraceFree i.toList) ∧
      ∃ out code, substitute .postgres oneSelection commentInString = .ok out ∧
        stripComments .postgres out = some code ∧ '\x7b' ∈ code := by
  have hissues : (Review.review .standard commentInString .deal "x").issues = [] := by
    decide +kernel
  refine ⟨by simp [Review.Verdict.isValid, hissues], by decide, commentInString, commentInString,
    ?_, ?_, ?_⟩
  all_goals decide +kernel

/-- Its braces are those of what the mask takes for its comment. -/
theorem commentInString_braces : ∃ out code,
    substitute .postgres oneSelection commentInString = .ok out ∧
      stripComments .postgres out = some code ∧ braces out = braces (comments commentInString) := by
  have hout : substitute .postgres oneSelection commentInString = .ok commentInString := by
    decide +kernel
  have hcode : stripComments .postgres commentInString = some commentInString := by decide +kernel
  exact ⟨commentInString, commentInString, hout, hcode,
    (substitute_braces .postgres oneSelection commentInString commentInString commentInString
      (by decide) hout hcode).1⟩

end DealSql.Placeholder
