import DealSql.Proofs.PlaceholderValues
import DealSql.Proofs.StatementTemplates

/-!
# Substitution and comments

A statement whose placeholders are right is a template, and substitution
spells the values of the execution in it.  Where all placeholders stand in
the code this commutes with the masking of comments: no value opens or
closes anything, so the marks between the values are those of the
statement, comments included.

* `substitute_eq_ok` — what substitution spells.
* `substitute_maskComments` — substitution commutes with the mask.
-/

namespace DealSql.Placeholder

open DealSql.Text DealSql.Statement

variable {d : Dialect} {x : Execution} {sql out : List Char} {u : Template} {a : Place}
  {f : Placeholder → List Char}

/-- A text without braces has no placeholders, right or wrong. -/
theorem scan_eq_of_braceFree (h : BraceFree (maskComments sql)) : scan sql = ⟨[], [], 0⟩ := by
  have hgroups : braceGroups (maskComments sql) = [] := by
    have houtside := groupsFrom_outside h 0 []
    rw [List.append_nil] at houtside
    rw [braceGroups, houtside, groupsFrom]
  simp [scan, hgroups]

theorem scan_of_braceFree (h : BraceFree (maskComments sql)) :
    (scan sql).isClean = true ∧ (scan sql).groups = 0 := by
  rw [scan_eq_of_braceFree h]
  exact ⟨rfl, rfl⟩

/-! ## Substitution -/

/-- The first appearances are those of the placeholders that are found. -/
theorem mem_placeholders_iff {p : Placeholder} :
    p ∈ (scan sql).placeholders ↔ p ∈ (scan sql).occurrences.map Occurrence.placeholder := by
  have hkeys := keys_distinctBy (id : Placeholder → Placeholder)
    ((scan sql).occurrences.map Occurrence.placeholder) p
  rwa [List.map_id, List.map_id] at hkeys

/-- What is written for a placeholder that has a value. -/
def written (d : Dialect) (x : Execution) (p : Placeholder) : List Char :=
  (value d x p).toOption.getD []

/-- **What substitution spells**: a statement whose placeholders are right,
with the values that all of them have. -/
theorem substitute_eq_ok (h : substitute d x sql = .ok out) :
    (scan sql).isClean = true ∧
      (∀ o ∈ (scan sql).occurrences,
        value d x o.placeholder = .ok (written d x o.placeholder)) ∧
      out = fill (written d x) sql := by
  unfold substitute at h
  dsimp only at h
  split at h
  · cases h
  · next hclean =>
    split at h
    · cases h
    · next hfirst =>
      cases h
      refine ⟨by simpa using hclean, fun o ho => ?_, rfl⟩
      have hmem : o.placeholder ∈ (scan sql).placeholders :=
        mem_placeholders_iff.2 (List.mem_map_of_mem ho)
      have hvalue := List.findSome?_eq_none_iff.1 hfirst _ hmem
      cases hv : value d x o.placeholder with
      | ok v => simp [written, hv, Except.toOption]
      | error e => simp [hv] at hvalue

/-- The comments of a statement, character by character. -/
def comments (sql : List Char) : List Char :=
  ((marks sql).filter fun y => y.2 = .comment).map Prod.fst

/-- The comments do not depend on what stands in the place of the
placeholders, as long as it opens none. -/
theorem Template.comments_marks {f' : Placeholder → List Char}
    (h : u.Within (fun a p => ∀ y ∈ marksFrom a.region (f p), y.2 ≠ .comment) a)
    (h' : u.Within (fun a p => ∀ y ∈ marksFrom a.region (f' p), y.2 ≠ .comment) a) :
    (u.marks f a.region).filter (fun y => y.2 = .comment) =
      (u.marks f' a.region).filter fun y => y.2 = .comment := by
  induction u generalizing a with
  | last s => rfl
  | piece s p rest ih =>
    have hnone : ∀ ms : List (Char × Role), (∀ y ∈ ms, y.2 ≠ .comment) →
        ms.filter (fun y => y.2 = .comment) = [] := by
      intro ms hms
      exact List.filter_eq_nil_iff.2 fun y hy => by simpa using hms y hy
    have hregion : a.region.after opening s = (a.after s).region := rfl
    simp only [Template.marks, hregion, List.filter_append, hnone _ h.1, hnone _ h'.1,
      ih h.2 h'.2]

/-- The placeholders of a statement have their values. -/
theorem value_of_mem_holes (hu : IsTemplateOf u sql) (h : substitute d x sql = .ok out)
    {p : Placeholder} (hp : p ∈ u.holes) : value d x p = .ok (written d x p) := by
  obtain ⟨o, ho, rfl⟩ := hu.mem_holes_iff.1 hp
  exact (substitute_eq_ok h).2.1 o ho

/-- Ordinary characters are shown where they do not stand in a comment. -/
theorem maskComments_ordinary {g : Region} {v : List Char} (hg : g.Steady)
    (hv : ∀ c ∈ v, isOrdinary c = true) : maskFrom .comments g v = v := by
  rw [maskFrom, flatMap_show_of_not_comment _ (not_comment_of_ordinary hg hv), marksFrom_text]

/-! ## Placeholders in the code -/

/-- Where all placeholders stand in the code they do so in the template. -/
theorem IsTemplateOf.within_code (hu : IsTemplateOf u sql)
    (hcode : ∀ o ∈ (scan sql).occurrences, roleAt o.start (marks sql) = some .code) :
    u.Within (fun a _ => a.region = .code) .start := by
  have hroles := (hu.forall_occurrences_iff (R := fun r _ _ => r = some .code)).1 hcode
  refine (hroles.and hu.steady).imp fun a p _ hplace => ?_
  obtain ⟨hrole, ha⟩ := hplace
  exact ha.region.eq_code (Option.some.inj hrole)

section

variable (hu : IsTemplateOf u sql) (hin : u.Within (fun a _ => a.region = .code) .start)
  (hf : ∀ p ∈ u.holes, Whole (f p) ∧ Region.Keeps .code (f p))

include hu hin hf

/-- Whole texts in the code do not show in the marks around them. -/
theorem marks_fill_of_whole : marks (fill f sql) = u.marks f .code := by
  refine hu.marks_fill (hin.imp fun a p hp ha => ?_)
  rw [ha]
  exact (hf p hp).2

/-- Whole texts in the code are shown in the mask. -/
theorem maskComments_fill : maskComments (fill f sql) = (u.masked .comments .code).spell f := by
  rw [hu.fill_eq]
  refine Template.maskFrom_spell (a := .start) (hin.imp fun a p hp ha => ?_)
  rw [ha]
  exact ⟨(hf p hp).2, (hf p hp).1.maskComments_eq⟩

/-- Whole texts in the code add nothing to the comments and take nothing away. -/
theorem comments_fill : comments (fill f sql) = comments sql := by
  rw [comments, comments, hu.marks_eq, marks_fill_of_whole hu hin hf]
  congr 1
  refine Template.comments_marks (a := .start) (hin.imp fun a p hp ha => ?_)
    (hin.imp fun a p _ ha => ?_)
  · rw [ha]
    exact (hf p hp).1.visible
  · rw [ha]
    exact (whole_display p).visible

end

/-- Filling the mask of a statement fills its masked template. -/
theorem fillFrom_maskComments (hu : IsTemplateOf u sql) (f : Placeholder → List Char) :
    fillFrom f (maskComments sql) 0 (scan sql).occurrences =
      (u.masked .comments .code).spell f := by
  have hsource : maskComments sql = (u.masked .comments .code).spell display := by
    have hmask : maskComments (u.spell display) = (u.masked .comments .code).spell display :=
      Template.maskFrom_spell (a := .start) (hu.steady.imp fun a p _ ha =>
        ⟨keeps_display ha.region p, maskComments_ordinary ha.region (display_ordinary p)⟩)
    rwa [← hu.spells] at hmask
  have hfill := Template.fillFrom_spell f (u.masked .comments .code) []
  rwa [List.nil_append, byteLength, Template.occurrencesFrom_masked, ← hsource,
    ← hu.occurrences] at hfill

/-- **Substitution commutes with the masking of comments** when all
placeholders stand in the code.  The marks between the values are those of
the statement, no value opens or closes anything, and if no tranche has a
brace in its identifier nothing is left to be filled. -/
theorem substitute_maskComments (d : Dialect) (x : Execution) (sql out : List Char)
    (h : substitute d x sql = .ok out)
    (hcode : ∀ o ∈ (scan sql).occurrences, roleAt o.start (marks sql) = some .code) :
    maskComments out = fillFrom (written d x) (maskComments sql) 0 (scan sql).occurrences ∧
      comments out = comments sql ∧
      (∃ u : Template, u.occurrencesFrom 0 = (scan sql).occurrences ∧
        marks sql = u.marks display .code ∧ marks out = u.marks (written d x) .code) ∧
      (∀ o ∈ (scan sql).occurrences,
        value d x o.placeholder = .ok (written d x o.placeholder) ∧
        (∀ y ∈ marks (written d x o.placeholder), y.2 ≠ .comment) ∧
        ∀ rest, marks (written d x o.placeholder ++ rest) =
          marks (written d x o.placeholder) ++ marks rest) ∧
      ((∀ i ∈ x.trancheIds, BraceFree i.toList) →
        (scan out).isClean = true ∧ (scan out).groups = 0) := by
  obtain ⟨hclean, hvalues, rfl⟩ := substitute_eq_ok h
  obtain ⟨u, hu⟩ := exists_template_of_clean hclean
  have hin := hu.within_code hcode
  have hvalue : ∀ p ∈ u.holes, value d x p = .ok (written d x p) :=
    fun p hp => value_of_mem_holes hu h hp
  have hkeeps : ∀ p ∈ u.holes, Whole (written d x p) ∧ Region.Keeps .code (written d x p) :=
    fun p hp => value_keeps (hvalue p hp)
  have hmask := maskComments_fill hu hin hkeeps
  refine ⟨?_, comments_fill hu hin hkeeps,
    ⟨u, hu.occurrences.symm, hu.marks_eq, marks_fill_of_whole hu hin hkeeps⟩, ?_, ?_⟩
  · rw [hmask, fillFrom_maskComments hu]
  · intro o ho
    obtain ⟨hwhole, hkeep⟩ := value_keeps (hvalues o ho)
    exact ⟨hvalues o ho, hwhole.visible, hkeep.marksFrom_append⟩
  · intro hids
    apply scan_of_braceFree
    rw [hmask]
    refine Template.braceFree_spell hu.plain fun p hp => ?_
    rw [Template.holes_masked] at hp
    exact value_braceFree (hvalue p hp) hids

/-- A statement with a comment right before a placeholder. -/
def commentedStatement : List Char :=
  "SELECT 'it''s' /* \x7bdeal_filter\x7d */\x7bdeal_tranche_filter\x7d -- -".toList

/-- A selection with quotes and dashes in the identifier of its tranche. -/
def quotedSelection : Execution := ⟨⟨2024, 3, by omega, by omega, by omega, by omega⟩,
  [⟨-1, some ["A'--", "*/"]⟩]⟩

/-- The comments are kept, whatever the identifiers of the tranches hold. -/
theorem commentedStatement_comments :
    ∃ out, substitute .tsql quotedSelection commentedStatement = .ok out ∧
      comments out = comments commentedStatement ∧
      (scan out).isClean = true ∧ (scan out).groups = 0 := by
  obtain ⟨out, hout⟩ : ∃ out, substitute .tsql quotedSelection commentedStatement = .ok out :=
    ⟨_, by rfl⟩
  obtain ⟨-, hcomments, -, -, hnone⟩ :=
    substitute_maskComments .tsql quotedSelection commentedStatement out hout (by decide +kernel)
  exact ⟨out, hout, hcomments, hnone (by decide)⟩

end DealSql.Placeholder
