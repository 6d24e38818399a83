import DealSql.Proofs.TransparentTexts

/-!
# The template of a statement

A statement whose placeholders are right is a template.  Its placeholders
are those that the scan finds, and the place of each, which the template
tells by reading from the left, is the role of its first character and the
nesting in which the masked text before it ends.

* `exists_template_of_clean` — the template of a statement.
* `forall_occurrences_iff` — the places of the placeholders of a statement.
-/

namespace DealSql.Placeholder

open DealSql.Text DealSql.Statement

variable {sql : List Char} {u : Template} {f : Placeholder → List Char} {a : Place}

/-- A template that a statement is, and whose mask is plain. -/
structure IsTemplateOf (u : Template) (sql : List Char) : Prop where
  spells : sql = u.spell display
  plain : (u.masked .comments .code).Plain
  steady : u.Within (fun a _ => a.Steady) .start
  occurrences : (scan sql).occurrences = u.occurrencesFrom 0

/-! ## Masked templates -/

/-- What is shown takes the place of the marks byte for byte. -/
theorem byteLength_shown (m : Mask) (ms : List (Char × Role)) :
    byteLength (ms.flatMap m.show) = byteLength (ms.map Prod.fst) := by
  induction ms with
  | nil => rfl
  | cons y ms ih => simp [byteLength, byteLength_show, ih]

namespace Template

/-- A mask keeps the positions. -/
theorem occurrencesFrom_masked (m : Mask) (g : Region) (n : Nat) (u : Template) :
    (u.masked m g).occurrencesFrom n = u.occurrencesFrom n := by
  induction u generalizing g n with
  | last s => rfl
  | piece s p rest ih =>
    rw [masked, occurrencesFrom, occurrencesFrom, byteLength_shown, marksUpTo_text, ih]

/-- The placeholders that are found are those of the template. -/
theorem map_placeholder_occurrencesFrom (n : Nat) (u : Template) :
    (u.occurrencesFrom n).map Occurrence.placeholder = u.holes := by
  induction u generalizing n with
  | last s => rfl
  | piece s p rest ih =>
    rw [occurrencesFrom, List.map_cons, ih]
    rfl

/-- A mask keeps the placeholders. -/
theorem holes_masked (m : Mask) (g : Region) (u : Template) : (u.masked m g).holes = u.holes := by
  rw [← map_placeholder_occurrencesFrom 0, occurrencesFrom_masked, map_placeholder_occurrencesFrom]

/-- **The mask of a filled template**, when it shows the values as they are. -/
theorem maskFrom_spell {m : Mask}
    (h : u.Within (fun a p => a.region.Keeps (f p) ∧ maskFrom m a.region (f p) = f p) a) :
    maskFrom m a.region (u.spell f) = (u.masked m a.region).spell f := by
  rw [maskFrom, marksFrom_spell (h.imp fun _ _ _ hp => hp.1)]
  induction u generalizing a with
  | last s => rfl
  | piece s p rest ih =>
    have hvalue := h.1.2
    rw [maskFrom] at hvalue
    have hrest := ih h.2
    simp only [marks, masked, spell, List.flatMap_append]
    exact congr (congrArg _ (congrArg _ hvalue)) hrest

/-- A plain template without values that hold braces spells none. -/
theorem braceFree_spell (hu : u.Plain) (hf : ∀ p ∈ u.holes, BraceFree (f p)) :
    BraceFree (u.spell f) := by
  induction u with
  | last s => exact hu
  | piece s p rest ih =>
    have hrest := ih hu.2 fun q hq => hf q (List.mem_cons_of_mem _ hq)
    rw [spell, braceFree_append, braceFree_append]
    exact ⟨⟨hu.1, hf p List.mem_cons_self⟩, hrest⟩

/-! ## Places -/

/-- A placeholder has the role of the region in which it stands. -/
theorem marks_display {g : Region} (hg : g.Steady) (p : Placeholder) :
    marksFrom g p.display = p.display.map (·, g.role) :=
  (read_ordinary_text hg (display_ordinary p)).1

/-- No name is closed by anything but its mark. -/
theorem within_proper (ha : a.nesting.Proper) (u : Template) :
    u.Within (fun a _ => a.nesting.Proper) a := by
  induction u generalizing a with
  | last s => trivial
  | piece s p rest ih => exact ⟨ha.after _, ih (ha.after _)⟩

/-- What holds of two properties apart holds of both. -/
theorem Within.and {P Q : Place → Placeholder → Prop} (hP : u.Within P a) (hQ : u.Within Q a) :
    u.Within (fun a p => P a p ∧ Q a p) a := by
  induction u generalizing a with
  | last s => trivial
  | piece s p rest ih => exact ⟨⟨hP.1, hQ.1⟩, ih hP.2 hQ.2⟩

section

variable (before : List (Char × Role)) (s : List Char) (p : Placeholder) (rest : Template)

/-- The marks in front of a placeholder, those of it and those behind it. -/
theorem marks_piece : before ++ (piece s p rest).marks display a.region =
    before ++ marksUpTo opening a.region s ++
      (marksFrom (a.after s).region p.display ++ rest.marks display (a.after s).region) := by
  simp only [marks, List.append_assoc]
  rfl

/-- Where the placeholder after a text begins. -/
theorem byteLength_before :
    byteLength ((before ++ marksUpTo opening a.region s).map Prod.fst) =
      byteLength (before.map Prod.fst) + byteLength s := by
  rw [List.map_append, byteLength_append, marksUpTo_text]

/-- The role of a placeholder is that of its region. -/
theorem roleAt_piece (ha : (a.after s).region.Steady) :
    roleAt (byteLength (before.map Prod.fst) + byteLength s)
      (before ++ (piece s p rest).marks display a.region) = some (a.after s).region.role := by
  have hstart := roleAt_append 0 (before ++ marksUpTo opening a.region s)
    (marksFrom (a.after s).region p.display ++ rest.marks display (a.after s).region)
  rw [Nat.add_zero, byteLength_before] at hstart
  rw [marks_piece, hstart, marks_display ha]
  simp [display, roleAt]

/-- What is shown in front of a placeholder is what is shown of the marks. -/
theorem takeBytes_piece : takeBytes (byteLength (before.map Prod.fst) + byteLength s)
    ((before ++ (piece s p rest).marks display a.region).flatMap Mask.commentsAndLiterals.show) =
      (before ++ marksUpTo opening a.region s).flatMap Mask.commentsAndLiterals.show := by
  rw [marks_piece, List.flatMap_append, ← byteLength_before (a := a),
    ← byteLength_shown .commentsAndLiterals, takeBytes_of_append]

end

/-- **The place of a placeholder** is the role of its first character and the
nesting in which the masked text before it ends. -/
theorem forall_occurrencesFrom_iff {R : Option Role → Nesting → Placeholder → Prop}
    (before : List (Char × Role)) (hsteady : u.Within (fun a _ => a.Steady) a)
    (hbefore : a.nesting =
      Place.start.nesting.after true (before.flatMap Mask.commentsAndLiterals.show)) :
    (∀ o ∈ u.occurrencesFrom (byteLength (before.map Prod.fst)),
      R (roleAt o.start (before ++ u.marks display a.region))
        (Place.start.nesting.after true (takeBytes o.start
          ((before ++ u.marks display a.region).flatMap Mask.commentsAndLiterals.show)))
        o.placeholder) ↔
      u.Within (fun a p => R (some a.region.role) a.nesting p) a := by
  induction u generalizing a before with
  | last s => simp [occurrencesFrom, Within]
  | piece s p rest ih =>
    obtain ⟨hhere, hrest⟩ := hsteady
    have hnesting : (a.after s).nesting = Place.start.nesting.after true
        ((before ++ marksUpTo opening a.region s).flatMap Mask.commentsAndLiterals.show) := by
      rw [List.flatMap_append, Nesting.after_append, ← hbefore]
      rfl
    -- the place after the placeholder is the place before it
    have hnext : (a.after s).nesting = Place.start.nesting.after true
        ((before ++ marksUpTo opening a.region s ++
          marksFrom (a.after s).region p.display).flatMap Mask.commentsAndLiterals.show) := by
      rw [List.flatMap_append, Nesting.after_append, ← hnesting]
      exact ((transparent_display p).nesting _ hhere).symm
    have hstop : byteLength ((before ++ marksUpTo opening a.region s ++
        marksFrom (a.after s).region p.display).map Prod.fst) =
          byteLength (before.map Prod.fst) + byteLength s + byteLength p.display := by
      rw [List.map_append, byteLength_append, byteLength_before, marksFrom_text]
    have hih := ih _ hrest hnext
    rw [hstop, List.append_assoc, ← marks_piece] at hih
    rw [occurrencesFrom, List.forall_mem_cons, Within]
    refine and_congr ?_ hih
    rw [roleAt_piece before s p rest hhere.region, takeBytes_piece, hnesting]

end Template

/-! ## Statements -/

/-- In what nesting the masked text before a position ends. -/
def nestingAt (n : Nat) (sql : List Char) : Nesting :=
  Place.start.nesting.after true (takeBytes n (maskLiterals sql))

/-- **The template of a statement** whose placeholders are right. -/
theorem exists_template_of_clean (h : (scan sql).isClean = true) :
    ∃ u : Template, IsTemplateOf u sql := by
  have hfaults : ∀ g ∈ braceGroups (maskComments sql), g.faults = [] := by
    have hnil : (scan sql).faults = [] := by simpa [Scan.isClean] using h
    intro g hg
    exact List.flatMap_eq_nil_iff.1 hnil g hg
  obtain ⟨t, ht, hmask⟩ := Template.exists_template (maskComments sql) 0 hfaults
  obtain ⟨u, hsql, rfl, hsteady⟩ := Template.exists_source (a := .start) (by decide) ht hmask
  refine ⟨u, hsql, ht, ?_, ?_⟩
  · exact (hsteady.and (Template.within_proper (Or.inl rfl) u)).imp
      fun a p _ ha => ⟨ha.1, ha.2⟩
  · show (braceGroups (maskComments sql)).filterMap BraceGroup.occurrence? = _
    rw [braceGroups, hmask, Template.groups_spell ht, (Template.occurrences_groups _ 0).1,
      Template.occurrencesFrom_masked]

namespace IsTemplateOf

/-- The marks of a statement are those of its template. -/
theorem marks_eq (hu : IsTemplateOf u sql) : Statement.marks sql = u.marks display .code := by
  rw [Statement.marks, hu.spells]
  exact Template.marksFrom_spell (a := .start)
    (hu.steady.imp fun a p _ ha => keeps_display ha.region p)

/-- Filling a statement fills its template. -/
theorem fill_eq (hu : IsTemplateOf u sql) (f : Placeholder → List Char) :
    fill f sql = u.spell f := by
  have hfill := Template.fillFrom_spell f u []
  rw [List.nil_append, ← hu.spells] at hfill
  rw [fill, hu.occurrences]
  exact hfill

/-- The marks of a filled statement are those of its filled template. -/
theorem marks_fill (hu : IsTemplateOf u sql)
    (h : u.Within (fun a p => a.region.Keeps (f p)) .start) :
    Statement.marks (fill f sql) = u.marks f .code := by
  rw [Statement.marks, hu.fill_eq]
  exact Template.marksFrom_spell (a := .start) h

/-- The placeholders of a statement are those of its template. -/
theorem mem_holes_iff (hu : IsTemplateOf u sql) {p : Placeholder} :
    p ∈ u.holes ↔ ∃ o ∈ (scan sql).occurrences, o.placeholder = p := by
  rw [← Template.map_placeholder_occurrencesFrom 0 u, ← hu.occurrences, List.mem_map]

/-- **The places of the placeholders of a statement** are those in its template. -/
theorem forall_occurrences_iff (hu : IsTemplateOf u sql)
    {R : Option Role → Nesting → Placeholder → Prop} :
    (∀ o ∈ (scan sql).occurrences,
      R (roleAt o.start (Statement.marks sql)) (nestingAt o.start sql) o.placeholder) ↔
      u.Within (fun a p => R (some a.region.role) a.nesting p) .start := by
  have hiff := Template.forall_occurrencesFrom_iff (R := R) [] hu.steady rfl
  simp only [List.nil_append, List.map_nil, byteLength] at hiff
  rw [← hiff, hu.occurrences]
  have hmask : maskLiterals sql =
      (u.marks display Place.start.region).flatMap Mask.commentsAndLiterals.show := by
    rw [show Place.start.region = .code from rfl, ← hu.marks_eq]
    rfl
  simp only [nestingAt, hmask, hu.marks_eq]
  rfl

end IsTemplateOf

end DealSql.Placeholder
