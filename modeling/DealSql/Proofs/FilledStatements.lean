import DealSql.Proofs.FilledLexemes
import DealSql.Proofs.TrancheIds

/-!
# Validity of filled statements

A valid statement stays valid when its placeholders are replaced by their
values, wherever the values fit: they close nothing, no dialect lets them take
what stands behind them, and a numeral takes no keyword away.  The placeholders
are replaced one after the other from the right, so that a value meets the text
behind it as it will stand in the filled statement; what a single replacement
preserves, the whole substitution does.

* `Settles`, `AllSettle` — a value fits where its placeholder stands, and all
  values of a statement do.
* `isKept_fill` — what one replacement preserves.
* `Template.along_fill` — what all replacements preserve.
* `isValid_substitute` — the filled statement is valid.
-/

namespace DealSql.Placeholder

open DealSql.Text DealSql.Statement DealSql.Sql DealSql.Review

variable {x before rest r s sql v : List Char} {p : Placeholder} {a : Place} {u : Template}
  {f : Placeholder → List Char} {level : Level} {d : Dialect} {n : Nat}

/-! ## One replacement -/

/-- A value fits where its placeholder stands, for the structure of the
statement and for all dialects that read it. -/
structure Settles (p : Placeholder) (v before rest : List Char) : Prop where
  lodges : Lodges v before rest
  fits : ∀ d : Dialect, Fits d p v before rest

/-- A value in the code fits where it fits all dialects, when a numeral takes no
keyword around it away, or none that counts. -/
theorem Settles.of_code (hplace : Place.start.after before = ⟨.code, n, none⟩)
    (hspares : IsNumeral v →
      SparesKeywords (shownBefore before) ((Place.start.after before).shown rest) ∨
        StandsAside (shownBefore before) ∧
          hasQueryFrom (structuralLexemes (before ++ (v ++ rest))) = true)
    (hfits : ∀ d : Dialect, Fits d p v before rest) : Settles p v before rest where
  lodges := {
    literal := by simp [hplace]
    name := by simp [hplace]
    closing := by simp [hplace]
    numeral := fun hnumeral _ _ => hspares hnumeral }
  fits := hfits

/-- A value without a quote in a literal fits where it fits all dialects. -/
theorem Settles.of_literal (hplace : Place.start.after before = ⟨.literal, n, none⟩)
    (hquote : '\'' ∉ v) (hfits : ∀ d : Dialect, Fits d p v before rest) :
    Settles p v before rest where
  lodges := {
    literal := fun _ => hquote
    name := by simp [hplace]
    closing := by simp [hplace]
    numeral := by simp [hplace] }
  fits := hfits

/-- What a filled statement keeps of one that is valid. -/
structure IsKept (level : Level) (sql : List Char) : Prop where
  visible : ∃ c ∈ sql, isBlank c = false
  structured : IsStructured level (structuralLexemes sql)
  code : signals (maskComments sql) = []
  views : ∀ d : Dialect, signals (view d sql) = []

/-- A value outside of comments is shown as it is. -/
theorem maskFrom_comments (hv : IsValueText v) (h : Lodges v before rest)
    (hsteady : (Place.start.after before).region.Steady) :
    maskFrom .comments (Place.start.after before).region v = v := by
  have hvisible : ∀ y ∈ marksFrom (Place.start.after before).region v, y.2 ≠ .comment := by
    rcases hsteady with hcode | hliteral | hname
    · rw [hcode]
      exact hv.keeps.1.visible
    · rw [hliteral, (read_in_literal fun c hc heq => h.literal hliteral (heq ▸ hc)).1]
      simp
    · rw [hname, (read_in_name fun c hc heq => (h.name hname).1 (heq ▸ hc)).1]
      simp
  rw [maskFrom, flatMap_show_of_not_comment _ hvisible, marksFrom_text]

/-- A placeholder is shown as it is. -/
theorem maskFrom_display (hsteady : (Place.start.after before).region.Steady) :
    maskFrom .comments (Place.start.after before).region p.display = p.display := by
  have hvisible : ∀ y ∈ marksFrom (Place.start.after before).region p.display, y.2 ≠ .comment := by
    rw [Template.marks_display hsteady]
    rcases hsteady with hg | hg | hg <;> simp [hg, Region.role]
  rw [maskFrom, flatMap_show_of_not_comment _ hvisible, marksFrom_text]

/-- **What one replacement preserves.** -/
theorem isKept_fill (hsteady : (Place.start.after before).Steady) (hv : IsValueText v)
    (h : Settles p v before r) (hs : IsKept level (before ++ (p.display ++ r))) :
    IsKept level (before ++ (v ++ r)) where
  visible := by
    obtain ⟨b, w, rfl, hb⟩ := hv.isInsert.begins
    have hall : ∀ b ∈ valueStarts, isBlank b = false := by decide
    exact ⟨b, by simp, hall b hb⟩
  structured := isStructured_fill hsteady hv h.lodges hs.structured
  code := by
    have hcode := hs.code
    rw [maskComments, mask_around _ (keeps_display hsteady.region p),
      maskFrom_display hsteady.region] at hcode
    rw [maskComments, mask_around _ (h.lodges.keeps hv hsteady.region),
      maskFrom_comments hv h.lodges hsteady.region]
    exact signals_eq_nil_of_swapped hv.harmless (swapped_of_parts _ _) hcode
  views d := signals_eq_nil_of_fits (h.fits d) hv.isInsert hv.harmless (hs.views d)

/-! ## All replacements -/

/-- All values of a statement fit where their placeholders stand, between the
text before each and what the text behind it is filled to. -/
def AllSettle (f : Placeholder → List Char) (sql : List Char) : List Occurrence → Prop
  | [] => True
  | o :: os =>
    Settles o.placeholder (f o.placeholder) (takeBytes o.start sql) (fillFrom f sql o.stop os) ∧
      AllSettle f sql os

namespace Template

/-- Something holds of every placeholder, with the text before it and what the
text behind it is filled to. -/
def Along (f : Placeholder → List Char) (Q : List Char → Placeholder → List Char → Prop)
    (x : List Char) : Template → Prop
  | .last _ => True
  | .piece s p rest => Q (x ++ s) p (rest.spell f) ∧ rest.Along f Q (x ++ s ++ p.display)

variable {Q Q' : List Char → Placeholder → List Char → Prop}

theorem Along.imp (h : ∀ before p r, Q before p r → Q' before p r) (hu : u.Along f Q x) :
    u.Along f Q' x := by
  induction u generalizing x with
  | last s => trivial
  | piece s p rest ih => exact ⟨h _ _ _ hu.1, ih hu.2⟩

theorem Along.and (hQ : u.Along f Q x) (hQ' : u.Along f Q' x) :
    u.Along f (fun before p r => Q before p r ∧ Q' before p r) x := by
  induction u generalizing x with
  | last s => trivial
  | piece s p rest ih => exact ⟨⟨hQ.1, hQ'.1⟩, ih hQ.2 hQ'.2⟩

/-- What holds of all placeholders holds along the template. -/
theorem along_of_holes {P : Placeholder → Prop} (h : ∀ p ∈ u.holes, P p) :
    u.Along f (fun _ p _ => P p) x := by
  induction u generalizing x with
  | last s => trivial
  | piece s p rest ih =>
    exact ⟨h p List.mem_cons_self, ih fun q hq => h q (List.mem_cons_of_mem p hq)⟩

/-- Values that fit in a statement fit along its template. -/
theorem along_of_allSettle
    (h : AllSettle f (x ++ u.spell display) (u.occurrencesFrom (byteLength x))) :
    u.Along f (fun before p r => Settles p (f p) before r) x := by
  induction u generalizing x with
  | last s => trivial
  | piece s p rest ih =>
    have hspell : x ++ (piece s p rest).spell display =
        (x ++ s) ++ (p.display ++ rest.spell display) := by simp [spell]
    have hspell' : x ++ (piece s p rest).spell display =
        (x ++ s ++ p.display) ++ rest.spell display := by simp [spell]
    have hlength : byteLength (x ++ s ++ p.display) =
        byteLength x + byteLength s + byteLength p.display := by
      rw [byteLength_append, byteLength_append]
    obtain ⟨hfirst, hrest⟩ := h
    rw [← hlength, hspell'] at hrest
    refine ⟨?_, ih hrest⟩
    dsimp only at hfirst
    rwa [← hlength, hspell', fillFrom_spell, ← hspell', ← byteLength_append, hspell,
      takeBytes_of_append] at hfirst

/-- A place after a placeholder is the place after the text behind it. -/
theorem after_display (ha : (a.after s).Steady) (p : Placeholder) (b : List Char) :
    a.after (s ++ (p.display ++ b)) = (a.after s).after b := by
  have hkeeps := keeps_display ha.region p
  have hnesting := (transparent_display p).nesting _ ha
  have hhead : (p.display ++ b).head?.or opening = opening := rfl
  have hregion : a.region.after opening s = (a.after s).region := rfl
  have hdepth : a.nesting.after true ((marksUpTo opening a.region s).flatMap
      Mask.commentsAndLiterals.show) = (a.after s).nesting := rfl
  rw [Place.after, Region.after_append, marksUpTo_append, hhead, hregion, Region.after_append,
    marksUpTo_append, hkeeps.after_eq, hkeeps.marksUpTo_eq, List.flatMap_append,
    List.flatMap_append, Nesting.after_append, hdepth, Nesting.after_append, ← maskFrom, hnesting]
  rfl

/-- What holds of the places of the placeholders holds along the template. -/
theorem within_iff_along {P : Place → Placeholder → Prop}
    (hsteady : u.Within (fun a _ => a.Steady) a)
    (hplace : ∀ s, Place.start.after (x ++ s) = a.after s) :
    u.Within P a ↔ u.Along f (fun before p _ => P (Place.start.after before) p) x := by
  induction u generalizing x a with
  | last s => exact Iff.rfl
  | piece s p rest ih =>
    refine and_congr (iff_of_eq (congrArg (P · p) (hplace s).symm)) (ih hsteady.2 fun b => ?_)
    rw [List.append_assoc, List.append_assoc, hplace, after_display hsteady.1]

/-- **What every replacement preserves** all of them do, from the right to the
left. -/
theorem along_fill {S : List Char → Prop}
    (hu : u.Along f (fun before p r =>
      S (before ++ (p.display ++ r)) → S (before ++ (f p ++ r))) x)
    (hs : S (x ++ u.spell display)) : S (x ++ u.spell f) := by
  induction u generalizing x with
  | last s => exact hs
  | piece s p rest ih =>
    have hrest := ih hu.2 (by simpa [spell] using hs)
    simpa [spell] using hu.1 (by simpa using hrest)

end Template

/-! ## Filled statements -/

/-- A gate without issues sees no signal in any view. -/
theorem gateIssues_reading_eq_nil_iff {accepts : Dialect → List Char → Bool} :
    gateIssuesWith (.reading accepts) sql = [] ↔
      signals (maskComments sql) = [] ∧ ∀ d : Dialect, signals (view d sql) = [] := by
  have hviews : ∀ P : List Char → Prop, (∀ v ∈ codeViewsWith (.reading accepts) sql, P v) ↔
      P (maskComments sql) ∧ ∀ d : Dialect, P (view d sql) := by
    intro P
    rw [codeViewsWith, List.forall_mem_cons, List.forall_mem_map]
    exact and_congr_right fun _ => ⟨fun h d => h d (by cases d <;> decide), fun h d _ => h d⟩
  rw [gateIssues_eq_nil_iff, hviews, signals_eq_nil_iff]
  exact and_congr_right fun _ => forall_congr' fun d => signals_eq_nil_iff.symm

/-- Values that fit replace all placeholders of a statement and leave none. -/
theorem IsTemplateOf.fill_kept (hu : IsTemplateOf u sql)
    (hvalues : ∀ o ∈ (scan sql).occurrences, IsValueText (f o.placeholder))
    (hsettles : AllSettle f sql (scan sql).occurrences) (hs : IsKept level sql) :
    IsKept level (fill f sql) ∧ BraceFree (maskComments (fill f sql)) := by
  have hholes : ∀ p ∈ u.holes, IsValueText (f p) := by
    intro p hp
    obtain ⟨o, ho, rfl⟩ := hu.mem_holes_iff.1 hp
    exact hvalues o ho
  have hfits : u.Along f (fun before p r => Settles p (f p) before r) [] := by
    refine Template.along_of_allSettle ?_
    rwa [List.nil_append, byteLength, ← hu.spells, ← hu.occurrences]
  have hplaces : ∀ {P : Place → Placeholder → Prop}, u.Within P .start ↔
      u.Along f (fun before p _ => P (Place.start.after before) p) [] :=
    Template.within_iff_along hu.steady fun _ => rfl
  have halong := (hplaces.1 hu.steady).and ((Template.along_of_holes hholes).and hfits)
  refine ⟨?_, ?_⟩
  · have hfilled := Template.along_fill (S := IsKept level) (f := f) (x := []) (u := u)
      (halong.imp fun before p r hp => isKept_fill hp.1 hp.2.1 hp.2.2)
      (by rwa [List.nil_append, ← hu.spells])
    rwa [List.nil_append, ← hu.fill_eq] at hfilled
  · have hshown : u.Within
        (fun a p => a.region.Keeps (f p) ∧ maskFrom .comments a.region (f p) = f p) .start :=
      hplaces.2 (halong.imp fun before p r hp => ⟨hp.2.2.lodges.keeps hp.2.1 hp.1.region,
        maskFrom_comments hp.2.1 hp.2.2.lodges hp.1.region⟩)
    have hmask : maskComments (fill f sql) = (u.masked .comments .code).spell f := by
      rw [hu.fill_eq]
      exact Template.maskFrom_spell hshown
    rw [hmask]
    refine Template.braceFree_spell hu.plain fun p hp => ?_
    rw [Template.holes_masked] at hp
    exact (hholes p hp).braceFree

/-- A statement with placeholders in a literal, side by side before a fraction, in
a word and by itself. -/
def labelledCycle : List Char :=
  ("SELECT deal.dl_nbr, '\x7bcurrent_cycle\x7d' AS x, ".toList ++
    "\x7bprevious_cycle\x7d\x7bcurrent_cycle\x7d.5 AS c\x7bcurrent_cycle\x7d_v2 ".toList ++
    "FROM deal WHERE \x7bdeal_tranche_filter\x7d".toList)

/-- A literal holds the first code. -/
theorem settles_labelledCycle_literal (rest : List Char) :
    Settles .currentCycle (natural 202506) (takeBytes 21 labelledCycle) rest := by
  refine .of_literal (n := 0) (by decide +kernel) (by decide +kernel) fun d => ?_
  have hreach : (reach d (takeBytes 21 labelledCycle)).begun = ['\''] ∧
      ∀ x ∈ (reach d (takeBytes 21 labelledCycle)).steps,
        ∀ b ∈ (natural 202506).head?, x.token.goesOn b x.left = false := by
    cases d <;> decide +kernel
  have hopens : Rule.stringOpening? d '\'' [] = some (.plain, []) := by
    cases d <;> decide
  refine .inside hreach.2 ?_
  rw [hreach.1]
  exact .string hopens (by decide) (by decide +kernel)

/-- What the statement is filled to behind the codes side by side. -/
def labelledCycleEnd : List Char :=
  " AS c202506_v2 FROM deal WHERE ".toList ++
    written .postgres (oneTranche "A1") .dealTrancheFilter

/-- The codes side by side are one number with the fraction behind them. -/
theorem settles_labelledCycle_number :
    Settles .previousCycle (natural 202505) (takeBytes 44 labelledCycle)
        ("202506.5".toList ++ labelledCycleEnd) ∧
      Settles .currentCycle (natural 202506) (takeBytes 60 labelledCycle)
        (".5".toList ++ labelledCycleEnd) := by
  have hnumber : ∀ d, Verbatim d "202505202506.5".toList labelledCycleEnd ∧
      Verbatim d "202506.5".toList labelledCycleEnd ∧
      Verbatim d ".5".toList labelledCycleEnd := by
    refine fun d => ⟨?_, ?_, ?_⟩
    · exact verbatim_of_find (c := '2') (s := "02505202506.5".toList)
        (t := .number "202505202506.5".toList) (by cases d <;> decide +kernel) rfl
    · exact verbatim_of_find (c := '2') (s := "02506.5".toList)
        (t := .number "202506.5".toList) (by cases d <;> decide +kernel) rfl
    · exact verbatim_of_find (c := '.') (s := "5".toList) (t := .number ".5".toList)
        (by cases d <;> decide +kernel) rfl
  constructor
  · refine .of_code (n := 0) (by decide +kernel) (fun _ => .inl (by decide +kernel)) fun d => ?_
    have hreach : (reach d (takeBytes 44 labelledCycle)).begun = [] ∧
        ∀ x ∈ (reach d (takeBytes 44 labelledCycle)).steps,
          ∀ b ∈ (natural 202505).head?, x.token.goesOn b x.left = false := by
      cases d <;> decide +kernel
    exact .of_verbatim _ _ hreach.1 hreach.2 rfl (hnumber d).2.1 (hnumber d).1
  · refine .of_code (n := 0) (by decide +kernel) (fun _ => .inl (by decide +kernel)) fun d => ?_
    have hreach : (reach d (takeBytes 60 labelledCycle)).begun = [] ∧
        ∀ x ∈ (reach d (takeBytes 60 labelledCycle)).steps,
          ∀ b ∈ (natural 202506).head?, x.token.goesOn b x.left = false := by
      cases d <;> decide +kernel
    exact .of_verbatim _ _ hreach.1 hreach.2 rfl (hnumber d).2.2 (hnumber d).2.1

/-- A code goes on a name, which goes on behind it. -/
theorem settles_labelledCycle_word :
    Settles .currentCycle (natural 202506) (takeBytes 82 labelledCycle)
      ("_v2".toList ++ (" FROM deal WHERE ".toList ++
        written .postgres (oneTranche "A1") .dealTrancheFilter)) := by
  refine .of_code (n := 0) (by decide +kernel) (fun _ => .inl (by decide +kernel)) fun d => ?_
  have hreach : (reach d (takeBytes 82 labelledCycle)).begun = [] ∧
      (reach d (takeBytes 82 labelledCycle)).steps.getLast? = some ⟨.word ['c'], []⟩ ∧
      ∀ x ∈ (reach d (takeBytes 82 labelledCycle)).steps.dropLast,
        ∀ b ∈ (natural 202506).head?, x.token.goesOn b x.left = false := by
    cases d <;> decide +kernel
  refine .of_word _ _ (isInsert_natural 202506) (isNumeral_natural 202506) hreach.1 hreach.2.1
    hreach.2.2 rfl (verbatim_word (by decide) (by decide)) ?_ ?_
  · cases d <;> decide
  · cases d <;> decide

/-- The filter stands by itself. -/
theorem settles_labelledCycle_filter :
    Settles .dealTrancheFilter (written .postgres (oneTranche "A1") .dealTrancheFilter)
      (takeBytes 117 labelledCycle) [] := by
  have hwritten : value .postgres (oneTranche "A1") .dealTrancheFilter =
      .ok (written .postgres (oneTranche "A1") .dealTrancheFilter) := by decide +kernel
  have hinsert := (isValueText_of_value hwritten (by decide)).isInsert
  have hmark : ¬ IsNumeral (written .postgres (oneTranche "A1") .dealTrancheFilter) :=
    fun hnumeral => absurd (hnumeral.2 '(' (by decide +kernel)) (by decide)
  refine .of_code (n := 0) (by decide +kernel) (fun h => absurd h hmark) fun d => ?_
  have hreach : (reach d (takeBytes 117 labelledCycle)).begun = [] ∧
      ∀ x ∈ (reach d (takeBytes 117 labelledCycle)).steps,
        ∀ b ∈ (written .postgres (oneTranche "A1") .dealTrancheFilter).head?,
          x.token.goesOn b x.left = false := by
    cases d <;> decide +kernel
  exact .of_apart hinsert hreach.1 hreach.2 fun h => absurd h hmark

/-- The values fit, each in its own way. -/
theorem allSettle_labelledCycle :
    AllSettle (written .postgres (oneTranche "A1")) labelledCycle
      (scan labelledCycle).occurrences := by
  have hfound : (scan labelledCycle).occurrences =
      [⟨.currentCycle, 21, 36⟩, ⟨.previousCycle, 44, 60⟩, ⟨.currentCycle, 60, 75⟩,
        ⟨.currentCycle, 82, 97⟩, ⟨.dealTrancheFilter, 117, 138⟩] := by decide +kernel
  have hcurrent : written .postgres (oneTranche "A1") .currentCycle = natural 202506 := by
    decide +kernel
  have hprevious : written .postgres (oneTranche "A1") .previousCycle = natural 202505 := by
    decide +kernel
  rw [hfound]
  simp only [AllSettle, hcurrent, hprevious]
  refine ⟨settles_labelledCycle_literal _, ?_, ?_, ?_, ?_, trivial⟩
  · convert settles_labelledCycle_number.1 using 1
    decide +kernel
  · convert settles_labelledCycle_number.2 using 1
    decide +kernel
  · convert settles_labelledCycle_word using 1
    decide +kernel
  · convert settles_labelledCycle_filter using 1
    decide +kernel

/-- Values that fit nowhere: in a literal and a name that they close, against
keywords before and behind them, and behind a mark that takes their quote. -/
def unfitting : List (Dialect × List Char) := [
  (.postgres, "SELECT '\x7bdeal_tranche_filter\x7d' AS y, deal.dl_nbr, 1 AS x FROM deal".toList),
  (.tsql, "SELECT 1 AS [\x7bdeal_filter\x7d FROM], deal.dl_nbr, 1 AS x FROM deal".toList),
  (.duckdb, "WITH\x7bcurrent_cycle\x7d SELECT deal.dl_nbr, 1 AS x FROM deal".toList),
  (.duckdb, "SELECT deal.dl_nbr, 1 AS x FROM\x7bcurrent_cycle\x7d".toList),
  (.duckdb, "SELECT deal.dl_nbr, 1 AS x, \x7bcurrent_cycle\x7dFROM deal".toList),
  (.postgres, "SELECT deal.dl_nbr, 1 AS x FROM deal WHERE 1 ?\x7bdeal_filter\x7d /* \" DROP */".toList)]

end DealSql.Placeholder
