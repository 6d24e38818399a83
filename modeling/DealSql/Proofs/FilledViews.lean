import DealSql.Proofs.SwappedViews
import DealSql.Proofs.TemplateMarks

/-!
# Views of a filled statement

The value of a placeholder adds no keyword to a view, whatever stands next to
it: either its ends part from the words around it, or it is a numeral, and
the words that go on with it have a digit then.

* `Harmless` — what a view may show anywhere.
* `signals_eq_nil_of_swapped` — a view with a harmless text in the place of a
  placeholder.
* `signals_eq_nil_of_fits` — the view of a dialect with a harmless text where
  it fits.
-/

namespace DealSql.Review

open DealSql.Text DealSql.Statement

variable {a b s s' u w : List Char} {p : Placeholder} {k : String}

/-! ## Words with digits -/

/-- Every spelling of a keyword is made of letters of ASCII and underscores. -/
theorem isNameStart_of_sameWord (hk : ∀ c ∈ foldCase k.toList, isNameStart c = true)
    (h : sameWord w k.toList = true) : ∀ c ∈ w, isNameStart c = true := by
  intro c hc
  have hlower : c.toLower ∈ foldCase k.toList := by
    rw [← sameWord_iff.1 h]
    exact List.mem_map_of_mem hc
  have hstart := hk _ hlower
  unfold Char.toLower at hstart
  split at hstart
  · next hupper =>
    have halpha : c.isAlpha = true := Bool.or_eq_true_iff.2 (Or.inl (decide_eq_true hupper))
    simp [isNameStart, halpha]
  · exact hstart

/-- A word with a digit is no keyword. -/
theorem not_showsAlone_of_digit (hk : InLetters k) (hw : ∀ c ∈ w, isWordChar c = true)
    (hdigit : ∃ c ∈ w, c.isDigit = true) : ¬ ShowsAlone k w := by
  rintro ⟨v, hsame, halone⟩
  obtain ⟨c, hc, hdigit⟩ := hdigit
  obtain rfl := eq_of_standsAlone (isWord_of_sameWord hk hsame) ⟨List.ne_nil_of_mem hc, hw⟩ halone
  have hstart : isNameStart c = true :=
    isNameStart_of_sameWord (fun e he => by simp [isNameStart, hk.2 e he]) hsame c hc
  rw [isDigit_of_isNameStart hstart] at hdigit
  cases hdigit

/-! ## Harmless texts -/

/-- A text that may stand anywhere in a view without a signal. -/
structure Harmless (u : List Char) : Prop where
  nonempty : u ≠ []
  quiet : Quiet u
  single : ∀ c ∈ u, c ≠ ';'
  ends : IsNumeral u ∨ beginsWithWord u = false ∧ endsInWord u = false

/-- What stands behind a text does not change how it begins. -/
theorem beginsWithWord_append (hne : a ≠ []) (h : beginsWithWord a = false) :
    beginsWithWord (a ++ b) = false := by
  obtain ⟨c, r, rfl⟩ := List.exists_cons_of_ne_nil hne
  exact h

/-- The words between two texts without word characters at their inner ends. -/
theorem quiet_around_iff {x y : List Char} (hx : endsInWord x = false)
    (hy : beginsWithWord y = false) : Quiet (x ++ (w ++ y)) ↔ Quiet x ∧ Quiet w ∧ Quiet y := by
  rw [quiet_append_iff (Or.inl hx), quiet_append_iff (Or.inr hy)]

/-- What is quiet around a placeholder is so around a harmless text. -/
theorem quiet_fill (hu : Harmless u) (h : Quiet (a ++ (p.display ++ b))) :
    Quiet (a ++ (u ++ b)) := by
  have hbegins : ∀ y, beginsWithWord (p.display ++ y) = false := fun y => rfl
  have hends : endsInWord p.display = false := by
    rw [Placeholder.display, endsInWord_append_singleton]
    decide
  obtain ⟨ha, hrest⟩ := (quiet_append_iff (Or.inr (hbegins b))).1 h
  obtain ⟨-, hb⟩ := (quiet_append_iff (Or.inl hends)).1 hrest
  rcases hu.ends with hnumeral | ⟨hfirst, hlast⟩
  · -- the numeral may belong to the words around it, which have a digit then
    have hx := endsInWord_rdropWhile a
    have hw : ∀ c ∈ a.rtakeWhile isWordChar, isWordChar c = true :=
      fun _ hc => List.mem_rtakeWhile_imp hc
    rw [← List.rdropWhile_append_rtakeWhile (p := isWordChar) (l := a)] at ha ⊢
    generalize a.rtakeWhile isWordChar = w at ha hw ⊢
    generalize a.rdropWhile isWordChar = x at ha hx ⊢
    have hy := beginsWithWord_dropWhile b
    have hv : ∀ c ∈ b.takeWhile isWordChar, isWordChar c = true :=
      fun _ hc => List.mem_takeWhile_imp hc
    rw [← List.takeWhile_append_dropWhile (p := isWordChar) (l := b)] at hb ⊢
    generalize b.takeWhile isWordChar = v at hb hv ⊢
    generalize b.dropWhile isWordChar = y at hb hy ⊢
    have hquiet : Quiet (w ++ u ++ v) := by
      intro k hk
      refine not_showsAlone_of_digit (blockedKeywords_letters k hk) ?_ ?_
      · have hdigits : ∀ c ∈ u, isWordChar c = true :=
          fun c hc => isWordChar_of_isNumeric (isNumeric_of_isDigit (hnumeral.2 c hc))
        simpa only [List.forall_mem_append] using ⟨⟨hw, hdigits⟩, hv⟩
      · obtain ⟨c, r, rfl⟩ := List.exists_cons_of_ne_nil hnumeral.1
        exact ⟨c, by simp, hnumeral.2 c List.mem_cons_self⟩
    have haround := (quiet_around_iff hx hy).2
      ⟨((quiet_append_iff (Or.inl hx)).1 ha).1, hquiet, ((quiet_append_iff (Or.inr hy)).1 hb).2⟩
    simpa using haround
  · exact (quiet_append_iff (Or.inr (beginsWithWord_append hu.nonempty hfirst))).2
      ⟨ha, (quiet_append_iff (Or.inl hlast)).2 ⟨hu.quiet, hb⟩⟩

/-- Where a view shows one statement around something visible it does so around
a text without a semicolon. -/
theorem single_fill {v : List Char} (hv : ∃ c ∈ v, isBlank c = false) (hu : ∀ c ∈ u, c ≠ ';')
    (h : Single (a ++ (v ++ b))) : Single (a ++ (u ++ b)) := by
  have ha : ';' ∉ a := by
    intro hmem
    obtain ⟨x, y, rfl⟩ := List.append_of_mem hmem
    obtain ⟨c, hc, hvisible⟩ := hv
    have hblank := h x (y ++ (v ++ b)) (by simp) c (by simp [hc])
    rw [hvisible] at hblank
    cases hblank
  intro x y hxy
  have hau : ';' ∉ a ++ u := by
    rw [List.mem_append, not_or]
    exact ⟨ha, fun hmem => hu _ hmem rfl⟩
  rw [← List.append_assoc] at hxy
  obtain ⟨z, rfl, rfl⟩ := append_cons_eq_append hau hxy.symm
  exact h (a ++ (v ++ z)) y (by simp)

/-- **A view with a harmless text in the place of a placeholder.** -/
theorem signals_eq_nil_of_swapped (hu : Harmless u) (h : Swapped p.display u s s')
    (hs : signals s = []) : signals s' = [] := by
  rcases h with rfl | ⟨x, y, rfl, rfl⟩
  · exact hs
  · obtain ⟨hquiet, hsingle⟩ := signals_eq_nil_iff.1 hs
    have hbrace : ∃ c ∈ p.display, isBlank c = false := ⟨'\x7b', List.mem_cons_self, by decide⟩
    exact signals_eq_nil_iff.2 ⟨quiet_fill hu hquiet, single_fill hbrace hu.single hsingle⟩

/-- A view with unobtrusive code in the place of other code. -/
theorem signals_eq_nil_of_unobtrusive {z z' : List Char} (h : Unobtrusive z z')
    (hs : signals (a ++ (z ++ b)) = []) : signals (a ++ (z' ++ b)) = [] := by
  have hz : z ≠ [] := by
    obtain ⟨c, hc, -⟩ := h.visible
    exact List.ne_nil_of_mem hc
  obtain ⟨hquiet, hsingle⟩ := signals_eq_nil_iff.1 hs
  obtain ⟨ha, hrest⟩ := (quiet_append_iff (Or.inr (beginsWithWord_append hz h.parted.1))).1 hquiet
  obtain ⟨-, hb⟩ := (quiet_append_iff (Or.inl h.parted.2)).1 hrest
  refine signals_eq_nil_iff.2 ⟨?_, single_fill h.visible h.single hsingle⟩
  rw [quiet_append_iff (Or.inr (beginsWithWord_append h.nonempty h.parted'.1)),
    quiet_append_iff (Or.inl h.parted'.2)]
  exact ⟨ha, h.quiet, hb⟩

/-- **The view of a dialect with a harmless text where it fits.** -/
theorem signals_eq_nil_of_fits {d : Dialect} {rest : List Char} (h : Fits d p u s rest)
    (hinsert : IsInsert u) (hu : Harmless u)
    (hs : signals (view d (s ++ (p.display ++ rest))) = []) :
    signals (view d (s ++ (u ++ rest))) = [] := by
  rcases h.views hinsert with hswapped | ⟨a, z, z', b, hquiet, hview, hview'⟩
  · exact signals_eq_nil_of_swapped hu hswapped hs
  · rw [hview] at hs
    rw [hview']
    exact signals_eq_nil_of_unobtrusive hquiet hs

end DealSql.Review
