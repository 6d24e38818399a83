import DealSql.Proofs.LexemeSeams
import DealSql.Proofs.Regions
import DealSql.Proofs.Templates

/-!
# The marks of a filled template

A placeholder is scanned in the masked statement but stands in the
statement itself, so the template of the mask is carried back to the
statement: every visible character of a mask stands at its place in the
source (`maskFrom_split`).

A template is then read from left to right, one text and one placeholder at
a time.  What the placeholders are replaced by does not show in the marks
of the texts between them, as long as each value keeps the region in which
its placeholder stands.

* `exists_source` — the template of a statement whose mask is one.
* `marksFrom_spell` — the marks of a filled template.
-/

namespace DealSql.Statement

open DealSql.Text

/-! ## Visible characters -/

/-- What is hidden leaves blanks. -/
theorem eq_of_mem_blanks {c d : Char} (h : c ∈ blanks d) : c = ' ' ∨ c = '\n' := by
  unfold blanks at h
  split at h
  · exact Or.inr (by simpa using h)
  · exact Or.inl (List.eq_of_mem_replicate h)

theorem isBlank_of_mem_blanks {c d : Char} (h : c ∈ blanks d) : isBlank c = true := by
  rcases eq_of_mem_blanks h with rfl | rfl
  · decide
  · decide

/-- Something is shown for every character. -/
theorem show_ne_nil (m : Mask) (x : Char × Role) : m.show x ≠ [] := by
  have hlength := byteLength_show m x
  have hsize := x.1.utf8Size_pos
  intro hnil
  simp [hnil, byteLength] at hlength
  omega

/-- A character that a first part lacks stands in the second. -/
theorem append_cons_eq_append {α : Type} {a b u w : List α} {c : α} (hc : c ∉ u)
    (h : a ++ c :: b = u ++ w) : ∃ a', a = u ++ a' ∧ w = a' ++ c :: b := by
  rcases List.append_eq_append_iff.1 h with ⟨x, hu, hw⟩ | ⟨x, ha, hw⟩
  · cases x with
    | nil => exact ⟨[], by simpa using hu.symm, by simpa using hw.symm⟩
    | cons d x =>
      obtain ⟨rfl, -⟩ := List.cons.inj hw
      exact absurd (by simp [hu]) hc
  · exact ⟨x, ha, hw⟩

/-- What is shown for a character, if it is no blank, is the character. -/
theorem eq_of_mem_show {m : Mask} {x : Char × Role} {c : Char} (hblank : c ≠ ' ' ∧ c ≠ '\n')
    (h : c ∈ m.show x) : m.show x = [c] ∧ x.1 = c := by
  have hvisible : c ∉ blanks x.1 := fun hmem =>
    (eq_of_mem_blanks hmem).elim hblank.1 hblank.2
  obtain rfl := (mem_show h).resolve_right hvisible
  cases hx : m.hides x.2 with
  | true => exact absurd (Mask.show_of_hides hx ▸ h) hvisible
  | false => exact ⟨Mask.show_of_visible hx, rfl⟩

/-- A visible character of a mask stands at its place in the source. -/
theorem maskFrom_split {m : Mask} {g : Region} {sql a b : List Char} {c : Char}
    (hblank : c ≠ ' ' ∧ c ≠ '\n') (h : maskFrom m g sql = a ++ c :: b) :
    ∃ x r, sql = x ++ c :: r ∧ (marksUpTo (some c) g x).flatMap m.show = a ∧
      maskFrom m (g.after (some c) x) (c :: r) = c :: b := by
  induction sql generalizing g a with
  | nil => simp [maskFrom, marksFrom] at h
  | cons d r ih =>
    -- behind the first character it stands at its place in the rest
    have hbehind : ∀ a', a = m.show (d, (g.read d r.head?).1) ++ a' →
        maskFrom m (g.read d r.head?).2 r = a' ++ c :: b →
        ∃ x r', d :: r = x ++ c :: r' ∧ (marksUpTo (some c) g x).flatMap m.show = a ∧
          maskFrom m (g.after (some c) x) (c :: r') = c :: b := by
      rintro a' rfl hrest
      obtain ⟨x, r', rfl, hshown, hmask⟩ := ih hrest
      have hhead : (x ++ c :: r').head? = x.head?.or (some c) := by cases x <;> rfl
      rw [hhead] at hshown hmask ⊢
      refine ⟨d :: x, r', rfl, ?_, hmask⟩
      rw [marksUpTo, List.flatMap_cons, hshown]
    rcases List.append_eq_append_iff.1 ((maskFrom_cons m g d r).symm.trans h) with ⟨a', ha, hrest⟩ | ⟨t, hshow, ht⟩
    · exact hbehind a' ha hrest
    · cases t with
      | nil => exact hbehind [] (by simpa using hshow.symm) (by simpa using ht.symm)
      | cons e t =>
        obtain ⟨rfl, -⟩ := List.cons.inj ht
        obtain ⟨hsingle, rfl⟩ := eq_of_mem_show hblank (by rw [hshow]; simp)
        obtain ⟨rfl, -⟩ : a = [] ∧ t = [] := by
          rw [hsingle] at hshow
          cases a with
          | nil => exact ⟨rfl, by simpa using hshow.symm⟩
          | cons f a => simp at hshow
        exact ⟨[], r, rfl, rfl, h⟩

/-- A character that stands for itself in the mask is visible. -/
theorem visible_of_maskFrom {m : Mask} {g : Region} {r b : List Char} {c : Char}
    (hblank : c ≠ ' ' ∧ c ≠ '\n') (h : maskFrom m g (c :: r) = c :: b) :
    m.hides (g.read c r.head?).1 = false ∧ maskFrom m (g.read c r.head?).2 r = b := by
  rw [maskFrom_cons] at h
  cases hhide : m.hides (g.read c r.head?).1 with
  | false =>
    rw [Mask.show_of_visible hhide, List.singleton_append] at h
    exact ⟨rfl, List.tail_eq_of_cons_eq h⟩
  | true =>
    obtain ⟨d, x, hd⟩ := List.exists_cons_of_ne_nil (show_ne_nil m (c, (g.read c r.head?).1))
    have hmem : d ∈ blanks c := by
      rw [← Mask.show_of_hides hhide, hd]
      exact List.mem_cons_self
    rw [hd] at h
    obtain ⟨rfl, -⟩ := List.cons.inj h
    rcases eq_of_mem_blanks hmem with hb | hb
    · exact absurd hb hblank.1
    · exact absurd hb hblank.2

/-- A run of characters that are no blanks stands at the start of the source
when it stands at the start of the mask. -/
theorem maskFrom_run {m : Mask} {g : Region} {sql w b : List Char}
    (hw : ∀ c ∈ w, c ≠ ' ' ∧ c ≠ '\n') (h : maskFrom m g sql = w ++ b) :
    ∃ r, sql = w ++ r ∧ maskFrom m (g.after r.head? w) r = b := by
  induction w generalizing g sql with
  | nil => exact ⟨sql, rfl, h⟩
  | cons c w ih =>
    have hc := hw c List.mem_cons_self
    obtain ⟨x, r, rfl, hshown, hmask⟩ := maskFrom_split (a := []) hc h
    obtain rfl : x = [] := by
      cases x with
      | nil => rfl
      | cons d x => simp [marksUpTo, show_ne_nil] at hshown
    obtain ⟨r', rfl, hrest⟩ := ih (fun d hd => hw d (List.mem_cons_of_mem _ hd))
      (visible_of_maskFrom hc hmask).2
    refine ⟨r', rfl, ?_⟩
    rw [Region.after, ← List.head?_append]
    exact hrest

end DealSql.Statement

namespace DealSql.Placeholder

open DealSql.Text DealSql.Statement

/-- The brace with which every placeholder begins. -/
def opening : Option Char := some '\x7b'

/-- A placeholder is written with ordinary characters. -/
theorem display_ordinary (p : Placeholder) : ∀ c ∈ p.display, isOrdinary c = true := by
  have hall : ∀ q ∈ all, ∀ c ∈ q.display, isOrdinary c = true := by decide
  exact hall p (mem_all p)

/-- A placeholder is written without blanks. -/
theorem display_not_blank (p : Placeholder) : ∀ c ∈ p.display, c ≠ ' ' ∧ c ≠ '\n' := by
  have hall : ∀ q ∈ all, ∀ c ∈ q.display, c ≠ ' ' ∧ c ≠ '\n' := by decide
  exact hall p (mem_all p)

/-- A placeholder keeps every steady region. -/
theorem keeps_display {g : Region} (hg : g.Steady) (p : Placeholder) : g.Keeps p.display :=
  Region.keeps_of_ordinary hg (by simp [display]) (display_ordinary p)

/-- Where a placeholder stands: in which region, and in what nesting once the
comments and the literals are masked. -/
structure Place where
  region : Region
  nesting : Nesting
  deriving Repr, DecidableEq

namespace Place

/-- Where a statement begins. -/
def start : Place := ⟨.code, ⟨0, none⟩⟩

/-- The place of a placeholder after a text. -/
def after (a : Place) (s : List Char) : Place where
  region := a.region.after opening s
  nesting := a.nesting.after true
    ((marksUpTo opening a.region s).flatMap Mask.commentsAndLiterals.show)

/-- A place in plain code, in no quoted name either. -/
def InCode (a : Place) : Prop := a.region = .code ∧ a.nesting.name = none

end Place

namespace Template

/-- Every placeholder stands in a place of which something holds. -/
def Within (P : Place → Placeholder → Prop) (a : Place) : Template → Prop
  | .last _ => True
  | .piece s p rest => P (a.after s) p ∧ rest.Within P (a.after s)

/-- The marks of a template with something in the place of every placeholder. -/
def marks (f : Placeholder → List Char) (g : Region) : Template → List (Char × Role)
  | .last s => marksFrom g s
  | .piece s p rest =>
    marksUpTo opening g s ++ marksFrom (g.after opening s) (f p) ++
      rest.marks f (g.after opening s)

/-- The template of the mask of a statement. -/
def masked (m : Mask) (g : Region) : Template → Template
  | .last s => .last (maskFrom m g s)
  | .piece s p rest =>
    .piece ((marksUpTo opening g s).flatMap m.show) p (rest.masked m (g.after opening s))

/-- The placeholders of a template. -/
def holes : Template → List Placeholder
  | .last _ => []
  | .piece _ p rest => p :: rest.holes

variable {P Q : Place → Placeholder → Prop} {t : Template} {a : Place}

/-- What holds of the placeholders may be weakened. -/
theorem Within.imp (h : ∀ a, ∀ p ∈ t.holes, P a p → Q a p) (ht : t.Within P a) :
    t.Within Q a := by
  induction t generalizing a with
  | last s => trivial
  | piece s p rest ih =>
    exact ⟨h _ _ List.mem_cons_self ht.1,
      ih (fun a q hq => h a q (List.mem_cons_of_mem _ hq)) ht.2⟩

/-- **The template of a statement whose mask is one**: the placeholders stand
where they stand in the mask, in steady regions. -/
theorem exists_source {sql : List Char} (ha : a.region ≠ .quoteSecond) (ht : t.Plain)
    (h : maskFrom .comments a.region sql = t.spell display) :
    ∃ u : Template, sql = u.spell display ∧ u.masked .comments a.region = t ∧
      u.Within (fun a _ => a.region.Steady) a := by
  induction t generalizing a sql with
  | last s =>
    refine ⟨.last sql, rfl, ?_, trivial⟩
    rw [masked, h]
    rfl
  | piece s p rest ih =>
    have hbrace : '\x7b' ≠ ' ' ∧ '\x7b' ≠ '\n' := by decide
    have hsplit : maskFrom .comments a.region sql =
        s ++ '\x7b' :: (p.name ++ '\x7d' :: rest.spell display) := by
      rw [h, spell, display]
      simp
    obtain ⟨x, y, rfl, hshown, hmask⟩ :=
      maskFrom_split hbrace hsplit
    have hvisible : ((a.after x).region.read '\x7b' y.head?).1 ≠ .comment := by
      have hshows := (visible_of_maskFrom hbrace hmask).1
      intro hcomment
      have hregion : (a.after x).region = a.region.after (some '\x7b') x := rfl
      rw [hregion] at hcomment
      rw [hcomment] at hshows
      cases hshows
    have hsecond : (a.after x).region ≠ .quoteSecond :=
      Region.after_ne_quoteSecond (by decide) fun hsecond => absurd hsecond ha
    have hsteady : (a.after x).region.Steady :=
      Region.steady_of_visible hbrace.2 hsecond hvisible
    have hrun : maskFrom .comments (a.after x).region ('\x7b' :: y) =
        p.display ++ rest.spell display := by
      rw [Place.after, opening, hmask, display]
      simp
    obtain ⟨r, hr, hrest⟩ := maskFrom_run (display_not_blank p) hrun
    rw [(keeps_display hsteady p).after_eq] at hrest
    obtain ⟨u, rfl, hu, hwithin⟩ := ih hsecond ht.2 hrest
    refine ⟨.piece x p u, ?_, ?_, hsteady, hwithin⟩
    · rw [hr, spell, List.append_assoc]
    · have hu' : u.masked .comments (a.region.after opening x) = rest := hu
      rw [masked, hu', opening, hshown]

/-- **The marks of a filled template** are its marks, when every value keeps
the region of its placeholder. -/
theorem marksFrom_spell {f : Placeholder → List Char}
    (h : t.Within (fun a p => a.region.Keeps (f p)) a) :
    marksFrom a.region (t.spell f) = t.marks f a.region := by
  induction t generalizing a with
  | last s => rfl
  | piece s p rest ih =>
    have hbrace : opening.any isPairing = false := rfl
    obtain ⟨hmarks, hafter⟩ := h.1.before_eq a.region s (rest.spell f) hbrace
    have hregion : a.region.after opening s = (a.after s).region := rfl
    rw [spell, List.append_assoc, marksFrom_append, hmarks, hafter, hregion,
      h.1.marksFrom_append, ih h.2, marks, List.append_assoc]
    rfl

end Template

end DealSql.Placeholder
