import DealSql.Proofs.TemplateMarks
import DealSql.Review.SelectList
import Mathlib.Data.List.Basic

/-!
# Masks of masked texts

A masked text is read as the text itself, character by character, but for
what the mask has hidden: blanks in the place of a comment are code, and
blanks in the place of a doubled quote are inside of the literal.  No blank
makes a pair with what stands next to it and none opens or closes anything, so
the reading is nowhere else in another region.

A second mask therefore hides what it would have hidden at once, and nothing
of what is found in a masked statement changes when its comments are masked
beforehand.

* `marksFrom_maskFrom` — the marks of a masked text.
* `mask_mask` — a mask of a masked text.
* `mask_absorbs` — what is read of a statement without its comments.
-/

namespace DealSql.Statement

open DealSql.Text

/-! ## The reading of a masked text -/

/-- The role of a character, or of the blanks in its place, in a masked text. -/
def Role.masked : Role → Role
  | .comment => .code
  | r => r

/-- The region of a masked text in which the text itself is in a region. -/
def Region.masked (m : Mask) : Region → Region
  | .code => .code
  | .literal => .literal
  | .quoteSecond => if m.hides .literal then .literal else .quoteSecond
  | .name => .name
  | _ => .code

variable {m : Mask} {g : Region} {c : Char} {ahead ahead' : Option Char}

/-- Blanks have no meaning of their own. -/
theorem isOrdinary_of_mem_blanks {c d : Char} (h : c ∈ blanks d) : isOrdinary c = true := by
  rcases eq_of_mem_blanks h with rfl | rfl <;> rfl

/-- What is hidden leaves the masked text in the region in which it is. -/
theorem Region.masked_of_hidden (h : m.hides (g.read c ahead).1 = true) :
    (g.masked m).Steady ∧ (g.masked m).role = (g.read c ahead).1.masked ∧
      (g.read c ahead).2.masked m = g.masked m := by
  cases m <;> cases g <;> simp only [Region.read] at h ⊢ <;> (try split_ifs at h ⊢) <;>
    first | exact ⟨Or.inl rfl, rfl, rfl⟩ | exact ⟨Or.inr (Or.inl rfl), rfl, rfl⟩ | cases h

/-- What is shown is no comment. -/
theorem Region.role_ne_comment (h : m.hides (g.read c ahead).1 = false) :
    (g.read c ahead).1 ≠ .comment := by
  intro hcomment
  rw [hcomment] at h
  cases m <;> cases h

/-- Up to its closing mark a comment is nothing else. -/
theorem Region.role_block (c : Char) (ahead : Option Char) :
    (Region.block.read c ahead).1 = .comment := by
  simp only [Region.read]
  split <;> rfl

/-- What is no comment is read alike before a character that makes no pair, unless
it is the first quote of a doubled one. -/
theorem Region.read_of_ne_comment (h : (g.read c ahead).1 ≠ .comment)
    (hsecond : (g.read c ahead).2 ≠ .quoteSecond) (hahead : ahead'.any isPairing = false) :
    g.read c ahead' = g.read c ahead := by
  have hne : ∀ d, isPairing d = true → ahead' ≠ some d := by
    rintro d hd rfl
    rw [Option.any_some, hd] at hahead
    cases hahead
  have hdash := hne '-' rfl
  have hstar := hne '*' rfl
  have hquote := hne '\'' rfl
  cases g with
  | code =>
    simp only [Region.read] at h ⊢
    split_ifs at h ⊢ <;> simp_all
  | literal =>
    simp only [Region.read] at hsecond ⊢
    split_ifs at hsecond ⊢ <;> simp_all
  | block => exact absurd (role_block c ahead) h
  | line => rfl
  | name => rfl
  | quoteSecond => rfl
  | _ => exact absurd rfl h

/-- What is shown is read in the masked text as in the text itself, if the same
follows it there. -/
theorem Region.masked_of_shown (h : m.hides (g.read c ahead).1 = false) :
    (g.masked m).read c ahead = ((g.read c ahead).1.masked, (g.read c ahead).2.masked m) := by
  have hcomment := role_ne_comment h
  cases g with
  | code =>
    simp only [Region.read, Region.masked] at hcomment ⊢
    split_ifs at hcomment ⊢ <;> first | rfl | exact absurd rfl hcomment
  | line =>
    by_cases hc : c = '\n'
    · subst hc
      rfl
    · refine absurd ?_ hcomment
      simp [Region.read, hc]
  | literal =>
    cases m with
    | comments =>
      change Region.literal.read c ahead = _
      simp only [Region.read]
      split_ifs <;> rfl
    | commentsAndLiterals =>
      change Region.literal.read c ahead = _
      simp only [Region.read] at h ⊢
      split_ifs at h ⊢ <;> first | rfl | cases h
  | quoteSecond =>
    cases m with
    | comments => rfl
    | commentsAndLiterals => cases h
  | name =>
    simp only [Region.read, Region.masked]
    split_ifs <;> rfl
  | block => exact absurd (role_block c ahead) hcomment
  | _ => exact absurd rfl hcomment

/-- The first quote of a doubled one is inside of the literal. -/
theorem Region.role_of_quoteSecond (h : (g.read c ahead).2 = .quoteSecond) :
    (g.read c ahead).1 = .literal := by
  revert h
  cases g <;> simp only [Region.read] <;> (try split_ifs) <;> simp

/-- A masked text begins as the text itself or, where its first character is
hidden, with a blank. -/
theorem head?_maskFrom (m : Mask) (g : Region) (sql : List Char) :
    (maskFrom m g sql).head? = sql.head? ∨
      (maskFrom m g sql).head?.any isPairing = false ∧
        (g = .quoteSecond → m.hides .literal = true) := by
  cases sql with
  | nil => exact Or.inl rfl
  | cons c r =>
    rw [maskFrom_cons]
    by_cases hidden : m.hides (g.read c r.head?).1 = true
    · refine Or.inr ⟨?_, ?_⟩
      · obtain ⟨d, s, hd⟩ := List.exists_cons_of_ne_nil (show_ne_nil m (c, (g.read c r.head?).1))
        have hblank : d ∈ blanks c := by
          rw [← Mask.show_of_hides hidden, hd]
          exact List.mem_cons_self
        rw [hd]
        rcases eq_of_mem_blanks hblank with rfl | rfl <;> rfl
      · rintro rfl
        exact hidden
    · rw [Mask.show_of_visible (by simpa using hidden)]
      exact Or.inl rfl

/-- **The marks of a masked text** are those of the text, with blanks of the
code in the place of its comments. -/
theorem marksFrom_maskFrom (m : Mask) (g : Region) (sql : List Char) :
    marksFrom (g.masked m) (maskFrom m g sql) =
      (marksFrom g sql).flatMap fun x => (m.show x).map (·, x.2.masked) := by
  induction sql generalizing g with
  | nil => rfl
  | cons c r ih =>
    have hmarks : marksFrom g (c :: r) =
        (c, (g.read c r.head?).1) :: marksFrom (g.read c r.head?).2 r := rfl
    rw [maskFrom_cons, hmarks, List.flatMap_cons, ← ih (g.read c r.head?).2]
    by_cases hidden : m.hides (g.read c r.head?).1 = true
    · obtain ⟨hsteady, hrole, hnext⟩ := Region.masked_of_hidden hidden
      have hordinary : ∀ d ∈ blanks c, isOrdinary d = true := fun _ => isOrdinary_of_mem_blanks
      have hshow : m.show (c, (g.read c r.head?).1) = blanks c := Mask.show_of_hides hidden
      have hne : blanks c ≠ [] := hshow ▸ show_ne_nil m _
      rw [hshow, hnext, (Region.keeps_of_ordinary hsteady hne hordinary).marksFrom_append,
        (read_ordinary_text hsteady hordinary).1, hrole]
    · have hshown : m.hides (g.read c r.head?).1 = false := by simpa using hidden
      have hshow : m.show (c, (g.read c r.head?).1) = [c] := Mask.show_of_visible hshown
      have hread : (g.masked m).read c (maskFrom m (g.read c r.head?).2 r).head? =
          ((g.read c r.head?).1.masked, (g.read c r.head?).2.masked m) := by
        -- what follows may have become a blank, which makes no pair with the character
        rcases head?_maskFrom m (g.read c r.head?).2 r with heq | ⟨hblank, hdoubled⟩
        · rw [heq, Region.masked_of_shown hshown]
        · have hsecond : (g.read c r.head?).2 ≠ .quoteSecond := by
            intro hquote
            rw [Region.role_of_quoteSecond hquote, hdoubled hquote] at hshown
            cases hshown
          have halike := Region.read_of_ne_comment (Region.role_ne_comment hshown) hsecond hblank
          rw [← halike] at hshown
          rw [Region.masked_of_shown hshown, halike]
      rw [hshow, List.singleton_append, marksFrom, hread]
      rfl

/-! ## Two masks -/

/-- What two masks hide together: the insides of literals when either does. -/
def Mask.both (m n : Mask) : Mask :=
  if m = .commentsAndLiterals ∨ n = .commentsAndLiterals then .commentsAndLiterals else .comments

/-- A mask shows blanks as they are. -/
theorem flatMap_show_blanks (m : Mask) (c : Char) (r : Role) :
    ((blanks c).map (·, r)).flatMap m.show = blanks c := by
  have hshow : ∀ d ∈ blanks c, m.show (d, r) = [d] := by
    intro d hd
    cases hr : m.hides r with
    | true =>
      rw [Mask.show_of_hides hr]
      rcases eq_of_mem_blanks hd with rfl | rfl <;> rfl
    | false => exact Mask.show_of_visible hr
  rw [List.flatMap_map, List.flatMap_congr hshow, List.flatMap_singleton']

/-- A second mask hides what it would have hidden at once. -/
theorem show_masked (m n : Mask) (x : Char × Role) :
    ((n.show x).map (·, x.2.masked)).flatMap m.show = (m.both n).show x := by
  by_cases hidden : n.hides x.2 = true
  · have hboth : (m.both n).hides x.2 = true := by
      revert hidden
      cases m <;> cases n <;> cases x.2 <;> decide
    rw [Mask.show_of_hides hidden, Mask.show_of_hides hboth, flatMap_show_blanks]
  · have hboth : (m.both n).hides x.2 = m.hides x.2.masked := by
      revert hidden
      cases m <;> cases n <;> cases x.2 <;> decide
    rw [Mask.show_of_visible (by simpa using hidden)]
    rw [List.map_singleton, List.flatMap_singleton, Mask.show, Mask.show, hboth]

/-- **A mask of a masked text** hides what the two masks hide. -/
theorem mask_mask (m n : Mask) (sql : List Char) : mask m (mask n sql) = mask (m.both n) sql := by
  have hmarks : marksFrom .code (maskFrom n .code sql) = _ := marksFrom_maskFrom n .code sql
  rw [mask, mask, maskFrom, hmarks, List.flatMap_assoc]
  exact List.flatMap_congr fun x _ => show_masked m n x

/-- **What is read of a masked statement.**  A mask of a masked statement is one
mask, that of literals when either was; so a mask changes nothing a second time, and
neither the placeholders of a statement nor the lexemes on which its structure
is judged change when its comments are masked beforehand. -/
theorem mask_absorbs (sql : List Char) :
    (∀ m n, mask m (mask n sql) = mask (m.both n) sql) ∧
      (∀ m, mask m (mask m sql) = mask m sql) ∧
      Placeholder.scan (maskComments sql) = Placeholder.scan sql ∧
      Review.structuralLexemes (maskComments sql) = Review.structuralLexemes sql := by
  have hcomments : maskComments (maskComments sql) = maskComments sql :=
    mask_mask .comments .comments sql
  have hliterals : maskLiterals (maskComments sql) = maskLiterals sql :=
    mask_mask .commentsAndLiterals .comments sql
  refine ⟨fun m n => mask_mask m n sql, fun m => ?_, ?_, ?_⟩
  · rw [mask_mask]
    cases m <;> rfl
  · rw [Placeholder.scan, hcomments, Placeholder.scan]
  · rw [Review.structuralLexemes, hliterals, Review.structuralLexemes]

end DealSql.Statement
