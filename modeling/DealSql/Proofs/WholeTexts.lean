import DealSql.Dialect
import DealSql.Proofs.Numerals
import DealSql.Proofs.Regions

/-!
# Whole texts

A text is whole when, read by itself as code, it ends as code and opens no
comment.  Whole texts may be set side by side wherever no pair arises at
the seam, and the marks of the two are then those of each.  Quoting makes
any text whole, whatever it holds.

* `Whole.append` — whole texts side by side.
* `whole_quoteName`, `whole_quoteString` — quoted texts are whole.
-/

namespace DealSql.Statement

open DealSql.Text

/-- A text that, read by itself as code, ends as code and opens no comment. -/
structure Whole (s : List Char) : Prop where
  returns : Region.after none .code s = .code
  visible : ∀ x ∈ marksFrom .code s, x.2 ≠ .comment

/-- No pair arises where two texts meet. -/
def Seam (a b : List Char) : Prop :=
  a.getLast?.any isPairing = false ∨ b.head?.any isPairing = false

variable {a b s : List Char} {c : Char}

/-- Where no pair arises a text is read as if it stood alone. -/
theorem Seam.read_eq (h : Seam a b) (g : Region) :
    marksUpTo b.head? g a = marksFrom g a ∧ g.after b.head? a = g.after none a := by
  have hnone : (none : Option Char).any isPairing = false := rfl
  have halike := read_alike g a (h.imp_right fun hb => ⟨hb, hnone⟩)
  rw [marksUpTo_none] at halike
  exact halike

/-- A text that ends as code leaves what follows to be read by itself. -/
theorem Seam.of_returns (h : Seam a b) (ha : Region.after none .code a = .code) :
    marksFrom .code (a ++ b) = marksFrom .code a ++ marksFrom .code b ∧
      Region.after none .code (a ++ b) = Region.after none .code b := by
  obtain ⟨hmarks, hafter⟩ := h.read_eq .code
  constructor
  · rw [marksFrom_append, hmarks, hafter, ha]
  · rw [Region.after_append, Option.or_none, hafter, ha]

/-- The marks of whole texts side by side are those of each. -/
theorem Whole.marks_append (ha : Whole a) (h : Seam a b) :
    marksFrom .code (a ++ b) = marksFrom .code a ++ marksFrom .code b :=
  (h.of_returns ha.returns).1

/-- **Whole texts side by side** are whole. -/
theorem Whole.append (ha : Whole a) (hb : Whole b) (h : Seam a b) : Whole (a ++ b) := by
  constructor
  · rw [(h.of_returns ha.returns).2, hb.returns]
  · intro x hx
    rw [ha.marks_append h] at hx
    rcases List.mem_append.1 hx with hx | hx
    · exact ha.visible x hx
    · exact hb.visible x hx

theorem whole_nil : Whole [] := ⟨rfl, by simp [marksFrom]⟩

/-- A whole text with no pairing at its ends can stand anywhere in the code. -/
theorem Whole.keeps (h : Whole s) (hne : s ≠ []) (hbegins : s.head?.any isPairing = false)
    (hends : s.getLast?.any isPairing = false) : Region.Keeps .code s :=
  ⟨hne, hbegins, hends, h.returns⟩

/-- A whole text is its own mask. -/
theorem Whole.maskComments_eq (h : Whole s) : maskComments s = s := by
  have hshown := flatMap_show_of_not_comment (marksFrom .code s) h.visible
  rw [marksFrom_text] at hshown
  exact hshown

/-! ## Plain texts -/

/-- Whether a character of code begins nothing. -/
def isInert (c : Char) : Bool := c != '-' && c != '/' && c != '\'' && c != '"'

/-- A character that begins nothing stays in the code. -/
theorem read_inert {ahead : Option Char} (hc : isInert c = true) :
    Region.read c ahead .code = (.code, .code) := by
  simp only [isInert, Bool.and_eq_true, bne_iff_ne, ne_eq] at hc
  obtain ⟨⟨⟨hdash, hslash⟩, hquote⟩, hname⟩ := hc
  simp [Region.read, hdash, hslash, hquote, hname]

/-- A text in which nothing begins is code, and whole. -/
theorem whole_of_inert (h : ∀ c ∈ s, isInert c = true) :
    Whole s ∧ marksFrom .code s = s.map (·, .code) := by
  obtain ⟨hmarks, hafter⟩ := Region.read_staying (g := .code) fun c hc _ => read_inert (h c hc)
  have hcode : marksFrom .code s = s.map (·, .code) := hmarks
  refine ⟨⟨hafter, ?_⟩, hcode⟩
  rw [hcode]
  simp

/-! ## Quoted texts -/

theorem double_cons (stop c : Char) (r : List Char) :
    double stop (c :: r) = (if c = stop then [c, c] else [c]) ++ double stop r := by
  simp [double]

/-- Doubling adds no other characters, and takes none away. -/
theorem mem_double_iff {stop c : Char} {s : List Char} : c ∈ double stop s ↔ c ∈ s := by
  induction s with
  | nil => rfl
  | cons d r ih =>
    rw [double_cons, List.mem_append, List.mem_cons, ih]
    split <;> simp

/-- Doubled quotes do not end a name, in which nothing begins. -/
theorem after_double_name (ahead : Option Char) (s : List Char) :
    Region.after ahead .name (double '"' s) = .name ∧
      ∀ x ∈ marksUpTo ahead .name (double '"' s), x.2 ≠ .comment ∧ x.2 ≠ .literal := by
  induction s with
  | nil => exact ⟨rfl, by simp [double]⟩
  | cons c r ih =>
    rw [double_cons]
    by_cases hc : c = '"'
    · subst hc
      simpa [Region.after, marksUpTo, Region.read] using ih
    · simpa [Region.after, marksUpTo, Region.read, hc] using ih

/-- Doubled quotes do not end a literal, all of which is literal. -/
theorem after_double_literal (ahead : Option Char) (s : List Char) :
    Region.after ahead .literal (double '\'' s) = .literal ∧
      marksUpTo ahead .literal (double '\'' s) = (double '\'' s).map (·, .literal) := by
  induction s with
  | nil => exact ⟨rfl, rfl⟩
  | cons c r ih =>
    rw [double_cons]
    by_cases hc : c = '\''
    · subst hc
      simpa [Region.after, marksUpTo, Region.read] using ih
    · simpa [Region.after, marksUpTo, Region.read, hc] using ih

/-- A name between double quotes holds neither comments nor literals. -/
theorem marks_quoteName (s : List Char) :
    ∀ x ∈ marksFrom .code (quoteWith '"' '"' s), x.2 ≠ .comment ∧ x.2 ≠ .literal := by
  obtain ⟨hafter, hvisible⟩ := after_double_name (some '"') s
  have hclose : marksFrom .name ['"'] = [('"', .code)] := rfl
  have hopen : marksFrom .code ('"' :: (double '"' s ++ ['"'])) =
      ('"', .code) :: marksFrom .name (double '"' s ++ ['"']) := rfl
  intro x hx
  rw [quoteWith, List.cons_append, hopen, marksFrom_append, List.head?_cons, hafter,
    hclose] at hx
  simp only [List.mem_cons, List.mem_append, List.not_mem_nil, or_false] at hx
  rcases hx with rfl | hx | rfl
  · decide
  · exact hvisible x hx
  · decide

/-- A name between double quotes is whole. -/
theorem whole_quoteName (s : List Char) : Whole (quoteWith '"' '"' s) := by
  constructor
  · rw [quoteWith, List.cons_append, Region.after, Region.after_append]
    simp [Region.read, after_double_name, Region.after]
  · exact fun x hx => (marks_quoteName s x hx).1

/-- The marks of a literal: its quotes are code. -/
theorem marks_quoteLiteral (s : List Char) : marksFrom .code (quoteWith '\'' '\'' s) =
    ('\'', .code) :: (double '\'' s).map (·, .literal) ++ [('\'', .code)] := by
  obtain ⟨hafter, hmarks⟩ := after_double_literal (some '\'') s
  have hclose : marksFrom .literal ['\''] = [('\'', .code)] := rfl
  have hopen : marksFrom .code ('\'' :: (double '\'' s ++ ['\''])) =
      ('\'', .code) :: marksFrom .literal (double '\'' s ++ ['\'']) := rfl
  rw [quoteWith, List.cons_append, hopen, marksFrom_append, List.head?_cons, hmarks, hafter, hclose]
  simp

/-- A literal is whole. -/
theorem whole_quoteLiteral (s : List Char) : Whole (quoteWith '\'' '\'' s) := by
  constructor
  · rw [quoteWith, List.cons_append, Region.after, Region.after_append]
    simp [Region.read, (after_double_literal (some '\'') s).1, Region.after]
  · intro x hx
    rw [marks_quoteLiteral] at hx
    simp at hx
    rcases hx with rfl | ⟨c, -, rfl⟩ | rfl <;> simp

/-- A string of any dialect is whole. -/
theorem whole_quoteString (d : Dialect) (s : List Char) : Whole (d.quoteString s) := by
  unfold Dialect.quoteString
  split
  · refine Whole.append (a := ['N']) (whole_of_inert (by decide)).1 (whole_quoteLiteral s) ?_
    exact Or.inl rfl
  · exact whole_quoteLiteral s

/-! ## Numbers -/

/-- A digit is inert. -/
theorem isInert_of_isDigit (h : c.isDigit = true) : isInert c = true := by
  have hne : c ≠ '-' ∧ c ≠ '/' ∧ c ≠ '\'' ∧ c ≠ '"' := by
    refine ⟨?_, ?_, ?_, ?_⟩
    all_goals exact ne_of_test h (by decide)
  simp [isInert, hne]

/-- A digit makes no pair. -/
theorem isPairing_of_isDigit (h : c.isDigit = true) : isPairing c = false := by
  have hne : c ≠ '-' ∧ c ≠ '/' ∧ c ≠ '*' ∧ c ≠ '\'' := by
    refine ⟨?_, ?_, ?_, ?_⟩
    all_goals exact ne_of_test h (by decide)
  simp [isPairing, hne]

/-- No digit of a number makes a pair with what stands next to it. -/
theorem natural_ends (n : Nat) : (natural n).head?.any isPairing = false ∧
    (natural n).getLast?.any isPairing = false := by
  constructor
  · cases hhead : (natural n).head? with
    | none => rfl
    | some c => exact isPairing_of_isDigit (isDigit_of_mem_natural (List.mem_of_head? hhead))
  · cases hlast : (natural n).getLast? with
    | none => rfl
    | some c => exact isPairing_of_isDigit (isDigit_of_mem_natural (List.mem_of_getLast? hlast))

/-- A natural number is whole. -/
theorem whole_natural (n : Nat) : Whole (natural n) :=
  (whole_of_inert fun _ hc => isInert_of_isDigit (isDigit_of_mem_natural hc)).1

/-- An integer is whole. -/
theorem whole_integer (n : Int) : Whole (integer n) := by
  unfold integer
  split
  · have hminus : Whole ['-'] := ⟨rfl, by simp [marksFrom, Region.read]⟩
    exact Whole.append hminus (whole_natural _) (Or.inr (natural_ends _).1)
  · exact whole_natural _

end DealSql.Statement
