import DealSql.Proofs.TemplateMarks
import DealSql.Proofs.WholeTexts

/-!
# Transparent texts

A text is transparent when it can stand anywhere, in the code, in a literal
or in a name, and what follows is read as if it were not there: the region
is kept, and so are the open parentheses and the open name of the masked
text.  A placeholder is transparent, and so is its value unless it quotes
strings.

* `Transparent.append` — transparent texts side by side.
* `transparent_of_whole` — a whole text without quotes and closing brackets
  in which the parentheses match.
-/

namespace DealSql.Statement

open DealSql.Text

variable {g : Region} {n : Nesting} {s : List Char}

/-! ## Nestings -/

/-- Only a double quote or a bracket closes a name. -/
def Nesting.Proper (n : Nesting) : Prop := n.name = none ∨ n.name = some '"' ∨ n.name = some ']'

/-- No name but one between double quotes or brackets is ever opened. -/
theorem Nesting.Proper.step (h : n.Proper) (c : Char) : (n.step true c).Proper := by
  obtain ⟨depth, name⟩ := n
  unfold Nesting.step
  split
  · next stop hname =>
    split
    · exact Or.inl rfl
    · exact h
  · split
    · next stop hstop =>
      rw [if_pos rfl] at hstop
      rcases closing?_eq_some hstop with ⟨-, rfl⟩ | ⟨-, rfl⟩
      · exact Or.inr (Or.inl rfl)
      · exact Or.inr (Or.inr rfl)
    · exact Or.inl rfl

theorem Nesting.Proper.after (h : n.Proper) (s : List Char) : (n.after true s).Proper := by
  induction s generalizing n with
  | nil => exact h
  | cons c r ih => exact ih (h.step c)

/-- A text that closes no name leaves an open one open. -/
theorem Nesting.after_of_open {stop : Char} (hname : n.name = some stop)
    (h : ∀ c ∈ s, c ≠ stop) : n.after true s = n := by
  obtain ⟨depth, name⟩ := n
  subst hname
  exact Nesting.after_of_ne_stop h

/-- Blanks leave a proper nesting as it is. -/
theorem Nesting.after_of_isBlank (hn : n.Proper) (h : ∀ c ∈ s, isBlank c = true) :
    n.after true s = n := by
  have hne : ∀ stop, stop = '"' ∨ stop = ']' → ∀ c ∈ s, c ≠ stop := by
    intro stop hstop c hc
    rcases hstop with rfl | rfl
    · exact ne_of_test (h c hc) (by decide)
    · exact ne_of_test (h c hc) (by decide)
  rcases hn with hn | hn | hn
  · induction s with
    | nil => rfl
    | cons c r ih =>
      rw [Nesting.after_cons, Nesting.step_of_isBlank hn (h c List.mem_cons_self)]
      exact ih (fun d hd => h d (List.mem_cons_of_mem _ hd))
        fun stop hstop d hd => hne stop hstop d (List.mem_cons_of_mem _ hd)
  · exact Nesting.after_of_open hn (hne _ (Or.inl rfl))
  · exact Nesting.after_of_open hn (hne _ (Or.inr rfl))

/-- Which name is open does not depend on the parentheses. -/
theorem Nesting.step_name_eq {m : Nesting} (h : n.name = m.name) (c : Char) :
    (n.step true c).name = (m.step true c).name := by
  unfold Nesting.step
  rw [← h]
  split
  · split
    · rfl
    · next hname _ => rw [hname, ← h, hname]
  · split <;> rfl

theorem Nesting.after_name_eq {m : Nesting} (h : n.name = m.name) (s : List Char) :
    (n.after true s).name = (m.after true s).name := by
  induction s generalizing n m with
  | nil => exact h
  | cons c r ih => exact ih (Nesting.step_name_eq h c)

/-- Without parentheses the depth stays the same. -/
theorem Nesting.after_depth_eq (h : ∀ c ∈ s, c ≠ '(' ∧ c ≠ ')') :
    (n.after true s).depth = n.depth := by
  induction s generalizing n with
  | nil => rfl
  | cons c r ih =>
    have hstep : (n.step true c).depth = n.depth := by
      obtain ⟨hopen, hclose⟩ := h c List.mem_cons_self
      unfold Nesting.step
      rw [if_neg hopen, if_neg hclose]
      split
      · split <;> rfl
      · split <;> rfl
    rw [Nesting.after_cons, ih fun d hd => h d (List.mem_cons_of_mem _ hd), hstep]

/-- Parentheses match in a text, which leaves no name open. -/
def Balanced (s : List Char) : Prop := ∀ depth, Nesting.after true ⟨depth, none⟩ s = ⟨depth, none⟩

theorem balanced_nil : Balanced [] := fun _ => rfl

theorem Balanced.append {a b : List Char} (ha : Balanced a) (hb : Balanced b) :
    Balanced (a ++ b) := fun depth => by rw [Nesting.after_append, ha, hb]

/-- Without parentheses and names nothing is left open. -/
theorem balanced_of_plain (h : ∀ c ∈ s, closing? c = none ∧ c ≠ '(' ∧ c ≠ ')') :
    Balanced s := by
  induction s with
  | nil => exact balanced_nil
  | cons c r ih =>
    intro depth
    obtain ⟨hclosing, hopen, hclose⟩ := h c List.mem_cons_self
    rw [Nesting.after_cons, Nesting.step_of_plain rfl hclosing hopen hclose]
    exact ih (fun d hd => h d (List.mem_cons_of_mem _ hd)) depth

/-- What is balanced is so between parentheses. -/
theorem Balanced.paren (h : Balanced s) : Balanced ('(' :: s ++ [')']) := by
  intro depth
  have hopen : Nesting.step true ⟨depth, none⟩ '(' = ⟨depth + 1, none⟩ := rfl
  have hclose : Nesting.step true ⟨depth + 1, none⟩ ')' = ⟨depth, none⟩ := rfl
  rw [List.cons_append, Nesting.after_cons, hopen, Nesting.after_append, h, Nesting.after_cons,
    hclose]
  rfl

/-! ## Texts without quotes -/

/-- Without single quotes a literal goes on. -/
theorem read_in_literal (h : ∀ c ∈ s, c ≠ '\'') :
    marksFrom .literal s = s.map (·, .literal) ∧ Region.after none .literal s = .literal := by
  refine Region.read_staying fun c hc ahead => ?_
  rw [Region.read, if_neg (h c hc)]
  rfl

/-- Without double quotes a name goes on. -/
theorem read_in_name (h : ∀ c ∈ s, c ≠ '"') :
    marksFrom .name s = s.map (·, .name) ∧ Region.after none .name s = .name := by
  refine Region.read_staying fun c hc ahead => ?_
  rw [Region.read, if_neg (h c hc)]
  rfl

/-- What is masked in a literal is blank. -/
theorem isBlank_of_mem_masked (h : ∀ c ∈ s, c ≠ '\'') :
    ∀ c ∈ maskFrom .commentsAndLiterals .literal s, isBlank c = true := by
  intro c hc
  rw [maskFrom, (read_in_literal h).1] at hc
  obtain ⟨y, hy, hcy⟩ := List.mem_flatMap.1 hc
  obtain ⟨b, -, rfl⟩ := List.mem_map.1 hy
  exact isBlank_of_mem_blanks hcy

/-- Nothing is masked in a name. -/
theorem maskFrom_in_name (h : ∀ c ∈ s, c ≠ '"') : maskFrom .commentsAndLiterals .name s = s := by
  have hvisible : ∀ y ∈ marksFrom .name s, Mask.commentsAndLiterals.hides y.2 = false := by
    intro y hy
    rw [(read_in_name h).1] at hy
    obtain ⟨b, -, rfl⟩ := List.mem_map.1 hy
    rfl
  rw [maskFrom, flatMap_show_of_visible _ hvisible, marksFrom_text]

/-- Without single quotes no literal begins. -/
theorem not_literal_of_ne_quote (hg : g ≠ .literal ∧ g ≠ .quoteSecond) (h : ∀ c ∈ s, c ≠ '\'') :
    ∀ y ∈ marksFrom g s, y.2 ≠ .literal := by
  induction s generalizing g with
  | nil => simp [marksFrom]
  | cons c r ih =>
    have hc : c ≠ '\'' := h c List.mem_cons_self
    have hread : (g.read c r.head?).1 ≠ .literal ∧
        (g.read c r.head?).2 ≠ .literal ∧ (g.read c r.head?).2 ≠ .quoteSecond := by
      obtain ⟨hliteral, hsecond⟩ := hg
      cases g <;> simp only [Region.read] <;> grind
    intro y hy
    rw [marksFrom] at hy
    rcases List.mem_cons.1 hy with rfl | hy
    · exact hread.1
    · exact ih hread.2 (fun d hd => h d (List.mem_cons_of_mem _ hd)) y hy

/-- A whole text without literals is not masked in the code. -/
theorem Whole.maskLiterals_eq (h : Whole s) (hquote : ∀ c ∈ s, c ≠ '\'') :
    maskFrom .commentsAndLiterals .code s = s := by
  have hliteral := not_literal_of_ne_quote (g := .code) (by decide) hquote
  have hshown : (marksFrom .code s).flatMap Mask.commentsAndLiterals.show =
      (marksFrom .code s).map Prod.fst := by
    refine flatMap_show_of_visible _ fun y hy => ?_
    have hcomment := h.visible y hy
    have hnot := hliteral y hy
    cases hrole : y.2 with
    | comment => exact absurd hrole hcomment
    | literal => exact absurd hrole hnot
    | _ => rfl
  rw [maskFrom, hshown, marksFrom_text]

/-! ## Plain characters -/

/-- A character that opens and closes nothing. -/
def IsPlain (c : Char) : Prop :=
  (c ≠ '\'' ∧ c ≠ '"' ∧ c ≠ ']') ∧ closing? c = none ∧ c ≠ '(' ∧ c ≠ ')'

instance (c : Char) : Decidable (IsPlain c) := inferInstanceAs (Decidable (_ ∧ _))

theorem isPlain_of_isDigit {c : Char} (h : c.isDigit = true) : IsPlain c := by
  have hne : ∀ e, e.isDigit = false → c ≠ e := fun _ he => ne_of_test h he
  have hclosing : closing? c = none := closing?_of_test h (by decide)
  exact ⟨⟨hne _ rfl, hne _ rfl, hne _ rfl⟩, hclosing, hne _ rfl, hne _ rfl⟩

/-- The characters of an integer open and close nothing. -/
theorem isPlain_of_mem_integer {n : Int} {c : Char} (hc : c ∈ integer n) : IsPlain c := by
  unfold integer at hc
  split at hc
  · rcases List.mem_cons.1 hc with rfl | hc
    · decide
    · exact isPlain_of_isDigit (isDigit_of_mem_natural hc)
  · exact isPlain_of_isDigit (isDigit_of_mem_natural hc)

end DealSql.Statement

namespace DealSql.Placeholder

open DealSql.Text DealSql.Statement

/-! ## Transparent texts -/

/-- A place that is not in the middle of a mark. -/
structure Place.Steady (a : Place) : Prop where
  region : a.region.Steady
  nesting : a.nesting.Proper

/-- A text that leaves every place as it found it. -/
structure Transparent (v : List Char) : Prop where
  keeps : ∀ g : Region, g.Steady → g.Keeps v
  nesting : ∀ a : Place, a.Steady →
    a.nesting.after true (maskFrom .commentsAndLiterals a.region v) = a.nesting

/-- Transparent texts side by side are transparent. -/
theorem Transparent.append {a b : List Char} (ha : Transparent a) (hb : Transparent b) :
    Transparent (a ++ b) := by
  refine ⟨fun g hg => ?_, fun x hx => ?_⟩
  · have hka := ha.keeps g hg
    have hkb := hb.keeps g hg
    obtain ⟨c, r, rfl⟩ := List.exists_cons_of_ne_nil hka.nonempty
    obtain ⟨d, t, rfl⟩ := List.exists_cons_of_ne_nil hkb.nonempty
    refine ⟨by simp, hka.begins, ?_, ?_⟩
    · simpa [List.getLast?_append, List.getLast?_cons] using hkb.ends
    · rw [Region.after_append, hka.after_eq, hkb.returns]
  · have hmask : maskFrom .commentsAndLiterals x.region (a ++ b) =
        maskFrom .commentsAndLiterals x.region a ++ maskFrom .commentsAndLiterals x.region b := by
      rw [maskFrom, (ha.keeps _ hx.region).marksFrom_append, List.flatMap_append]
      rfl
    rw [hmask, Nesting.after_append, ha.nesting x hx, hb.nesting x hx]

/-- **A whole text** without quotes and closing brackets, in which the
parentheses match, is transparent. -/
theorem transparent_of_whole {v : List Char} (h : Whole v) (hne : v ≠ [])
    (hbegins : v.head?.any isPairing = false) (hends : v.getLast?.any isPairing = false)
    (hmarks : ∀ c ∈ v, c ≠ '\'' ∧ c ≠ '"' ∧ c ≠ ']') (hbalanced : Balanced v) :
    Transparent v := by
  have hquote : ∀ c ∈ v, c ≠ '\'' := fun c hc => (hmarks c hc).1
  have hname : ∀ c ∈ v, c ≠ '"' := fun c hc => (hmarks c hc).2.1
  refine ⟨?_, ?_⟩
  · intro g hg
    rcases hg with rfl | rfl | rfl
    · exact h.keeps hne hbegins hends
    · exact ⟨hne, hbegins, hends, (read_in_literal hquote).2⟩
    · exact ⟨hne, hbegins, hends, (read_in_name hname).2⟩
  · -- masked, the text is itself or blank
    have hself : ∀ n : Nesting, n.Proper → n.after true v = n := by
      intro n hn
      rcases hn with hn | hn | hn
      · obtain ⟨depth, name⟩ := n
        subst hn
        exact hbalanced depth
      · exact Nesting.after_of_open hn hname
      · exact Nesting.after_of_open hn fun c hc => (hmarks c hc).2.2
    intro a ha
    obtain ⟨g, n⟩ := a
    obtain ⟨hg, hn⟩ := ha
    rcases hg with rfl | rfl | rfl
    · show n.after true (maskFrom _ .code v) = n
      rw [h.maskLiterals_eq hquote]
      exact hself n hn
    · exact Nesting.after_of_isBlank hn (isBlank_of_mem_masked hquote)
    · show n.after true (maskFrom _ .name v) = n
      rw [maskFrom_in_name hname]
      exact hself n hn

/-- A placeholder is whole. -/
theorem whole_display (p : Placeholder) : Whole p.display := by
  have hinert : ∀ q ∈ all, ∀ c ∈ q.display, isInert c = true := by decide
  exact (whole_of_inert (hinert p (mem_all p))).1

/-- A whole text of plain characters is transparent. -/
theorem transparent_of_plain {v : List Char} (h : Whole v) (hne : v ≠ [])
    (hbegins : v.head?.any isPairing = false) (hends : v.getLast?.any isPairing = false)
    (hplain : ∀ c ∈ v, IsPlain c) : Transparent v :=
  transparent_of_whole h hne hbegins hends (fun c hc => (hplain c hc).1)
    (balanced_of_plain fun c hc => (hplain c hc).2)

/-- A placeholder is transparent. -/
theorem transparent_display (p : Placeholder) : Transparent p.display := by
  have hkeeps : Region.code.Keeps p.display := keeps_display (Or.inl rfl) p
  have hplain : ∀ q ∈ all, ∀ c ∈ q.display, IsPlain c := by decide
  exact transparent_of_plain (whole_display p) hkeeps.nonempty hkeeps.begins hkeeps.ends
    (hplain p (mem_all p))

end DealSql.Placeholder
