import DealSql.Proofs.ExchangedLexemes
import DealSql.Proofs.FilledViews
import DealSql.Proofs.PlaceholderValues
import DealSql.Proofs.SafeFragments

/-!
# The fragments of values

The value of a placeholder is a numeral, or is written from few fragments: a
list in parentheses, or a whole condition in them, with nothing before but the
column that the list is for.  So it begins with a mark or a quoted name, ends
with a parenthesis, and keeps its commas inside.

* `IsValue` — the fragments of a value.
* `isValueText_of_value` — the values of placeholders.
* `IsValue.isInsert`, `IsValue.harmless` — what dialects make of them.
* `IsValue.isFilling` — what their lexemes are.
-/

namespace DealSql

open DealSql.Text DealSql.Statement DealSql.Sql DealSql.Review

variable {d : Dialect} {f : Fragment} {fs gs : List Fragment} {e : Expr} {n : Nat} {l : Lexeme}
  {v : List Char}

/-- An identifier of letters and digits that is no blocked keyword. -/
def IsQuietId (id : String) : Prop :=
  (∀ c ∈ id.toList, c.isAlphanum = true) ∧ blockedKeyword? id.toList = none

instance (id : String) : Decidable (IsQuietId id) := inferInstanceAs (Decidable (_ ∧ _))

/-! ## Fragments -/

namespace Sql.Fragment

/-- Whether values are written with a fragment. -/
def IsOfValue : Fragment → Prop
  | .keyword k => k ∈ [Keyword.AND, .OR, .NOT, .IN, .DISTINCT, .TRUE, .FALSE]
  | .symbol s => s ∈ [Symbol.comma, .dot, .openParen, .closeParen, .eq]
  | .space => True
  | .integer _ => True
  | .identifier s => s ∈ conditionNames
  | .string s => IsQuietId s
  | _ => False

instance (f : Fragment) : Decidable f.IsOfValue :=
  match f with
  | .keyword k => inferInstanceAs (Decidable (k ∈ _))
  | .symbol s => inferInstanceAs (Decidable (s ∈ _))
  | .identifier s => inferInstanceAs (Decidable (s ∈ conditionNames))
  | .string s => inferInstanceAs (Decidable (IsQuietId s))
  | .space | .integer _ => isTrue trivial
  | .newline | .indent _ | .truth _ | .function _ | .comment _ => isFalse id

theorem IsOfValue.simple (h : f.IsOfValue) : f.IsSimple := by
  cases f with
  | symbol s =>
    have hsymbols : ∀ s ∈ [Symbol.comma, .dot, .openParen, .closeParen, .eq],
        (Fragment.symbol s).IsSimple := by decide
    exact hsymbols s h
  | identifier s =>
    have hnames : ∀ s ∈ conditionNames, (Fragment.identifier s).IsSimple := by decide
    exact hnames s h
  | string s => exact h.1
  | keyword k => trivial
  | space => trivial
  | integer n => trivial
  | _ => exact h.elim

/-- No name in a value is a blocked keyword. -/
theorem IsOfValue.blocked (h : f.IsOfValue) : ∀ w ∈ f.names, blockedKeyword? w = none := by
  cases f with
  | identifier s =>
    have hnames : ∀ s ∈ conditionNames, blockedKeyword? s.toList = none := by decide
    simpa [names] using hnames s h
  | string s => simpa [names] using h.2
  | function s => exact h.elim
  | _ => simp [names]

/-- No lexeme of a value is a keyword by which the parts of a statement are
found. -/
theorem IsOfValue.isKeyword (h : f.IsOfValue) (hl : l ∈ f.lexemes d n) :
    l.isKeyword "SELECT" = false ∧ l.isKeyword "FROM" = false := by
  by_cases hstring : ∃ s, f = .string s
  · obtain ⟨s, rfl⟩ := hstring
    simp only [lexemes, List.mem_cons, List.not_mem_nil, or_false, or_self] at hl
    subst hl
    exact ⟨rfl, rfl⟩
  · have hsafe : f.IsSafe := by
      refine ⟨h.simple, fun w hw => ?_, fun k hk => ?_⟩
      · cases f with
        | identifier s =>
          have hnames : ∀ s ∈ conditionNames, isOneOf s.toList reservedWords = false := by decide
          obtain rfl := List.mem_singleton.1 hw
          exact hnames s h
        | string s => exact absurd ⟨s, rfl⟩ hstring
        | function s => exact h.elim
        | _ => cases hw
      · rintro rfl
        have hall : ∀ k ∈ [Keyword.SELECT, .FROM, .JOIN],
            k ∉ [Keyword.AND, .OR, .NOT, .IN, .DISTINCT, .TRUE, .FALSE] := by decide
        exact hall k hk h
    exact ⟨hsafe.isKeyword hl (by decide), hsafe.isKeyword hl (by decide)⟩

/-- The marks with which values are written. -/
def valueMarks : List Char := " ,.()=-'\"[]".toList

/-- The characters of values: those of names, and some marks. -/
theorem IsOfValue.mem_write (h : f.IsOfValue) {c : Char} (hc : c ∈ f.write d) :
    Placeholder.isNameChar c = true ∨ c ∈ valueMarks := by
  cases f with
  | keyword k =>
    have hall : ∀ k ∈ [Keyword.AND, .OR, .NOT, .IN, .DISTINCT, .TRUE, .FALSE],
        ∀ c ∈ k.text.toList, Placeholder.isNameChar c = true ∨ c ∈ valueMarks := by decide
    exact hall k h c hc
  | symbol s =>
    have hall : ∀ s ∈ [Symbol.comma, .dot, .openParen, .closeParen, .eq],
        ∀ c ∈ s.text.toList, Placeholder.isNameChar c = true ∨ c ∈ valueMarks := by decide
    exact hall s h c hc
  | space =>
    obtain rfl := List.mem_singleton.1 hc
    exact Or.inr (by decide)
  | integer n =>
    have hdigits : ∀ c ∈ natural n.natAbs, Placeholder.isNameChar c = true :=
      fun c hc => isNameChar_of_isDigit (isDigit_of_mem_natural hc)
    rw [write, Text.integer] at hc
    split at hc
    · rcases List.mem_cons.1 hc with rfl | hc
      · exact Or.inr (by decide)
      · exact Or.inl (hdigits c hc)
    · exact Or.inl (hdigits c hc)
  | identifier s =>
    have hall : ∀ s ∈ conditionNames, ∀ c ∈ d.quoteIdentifier s.toList,
        Placeholder.isNameChar c = true ∨ c ∈ valueMarks := by
      cases d <;> decide
    exact hall s h c hc
  | string s =>
    rw [write_string h.1] at hc
    simp only [List.cons_append, List.mem_cons, List.mem_append, List.not_mem_nil, or_false] at hc
    rcases hc with rfl | hc | rfl
    · exact Or.inr (by decide)
    · simp [Placeholder.isNameChar, h.1 c hc]
    · exact Or.inr (by decide)
  | _ => exact h.elim

end Sql.Fragment

/-- The fragments of an expression are those of values when its own are and
those of its components. -/
theorem isOfValue_of_components (hown : ∀ f ∈ e.ownFragments, f.IsOfValue)
    (h : ∀ c ∈ e.components, ∀ f ∈ c.fragments, f.IsOfValue) : ∀ f ∈ e.fragments, f.IsOfValue := by
  have hjoining : ∀ f ∈ Expr.joiningFragments, f.IsOfValue := by
    simp [Expr.joiningFragments, Fragment.IsOfValue]
  intro f hf
  rcases Expr.mem_fragments hf with hf | hf | ⟨c, hc, hf⟩
  · exact hjoining f hf
  · exact hown f hf
  · exact h c hc f hf

theorem isOfValue_column {table name : String} (htable : table ∈ conditionNames)
    (hname : name ∈ conditionNames) : ∀ f ∈ (Expr.ofTable table name).fragments, f.IsOfValue := by
  refine isOfValue_of_components (fun f hf => ?_) (by simp [Expr.ofTable, Expr.components])
  simp only [Expr.ofTable, Expr.ownFragments, Option.toList_some, List.map_cons, List.map_nil,
    List.cons_append, List.nil_append, List.mem_cons, List.not_mem_nil, or_false] at hf
  rcases hf with rfl | rfl
  · exact htable
  · exact hname

theorem isOfValue_literal {v : Literal} (h : v.fragment.IsOfValue) :
    ∀ f ∈ (Expr.literal v).fragments, f.IsOfValue :=
  isOfValue_of_components (by simpa [Expr.ownFragments] using h) (by simp [Expr.components])

theorem isOfValue_int (n : Int) : ∀ f ∈ (Expr.int n).fragments, f.IsOfValue :=
  isOfValue_literal (v := .integer n) trivial

theorem isOfValue_binary {l r : Expr} {op : BinaryOp} (hop : op.fragment.IsOfValue)
    (hl : ∀ f ∈ l.fragments, f.IsOfValue) (hr : ∀ f ∈ r.fragments, f.IsOfValue) :
    ∀ f ∈ (Expr.binary l op r).fragments, f.IsOfValue := by
  refine isOfValue_of_components (by simpa [Expr.ownFragments] using hop) ?_
  simpa [Expr.components] using ⟨hl, hr⟩

theorem isOfValue_isIn {e : Expr} {values : List Expr} (he : ∀ f ∈ e.fragments, f.IsOfValue)
    (hvalues : ∀ v ∈ values, ∀ f ∈ v.fragments, f.IsOfValue) :
    ∀ f ∈ (e.isIn values).fragments, f.IsOfValue :=
  isOfValue_of_components (by simp [Expr.isIn, Expr.ownFragments])
    (List.forall_mem_cons.2 ⟨he, hvalues⟩)

theorem isOfValue_paren {e : Expr} (he : ∀ f ∈ e.fragments, f.IsOfValue) :
    ∀ f ∈ (Expr.paren e).fragments, f.IsOfValue :=
  isOfValue_of_components (by simp [Expr.ownFragments]) (by simpa [Expr.components] using he)

theorem isOfValue_dealCondition (ns : List Int) :
    ∀ f ∈ (dealCondition ns).fragments, f.IsOfValue := by
  refine isOfValue_isIn (isOfValue_column (by decide) (by decide)) ?_
  rw [List.forall_mem_map]
  exact fun n _ => isOfValue_int n

/-- The condition of a selection names its tranches. -/
theorem isOfValue_condition {s : DealSelection} (hids : ∀ i ∈ s.tranches, IsQuietId i) :
    ∀ f ∈ s.condition.fragments, f.IsOfValue := by
  have heq : BinaryOp.eq.fragment.IsOfValue := by decide
  have hdeal : ∀ f ∈ (Columns.dealNumber.equals (.int s.dealNumber)).fragments, f.IsOfValue :=
    isOfValue_binary heq (isOfValue_column (by decide) (by decide)) (isOfValue_int _)
  refine isOfValue_paren ?_
  split
  · exact hdeal
  · refine isOfValue_binary (by decide) hdeal (isOfValue_isIn ?_ ?_)
    · exact isOfValue_column (by decide) (by decide)
    · rw [List.forall_mem_map]
      exact fun i hi => isOfValue_literal (hids i hi)

/-- The condition on selections names their tranches. -/
theorem isOfValue_selectionCondition {deals : List DealSelection}
    (hids : ∀ s ∈ deals, ∀ i ∈ s.tranches, IsQuietId i) :
    ∀ f ∈ (selectionCondition deals).fragments, f.IsOfValue := by
  have hor : ∀ (ts : List Expr) (t : Expr), (∀ f ∈ t.fragments, f.IsOfValue) →
      (∀ u ∈ ts, ∀ f ∈ u.fragments, f.IsOfValue) →
      ∀ f ∈ (ts.foldl Expr.or t).fragments, f.IsOfValue := by
    intro ts
    induction ts with
    | nil => exact fun t ht _ => ht
    | cons u ts ih =>
      intro t ht hts
      obtain ⟨hu, hts⟩ := List.forall_mem_cons.1 hts
      exact ih (t.or u) (isOfValue_binary (by decide) ht hu) hts
  refine isOfValue_paren ?_
  cases deals with
  | nil => exact isOfValue_dealCondition []
  | cons s ss =>
    obtain ⟨hs, hss⟩ := List.forall_mem_cons.1 hids
    refine hor _ _ (isOfValue_condition hs) ?_
    rw [List.forall_mem_map]
    exact fun u hu => isOfValue_condition (hss u hu)

/-! ## Levels -/

/-- Fragments that leave the depth as it was and never fall below it. -/
def IsLevel (fs : List Fragment) : Prop :=
  ∀ (d : Dialect) (n : Nat), depthAfter n fs = n ∧ ∀ l ∈ lexemesOf d n fs, n ≤ l.depth

theorem depthAfter_paren (n : Nat) (fs : List Fragment) :
    depthAfter n (.symbol .openParen :: fs ++ [.symbol .closeParen]) =
      depthAfter (n + 1) fs - 1 := by
  rw [depthAfter_append]
  rfl

theorem lexemesOf_paren (d : Dialect) (n : Nat) (fs : List Fragment) :
    lexemesOf d n (.symbol .openParen :: fs ++ [.symbol .closeParen]) =
      ⟨.punct '(', 0, n⟩ :: lexemesOf d (n + 1) fs ++
        [⟨.punct ')', 0, depthAfter (n + 1) fs - 1⟩] := by
  rw [lexemesOf_append]
  rfl

/-- Level fragments side by side are level. -/
theorem IsLevel.append (hf : IsLevel fs) (hg : IsLevel gs) : IsLevel (fs ++ gs) := by
  intro d n
  obtain ⟨hafter, hlevel⟩ := hf d n
  refine ⟨by rw [depthAfter_append, hafter, (hg d n).1], fun l hl => ?_⟩
  rw [lexemesOf_append, hafter, List.mem_append] at hl
  exact hl.elim (hlevel l) ((hg d n).2 l)

/-- Level fragments are level between parentheses. -/
theorem IsLevel.paren (h : IsLevel fs) :
    IsLevel (.symbol .openParen :: fs ++ [.symbol .closeParen]) := by
  intro d n
  obtain ⟨hafter, hlevel⟩ := h d (n + 1)
  rw [depthAfter_paren, lexemesOf_paren, hafter]
  refine ⟨rfl, fun l hl => ?_⟩
  rw [List.mem_append, List.mem_cons, List.mem_singleton, or_assoc] at hl
  rcases hl with rfl | hl | rfl
  · exact Nat.le_refl n
  · exact Nat.le_of_succ_le (hlevel l hl)
  · exact Nat.le_refl n

/-- Level fragments may be put together. -/
theorem compositional_isLevel : Compositional (fun _ _ => True) fun fs _ => IsLevel fs where
  nil d n := ⟨rfl, by simp [lexemesOf]⟩
  append hf hg := hf.append hg
  paren h := h.paren
  fixed := by
    intro f hf d n
    rw [lexemesOf, lexemesOf, List.append_nil]
    cases f with
    | keyword k => cases k <;> simp [depthAfter, Fragment.depthAfter, Fragment.lexemes]
    | symbol s =>
      cases s <;> simp_all [depthAfter, Fragment.depthAfter, Fragment.lexemes, Fragment.IsFixed,
        Symbol.text]
    | space => simp [depthAfter, Fragment.depthAfter, Fragment.lexemes]
    | identifier s => simp [depthAfter, Fragment.depthAfter, Fragment.lexemes]
    | integer i =>
      refine ⟨rfl, fun l hl => ?_⟩
      rw [Fragment.lexemes] at hl
      split at hl <;> grind
    | _ => exact hf.elim
  string _ d n := ⟨rfl, by simp [lexemesOf, Fragment.lexemes]⟩

/-! ## Values -/

/-- How a condition on deals begins. -/
def membershipOfDeals : List Fragment :=
  Columns.dealNumber.fragments ++ [.space, .keyword .IN, .space]

/-- The fragments of a value: a list or a condition in parentheses, with nothing
before or with the column that the list is for. -/
structure IsValue (fs : List Fragment) : Prop where
  parts : ∀ f ∈ fs, f.IsOfValue
  fitting : Fitting fs
  shape : ∃ front inner, (front = [] ∨ front = membershipOfDeals) ∧ IsLevel inner ∧
    fs = front ++ (.symbol .openParen :: inner ++ [.symbol .closeParen])

/-- Lists of integers are level. -/
theorem isLevel_numbers (ns : List Int) :
    IsLevel (commaSeparated ((ns.map Expr.int).map Expr.fragments)) := by
  have hlevel : List.Forall₂ (fun fs _ : List Fragment => IsLevel fs)
      ((ns.map Expr.int).map Expr.fragments) ((ns.map Expr.int).map Expr.fragments) := by
    rw [List.forall₂_map_left_iff, List.forall₂_map_right_iff]
    exact compositional_isLevel.ints ns
  exact compositional_isLevel.commaSeparated hlevel

theorem isValue_dealCondition {ns : List Int} (hne : ns ≠ []) :
    IsValue (dealCondition ns).fragments where
  parts := isOfValue_dealCondition ns
  fitting := Expr.fitting_fragments _ fun f hf => (isOfValue_dealCondition ns f hf).simple
  shape := by
    refine ⟨membershipOfDeals, _, Or.inr rfl, isLevel_numbers ns, ?_⟩
    rw [dealCondition, isIn_fragments (by simpa using hne)]
    rfl

theorem isValue_selectionCondition {deals : List DealSelection}
    (hids : ∀ s ∈ deals, ∀ i ∈ s.tranches, IsQuietId i) :
    IsValue (selectionCondition deals).fragments where
  parts := isOfValue_selectionCondition hids
  fitting := Expr.fitting_fragments _ fun f hf => (isOfValue_selectionCondition hids f hf).simple
  shape := by
    have hcondition : ∀ s : DealSelection, IsLevel s.condition.fragments := by
      intro s
      have hsame : s.Related (fun _ _ => True) s := by
        refine ⟨rfl, ?_⟩
        rw [List.forall₂_same]
        exact fun _ _ => trivial
      exact compositional_isLevel.condition hsame
    refine ⟨[], _, Or.inl rfl, ?_, by rw [selectionCondition, Expr.fragments, List.nil_append]⟩
    cases deals with
    | nil => exact compositional_isLevel.dealCondition []
    | cons s ss =>
      have hconditions : List.Forall₂ (fun u _ : Expr => IsLevel u.fragments)
          (ss.map DealSelection.condition) (ss.map DealSelection.condition) := by
        rw [List.forall₂_map_left_iff, List.forall₂_map_right_iff, List.forall₂_same]
        exact fun u _ => hcondition u
      exact @Compositional.foldl_or _ _ compositional_isLevel s.condition s.condition _ _
        (hcondition s) hconditions

theorem isValue_numbers {ns : List Int} (hne : ns ≠ []) :
    IsValue (parenthesized ((ns.map Expr.int).map Expr.fragments)) where
  parts := by
    intro f hf
    refine isOfValue_dealCondition ns f ?_
    rw [dealCondition, isIn_fragments (by simpa using hne)]
    exact List.mem_append_right _ hf
  fitting := by
    refine Fitting.paren (fitting_commaSeparated ?_)
    rw [List.forall_mem_map, List.forall_mem_map]
    intro n _
    exact Expr.fitting_fragments _ fun f hf => (isOfValue_int n f hf).simple
  shape := ⟨[], _, Or.inl rfl, isLevel_numbers ns, rfl⟩

/-! ## What is made of values -/

theorem isLevel_membershipOfDeals : IsLevel membershipOfDeals := by
  have hcolumn : IsLevel Columns.dealNumber.fragments := compositional_isLevel.dealNumber
  have hin : IsLevel [.space, .keyword .IN, .space] := compositional_isLevel.spaced trivial
  exact hcolumn.append hin

namespace IsValue

variable {r : Dialect} {rest : List Char}

/-- A value begins with a mark, that of a quoted name or a parenthesis. -/
theorem begins (h : IsValue fs) (d : Dialect) :
    ∃ b s, write d fs = b :: s ∧ b ∈ ['(', '"', '['] := by
  obtain ⟨front, inner, hfront, -, rfl⟩ := h.shape
  rcases hfront with rfl | rfl
  · exact ⟨'(', _, rfl, by decide⟩
  · cases d <;> exact ⟨_, _, rfl, by decide⟩

/-- A value ends in a parenthesis. -/
theorem ends (h : IsValue fs) (d : Dialect) : ∃ s, write d fs = s ++ [')'] := by
  obtain ⟨front, inner, -, -, rfl⟩ := h.shape
  refine ⟨write d (front ++ .symbol .openParen :: inner), ?_⟩
  rw [← List.append_assoc, write_append]
  rfl

theorem mem_write (h : IsValue fs) {c : Char} (hc : c ∈ write d fs) :
    Placeholder.isNameChar c = true ∨ c ∈ Fragment.valueMarks := by
  obtain ⟨f, hf, hc⟩ := List.mem_flatMap.1 hc
  exact (h.parts f hf).mem_write hc

/-- All dialects read a value as it stands. -/
theorem isInsert (h : IsValue fs) (d : Dialect) : IsInsert (write d fs) where
  begins := by
    obtain ⟨b, s, hwrite, hb⟩ := h.begins d
    have hall : ∀ b ∈ ['(', '"', '['], b ∈ valueStarts := by decide
    exact ⟨b, s, hwrite, hall b hb⟩
  closes := by
    intro c hc
    rcases h.mem_write hc with hname | hmark
    · have hnone : ∀ x ∈ "\\$*/\n".toList, Placeholder.isNameChar x = false := by decide
      rw [closesNothing, Bool.not_eq_true', Bool.eq_false_iff, ne_eq, List.contains_iff_mem]
      intro hmem
      rw [hnone c hmem] at hname
      cases hname
    · have hall : ∀ c ∈ Fragment.valueMarks, closesNothing c = true := by decide
      exact hall c hmark
  reads := by
    intro r rest _
    refine h.fitting.verbatim fun f hf => ?_
    obtain ⟨front, inner, -, -, rfl⟩ := h.shape
    rw [← List.append_assoc, List.getLast?_concat] at hf
    obtain rfl := Option.some.inj hf
    exact Or.inl rfl

/-- A value may stand anywhere in a view. -/
theorem harmless (h : IsValue fs) (d : Dialect) : Harmless (write d fs) where
  nonempty := (h.isInsert d).nonempty
  quiet := h.fitting.quiet fun f hf => quiet_write (h.parts f hf).simple (h.parts f hf).blocked
  single := by
    intro c hc
    rcases h.mem_write hc with hname | hmark
    · exact ne_of_test hname (by decide)
    · rintro rfl
      exact absurd hmark (by decide)
  ends := by
    obtain ⟨b, s, hbegins, hb⟩ := h.begins d
    obtain ⟨s', hends⟩ := h.ends d
    have hall : ∀ b ∈ ['(', '"', '['], isWordChar b = false := by decide
    refine Or.inr ⟨?_, ?_⟩
    · rw [hbegins, beginsWithWord_cons, hall b hb]
    · rw [hends, endsInWord_append_singleton]
      decide

/-! ### Lexemes -/

theorem isLevel (h : IsValue fs) : IsLevel fs := by
  obtain ⟨front, inner, hfront, hinner, rfl⟩ := h.shape
  refine IsLevel.append ?_ hinner.paren
  rcases hfront with rfl | rfl
  · exact fun d n => ⟨rfl, by simp [lexemesOf]⟩
  · exact isLevel_membershipOfDeals

/-- The lexemes of a value: those of the column that a list is for, and those
between parentheses. -/
theorem lexemes_eq (h : IsValue fs) (d : Dialect) (n : Nat) : ∃ front inner,
    (front = [] ∨ front = lexemesOf d n membershipOfDeals) ∧ (∀ l ∈ inner, n < l.depth) ∧
      lexemesOf d n fs = front ++ (⟨.punct '(', 0, n⟩ :: inner ++ [⟨.punct ')', 0, n⟩]) := by
  obtain ⟨front, inner, hfront, hinner, rfl⟩ := h.shape
  obtain ⟨hafter, hlevel⟩ := hinner d (n + 1)
  have hfrontLevel : depthAfter n front = n := by
    rcases hfront with rfl | rfl
    · rfl
    · exact (isLevel_membershipOfDeals d n).1
  refine ⟨lexemesOf d n front, lexemesOf d (n + 1) inner, ?_, hlevel, ?_⟩
  · rcases hfront with rfl | rfl
    · exact Or.inl rfl
    · exact Or.inr rfl
  · rw [lexemesOf_append, hfrontLevel, lexemesOf_paren, hafter]
    rfl

/-- The lexemes of a value take nothing from a statement. -/
theorem isFilling (h : IsValue fs) (d : Dialect) (n : Nat) : IsFilling n (lexemesOf d n fs) := by
  obtain ⟨front, inner, hfront, hinner, hlexemes⟩ := h.lexemes_eq d n
  have hmembership : lexemesOf d n membershipOfDeals =
      [⟨.word "deal".toList, 0, n⟩, ⟨.punct '.', 0, n⟩, ⟨.word "dl_nbr".toList, 0, n⟩,
        ⟨.word "IN".toList, 0, n⟩] := by
    cases d <;> rfl
  refine ⟨?_, ?_, ?_, ?_, ?_, ?_, ?_⟩
  · simp [hlexemes]
  · intro l hl k hk
    obtain ⟨f, hf, m, hl⟩ := mem_lexemesOf hl
    obtain ⟨hselect, hfrom⟩ := (h.parts f hf).isKeyword hl
    simp only [List.mem_cons, List.not_mem_nil, or_false] at hk
    rcases hk with rfl | rfl
    · exact hselect
    · exact hfrom
  · intro l hl k hk
    rw [hlexemes] at hl
    rcases hfront with rfl | rfl
    · obtain rfl := Option.some.inj hl
      rfl
    · rw [hmembership] at hl
      obtain rfl := Option.some.inj hl
      have hall : ∀ k ∈ ["DISTINCT", "ALL", "TOP"], sameWord "deal".toList k.toList = false := by
        decide
      exact hall k hk
  · intro l hl
    rw [hlexemes, ← List.append_assoc, List.getLast?_concat] at hl
    obtain rfl := Option.some.inj hl
    rfl
  · intro l hl
    obtain ⟨f, -, m, hl⟩ := mem_lexemesOf hl
    exact isPunct_semicolon hl
  · exact fun l hl _ => (h.isLevel d n).2 l hl
  · intro l hl hcomma
    rw [hlexemes] at hl
    simp only [List.mem_append, List.mem_cons, List.not_mem_nil, or_false, or_assoc] at hl
    rcases hl with hl | rfl | hl | rfl
    · rcases hfront with rfl | rfl
      · cases hl
      · rw [hmembership] at hl
        simp only [List.mem_cons, List.not_mem_nil, or_false] at hl
        rcases hl with rfl | rfl | rfl | rfl <;> cases hcomma
    · cases hcomma
    · exact hinner l hl
    · cases hcomma

/-- What is shown of a value in the code is read as its lexemes. -/
theorem reads_shown (h : IsValue fs) (d : Dialect) (n : Nat) :
    Reads (maskFrom .commentsAndLiterals .code (write d fs)) n (lexemesOf d n fs) n := by
  have hreads : Reads (shownFragments d fs) n (lexemesOf d n fs) (depthAfter n fs) :=
    h.fitting.reads_shown
  rw [h.fitting.piecewise.maskFrom_eq]
  rwa [(h.isLevel d n).1] at hreads

end IsValue

/-! ## Numerals -/

/-- A digit is one of ten characters. -/
theorem mem_digits {c : Char} (h : c.isDigit = true) : c ∈ "0123456789".toList := by
  obtain ⟨hlt, heq⟩ := digitChar_of_isDigit h
  have hall : ∀ k < 10, Nat.digitChar k ∈ "0123456789".toList := by decide
  rw [← heq]
  exact hall _ hlt

theorem isNumeral_natural (n : Nat) : IsNumeral (natural n) :=
  ⟨Nat.toDigits_ne_nil, fun _ hc => isDigit_of_mem_natural hc⟩

/-- All dialects read a numeral as it stands, where it ends. -/
theorem isInsert_natural (n : Nat) : IsInsert (natural n) where
  begins := by
    obtain ⟨b, r, hnatural, hdigit, -⟩ := exists_cons_natural n
    have hall : ∀ c ∈ "0123456789".toList, c ∈ valueStarts := by decide
    exact ⟨b, r, hnatural, hall b (mem_digits hdigit)⟩
  closes := by
    intro c hc
    have hall : ∀ c ∈ "0123456789".toList, closesNothing c = true := by decide
    exact hall c (mem_digits (isDigit_of_mem_natural hc))
  reads _ _ hrest := verbatim_natural n (hrest (isNumeral_natural n))

theorem harmless_natural (n : Nat) : Harmless (natural n) where
  nonempty := Nat.toDigits_ne_nil
  quiet := (quiet_word_iff (isWord_natural n)).2 (blockedKeyword?_natural n)
  single _ hc := ne_of_test (isDigit_of_mem_natural hc) (by decide)
  ends := Or.inl (isNumeral_natural n)

/-! ## Texts of values -/

/-- A numeral, or a text written from the fragments of a value. -/
def IsValueText (v : List Char) : Prop :=
  (∃ n : Nat, v = natural n) ∨ ∃ d fs, v = write d fs ∧ IsValue fs

namespace IsValueText

theorem isInsert (h : IsValueText v) : IsInsert v := by
  rcases h with ⟨n, rfl⟩ | ⟨d, fs, rfl, hfs⟩
  · exact isInsert_natural n
  · exact hfs.isInsert d

theorem harmless (h : IsValueText v) : Harmless v := by
  rcases h with ⟨n, rfl⟩ | ⟨d, fs, rfl, hfs⟩
  · exact harmless_natural n
  · exact hfs.harmless d

/-- A value is whole and can stand anywhere in the code. -/
theorem keeps (h : IsValueText v) : Whole v ∧ Region.Keeps .code v := by
  rcases h with ⟨n, rfl⟩ | ⟨d, fs, rfl, hfs⟩
  · have hwhole := whole_natural n
    exact ⟨hwhole, hwhole.keeps Nat.toDigits_ne_nil (natural_ends n).1 (natural_ends n).2⟩
  · obtain ⟨b, s, hbegins, hb⟩ := hfs.begins d
    obtain ⟨s', hends⟩ := hfs.ends d
    have hwhole : Whole (write d fs) := hfs.fitting.piecewise.whole
    have hall : ∀ b ∈ ['(', '"', '['], isPairing b = false := by decide
    refine ⟨hwhole, hwhole.keeps (hfs.isInsert d).nonempty ?_ ?_⟩
    · rw [hbegins]
      exact hall b hb
    · rw [hends, List.getLast?_concat]
      rfl

/-- A value holds no brace. -/
theorem braceFree (h : IsValueText v) : Placeholder.BraceFree v := by
  rcases h with ⟨n, rfl⟩ | ⟨d, fs, rfl, hfs⟩
  · exact braceFree_integer n
  · intro c hc
    rcases hfs.mem_write hc with hname | hmark
    · exact ⟨ne_of_test hname (by decide), ne_of_test hname (by decide)⟩
    · have hall : ∀ c ∈ Fragment.valueMarks, c ≠ '\x7b' ∧ c ≠ '\x7d' := by decide
      exact hall c hmark

end IsValueText

namespace Placeholder

/-- **The values of placeholders**: numerals, or written from the fragments of
a value. -/
theorem isValueText_of_value {x : Execution} {p : Placeholder} (h : value d x p = .ok v)
    (hids : ∀ i ∈ x.trancheIds, IsQuietId i) : IsValueText v := by
  rcases value_eq_ok h with hnumber | ⟨hdeals, rfl | ⟨-, rfl⟩ | rfl⟩
  · exact Or.inl hnumber
  · exact Or.inr ⟨d, _, rfl, isValue_dealCondition (by simpa [Execution.dealNumbers] using hdeals)⟩
  · refine Or.inr ⟨d, _, rfl, isValue_selectionCondition fun s hs i hi => ?_⟩
    exact hids i (List.mem_flatMap.2 ⟨s, hs, hi⟩)
  · exact Or.inr ⟨d, _, rfl, isValue_numbers (by simpa [Execution.dealNumbers] using hdeals)⟩

end Placeholder

end DealSql
