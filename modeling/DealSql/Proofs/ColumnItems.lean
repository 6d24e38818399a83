import DealSql.Proofs.UnplacedLexemes
import DealSql.Proofs.Validity

/-!
# Items that are columns

Which items of a select list count as a required column is decided by two
tests on their lexemes.  Here each test is described by what it accepts: all
columns are a star alone or behind a lexeme and a point; a column is its word,
behind any number of qualifying words with a point each, and in front of an
alias or of nothing.  The tests accept exactly that, whatever the places and
depths of the lexemes.

* `isStar_iff` — the items that stand for all columns.
* `selectsColumn_iff` — the items that are a column and nothing else.
-/

namespace DealSql.Review

open DealSql.Text DealSql.Statement

variable {item label : List Lexeme.Kind} {ls : List Lexeme} {column : String}

/-- What lexemes are. -/
def kinds (ls : List Lexeme) : List Lexeme.Kind := ls.map Lexeme.kind

/-- Words with a point behind each. -/
def qualifiers (words : List (List Char)) : List Lexeme.Kind :=
  words.flatMap fun w => [.word w, .punct '.']

/-- An item for all columns: a star, or a lexeme, a point and a star. -/
def IsStarItem (item : List Lexeme.Kind) : Prop :=
  item = [.punct '*'] ∨ ∃ k, item = [k, .punct '.', .punct '*']

/-- An alias, with or without `AS`, or none. -/
def IsAlias (label : List Lexeme.Kind) : Prop :=
  label = [] ∨ (∃ name, label = [.word name]) ∨
    ∃ keyword name, sameWord keyword "AS".toList = true ∧ label = [.word keyword, .word name]

/-- An item that is a column and nothing else: its word, behind qualifiers and
in front of an alias. -/
def IsColumnItem (column : String) (item : List Lexeme.Kind) : Prop :=
  ∃ words name label, sameWord name column.toList = true ∧ IsAlias label ∧
    item = qualifiers words ++ .word name :: label

/-! ## Items -/

/-- **The items that stand for all columns.** -/
theorem isStar_iff : isStar ls = true ↔ IsStarItem (kinds ls) := by
  rcases ls with _ | ⟨a, _ | ⟨b, _ | ⟨c, _ | ⟨d, ls⟩⟩⟩⟩ <;>
    simp [isStar, IsStarItem, kinds, Lexeme.isPunct_iff]

theorem isLabel_iff : isLabel ls = true ↔ IsAlias (kinds ls) := by
  rcases ls with _ | ⟨a, _ | ⟨b, _ | ⟨c, ls⟩⟩⟩
  · simp [isLabel, IsAlias, kinds]
  · simp [isLabel, IsAlias, kinds, Lexeme.word?_isSome_iff]
  · have halias : IsAlias (kinds [a, b]) ↔
        ∃ keyword name, sameWord keyword "AS".toList = true ∧ a.kind = .word keyword ∧
          b.kind = .word name := by simp [IsAlias, kinds]
    rw [halias, isLabel, Bool.and_eq_true, Lexeme.isKeyword_iff, Lexeme.word?_isSome_iff]
    constructor
    · rintro ⟨⟨keyword, ha, has⟩, name, hb⟩
      exact ⟨keyword, name, has, ha, hb⟩
    · rintro ⟨keyword, name, has, ha, hb⟩
      exact ⟨⟨keyword, ha, has⟩, name, hb⟩
  · simp [isLabel, IsAlias, kinds]

/-- What `unqualified` takes away are qualifiers. -/
theorem exists_qualifiers (ls : List Lexeme) :
    ∃ words, kinds ls = qualifiers words ++ kinds (unqualified ls) := by
  fun_induction unqualified ls with
  | case1 l dot r h ih =>
    obtain ⟨hword, hdot⟩ := Bool.and_eq_true_iff.1 h
    obtain ⟨w, hw⟩ := Lexeme.word?_isSome_iff.1 hword
    obtain ⟨words, hwords⟩ := ih
    refine ⟨w :: words, ?_⟩
    simp [kinds, qualifiers, hw, Lexeme.isPunct_iff.1 hdot] at hwords ⊢
    exact hwords
  | case2 l dot r h => exact ⟨[], rfl⟩
  | case3 ls h => exact ⟨[], rfl⟩

/-- An alias does not begin with a point. -/
theorem IsAlias.head?_ne (h : IsAlias label) : label.head? ≠ some (.punct '.') := by
  rcases h with rfl | ⟨name, rfl⟩ | ⟨keyword, name, -, rfl⟩ <;> simp

/-- Of a column with qualifiers and an alias, the qualifiers are taken away. -/
theorem kinds_unqualified {words : List (List Char)} {name : List Char} (hlabel : IsAlias label)
    (h : kinds ls = qualifiers words ++ .word name :: label) :
    kinds (unqualified ls) = .word name :: label := by
  induction words generalizing ls with
  | nil =>
    rcases ls with _ | ⟨l, _ | ⟨dot, r⟩⟩
    · cases h
    · exact h
    · -- what stands behind the name is no point
      obtain ⟨-, hlabels⟩ := List.cons.inj h
      have hdot : ¬ dot.isPunct '.' = true := by
        intro hpoint
        have hkind : dot.kind = .punct '.' := Lexeme.isPunct_iff.1 hpoint
        exact hlabel.head?_ne (by rw [← hlabels, List.map_cons, hkind]; rfl)
      rw [unqualified, if_neg (by simp [hdot])]
      exact h
  | cons w words ih =>
    rcases ls with _ | ⟨l, _ | ⟨dot, r⟩⟩
    · cases h
    · simp [kinds, qualifiers] at h
    · obtain ⟨hword, hrest⟩ := List.cons.inj h
      obtain ⟨hdot, hrest⟩ := List.cons.inj hrest
      have hqualifies : (l.word?.isSome && dot.isPunct '.') = true := by
        rw [Bool.and_eq_true, Lexeme.word?_isSome_iff, Lexeme.isPunct_iff]
        exact ⟨⟨w, hword⟩, hdot⟩
      rw [unqualified, if_pos hqualifies]
      exact ih hrest

/-- **The items that are a column** and nothing else. -/
theorem selectsColumn_iff : selectsColumn column ls = true ↔ IsColumnItem column (kinds ls) := by
  constructor
  · intro h
    obtain ⟨words, hwords⟩ := exists_qualifiers ls
    unfold selectsColumn at h
    cases hrest : unqualified ls with
    | nil => simp [hrest] at h
    | cons l r =>
      rw [hrest] at h hwords
      obtain ⟨hname, hlabel⟩ := Bool.and_eq_true_iff.1 h
      obtain ⟨w, hkind, hw⟩ := Lexeme.isKeyword_iff.1 hname
      exact ⟨words, w, kinds r, hw, isLabel_iff.1 hlabel, by simpa [kinds, hkind] using hwords⟩
  · rintro ⟨words, name, label, hname, hlabel, hitem⟩
    have hrest := kinds_unqualified hlabel hitem
    unfold selectsColumn
    cases hunqualified : unqualified ls with
    | nil => simp [hunqualified, kinds] at hrest
    | cons l r =>
      rw [hunqualified] at hrest
      obtain ⟨hkind, hlabels⟩ := List.cons.inj hrest
      have hkeyword : l.isKeyword column = true := Lexeme.isKeyword_iff.2 ⟨name, hkind, hname⟩
      have haccepted : isLabel r = true := isLabel_iff.2 (by rw [kinds, hlabels]; exact hlabel)
      simp [hkeyword, haccepted]

/-- In a column there is no mark but a point: no call, no parentheses, no
operator. -/
theorem IsColumnItem.mark_eq (h : IsColumnItem column item) {c : Char}
    (hc : .punct c ∈ item) : c = '.' := by
  obtain ⟨words, name, label, -, hlabel, rfl⟩ := h
  rcases List.mem_append.1 hc with hc | hc
  · obtain ⟨w, -, hw⟩ := List.mem_flatMap.1 hc
    simpa using hw
  · rcases hlabel with rfl | ⟨new, rfl⟩ | ⟨keyword, new, -, rfl⟩
    · simp at hc
    · simp at hc
    · simp at hc

/-! ## Required columns -/

/-- A required column is missing when no item is all columns or the column. -/
theorem mem_requiredColumnIssues_iff {items : List (List Lexeme)} {level : Level}
    {c : RequiredColumn} (hc : c ∈ requiredColumns level) :
    .missingRequiredColumn c level ∈ requiredColumnIssues items level ↔
      ∀ i ∈ items, ¬ IsStarItem (kinds i) ∧ ¬ IsColumnItem c.name (kinds i) := by
  simp only [← isStar_iff, ← selectsColumn_iff]
  unfold requiredColumnIssues
  by_cases hstar : items.any isStar = true
  · obtain ⟨i, hi, hstar'⟩ := List.any_eq_true.1 hstar
    rw [if_pos hstar]
    constructor
    · intro h
      cases h
    · intro h
      exact absurd hstar' (h i hi).1
  · have hnone : ∀ i ∈ items, ¬ isStar i = true := by simpa using hstar
    rw [if_neg hstar]
    constructor
    · intro h i hi
      obtain ⟨d, hd, hissue⟩ := List.mem_map.1 h
      obtain ⟨rfl, -⟩ := Issue.missingRequiredColumn.inj hissue
      have habsent : ∀ i ∈ items, ¬ selectsColumn d.name i = true := by
        simpa using (List.mem_filter.1 hd).2
      exact ⟨hnone i hi, habsent i hi⟩
    · intro h
      refine List.mem_map.2 ⟨c, List.mem_filter.2 ⟨hc, ?_⟩, rfl⟩
      simpa using fun i hi => (h i hi).2

/-- Of the checks only that of the required columns finds one missing. -/
theorem missingRequiredColumn_mem_issues_iff {parser : Parser} {o : Options} {sql : List Char}
    {level : Level} {c : RequiredColumn} (h : Examined o sql) :
    .missingRequiredColumn c level ∈ (reviewWith parser o sql level column).issues ↔
      .missingRequiredColumn c level ∈
        requiredColumnIssues (selectList (structuralLexemes sql)) level := by
  rw [mem_issues_iff h (by simp)]
  constructor
  · rintro (hm | hm | hm | hm | hm)
    · cases entryIssues_category hm
    · exact hm
    · rcases resultColumnIssues_category hm with hc | hc <;> cases hc
    · rcases placeholderIssues_category hm with hc | hc | hc <;> cases hc
    · cases gateIssues_category hm
  · exact fun hm => Or.inr (Or.inl hm)

end DealSql.Review
