import DealSql.Proofs.QueryFragments
import DealSql.Proofs.SafeFragments

/-!
# Safe queries

A query written from safe fragments is read as the query it is: its items
are those of the query, its tables those after `FROM` and `JOIN`, and
nothing nested is found in it.

* `Query.IsSafe.fitting` — the fragments of a safe query fit.
* `Query.lexemes_eq` — its lexemes, clause by clause.
* `Query.IsSafe.tables` — its tables, in order.
-/

namespace DealSql.Sql

open DealSql.Text DealSql.Statement DealSql.Review

variable {d : Dialect} {q : Query} {t : String} {depth : Nat}

/-- A query with safe fragments only. -/
structure Query.IsSafe (q : Query) : Prop where
  items : ∀ i ∈ q.items, ∀ f ∈ i.fragments, f.IsSafe
  table : ∀ t ∈ q.table, (Fragment.identifier t).IsSafe
  joins : ∀ j ∈ q.joins, (Fragment.identifier j.table).IsSafe ∧ j.condition.IsSafe
  condition : ∀ c ∈ q.condition, c.IsSafe
  grouping : ∀ e ∈ q.grouping, e.IsSafe

/-! ## Fitting -/

/-- The fragments of a layout fit. -/
theorem fitting_passesOn : PassesOn Fitting where
  nil := fitting_nil
  layout {f} h := by
    refine fitting_singleton ?_
    cases f with
    | symbol s =>
      obtain rfl : s = .comma := by simpa [Fragment.isLayout] using h
      trivial
    | indent n =>
      obtain rfl : n = 1 := by simpa [Fragment.isLayout] using h
      decide
    | keyword _ => trivial
    | space => trivial
    | newline => trivial
    | _ => cases h
  append hf hg h := h.elim (hf.append_of_last hg) (hf.append_of_head hg)

namespace Query.IsSafe

/-- The names of a safe query are safe. -/
theorem isSafe_of_mem_names (h : q.IsSafe) (ht : t ∈ q.names) : (Fragment.identifier t).IsSafe := by
  simp only [names, List.mem_append, List.mem_filterMap, List.mem_map, Option.mem_toList] at ht
  rcases ht with (⟨i, hi, hlabel⟩ | ht) | ⟨j, hj, rfl⟩
  · refine h.items i hi _ ?_
    rw [SelectItem.fragments, hlabel]
    simp
  · exact h.table t ht
  · exact (h.joins j hj).1

/-- The expressions of a safe query are safe. -/
theorem isSafe_of_mem_expressions (h : q.IsSafe) {e : Expr} (he : e ∈ q.expressions) :
    e.IsSafe := by
  simp only [expressions, List.mem_append, List.mem_map, Option.mem_toList] at he
  rcases he with ((⟨i, hi, rfl⟩ | ⟨j, hj, rfl⟩) | he) | he
  · exact fun f hf => h.items i hi f (List.mem_append_left _ hf)
  · exact (h.joins j hj).2
  · exact h.condition e he
  · exact h.grouping e he

/-- **The fragments of a safe query fit.** -/
theorem fitting (h : q.IsSafe) : Fitting q.body :=
  fitting_passesOn.body (fun _ ht => fitting_singleton (h.isSafe_of_mem_names ht).simple)
    fun e he => e.fitting_fragments fun f hf => (h.isSafe_of_mem_expressions he f hf).simple

end Query.IsSafe

/-! ## Lexemes -/

/-- A keyword as a lexeme. -/
def keywordLexeme (k : String) (depth : Nat) : Lexeme := ⟨.word k.toList, 0, depth⟩

/-- The lexemes of a list that leaves no parenthesis open, between commas. -/
theorem lexemes_intercalate {parts : List (List Fragment)}
    (hlevel : ∀ p ∈ parts, depthAfter 0 p = 0) :
    lexemesOf d 0 ([.symbol .comma].intercalate parts) =
        [⟨.punct ',', 0, 0⟩].intercalate (parts.map (lexemesOf d 0)) ∧
      depthAfter 0 ([.symbol .comma].intercalate parts) = 0 := by
  induction parts with
  | nil => exact ⟨rfl, rfl⟩
  | cons p ps ih =>
    have hp := hlevel p List.mem_cons_self
    cases ps with
    | nil => simpa [List.intercalate] using hp
    | cons r rs =>
      obtain ⟨hlexemes, hdepth⟩ := ih fun x hx => hlevel x (List.mem_cons_of_mem p hx)
      have hcomma : lexemesOf d 0 [.symbol .comma] = [⟨.punct ',', 0, 0⟩] := rfl
      have hafter : depthAfter 0 [.symbol .comma] = 0 := rfl
      constructor
      · rw [List.intercalate_cons_cons, lexemesOf_append, lexemesOf_append, depthAfter_append, hp,
          hafter, hcomma, hlexemes, List.map_cons, List.map_cons, List.map_cons,
          List.intercalate_cons_cons]
      · rw [List.intercalate_cons_cons, depthAfter_append, depthAfter_append, hp, hafter, hdepth]

/-- The lexemes before the first table. -/
def Query.front (d : Dialect) (q : Query) : List Lexeme :=
  keywordLexeme "SELECT" 0 ::
    [⟨.punct ',', 0, 0⟩].intercalate (q.items.map fun i => lexemesOf d 0 i.fragments)

/-- **The lexemes of a query**: its items between commas, the first table, and
whatever follows. -/
theorem Query.lexemes_eq (ht : q.table = some t)
    (hlevel : ∀ i ∈ q.items, depthAfter 0 i.fragments = 0) :
    lexemesOf d 0 q.body = q.front d ++
      keywordLexeme "FROM" 0 :: ⟨.word t.toList, 0, 0⟩ :: lexemesOf d 0 q.clauses := by
  have hlines : ∀ p ∈ q.items.map fun i => [Fragment.newline, .indent 1] ++ i.fragments,
      depthAfter 0 p = 0 := by
    intro p hp
    obtain ⟨i, hi, rfl⟩ := List.mem_map.1 hp
    exact hlevel i hi
  obtain ⟨hlexemes, hdepth⟩ := lexemes_intercalate (d := d) hlines
  rw [List.map_map] at hlexemes
  have hitems : lexemesOf d 0 q.itemFragments = [⟨.punct ',', 0, 0⟩].intercalate
      (q.items.map fun i => lexemesOf d 0 i.fragments) := hlexemes
  have hafter : depthAfter 0 q.itemFragments = 0 := hdepth
  have hselect : ∀ fs, lexemesOf d 0 (.keyword .SELECT :: fs) =
      keywordLexeme "SELECT" 0 :: lexemesOf d 0 fs := fun fs => rfl
  have hfrom : ∀ fs, lexemesOf d 0 (q.tableFragments ++ fs) =
      keywordLexeme "FROM" 0 :: ⟨.word t.toList, 0, 0⟩ :: lexemesOf d 0 fs := by
    intro fs
    rw [Query.tableFragments, ht]
    rfl
  rw [Query.body_eq, List.cons_append, hselect, lexemesOf_append, hitems, hafter, hfrom]
  rfl

/-- **A query begins as one** and has a `FROM`, unless its last item ends in a
word that makes the `FROM` another. -/
theorem Query.entryIssues_eq (ht : q.table = some t)
    (hlevel : ∀ i ∈ q.items, depthAfter 0 i.fragments = 0)
    (hlast : (q.front d).getLast?.any (·.isKeyword "DISTINCT") = false) :
    entryIssues (lexemesOf d 0 q.body) = [] := by
  have hfrom : (keywordLexeme "FROM" 0).isKeyword "FROM" = true := sameWord_refl _
  rw [Query.lexemes_eq ht hlevel]
  exact entryIssues_plain (sameWord_refl _) hfrom rfl hlast

/-- The clauses behind the first table begin with a word. -/
theorem Query.clauses_head (q : Query) :
    (lexemesOf d 0 q.clauses).head?.any (·.isPunct '.') = false := by
  rw [Query.clauses, conditionFragments, groupingFragments]
  cases q.joins with
  | cons j js => rfl
  | nil =>
    cases q.condition with
    | some c => rfl
    | none =>
      cases q.grouping with
      | nil => rfl
      | cons e es => rfl

/-- A lexeme of a safe fragment names no table. -/
theorem isInert_of_mem {fs : List Fragment} {l : Lexeme} (h : ∀ f ∈ fs, f.IsSafe)
    (hl : l ∈ lexemesOf d depth fs) : Review.IsInert l :=
  ⟨isKeyword_of_mem_lexemesOf h hl (by decide), isKeyword_of_mem_lexemesOf h hl (by decide)⟩

namespace Query.IsSafe

/-- The fragments of a safe query behind its joins. -/
theorem isSafe_of_mem_end (h : q.IsSafe) :
    ∀ f ∈ q.conditionFragments ++ q.groupingFragments, f.IsSafe := by
  have hword : ∀ k ∈ [Keyword.WHERE, .GROUP_BY], ∀ f ∈ [Fragment.newline, .keyword k, .space],
      f.IsSafe := by decide
  have hseparator : ∀ f ∈ [Fragment.symbol .comma, .space], f.IsSafe := by decide
  intro f hf
  rcases List.mem_append.1 hf with hf | hf
  · rw [conditionFragments] at hf
    split at hf
    · next c hc =>
      rcases List.mem_append.1 hf with hf | hf
      · exact hword .WHERE (by simp) f hf
      · exact h.condition c hc f hf
    · cases hf
  · rw [groupingFragments] at hf
    split at hf
    · cases hf
    · rcases List.mem_append.1 hf with hf | hf
      · exact hword .GROUP_BY (by simp) f hf
      · rcases Expr.mem_of_mem_commaSeparated hf with hf | ⟨p, hp, hf⟩
        · exact hseparator f hf
        · obtain ⟨e, he, rfl⟩ := List.mem_map.1 hp
          exact h.grouping e he f hf

/-- The fragments of the clauses are safe, but for the keywords of the joins. -/
theorem mem_clauses (h : q.IsSafe) :
    ∀ f ∈ q.clauses, f.IsSafe ∨ f = .keyword .JOIN := by
  have hfixed : ∀ f ∈ [Fragment.newline, .keyword .INNER, .space, .keyword .ON], f.IsSafe := by
    decide
  intro f hf
  rcases List.mem_append.1 hf with hf | hf
  · obtain ⟨j, hj, hf⟩ := List.mem_flatMap.1 hf
    obtain ⟨htable, hcondition⟩ := h.joins j hj
    rcases List.mem_append.1 hf with hf | hf
    · by_cases hjoin : f = .keyword .JOIN
      · exact Or.inr hjoin
      · by_cases hname : f = .identifier j.table
        · exact Or.inl (hname ▸ htable)
        · exact Or.inl (hfixed f (by simp at hf ⊢; grind))
    · exact Or.inl (hcondition f hf)
  · exact Or.inl (h.isSafe_of_mem_end f hf)

/-- The names in a safe query are those of safe fragments. -/
theorem mem_body (h : q.IsSafe) : ∀ f ∈ q.body, f.IsSafe ∨ ∃ k, f = .keyword k := by
  have hfixed : ∀ f ∈ [Fragment.newline, .indent 1, .space, .symbol .comma], f.IsSafe := by decide
  intro f hf
  rw [body_eq] at hf
  simp only [List.cons_append, List.mem_cons, List.mem_append] at hf
  rcases hf with rfl | hf | hf | hf
  · exact Or.inr ⟨.SELECT, rfl⟩
  · rcases mem_intercalate hf with rfl | ⟨p, hp, hf⟩
    · exact Or.inl (by decide)
    · obtain ⟨i, hi, rfl⟩ := List.mem_map.1 hp
      rcases List.mem_append.1 hf with hf | hf
      · exact Or.inl (hfixed f (by simp at hf; grind))
      · exact Or.inl (h.items i hi f hf)
  · rw [tableFragments] at hf
    split at hf
    · next t ht =>
      simp only [List.mem_cons, List.not_mem_nil, or_false] at hf
      rcases hf with rfl | rfl | rfl | rfl
      · exact Or.inl (by decide)
      · exact Or.inr ⟨.FROM, rfl⟩
      · exact Or.inl (by decide)
      · exact Or.inl (h.table t ht)
    · cases hf
  · exact (h.mem_clauses f hf).imp_right fun hjoin => ⟨.JOIN, hjoin⟩

/-- No blocked keyword stands in a safe query. -/
theorem quiet (h : q.IsSafe) : Quiet (Sql.write d q.body) := by
  refine h.fitting.quiet fun f hf => ?_
  rcases h.mem_body f hf with hsafe | ⟨k, rfl⟩
  · exact quiet_write hsafe.simple fun w hw => blockedKeyword?_of_not_reserved (hsafe.names w hw)
  · exact quiet_write trivial (by simp [Fragment.names])

/-- A safe name is the name of a table, and no keyword. -/
theorem name_table (depth : Nat) {t : String} (ht : (Fragment.identifier t).IsSafe) :
    isOneOf t.toList ["LATERAL", "SELECT"] = false ∧ Review.IsInert ⟨.word t.toList, 0, depth⟩ := by
  have hreserved := ht.names t.toList (by simp [Fragment.names])
  have hword : ∀ k ∈ reservedWords, sameWord t.toList k.toList = false :=
    fun k hk => not_sameWord_of_not_reserved hreserved hk
  refine ⟨?_, hword "FROM" (by decide), hword "JOIN" (by decide)⟩
  have hall : ∀ k ∈ ["LATERAL", "SELECT"], k ∈ reservedWords := by decide
  exact List.any_eq_false.2 fun k hk => by simp [hword k (hall k hk)]

/-- No query begins in the clauses. -/
theorem isKeyword_clauses (h : q.IsSafe) {l : Lexeme} (hl : l ∈ lexemesOf d depth q.clauses) :
    l.isKeyword "SELECT" = false := by
  obtain ⟨f, hf, n, hl⟩ := mem_lexemesOf hl
  rcases h.mem_clauses f hf with hsafe | rfl
  · exact hsafe.isKeyword hl (by decide)
  · have hjoin : sameWord "JOIN".toList "SELECT".toList = false := by decide
    obtain rfl := List.mem_singleton.1 hl
    exact hjoin

/-- **The tables of the joins** of a safe query. -/
theorem tables_clauses (h : q.IsSafe) (before : List Lexeme) :
    tablesFrom before (lexemesOf d depth q.clauses) = q.joins.map fun j => j.table.toList := by
  have hend := h.isSafe_of_mem_end
  have hjoins := h.joins
  rw [clauses]
  generalize q.conditionFragments ++ q.groupingFragments = fs at hend
  generalize q.joins = js at hjoins
  induction js generalizing before depth with
  | nil => exact tablesFrom_of_inert fun l hl => isInert_of_mem hend hl
  | cons j js ih =>
    obtain ⟨htable, hcondition⟩ := hjoins j List.mem_cons_self
    obtain ⟨hname, hinert⟩ := name_table depth htable
    have hlexemes : lexemesOf d depth ((j :: js).flatMap Join.fragments ++ fs) =
        keywordLexeme "INNER" depth :: keywordLexeme "JOIN" depth :: ⟨.word j.table.toList, 0, depth⟩ ::
          keywordLexeme "ON" depth ::
          lexemesOf d depth (j.condition.fragments ++ (js.flatMap Join.fragments ++ fs)) := by
      rw [List.flatMap_cons, Join.fragments, List.append_assoc, List.append_assoc]
      rfl
    have hkeywords : ∀ k ∈ ["INNER", "ON"], sameWord k.toList "FROM".toList = false ∧
        sameWord k.toList "JOIN".toList = false := by decide
    have hinner : Review.IsInert (keywordLexeme "INNER" depth) := hkeywords "INNER" (by decide)
    have hon : Review.IsInert (keywordLexeme "ON" depth) := hkeywords "ON" (by decide)
    have hjoin : ∀ b ls, introducesTable ⟨b, keywordLexeme "JOIN" depth, ls⟩ = true := by
      intro b ls
      have hkeyword : (keywordLexeme "JOIN" depth).isKeyword "JOIN" = true := sameWord_refl _
      simp [introducesTable, hkeyword]
    rw [hlexemes, tablesFrom_cons_of_isInert hinner, tablesFrom_cons_of_introduces (hjoin _ _),
      tableName?_word hname rfl, tablesFrom_cons_of_isInert hinert, tablesFrom_cons_of_isInert hon,
      lexemesOf_append, tablesFrom_append_of_inert fun l hl => isInert_of_mem hcondition hl,
      ih _ fun x hx => hjoins x (List.mem_cons_of_mem j hx)]
    rfl

/-- Behind `SELECT` the items name no table and begin no query. -/
theorem mem_front (h : q.IsSafe) {l : Lexeme} (hl : l ∈ (q.front d).tail) :
    Review.IsInert l ∧ l.isKeyword "SELECT" = false := by
  rcases mem_intercalate hl with rfl | ⟨p, hp, hl⟩
  · exact ⟨⟨rfl, rfl⟩, rfl⟩
  · obtain ⟨i, hi, rfl⟩ := List.mem_map.1 hp
    exact ⟨isInert_of_mem (h.items i hi) hl,
      isKeyword_of_mem_lexemesOf (h.items i hi) hl (by decide)⟩

theorem isInert_front (h : q.IsSafe) : ∀ l ∈ q.front d, Review.IsInert l := by
  have hselect : sameWord "SELECT".toList "FROM".toList = false ∧
      sameWord "SELECT".toList "JOIN".toList = false := by decide
  intro l hl
  rcases List.mem_cons.1 hl with rfl | hl
  · exact hselect
  · exact (h.mem_front (d := d) hl).1

/-- **The shape of a safe query**: its tables, and nothing nested. -/
theorem shape_eq (h : q.IsSafe) (ht : q.table = some t)
    (hlevel : ∀ i ∈ q.items, depthAfter 0 i.fragments = 0)
    (hlast : (q.front d).getLast?.any (·.isKeyword "DISTINCT") = false) :
    shape (lexemesOf d 0 q.body) = ⟨false, false,
      distinctBy foldCase (t.toList :: q.joins.map fun j => j.table.toList)⟩ := by
  obtain ⟨hname, hinert⟩ := name_table 0 (h.table t ht)
  have hsubqueries : (positions (lexemesOf d 0 q.body)).any opensSubquery = false := by
    refine not_opensSubquery fun l hl => ?_
    have hfrom : sameWord "FROM".toList "SELECT".toList = false := by decide
    have hselect := not_sameWord_of_not_reserved (k := "SELECT")
      ((h.table t ht).names t.toList (by simp [Fragment.names])) (by decide)
    rw [Query.lexemes_eq ht hlevel] at hl
    have hcons : q.front d = keywordLexeme "SELECT" 0 :: (q.front d).tail := rfl
    rw [hcons, List.cons_append, List.tail_cons] at hl
    rcases List.mem_append.1 hl with hl | hl
    · exact (h.mem_front hl).2
    · simp only [List.mem_cons] at hl
      rcases hl with rfl | rfl | hl
      · exact hfrom
      · exact hselect
      · exact h.isKeyword_clauses hl
  have htables : tablesFrom [] (lexemesOf d 0 q.body) =
      t.toList :: q.joins.map fun j => j.table.toList := by
    have hfrom : (keywordLexeme "FROM" 0).isKeyword "FROM" = true := sameWord_refl _
    have hplain := tablesFrom_plain h.isInert_front hfrom rfl hlast hname hinert
      (q.clauses_head (d := d))
    obtain ⟨before, hbefore⟩ := hplain
    rw [Query.lexemes_eq ht hlevel, hbefore, h.tables_clauses]
  have hctes : (lexemesOf d 0 q.body).head?.any (·.isKeyword "WITH") = false := by
    have hwith : sameWord "SELECT".toList "WITH".toList = false := by decide
    rw [Query.lexemes_eq ht hlevel]
    exact hwith
  have hused : usedTables (lexemesOf d 0 q.body) =
      distinctBy foldCase (tablesFrom [] (lexemesOf d 0 q.body)) := rfl
  rw [shape, hctes, hsubqueries, hused, htables]

end Query.IsSafe

end DealSql.Sql
