import DealSql.Proofs.SafePreviews
import DealSql.Proofs.SubstitutionMask

/-!
# The review of previews

A preview is a comment on a line of its own and a safe query below it.  The
comment is masked, and every dialect reads the query as it stands; so the
review sees the query, finds its items and tables, and raises no issue.

* `gateIssues_preview` — no view of a preview raises an issue.
* `review_preview` — the verdict on a preview.
-/

namespace DealSql.Preview

open DealSql.Text DealSql.Statement DealSql.Sql DealSql.Review

variable {o : Options} {c : Calculation} {q : Query} {s : Source} {l : Level} {j : Joins}
  {d r : Dialect} {measure : Expr} {b : List Char}

/-! ## The comment above a preview -/

/-- The line of the comment. -/
def header : List Char := "-- ".toList ++ comment.toList ++ ['\n']

/-- A preview is its comment and its query. -/
theorem write_eq_header_append (h : q.comment = some comment) :
    q.write d = header ++ write d q.body := by
  have hflatten : flatten comment.toList = comment.toList := by decide +kernel
  have hheader : write d [.comment comment, .newline] = header := by
    simp [write, Fragment.write, hflatten, header]
  rw [Query.write, q.fragments_eq_comment_append, write_append, Query.commentFragments, h, hheader]
  rfl

/-- Of the comment nothing is shown but blanks. -/
theorem mask_header (m : Mask) (b : List Char) :
    ∃ s, (∀ c ∈ s, isBlank c = true) ∧ mask m (header ++ b) = s ++ mask m b := by
  have hlast : header.getLast?.any isPairing = false := by decide +kernel
  have hreturns : Region.after none .code header = .code := by decide +kernel
  have hblank : ∀ m : Mask, ∀ c ∈ (marksFrom .code header).flatMap m.show, isBlank c = true := by
    intro m
    cases m <;> decide +kernel
  have halike : marksUpTo b.head? .code header = marksUpTo none .code header ∧
      Region.after b.head? .code header = Region.after none .code header :=
    read_alike .code header (Or.inl hlast)
  obtain ⟨hmarks, hafter⟩ := halike
  rw [marksUpTo_none] at hmarks
  refine ⟨_, hblank m, ?_⟩
  rw [mask, maskFrom, marksFrom_append, hmarks, hafter, hreturns, List.flatMap_append]
  rfl

/-- To every dialect the comment is a space. -/
theorem stripComments_header (r : Dialect) (b : List Char) :
    stripComments r (header ++ b) = (stripComments r b).map (' ' :: ·) := by
  have hfind : ∀ t, Rule.find r '-' ('-' :: t) = .token .comment (afterFirst '\n' ('-' :: t)) := by
    intro t
    cases r <;> rfl
  have hline : ∀ x ∈ "- ".toList ++ comment.toList, x ≠ '\n' := by decide +kernel
  have hheader : header ++ b = '-' :: ("- ".toList ++ comment.toList ++ '\n' :: b) := by
    simp [header]
  obtain ⟨-, hrest⟩ := split_at_stop b hline
  have htoken : Rule.find r '-' ("- ".toList ++ comment.toList ++ '\n' :: b) = .token .comment b := by
    rw [← hrest]
    exact hfind _
  rw [hheader, stripComments, tokens_of_find htoken, stripComments, Option.map_map, Option.map_map]
  rfl

/-! ## The text of the query -/

/-- No brace and no semicolon stands in a safe query. -/
theorem plain_write (h : q.IsSafe) :
    ∀ c ∈ write d q.body, c ≠ ';' ∧ c ≠ '\x7b' ∧ c ≠ '\x7d' := by
  have hmarks : ∀ c ∈ '\'' :: fragmentMarks, c ≠ ';' ∧ c ≠ '\x7b' ∧ c ≠ '\x7d' := by decide
  intro c hc
  obtain ⟨f, hf, hc⟩ := List.mem_flatMap.1 hc
  rcases mem_write (h.fitting.simple f hf) hc with hname | hmark | ⟨rfl, -⟩
  · exact ⟨ne_of_test hname rfl, ne_of_test hname rfl, ne_of_test hname rfl⟩
  · exact hmarks c (List.mem_cons_of_mem _ hmark)
  · exact hmarks '\'' List.mem_cons_self

/-- Every dialect reads a safe query as it stands. -/
theorem stripComments_body (h : q.IsSafe) (r : Dialect) :
    stripComments r (write d q.body) = some (write d q.body) := by
  have hverbatim : Verbatim r (write d q.body) [] :=
    h.fitting.verbatim fun f _ => Or.inr (Or.inl rfl)
  have hstrip := hverbatim.stripComments_append
  have hnil : stripComments r [] = some [] := by rw [stripComments, tokens]; rfl
  rw [List.append_nil, hnil] at hstrip
  simpa using hstrip

/-- A safe query hides nothing. -/
theorem maskComments_body (h : q.IsSafe) : maskComments (write d q.body) = write d q.body :=
  h.fitting.piecewise.whole.maskComments_eq

/-! ## The gate -/

/-- Blanks before a quiet text. -/
theorem quiet_blanks_append {s : List Char} (hs : ∀ c ∈ s, isBlank c = true) (hb : Quiet b) :
    Quiet (s ++ b) := by
  have hword : ∀ c ∈ s, isWordChar c = false := fun c hc => isWordChar_of_isBlank (hs c hc)
  refine (quiet_append_iff (Or.inl ?_)).2 ⟨quiet_of_forall hword, hb⟩
  cases hlast : s.getLast? with
  | none => simp [endsInWord, hlast]
  | some c => simp [endsInWord, hlast, hword c (List.mem_of_getLast? hlast)]

/-- The views of a preview: its query behind blanks, behind a space, or
behind the comment where a dialect cannot read it. -/
theorem mem_codeViews {parser : Parser} {v : List Char} (h : q.IsSafe)
    (hparser : ∀ r, parser.strip r (header ++ write d q.body) = none ∨
      parser.strip r (header ++ write d q.body) = stripComments r (header ++ write d q.body))
    (hv : v ∈ codeViewsWith parser (header ++ write d q.body)) :
    ∃ s, v = s ++ write d q.body ∧ ((∀ c ∈ s, isBlank c = true) ∨ s = header) := by
  rcases List.mem_cons.1 hv with rfl | hv
  · obtain ⟨s, hs, hmask⟩ := mask_header .comments (write d q.body)
    refine ⟨s, ?_, Or.inl hs⟩
    rw [maskComments, hmask]
    exact congrArg (s ++ ·) (maskComments_body h)
  · obtain ⟨r, -, rfl⟩ := List.mem_map.1 hv
    rcases hparser r with hnone | hsome
    · exact ⟨header, by rw [hnone]; rfl, Or.inr rfl⟩
    · refine ⟨[' '], ?_, Or.inl (by decide)⟩
      rw [hsome, stripComments_header, stripComments_body h]
      rfl

/-- **The gate raises no issue** on a preview. -/
theorem gateIssues_preview {parser : Parser} (h : q.IsSafe)
    (hparser : ∀ r, parser.strip r (header ++ write d q.body) = none ∨
      parser.strip r (header ++ write d q.body) = stripComments r (header ++ write d q.body)) :
    gateIssuesWith parser (header ++ write d q.body) = [] := by
  have hheader : Quiet header ∧ ∀ c ∈ header, c ≠ ';' := by
    refine ⟨?_, by decide +kernel⟩
    have hsignals : signals header = [] := by decide +kernel
    exact (signals_eq_nil_iff.1 hsignals).1
  have hlast : endsInWord header = false := by decide +kernel
  refine gateIssues_eq_nil_iff.2 fun v hv => ?_
  obtain ⟨s, rfl, hs⟩ := mem_codeViews h hparser hv
  have hbody : ∀ c ∈ write d q.body, c ≠ ';' := fun c hc => (plain_write h c hc).1
  rcases hs with hs | rfl
  · refine ⟨quiet_blanks_append hs h.quiet, single_of_forall fun c hc => ?_⟩
    rcases List.mem_append.1 hc with hc | hc
    · exact ne_of_test (hs c hc) (by decide)
    · exact hbody c hc
  · refine ⟨(quiet_append_iff (Or.inl hlast)).2 ⟨hheader.1, h.quiet⟩, single_of_forall fun c hc => ?_⟩
    rcases List.mem_append.1 hc with hc | hc
    · exact hheader.2 c hc
    · exact hbody c hc

/-- A preview holds no placeholder. -/
theorem scan_preview (h : q.IsSafe) :
    Placeholder.scan (header ++ write d q.body) = ⟨[], [], 0⟩ := by
  refine Placeholder.scan_eq_of_braceFree fun x hx => ?_
  obtain ⟨b, hb, hmask⟩ := mask_header .comments (write d q.body)
  rw [maskComments, hmask] at hx
  rcases List.mem_append.1 hx with hx | hx
  · exact ⟨ne_of_test (hb x hx) (by decide), ne_of_test (hb x hx) (by decide)⟩
  · have hbody : x ∈ write d q.body := by
      rw [← maskComments_body h]
      exact hx
    exact (plain_write h x hbody).2

/-- A preview is looked into unless it is too long. -/
theorem examined_preview {o : Review.Options} {s : List Char}
    (h : (header ++ s).length ≤ o.maxLength) : Examined o (header ++ s) := by
  refine ⟨h, fun hempty => ?_⟩
  have hdash : '-' ∈ header := by decide
  have hblank := trim_eq_nil_iff.1 hempty '-' (List.mem_append_left s hdash)
  exact absurd hblank (by decide)

/-! ## The structure -/

/-- The lexemes of a preview are those of its query. -/
theorem unplaced_structuralLexemes (h : q.IsSafe) :
    unplaced (structuralLexemes (header ++ write d q.body)) = lexemesOf d 0 q.body := by
  obtain ⟨s, hs, hmask⟩ := mask_header .commentsAndLiterals (write d q.body)
  have hshown : mask .commentsAndLiterals (write d q.body) = shownFragments d q.body :=
    h.fitting.piecewise.maskFrom_eq
  have hreads : Reads (shownFragments d q.body) 0 _ _ := h.fitting.reads_shown
  rw [structuralLexemes, lexemes, maskLiterals, hmask, lexFrom_blanks hs, hshown]
  exact hreads.1 _

variable {label : String}

/-- The lexemes of the items of a preview. -/
def itemLexemes (d : Dialect) (s : Source) (l : Level) (measure : Expr) (label : String) :
    List (List Lexeme) :=
  (previewItems (Joins.forSource s l) l measure label).map fun i => lexemesOf d 0 i.fragments

/-- The first item is the number of the deal. -/
theorem itemLexemes_eq_cons : ∃ is, itemLexemes d s l measure label =
    [⟨.word "deal".toList, 0, 0⟩, ⟨.punct '.', 0, 0⟩, ⟨.word "dl_nbr".toList, 0, 0⟩] :: is :=
  ⟨_, rfl⟩

/-- The last item is the result. -/
theorem itemLexemes_eq_append : ∃ is, itemLexemes d s l measure label =
    is ++ [lexemesOf d 0 (SelectItem.fragments ⟨measure, some label⟩)] := by
  rw [itemLexemes, previewItems, List.map_append]
  exact ⟨_, rfl⟩

/-- A preview selects the required columns of its level. -/
theorem requiredColumnIssues_preview :
    requiredColumnIssues (itemLexemes d s l measure label) l = [] := by
  have hdeal : selectsColumn "dl_nbr" [⟨.word "deal".toList, 0, 0⟩, ⟨.punct '.', 0, 0⟩,
      ⟨.word "dl_nbr".toList, 0, 0⟩] = true := by decide
  have htranche : selectsColumn "tr_id" [⟨.word "tranche".toList, 0, 0⟩, ⟨.punct '.', 0, 0⟩,
      ⟨.word "tr_id".toList, 0, 0⟩] = true := by decide
  have hselected : ∀ c ∈ requiredColumns l,
      (itemLexemes d s l measure label).any (selectsColumn c.name) = true := by
    intro c hc
    refine List.any_eq_true.2 ?_
    cases l with
    | deal =>
      obtain rfl := List.mem_singleton.1 hc
      obtain ⟨is, hitems⟩ := itemLexemes_eq_cons
      exact ⟨_, by rw [hitems]; exact List.mem_cons_self, hdeal⟩
    | tranche =>
      simp only [requiredColumns, List.mem_cons, List.not_mem_nil, or_false] at hc
      rcases hc with rfl | rfl
      · obtain ⟨is, hitems⟩ := itemLexemes_eq_cons
        exact ⟨_, by rw [hitems]; exact List.mem_cons_self, hdeal⟩
      · refine ⟨_, ?_, htranche⟩
        refine List.mem_map.2 ⟨⟨Columns.trancheId, none⟩, ?_, rfl⟩
        simp [previewItems, Joins.keys]
  rw [requiredColumnIssues]
  split
  · rfl
  · rw [List.map_eq_nil_iff, List.filter_eq_nil_iff]
    intro c hc
    simp [hselected c hc]

/-- The last lexeme of the result is its name. -/
theorem getLast?_result (label : String) (h : Contained d measure.fragments) :
    (lexemesOf d 0 (SelectItem.fragments ⟨measure, some label⟩)).getLast? =
      some ⟨.word label.toList, 0, 0⟩ := by
  rw [(lexemes_result label h).1]
  simp

/-- The tables of a preview, in the order in which they are joined. -/
theorem tables_preview (j : Joins) :
    distinctBy foldCase (Source.deal.table.toList :: (joinList j).map fun x => x.table.toList) =
      j.sources.map fun t => t.table.toList := by
  obtain ⟨tranche, balance⟩ := j
  cases tranche <;> cases balance <;> rfl

/-- A preview selects its result under the name that it is given. -/
theorem resultColumnIssues_preview (hmeasure : Contained d measure.fragments)
    (hlabel : isResultColumn label.toList = true) :
    resultColumnIssues (itemLexemes d s l measure label) label = [] := by
  obtain ⟨is, hitems⟩ : ∃ is, itemLexemes d s l measure label = _ := itemLexemes_eq_append
  have hlast : outputName? (lexemesOf d 0 (SelectItem.fragments ⟨measure, some label⟩)) =
      some label.toList := by
    rw [outputName?, getLast?_result label hmeasure]
    rfl
  have hany : (itemLexemes d s l measure label).any (fun item =>
      isStar item || (outputName? item).any (sameWord · label.toList)) = true := by
    simp [hitems, hlast, sameWord_refl]
  rw [resultColumnIssues, hlabel, hany]
  rfl

/-- **The structure of a preview** is that of its query. -/
theorem structure_preview (h : PlainNames o c) (hmeasure : c.measure? = some measure)
    (grouped : Bool) (hlabel : label = String.ofList (resultColumn c.name.toList))
    {ls : List Lexeme} (hls : ls = lexemesOf d 0 (queryOf c.name s l measure grouped o).body) :
    entryIssues ls = [] ∧ selectList ls = itemLexemes d s l measure label ∧
      shape ls = ⟨false, false, (Joins.forSource s l).sources.map fun t => t.table.toList⟩ := by
  have hsafe := isSafe_queryOf (s := s) (l := l) h (isSafe_measure h hmeasure) grouped
  have htable : (queryOf c.name s l measure grouped o).table = some Source.deal.table := by
    rw [queryOf_eq]
  have hitems : (queryOf c.name s l measure grouped o).items =
      previewItems (Joins.forSource s l) l measure label := by
    rw [queryOf_eq, hlabel]
    rfl
  have hjoins : (queryOf c.name s l measure grouped o).joins = joinList (Joins.forSource s l) := by
    rw [queryOf_eq]
  generalize queryOf c.name s l measure grouped o = q at hsafe htable hitems hjoins hls
  have hcontained := contained_items (j := Joins.forSource s l) (l := l) (d := d) hmeasure label
  rw [← hitems] at hcontained
  have hlevel : ∀ i ∈ q.items, depthAfter 0 i.fragments = 0 := fun i hi => (hcontained i hi).1.1
  have hlexemes : itemLexemes d s l measure label =
      q.items.map fun i => lexemesOf d 0 i.fragments := by rw [itemLexemes, hitems]
  have hlast : (q.front d).getLast?.any (·.isKeyword "DISTINCT") = false := by
    obtain ⟨is, his⟩ : ∃ is, itemLexemes d s l measure label = _ := itemLexemes_eq_append
    have hresult := getLast?_result label (contained_measure (d := d) hmeasure)
    have hne : lexemesOf d 0 (SelectItem.fragments ⟨measure, some label⟩) ≠ [] := by
      intro hnil
      simp [hnil] at hresult
    have hdistinct : sameWord (resultColumn c.name.toList) "DISTINCT".toList = false :=
      not_sameWord_of_not_reserved h.result (by decide)
    rw [Query.front, ← hlexemes, his, List.getLast?_cons, getLast?_intercalate hne, hresult, hlabel]
    simpa [Lexeme.isKeyword] using hdistinct
  refine ⟨?_, ?_, ?_⟩
  · rw [hls]
    exact Query.entryIssues_eq htable hlevel hlast
  · have hisItem : ∀ i ∈ itemLexemes d s l measure label, IsItem i := by
      intro i hi
      rw [hlexemes] at hi
      obtain ⟨item, hitem, rfl⟩ := List.mem_map.1 hi
      obtain ⟨hin, hne⟩ := hcontained item hitem
      exact isItem_of_contained (hsafe.items item hitem) hin hne
    obtain ⟨is, hfirst⟩ : ∃ is, itemLexemes d s l measure label = _ := itemLexemes_eq_cons
    have hselect : isOuterSelect (keywordLexeme "SELECT" 0) = true := by decide
    have hfrom : endsList (keywordLexeme "FROM" 0) = true := by decide
    rw [hls, Query.lexemes_eq htable hlevel, Query.front, ← hlexemes]
    refine selectList_plain hselect rfl rfl hfrom hisItem ?_ ?_
    · rw [hfirst]
      simp
    · rw [hfirst]
      simp only [List.head?_cons, Option.mem_def, Option.some.injEq, forall_eq']
      exact ⟨by decide, by decide⟩
  · rw [hls, hsafe.shape_eq htable hlevel hlast, hjoins, tables_preview]

/-! ## The verdict -/

/-- The text of a preview that there is. -/
theorem sql_of_query? (h : query? o c = some q) : (sql o c).toList = q.write o.dialect := by
  cases c with
  | custom _ => cases h
  | field f => simp [sql, h]
  | aggregation a => simp [sql, h]

/-- **The verdict on a preview.**  The preview of a complete calculation, with
plain names and within the usual length, is valid and gives no cause for
warnings; it has no placeholders and nothing nested, and its tables are
those that the source and the level need, in the order of the joins.  It
does not matter which dialects a parser can read it in. -/
theorem review_preview (parser : Parser) (o : Options) (c : Calculation) (s : Source)
    (hcomplete : (query? o c).isSome = true) (hsource : c.source? = some s)
    (hnames : PlainNames o c)
    (hparser : ∀ r, parser.strip r (sql o c).toList = none ∨
      parser.strip r (sql o c).toList = stripComments r (sql o c).toList)
    (hlength : (sql o c).toList.length ≤ Review.Options.standard.maxLength) :
    let v := reviewWith parser .standard (sql o c).toList c.level
      (String.ofList (resultColumn c.name.toList))
    v.isValid = true ∧ v.warnings = [] ∧ v.placeholders = [] ∧
      v.shape = ⟨false, false,
        (Joins.forSource s c.level).sources.map fun t => t.table.toList⟩ := by
  obtain ⟨q, hq⟩ := Option.isSome_iff_exists.1 hcomplete
  obtain ⟨s', measure, hs', hmeasure, hqueryOf⟩ := query?_eq_some_iff.1 hq
  obtain rfl : s' = s := Option.some.inj (hs'.symm.trans hsource)
  have hsafe : q.IsSafe := by
    rw [hqueryOf]
    exact isSafe_queryOf hnames (isSafe_measure hnames hmeasure) c.isAggregation
  have hcomment : q.comment = some comment := by rw [hqueryOf, queryOf_eq]
  have htext : (sql o c).toList = header ++ Sql.write o.dialect q.body := by
    rw [sql_of_query? hq, write_eq_header_append hcomment]
  rw [htext] at hparser hlength ⊢
  set text := header ++ Sql.write o.dialect q.body
  set label := String.ofList (resultColumn c.name.toList) with hlabel
  have hlexemes : unplaced (structuralLexemes text) = lexemesOf o.dialect 0 q.body :=
    unplaced_structuralLexemes hsafe
  rw [hqueryOf] at hlexemes
  obtain ⟨hentry, hitems, hshape⟩ :=
    structure_preview hnames hmeasure c.isAggregation hlabel hlexemes
  rw [entryIssues_unplaced] at hentry
  rw [selectList_unplaced] at hitems
  rw [shape_unplaced] at hshape
  have hrequired : requiredColumnIssues (selectList (structuralLexemes text)) c.level = [] := by
    rw [← requiredColumnIssues_unplaced, hitems]
    exact requiredColumnIssues_preview
  have hresult : resultColumnIssues (selectList (structuralLexemes text)) label = [] := by
    rw [← resultColumnIssues_unplaced, hitems]
    refine resultColumnIssues_preview (contained_measure hmeasure) ?_
    rw [hlabel, String.toList_ofList]
    exact isResultColumn_resultColumn _
  have hscan : Placeholder.scan text = ⟨[], [], 0⟩ := scan_preview hsafe
  have hgate : gateIssuesWith parser text = [] := gateIssues_preview hsafe hparser
  have hchecks : checkIssues parser .standard text c.level label = [] := by
    rw [checkIssues, hentry, hrequired, hresult, hscan, hgate]
    rfl
  have hverdict : reviewWith parser .standard text c.level label =
      ⟨[], [], shape (structuralLexemes text)⟩ := by
    rw [reviewWith_of_examined parser c.level label (examined_preview hlength), hchecks, hscan]
    rfl
  rw [hverdict, hshape]
  exact ⟨rfl, rfl, rfl, rfl⟩

/-- The preview of the balances is valid, and names all three tables. -/
theorem endingBalance_review :
    let v := review .standard (sql .standard endingBalance).toList .tranche "ending_balance"
    v.isValid = true ∧ v.warnings = [] ∧
      v.shape.tables = ["deal".toList, "tranche".toList, "tranchebal".toList] := by
  have hgiven : given? (some "tr_end_bal_amt") = some "tr_end_bal_amt" := by decide +kernel
  have hfield : endingBalance.field? = some "tr_end_bal_amt" := hgiven
  have hmeasure : endingBalance.measure? = some (Columns.column .trancheBal "tr_end_bal_amt") := by
    simp [endingBalance, Calculation.measure?, ReportedField.field?, hgiven]
  have hquery : query? .standard endingBalance = some (queryOf "Ending Balance" .trancheBal .tranche
      (Columns.column .trancheBal "tr_end_bal_amt") false .standard) :=
    query?_eq_some_iff.2 ⟨_, _, rfl, hmeasure, rfl⟩
  have hcomplete : (query? .standard endingBalance).isSome = true := by
    rw [hquery]
    rfl
  have hplain : IsPlainName "tr_end_bal_amt".toList := by decide
  have hids : ∀ t ∈ ["A", "B"], IsPlainId t.toList := by decide
  have hresult : resultColumn "Ending Balance".toList = "ending_balance".toList := by
    decide +kernel
  have hnames : PlainNames .standard endingBalance := by
    refine ⟨fun f hf => ?_, fun w hw => (by cases hw), hids, ?_⟩
    · rw [hfield] at hf
      obtain rfl : "tr_end_bal_amt" = f := Option.some.inj hf
      exact hplain
    · show isOneOf (resultColumn "Ending Balance".toList) reservedWords = false
      rw [hresult]
      decide
  have hlength : (sql .standard endingBalance).toList.length ≤
      Review.Options.standard.maxLength := by
    rw [sql_of_query? hquery]
    decide +kernel
  obtain ⟨hvalid, hwarnings, -, hshape⟩ := review_preview .standard .standard endingBalance
    .trancheBal hcomplete rfl hnames (fun r => Or.inr rfl) hlength
  have hlabel : String.ofList (resultColumn endingBalance.name.toList) = "ending_balance" := by
    show String.ofList (resultColumn "Ending Balance".toList) = _
    rw [hresult]
    rfl
  have hlevel : endingBalance.level = .tranche := rfl
  rw [hlabel, hlevel] at hvalid hwarnings hshape
  unfold review
  refine ⟨hvalid, hwarnings, ?_⟩
  rw [hshape]
  rfl

end DealSql.Preview
