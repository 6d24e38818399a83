import DealSql.Proofs.UnplacedLexemes
import DealSql.Proofs.Validity

/-!
# Letter case

The structure of a statement is judged without regard to the case of its
ASCII letters, wherever they stand: in keywords, in names, in literals and in
comments.  No letter is a blank, a mark or a delimiter, so a text with its
letters in lower case has the same roles character by character and the same
lexemes, each with its word in lower case.  All keywords and names are
compared in lower case, so none of the judgments sees the difference, and the
tables are the same in lower case.

* `maskFrom_foldCase` — the mask of a text in lower case.
* `lexFrom_foldCase` — its lexemes.
* `structure_ignores_letterCase` — the verdicts on two texts that differ in
  letter case.
-/

namespace DealSql

open DealSql.Text DealSql.Statement

/-! ## Characters -/

namespace Text

variable {c d : Char} {s : List Char}

/-- What is the same for all letters does not depend on letter case. -/
theorem toLower_congr {α : Type} {f : Char → α} {a : α} (h : ∀ c, c.isAlpha = true → f c = a)
    (c : Char) : f c.toLower = f c := by
  rcases toLower_cases c with ⟨hupper, hlower⟩ | ⟨hsame, -⟩
  · rw [h c (Bool.or_eq_true_iff.2 (Or.inl hupper)), h _ (Bool.or_eq_true_iff.2 (Or.inr hlower))]
  · rw [hsame]

/-- A character is a mark when it is one in lower case. -/
theorem toLower_eq_iff (hd : d.isAlpha = false) : c.toLower = d ↔ c = d := by
  have hletter : ∀ c : Char, c.isAlpha = true → decide (c = d) = false := by
    intro c hc
    apply decide_eq_false
    rintro rfl
    rw [hc] at hd
    cases hd
  exact decide_eq_decide.1 (toLower_congr hletter c)

@[simp] theorem foldCase_nil : foldCase [] = [] := rfl

@[simp] theorem foldCase_cons (c : Char) (s : List Char) :
    foldCase (c :: s) = c.toLower :: foldCase s := rfl

@[simp] theorem foldCase_append (a b : List Char) :
    foldCase (a ++ b) = foldCase a ++ foldCase b := List.map_append

@[simp] theorem foldCase_foldCase (s : List Char) : foldCase (foldCase s) = foldCase s := by
  rw [foldCase, foldCase, List.map_map]
  exact List.map_congr_left fun c _ => toLower_toLower c

/-- No letter is blank. -/
theorem isBlank_toLower (c : Char) : isBlank c.toLower = isBlank c := by
  refine toLower_congr (a := false) (fun c hc => ?_) c
  have hword : isWordChar c = true := isWordChar_of_isAlphabetic (isAlphabetic_of_isAlpha hc)
  cases hblank : isBlank c with
  | false => rfl
  | true =>
    rw [isWordChar_of_isBlank hblank] at hword
    cases hword

/-- Letters take one byte. -/
theorem utf8Size_toLower (c : Char) : c.toLower.utf8Size = c.utf8Size := by
  refine toLower_congr (a := 1) (fun c hc => ?_) c
  have hrange := range_of_isAlpha hc
  apply Char.utf8Size_eq_one_iff.2
  apply UInt32.le_iff_toNat_le.2
  show c.toNat ≤ 127
  omega

theorem byteLength_foldCase (s : List Char) : byteLength (foldCase s) = byteLength s := by
  induction s with
  | nil => rfl
  | cons c s ih => simp [byteLength, ih, utf8Size_toLower]

theorem trim_foldCase_eq_nil_iff : trim (foldCase s) = [] ↔ trim s = [] := by
  simp [trim_eq_nil_iff, foldCase, isBlank_toLower]

end Text

/-! ## Masks and lexemes -/

namespace Statement

variable {c stop : Char}

theorem isWordChar_toLower (c : Char) : isWordChar c.toLower = isWordChar c :=
  toLower_congr (fun _ hc => isWordChar_of_isAlphabetic (isAlphabetic_of_isAlpha hc)) c

/-- No letter delimits a name. -/
theorem closing?_toLower (c : Char) : closing? c.toLower = closing? c := by
  refine toLower_congr (a := none) (fun c hc => ?_) c
  exact closing?_of_isWordChar (isWordChar_of_isAlphabetic (isAlphabetic_of_isAlpha hc))

/-- No letter plays a part in which text is code. -/
theorem Region.read_toLower (c : Char) (ahead : Option Char) (g : Region) :
    g.read c.toLower (ahead.map Char.toLower) = g.read c ahead := by
  have hahead : ∀ d : Char, d.isAlpha = false →
      (ahead.map Char.toLower = some d ↔ ahead = some d) := by
    intro d hd
    simp [toLower_eq_iff hd]
  have hdash : c.toLower = '-' ↔ c = '-' := toLower_eq_iff (by decide)
  have hslash : c.toLower = '/' ↔ c = '/' := toLower_eq_iff (by decide)
  have hstar : c.toLower = '*' ↔ c = '*' := toLower_eq_iff (by decide)
  have hquote : c.toLower = '\'' ↔ c = '\'' := toLower_eq_iff (by decide)
  have hname : c.toLower = '"' ↔ c = '"' := toLower_eq_iff (by decide)
  have hline : c.toLower = '\n' ↔ c = '\n' := toLower_eq_iff (by decide)
  cases g <;>
    simp only [read, hdash, hslash, hstar, hquote, hname, hline, hahead '-' (by decide),
      hahead '*' (by decide), hahead '/' (by decide), hahead '\'' (by decide)]

/-- The characters of a text in lower case have the roles of its characters. -/
theorem marksFrom_foldCase (g : Region) (s : List Char) :
    marksFrom g (foldCase s) = (marksFrom g s).map fun x => (x.1.toLower, x.2) := by
  induction s generalizing g with
  | nil => rfl
  | cons c s ih =>
    have hhead : (foldCase s).head? = s.head?.map Char.toLower := List.head?_map
    rw [foldCase_cons, marksFrom, marksFrom, hhead, Region.read_toLower]
    dsimp only
    rw [ih]
    rfl

theorem blanks_toLower (c : Char) : blanks c.toLower = foldCase (blanks c) := by
  have hline : c.toLower = '\n' ↔ c = '\n' := toLower_eq_iff (by decide)
  unfold blanks
  rw [utf8Size_toLower]
  by_cases hc : c = '\n'
  · rw [if_pos hc, if_pos (hline.2 hc)]
    rfl
  · rw [if_neg hc, if_neg (mt hline.1 hc), foldCase, List.map_replicate]
    rfl

/-- **The mask of a text in lower case** is its mask in lower case. -/
theorem maskFrom_foldCase (m : Mask) (g : Region) (s : List Char) :
    maskFrom m g (foldCase s) = foldCase (maskFrom m g s) := by
  have hshow : ∀ x : Char × Role, m.show (x.1.toLower, x.2) = foldCase (m.show x) := by
    intro x
    cases hx : m.hides x.2 with
    | true => rw [Mask.show_of_hides hx, Mask.show_of_hides hx, blanks_toLower]
    | false =>
      rw [Mask.show_of_visible hx, Mask.show_of_visible hx]
      rfl
  rw [maskFrom, maskFrom, marksFrom_foldCase, List.flatMap_map]
  simp only [hshow, foldCase, List.map_flatMap]

/-- A lexeme with its word in lower case. -/
def Lexeme.folded (l : Lexeme) : Lexeme :=
  match l.kind with
  | .word w => { l with kind := .word (foldCase w) }
  | .punct _ => l

/-- **The lexemes of a text in lower case** are its lexemes with their words in
lower case. -/
theorem lexFrom_foldCase (names : Bool) (offset depth : Nat) (s : List Char) :
    lexFrom names offset depth (foldCase s) =
      (lexFrom names offset depth s).map Lexeme.folded := by
  have hrun : ∀ r : List Char,
      (foldCase r).takeWhile isWordChar = foldCase (r.takeWhile isWordChar) ∧
        (foldCase r).dropWhile isWordChar = foldCase (r.dropWhile isWordChar) := by
    intro r
    simp [foldCase, List.takeWhile_map, List.dropWhile_map, Function.comp_def, isWordChar_toLower]
  fun_induction lexFrom names offset depth s with
  | case1 => simp [lexFrom]
  | case2 offset depth c r hc ih =>
    rw [foldCase_cons, lexFrom, if_pos (by rw [isBlank_toLower, hc]), utf8Size_toLower, ih]
  | case3 offset depth c r hb hc w ih =>
    obtain ⟨htake, hdrop⟩ := hrun r
    have hw : c.toLower :: (foldCase r).takeWhile isWordChar = foldCase w := by
      rw [htake]
      rfl
    rw [foldCase_cons, lexFrom, if_neg (by rwa [isBlank_toLower]),
      if_pos (by rwa [isWordChar_toLower])]
    simp only [hw, hdrop, byteLength_foldCase, ih]
    rfl
  | case4 offset depth c r hb hc stop hs inner ih =>
    rw [dite_eq_ite] at hs
    have hstop : stop.isAlpha = false := by
      cases names with
      | false => simp at hs
      | true =>
        rw [if_pos rfl] at hs
        rcases closing?_eq_some hs with ⟨-, rfl⟩ | ⟨-, rfl⟩ <;> rfl
    have hne : ∀ d : Char, (d.toLower != stop) = (d != stop) := by
      intro d
      simp [bne, toLower_eq_iff hstop]
    have htake : (foldCase r).takeWhile (· != stop) = foldCase inner := by
      simp [inner, foldCase, List.takeWhile_map, Function.comp_def, hne]
    have hafter : afterFirst stop (foldCase r) = foldCase (afterFirst stop r) := by
      simp [afterFirst, foldCase, List.dropWhile_map, Function.comp_def, hne]
    rw [foldCase_cons, lexFrom, if_neg (by rwa [isBlank_toLower]),
      if_neg (by rwa [isWordChar_toLower])]
    simp only [closing?_toLower, hs, htake, hafter, byteLength_foldCase, ih]
    rfl
  | case5 offset depth c r hb hc hs outside ih =>
    simp only [dite_eq_ite] at hs ih outside
    have hsame : c.toLower = c := by
      rcases toLower_cases c with ⟨hupper, -⟩ | ⟨hsame, -⟩
      · have hletter : c.isAlpha = true := Bool.or_eq_true_iff.2 (Or.inl hupper)
        exact absurd (isWordChar_of_isAlphabetic (isAlphabetic_of_isAlpha hletter)) hc
      · exact hsame
    have houtside : (if c = ')' then depth - 1 else depth) = outside := by simp [outside]
    rw [foldCase_cons, hsame, lexFrom, if_neg hb, if_neg hc]
    simp only [hs, houtside, ih]
    rfl

/-- A lexeme in lower case is another spelling of it. -/
theorem Lexeme.folded_word? (l : Lexeme) : l.folded.word? = l.word?.map foldCase := by
  cases hkind : l.kind <;> simp [folded, word?, hkind]

end Statement

/-! ## Judgments -/

namespace Review

variable {parser : Parser} {o : Options} {sql a b : List Char} {level : Level} {column : String}

theorem isRespelling_folded : IsRespelling Lexeme.folded foldCase where
  depth l := by cases hkind : l.kind <;> simp [Lexeme.folded, hkind]
  punct l c := by cases hkind : l.kind <;> simp [Lexeme.folded, Lexeme.isPunct, hkind]
  word := Lexeme.folded_word?
  fold := foldCase_foldCase
  point a b := foldCase_append a ('.' :: b)

/-- The lexemes of a statement in lower case. -/
theorem structuralLexemes_foldCase (sql : List Char) :
    structuralLexemes (foldCase sql) = (structuralLexemes sql).map Lexeme.folded := by
  have hmask : maskLiterals (foldCase sql) = foldCase (maskLiterals sql) :=
    maskFrom_foldCase .commentsAndLiterals .code sql
  rw [structuralLexemes, structuralLexemes, hmask]
  exact lexFrom_foldCase true 0 0 (maskLiterals sql)

/-- Whether an issue is of the checks on the structure of a statement: how it
begins, its `FROM`, its required columns and its result. -/
def Issue.isStructural : Issue → Bool
  | .notAQuery => true
  | .missingFrom => true
  | .missingRequiredColumn .. => true
  | .invalidResultColumn _ => true
  | .missingResultColumn _ => true
  | _ => false

/-- The issues of the checks on structure. -/
def structuralIssues (ls : List Lexeme) (level : Level) (column : String) : List Issue :=
  entryIssues ls ++ requiredColumnIssues (selectList ls) level ++
    resultColumnIssues (selectList ls) column

theorem structuralIssues_folded (ls : List Lexeme) (level : Level) (column : String) :
    structuralIssues (ls.map Lexeme.folded) level column = structuralIssues ls level column := by
  have hf := isRespelling_folded
  rw [structuralIssues, structuralIssues, hf.isRelabeling.entryIssues, hf.isRelabeling.selectList,
    hf.requiredColumnIssues, hf.resultColumnIssues]

theorem isStructural_of_mem {i : Issue} {ls : List Lexeme}
    (hi : i ∈ structuralIssues ls level column) : i.isStructural = true := by
  rcases List.mem_append.1 hi with hi | hi
  · rcases List.mem_append.1 hi with hi | hi
    · unfold entryIssues at hi
      rcases List.mem_append.1 hi with hi | hi <;> split at hi <;> simp_all [Issue.isStructural]
    · unfold requiredColumnIssues at hi
      split at hi
      · cases hi
      · obtain ⟨c, -, rfl⟩ := List.mem_map.1 hi
        rfl
  · unfold resultColumnIssues at hi
    split at hi
    · simp_all [Issue.isStructural]
    · split at hi <;> simp_all [Issue.isStructural]

/-- The other checks raise no such issues. -/
theorem not_isStructural_of_mem (parser : Parser) (o : Options) {i : Issue}
    (hi : i ∈ placeholderIssues (Placeholder.scan sql) o.maxPlaceholders ∨
      i ∈ gateIssuesWith parser sql ∨ i ∈ acceptanceIssues parser o.dialect sql) :
    i.isStructural = false := by
  rcases hi with hi | hi | hi
  · unfold placeholderIssues at hi
    split at hi
    · simp_all [Issue.isStructural]
    · obtain ⟨fault, -, rfl⟩ := List.mem_map.1 hi
      rfl
  · obtain ⟨view, -, hsignal⟩ := mem_gateIssuesWith.1 hi
    obtain ⟨l, -, hl⟩ := List.mem_filterMap.1 hsignal
    rcases signal?_blocked hl with rfl | ⟨k, -, rfl⟩ <;> rfl
  · unfold acceptanceIssues at hi
    split at hi <;> simp_all [Issue.isStructural]

/-- Of a statement that is looked into a review says of structure what the checks
on its lexemes say. -/
theorem structure_of_examined (parser : Parser) (level : Level) (column : String)
    (h : Examined o sql) :
    (reviewWith parser o sql level column).issues.filter Issue.isStructural =
        structuralIssues (structuralLexemes sql) level column ∧
      (reviewWith parser o sql level column).shape = shape (structuralLexemes sql) := by
  have hstructural : (structuralIssues (structuralLexemes sql) level column).filter
      Issue.isStructural = structuralIssues (structuralLexemes sql) level column :=
    List.filter_eq_self.2 fun i hi => isStructural_of_mem hi
  have hothers : ∀ is : List Issue, (∀ i ∈ is, i.isStructural = false) →
      is.filter Issue.isStructural = [] := fun is his =>
    List.filter_eq_nil_iff.2 fun i hi => by simp [his i hi]
  have hplaceholders := hothers (placeholderIssues (Placeholder.scan sql) o.maxPlaceholders)
    fun i hi => not_isStructural_of_mem parser o (Or.inl hi)
  have hgate := hothers (gateIssuesWith parser sql)
    fun i hi => not_isStructural_of_mem parser o (Or.inr (Or.inl hi))
  have hacceptance := hothers (acceptanceIssues parser o.dialect sql)
    fun i hi => not_isStructural_of_mem parser o (Or.inr (Or.inr hi))
  rw [reviewWith_of_examined parser level column h]
  refine ⟨?_, rfl⟩
  rw [checkIssues, ← structuralIssues]
  rw [List.filter_append, List.filter_append, List.filter_append, hstructural, hplaceholders, hgate]
  split
  · simp [hacceptance]
  · simp

/-- Nor does a review say anything of structure where it does not look. -/
theorem structure_of_not_examined (parser : Parser) (level : Level) (column : String)
    (h : ¬ Examined o sql) :
    (reviewWith parser o sql level column).issues.filter Issue.isStructural = [] ∧
      (reviewWith parser o sql level column).shape = .unknown := by
  rcases reviewWith_of_not_examined parser level column h with hreview | hreview
  · rw [hreview]
    exact ⟨rfl, rfl⟩
  · rw [hreview]
    exact ⟨rfl, rfl⟩

/-- A statement in lower case is looked into when the statement is. -/
theorem examined_foldCase_iff : Examined o (foldCase sql) ↔ Examined o sql := by
  rw [Examined, Examined, ne_eq, ne_eq, trim_foldCase_eq_nil_iff, foldCase, List.length_map]

/-- The review of a statement in lower case: the same issues of structure, the same
shape, and the same tables in lower case. -/
theorem structure_foldCase (parser : Parser) (o : Options) (sql : List Char) (level : Level)
    (column : String) :
    (reviewWith parser o (foldCase sql) level column).issues.filter Issue.isStructural =
        (reviewWith parser o sql level column).issues.filter Issue.isStructural ∧
      (reviewWith parser o (foldCase sql) level column).shape =
        { (reviewWith parser o sql level column).shape with
          tables := (reviewWith parser o sql level column).shape.tables.map foldCase } := by
  by_cases h : Examined o sql
  · obtain ⟨hissues, hshape⟩ := structure_of_examined parser level column h
    obtain ⟨hissues', hshape'⟩ :=
      structure_of_examined parser level column (examined_foldCase_iff.2 h)
    rw [hissues, hissues', hshape, hshape', structuralLexemes_foldCase]
    exact ⟨structuralIssues_folded _ level column, isRespelling_folded.shape _⟩
  · obtain ⟨hissues, hshape⟩ := structure_of_not_examined parser level column h
    obtain ⟨hissues', hshape'⟩ :=
      structure_of_not_examined parser level column (mt examined_foldCase_iff.1 h)
    rw [hissues, hissues', hshape, hshape']
    exact ⟨rfl, rfl⟩

/-- **The verdict on structure ignores letter case.**  On two texts that differ in
nothing but the case of ASCII letters, a review raises the same issues of
structure in the same order, sees the same common table expressions and
subqueries, and names the same tables up to letter case, one by one. -/
theorem structure_ignores_letterCase (parser : Parser) (o : Options) (level : Level)
    (column : String) {a b : List Char} (h : sameWord a b = true) :
    let v := reviewWith parser o a level column
    let w := reviewWith parser o b level column
    v.issues.filter Issue.isStructural = w.issues.filter Issue.isStructural ∧
      v.shape.hasCtes = w.shape.hasCtes ∧ v.shape.hasSubqueries = w.shape.hasSubqueries ∧
      List.Forall₂ (fun t u => sameWord t u = true) v.shape.tables w.shape.tables := by
  intro v w
  obtain ⟨hissues, hshape⟩ := structure_foldCase parser o a level column
  obtain ⟨hissues', hshape'⟩ := structure_foldCase parser o b level column
  rw [sameWord_iff.1 h] at hissues hshape
  obtain ⟨hctes, hsubqueries, htables⟩ := Shape.mk.inj (hshape.symm.trans hshape')
  refine ⟨hissues.symm.trans hissues', hctes, hsubqueries, ?_⟩
  have hpairs : List.Forall₂ Eq (v.shape.tables.map foldCase) (w.shape.tables.map foldCase) := by
    rw [List.forall₂_eq_eq_eq]
    exact htables
  rw [List.forall₂_map_left_iff, List.forall₂_map_right_iff] at hpairs
  exact hpairs.imp fun t u htu => sameWord_iff.2 htu

/-- A statement with keywords, names, a literal and a letter beyond ASCII. -/
def mixedCase : List Char :=
  "With B as (Select DL_NBR From Tranche) select d.Dl_Nbr, 'É' As X from \"Deal\" d Join b".toList

/-- It is judged as it would be in lower case. -/
theorem mixedCase_judged : sameWord mixedCase (foldCase mixedCase) = true ∧
    let v := review .standard mixedCase .deal "x"
    let w := review .standard (foldCase mixedCase) .deal "x"
    v.issues.filter Issue.isStructural = w.issues.filter Issue.isStructural ∧
      v.shape.hasCtes = w.shape.hasCtes ∧ v.shape.hasSubqueries = w.shape.hasSubqueries ∧
      List.Forall₂ (fun t u => sameWord t u = true) v.shape.tables w.shape.tables ∧
      v.shape.tables = ["Tranche".toList, "Deal".toList, "b".toList] := by
  have hsame : sameWord mixedCase (foldCase mixedCase) = true := by decide
  obtain ⟨hissues, hctes, hsubqueries, htables⟩ :=
    structure_ignores_letterCase .standard .standard .deal "x" hsame
  exact ⟨hsame, hissues, hctes, hsubqueries, htables, by decide +kernel⟩

end Review

end DealSql
