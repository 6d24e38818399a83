import DealSql.Proofs.LexemeSeams
import DealSql.Proofs.Regions
import DealSql.Review.Verdict
import Mathlib.Data.List.Nodup

/-!
# What the gate sees

The gate reports a keyword exactly when some view of the statement shows it
as a word of its own, and it reports two statements whenever some view
shows a semicolon with something behind it.  The lexical view is always
among the views, so whatever stands outside the comments is seen, however
the dialects read the statement.

* `blockedKeyword_mem_signals_iff` — the keywords that a view signals.
* `count_issues_reviewWith` — a review adds nothing to the gate and takes
  nothing away.
* `visible_code_reported_once` — what stands outside the comments is
  reported, and once.
-/

namespace DealSql.Review

open DealSql.Text DealSql.Statement

/-! ## Keywords as words -/

/-- The blocked keywords differ in more than letter case. -/
theorem blockedKeywords_distinct : ∀ j ∈ blockedKeywords, ∀ k ∈ blockedKeywords,
    foldCase j.toList = foldCase k.toList → j = k := by decide

/-- A keyword is spelled with letters alone. -/
def InLetters (k : String) : Prop := k.toList ≠ [] ∧ ∀ c ∈ foldCase k.toList, c.isAlpha = true

instance (k : String) : Decidable (InLetters k) := inferInstanceAs (Decidable (_ ∧ _))

/-- The blocked keywords are made of letters. -/
theorem blockedKeywords_letters : ∀ k ∈ blockedKeywords, InLetters k := by decide

/-- Every spelling of such a keyword is made of letters. -/
theorem letters_of_sameWord {k : String} (hk : InLetters k) {w : List Char}
    (h : sameWord w k.toList = true) : w ≠ [] ∧ ∀ c ∈ w, isAlphabetic c = true := by
  obtain ⟨hne, hletters⟩ := hk
  rw [sameWord_iff] at h
  refine ⟨?_, fun c hc => ?_⟩
  · rintro rfl
    simp [foldCase] at h
    exact hne (by simpa using h.symm)
  · have hlower : c.toLower ∈ foldCase k.toList := by
      rw [← h]
      exact List.mem_map_of_mem hc
    exact isAlphabetic_of_isAlpha (isAlpha_of_isAlpha_toLower (hletters _ hlower))

/-- Every spelling of such a keyword is a word. -/
theorem isWord_of_sameWord {k : String} (hk : InLetters k) {w : List Char}
    (h : sameWord w k.toList = true) : IsWord w := by
  obtain ⟨hne, hletters⟩ := letters_of_sameWord hk h
  exact ⟨hne, fun c hc => isWordChar_of_isAlphabetic (hletters c hc)⟩

/-- A word is a blocked keyword exactly when it spells one. -/
theorem blockedKeyword?_eq_some_iff {w : List Char} {k : String} :
    blockedKeyword? w = some k ↔ k ∈ blockedKeywords ∧ sameWord w k.toList = true := by
  constructor
  · intro h
    exact ⟨List.mem_of_find?_eq_some h, by simpa using List.find?_some h⟩
  · intro hkeyword
    obtain ⟨hk, hw⟩ := hkeyword
    cases hf : blockedKeyword? w with
    | none =>
      have := List.find?_eq_none.1 hf k hk
      simp [hw] at this
    | some j =>
      have hj : sameWord w j.toList = true := by simpa using List.find?_some hf
      rw [sameWord_iff] at hw hj
      rw [blockedKeywords_distinct j (List.mem_of_find?_eq_some hf) k hk (hj.symm.trans hw)]

/-! ## The signals of a view -/

/-- A view shows a keyword as a word of its own. -/
def ShowsAlone (k : String) (view : List Char) : Prop :=
  ∃ w, sameWord w k.toList = true ∧ StandsAlone w view

/-- A view shows a keyword exactly when one of its lexemes is the keyword. -/
theorem showsAlone_iff {k : String} (hk : InLetters k) {view : List Char} :
    ShowsAlone k view ↔ ∃ l ∈ plainLexemes view, l.isKeyword k = true := by
  constructor
  · rintro ⟨w, hw, halone⟩
    obtain ⟨l, hl, hkind⟩ := word_mem_plainLexemes_iff.2 ⟨isWord_of_sameWord hk hw, halone⟩
    exact ⟨l, hl, Lexeme.isKeyword_iff.2 ⟨w, hkind, hw⟩⟩
  · rintro ⟨l, hl, hkeyword⟩
    obtain ⟨w, hkind, hw⟩ := Lexeme.isKeyword_iff.1 hkeyword
    exact ⟨w, hw, (word_mem_plainLexemes_iff.1 ⟨l, hl, hkind⟩).2⟩

/-- A view signals a keyword exactly when it shows it as a word of its own. -/
theorem blockedKeyword_mem_signals_iff {k : String} (hk : k ∈ blockedKeywords)
    {view : List Char} : .blockedKeyword k ∈ signals view ↔ ShowsAlone k view := by
  rw [signals, List.mem_filterMap, showsAlone_iff (blockedKeywords_letters k hk)]
  constructor
  · rintro ⟨l, hl, hs⟩
    refine ⟨l, hl, ?_⟩
    unfold signal? at hs
    split at hs
    · split at hs <;> simp at hs
    · simp at hs
    · next w hw =>
      obtain ⟨j, hj, he⟩ := Option.map_eq_some_iff.1 hs
      obtain rfl : j = k := by simpa using he
      simpa [Lexeme.isKeyword, hw] using (blockedKeyword?_eq_some_iff.1 hj).2
  · rintro ⟨l, hl, hkeyword⟩
    obtain ⟨w, hkind, hw⟩ := Lexeme.isKeyword_iff.1 hkeyword
    exact ⟨l, hl, by simp [signal?, hkind, blockedKeyword?_eq_some_iff.2 ⟨hk, hw⟩]⟩

/-- What a cut right behind a semicolon leaves. -/
theorem dropBytes_semicolon (a b : List Char) :
    dropBytes (byteLength a + 1) (a ++ ';' :: b) = b := by
  have hsize : ';'.utf8Size = 1 := rfl
  have hcut := dropBytes_of_append (a ++ [';']) b
  simpa [byteLength, hsize] using hcut

/-- A view signals two statements where something follows a semicolon. -/
theorem multipleStatements_mem_signals {a b : List Char} (hb : ∃ c ∈ b, isBlank c = false) :
    .multipleStatements ∈ signals (a ++ ';' :: b) := by
  obtain ⟨l, hl, hkind, hoffset⟩ := semicolon_mem_plainLexemes a b
  rw [signals, List.mem_filterMap]
  refine ⟨l, hl, ?_⟩
  have hrest : dropBytes (l.offset + 1) (a ++ ';' :: b) = b := by
    rw [hoffset, dropBytes_semicolon]
  have hne : trim b ≠ [] := by
    obtain ⟨c, hc, hvisible⟩ := hb
    intro hnil
    simp [trim_eq_nil_iff.1 hnil c hc] at hvisible
  simp [signal?, hkind, hrest, hne]

/-! ## The gate within a review -/

/-- The entry of a statement is well formed or not. -/
theorem entryIssues_category {ls : List Lexeme} {i : Issue} (h : i ∈ entryIssues ls) :
    i.category = .malformedInput := by
  unfold entryIssues at h
  rcases List.mem_append.1 h with h | h <;> split at h <;> simp_all [Issue.category]

theorem requiredColumnIssues_category {items : List (List Lexeme)} {level : Level} {i : Issue}
    (h : i ∈ requiredColumnIssues items level) : i.category = .missingRequiredColumn := by
  unfold requiredColumnIssues at h
  split at h
  · simp at h
  · obtain ⟨c, -, rfl⟩ := List.mem_map.1 h
    simp [Issue.category]

theorem resultColumnIssues_category {items : List (List Lexeme)} {column : String} {i : Issue}
    (h : i ∈ resultColumnIssues items column) :
    i.category = .malformedInput ∨ i.category = .missingResultColumn := by
  unfold resultColumnIssues at h
  split at h
  · simp_all [Issue.category]
  · split at h <;> simp_all [Issue.category]

theorem placeholderIssues_category {s : Placeholder.Scan} {max : Nat} {i : Issue}
    (h : i ∈ placeholderIssues s max) : i.category = .limitExceeded ∨
      i.category = .unknownPlaceholder ∨ i.category = .invalidPlaceholder := by
  unfold placeholderIssues at h
  split at h
  · simp_all [Issue.category]
  · obtain ⟨f, -, rfl⟩ := List.mem_map.1 h
    cases f <;> simp [Issue.category]

theorem acceptanceIssues_category {parser : Parser} {d : Dialect} {sql : List Char} {i : Issue}
    (h : i ∈ acceptanceIssues parser d sql) : i.category = .malformedInput := by
  unfold acceptanceIssues at h
  split at h <;> simp_all [Issue.category]

/-- A statement that is looked into: not too long, and not blank. -/
def Examined (o : Options) (sql : List Char) : Prop :=
  sql.length ≤ o.maxLength ∧ trim sql ≠ []

/-- The issues that the checks find, before the dialect is asked whether it
accepts the statement. -/
def checkIssues (parser : Parser) (o : Options) (sql : List Char) (level : Level)
    (column : String) : List Issue :=
  entryIssues (structuralLexemes sql) ++
    requiredColumnIssues (selectList (structuralLexemes sql)) level ++
    resultColumnIssues (selectList (structuralLexemes sql)) column ++
    placeholderIssues (Placeholder.scan sql) o.maxPlaceholders ++ gateIssuesWith parser sql

/-- **The review of a statement that is looked into.**  The dialect is asked
when the review is strict and the checks find nothing fatal. -/
theorem reviewWith_of_examined (parser : Parser) {o : Options} {sql : List Char} (level : Level)
    (column : String) (h : Examined o sql) :
    reviewWith parser o sql level column =
      ⟨checkIssues parser o sql level column ++
        (if o.strict && !(checkIssues parser o sql level column).any Issue.isFatal then
          acceptanceIssues parser o.dialect sql else []),
        placeholdersUsed (Placeholder.scan sql) o.maxPlaceholders,
        shape (structuralLexemes sql)⟩ := by
  have hblank : ¬ (trim sql).isEmpty = true := by simpa using h.2
  rw [reviewWith, if_neg (Nat.not_lt.2 h.1), if_neg hblank]
  rfl

/-- The review of a statement that is not looked into says why, and no more. -/
theorem reviewWith_of_not_examined (parser : Parser) {o : Options} {sql : List Char}
    (level : Level) (column : String) (h : ¬ Examined o sql) :
    reviewWith parser o sql level column = .rejected (.tooLong sql.length o.maxLength) ∨
      reviewWith parser o sql level column = .rejected .emptySql := by
  rw [reviewWith]
  by_cases hlength : sql.length > o.maxLength
  · exact Or.inl (if_pos hlength)
  · have hblank : (trim sql).isEmpty = true := by
      by_contra hvisible
      exact h ⟨Nat.not_lt.1 hlength, by simpa using hvisible⟩
    rw [if_neg hlength, if_pos hblank]
    exact Or.inr rfl

/-- A review adds nothing to what the gate finds and takes nothing away. -/
theorem count_issues_reviewWith {parser : Parser} {o : Options} {sql : List Char} {level : Level}
    {column : String} (h : Examined o sql) {i : Issue} (hi : i.category = .securityViolation) :
    (reviewWith parser o sql level column).issues.count i =
      (gateIssuesWith parser sql).count i := by
  -- none of the other checks raises an issue of this category
  have hentry : ∀ ls, i ∉ entryIssues ls := by
    intro ls hm
    simp [entryIssues_category hm] at hi
  have hrequired : ∀ items, i ∉ requiredColumnIssues items level := by
    intro items hm
    simp [requiredColumnIssues_category hm] at hi
  have hresult : ∀ items, i ∉ resultColumnIssues items column := by
    intro items hm
    rcases resultColumnIssues_category hm with hc | hc <;> simp [hc] at hi
  have hplaceholders : ∀ s max, i ∉ placeholderIssues s max := by
    intro s max hm
    rcases placeholderIssues_category hm with hc | hc | hc <;> simp [hc] at hi
  have hdialect : i ∉ acceptanceIssues parser o.dialect sql := by
    intro hm
    simp [acceptanceIssues_category hm] at hi
  have hchecks : (checkIssues parser o sql level column).count i =
      (gateIssuesWith parser sql).count i := by
    simp only [checkIssues, List.count_append, List.count_eq_zero.2 (hentry _),
      List.count_eq_zero.2 (hrequired _), List.count_eq_zero.2 (hresult _),
      List.count_eq_zero.2 (hplaceholders _ _), Nat.zero_add]
  rw [reviewWith_of_examined parser level column h]
  dsimp only
  rw [List.count_append, hchecks]
  split
  · rw [List.count_eq_zero.2 hdialect, Nat.add_zero]
  · rfl

/-- What the gate finds is found once, and makes the statement invalid. -/
theorem reported_once {parser : Parser} {o : Options} {sql : List Char} (level : Level)
    (column : String) (h : Examined o sql) {i : Issue} (hi : i.category = .securityViolation)
    (hmem : i ∈ gateIssuesWith parser sql) :
    (reviewWith parser o sql level column).isValid = false ∧
      (reviewWith parser o sql level column).issues.count i = 1 := by
  have hcount : (reviewWith parser o sql level column).issues.count i = 1 := by
    rw [count_issues_reviewWith h hi]
    exact List.count_eq_one_of_mem (nodup_gateIssuesWith parser sql) hmem
  have hin : i ∈ (reviewWith parser o sql level column).issues :=
    List.count_pos_iff.1 (by omega)
  have hfatal : i.isFatal = true := by simp [Issue.isFatal, hi, Category.isFatal]
  refine ⟨?_, hcount⟩
  simpa [Verdict.isValid] using ⟨i, hin, hfatal⟩

/-- The lexical view is always looked at. -/
theorem mem_gateIssuesWith_of_lexical {parser : Parser} {sql : List Char} {i : Issue}
    (h : i ∈ signals (maskComments sql)) : i ∈ gateIssuesWith parser sql :=
  mem_gateIssuesWith.2 ⟨maskComments sql, by simp [codeViewsWith], h⟩

/-- **What stands outside the comments is reported, and once**, whatever the
dialects make of the statement: a blocked keyword that no word character
touches once the comments are masked, and a semicolon with something
visible behind it.  Both may stand inside a literal or a quoted name. -/
theorem visible_code_reported_once (parser : Parser) (o : Options) (sql : List Char)
    (level : Level) (column : String) (h : Examined o sql) :
    (∀ k ∈ blockedKeywords, ∀ before here after,
      marks sql = before ++ here ++ after →
      sameWord (here.map Prod.fst) k.toList = true →
      (∀ x ∈ here, x.2 ≠ .comment) →
      endsInWord (before.flatMap Mask.comments.show) = false →
      beginsWithWord (after.flatMap Mask.comments.show) = false →
      (reviewWith parser o sql level column).isValid = false ∧
        (reviewWith parser o sql level column).issues.count (.blockedKeyword k) = 1) ∧
    (∀ before role after,
      marks sql = before ++ (';', role) :: after →
      role ≠ .comment →
      (∃ x ∈ after, x.2 ≠ .comment ∧ isBlank x.1 = false) →
      (reviewWith parser o sql level column).isValid = false ∧
        (reviewWith parser o sql level column).issues.count .multipleStatements = 1) := by
  constructor
  · intro k hk before here after hmarks hword hvisible hbefore hafter
    have hview : maskComments sql = before.flatMap Mask.comments.show ++ here.map Prod.fst ++
        after.flatMap Mask.comments.show := by
      rw [← flatMap_show_of_not_comment here hvisible, ← List.flatMap_append, ← List.flatMap_append,
        ← hmarks]
      rfl
    have halone : ShowsAlone k (maskComments sql) := ⟨_, hword, _, _, hview, hbefore, hafter⟩
    exact reported_once level column h rfl
      (mem_gateIssuesWith_of_lexical ((blockedKeyword_mem_signals_iff hk).2 halone))
  · intro before role after hmarks hrole hrest
    have hview : maskComments sql =
        before.flatMap Mask.comments.show ++ ';' :: after.flatMap Mask.comments.show := by
      have hsemi := flatMap_show_of_not_comment [(';', role)] (by simpa using hrole)
      have hcons : (';', role) :: after = [(';', role)] ++ after := rfl
      show (marks sql).flatMap Mask.comments.show = _
      rw [hmarks, hcons, List.flatMap_append, List.flatMap_append, hsemi]
      rfl
    have hshown : ∃ c ∈ after.flatMap Mask.comments.show, isBlank c = false := by
      obtain ⟨x, hx, hxrole, hxblank⟩ := hrest
      refine ⟨x.1, List.mem_flatMap.2 ⟨x, hx, ?_⟩, hxblank⟩
      have := flatMap_show_of_not_comment [x] (by simpa using hxrole)
      simp_all
    refine reported_once level column h rfl (mem_gateIssuesWith_of_lexical ?_)
    rw [hview]
    exact multipleStatements_mem_signals hshown

/-- A keyword and a semicolon in one literal. -/
def statementInLiteral : List Char := "SELECT ';DROP y'".toList

/-- A keyword and a semicolon within a literal are reported. -/
theorem statementInLiteral_reported :
    Examined .standard statementInLiteral ∧
      (review .standard statementInLiteral .deal "x").issues.count (.blockedKeyword "DROP") = 1 ∧
      (review .standard statementInLiteral .deal "x").issues.count .multipleStatements = 1 := by
  have h : Examined .standard statementInLiteral := ⟨by decide, by decide⟩
  obtain ⟨hword, hsemi⟩ :=
    visible_code_reported_once .standard .standard statementInLiteral .deal "x" h
  let ms := marks statementInLiteral
  have hdrop := hword "DROP" (by decide) (ms.take 9) ((ms.drop 9).take 4) (ms.drop 13)
    (by decide) (by decide) (by decide) (by decide) (by decide)
  have htwo := hsemi (ms.take 8) .literal (ms.drop 9) (by decide) (by decide)
    ⟨('D', .literal), by decide, by decide, by decide⟩
  exact ⟨h, hdrop.2, htwo.2⟩

end DealSql.Review
