import DealSql.Proofs.GateWords
import DealSql.Proofs.TokenSeams

/-!
# Keywords among the tokens

A keyword that a dialect reads as a word is reported when its neighbours
leave it alone in the printed code, and whether they do depends on their
kinds (`Token.joinsNext`, `Token.joinsPrevious`).  A number directly before
a keyword does not, and such a keyword can pass the gate unseen.

* `reports_iff_shown` — a keyword is reported exactly when some view shows it.
* `keyword_token_reported` — which keywords among the tokens are shown.
* `keywordAfterNumber_valid` — a keyword that no view shows.
-/

namespace DealSql.Review

open DealSql.Text DealSql.Statement

variable {parser : Parser} {accepts : Dialect → List Char → Bool} {o : Options} {sql : List Char}
  {k : String}

/-- A review finds a keyword, and the statement invalid for it. -/
def Reports (parser : Parser) (o : Options) (sql : List Char) (level : Level)
    (column k : String) : Prop :=
  (reviewWith parser o sql level column).isValid = false ∧
    .blockedKeyword k ∈ (reviewWith parser o sql level column).issues

/-- No token next to a word runs into it. -/
def SetApart (before after : List Token) : Prop :=
  before.getLast?.any Token.joinsNext = false ∧ after.head?.any Token.joinsPrevious = false

/-- A keyword is reported exactly when some view shows it as a word of its own. -/
theorem reports_iff_shown (level : Level) (column : String) (h : Examined o sql)
    (hk : k ∈ blockedKeywords) :
    Reports parser o sql level column k ↔ ∃ v ∈ codeViewsWith parser sql, ShowsAlone k v := by
  constructor
  · intro hreports
    obtain ⟨-, hmem⟩ := hreports
    have hcount : (reviewWith parser o sql level column).issues.count (.blockedKeyword k) =
        (gateIssuesWith parser sql).count (.blockedKeyword k) :=
      count_issues_reviewWith h rfl
    have hgate : .blockedKeyword k ∈ gateIssuesWith parser sql := by
      refine List.count_pos_iff.1 ?_
      rw [← hcount]
      exact List.count_pos_iff.2 hmem
    obtain ⟨v, hv, hsignal⟩ := mem_gateIssuesWith.1 hgate
    exact ⟨v, hv, (blockedKeyword_mem_signals_iff hk).1 hsignal⟩
  · intro hview
    obtain ⟨v, hv, hshown⟩ := hview
    have hgate : .blockedKeyword k ∈ gateIssuesWith parser sql :=
      mem_gateIssuesWith.2 ⟨v, hv, (blockedKeyword_mem_signals_iff hk).2 hshown⟩
    obtain ⟨hvalid, hcount⟩ := reported_once level column h rfl hgate
    exact ⟨hvalid, List.count_pos_iff.1 (by rw [hcount]; decide)⟩

/-- A keyword among the tokens stands alone in the printed code exactly when
it is set apart. -/
theorem aloneInPrint_iff {d : Dialect} {before after : List Token} {w : List Char}
    (hk : k ∈ blockedKeywords) (hw : sameWord w k.toList = true)
    (h : tokens d sql = some (before ++ .word w :: after)) :
    (endsInWord (before.flatMap Token.text) = false ∧
        beginsWithWord (after.flatMap Token.text) = false) ↔ SetApart before after := by
  obtain ⟨hne, hletters⟩ := letters_of_sameWord (blockedKeywords_letters k hk) hw
  have hhead : w.head?.any isAlphabetic = true := by
    obtain ⟨c, r, rfl⟩ := List.exists_cons_of_ne_nil hne
    exact hletters c List.mem_cons_self
  rw [endsInWord_before h hhead, beginsWithWord_after h, SetApart]

/-- The printed code of a dialect shows the keywords that are set apart. -/
theorem shown_of_setApart {d : Dialect} {before after : List Token} {w : List Char}
    (hk : k ∈ blockedKeywords) (hw : sameWord w k.toList = true)
    (h : tokens d sql = some (before ++ .word w :: after)) (hapart : SetApart before after) :
    ∃ v ∈ codeViewsWith (.reading accepts) sql, ShowsAlone k v := by
  obtain ⟨hbefore, hafter⟩ := (aloneInPrint_iff hk hw h).2 hapart
  refine ⟨(before ++ .word w :: after).flatMap Token.text, ?_, w, hw, _, _, ?_, hbefore, hafter⟩
  · refine List.mem_cons_of_mem _ (List.mem_map.2 ⟨d, by cases d <;> decide, ?_⟩)
    simp [Parser.reading, stripComments, h]
  · simp [Token.text]

/-- **A keyword among the tokens of a dialect is reported** if it is set
apart from its neighbours, whatever statements the dialects accept; set apart
is what makes it a word of the printed code, and a keyword is reported exactly
when some view shows it as a word. -/
theorem keyword_token_reported (accepts : Dialect → List Char → Bool) (o : Options)
    (sql : List Char) (level : Level) (column : String) (h : Examined o sql) :
    ∀ k ∈ blockedKeywords,
      (∀ d before w after, tokens d sql = some (before ++ .word w :: after) →
        sameWord w k.toList = true →
        ((endsInWord (before.flatMap Token.text) = false ∧
            beginsWithWord (after.flatMap Token.text) = false) ↔ SetApart before after) ∧
        (SetApart before after → Reports (.reading accepts) o sql level column k)) ∧
      (Reports (.reading accepts) o sql level column k ↔
        ∃ v ∈ codeViewsWith (.reading accepts) sql, ShowsAlone k v) := by
  intro k hk
  refine ⟨fun d before w after htokens hw => ⟨aloneInPrint_iff hk hw htokens, fun hapart => ?_⟩, ?_⟩
  · exact (reports_iff_shown level column h hk).2 (shown_of_setApart hk hw htokens hapart)
  · exact reports_iff_shown level column h hk

/-- A keyword right after a number. -/
def keywordAfterNumber : List Char :=
  "SELECT deal.dl_nbr, 1 AS x FROM deal WHERE 1 = 1DELETE FROM deal".toList

/-- Every dialect reads the keyword as a word, and the statement is valid. -/
theorem keywordAfterNumber_valid :
    Examined .standard keywordAfterNumber ∧ "DELETE" ∈ blockedKeywords ∧
      (∀ d, .word "DELETE".toList ∈ (tokens d keywordAfterNumber).getD []) ∧
      (review .standard keywordAfterNumber .deal "x").isValid = true ∧
      (review .standard keywordAfterNumber .deal "x").issues = [] := by
  have hissues : (review .standard keywordAfterNumber .deal "x").issues = [] := by decide +kernel
  refine ⟨⟨by decide, by decide⟩, by decide, fun d => ?_, ?_, hissues⟩
  · cases d <;> decide +kernel
  · simp [Verdict.isValid, hissues]

/-- A keyword between a comment and a semicolon. -/
def keywordAfterComment : List Char := "SELECT 1/**/DROP;".toList

/-- A keyword that a comment sets apart is reported. -/
theorem keywordAfterComment_reported :
    Examined .standard keywordAfterComment ∧
      Reports .standard .standard keywordAfterComment .deal "x" "DROP" := by
  have h : Examined .standard keywordAfterComment := ⟨by decide, by decide⟩
  have htokens : tokens .duckdb keywordAfterComment =
      some ([.word "SELECT".toList, .blank ' ', .number ['1'], .comment] ++
        .word "DROP".toList :: [.symbol [';']]) := by decide +kernel
  obtain ⟨hreports, -⟩ :=
    keyword_token_reported isWellFormed .standard keywordAfterComment .deal "x" h "DROP" (by decide)
  exact ⟨h, (hreports .duckdb _ _ _ htokens (by decide)).2 ⟨by decide, by decide⟩⟩

end DealSql.Review
