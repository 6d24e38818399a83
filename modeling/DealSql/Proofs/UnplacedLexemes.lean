import DealSql.Proofs.AlikeTexts
import DealSql.Review.Verdict

/-!
# Lexemes without their places

Where a statement is cut and put together again the lexemes behind the cut
move.  None of the judgments on the structure of a statement looks at where
a lexeme is: they are the same for lexemes that have been brought to one
place.  Nor do they look at the text of a word that is none of a few keywords,
so they are the same under any relabeling of such words.

* `unplaced_lexFrom` — lexemes differ from place to place in nothing else.
* `IsRelabeling` — a change of lexemes that the judgments do not see.
* `IsRelabeling.entryIssues`, `IsRelabeling.requiredColumnIssues` and the others —
  what the judgments do not see.
* `IsRespelling.shape` — of words that are spelled anew, only the names of tables
  show.
-/

namespace DealSql.Statement

/-- A lexeme brought to the beginning of the text. -/
def Lexeme.unplaced (l : Lexeme) : Lexeme := { l with offset := 0 }

/-- Lexemes brought to one place. -/
def unplaced (ls : List Lexeme) : List Lexeme := ls.map Lexeme.unplaced

@[simp] theorem Lexeme.unplaced_kind (l : Lexeme) : l.unplaced.kind = l.kind := rfl

@[simp] theorem Lexeme.unplaced_depth (l : Lexeme) : l.unplaced.depth = l.depth := rfl

@[simp] theorem Lexeme.unplaced_word? (l : Lexeme) : l.unplaced.word? = l.word? := rfl

@[simp] theorem Lexeme.unplaced_isKeyword (l : Lexeme) (k : String) :
    l.unplaced.isKeyword k = l.isKeyword k := rfl

@[simp] theorem Lexeme.unplaced_isPunct (l : Lexeme) (c : Char) :
    l.unplaced.isPunct c = l.isPunct c := rfl

@[simp] theorem unplaced_nil : unplaced [] = [] := rfl

@[simp] theorem unplaced_cons (l : Lexeme) (ls : List Lexeme) :
    unplaced (l :: ls) = l.unplaced :: unplaced ls := rfl

@[simp] theorem unplaced_append (ls ms : List Lexeme) :
    unplaced (ls ++ ms) = unplaced ls ++ unplaced ms := List.map_append

/-- Lexemes brought to one place are their outline. -/
theorem unplaced_eq (ls : List Lexeme) :
    unplaced ls = (outline ls).map fun x => ⟨x.1, 0, x.2⟩ := by
  simp [unplaced, outline, Lexeme.unplaced]

/-- Lexemes differ from place to place in nothing else. -/
theorem unplaced_lexFrom (names : Bool) (offset offset' depth : Nat) (s : List Char) :
    unplaced (lexFrom names offset depth s) = unplaced (lexFrom names offset' depth s) := by
  rw [unplaced_eq, unplaced_eq, outline_offset names offset offset' depth s]

end DealSql.Statement

namespace DealSql.Review

open DealSql.Text DealSql.Statement

/-- The keywords on which the structure of a statement is judged. -/
def structuralKeywords : List String :=
  ["SELECT", "WITH", "FROM", "DISTINCT", "ALL", "TOP", "AS", "JOIN", "MATERIALIZED"]

/-- A change of lexemes that leaves depths, marks and keywords as they are. -/
structure IsRelabeling (f : Lexeme → Lexeme) : Prop where
  depth : ∀ l, (f l).depth = l.depth
  punct : ∀ l c, (f l).isPunct c = l.isPunct c
  word : ∀ l, (f l).word?.isSome = l.word?.isSome
  keyword : ∀ k ∈ structuralKeywords, ∀ l, (f l).isKeyword k = l.isKeyword k

theorem isRelabeling_unplaced : IsRelabeling Lexeme.unplaced :=
  ⟨fun _ => rfl, fun _ _ => rfl, fun _ => rfl, fun _ _ _ => rfl⟩

variable {f : Lexeme → Lexeme} (hf : IsRelabeling f) {ls : List Lexeme}

/-! ## Select lists -/

theorem splitAtEach_map {α β : Type} (f : α → β) (test : β → Bool) (as : List α) :
    splitAtEach test (as.map f) = (splitAtEach (fun a => test (f a)) as).map (List.map f) := by
  induction as with
  | nil => rfl
  | cons a as ih =>
    rw [List.map_cons, splitAtEach, splitAtEach, ih]
    by_cases h : test (f a) = true
    · simp [h]
    · simp only [h]
      cases splitAtEach (fun a => test (f a)) as <;> simp

namespace IsRelabeling

include hf

/-! ### Tests of one lexeme -/

theorem isOuterSelect (l : Lexeme) : isOuterSelect (f l) = isOuterSelect l := by
  rw [Review.isOuterSelect, Review.isOuterSelect, hf.depth, hf.keyword _ (by decide)]

theorem endsList (l : Lexeme) : endsList (f l) = endsList l := by
  rw [Review.endsList, Review.endsList, hf.depth, hf.keyword _ (by decide), hf.punct]

theorem separatesItems (l : Lexeme) : separatesItems (f l) = separatesItems l := by
  rw [Review.separatesItems, Review.separatesItems, hf.depth, hf.punct]

theorem isDistinctness (l : Lexeme) : isDistinctness (f l) = isDistinctness l := by
  rw [Review.isDistinctness, Review.isDistinctness, hf.keyword _ (by decide),
    hf.keyword _ (by decide)]

/-! ### Items -/

theorem afterModifiers (ls : List Lexeme) :
    afterModifiers (ls.map f) = (afterModifiers ls).map f := by
  have hdrop : (ls.map f).dropWhile Review.isDistinctness =
      (ls.dropWhile Review.isDistinctness).map f := by
    rw [List.dropWhile_map]
    congr 2
    funext l
    exact hf.isDistinctness l
  unfold Review.afterModifiers
  rw [hdrop]
  cases ls.dropWhile Review.isDistinctness with
  | nil => rfl
  | cons l r =>
    have htop : (f l).isKeyword "TOP" = l.isKeyword "TOP" := hf.keyword _ (by decide) l
    by_cases h : l.isKeyword "TOP" = true
    · simp [h, htop]
    · simp [h, htop]

/-- The items of a select list. -/
theorem selectList (ls : List Lexeme) :
    selectList (ls.map f) = (selectList ls).map (List.map f) := by
  unfold Review.selectList
  have hselect : (ls.map f).dropWhile (fun l => !Review.isOuterSelect l) =
      (ls.dropWhile fun l => !Review.isOuterSelect l).map f := by
    simp only [List.dropWhile_map, Function.comp_def, hf.isOuterSelect]
  have htake : ∀ ms : List Lexeme, (ms.map f).takeWhile (fun l => !Review.endsList l) =
      (ms.takeWhile fun l => !Review.endsList l).map f := by
    intro ms
    simp only [List.takeWhile_map, Function.comp_def, hf.endsList]
  have hsplit : ∀ ms : List Lexeme, splitAtEach Review.separatesItems (ms.map f) =
      (splitAtEach Review.separatesItems ms).map (List.map f) := by
    intro ms
    simp only [splitAtEach_map, hf.separatesItems]
  rw [hselect, ← List.map_tail, hf.afterModifiers]
  dsimp only
  rw [htake, hsplit]
  simp [List.filter_map, Function.comp_def]

theorem isStar (item : List Lexeme) : isStar (item.map f) = isStar item := by
  rcases item with _ | ⟨a, _ | ⟨b, _ | ⟨c, _ | ⟨e, item⟩⟩⟩⟩
  all_goals simp [Review.isStar, hf.punct]

theorem unqualified (item : List Lexeme) : unqualified (item.map f) = (unqualified item).map f := by
  fun_induction Review.unqualified item with
  | case1 l dot r h ih =>
    rw [List.map_cons, List.map_cons, Review.unqualified,
      if_pos (by simpa [hf.word, hf.punct] using h), ih]
  | case2 l dot r h =>
    rw [List.map_cons, List.map_cons, Review.unqualified,
      if_neg (by simpa [hf.word, hf.punct] using h)]
  | case3 ls h =>
    rcases ls with _ | ⟨a, _ | ⟨b, ls⟩⟩
    · rfl
    · rfl
    · exact absurd rfl (h a b ls)

theorem isLabel (ls : List Lexeme) : isLabel (ls.map f) = isLabel ls := by
  have has : ∀ l, (f l).isKeyword "AS" = l.isKeyword "AS" := hf.keyword _ (by decide)
  rcases ls with _ | ⟨a, _ | ⟨b, _ | ⟨c, ls⟩⟩⟩
  all_goals simp [Review.isLabel, hf.word, has]

theorem selectsColumn {column : String} (hcolumn : ∀ l, (f l).isKeyword column = l.isKeyword column)
    (item : List Lexeme) : selectsColumn column (item.map f) = selectsColumn column item := by
  rw [Review.selectsColumn, Review.selectsColumn, hf.unqualified]
  cases Review.unqualified item with
  | nil => rfl
  | cons l r => simp [hcolumn, hf.isLabel]

theorem requiredColumnIssues (level : Level)
    (hcolumns : ∀ c ∈ requiredColumns level, ∀ l, (f l).isKeyword c.name = l.isKeyword c.name)
    (items : List (List Lexeme)) :
    requiredColumnIssues (items.map (List.map f)) level = requiredColumnIssues items level := by
  have hmissing : ((requiredColumns level).filter
      fun c => !(items.map (List.map f)).any (Review.selectsColumn c.name)) =
        (requiredColumns level).filter fun c => !items.any (Review.selectsColumn c.name) := by
    refine List.filter_congr fun c hc => ?_
    simp only [List.any_map, Function.comp_def, hf.selectsColumn (hcolumns c hc)]
  rw [Review.requiredColumnIssues, Review.requiredColumnIssues, hmissing, List.any_map]
  simp only [Function.comp_def, hf.isStar]

/-! ### Positions -/

omit hf in
theorem positionsFrom (before ls : List Lexeme) : positionsFrom (before.map f) (ls.map f) =
    (positionsFrom before ls).map fun p => ⟨p.before.map f, f p.here, p.after.map f⟩ := by
  induction ls generalizing before with
  | nil => rfl
  | cons l ls ih =>
    rw [List.map_cons, Review.positionsFrom, Review.positionsFrom, List.map_cons,
      ← ih (l :: before)]
    rfl

omit hf in
theorem positions (ls : List Lexeme) : positions (ls.map f) =
    (positions ls).map fun p => ⟨p.before.map f, f p.here, p.after.map f⟩ :=
  positionsFrom [] ls

theorem opensQuery (depth : Nat) (next : Lexeme) (before : List Lexeme) :
    opensQuery depth (f next) (before.map f) = opensQuery depth next before := by
  induction before generalizing next with
  | nil => rfl
  | cons l before ih =>
    rw [List.map_cons, Review.opensQuery, Review.opensQuery, ih l, hf.punct, hf.depth,
      hf.keyword _ (by decide)]

theorem follows {keyword : String} (hkeyword : keyword ∈ structuralKeywords) (p : Position) :
    Position.follows ⟨p.before.map f, f p.here, p.after.map f⟩ keyword = p.follows keyword := by
  obtain ⟨before, here, after⟩ := p
  cases before with
  | nil => rfl
  | cons l before => exact hf.keyword _ hkeyword l

theorem isQueryFrom (p : Position) :
    Position.isQueryFrom ⟨p.before.map f, f p.here, p.after.map f⟩ = p.isQueryFrom := by
  rw [Position.isQueryFrom, Position.isQueryFrom, hf.follows (by decide), hf.depth, hf.opensQuery]

theorem introducesTable (p : Position) :
    introducesTable ⟨p.before.map f, f p.here, p.after.map f⟩ = introducesTable p := by
  rw [Review.introducesTable, Review.introducesTable, hf.isQueryFrom, hf.keyword _ (by decide),
    hf.keyword _ (by decide)]

theorem head?_isKeyword {keyword : String} (hkeyword : keyword ∈ structuralKeywords)
    (ls : List Lexeme) :
    (ls.map f).head?.any (·.isKeyword keyword) = ls.head?.any (·.isKeyword keyword) := by
  cases ls with
  | nil => rfl
  | cons l r => exact hf.keyword _ hkeyword l

theorem opensSubquery (p : Position) :
    opensSubquery ⟨p.before.map f, f p.here, p.after.map f⟩ = opensSubquery p := by
  rw [Review.opensSubquery, Review.opensSubquery, hf.follows (by decide), hf.follows (by decide),
    hf.punct, hf.head?_isKeyword (by decide)]

/-! ### Judgments -/

theorem hasQueryFrom (ls : List Lexeme) : hasQueryFrom (ls.map f) = hasQueryFrom ls := by
  have hfrom : ∀ l, (f l).isKeyword "FROM" = l.isKeyword "FROM" := hf.keyword _ (by decide)
  rw [Review.hasQueryFrom, Review.hasQueryFrom, positions, List.any_map]
  simp only [Function.comp_def, hf.isQueryFrom, hfrom]

theorem entryIssues (ls : List Lexeme) : entryIssues (ls.map f) = entryIssues ls := by
  have hhead : ((ls.map f).head?.any fun l => l.isKeyword "SELECT" || l.isKeyword "WITH") =
      ls.head?.any fun l => l.isKeyword "SELECT" || l.isKeyword "WITH" := by
    cases ls with
    | nil => rfl
    | cons l r =>
      have hselect : (f l).isKeyword "SELECT" = l.isKeyword "SELECT" := hf.keyword _ (by decide) l
      have hwith : (f l).isKeyword "WITH" = l.isKeyword "WITH" := hf.keyword _ (by decide) l
      simp [hselect, hwith]
  rw [Review.entryIssues, Review.entryIssues, hhead, hf.hasQueryFrom]

end IsRelabeling

/-! ## Words spelled anew -/

/-- A change of lexemes that leaves depths and marks as they are and spells each
word anew, with the same letters up to case, part by part between points. -/
structure IsRespelling (f : Lexeme → Lexeme) (g : List Char → List Char) : Prop where
  depth : ∀ l, (f l).depth = l.depth
  punct : ∀ l c, (f l).isPunct c = l.isPunct c
  word : ∀ l, (f l).word? = l.word?.map g
  fold : ∀ w, foldCase (g w) = foldCase w
  point : ∀ a b, g (a ++ '.' :: b) = g a ++ '.' :: g b

theorem isRespelling_unplaced : IsRespelling Lexeme.unplaced id :=
  ⟨fun _ => rfl, fun _ _ => rfl, fun l => by simp, fun _ => rfl, fun _ _ => rfl⟩

namespace IsRespelling

variable {g : List Char → List Char} (hg : IsRespelling f g)

include hg

theorem sameWord (w v : List Char) : sameWord (g w) v = sameWord w v := by
  rw [Text.sameWord, Text.sameWord, hg.fold]

/-- No keyword is lost, whatever it is. -/
theorem keyword (k : String) (l : Lexeme) : (f l).isKeyword k = l.isKeyword k := by
  have hkeyword : ∀ l : Lexeme, l.isKeyword k = l.word?.any (Text.sameWord · k.toList) := by
    intro l
    cases hkind : l.kind <;> simp [Lexeme.isKeyword, Lexeme.word?, hkind]
  rw [hkeyword, hkeyword, hg.word, Option.any_map]
  simp only [hg.sameWord]

theorem isRelabeling : IsRelabeling f where
  depth := hg.depth
  punct := hg.punct
  word l := by rw [hg.word, Option.isSome_map]
  keyword k _ := hg.keyword k

theorem requiredColumnIssues (items : List (List Lexeme)) (level : Level) :
    requiredColumnIssues (items.map (List.map f)) level = requiredColumnIssues items level :=
  hg.isRelabeling.requiredColumnIssues level (fun c _ => hg.keyword c.name) items

theorem outputName? (item : List Lexeme) :
    outputName? (item.map f) = (outputName? item).map g := by
  rw [Review.outputName?, Review.outputName?, List.getLast?_map, Option.bind_map, Option.map_bind]
  simp only [Function.comp_def, hg.word]

theorem resultColumnIssues (items : List (List Lexeme)) (column : String) :
    resultColumnIssues (items.map (List.map f)) column = resultColumnIssues items column := by
  simp [Review.resultColumnIssues, List.any_map, Function.comp_def, hg.isRelabeling.isStar,
    hg.outputName?, Option.any_map, hg.sameWord]

theorem dottedName (name : List Char) :
    (ls : List Lexeme) → dottedName (g name) (ls.map f) = g (dottedName name ls)
  | [] => rfl
  | [_] => rfl
  | dot :: part :: r => by
    have hrest := fun w => dottedName (name ++ '.' :: w) r
    rw [List.map_cons, List.map_cons, Review.dottedName, Review.dottedName, hg.punct, hg.word]
    cases dot.isPunct '.' with
    | false => rfl
    | true =>
      cases part.word? with
      | none => rfl
      | some w =>
        rw [Option.map_some]
        dsimp only
        rw [← hg.point]
        exact hrest w

theorem tableName? (ls : List Lexeme) : tableName? (ls.map f) = (tableName? ls).map g := by
  have hone : ∀ w words, isOneOf (g w) words = isOneOf w words := by
    intro w words
    simp only [isOneOf, hg.sameWord]
  cases ls with
  | nil => rfl
  | cons l r =>
    rw [List.map_cons, Review.tableName?, Review.tableName?, hg.word]
    cases l.word? with
    | none => rfl
    | some w =>
      rw [Option.map_some, Option.bind_some, Option.bind_some, hone, hg.dottedName]
      split <;> rfl

/-- The tables, each spelled anew. -/
theorem usedTables (ls : List Lexeme) : usedTables (ls.map f) = (usedTables ls).map g := by
  have hfold : foldCase ∘ g = foldCase := funext hg.fold
  rw [Review.usedTables, Review.usedTables, IsRelabeling.positions, List.filter_map,
    List.filterMap_map]
  simp only [Function.comp_def, hg.isRelabeling.introducesTable, hg.tableName?]
  rw [← List.map_filterMap, distinctBy_map, hfold]

/-- The shape of a statement. -/
theorem shape (ls : List Lexeme) :
    shape (ls.map f) = { shape ls with tables := (shape ls).tables.map g } := by
  have hwith : (ls.map f).head?.any (·.isKeyword "WITH") = ls.head?.any (·.isKeyword "WITH") :=
    hg.isRelabeling.head?_isKeyword (by decide) ls
  simp only [Review.shape, hwith, hg.usedTables, IsRelabeling.positions, List.any_map,
    Function.comp_def, hg.isRelabeling.opensSubquery]

end IsRespelling

/-! ## One place -/

/-- The items of a select list. -/
theorem selectList_unplaced (ls : List Lexeme) :
    selectList (unplaced ls) = (selectList ls).map unplaced :=
  isRelabeling_unplaced.selectList ls

theorem entryIssues_unplaced (ls : List Lexeme) : entryIssues (unplaced ls) = entryIssues ls :=
  isRelabeling_unplaced.entryIssues ls

theorem requiredColumnIssues_unplaced (items : List (List Lexeme)) (level : Level) :
    requiredColumnIssues (items.map unplaced) level = requiredColumnIssues items level :=
  isRespelling_unplaced.requiredColumnIssues items level

theorem resultColumnIssues_unplaced (items : List (List Lexeme)) (column : String) :
    resultColumnIssues (items.map unplaced) column = resultColumnIssues items column :=
  isRespelling_unplaced.resultColumnIssues items column

/-- The shape of a statement. -/
theorem shape_unplaced (ls : List Lexeme) : shape (unplaced ls) = shape ls := by
  have hshape := isRespelling_unplaced.shape ls
  rwa [List.map_id] at hshape

end DealSql.Review
