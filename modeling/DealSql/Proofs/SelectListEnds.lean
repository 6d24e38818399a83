import DealSql.Proofs.PlainStatements
import Mathlib.Data.List.Basic
import Mathlib.Data.List.TakeWhile

/-!
# Where select lists end

Two readings of the list of the outermost query.  The one on which the checks
of a review run ends at the first `FROM` outside all parentheses.  The other
ends at the first such `FROM` that belongs to a query, and so goes on behind
that of `IS DISTINCT FROM`.

* `selectList_eq_querySelectList` — the readings agree on the `FROM` that ends
  the list when it belongs to a query.
* `breaksOff_selectList` — otherwise the list of the checks breaks off inside
  an item of the other, directly behind the word `DISTINCT`.
* `selectList_agrees_iff` — both, for every text.
-/

namespace DealSql.Review

open DealSql.Text DealSql.Statement

variable {before ls ms : List Lexeme} {l : Lexeme} {p : Position} {ps qs : List Position}

/-- Where the list of the outermost query begins. -/
def listStart (ls : List Lexeme) : List Lexeme :=
  afterModifiers (ls.dropWhile (fun l => !isOuterSelect l)).tail

/-- The positions from the beginning of the list of the outermost query on. -/
def listPositions (ls : List Lexeme) : List Position :=
  (positions ls).drop (ls.length - (listStart ls).length)

/-- The position at which the list of the checks ends. -/
def listEnd? (ls : List Lexeme) : Option Position :=
  (listPositions ls).find? fun p => endsList p.here

/-- Whether the list of the outermost query ends at a position, where only the
`FROM` of a query ends it. -/
def Position.endsQuery (p : Position) : Bool :=
  endsList p.here && (!p.here.isKeyword "FROM" || p.isQueryFrom)

/-- The items among the lexemes of a list. -/
def itemsAmong (list : List Lexeme) : List (List Lexeme) :=
  (splitAtEach separatesItems list).filter fun item => !item.isEmpty

/-- The items that the outermost query selects, up to the `FROM` of a query. -/
def querySelectList (ls : List Lexeme) : List (List Lexeme) :=
  itemsAmong (((listPositions ls).takeWhile fun p => !p.endsQuery).map Position.here)

/-- The items are those of a longer list, as far as a lexeme of that list. -/
inductive BreaksOff (l : Lexeme) : List (List Lexeme) → List (List Lexeme) → Prop
  /-- The lexeme is the first of the longer list. -/
  | atOnce (back : List Lexeme) (more : List (List Lexeme)) : BreaksOff l [] ((l :: back) :: more)
  /-- The lexeme is inside an item, of which what stands before it remains. -/
  | inside (whole : List (List Lexeme)) (front : List Lexeme) (distinct : Lexeme)
      (back : List Lexeme) (more : List (List Lexeme)) (h : distinct.isKeyword "DISTINCT" = true) :
      BreaksOff l (whole ++ [front ++ [distinct]])
        (whole ++ (front ++ distinct :: l :: back) :: more)

/-! ## The positions of the list -/

theorem map_here_positionsFrom : (positionsFrom before ls).map Position.here = ls := by
  induction ls generalizing before with
  | nil => rfl
  | cons l ls ih => rw [positionsFrom, List.map_cons, ih]

theorem drop_positionsFrom_append :
    (positionsFrom before (ls ++ ms)).drop ls.length = positionsFrom (ls.reverse ++ before) ms := by
  induction ls generalizing before with
  | nil => rfl
  | cons l ls ih =>
    rw [List.cons_append, positionsFrom, List.length_cons, List.drop_succ_cons, ih]
    simp

/-- Before a position stand the lexemes of the positions in front of it. -/
theorem before_of_positionsFrom (h : positionsFrom before ls = ps ++ p :: qs) :
    p.before = (ps.map Position.here).reverse ++ before := by
  induction ps generalizing before ls with
  | nil =>
    cases ls with
    | nil => cases h
    | cons l ls =>
      obtain ⟨rfl, -⟩ := List.cons.inj h
      rfl
  | cons q ps ih =>
    cases ls with
    | nil => cases h
    | cons l ls =>
      obtain ⟨rfl, hrest⟩ := List.cons.inj h
      rw [ih hrest]
      simp

theorem afterModifiers_suffix (ls : List Lexeme) : afterModifiers ls <:+ ls := by
  have hdrop : ls.dropWhile isDistinctness <:+ ls := List.dropWhile_suffix _
  unfold afterModifiers
  split
  · exact List.nil_suffix
  · rename_i l r heq
    rw [heq] at hdrop
    split
    · exact ((List.drop_suffix 1 r).trans (List.suffix_cons l r)).trans hdrop
    · exact hdrop

theorem listStart_suffix (ls : List Lexeme) : listStart ls <:+ ls :=
  ((afterModifiers_suffix _).trans (List.tail_suffix _)).trans (List.dropWhile_suffix _)

/-- The positions of the list are those of its lexemes behind some others. -/
theorem exists_listPositions_eq (ls : List Lexeme) :
    ∃ before, listPositions ls = positionsFrom before (listStart ls) := by
  obtain ⟨front, hfront⟩ := listStart_suffix ls
  refine ⟨front.reverse, ?_⟩
  have hlength : ls.length - (listStart ls).length = front.length := by
    have hsum : (front ++ listStart ls).length = ls.length := by rw [hfront]
    rw [List.length_append] at hsum
    omega
  have hdrop : (positionsFrom [] (front ++ listStart ls)).drop front.length =
      positionsFrom (front.reverse ++ []) (listStart ls) := drop_positionsFrom_append
  rw [hfront, List.append_nil] at hdrop
  rw [listPositions, hlength, positions, hdrop]

/-- **The list of the checks** is what stands before the first position that
ends it. -/
theorem selectList_eq (ls : List Lexeme) : selectList ls =
    itemsAmong (((listPositions ls).takeWhile fun p => !endsList p.here).map Position.here) := by
  obtain ⟨before, hpositions⟩ := exists_listPositions_eq ls
  have hmap : (listPositions ls).map Position.here = listStart ls := by
    rw [hpositions, map_here_positionsFrom]
  have htake : ((listPositions ls).takeWhile fun p => !endsList p.here).map Position.here =
      (listStart ls).takeWhile fun l => !endsList l := by
    rw [← hmap, List.takeWhile_map]
    rfl
  rw [htake]
  rfl

/-! ## The two ends -/

theorem Position.endsQuery_of_not_endsList (h : endsList p.here = false) : p.endsQuery = false := by
  simp [Position.endsQuery, h]

theorem depth_of_endsList (h : endsList l = true) : l.depth = 0 := by
  simpa using (Bool.and_eq_true_iff.1 h).1

/-- Outside all parentheses a `FROM` belongs to a query unless it follows the
word `DISTINCT`. -/
theorem isQueryFrom_iff_of_endsList (h : endsList p.here = true) :
    p.isQueryFrom = true ↔ p.follows "DISTINCT" = false := by
  simp [Position.isQueryFrom, depth_of_endsList h]

/-- The readings agree where the list of the checks ends at no `FROM` but that
of a query. -/
theorem selectList_eq_querySelectList
    (h : ∀ p, listEnd? ls = some p → p.here.isKeyword "FROM" = true → p.isQueryFrom = true) :
    selectList ls = querySelectList ls := by
  rw [selectList_eq, querySelectList]
  congr 2
  cases hend : listEnd? ls with
  | none =>
    have hnone : ∀ p ∈ listPositions ls, endsList p.here = false := by
      simpa [listEnd?] using hend
    rw [List.takeWhile_eq_self_iff.2 fun p hp => by simp [hnone p hp],
      List.takeWhile_eq_self_iff.2 fun p hp => by
        simp [Position.endsQuery_of_not_endsList (hnone p hp)]]
  | some p =>
    obtain ⟨hp, ps, qs, hsplit, hps⟩ := List.find?_eq_some_iff_append.1 hend
    have hquery : p.endsQuery = true := by
      have hfrom := h p hend
      cases hkeyword : p.here.isKeyword "FROM" with
      | false => simp [Position.endsQuery, hp, hkeyword]
      | true => simp [Position.endsQuery, hp, hfrom hkeyword]
    have hopen : ∀ q ∈ ps, q.endsQuery = false := fun q hq =>
      Position.endsQuery_of_not_endsList (by simpa using hps q hq)
    rw [hsplit, List.takeWhile_append_of_pos hps,
      List.takeWhile_append_of_pos fun q hq => by simp [hopen q hq]]
    simp [hp, hquery]

/-! ## Lists that break off -/

theorem BreaksOff.ne {items all : List (List Lexeme)} (h : BreaksOff l items all) :
    items ≠ all := by
  cases h <;> simp

theorem separatesItems_of_isKeyword {keyword : String} (h : l.isKeyword keyword = true) :
    separatesItems l = false := by
  cases l with
  | mk kind offset depth =>
    cases kind with
    | word t => simp [separatesItems, Lexeme.isPunct]
    | punct c => simp [Lexeme.isKeyword] at h

/-- A list that ends with the word `DISTINCT`, or has nothing in it, breaks off
before a keyword behind it. -/
theorem breaksOff_itemsAmong {list : List Lexeme} {keyword : String}
    (hl : l.isKeyword keyword = true)
    (hlast : ∀ x ∈ list.getLast?, x.isKeyword "DISTINCT" = true) (rest : List Lexeme) :
    BreaksOff l (itemsAmong list) (itemsAmong (list ++ l :: rest)) := by
  have hinside : separatesItems l = false := separatesItems_of_isKeyword hl
  obtain ⟨back, more, hback⟩ := exists_splitAtEach separatesItems rest
  rcases List.eq_nil_or_concat' list with rfl | ⟨before, distinct, rfl⟩
  · have hrest : splitAtEach separatesItems ([l] ++ rest) = ([l] ++ back) :: more :=
      splitAtEach_append_of_forall (by simpa using hinside) hback
    rw [itemsAmong, itemsAmong, List.nil_append, ← List.singleton_append, hrest]
    exact .atOnce back _
  · have hdistinct : distinct.isKeyword "DISTINCT" = true := hlast distinct (by simp)
    have hword : separatesItems distinct = false := separatesItems_of_isKeyword hdistinct
    have hend : splitAtEach separatesItems [distinct] = [[distinct]] :=
      splitAtEach_of_forall (by simpa using hword)
    have hrest : splitAtEach separatesItems ([distinct, l] ++ rest) =
        ([distinct, l] ++ back) :: more :=
      splitAtEach_append_of_forall (by simp [hword, hinside]) hback
    obtain ⟨parts, last, happend⟩ := splitAtEach_append separatesItems before
    have hlists : before ++ [distinct] ++ l :: rest = before ++ ([distinct, l] ++ rest) := by simp
    rw [itemsAmong, itemsAmong, hlists, happend _ _ _ hend, happend _ _ _ hrest,
      List.filter_append, List.filter_append]
    simpa using BreaksOff.inside (parts.filter fun item => !item.isEmpty) last distinct back
      (more.filter fun item => !item.isEmpty) hdistinct

/-- Where the list of the checks ends at a `FROM` that belongs to no query, it
breaks off there. -/
theorem breaksOff_selectList (hend : listEnd? ls = some p) (hfrom : p.here.isKeyword "FROM" = true)
    (hquery : p.isQueryFrom = false) :
    BreaksOff p.here (selectList ls) (querySelectList ls) := by
  obtain ⟨hp, ps, qs, hsplit, hps⟩ := List.find?_eq_some_iff_append.1 hend
  have hopen : ∀ q ∈ ps, q.endsQuery = false := fun q hq =>
    Position.endsQuery_of_not_endsList (by simpa using hps q hq)
  have hgoes : p.endsQuery = false := by simp [Position.endsQuery, hfrom, hquery]
  have hchecks : (listPositions ls).takeWhile (fun p => !endsList p.here) = ps := by
    rw [hsplit, List.takeWhile_append_of_pos hps]
    simp [hp]
  have hwhole : (listPositions ls).takeWhile (fun p => !p.endsQuery) =
      ps ++ p :: qs.takeWhile fun p => !p.endsQuery := by
    rw [hsplit, List.takeWhile_append_of_pos fun q hq => by simp [hopen q hq]]
    simp [hgoes]
  rw [selectList_eq, querySelectList, hchecks, hwhole, List.map_append, List.map_cons]
  refine breaksOff_itemsAmong hfrom (fun x hx => ?_) _
  obtain ⟨before, hpositions⟩ := exists_listPositions_eq ls
  have hbefore : p.before = (ps.map Position.here).reverse ++ before :=
    before_of_positionsFrom (hpositions ▸ hsplit)
  have hdistinct : p.follows "DISTINCT" = true := by
    simpa [hquery] using (isQueryFrom_iff_of_endsList hp).not
  have hhead : p.before.head? = some x := by
    rw [hbefore, List.head?_append, List.head?_reverse, hx]
    rfl
  simpa [Position.follows, hhead] using hdistinct

/-- **Which `FROM` ends the select list.**  When the list on which the checks of a
review run ends at a `FROM`, this belongs to a query unless it follows the word
`DISTINCT`, and then the list breaks off before it.  So the checks see the list
of the query exactly where it does not end at the `FROM` of `IS DISTINCT FROM`. -/
theorem selectList_agrees_iff (sql : List Char) :
    let ls := structuralLexemes sql
    (∀ p, listEnd? ls = some p → p.here.isKeyword "FROM" = true →
      (p.isQueryFrom = true ↔ p.follows "DISTINCT" = false) ∧
      (p.isQueryFrom = false → BreaksOff p.here (selectList ls) (querySelectList ls))) ∧
    (selectList ls = querySelectList ls ↔
      ∀ p, listEnd? ls = some p → p.here.isKeyword "FROM" = true → p.isQueryFrom = true) := by
  intro ls
  refine ⟨fun p hend hfrom => ⟨?_, breaksOff_selectList hend hfrom⟩, fun hlists p hend hfrom => ?_,
    selectList_eq_querySelectList⟩
  · have hp : endsList p.here = true := (List.find?_eq_some_iff_append.1 hend).1
    exact isQueryFrom_iff_of_endsList hp
  · by_contra hquery
    exact (breaksOff_selectList hend hfrom (by simpa using hquery)).ne hlists

/-- A statement whose first item compares two columns. -/
def comparedColumns : List Char :=
  "SELECT deal.a IS DISTINCT FROM deal.b AS x, deal.dl_nbr FROM deal".toList

/-- The list of the checks ends inside the comparison, so that neither column that
the query selects is found. -/
theorem comparedColumns_breaksOff :
    (listEnd? (structuralLexemes comparedColumns)).any
      (fun p => p.here.isKeyword "FROM" && !p.isQueryFrom) = true ∧
    requiredColumnIssues (querySelectList (structuralLexemes comparedColumns)) .deal = [] ∧
    resultColumnIssues (querySelectList (structuralLexemes comparedColumns)) "x" = [] ∧
    (review .standard comparedColumns .deal "x").issues =
      [.missingRequiredColumn ⟨"dl_nbr", "deal.dl_nbr"⟩ .deal, .missingResultColumn "x"] := by
  decide +kernel

end DealSql.Review
