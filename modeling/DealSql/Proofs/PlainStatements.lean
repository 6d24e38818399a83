import DealSql.Review.Verdict

/-!
# Plain statements

The judgments on the structure of a statement whose lexemes are those of one
query: `SELECT`, items between commas, `FROM` with a table, joins, and
further clauses.  Nowhere else stands one of the keywords that begin a query
or name a table.

* `mem_positions_iff` — the positions among lexemes.
* `selectList_plain` — the items between `SELECT` and `FROM`.
* `tablesFrom_append_of_inert` — where no table is named.
-/

namespace DealSql.Review

open DealSql.Text DealSql.Statement

variable {before ls ms : List Lexeme} {l : Lexeme} {p : Position} {t : List Char}

/-! ## Positions -/

theorem mem_positionsFrom_iff : p ∈ positionsFrom before ls ↔
    ∃ a, p.before = a.reverse ++ before ∧ ls = a ++ p.here :: p.after := by
  induction ls generalizing before with
  | nil => simp [positionsFrom]
  | cons l ls ih =>
    rw [positionsFrom, List.mem_cons, ih]
    constructor
    · rintro (rfl | ⟨a, ha, rfl⟩)
      · exact ⟨[], rfl, rfl⟩
      · exact ⟨l :: a, by simp [ha], rfl⟩
    · rintro ⟨a, ha, hls⟩
      cases a with
      | nil =>
        obtain ⟨rfl, rfl⟩ := List.cons.inj hls
        exact Or.inl (by rw [← List.nil_append before, ← List.reverse_nil, ← ha])
      | cons x a =>
        obtain ⟨rfl, rfl⟩ := List.cons.inj hls
        exact Or.inr ⟨a, by simpa using ha, rfl⟩

/-- **The positions among lexemes** are the ways to cut them. -/
theorem mem_positions_iff : p ∈ positions ls ↔ ls = p.before.reverse ++ p.here :: p.after := by
  rw [positions, mem_positionsFrom_iff]
  constructor
  · rintro ⟨a, ha, hls⟩
    rw [List.append_nil] at ha
    rw [hls, ha, List.reverse_reverse]
  · intro hls
    exact ⟨p.before.reverse, by simp, hls⟩

/-- No nested query opens where no `SELECT` stands behind the first lexeme. -/
theorem not_opensSubquery (h : ∀ l ∈ ls.tail, l.isKeyword "SELECT" = false) :
    (positions ls).any opensSubquery = false := by
  rw [List.any_eq_false]
  intro p hp
  have hls : ls = p.before.reverse ++ p.here :: p.after := mem_positions_iff.1 hp
  have hafter : ∀ l ∈ p.after, l.isKeyword "SELECT" = false := by
    intro l hl
    refine h l ?_
    rw [hls]
    cases p.before.reverse with
    | nil => exact hl
    | cons x a => simp [hl]
  have hhead : p.after.head?.any (·.isKeyword "SELECT") = false := by
    cases hhead : p.after.head? with
    | none => rfl
    | some l => exact hafter l (List.mem_of_head? hhead)
  simp [opensSubquery, hhead]

/-- A `FROM` outside all parentheses belongs to a query, unless it is that of
`IS DISTINCT FROM`. -/
theorem isQueryFrom_plain {front : List Lexeme} {«from» : Lexeme} (hdepth : «from».depth = 0)
    (hlast : front.getLast?.any (·.isKeyword "DISTINCT") = false) :
    Position.isQueryFrom ⟨front.reverse, «from», ls⟩ = true := by
  simp [Position.isQueryFrom, Position.follows, hlast, hdepth]

/-- A statement that begins with `SELECT` and has a `FROM` is a query. -/
theorem entryIssues_plain {front : List Lexeme} {«from» : Lexeme}
    (hselect : front.head?.any (·.isKeyword "SELECT") = true)
    (hfrom : «from».isKeyword "FROM" = true) (hdepth : «from».depth = 0)
    (hlast : front.getLast?.any (·.isKeyword "DISTINCT") = false) :
    entryIssues (front ++ «from» :: ls) = [] := by
  have hquery : hasQueryFrom (front ++ «from» :: ls) = true := by
    refine List.any_eq_true.2 ⟨⟨front.reverse, «from», ls⟩, mem_positions_iff.2 (by simp), ?_⟩
    simp [hfrom, isQueryFrom_plain hdepth hlast]
  have hhead : ((front ++ «from» :: ls).head?.any fun l =>
      l.isKeyword "SELECT" || l.isKeyword "WITH") = true := by
    cases front with
    | nil => cases hselect
    | cons x front =>
      have hx : x.isKeyword "SELECT" = true := hselect
      simp [hx]
  exact entryIssues_eq_nil_iff.2 ⟨hhead, hquery⟩

/-! ## Select lists -/

/-- Lexemes that can be an item: some, and none that separates items or ends
the list. -/
structure IsItem (ls : List Lexeme) : Prop where
  nonempty : ls ≠ []
  inside : ∀ l ∈ ls, separatesItems l = false ∧ endsList l = false

/-- A list has a first part. -/
theorem exists_splitAtEach {α : Type} (test : α → Bool) (as : List α) :
    ∃ p ps, splitAtEach test as = p :: ps := by
  cases as with
  | nil => exact ⟨[], [], rfl⟩
  | cons a as =>
    rw [splitAtEach]
    split
    · exact ⟨[], _, rfl⟩
    · split
      · exact ⟨_, _, rfl⟩
      · exact ⟨_, _, rfl⟩

/-- Elements that do not separate go into the first part. -/
theorem splitAtEach_append_of_forall {α : Type} {test : α → Bool} {as bs p : List α}
    {ps : List (List α)} (has : ∀ x ∈ as, test x = false) (h : splitAtEach test bs = p :: ps) :
    splitAtEach test (as ++ bs) = (as ++ p) :: ps := by
  induction as with
  | nil => exact h
  | cons x as ih =>
    have hx : test x = false := has x List.mem_cons_self
    rw [List.cons_append, splitAtEach, ih fun y hy => has y (List.mem_cons_of_mem x hy)]
    simp [hx]

theorem splitAtEach_append_cons {α : Type} {test : α → Bool} {as bs : List α} {a : α}
    (has : ∀ x ∈ as, test x = false) (ha : test a = true) :
    splitAtEach test (as ++ a :: bs) = as :: splitAtEach test bs := by
  have hsep : splitAtEach test (a :: bs) = [] :: splitAtEach test bs := by simp [splitAtEach, ha]
  simpa using splitAtEach_append_of_forall has hsep

theorem splitAtEach_of_forall {α : Type} {test : α → Bool} {as : List α}
    (has : ∀ x ∈ as, test x = false) : splitAtEach test as = [as] := by
  have hnil : splitAtEach test [] = [[]] := rfl
  simpa using splitAtEach_append_of_forall has hnil

/-- Where two lists meet, the last part of the one and the first of the other
are one part. -/
theorem splitAtEach_append {α : Type} (test : α → Bool) (as : List α) :
    ∃ parts last, ∀ bs first rest, splitAtEach test bs = first :: rest →
      splitAtEach test (as ++ bs) = parts ++ (last ++ first) :: rest := by
  induction as with
  | nil => exact ⟨[], [], fun bs first rest h => h⟩
  | cons a as ih =>
    obtain ⟨parts, last, happend⟩ := ih
    cases ha : test a with
    | true =>
      refine ⟨[] :: parts, last, fun bs first rest h => ?_⟩
      simp [splitAtEach, ha, happend bs first rest h]
    | false =>
      -- the element joins the first part, which is the last one if there is no other
      cases parts with
      | nil =>
        refine ⟨[], a :: last, fun bs first rest h => ?_⟩
        simp [splitAtEach, ha, happend bs first rest h]
      | cons part parts =>
        refine ⟨(a :: part) :: parts, last, fun bs first rest h => ?_⟩
        simp [splitAtEach, ha, happend bs first rest h]

/-- The first part, if there is anything in it, begins as the whole does. -/
theorem head?_eq_of_splitAtEach {α : Type} {test : α → Bool} {as p : List α} {ps : List (List α)}
    (h : splitAtEach test as = p :: ps) (hp : p ≠ []) : as.head? = p.head? := by
  cases as with
  | nil =>
    obtain ⟨rfl, -⟩ := List.cons.inj h
    exact absurd rfl hp
  | cons a as =>
    rw [splitAtEach] at h
    by_cases ha : test a = true
    · rw [if_pos ha] at h
      exact absurd (List.cons.inj h).1.symm hp
    · rw [if_neg ha] at h
      split at h
      · rw [← (List.cons.inj h).1]
        rfl
      · rw [← (List.cons.inj h).1]
        rfl

/-- What is put together with separators is taken apart at them. -/
theorem splitAtEach_intercalate {α : Type} {test : α → Bool} {a : α} {parts : List (List α)}
    (ha : test a = true) (hparts : ∀ p ∈ parts, ∀ x ∈ p, test x = false) (hne : parts ≠ []) :
    splitAtEach test ([a].intercalate parts) = parts := by
  induction parts with
  | nil => exact absurd rfl hne
  | cons p ps ih =>
    have hp := hparts p List.mem_cons_self
    cases ps with
    | nil => simpa [List.intercalate] using splitAtEach_of_forall hp
    | cons q qs =>
      rw [List.intercalate_cons_cons, List.append_assoc, List.singleton_append,
        splitAtEach_append_cons hp ha,
        ih (fun x hx => hparts x (List.mem_cons_of_mem p hx)) (by simp)]

theorem mem_intercalate {α : Type} {a x : α} {parts : List (List α)}
    (h : x ∈ [a].intercalate parts) : x = a ∨ ∃ p ∈ parts, x ∈ p := by
  induction parts with
  | nil => simp [List.intercalate] at h
  | cons p ps ih =>
    cases ps with
    | nil => exact Or.inr ⟨p, by simp, by simpa [List.intercalate] using h⟩
    | cons q qs =>
      rw [List.intercalate_cons_cons, List.append_assoc, List.singleton_append] at h
      rcases List.mem_append.1 h with h | h
      · exact Or.inr ⟨p, by simp, h⟩
      · rcases List.mem_cons.1 h with rfl | h
        · exact Or.inl rfl
        · refine (ih h).imp_right fun hpart => ?_
          obtain ⟨y, hy, hxy⟩ := hpart
          exact ⟨y, List.mem_cons_of_mem p hy, hxy⟩

/-- A list put together ends as its last part does. -/
theorem getLast?_intercalate {α : Type} {a : α} {p : List α} (hp : p ≠ [])
    (parts : List (List α)) : ([a].intercalate (parts ++ [p])).getLast? = p.getLast? := by
  obtain ⟨x, hx⟩ := Option.ne_none_iff_exists'.1 (mt List.getLast?_eq_none_iff.1 hp)
  induction parts with
  | nil => simp [List.intercalate]
  | cons q qs ih =>
    have hcons : ∃ r rs, qs ++ [p] = r :: rs := List.exists_cons_of_ne_nil (by simp)
    obtain ⟨r, rs, hrs⟩ := hcons
    rw [List.cons_append, hrs, List.intercalate_cons_cons, ← hrs, List.getLast?_append, ih, hx]
    rfl

/-- **The items between `SELECT` and `FROM`** are the parts between the
separators, where the first does not begin with a word that says which rows
are meant. -/
theorem selectList_of_split {select «from» : Lexeme} {list : List Lexeme}
    {items : List (List Lexeme)} (hselect : isOuterSelect select = true)
    (hfrom : endsList «from» = true) (hlist : ∀ l ∈ list, endsList l = false)
    (hfirst : ∀ l ∈ list.head?, isDistinctness l = false ∧ l.isKeyword "TOP" = false)
    (hsplit : splitAtEach separatesItems list = items) (hne : ∀ i ∈ items, i ≠ []) :
    selectList (select :: list ++ «from» :: ls) = items := by
  have hmodifiers : afterModifiers (list ++ «from» :: ls) = list ++ «from» :: ls := by
    cases list with
    | nil => exact absurd rfl (hne [] (by rw [← hsplit]; exact List.mem_cons_self))
    | cons x r =>
      obtain ⟨hdistinct, htop⟩ := hfirst x rfl
      simp [afterModifiers, hdistinct, htop]
  have htake : (list ++ «from» :: ls).takeWhile (fun l => !endsList l) = list := by
    rw [List.takeWhile_append_of_pos fun l hl => by simp [hlist l hl]]
    simp [hfrom]
  have hdrop : (select :: list ++ «from» :: ls).dropWhile (fun l => !isOuterSelect l) =
      select :: list ++ «from» :: ls := by
    rw [List.cons_append, List.dropWhile_cons_of_neg (by simp [hselect])]
  rw [selectList, hdrop, List.cons_append, List.tail_cons, hmodifiers, htake, hsplit,
    List.filter_eq_self]
  intro i hi
  simpa using hne i hi

/-- Items with one separator between them. -/
theorem selectList_plain {select comma «from» : Lexeme} {items : List (List Lexeme)}
    (hselect : isOuterSelect select = true) (hcomma : separatesItems comma = true)
    (hends : endsList comma = false) (hfrom : endsList «from» = true)
    (hitems : ∀ i ∈ items, IsItem i) (hne : items ≠ [])
    (hfirst : ∀ i ∈ items.head?, ∀ l ∈ i.head?,
      isDistinctness l = false ∧ l.isKeyword "TOP" = false) :
    selectList (select :: [comma].intercalate items ++ «from» :: ls) = items := by
  obtain ⟨i, is, rfl⟩ := List.exists_cons_of_ne_nil hne
  obtain ⟨x, i', hi⟩ := List.exists_cons_of_ne_nil (hitems i List.mem_cons_self).nonempty
  have hhead : ([comma].intercalate (i :: is)).head? = i.head? := by
    cases is with
    | nil => simp [List.intercalate]
    | cons j js => rw [List.intercalate_cons_cons, hi]; rfl
  have hsplit : splitAtEach separatesItems ([comma].intercalate (i :: is)) = i :: is :=
    splitAtEach_intercalate hcomma (fun j hj y hy => ((hitems j hj).inside y hy).1) (by simp)
  refine selectList_of_split hselect hfrom (fun y hy => ?_) ?_ hsplit
    fun j hj => (hitems j hj).nonempty
  · rcases mem_intercalate hy with rfl | ⟨j, hj, hyj⟩
    · exact hends
    · exact ((hitems j hj).inside y hyj).2
  · rw [hhead]
    exact hfirst i rfl

/-! ## Tables -/

/-- The tables named among lexemes that follow some others. -/
def tablesFrom (before ls : List Lexeme) : List (List Char) :=
  ((positionsFrom before ls).filter introducesTable).filterMap fun p => tableName? p.after

/-- Whether a lexeme is none of the keywords behind which a table is named. -/
def IsInert (l : Lexeme) : Prop := l.isKeyword "FROM" = false ∧ l.isKeyword "JOIN" = false

theorem tablesFrom_cons_of_introduces (h : introducesTable ⟨before, l, ls⟩ = true) :
    tablesFrom before (l :: ls) = (tableName? ls).toList ++ tablesFrom (l :: before) ls := by
  rw [tablesFrom, positionsFrom, List.filter_cons_of_pos h, List.filterMap_cons]
  cases tableName? ls <;> rfl

theorem tablesFrom_cons_of_isInert (h : IsInert l) :
    tablesFrom before (l :: ls) = tablesFrom (l :: before) ls := by
  have hnone : introducesTable ⟨before, l, ls⟩ = false := by simp [introducesTable, h.1, h.2]
  rw [tablesFrom, positionsFrom, List.filter_cons_of_neg (by simp [hnone])]
  rfl

/-- Where none of the keywords stands no table is named. -/
theorem tablesFrom_append_of_inert (h : ∀ l ∈ ls, IsInert l) :
    tablesFrom before (ls ++ ms) = tablesFrom (ls.reverse ++ before) ms := by
  induction ls generalizing before with
  | nil => rfl
  | cons l ls ih =>
    rw [List.cons_append, tablesFrom_cons_of_isInert (h l List.mem_cons_self),
      ih fun x hx => h x (List.mem_cons_of_mem l hx)]
    simp

theorem tablesFrom_of_inert (h : ∀ l ∈ ls, IsInert l) : tablesFrom before ls = [] := by
  have happend : tablesFrom before (ls ++ []) = _ := tablesFrom_append_of_inert h
  rwa [List.append_nil] at happend

/-- A word before anything but a point is the name of a table. -/
theorem tableName?_word {offset depth : Nat} (ht : isOneOf t ["LATERAL", "SELECT"] = false)
    (h : ls.head?.any (·.isPunct '.') = false) :
    tableName? (⟨.word t, offset, depth⟩ :: ls) = some t := by
  have hname : dottedName t ls = t := by
    rcases ls with _ | ⟨dot, _ | ⟨part, r⟩⟩
    · rfl
    · rfl
    · have hdot : dot.isPunct '.' = false := by simpa using h
      simp [dottedName, hdot]
  simp [tableName?, Lexeme.word?, ht, hname]

/-- The tables of a statement with one query: that after `FROM`, and those of
what follows. -/
theorem tablesFrom_plain {front : List Lexeme} {«from» : Lexeme} {offset depth : Nat}
    (hfront : ∀ l ∈ front, IsInert l) (hfrom : «from».isKeyword "FROM" = true)
    (hdepth : «from».depth = 0)
    (hlast : front.getLast?.any (·.isKeyword "DISTINCT") = false)
    (ht : isOneOf t ["LATERAL", "SELECT"] = false) (hinert : IsInert ⟨.word t, offset, depth⟩)
    (hpoint : ls.head?.any (·.isPunct '.') = false) :
    ∃ before, tablesFrom [] (front ++ «from» :: ⟨.word t, offset, depth⟩ :: ls) =
      t :: tablesFrom before ls := by
  have hintroduces : introducesTable ⟨front.reverse ++ [], «from», ⟨.word t, offset, depth⟩ :: ls⟩ =
      true := by
    rw [List.append_nil]
    simp [introducesTable, hfrom, isQueryFrom_plain hdepth hlast]
  refine ⟨⟨.word t, offset, depth⟩ :: «from» :: front.reverse ++ [], ?_⟩
  rw [tablesFrom_append_of_inert hfront, tablesFrom_cons_of_introduces hintroduces,
    tableName?_word ht hpoint, tablesFrom_cons_of_isInert hinert]
  rfl

end DealSql.Review
