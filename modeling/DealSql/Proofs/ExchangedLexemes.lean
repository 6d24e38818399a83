import DealSql.Proofs.ColumnItems
import DealSql.Proofs.PlainStatements

/-!
# Lexemes of a placeholder and of its value

Between the same lexemes before and behind, those of a placeholder are
exchanged for those of its value.  A statement that begins as a query and
selects its required columns goes on to do so: a placeholder is no part of a
column, and its value neither takes a keyword away nor separates items nor
opens parentheses that end behind it.  Behind its select list a statement
selects what it does whatever follows.

* `Exchange` — what the lexemes of a placeholder and of its value are.
* `Exchange.entryIssues` — the statement is still a query.
* `Exchange.requiredColumnIssues` — and still selects its required columns.
* `selectList_append_of_endsWithin` — what follows a select list.
-/

namespace DealSql.Review

open DealSql.Text DealSql.Statement

variable {depth n : Nat} {l next : Lexeme} {ls a b hole fill front item : List Lexeme}

/-! ## Opening parentheses -/

/-- Whether a parenthesis opens right outside a depth. -/
def opensAt (depth : Nat) (l : Lexeme) : Bool := l.isPunct '(' && l.depth == depth - 1

/-- Where the parenthesis is found nothing before it matters. -/
theorem opensQuery_append_of_opens (h : ∃ l ∈ a, opensAt depth l = true) (b : List Lexeme) :
    opensQuery depth next (a ++ b) = opensQuery depth next a := by
  induction a generalizing next with
  | nil => simp at h
  | cons l a ih =>
    rw [List.cons_append, opensQuery, opensQuery]
    by_cases hopens : opensAt depth l = true
    · rw [opensAt] at hopens
      rw [if_pos hopens, if_pos hopens]
    · obtain ⟨e, he, heopens⟩ := h
      rw [opensAt] at hopens
      rw [if_neg hopens, if_neg hopens]
      refine ih ⟨e, ?_, heopens⟩
      rcases List.mem_cons.1 he with rfl | he
      · exact absurd heopens hopens
      · exact he

/-- Lexemes that do not open are passed over. -/
theorem opensQuery_append_of_not_opens (h : ∀ e ∈ a ++ [l], opensAt depth e = false)
    (b : List Lexeme) : opensQuery depth next (a ++ l :: b) = opensQuery depth l b := by
  induction a generalizing next with
  | nil =>
    have hl : opensAt depth l = false := h l (by simp)
    rw [opensAt] at hl
    rw [List.nil_append, opensQuery, hl, if_neg Bool.false_ne_true]
  | cons e a ih =>
    have he : opensAt depth e = false := h e (by simp)
    rw [opensAt] at he
    rw [List.cons_append, opensQuery, he, if_neg Bool.false_ne_true]
    exact ih fun x hx => h x (List.mem_cons_of_mem e hx)

/-- Before the lexemes of a query another lexeme can follow that is no
`SELECT`. -/
theorem opensQuery_congr {next' : Lexeme} (hnext : next.isKeyword "SELECT" = false)
    (h : opensQuery depth next ls = true) : opensQuery depth next' ls = true := by
  cases ls with
  | nil => rfl
  | cons l ls =>
    rw [opensQuery] at h ⊢
    by_cases hopens : (l.isPunct '(' && l.depth == depth - 1) = true
    · rw [if_pos hopens, hnext] at h
      cases h
    · rw [if_neg hopens] at h ⊢
      exact h

/-- Behind a depth every lexeme further inside stands behind the parenthesis
that opens right outside it. -/
def NestedFrom (n : Nat) (ls : List Lexeme) : Prop :=
  ∀ x l y, ls = x ++ l :: y → n < l.depth → ∃ e ∈ x, opensAt l.depth e = true

/-! ## Items with a mark -/

/-- A closing brace stands in an item behind its first lexeme. -/
def IsMarked (item : List Lexeme) : Prop := Lexeme.Kind.punct '\x7d' ∈ (kinds item).tail

/-- Lexemes among which a closing brace stands behind another lexeme. -/
def HoldsMark (ls : List Lexeme) : Prop := ∃ x y : Lexeme, y.kind = .punct '\x7d' ∧ [x, y] <:+: ls

/-- What stands around a mark does not matter. -/
theorem HoldsMark.around (h : HoldsMark ls) (a b : List Lexeme) : HoldsMark (a ++ (ls ++ b)) := by
  obtain ⟨x, y, hy, hinfix⟩ := h
  exact ⟨x, y, hy, hinfix.trans ⟨a, b, by simp⟩⟩

/-- An item is marked when it holds lexemes that are. -/
theorem HoldsMark.isMarked (h : HoldsMark item) : IsMarked item := by
  obtain ⟨x, y, hy, z, w, rfl⟩ := h
  have hsplit : z ++ [x, y] ++ w = z ++ x :: y :: w := by simp
  rw [IsMarked, hsplit]
  cases z with
  | nil => simp [kinds, hy]
  | cons e r => simp [kinds, hy]

theorem IsMarked.not_isStar (h : IsMarked item) : isStar item = false := by
  rw [Bool.eq_false_iff, ne_eq, isStar_iff]
  rintro (hstar | ⟨k, hstar⟩)
  · simp [IsMarked, hstar] at h
  · simp [IsMarked, hstar] at h

theorem IsMarked.not_selectsColumn (h : IsMarked item) (column : String) :
    selectsColumn column item = false := by
  rw [Bool.eq_false_iff, ne_eq, selectsColumn_iff]
  intro hcolumn
  exact absurd (hcolumn.mark_eq (List.mem_of_mem_tail h)) (by decide)

/-- A statement selects its required columns when it selects all columns, or
each of them. -/
theorem requiredColumnIssues_eq_nil_iff {items : List (List Lexeme)} {level : Level} :
    requiredColumnIssues items level = [] ↔ items.any isStar = true ∨
      ∀ c ∈ requiredColumns level, items.any (selectsColumn c.name) = true := by
  unfold requiredColumnIssues
  by_cases hstar : items.any isStar = true
  · simp [hstar]
  · rw [if_neg hstar, List.map_eq_nil_iff, List.filter_eq_nil_iff]
    simp [hstar]

/-! ## The exchange -/

/-- The lexemes of a placeholder, possibly with a word right before it and one
right behind it. -/
structure IsHole (hole : List Lexeme) : Prop where
  marked : ∃ word opening name closing rest, hole = word ++ (opening :: name :: closing :: rest) ∧
    opening.kind = .punct '\x7b' ∧ closing.kind = .punct '\x7d'
  outer : ∀ l ∈ hole, isOuterSelect l = false ∧ endsList l = false
  marks : ∀ l ∈ hole, ∀ c ∈ ['(', ','], l.isPunct c = false

/-- Lexemes without the keywords of a query. -/
def WithoutQuery (ls : List Lexeme) : Prop :=
  ∀ l ∈ ls, ∀ k ∈ ["SELECT", "FROM"], l.isKeyword k = false

/-- The lexemes of a value at a depth. -/
structure IsFilling (n : Nat) (fill : List Lexeme) : Prop where
  nonempty : fill ≠ []
  words : ∀ l ∈ fill, ∀ k ∈ ["SELECT", "FROM"], l.isKeyword k = false
  begins : ∀ l ∈ fill.head?, ∀ k ∈ ["DISTINCT", "ALL", "TOP"], l.isKeyword k = false
  ends : ∀ l ∈ fill.getLast?, l.isKeyword "DISTINCT" = false
  single : ∀ l ∈ fill, l.isPunct ';' = false
  opens : ∀ l ∈ fill, l.isPunct '(' = true → n ≤ l.depth
  separates : ∀ l ∈ fill, l.isPunct ',' = true → n < l.depth

/-- The lexemes of a placeholder and of its value, at a depth. -/
structure Exchange (n : Nat) (hole fill : List Lexeme) : Prop where
  hole : IsHole hole
  fill : IsFilling n fill

/-- What is dropped of two texts side by side. -/
theorem dropWhile_append_cases {α : Type} (p : α → Bool) (a : List α) :
    (∀ rest, (a ++ rest).dropWhile p = rest.dropWhile p) ∨
      ∃ x a', x :: a' ⊆ a ∧ ∀ rest, (a ++ rest).dropWhile p = x :: (a' ++ rest) := by
  cases hrest : a.dropWhile p with
  | nil =>
    refine Or.inl fun rest => ?_
    rw [List.dropWhile_append, hrest]
    rfl
  | cons x a' =>
    refine Or.inr ⟨x, a', ?_, fun rest => ?_⟩
    · rw [← hrest]
      exact (List.dropWhile_sublist p).subset
    · rw [List.dropWhile_append, hrest]
      rfl

/-- Any other word begins the first item. -/
theorem afterModifiers_of_head (hdistinct : isDistinctness l = false)
    (htop : l.isKeyword "TOP" = false) (r : List Lexeme) : afterModifiers (l :: r) = l :: r := by
  rw [afterModifiers, List.dropWhile_cons, hdistinct]
  simp [htop]

/-- The words that may stand before the first item end within a front part, or
they do not. -/
theorem afterModifiers_append_cases (a : List Lexeme) :
    (∀ rest, afterModifiers (a ++ rest) = afterModifiers rest) ∨
      ∃ x a', x :: a' ⊆ a ∧ ∀ rest, afterModifiers (a ++ rest) =
        if x.isKeyword "TOP" then (a' ++ rest).drop 1 else x :: (a' ++ rest) := by
  rcases dropWhile_append_cases isDistinctness a with hpass | ⟨x, a', hsub, hstop⟩
  · refine Or.inl fun rest => ?_
    rw [afterModifiers, hpass, ← afterModifiers]
  · refine Or.inr ⟨x, a', hsub, fun rest => ?_⟩
    rw [afterModifiers, hstop]

/-- Whether the select list of a statement ends within these lexemes. -/
def endsWithin (ls : List Lexeme) : Bool :=
  (afterModifiers (ls.dropWhile fun l => !isOuterSelect l).tail).any endsList

/-- What follows a list that has an end is not read. -/
theorem takeWhile_append_of_any {α : Type} {p : α → Bool} {xs : List α} (h : xs.any p = true)
    (ys : List α) : (xs ++ ys).takeWhile (fun x => !p x) = xs.takeWhile fun x => !p x := by
  induction xs with
  | nil => cases h
  | cons x xs ih =>
    rw [List.cons_append, List.takeWhile_cons, List.takeWhile_cons]
    by_cases hx : p x = true
    · simp [hx]
    · have hxs : xs.any p = true := by simpa [hx] using h
      simp [hx, ih hxs]

/-- What follows the first item does not change where it begins. -/
theorem afterModifiers_append (h : afterModifiers a ≠ []) (b : List Lexeme) :
    afterModifiers (a ++ b) = afterModifiers a ++ b := by
  rw [afterModifiers] at h
  rw [afterModifiers, afterModifiers, List.dropWhile_append]
  cases hrest : a.dropWhile isDistinctness with
  | nil => simp [hrest] at h
  | cons x r =>
    rw [hrest] at h
    by_cases htop : x.isKeyword "TOP" = true
    · cases r with
      | nil => simp [htop] at h
      | cons y r => simp [htop]
    · simp [htop]

/-- **What follows a select list** does not belong to it. -/
theorem selectList_append_of_endsWithin (h : endsWithin a = true) (b : List Lexeme) :
    selectList (a ++ b) = selectList a := by
  rw [endsWithin] at h
  have hitems : afterModifiers (a.dropWhile fun l => !isOuterSelect l).tail ≠ [] := by
    intro hnil
    rw [hnil] at h
    cases h
  have hselect : (a.dropWhile fun l => !isOuterSelect l) ≠ [] := by
    intro hnil
    rw [hnil] at hitems
    exact hitems rfl
  rw [selectList, selectList, List.dropWhile_append, if_neg (by simpa using hselect),
    List.tail_append_of_ne_nil hselect, afterModifiers_append hitems, takeWhile_append_of_any h]

/-- With other elements between two lists, none of which separates, the parts
are the same but for one, in which they take the place of each other. -/
theorem splitAtEach_exchange {α : Type} {test : α → Bool} {xs ys : List α}
    (hxs : ∀ x ∈ xs, test x = false) (hys : ∀ y ∈ ys, test y = false) (a b : List α) :
    ∃ ps x y qs, splitAtEach test (a ++ (xs ++ b)) = ps ++ (x ++ (xs ++ y)) :: qs ∧
      splitAtEach test (a ++ (ys ++ b)) = ps ++ (x ++ (ys ++ y)) :: qs := by
  obtain ⟨ps, x, happend⟩ := splitAtEach_append test a
  obtain ⟨y, qs, hb⟩ := exists_splitAtEach test b
  exact ⟨ps, x, y, qs, happend _ _ _ (splitAtEach_append_of_forall hxs hb),
    happend _ _ _ (splitAtEach_append_of_forall hys hb)⟩

namespace Exchange

theorem hole_ne_nil (h : Exchange n hole fill) : hole ≠ [] := by
  obtain ⟨word, opening, name, closing, rest, rfl, -, -⟩ := h.hole.marked
  simp

/-- A statement does not begin with a placeholder, unless it begins with the
word `WITH`. -/
theorem head?_hole (h : Exchange n hole fill) (hwords : WithoutQuery hole)
    (hbegins : ∀ l ∈ hole.head?, l.isKeyword "WITH" = false) :
    (hole ++ b).head?.any (fun l => l.isKeyword "SELECT" || l.isKeyword "WITH") = false := by
  obtain ⟨e, r, rfl⟩ := List.exists_cons_of_ne_nil h.hole_ne_nil
  have hselect := hwords e List.mem_cons_self "SELECT" (by decide)
  have hwith := hbegins e rfl
  simp [hselect, hwith]

/-- A query goes on behind the value as it does behind the placeholder. -/
theorem opensQuery {ls : List Lexeme} (h : Exchange n hole fill) (hwords : WithoutQuery hole)
    (hdepth : 0 < depth)
    (hnested : depth ≤ n ∨ ∃ e ∈ ls, opensAt depth e = true)
    (hopens : opensQuery depth next (ls ++ (hole.reverse ++ front)) = true) :
    Review.opensQuery depth next (ls ++ (fill.reverse ++ front)) = true := by
  by_cases hinside : ∃ e ∈ ls, opensAt depth e = true
  · rw [opensQuery_append_of_opens hinside] at hopens ⊢
    exact hopens
  · have hle : depth ≤ n := hnested.resolve_right hinside
    have hls : ∀ e ∈ ls, opensAt depth e = false := by
      intro e he
      exact Bool.eq_false_iff.2 fun hopens => hinside ⟨e, he, hopens⟩
    obtain ⟨e, r, rfl⟩ := List.exists_cons_of_ne_nil h.hole_ne_nil
    obtain ⟨e', r', rfl⟩ := List.exists_cons_of_ne_nil h.fill.nonempty
    -- neither the placeholder nor its value opens right outside the depth
    have hhole : ∀ x ∈ e :: r, opensAt depth x = false := by
      intro x hx
      simp [opensAt, h.hole.marks x hx '(' (by decide)]
    have hfill : ∀ x ∈ e' :: r', opensAt depth x = false := by
      intro x hx
      rw [opensAt, Bool.and_eq_false_iff, or_iff_not_imp_left, Bool.not_eq_false]
      intro hparen
      have hx := h.fill.opens x hx hparen
      exact beq_eq_false_iff_ne.2 (by omega)
    have hpass : ∀ (x : Lexeme) (y : List Lexeme), (∀ z ∈ x :: y, opensAt depth z = false) →
        Review.opensQuery depth next (ls ++ ((x :: y).reverse ++ front)) =
          Review.opensQuery depth x front := by
      intro x y hxy
      have happend : ls ++ ((x :: y).reverse ++ front) = (ls ++ y.reverse) ++ x :: front := by simp
      rw [happend]
      refine opensQuery_append_of_not_opens (fun z hz => ?_) front
      simp only [List.mem_append, List.mem_reverse, List.mem_singleton, or_assoc] at hz
      rcases hz with hz | hz | rfl
      · exact hls z hz
      · exact hxy z (List.mem_cons_of_mem x hz)
      · exact hxy z List.mem_cons_self
    rw [hpass e r hhole] at hopens
    rw [hpass e' r' hfill]
    exact opensQuery_congr (hwords e List.mem_cons_self "SELECT" (by decide)) hopens

/-- A `FROM` behind the placeholder belongs to a query with the value, too. -/
theorem isQueryFrom_behind {here : Lexeme} {after as : List Lexeme} (h : Exchange n hole fill)
    (hwords : WithoutQuery hole)
    (hnested : here.depth ≤ n ∨ ∃ e ∈ as, opensAt here.depth e = true)
    (hquery : Position.isQueryFrom ⟨as.reverse ++ (hole.reverse ++ front), here, after⟩ = true) :
    Position.isQueryFrom ⟨as.reverse ++ (fill.reverse ++ front), here, after⟩ = true := by
  rw [Position.isQueryFrom, Bool.and_eq_true] at hquery ⊢
  obtain ⟨hfollows, hdepth⟩ := hquery
  refine ⟨?_, ?_⟩
  · cases hlast : as.reverse with
    | nil =>
      obtain ⟨e, r, hfill⟩ :=
        List.exists_cons_of_ne_nil (List.reverse_ne_nil_iff.2 h.fill.nonempty)
      have hlast : e ∈ fill.getLast? := by rw [List.getLast?_eq_head?_reverse, hfill]; rfl
      simp [Position.follows, hfill, h.fill.ends e hlast]
    | cons e r =>
      rw [Position.follows, hlast] at hfollows
      exact hfollows
  · rw [Bool.or_eq_true, beq_iff_eq] at hdepth ⊢
    by_cases hzero : here.depth = 0
    · exact Or.inl hzero
    · refine Or.inr
        (h.opensQuery hwords (Nat.pos_of_ne_zero hzero) ?_ (hdepth.resolve_left hzero))
      rcases hnested with hle | ⟨e, he, hopens⟩
      · exact Or.inl hle
      · exact Or.inr ⟨e, List.mem_reverse.2 he, hopens⟩

/-- **A statement that is a query is one with the value.** -/
theorem entryIssues (h : Exchange n hole fill) (hwords : WithoutQuery hole) (hb : NestedFrom n b)
    (hbegins : a = [] → ∀ l ∈ hole.head?, l.isKeyword "WITH" = false)
    (hentry : entryIssues (a ++ (hole ++ b)) = []) :
    Review.entryIssues (a ++ (fill ++ b)) = [] := by
  rw [entryIssues_eq_nil_iff] at hentry ⊢
  obtain ⟨hhead, hfrom⟩ := hentry
  refine ⟨?_, ?_⟩
  · cases a with
    | nil => rw [List.nil_append, h.head?_hole hwords (hbegins rfl)] at hhead; cases hhead
    | cons e r => exact hhead
  · obtain ⟨p, hp, hquery⟩ := List.any_eq_true.1 hfrom
    obtain ⟨hkeyword, hquery⟩ := Bool.and_eq_true_iff.1 hquery
    have hcut := mem_positions_iff.1 hp
    rw [hasQueryFrom, List.any_eq_true]
    rcases List.append_eq_append_iff.1 hcut with ⟨as, hbefore, hrest⟩ | ⟨bs, ha, hrest⟩
    · -- behind the placeholder
      have hnot : p.here ∉ hole := by
        intro hmem
        rw [hwords _ hmem "FROM" (by decide)] at hkeyword
        cases hkeyword
      obtain ⟨as, rfl, rfl⟩ := append_cons_eq_append hnot hrest.symm
      have hreverse : p.before = as.reverse ++ (hole.reverse ++ a.reverse) := by
        rw [← List.reverse_reverse p.before, hbefore]
        simp
      refine ⟨⟨as.reverse ++ (fill.reverse ++ a.reverse), p.here, p.after⟩, ?_, ?_⟩
      · rw [mem_positions_iff]
        simp
      · rw [hkeyword, Bool.true_and]
        refine h.isQueryFrom_behind hwords ?_ (by rwa [← hreverse])
        rcases Nat.lt_or_ge n p.here.depth with hlt | hle
        · exact Or.inr (hb as p.here p.after rfl hlt)
        · exact Or.inl hle
    · -- in front of the placeholder
      cases bs with
      | nil =>
        have hmem : p.here ∈ hole := by
          obtain ⟨e, r, rfl⟩ := List.exists_cons_of_ne_nil h.hole_ne_nil
          obtain ⟨rfl, -⟩ := List.cons.inj hrest
          exact List.mem_cons_self
        rw [hwords _ hmem "FROM" (by decide)] at hkeyword
        cases hkeyword
      | cons e bs =>
        obtain ⟨rfl, hafter⟩ := List.cons.inj hrest
        refine ⟨⟨p.before, p.here, bs ++ (fill ++ b)⟩, ?_, ?_⟩
        · rw [mem_positions_iff, ha]
          simp
        · rw [hkeyword]
          exact hquery

/-! ### Select lists -/

/-- What follows the outermost `SELECT`. -/
theorem tail_dropWhile (h : Exchange n hole fill) (a b : List Lexeme) :
    ((a ++ (hole ++ b)).dropWhile fun l => !isOuterSelect l).tail =
        ((a ++ (fill ++ b)).dropWhile fun l => !isOuterSelect l).tail ∨
      ∃ a', ((a ++ (hole ++ b)).dropWhile fun l => !isOuterSelect l).tail = a' ++ (hole ++ b) ∧
        ((a ++ (fill ++ b)).dropWhile fun l => !isOuterSelect l).tail = a' ++ (fill ++ b) := by
  have hhole : ∀ l ∈ hole, (!isOuterSelect l) = true := by
    intro l hl
    simp [(h.hole.outer l hl).1]
  have hfill : ∀ l ∈ fill, (!isOuterSelect l) = true := by
    intro l hl
    simp [isOuterSelect, h.fill.words l hl "SELECT" (by decide)]
  rcases dropWhile_append_cases (fun l => !isOuterSelect l) a with hpass | ⟨e, a', -, hstop⟩
  · rw [hpass, hpass, List.dropWhile_append_of_pos hhole, List.dropWhile_append_of_pos hfill]
    exact Or.inl rfl
  · rw [hstop, hstop]
    exact Or.inr ⟨a', rfl, rfl⟩

/-- A placeholder holds its mark, whatever words stand around it. -/
theorem holdsMark_placeholder {opening name closing : Lexeme}
    (hclosing : closing.kind = .punct '\x7d') (word rest : List Lexeme) :
    HoldsMark (word ++ opening :: name :: closing :: rest) := by
  have hmark : HoldsMark [name, closing] := ⟨name, closing, hclosing, List.infix_refl _⟩
  simpa using hmark.around (word ++ [opening]) rest

/-- It does without its first lexeme. -/
theorem holdsMark_drop {opening name closing : Lexeme} (hclosing : closing.kind = .punct '\x7d')
    (word rest : List Lexeme) :
    HoldsMark ((word ++ opening :: name :: closing :: rest).drop 1) := by
  cases word with
  | nil => exact HoldsMark.around ⟨name, closing, hclosing, List.infix_refl _⟩ [] rest
  | cons x word => exact holdsMark_placeholder hclosing word rest

/-- What follows the words that may stand before the first item holds the mark
of the placeholder, or is the same with the value. -/
theorem afterModifiers (h : Exchange n hole fill) (a b : List Lexeme) :
    ∃ a' hole' fill', HoldsMark hole' ∧ hole' ⊆ hole ∧ fill' ⊆ fill ∧
      afterModifiers (a ++ (hole ++ b)) = a' ++ (hole' ++ b) ∧
      Review.afterModifiers (a ++ (fill ++ b)) = a' ++ (fill' ++ b) := by
  obtain ⟨word, opening, name, closing, rest, rfl, hopening, hclosing⟩ := h.hole.marked
  obtain ⟨e, r, rfl⟩ := List.exists_cons_of_ne_nil h.fill.nonempty
  have hopening : ∀ k, opening.isKeyword k = false := by
    intro k
    simp [Lexeme.isKeyword, hopening]
  have hword : ∀ k ∈ ["DISTINCT", "ALL", "TOP"], e.isKeyword k = false := h.fill.begins e rfl
  have hfill : Review.afterModifiers (e :: r ++ b) = e :: r ++ b :=
    afterModifiers_of_head (by simp [isDistinctness, hword]) (hword _ (by decide)) _
  have hmarked : ∀ w : List Lexeme, HoldsMark (w ++ opening :: name :: closing :: rest) :=
    fun w => holdsMark_placeholder hclosing w rest
  have hdrop : ∀ w : List Lexeme, ∃ hole', HoldsMark hole' ∧
      hole' ⊆ w ++ opening :: name :: closing :: rest ∧
      (w ++ opening :: name :: closing :: rest ++ b).drop 1 = hole' ++ b := by
    intro w
    have hlength : 1 ≤ (w ++ opening :: name :: closing :: rest).length := by
      simp only [List.length_append, List.length_cons]
      omega
    refine ⟨_, holdsMark_drop hclosing w rest, List.drop_subset _ _, ?_⟩
    rw [List.drop_append_of_le_length hlength]
  rcases afterModifiers_append_cases a with hpass | ⟨x, a', -, hstop⟩
  · -- the list begins with the placeholder, the word before it apart
    rw [hpass, hpass, List.append_assoc]
    rcases afterModifiers_append_cases word with hpass' | ⟨x, word', hsub, hstop⟩
    · refine ⟨[], opening :: name :: closing :: rest, e :: r, hmarked [], by simp,
        List.Subset.refl _, ?_, hfill⟩
      rw [hpass']
      exact afterModifiers_of_head (by simp [isDistinctness, hopening]) (hopening _) _
    · have hsub' : word' ++ opening :: name :: closing :: rest ⊆
          word ++ opening :: name :: closing :: rest := by
        intro y hy
        rcases List.mem_append.1 hy with hy | hy
        · exact List.mem_append_left _ (hsub (List.mem_cons_of_mem x hy))
        · exact List.mem_append_right _ hy
      rw [hstop]
      by_cases htop : x.isKeyword "TOP" = true
      · obtain ⟨hole', hmark, hsub'', hrest⟩ := hdrop word'
        rw [if_pos htop, ← List.append_assoc, hrest]
        exact ⟨[], hole', e :: r, hmark, fun y hy => hsub' (hsub'' hy), List.Subset.refl _, rfl,
          hfill⟩
      · rw [if_neg htop, ← List.append_assoc]
        refine ⟨[], x :: (word' ++ opening :: name :: closing :: rest), e :: r, ?_, ?_,
          List.Subset.refl _, rfl, hfill⟩
        · exact hmarked (x :: word')
        · refine List.cons_subset.2 ⟨List.mem_append_left _ (hsub List.mem_cons_self), hsub'⟩
  · rw [hstop, hstop]
    by_cases htop : x.isKeyword "TOP" = true
    · rw [if_pos htop, if_pos htop]
      cases a' with
      | nil =>
        obtain ⟨hole', hmark, hsub, hrest⟩ := hdrop word
        exact ⟨[], hole', r, hmark, hsub, List.subset_cons_self e r, hrest, rfl⟩
      | cons y a' =>
        exact ⟨a', _, _, hmarked word, List.Subset.refl _, List.Subset.refl _, rfl, rfl⟩
    · rw [if_neg htop, if_neg htop]
      exact ⟨x :: a', _, _, hmarked word, List.Subset.refl _, List.Subset.refl _, rfl, rfl⟩

/-- The items with the placeholder are those with the value, or marked. -/
theorem mem_selectList (h : Exchange n hole fill) (hitem : item ∈ selectList (a ++ (hole ++ b))) :
    IsMarked item ∨ item ∈ selectList (a ++ (fill ++ b)) := by
  rcases h.tail_dropWhile a b with heq | ⟨a', htail, htail'⟩
  · rw [selectList, heq] at hitem
    exact Or.inr hitem
  · rw [selectList, htail] at hitem
    rw [selectList, htail']
    obtain ⟨a', hole', fill', hmark, hhole, hfill, hafter, hafter'⟩ := h.afterModifiers a' b
    rw [hafter] at hitem
    rw [hafter']
    have hholes : ∀ l ∈ hole', endsList l = false ∧ separatesItems l = false := by
      intro l hl
      have hcomma := h.hole.marks l (hhole hl) ',' (by decide)
      exact ⟨(h.hole.outer l (hhole hl)).2, by simp [separatesItems, hcomma]⟩
    have hfills : ∀ l ∈ fill', endsList l = false ∧ separatesItems l = false := by
      intro l hl
      have hfrom := h.fill.words l (hfill hl) "FROM" (by decide)
      have hcomma : l.depth = 0 → l.isPunct ',' = false := by
        intro hdepth
        rw [Bool.eq_false_iff]
        intro hcomma
        have hinside := h.fill.separates l (hfill hl) hcomma
        omega
      simpa [endsList, separatesItems, hfrom, h.fill.single l (hfill hl)] using hcomma
    obtain ⟨hsplit, hnonempty⟩ := List.mem_filter.1 hitem
    rw [List.takeWhile_append] at hsplit ⊢
    by_cases hinside : (a'.takeWhile fun l => !endsList l).length = a'.length
    · rw [if_pos hinside, List.takeWhile_append_of_pos fun l hl => by simp [(hholes l hl).1]]
        at hsplit
      rw [if_pos hinside, List.takeWhile_append_of_pos fun l hl => by simp [(hfills l hl).1]]
      obtain ⟨ps, x, y, qs, hparts, hparts'⟩ := splitAtEach_exchange (fun l hl => (hholes l hl).2)
        (fun l hl => (hfills l hl).2) a' (b.takeWhile fun l => !endsList l)
      rw [hparts, List.mem_append, List.mem_cons] at hsplit
      rcases hsplit with hps | rfl | hqs
      · refine Or.inr (List.mem_filter.2 ⟨?_, hnonempty⟩)
        rw [hparts']
        exact List.mem_append_left _ hps
      · exact Or.inl (hmark.around x y).isMarked
      · refine Or.inr (List.mem_filter.2 ⟨?_, hnonempty⟩)
        rw [hparts']
        exact List.mem_append_right _ (List.mem_cons_of_mem _ hqs)
    · rw [if_neg hinside] at hsplit ⊢
      exact Or.inr (List.mem_filter.2 ⟨hsplit, hnonempty⟩)

/-- **The required columns of a statement** are selected with the value. -/
theorem requiredColumnIssues (h : Exchange n hole fill) (level : Level)
    (hrequired : requiredColumnIssues (selectList (a ++ (hole ++ b))) level = []) :
    Review.requiredColumnIssues (selectList (a ++ (fill ++ b))) level = [] := by
  rw [requiredColumnIssues_eq_nil_iff] at hrequired ⊢
  have hkeeps : ∀ test : List Lexeme → Bool, (∀ item, IsMarked item → test item = false) →
      (selectList (a ++ (hole ++ b))).any test = true →
      (selectList (a ++ (fill ++ b))).any test = true := by
    intro test htest hany
    obtain ⟨item, hitem, hholds⟩ := List.any_eq_true.1 hany
    rcases h.mem_selectList hitem with hmarked | hitem
    · rw [htest item hmarked] at hholds
      cases hholds
    · exact List.any_eq_true.2 ⟨item, hitem, hholds⟩
  rcases hrequired with hstar | hcolumns
  · exact Or.inl (hkeeps isStar (fun _ hmarked => hmarked.not_isStar) hstar)
  · refine Or.inr fun c hc => ?_
    exact hkeeps _ (fun _ hmarked => hmarked.not_selectsColumn c.name) (hcolumns c hc)

end Exchange

end DealSql.Review
