import DealSql.Proofs.ExchangedLexemes
import DealSql.Proofs.FragmentLexemes
import DealSql.Proofs.LetterCase
import DealSql.Proofs.SelectListEnds
import DealSql.Proofs.SelectStatements

/-!
# Words before a select list

Between `SELECT` and the first item may stand `DISTINCT` or `ALL`, and then
`TOP` with a number.  They are passed over lexeme by lexeme: of `TOP` and what
follows it two lexemes are.  That is the number when it stands by itself.  Of a
number in parentheses only the opening one is passed over, and the rest of it
stays in front of the first item.

* `reads_text` — the lexemes of the words before a list.
* `selectList_modified` — the items behind them, whatever follows.
* `modified_items_iff` — when they are the items of the statement without them.
-/

namespace DealSql.Review

open DealSql.Text DealSql.Statement DealSql.Sql

/-! ## Modifiers -/

/-- One of some keywords, in any letter case. -/
structure Spelling (keywords : List String) where
  text : List Char
  isSpelling : isOneOf text keywords = true

/-- How many rows are wanted at most, the number in parentheses or not. -/
structure Limit where
  top : Spelling ["TOP"]
  count : Nat
  isEnclosed : Bool

/-- What may stand between `SELECT` and the first item. -/
structure Modifiers where
  distinctness : Option (Spelling ["DISTINCT", "ALL"])
  limit : Option Limit

namespace Limit

/-- The number as it is written. -/
def number (l : Limit) : List Char :=
  if l.isEnclosed then '(' :: natural l.count ++ [')'] else natural l.count

/-- The lexemes of the number. -/
def numberLexemes (l : Limit) : List Lexeme :=
  if l.isEnclosed then
    [⟨.punct '(', 0, 0⟩, ⟨.word (natural l.count), 0, 1⟩, ⟨.punct ')', 0, 0⟩]
  else [⟨.word (natural l.count), 0, 0⟩]

end Limit

namespace Modifiers

/-- The words as they are written, with a blank behind each. -/
def text (m : Modifiers) : List Char :=
  m.distinctness.elim [] (fun w => w.text ++ [' ']) ++
    m.limit.elim [] fun l => l.top.text ++ [' '] ++ (l.number ++ [' '])

/-- Their lexemes. -/
def lexemes (m : Modifiers) : List Lexeme :=
  m.distinctness.elim [] (fun w => [⟨.word w.text, 0, 0⟩]) ++
    m.limit.elim [] fun l => ⟨.word l.top.text, 0, 0⟩ :: l.numberLexemes

/-- Whether the number of rows stands in parentheses. -/
def isEnclosed (m : Modifiers) : Bool := m.limit.any Limit.isEnclosed

/-- The lexemes that are not passed over. -/
def leftover (m : Modifiers) : List Lexeme :=
  m.limit.elim [] fun l => if l.isEnclosed then l.numberLexemes.drop 1 else []

end Modifiers

/-- The statement that selects some items, with words before them. -/
def selectWith (m : Modifiers) (items : List (List Char)) (rest : List Char) : List Char :=
  "SELECT ".toList ++ (m.text ++ (itemList items ++ (" FROM ".toList ++ rest)))

variable {m : Modifiers} {keywords : List String} {items : List (List Char)} {body : List Char}
  {depth : Nat} {ls : List Lexeme}

/-! ## Their text -/

/-- A keyword in any letter case is a word. -/
theorem Spelling.isWord (w : Spelling keywords) (h : ∀ k ∈ keywords, IsWord k.toList) :
    IsWord w.text := by
  obtain ⟨k, hk, hsame⟩ := List.any_eq_true.1 w.isSpelling
  have hfold : foldCase w.text = foldCase k.toList := sameWord_iff.1 hsame
  obtain ⟨hne, hword⟩ := h k hk
  constructor
  · intro hnil
    rw [hnil] at hfold
    exact hne (List.map_eq_nil_iff.1 hfold.symm)
  · intro c hc
    have hlower : c.toLower ∈ foldCase k.toList := hfold ▸ List.mem_map_of_mem hc
    obtain ⟨e, he, heq⟩ := List.mem_map.1 hlower
    rw [← isWordChar_toLower, ← heq, isWordChar_toLower]
    exact hword e he

theorem isWord_distinctness (w : Spelling ["DISTINCT", "ALL"]) : IsWord w.text := by
  apply w.isWord
  intro k hk
  rcases (by simpa using hk : k = "DISTINCT" ∨ k = "ALL") with rfl | rfl
  · exact ⟨by decide, by decide⟩
  · exact ⟨by decide, by decide⟩

theorem isWord_top (w : Spelling ["TOP"]) : IsWord w.text := by
  apply w.isWord
  intro k hk
  obtain rfl : k = "TOP" := by simpa using hk
  exact ⟨by decide, by decide⟩

theorem reads_number (l : Limit) : Reads l.number 0 l.numberLexemes 0 := by
  have hnumber : ∀ depth,
      Reads (natural l.count) depth [⟨.word (natural l.count), 0, depth⟩] depth :=
    fun depth => reads_word (isWord_natural l.count)
  unfold Limit.number Limit.numberLexemes
  split
  · have hopen : Parted ['('] (natural l.count) := Or.inl (by decide)
    have hclose : Parted (['('] ++ natural l.count) [')'] := Or.inr (by decide)
    exact (reads_openParen.append (hnumber 1) hopen).append reads_closeParen hclose
  · exact hnumber 0

/-- **The lexemes of the words before a list.** -/
theorem reads_text (m : Modifiers) : Reads m.text 0 m.lexemes 0 := by
  obtain ⟨distinctness, limit⟩ := m
  have hdistinctness : Reads (distinctness.elim [] fun w => w.text ++ [' ']) 0
      (distinctness.elim [] fun w => [⟨.word w.text, 0, 0⟩]) 0 := by
    cases distinctness with
    | none => exact reads_nil
    | some w => exact (reads_word (isWord_distinctness w)).blank
  have hlimit : Reads (limit.elim [] fun l => l.top.text ++ [' '] ++ (l.number ++ [' '])) 0
      (limit.elim [] fun l => ⟨.word l.top.text, 0, 0⟩ :: l.numberLexemes) 0 := by
    cases limit with
    | none => exact reads_nil
    | some l =>
      have hparted : Parted (l.top.text ++ [' ']) (l.number ++ [' ']) :=
        Or.inl (by rw [endsInWord_append_singleton]; decide)
      exact (reads_word (isWord_top l.top)).blank.append (reads_number l).blank hparted
  refine hdistinctness.append hlimit (Or.inl ?_)
  cases distinctness with
  | none => rfl
  | some w =>
    rw [Option.elim_some, endsInWord_append_singleton]
    decide

/-- No character of the words before a list begins or ends a literal, a comment or a
quoted name. -/
theorem inert_text (m : Modifiers) : ∀ c ∈ m.text, isInert c = true := by
  have hword : ∀ {w : List Char}, IsWord w → ∀ c ∈ w, isInert c = true := by
    intro w hw c hc
    have hne : ∀ x, isWordChar x = false → c ≠ x := fun x hx => ne_of_test (hw.2 c hc) hx
    simp [isInert, hne '-' (by decide), hne '/' (by decide), hne '\'' (by decide),
      hne '"' (by decide)]
  have hnumber : ∀ l : Limit, ∀ c ∈ l.number, isInert c = true := by
    intro l c hc
    have hnatural := hword (isWord_natural l.count) c
    unfold Limit.number at hc
    split at hc
    · rcases (by simpa using hc : c = '(' ∨ c ∈ natural l.count ∨ c = ')') with rfl | hc | rfl
      · rfl
      · exact hnatural hc
      · rfl
    · exact hnatural hc
  obtain ⟨distinctness, limit⟩ := m
  intro c hc
  rcases List.mem_append.1 hc with hc | hc
  · cases distinctness with
    | none => cases hc
    | some w =>
      rcases (by simpa using hc : c ∈ w.text ∨ c = ' ') with hc | rfl
      · exact hword (isWord_distinctness w) c hc
      · rfl
  · cases limit with
    | none => cases hc
    | some l =>
      rcases (by simpa using hc : c ∈ l.top.text ∨ c = ' ' ∨ c ∈ l.number ∨ c = ' ')
        with hc | rfl | hc | rfl
      · exact hword (isWord_top l.top) c hc
      · rfl
      · exact hnumber l c hc
      · rfl

/-- A blank stands before the items. -/
theorem getLast?_select_text (m : Modifiers) :
    ("SELECT ".toList ++ m.text).getLast? = some ' ' := by
  have hends : ∃ front, "SELECT ".toList ++ m.text = front ++ [' '] := by
    obtain ⟨distinctness, limit⟩ := m
    cases limit with
    | none =>
      cases distinctness with
      | none => exact ⟨"SELECT".toList, rfl⟩
      | some w => exact ⟨"SELECT ".toList ++ w.text, by simp [Modifiers.text]⟩
    | some l =>
      exact ⟨"SELECT ".toList ++ (distinctness.elim [] (fun w => w.text ++ [' ']) ++
        (l.top.text ++ [' '] ++ l.number)), by simp [Modifiers.text]⟩
  obtain ⟨front, hfront⟩ := hends
  rw [hfront, List.getLast?_concat]

/-- The words before a list leave the text behind them to be read by itself. -/
theorem unplaced_select_text (m : Modifiers) (body : List Char) :
    unplaced (structuralLexemes ("SELECT ".toList ++ (m.text ++ body))) =
      ⟨.word "SELECT".toList, 0, 0⟩ :: (m.lexemes ++ unplaced (structuralLexemes body)) := by
  have hinert : ∀ c ∈ "SELECT ".toList ++ m.text, isInert c = true := by
    intro c hc
    rcases List.mem_append.1 hc with hc | hc
    · exact List.all_eq_true.1 (by decide : "SELECT ".toList.all isInert = true) c hc
    · exact inert_text m c hc
  have hwhole : Whole ("SELECT ".toList ++ m.text) := (whole_of_inert hinert).1
  have hquote : ∀ c ∈ "SELECT ".toList ++ m.text, c ≠ '\'' := by
    intro c hc
    exact ne_of_test (hinert c hc) rfl
  have hmask : maskLiterals ("SELECT ".toList ++ m.text) = "SELECT ".toList ++ m.text :=
    hwhole.maskLiterals_eq hquote
  have hseam : Seam ("SELECT ".toList ++ m.text) body :=
    Or.inl (by rw [getLast?_select_text]; rfl)
  have hparted : Parted ("SELECT ".toList ++ m.text) (maskLiterals body) :=
    Or.inl (by rw [endsInWord, getLast?_select_text]; decide)
  have hselect : Reads "SELECT ".toList 0 [⟨.word "SELECT".toList, 0, 0⟩] 0 :=
    (reads_word (w := "SELECT".toList) ⟨by decide, by decide⟩).blank
  obtain ⟨hlexemes, hafter⟩ := hselect.append (reads_text m) (Or.inl (by decide))
  rw [← List.append_assoc, structuralLexemes, maskLiterals_append hwhole.returns hseam, hmask,
    lexemes, lexFrom_append (by rw [hafter]) hparted, unplaced_append, hlexemes, hafter,
    unplaced_lexFrom true _ 0]
  rfl

/-! ## The items behind them -/

/-- Whether a lexeme is none of the words that are passed over. -/
def BeginsItem (l : Lexeme) : Prop := isDistinctness l = false ∧ l.isKeyword "TOP" = false

theorem isDistinctness_distinctness (w : Spelling ["DISTINCT", "ALL"]) :
    isDistinctness ⟨.word w.text, 0, 0⟩ = true := by
  simpa [isDistinctness, Lexeme.isKeyword, isOneOf] using w.isSpelling

theorem isKeyword_top (w : Spelling ["TOP"]) :
    isDistinctness ⟨.word w.text, 0, 0⟩ = false ∧
      Lexeme.isKeyword ⟨.word w.text, 0, 0⟩ "TOP" = true := by
  have htop : sameWord w.text "TOP".toList = true := by simpa [isOneOf] using w.isSpelling
  have hfold : foldCase w.text = foldCase "TOP".toList := sameWord_iff.1 htop
  have hne : ∀ k : String, foldCase "TOP".toList ≠ foldCase k.toList →
      Lexeme.isKeyword ⟨.word w.text, 0, 0⟩ k = false := by
    intro k hk
    rw [← Bool.not_eq_true, Lexeme.isKeyword, sameWord_iff, hfold]
    exact hk
  refine ⟨?_, htop⟩
  rw [isDistinctness, hne "DISTINCT" (by decide), hne "ALL" (by decide)]
  rfl

/-- What is passed over: all but the rest of a number in parentheses. -/
theorem afterModifiers_lexemes (m : Modifiers) (h : ∀ l ∈ ls.head?, BeginsItem l) :
    afterModifiers (m.lexemes ++ ls) = m.leftover ++ ls := by
  obtain ⟨distinctness, limit⟩ := m
  have hlimit : afterModifiers
      ((limit.elim [] fun l => ⟨.word l.top.text, 0, 0⟩ :: l.numberLexemes) ++ ls) =
      (limit.elim [] fun l => if l.isEnclosed then l.numberLexemes.drop 1 else []) ++ ls := by
    cases limit with
    | none =>
      cases ls with
      | nil => rfl
      | cons l r => exact afterModifiers_of_head (h l rfl).1 (h l rfl).2 r
    | some l =>
      obtain ⟨hdistinct, htop⟩ := isKeyword_top l.top
      rw [Option.elim_some, Option.elim_some, List.cons_append, afterModifiers,
        List.dropWhile_cons_of_neg (by simp [hdistinct])]
      simp only [htop, if_true]
      unfold Limit.numberLexemes
      split <;> rfl
  cases distinctness with
  | none => exact hlimit
  | some w =>
    refine Eq.trans ?_ hlimit
    simp only [Modifiers.lexemes, Option.elim_some, List.cons_append, List.nil_append,
      afterModifiers, List.dropWhile_cons, isDistinctness_distinctness, if_true]

/-- What stays of a number ends no list and separates no items. -/
theorem leftover_inside (m : Modifiers) :
    ∀ l ∈ m.leftover, endsList l = false ∧ separatesItems l = false := by
  obtain ⟨distinctness, _ | l⟩ := m
  · intro x hx
    cases hx
  · intro x hx
    unfold Modifiers.leftover Limit.numberLexemes at hx
    rw [Option.elim_some] at hx
    split at hx
    · rcases (by simpa using hx : x = ⟨.word (natural l.count), 0, 1⟩ ∨ x = ⟨.punct ')', 0, 0⟩)
        with rfl | rfl
      · exact ⟨rfl, rfl⟩
      · exact ⟨rfl, rfl⟩
    · cases hx

/-- **The items behind the words before a list**, whatever follows. -/
theorem selectList_modified (m : Modifiers)
    (h : ∀ l ∈ (structuralLexemes body).head?, BeginsItem l) :
    (selectList (structuralLexemes ("SELECT ".toList ++ (m.text ++ body)))).map unplaced =
      itemsAmong (m.leftover ++
        (unplaced (structuralLexemes body)).takeWhile fun l => !endsList l) := by
  have hbegins : ∀ l ∈ (unplaced (structuralLexemes body)).head?, BeginsItem l := by
    rw [unplaced, List.head?_map]
    intro l hl
    obtain ⟨x, hx, rfl⟩ := Option.map_eq_some_iff.1 hl
    exact h x hx
  have hinside : ∀ l ∈ m.leftover, (!endsList l) = true := by
    intro l hl
    rw [(leftover_inside m l hl).1]
    rfl
  have hselect : isOuterSelect ⟨.word "SELECT".toList, 0, 0⟩ = true := by decide
  rw [← selectList_unplaced, unplaced_select_text, selectList,
    List.dropWhile_cons_of_neg (by rw [hselect]; decide), List.tail_cons,
    afterModifiers_lexemes m hbegins, List.takeWhile_append_of_pos hinside]
  rfl

/-! ## Statements put together from items -/

theorem unplaced_itemsFrom (offset : Nat) (items : List (List Char)) :
    (itemsFrom offset items).map unplaced = items.map fun i => unplaced (structuralLexemes i) := by
  induction items generalizing offset with
  | nil => rfl
  | cons i is ih =>
    rw [itemsFrom, List.map_cons, List.map_cons, ih, unplaced_lexFrom true offset 0]
    rfl

/-- The items before `FROM`, one by one. -/
theorem splitAtEach_listed (hitems : ∀ i ∈ items, IsItemText i) (hne : items ≠ [])
    (hfirst : ∀ i ∈ items.head?, ∀ l ∈ (structuralLexemes i).head?, BeginsItem l)
    (rest : List Char) :
    (∀ l ∈ (structuralLexemes (itemList items ++ (" FROM ".toList ++ rest))).head?, BeginsItem l) ∧
      splitAtEach separatesItems
        ((unplaced (structuralLexemes (itemList items ++ (" FROM ".toList ++ rest)))).takeWhile
          fun l => !endsList l) = items.map fun i => unplaced (structuralLexemes i) := by
  obtain ⟨hsplit, hinside, -⟩ := itemList_read hitems hne 0
  obtain ⟨place, ls, hlisted⟩ := lexFrom_listed hitems hne 0 (maskLiterals rest)
  have hlexemes : structuralLexemes (itemList items ++ (" FROM ".toList ++ rest)) =
      lexFrom true 0 0 (itemList (items.map maskLiterals)) ++
        ⟨.word "FROM".toList, place, 0⟩ :: ls := by
    rw [structuralLexemes, maskLiterals_listed hitems]
    exact hlisted
  constructor
  · have hhead := head?_listed (P := BeginsItem) (fun l => Iff.rfl) hitems hne hfirst 0
    have hnil : lexFrom true 0 0 (itemList (items.map maskLiterals)) ≠ [] := by
      intro hnil
      rw [hnil] at hsplit
      obtain ⟨i, is, rfl⟩ := List.exists_cons_of_ne_nil hne
      have hfront : lexFrom true 0 0 (maskLiterals i) = [] := (List.cons.inj hsplit).1.symm
      exact ((hitems i List.mem_cons_self).at 0).nonempty hfront
    rw [hlexemes, List.head?_append_of_ne_nil _ hnil]
    exact hhead
  · have hopen : ∀ l ∈ unplaced (lexFrom true 0 0 (itemList (items.map maskLiterals))),
        (!endsList l) = true := by
      intro l hl
      obtain ⟨x, hx, rfl⟩ := List.mem_map.1 hl
      rw [isRelabeling_unplaced.endsList, hinside x hx]
      rfl
    have hfrom : endsList (Lexeme.unplaced ⟨.word "FROM".toList, place, 0⟩) = true := by
      show endsList ⟨.word "FROM".toList, 0, 0⟩ = true
      decide
    rw [hlexemes, unplaced_append, List.takeWhile_append_of_pos hopen, unplaced_cons,
      List.takeWhile_cons_of_neg (by rw [hfrom]; decide), List.append_nil, unplaced,
      splitAtEach_map]
    simp only [isRelabeling_unplaced.separatesItems]
    rw [hsplit]
    exact unplaced_itemsFrom 0 items

/-- A number in front of the items, with the parenthesis that closes it. -/
theorem leftover_of_isEnclosed (h : m.isEnclosed = true) :
    ∃ n, m.leftover = [⟨.word (natural n), 0, 1⟩, ⟨.punct ')', 0, 0⟩] := by
  obtain ⟨distinctness, _ | l⟩ := m
  · cases h
  · have henclosed : l.isEnclosed = true := h
    refine ⟨l.count, ?_⟩
    simp [Modifiers.leftover, Limit.numberLexemes, henclosed]

theorem leftover_of_not_isEnclosed (h : m.isEnclosed = false) : m.leftover = [] := by
  obtain ⟨distinctness, _ | l⟩ := m
  · rfl
  · have henclosed : l.isEnclosed = false := h
    simp [Modifiers.leftover, henclosed]

/-- What begins with a parenthesis behind a number is no column. -/
theorem not_column_of_closeParen (number close : Lexeme) (hclose : close.kind = .punct ')')
    (item : List Lexeme) : isStar (number :: close :: item) = false ∧
      ∀ column, selectsColumn column (number :: close :: item) = false := by
  have hdot : close.isPunct '.' = false := by simp [Lexeme.isPunct, hclose]
  have hstar : close.isPunct '*' = false := by simp [Lexeme.isPunct, hclose]
  have has : close.isKeyword "AS" = false := by simp [Lexeme.isKeyword, hclose]
  have hword : close.word? = none := by simp [Lexeme.word?, hclose]
  have hlabel : isLabel (close :: item) = false := by
    rcases item with _ | ⟨a, _ | ⟨b, r⟩⟩
    · simp [isLabel, hword]
    · simp [isLabel, has]
    · rfl
  refine ⟨?_, fun column => ?_⟩
  · rcases item with _ | ⟨a, _ | ⟨b, r⟩⟩
    · rfl
    · simp [isStar, hdot]
    · rfl
  · rw [selectsColumn, unqualified, hdot, Bool.and_false, if_neg Bool.false_ne_true]
    simp [hlabel]

/-- **Words before a list change no item but the first.**  In front of this stays
what is left of a number in parentheses, so that it is no column any more; so
the items are those of the statement without the words exactly when no number
stands in parentheses. -/
theorem modified_items_iff (m : Modifiers) (items : List (List Char)) (rest : List Char)
    (hitems : ∀ i ∈ items, IsItemText i) (hne : items ≠ [])
    (hfirst : ∀ i ∈ items.head?, ∀ l ∈ (structuralLexemes i).head?,
      isDistinctness l = false ∧ l.isKeyword "TOP" = false) :
    let alone := (selectList (structuralLexemes (selectFrom items rest))).map unplaced
    let modified := (selectList (structuralLexemes (selectWith m items rest))).map unplaced
    alone = items.map (fun i => unplaced (structuralLexemes i)) ∧
      modified = alone.modifyHead (m.leftover ++ ·) ∧
      (modified = alone ↔ m.isEnclosed = false) ∧
      (m.isEnclosed = true → ∀ item ∈ modified.head?,
        isStar item = false ∧ ∀ column, selectsColumn column item = false) := by
  intro alone modified
  obtain ⟨hbegins, hsplit⟩ := splitAtEach_listed hitems hne hfirst rest
  obtain ⟨i, is, rfl⟩ := List.exists_cons_of_ne_nil hne
  have hnonempty : ∀ j ∈ i :: is, unplaced (structuralLexemes j) ≠ [] := by
    intro j hj hnil
    exact (hitems j hj).isItem.nonempty (List.map_eq_nil_iff.1 hnil)
  have hlist : ∀ m : Modifiers,
      (selectList (structuralLexemes (selectWith m (i :: is) rest))).map unplaced =
        (m.leftover ++ unplaced (structuralLexemes i)) ::
          is.map fun j => unplaced (structuralLexemes j) := by
    intro m
    have hparts := splitAtEach_append_of_forall (fun l hl => (leftover_inside m l hl).2) hsplit
    refine (selectList_modified m hbegins).trans ?_
    rw [itemsAmong, hparts, List.filter_eq_self]
    intro item hitem
    rcases List.mem_cons.1 hitem with rfl | hitem
    · simp [hnonempty i List.mem_cons_self]
    · obtain ⟨j, hj, rfl⟩ := List.mem_map.1 hitem
      simp [hnonempty j (List.mem_cons_of_mem i hj)]
  have halone : alone = (i :: is).map fun j => unplaced (structuralLexemes j) :=
    hlist ⟨none, none⟩
  have hmodified : modified = alone.modifyHead (m.leftover ++ ·) := by
    rw [halone]
    exact hlist m
  refine ⟨halone, hmodified, ?_, fun henclosed item hitem => ?_⟩
  · rw [hmodified, halone, List.map_cons, List.modifyHead_cons, List.cons.injEq,
      and_iff_left rfl, List.append_left_eq_self]
    constructor
    · intro hleftover
      rw [← Bool.not_eq_true]
      intro henclosed
      obtain ⟨n, hn⟩ := leftover_of_isEnclosed henclosed
      rw [hn] at hleftover
      cases hleftover
    · exact leftover_of_not_isEnclosed
  · obtain ⟨n, hleftover⟩ := leftover_of_isEnclosed henclosed
    rw [hmodified, halone, hleftover] at hitem
    obtain rfl := Option.some.inj hitem
    exact not_column_of_closeParen _ _ rfl _

/-- Ten rows that are distinct, the words in any letter case. -/
def tenDistinct : Modifiers :=
  ⟨some ⟨"Distinct".toList, by decide⟩, some ⟨⟨"tOP".toList, by decide⟩, 10, false⟩⟩

/-- Items with commas and keywords inside them stay as they are. -/
theorem tenDistinct_items : (∀ i ∈ nestedColumns, IsItemText i) ∧
    (selectList (structuralLexemes
        (selectWith tenDistinct nestedColumns "t".toList))).map unplaced =
      nestedColumns.map fun i => unplaced (structuralLexemes i) := by
  have hitems : ∀ i ∈ nestedColumns, IsItemText i := by decide +kernel
  obtain ⟨halone, -, hsame, -⟩ := modified_items_iff tenDistinct nestedColumns "t".toList hitems
    (by decide) (by decide +kernel)
  exact ⟨hitems, (hsame.2 rfl).trans halone⟩

/-- Five rows, with the number in parentheses. -/
def topFive : Modifiers := ⟨none, some ⟨⟨"TOP".toList, by decide⟩, 5, true⟩⟩

/-- The required column of a deal, and a result. -/
def dealColumns : List (List Char) := ["deal.dl_nbr".toList, "1 AS x".toList]

/-- With its number in parentheses `TOP` hides the first item, so that the required column
is reported missing. -/
theorem topFive_hides :
    (selectList (structuralLexemes (selectWith topFive dealColumns "deal".toList))).map unplaced ≠
      (selectList (structuralLexemes (selectFrom dealColumns "deal".toList))).map unplaced ∧
    (review .standard (selectFrom dealColumns "deal".toList) .deal "x").issues = [] ∧
    (review .standard (selectWith topFive dealColumns "deal".toList) .deal "x").issues =
      [.missingRequiredColumn ⟨"dl_nbr", "deal.dl_nbr"⟩ .deal] := by
  decide +kernel

end DealSql.Review
