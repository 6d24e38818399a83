import DealSql.Proofs.ColumnItems
import DealSql.Proofs.PlainStatements
import DealSql.Proofs.WholeTexts

/-!
# Statements put together from items

A text keeps to itself as an item of a select list when its literals,
comments, quoted names and parentheses all end within it and nothing outside
of them separates items or ends the list.  Put between `SELECT` and `FROM`
with commas between them, such texts are the items of the statement, each
with its own lexemes at its own place, whatever stands behind `FROM`.

The columns that a level requires are then missing exactly when no item is
all columns and none is the column and nothing else: neither nesting nor
quoting inside an item, nor anything in the items before it, has a say.

* `selectList_selectFrom` — the items of a statement put together from them.
* `required_columns_decided` — which required columns are reported missing.
-/

namespace DealSql.Review

open DealSql.Text DealSql.Statement

variable {item rest : List Char} {items : List (List Char)}

/-- A text that keeps to itself as an item. -/
structure IsItemText (item : List Char) : Prop where
  region : Region.after none .code item = .code
  nesting : Nesting.after true ⟨0, none⟩ (maskLiterals item) = ⟨0, none⟩
  isItem : IsItem (structuralLexemes item)

instance (item : List Char) : Decidable (IsItemText item) :=
  decidable_of_iff (Region.after none .code item = .code ∧
      Nesting.after true ⟨0, none⟩ (maskLiterals item) = ⟨0, none⟩ ∧
      structuralLexemes item ≠ [] ∧
      ∀ l ∈ structuralLexemes item, separatesItems l = false ∧ endsList l = false)
    ⟨fun ⟨hregion, hnesting, hnonempty, hinside⟩ => ⟨hregion, hnesting, ⟨hnonempty, hinside⟩⟩,
      fun h => ⟨h.region, h.nesting, h.isItem.nonempty, h.isItem.inside⟩⟩

/-- Items with commas between them. -/
def itemList (items : List (List Char)) : List Char := ", ".toList.intercalate items

/-- The statement that selects some items. -/
def selectFrom (items : List (List Char)) (rest : List Char) : List Char :=
  "SELECT ".toList ++ (itemList items ++ (" FROM ".toList ++ rest))

/-- The lexemes of each item at the place where it stands. -/
def itemsFrom (offset : Nat) : List (List Char) → List (List Lexeme)
  | [] => []
  | i :: is => lexFrom true offset 0 (maskLiterals i) :: itemsFrom (offset + byteLength i + 2) is

theorem itemList_cons_cons (i j : List Char) (is : List (List Char)) :
    itemList (i :: j :: is) = i ++ (", ".toList ++ itemList (j :: is)) := by
  rw [itemList, List.intercalate_cons_cons, List.append_assoc]
  rfl

/-! ## The mask -/

/-- A text that ends as code is masked by itself. -/
theorem maskLiterals_append {a b : List Char} (ha : Region.after none .code a = .code)
    (h : Seam a b) : maskLiterals (a ++ b) = maskLiterals a ++ maskLiterals b := by
  show (marksFrom .code (a ++ b)).flatMap _ = _
  rw [(h.of_returns ha).1, List.flatMap_append]
  rfl

/-- Between commas the items are masked one by one. -/
theorem maskLiterals_itemList (h : ∀ i ∈ items, IsItemText i) :
    maskLiterals (itemList items) = itemList (items.map maskLiterals) ∧
      Region.after none .code (itemList items) = .code := by
  induction items with
  | nil => exact ⟨rfl, rfl⟩
  | cons i is ih =>
    have hi : IsItemText i := h i List.mem_cons_self
    cases is with
    | nil => simpa [itemList, List.intercalate] using hi.region
    | cons j js =>
      obtain ⟨hmask, hregion⟩ := ih fun x hx => h x (List.mem_cons_of_mem i hx)
      have hseam : Seam i (", ".toList ++ itemList (j :: js)) := Or.inr rfl
      have hcomma : Seam ", ".toList (itemList (j :: js)) := Or.inl (by decide)
      have hreturns : Region.after none .code ", ".toList = .code := by decide
      constructor
      · rw [List.map_cons, List.map_cons, itemList_cons_cons, itemList_cons_cons,
          maskLiterals_append hi.region hseam, maskLiterals_append hreturns hcomma, hmask]
        rfl
      · rw [itemList_cons_cons, (hseam.of_returns hi.region).2, (hcomma.of_returns hreturns).2,
          hregion]

/-- Items and what follows them are masked one by one. -/
theorem maskLiterals_listed (h : ∀ i ∈ items, IsItemText i) :
    maskLiterals (itemList items ++ (" FROM ".toList ++ rest)) =
      itemList (items.map maskLiterals) ++ (" FROM ".toList ++ maskLiterals rest) := by
  obtain ⟨hmask, hregion⟩ := maskLiterals_itemList h
  have hfrom : Region.after none .code " FROM ".toList = .code := by decide
  have hitems : Seam (itemList items) (" FROM ".toList ++ rest) := Or.inr rfl
  have hlast : Seam " FROM ".toList rest := Or.inl (by decide)
  have hkeyword : maskLiterals " FROM ".toList = " FROM ".toList := by decide
  rw [maskLiterals_append hregion hitems, maskLiterals_append hfrom hlast, hmask]
  simp only [hkeyword]

/-- A statement is masked item by item. -/
theorem maskLiterals_selectFrom (h : ∀ i ∈ items, IsItemText i) :
    maskLiterals (selectFrom items rest) = "SELECT ".toList ++
      (itemList (items.map maskLiterals) ++ (" FROM ".toList ++ maskLiterals rest)) := by
  have hselect : Region.after none .code "SELECT ".toList = .code := by decide
  have hfirst : Seam "SELECT ".toList (itemList items ++ (" FROM ".toList ++ rest)) :=
    Or.inl (by decide)
  have hkeyword : maskLiterals "SELECT ".toList = "SELECT ".toList := by decide
  show maskLiterals ("SELECT ".toList ++ (itemList items ++ (" FROM ".toList ++ rest))) = _
  rw [maskLiterals_append hselect hfirst, maskLiterals_listed h]
  simp only [hkeyword]

/-! ## The lexemes -/

/-- A word before a blank is the first lexeme. -/
theorem lexFrom_word_blank {w : List Char} (hw : IsWord w) (offset depth : Nat) (s : List Char) :
    lexFrom true offset depth (w ++ ' ' :: s) =
      ⟨.word w, offset, depth⟩ :: lexFrom true (offset + byteLength w + 1) depth s := by
  have hafter : Nesting.after true ⟨depth, none⟩ w = ⟨depth, none⟩ :=
    Nesting.after_of_isWordChar rfl hw.2
  have hblank : ∀ o, lexFrom true o depth (' ' :: s) = lexFrom true (o + 1) depth s :=
    fun o => lexFrom_blanks (b := [' ']) (by decide) s
  have hparted : Parted w (' ' :: s) := Or.inr (by rw [beginsWithWord_cons]; decide)
  rw [lexFrom_append (by rw [hafter]) hparted, hafter, lexFrom_word hw, hblank]
  rfl

/-- A comma and a blank are one lexeme. -/
theorem lexFrom_comma (offset depth : Nat) (s : List Char) :
    lexFrom true offset depth (", ".toList ++ s) =
      ⟨.punct ',', offset, depth⟩ :: lexFrom true (offset + 2) depth s := by
  have hblank : ¬ isBlank ',' = true := by decide
  have hword : ¬ isWordChar ',' = true := by decide
  have hspace : lexFrom true (offset + 1) depth (' ' :: s) = lexFrom true (offset + 2) depth s :=
    lexFrom_blanks (b := [' ']) (by decide) s
  show lexFrom true offset depth (',' :: ' ' :: s) = _
  rw [lexFrom, if_neg hblank, if_neg hword, ← hspace]
  rfl

/-- What is said of all lexemes but not of their places is so wherever they stand. -/
theorem forall_lexFrom_iff {P : Lexeme → Prop} (hP : ∀ l, P l.unplaced ↔ P l)
    (offset offset' depth : Nat) (s : List Char) :
    (∀ l ∈ lexFrom true offset depth s, P l) ↔ ∀ l ∈ lexFrom true offset' depth s, P l := by
  have hforall : ∀ ls : List Lexeme, (∀ l ∈ ls, P l) ↔ ∀ l ∈ unplaced ls, P l := by
    intro ls
    simp [unplaced, hP]
  rw [hforall, hforall (lexFrom true offset' depth s), unplaced_lexFrom true offset offset']

/-- An item has the same lexemes wherever it stands. -/
theorem IsItemText.at (h : IsItemText item) (offset : Nat) :
    IsItem (lexFrom true offset 0 (maskLiterals item)) := by
  constructor
  · intro hnil
    have hunplaced := unplaced_lexFrom true offset 0 0 (maskLiterals item)
    rw [hnil] at hunplaced
    exact h.isItem.nonempty (List.map_eq_nil_iff.1 hunplaced.symm)
  · exact (forall_lexFrom_iff (fun l => Iff.rfl) offset 0 0 (maskLiterals item)).2 h.isItem.inside

/-- **The items between commas**, read from a place: they are taken apart
again, nothing in them ends the list, and nothing is left open behind them. -/
theorem itemList_read (hitems : ∀ i ∈ items, IsItemText i) (hne : items ≠ []) (offset : Nat) :
    splitAtEach separatesItems (lexFrom true offset 0 (itemList (items.map maskLiterals))) =
        itemsFrom offset items ∧
      (∀ l ∈ lexFrom true offset 0 (itemList (items.map maskLiterals)), endsList l = false) ∧
      Nesting.after true ⟨0, none⟩ (itemList (items.map maskLiterals)) = ⟨0, none⟩ := by
  induction items generalizing offset with
  | nil => exact absurd rfl hne
  | cons i is ih =>
    have hi : IsItemText i := hitems i List.mem_cons_self
    have hitem : IsItem (lexFrom true offset 0 (maskLiterals i)) := hi.at offset
    have hsingle : splitAtEach separatesItems (lexFrom true offset 0 (maskLiterals i)) =
        [lexFrom true offset 0 (maskLiterals i)] :=
      splitAtEach_of_forall fun l hl => (hitem.inside l hl).1
    cases is with
    | nil =>
      have hlist : itemList [maskLiterals i] = maskLiterals i := by simp [itemList, List.intercalate]
      rw [List.map_cons, List.map_nil, hlist]
      exact ⟨hsingle, fun l hl => (hitem.inside l hl).2, hi.nesting⟩
    | cons j js =>
      obtain ⟨hsplit, hlist, hnesting⟩ := ih (fun x hx => hitems x (List.mem_cons_of_mem i hx))
        (by simp) (offset + byteLength i + 2)
      have hparted : Parted (maskLiterals i)
          (", ".toList ++ itemList ((j :: js).map maskLiterals)) := Or.inr (by rfl)
      have hbytes : byteLength (maskLiterals i) = byteLength i := byteLength_mask _ i
      have hlexemes : lexFrom true offset 0 (itemList ((i :: j :: js).map maskLiterals)) =
          lexFrom true offset 0 (maskLiterals i) ++ ⟨.punct ',', offset + byteLength i, 0⟩ ::
            lexFrom true (offset + byteLength i + 2) 0 (itemList ((j :: js).map maskLiterals)) := by
        rw [List.map_cons, List.map_cons, itemList_cons_cons, ← List.map_cons,
          lexFrom_append (by rw [hi.nesting]) hparted, hi.nesting, lexFrom_comma, hbytes]
      have hcomma : Nesting.after true ⟨0, none⟩ ", ".toList = ⟨0, none⟩ := by decide
      refine ⟨?_, ?_, ?_⟩
      · rw [hlexemes, splitAtEach_append_cons (fun l hl => (hitem.inside l hl).1) rfl, hsplit]
        rfl
      · rw [hlexemes]
        intro l hl
        rcases List.mem_append.1 hl with hl | hl
        · exact (hitem.inside l hl).2
        · rcases List.mem_cons.1 hl with rfl | hl
          · rfl
          · exact hlist l hl
      · rw [List.map_cons, List.map_cons, itemList_cons_cons, ← List.map_cons,
          Nesting.after_append, hi.nesting, Nesting.after_append, hcomma, hnesting]

/-- Behind the items stands the lexeme that ends the list. -/
theorem lexFrom_listed (hitems : ∀ i ∈ items, IsItemText i) (hne : items ≠ []) (offset : Nat)
    (rest : List Char) : ∃ place ls,
      lexFrom true offset 0 (itemList (items.map maskLiterals) ++ (" FROM ".toList ++ rest)) =
        lexFrom true offset 0 (itemList (items.map maskLiterals)) ++
          ⟨.word "FROM".toList, place, 0⟩ :: ls := by
  obtain ⟨-, -, hnesting⟩ := itemList_read hitems hne offset
  have hfrom : IsWord "FROM".toList := ⟨by decide, by decide⟩
  have hparted : Parted (itemList (items.map maskLiterals)) (' ' :: ("FROM".toList ++ ' ' :: rest)) :=
    Or.inr (by rw [beginsWithWord_cons]; decide)
  have hblank : ∀ o s, lexFrom true o 0 (' ' :: s) = lexFrom true (o + 1) 0 s :=
    fun o s => lexFrom_blanks (b := [' ']) (by decide) s
  have hcut : itemList (items.map maskLiterals) ++ (" FROM ".toList ++ rest) =
      itemList (items.map maskLiterals) ++ ' ' :: ("FROM".toList ++ ' ' :: rest) := rfl
  rw [hcut, lexFrom_append (by rw [hnesting]) hparted, hnesting, hblank, lexFrom_word_blank hfrom]
  exact ⟨_, _, rfl⟩

/-- The first lexeme of a list is that of its first item, at another place. -/
theorem head?_listed {P : Lexeme → Prop} (hP : ∀ l, P l.unplaced ↔ P l)
    (hitems : ∀ i ∈ items, IsItemText i) (hne : items ≠ [])
    (hfirst : ∀ i ∈ items.head?, ∀ l ∈ (structuralLexemes i).head?, P l) (offset : Nat) :
    ∀ l ∈ (lexFrom true offset 0 (itemList (items.map maskLiterals))).head?, P l := by
  obtain ⟨hsplit, -, -⟩ := itemList_read hitems hne offset
  obtain ⟨i, is, rfl⟩ := List.exists_cons_of_ne_nil hne
  have hi : IsItem (lexFrom true offset 0 (maskLiterals i)) := (hitems i List.mem_cons_self).at offset
  have hhead : (lexFrom true offset 0 (maskLiterals i)).head?.map Lexeme.unplaced =
      (structuralLexemes i).head?.map Lexeme.unplaced := by
    rw [← List.head?_map, ← List.head?_map]
    exact congrArg List.head? (unplaced_lexFrom true offset 0 0 (maskLiterals i))
  rw [head?_eq_of_splitAtEach hsplit hi.nonempty]
  intro l hl
  rw [Option.mem_def.1 hl] at hhead
  obtain ⟨m, hm, hsame⟩ := Option.map_eq_some_iff.1 hhead.symm
  rw [← hP, ← hsame, hP]
  exact hfirst i rfl m hm

/-- The lexemes of a statement put together from items. -/
theorem structuralLexemes_selectFrom (hitems : ∀ i ∈ items, IsItemText i) (hne : items ≠ [])
    (rest : List Char) : ∃ offset ls, structuralLexemes (selectFrom items rest) =
      ⟨.word "SELECT".toList, 0, 0⟩ :: lexFrom true 7 0 (itemList (items.map maskLiterals)) ++
        ⟨.word "FROM".toList, offset, 0⟩ :: ls := by
  obtain ⟨offset, ls, hlisted⟩ := lexFrom_listed hitems hne 7 (maskLiterals rest)
  have hselect : IsWord "SELECT".toList := ⟨by decide, by decide⟩
  have hcut : maskLiterals (selectFrom items rest) = "SELECT".toList ++ ' ' ::
      (itemList (items.map maskLiterals) ++ (" FROM ".toList ++ maskLiterals rest)) :=
    maskLiterals_selectFrom hitems
  have hoffset : 0 + byteLength "SELECT".toList + 1 = 7 := by decide
  refine ⟨offset, ls, ?_⟩
  rw [structuralLexemes, lexemes, hcut, lexFrom_word_blank hselect, hoffset, hlisted]
  rfl

/-- An item consists of the same words and marks wherever it stands. -/
theorem kinds_itemsFrom (offset : Nat) (items : List (List Char)) :
    (itemsFrom offset items).map kinds = items.map fun i => kinds (structuralLexemes i) := by
  have hkinds : ∀ ls : List Lexeme, kinds (unplaced ls) = kinds ls := by
    intro ls
    simp [kinds, unplaced]
  induction items generalizing offset with
  | nil => rfl
  | cons i is ih =>
    have hitem : kinds (lexFrom true offset 0 (maskLiterals i)) = kinds (structuralLexemes i) := by
      rw [← hkinds, unplaced_lexFrom true offset 0, hkinds]
      rfl
    rw [itemsFrom, List.map_cons, List.map_cons, ih, hitem]

/-- **The items of a statement put together from them**, each with its own
lexemes at the place where it stands. -/
theorem selectList_selectFrom (hitems : ∀ i ∈ items, IsItemText i) (hne : items ≠ [])
    (hfirst : ∀ i ∈ items.head?, ∀ l ∈ (structuralLexemes i).head?,
      isDistinctness l = false ∧ l.isKeyword "TOP" = false) (rest : List Char) :
    selectList (structuralLexemes (selectFrom items rest)) = itemsFrom 7 items := by
  obtain ⟨hsplit, hlist, -⟩ := itemList_read hitems hne 7
  obtain ⟨offset, ls, hlexemes⟩ := structuralLexemes_selectFrom hitems hne rest
  rw [hlexemes]
  refine selectList_of_split rfl rfl hlist (head?_listed (fun l => Iff.rfl) hitems hne hfirst 7)
    hsplit ?_
  intro x hx
  have hkinds : kinds x ∈ items.map fun i => kinds (structuralLexemes i) := by
    rw [← kinds_itemsFrom 7]
    exact List.mem_map_of_mem hx
  obtain ⟨i, hi, hsame⟩ := List.mem_map.1 hkinds
  rintro rfl
  exact (hitems i hi).isItem.nonempty (List.map_eq_nil_iff.1 hsame)

/-! ## Required columns -/

/-- A statement put together from items is never blank. -/
theorem examined_selectFrom {o : Options} (h : (selectFrom items rest).length ≤ o.maxLength) :
    Examined o (selectFrom items rest) := by
  refine ⟨h, fun hblank => ?_⟩
  have hselect := trim_eq_nil_iff.1 hblank 'S' List.mem_cons_self
  exact absurd hselect (by decide)

/-- **Which required columns are missing** from a statement put together from
items: those that no item is, if no item is all columns.  What stands within a
call, within parentheses or beside an operator is no such item. -/
theorem required_columns_decided (parser : Parser) (o : Options) (level : Level)
    (column : String) (items : List (List Char)) (rest : List Char)
    (hitems : ∀ i ∈ items, IsItemText i) (hne : items ≠ [])
    (hfirst : ∀ i ∈ items.head?, ∀ l ∈ (structuralLexemes i).head?,
      isDistinctness l = false ∧ l.isKeyword "TOP" = false) :
    selectList (structuralLexemes (selectFrom items rest)) = itemsFrom 7 items ∧
      ((selectFrom items rest).length ≤ o.maxLength → ∀ c ∈ requiredColumns level,
        (.missingRequiredColumn c level ∈
            (reviewWith parser o (selectFrom items rest) level column).issues ↔
          ∀ i ∈ items, ¬ IsStarItem (kinds (structuralLexemes i)) ∧
            ¬ IsColumnItem c.name (kinds (structuralLexemes i)))) ∧
      ∀ i ∈ items, ∀ name mark, .punct mark ∈ kinds (structuralLexemes i) → mark ≠ '.' →
        ¬ IsColumnItem name (kinds (structuralLexemes i)) := by
  have hlist := selectList_selectFrom hitems hne hfirst rest
  refine ⟨hlist, fun hlength c hc => ?_, fun i hi name mark hmark hne hcolumn => ?_⟩
  · rw [missingRequiredColumn_mem_issues_iff (examined_selectFrom hlength), hlist,
      mem_requiredColumnIssues_iff hc]
    have hkinds := kinds_itemsFrom 7 items
    constructor
    · intro h i hi
      have hmem : kinds (structuralLexemes i) ∈ (itemsFrom 7 items).map kinds := by
        rw [hkinds]
        exact List.mem_map_of_mem hi
      obtain ⟨x, hx, hsame⟩ := List.mem_map.1 hmem
      rw [← hsame]
      exact h x hx
    · intro h x hx
      have hmem : kinds x ∈ items.map fun i => kinds (structuralLexemes i) := by
        rw [← hkinds]
        exact List.mem_map_of_mem hx
      obtain ⟨i, hi, hsame⟩ := List.mem_map.1 hmem
      rw [← hsame]
      exact h i hi
  · exact hne (hcolumn.mark_eq hmark)

/-- A qualified column under a new name, and the other column in a subquery, in
a literal, in a comment and in a call. -/
def nestedColumns : List (List Char) :=
  ["d.\"DL_NBR\" AS \"deal, from\"".toList,
    "(SELECT MAX(tr_id) FROM t) AS \"a\" -- FROM, tr_id\n".toList,
    "COALESCE(tr_id, 'tr_id, FROM') x".toList]

/-- Neither of the columns that stand within an item is selected. -/
theorem nestedColumns_missing :
    (∀ i ∈ nestedColumns, IsItemText i) ∧
      .missingRequiredColumn ⟨"tr_id", "tranche.tr_id"⟩ .tranche ∈
        (review .standard (selectFrom nestedColumns "deal d".toList) .tranche "x").issues ∧
      .missingRequiredColumn ⟨"dl_nbr", "deal.dl_nbr"⟩ .tranche ∉
        (review .standard (selectFrom nestedColumns "deal d".toList) .tranche "x").issues := by
  have hregion : ∀ i ∈ nestedColumns, Region.after none .code i = .code := by decide +kernel
  have hnesting : ∀ i ∈ nestedColumns,
      Nesting.after true ⟨0, none⟩ (maskLiterals i) = ⟨0, none⟩ := by decide +kernel
  have hnonempty : ∀ i ∈ nestedColumns, structuralLexemes i ≠ [] := by decide +kernel
  have hinside : ∀ i ∈ nestedColumns, ∀ l ∈ structuralLexemes i,
      separatesItems l = false ∧ endsList l = false := by decide +kernel
  have hitems : ∀ i ∈ nestedColumns, IsItemText i := fun i hi =>
    ⟨hregion i hi, hnesting i hi, hnonempty i hi, hinside i hi⟩
  obtain ⟨-, hmissing, -⟩ := required_columns_decided .standard .standard .tranche "x"
    nestedColumns "deal d".toList hitems (by decide) (by decide +kernel)
  have hlength : (selectFrom nestedColumns "deal d".toList).length ≤ Options.standard.maxLength := by
    decide +kernel
  refine ⟨hitems, (hmissing hlength _ (by decide)).2 ?_, fun h => ?_⟩
  · simp only [← isStar_iff, ← selectsColumn_iff]
    decide +kernel
  · have hnone := (hmissing hlength _ (by decide)).1 h
    simp only [← isStar_iff, ← selectsColumn_iff] at hnone
    revert hnone
    decide +kernel

end DealSql.Review
