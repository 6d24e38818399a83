import DealSql.Proofs.TemplateLexemes
import DealSql.Proofs.TransparentTexts
import DealSql.Proofs.ValueFragments

/-!
# The lexemes of a filled statement

What a value in the place of a placeholder does to the lexemes of a statement
depends on the place.  In a literal it is blank as the placeholder was; in a
quoted name it becomes part of one word, which is no keyword either way; in the
code its own lexemes take the place of those of the placeholder, and the words
around a numeral go on with it.

* `IsStructured` — a statement is a query that selects its required columns.
* `isStructured_of_name`, `isStructured_of_reads` — other texts at a place.
* `Lodges` — where a value takes nothing from the structure of a statement.
* `isStructured_fill` — a statement with a value where it fits.
-/

namespace DealSql.Review

open DealSql.Text DealSql.Statement DealSql.Sql

variable {n depth offset : Nat} {stop : Char} {a b s v w z : List Char} {l : Lexeme}
  {ls hole fill : List Lexeme} {level : Level}

/-- A statement begins as a query and selects its required columns. -/
def IsStructured (level : Level) (ls : List Lexeme) : Prop :=
  entryIssues ls = [] ∧ requiredColumnIssues (selectList ls) level = []

/-- No relabeling shows in the structure. -/
theorem IsRelabeling.isStructured_iff {f : Lexeme → Lexeme} (hf : IsRelabeling f)
    (hcolumns : ∀ c ∈ requiredColumns level, ∀ l, (f l).isKeyword c.name = l.isKeyword c.name) :
    IsStructured level (ls.map f) ↔ IsStructured level ls := by
  rw [IsStructured, IsStructured, hf.entryIssues, hf.selectList,
    hf.requiredColumnIssues level hcolumns]

theorem isStructured_unplaced : IsStructured level (unplaced ls) ↔ IsStructured level ls :=
  isRelabeling_unplaced.isStructured_iff fun _ _ _ => rfl

/-! ## Words in names -/

/-- Whether a word is none that a keyword or the name of a column can be. -/
def isForeign (w : List Char) : Bool := !w.all isNameStart

/-- A lexeme without the text of a foreign word. -/
def withoutForeign (l : Lexeme) : Lexeme :=
  match l.kind with
  | .word w => if isForeign w then { l with kind := .word [] } else l
  | .punct _ => l

theorem withoutForeign_word {w : List Char} (hw : isForeign w = true) (offset depth : Nat) :
    withoutForeign ⟨.word w, offset, depth⟩ = ⟨.word [], offset, depth⟩ := if_pos hw

/-- A foreign word is no keyword. -/
theorem isKeyword_withoutForeign {k : String} (hk : ∀ c ∈ foldCase k.toList, isNameStart c = true)
    (hne : k.toList ≠ []) (l : Lexeme) : (withoutForeign l).isKeyword k = l.isKeyword k := by
  obtain ⟨kind, offset, depth⟩ := l
  cases kind with
  | punct c => rfl
  | word w =>
    by_cases hw : isForeign w = true
    · have hforeign : sameWord w k.toList = false := by
        rw [Bool.eq_false_iff]
        intro hsame
        have hstart := isNameStart_of_sameWord hk hsame
        rw [isForeign, Bool.not_eq_true', Bool.eq_false_iff] at hw
        exact hw (List.all_eq_true.2 hstart)
      have hempty : sameWord [] k.toList = false := by
        rw [Bool.eq_false_iff]
        intro hsame
        have hlower := sameWord_iff.1 hsame
        exact hne (List.map_eq_nil_iff.1 hlower.symm)
      rw [withoutForeign_word hw]
      simp [Lexeme.isKeyword, hforeign, hempty]
    · rw [withoutForeign]
      simp [hw]

theorem isRelabeling_withoutForeign : IsRelabeling withoutForeign where
  depth l := by
    rw [withoutForeign]
    split
    · split <;> rfl
    · rfl
  punct l c := by
    obtain ⟨kind, offset, depth⟩ := l
    cases kind with
    | punct e => rfl
    | word w =>
      rw [withoutForeign]
      dsimp only
      split <;> rfl
  word l := by
    obtain ⟨kind, offset, depth⟩ := l
    cases kind with
    | punct e => rfl
    | word w =>
      rw [withoutForeign]
      dsimp only
      split <;> rfl
  keyword k hk l := by
    have hall : ∀ k ∈ structuralKeywords,
        (∀ c ∈ foldCase k.toList, isNameStart c = true) ∧ k.toList ≠ [] := by decide
    exact isKeyword_withoutForeign (hall k hk).1 (hall k hk).2 l

/-- Foreign words do not show in the structure. -/
theorem isStructured_withoutForeign :
    IsStructured level (ls.map withoutForeign) ↔ IsStructured level ls := by
  refine isRelabeling_withoutForeign.isStructured_iff fun c hc l => ?_
  have hall : ∀ level, ∀ c ∈ requiredColumns level,
      (∀ x ∈ foldCase c.name.toList, isNameStart x = true) ∧ c.name.toList ≠ [] := by
    intro level
    cases level <;> decide
  exact isKeyword_withoutForeign (hall level c hc).1 (hall level c hc).2 l

/-! ## Open names -/

/-- A name that is open at the end of a text begins in it. -/
theorem exists_opening (h : Nesting.after true ⟨depth, none⟩ a = ⟨n, some stop⟩) :
    ∃ x c inner, a = x ++ c :: inner ∧ closing? c = some stop ∧
      Nesting.after true ⟨depth, none⟩ x = ⟨n, none⟩ ∧ stop ∉ inner := by
  induction a using List.reverseRecOn generalizing n stop with
  | nil => cases h
  | append_singleton a e ih =>
    rw [Nesting.after_append] at h
    simp only [Nesting.after_cons, Nesting.after_nil] at h
    cases hbefore : Nesting.after true ⟨depth, none⟩ a with
    | mk m name =>
      rw [hbefore] at h
      cases name with
      | some stop' =>
        by_cases he : e = stop'
        · simp [Nesting.step, he] at h
        · obtain ⟨rfl, rfl⟩ : m = n ∧ stop' = stop := by simpa [Nesting.step, he] using h
          obtain ⟨x, c, inner, rfl, hc, hx, hinner⟩ := ih hbefore
          refine ⟨x, c, inner ++ [e], by simp, hc, hx, ?_⟩
          simpa [hinner] using fun heq => he heq.symm
      | none =>
        cases hc : closing? e with
        | none => simp [Nesting.step, hc] at h
        | some stop' =>
          obtain ⟨rfl, rfl⟩ : m = n ∧ stop' = stop := by simpa [Nesting.step, hc] using h
          exact ⟨a, e, [], rfl, hc, hbefore, by simp⟩

/-- A text without the closing mark belongs to an open name. -/
theorem takeWhile_open (hs : stop ∉ s) (b : List Char) :
    (s ++ b).takeWhile (· != stop) = s ++ b.takeWhile (· != stop) ∧
      afterFirst stop (s ++ b) = afterFirst stop b := by
  have hall : ∀ c ∈ s, (c != stop) = true := by
    intro c hc
    exact bne_iff_ne.2 fun heq => hs (heq ▸ hc)
  rw [afterFirst, afterFirst, List.takeWhile_append_of_pos hall, List.dropWhile_append_of_pos hall]
  exact ⟨rfl, rfl⟩

/-- The lexemes of a text that stands in an open name: one word holds it. -/
theorem unplaced_open_name (h : Nesting.after true ⟨0, none⟩ a = ⟨n, some stop⟩)
    (b : List Char) : ∃ front inner rest ls, ∀ w, stop ∉ w →
      unplaced (lexemes (a ++ (w ++ b))) = front ++ ⟨.word (inner ++ (w ++ rest)), 0, n⟩ :: ls := by
  obtain ⟨x, c, inner, rfl, hc, hx, hinner⟩ := exists_opening h
  refine ⟨unplaced (lexemes x), inner, b.takeWhile (· != stop),
    unplaced (lexFrom true 0 n (afterFirst stop b)), fun w hw => ?_⟩
  have hword : ¬ isWordChar c = true := by
    intro hword
    simp [closing?_of_isWordChar hword] at hc
  have hsplit : (x ++ c :: inner) ++ (w ++ b) = x ++ c :: ((inner ++ w) ++ b) := by simp
  have hparted : Parted x (c :: ((inner ++ w) ++ b)) := Or.inr (by simpa using hword)
  obtain ⟨htake, hfirst⟩ := takeWhile_open (s := inner ++ w)
    (by simpa using ⟨hinner, hw⟩) b
  rw [hsplit, lexemes, lexFrom_append (by rw [hx]) hparted, unplaced_append, hx,
    lexFrom_opening hc]
  simp only [htake, hfirst, unplaced_cons]
  rw [unplaced_lexFrom true _ 0 n (afterFirst stop b)]
  simp [lexemes, Lexeme.unplaced]

/-- **Other texts in a name** do not show in the structure, if what they make
part of the name is foreign. -/
theorem isStructured_of_name (h : Nesting.after true ⟨0, none⟩ a = ⟨n, some stop⟩)
    (hv : stop ∉ v) (hw : stop ∉ w) (hforeign : isForeign v = true) (hforeign' : isForeign w = true)
    (hs : IsStructured level (lexemes (a ++ (v ++ b)))) :
    IsStructured level (lexemes (a ++ (w ++ b))) := by
  obtain ⟨front, inner, rest, ls, hlexemes⟩ := unplaced_open_name h b
  have hparts : ∀ u, isForeign u = true → isForeign (inner ++ (u ++ rest)) = true := by
    intro u hu
    simp only [isForeign, List.all_append, Bool.not_eq_true', Bool.and_eq_false_iff] at hu ⊢
    exact Or.inr (Or.inl hu)
  rw [← isStructured_unplaced, ← isStructured_withoutForeign, hlexemes _ hv, List.map_append,
    List.map_cons, withoutForeign_word (hparts v hforeign)] at hs
  rw [← isStructured_unplaced, ← isStructured_withoutForeign, hlexemes _ hw, List.map_append,
    List.map_cons, withoutForeign_word (hparts w hforeign')]
  exact hs

/-! ## Lexemes in the code -/

/-- The first lexeme is not further inside. -/
theorem nestedFrom_cons (hl : l.depth ≤ n) (h : NestedFrom n ls) : NestedFrom n (l :: ls) := by
  intro x m y hcut hm
  cases x with
  | nil =>
    obtain ⟨rfl, -⟩ := List.cons.inj hcut
    omega
  | cons e x =>
    obtain ⟨rfl, hrest⟩ := List.cons.inj hcut
    obtain ⟨o, ho, hopens⟩ := h x m y hrest hm
    exact ⟨o, List.mem_cons_of_mem l ho, hopens⟩

/-- Behind a parenthesis that opens the lexemes are one level further inside. -/
theorem nestedFrom_open (hl : l.isPunct '(' = true) (hdepth : l.depth = n)
    (h : NestedFrom (n + 1) ls) : NestedFrom n (l :: ls) := by
  intro x m y hcut hm
  cases x with
  | nil =>
    obtain ⟨rfl, -⟩ := List.cons.inj hcut
    omega
  | cons e x =>
    obtain ⟨rfl, hrest⟩ := List.cons.inj hcut
    rcases Nat.lt_or_ge (n + 1) m.depth with hdeep | hle
    · obtain ⟨o, ho, hopens⟩ := h x m y hrest hdeep
      exact ⟨o, List.mem_cons_of_mem l ho, hopens⟩
    · refine ⟨l, List.mem_cons_self, ?_⟩
      have hlevel : l.depth = m.depth - 1 := by omega
      simp [opensAt, hl, hlevel]

theorem NestedFrom.mono {m : Nat} (h : NestedFrom m ls) (hmn : m ≤ n) : NestedFrom n ls :=
  fun x l y hcut hl => h x l y hcut (Nat.lt_of_le_of_lt hmn hl)

/-- Behind a place every lexeme further inside stands behind the parenthesis
that opens around it. -/
theorem nestedFrom_lexFrom (offset n : Nat) (s : List Char) :
    NestedFrom n (unplaced (lexFrom true offset n s)) := by
  fun_induction lexFrom true offset n s with
  | case1 => intro x l y hcut; simp at hcut
  | case2 offset depth c r hc ih => exact ih
  | case3 offset depth c r hb hc w ih => exact nestedFrom_cons (Nat.le_refl depth) ih
  | case4 offset depth c r hb hc stop hs inner ih => exact nestedFrom_cons (Nat.le_refl depth) ih
  | case5 offset depth c r hb hc hs outside ih =>
    simp only [unplaced_cons]
    by_cases hopen : c = '('
    · subst hopen
      exact nestedFrom_open rfl rfl (by simpa [outside] using ih)
    · have hle : outside ≤ depth := by
        simp only [outside]
        split <;> omega
      simp only [hopen] at ih ⊢
      exact nestedFrom_cons hle (ih.mono hle)

/-- The lexemes of a text at a place in the code. -/
theorem unplaced_code (hname : (Nesting.after true ⟨0, none⟩ a).name = none)
    (hv : Reads v (Nesting.after true ⟨0, none⟩ a).depth ls n) (hav : Parted a (v ++ b))
    (hvb : Parted v b) : unplaced (lexemes (a ++ (v ++ b))) =
      unplaced (lexemes a) ++ (ls ++ unplaced (lexFrom true 0 n b)) := by
  have hvname :
      (Nesting.after true ⟨(Nesting.after true ⟨0, none⟩ a).depth, none⟩ v).name = none := by
    rw [hv.2]
  rw [lexemes, lexFrom_append hname hav, lexFrom_append hvname hvb, unplaced_append,
    unplaced_append, hv.1, hv.2, unplaced_lexFrom true _ 0 n b]
  rfl

/-- A text at a place in the code, and another that takes its place. -/
theorem isStructured_of_reads {ms : List Lexeme}
    (hname : (Nesting.after true ⟨0, none⟩ a).name = none)
    (hv : Reads v (Nesting.after true ⟨0, none⟩ a).depth ls n)
    (hw : Reads w (Nesting.after true ⟨0, none⟩ a).depth ms n)
    (hparted : Parted a (v ++ b) ∧ Parted v b) (hparted' : Parted a (w ++ b) ∧ Parted w b)
    (hexchange : ∀ rest, NestedFrom n rest →
      IsStructured level (unplaced (lexemes a) ++ (ls ++ rest)) →
      IsStructured level (unplaced (lexemes a) ++ (ms ++ rest)))
    (hs : IsStructured level (lexemes (a ++ (v ++ b)))) :
    IsStructured level (lexemes (a ++ (w ++ b))) := by
  rw [← isStructured_unplaced, unplaced_code hname hv hparted.1 hparted.2] at hs
  rw [← isStructured_unplaced, unplaced_code hname hw hparted'.1 hparted'.2]
  exact hexchange _ (nestedFrom_lexFrom 0 n b) hs

/-- A text without lexemes is blank. -/
theorem isBlank_of_lexFrom_eq_nil (h : lexFrom true offset depth s = []) :
    ∀ c ∈ s, isBlank c = true := by
  fun_induction lexFrom true offset depth s with
  | case1 => simp
  | case2 offset depth c r hc ih => exact List.forall_mem_cons.2 ⟨hc, ih h⟩
  | case3 => cases h
  | case4 => cases h
  | case5 => cases h

/-- Blanks in the code do not show in the structure. -/
theorem isStructured_of_blanks (hname : (Nesting.after true ⟨0, none⟩ a).name = none)
    (hv : ∀ c ∈ v, isBlank c = true) (hw : ∀ c ∈ w, isBlank c = true) (hne : v ≠ []) (hne' : w ≠ [])
    (hs : IsStructured level (lexemes (a ++ (v ++ b)))) :
    IsStructured level (lexemes (a ++ (w ++ b))) := by
  have hparted : ∀ u : List Char, (∀ c ∈ u, isBlank c = true) → u ≠ [] →
      Parted a (u ++ b) ∧ Parted u b := by
    intro u hu hune
    refine ⟨Or.inr ?_, Or.inl ?_⟩
    · obtain ⟨c, r, rfl⟩ := List.exists_cons_of_ne_nil hune
      exact isWordChar_of_isBlank (hu c List.mem_cons_self)
    · rw [endsInWord, Option.any_eq_false]
      exact fun c hc => by simp [isWordChar_of_isBlank (hu c (List.mem_of_getLast? hc))]
  exact isStructured_of_reads hname (reads_blanks hv) (reads_blanks hw) (hparted v hv hne)
    (hparted w hw hne') (fun _ _ h => h) hs

/-- **The lexemes of a value** in the place of those of a placeholder. -/
theorem Exchange.isStructured {front rest : List Lexeme} (h : Exchange n hole fill)
    (hwords : WithoutQuery hole) (hrest : NestedFrom n rest)
    (hbegins : front = [] → ∀ l ∈ hole.head?, l.isKeyword "WITH" = false)
    (hs : IsStructured level (front ++ (hole ++ rest))) :
    IsStructured level (front ++ (fill ++ rest)) :=
  ⟨h.entryIssues hwords hrest hbegins hs.1, h.requiredColumnIssues level hs.2⟩

/-- A statement that begins in the same way and has a `FROM` is a query, too. -/
theorem entryIssues_of_hasQueryFrom {front ls ms : List Lexeme} (hfront : front ≠ [])
    (hfrom : hasQueryFrom (front ++ ms) = true) (hs : entryIssues (front ++ ls) = []) :
    entryIssues (front ++ ms) = [] := by
  obtain ⟨e, r, rfl⟩ := List.exists_cons_of_ne_nil hfront
  exact entryIssues_eq_nil_iff.2 ⟨(entryIssues_eq_nil_iff.1 hs).1, hfrom⟩

/-- Behind its select list a statement may go on in any way, if it has a `FROM`. -/
theorem isStructured_of_endsWithin (hname : (Nesting.after true ⟨0, none⟩ a).name = none)
    (hends : endsWithin (lexemes a) = true) (hv : Parted a v) (hw : Parted a w)
    (hfrom : hasQueryFrom (lexemes (a ++ w)) = true) (hs : IsStructured level (lexemes (a ++ v))) :
    IsStructured level (lexemes (a ++ w)) := by
  have hcut : ∀ u, Parted a u → ∃ ls, lexemes (a ++ u) = lexemes a ++ ls :=
    fun u hu => ⟨_, lexFrom_append hname hu⟩
  obtain ⟨ls, hls⟩ := hcut v hv
  obtain ⟨ms, hms⟩ := hcut w hw
  rw [hls] at hs
  rw [hms] at hfrom ⊢
  obtain ⟨hentry, hcolumns⟩ := hs
  rw [selectList_append_of_endsWithin hends] at hcolumns
  refine ⟨entryIssues_of_hasQueryFrom ?_ hfrom hentry, ?_⟩
  · rintro hnil
    rw [hnil] at hends
    cases hends
  · rwa [selectList_append_of_endsWithin hends]

/-- In parentheses the lexemes of a placeholder may give way to those of its
value whatever they are, if there still is a `FROM`. -/
theorem isStructured_of_nested (hname : (Nesting.after true ⟨0, none⟩ a).name = none)
    (hdepth : 0 < (Nesting.after true ⟨0, none⟩ a).depth)
    (hv : Reads v (Nesting.after true ⟨0, none⟩ a).depth hole n)
    (hw : Reads w (Nesting.after true ⟨0, none⟩ a).depth fill n)
    (hparted : Parted a (v ++ b) ∧ Parted v b) (hparted' : Parted a (w ++ b) ∧ Parted w b)
    (hexchange : Exchange (Nesting.after true ⟨0, none⟩ a).depth hole fill)
    (hfrom : hasQueryFrom (lexemes (a ++ (w ++ b))) = true)
    (hs : IsStructured level (lexemes (a ++ (v ++ b)))) :
    IsStructured level (lexemes (a ++ (w ++ b))) := by
  have hfront : unplaced (lexemes a) ≠ [] := by
    intro hnil
    have hblank := isBlank_of_lexFrom_eq_nil (List.map_eq_nil_iff.1 hnil)
    have hnesting := (reads_blanks hblank : Reads a 0 [] 0).2
    rw [hnesting] at hdepth
    exact absurd hdepth (Nat.lt_irrefl 0)
  rw [← isStructured_unplaced, unplaced_code hname hv hparted.1 hparted.2] at hs
  rw [← isRelabeling_unplaced.hasQueryFrom, ← unplaced,
    unplaced_code hname hw hparted'.1 hparted'.2] at hfrom
  rw [← isStructured_unplaced, unplaced_code hname hw hparted'.1 hparted'.2]
  exact ⟨entryIssues_of_hasQueryFrom hfront hfrom hs.1, hexchange.requiredColumnIssues level hs.2⟩

end DealSql.Review

namespace DealSql.Placeholder

open DealSql.Text DealSql.Statement DealSql.Sql DealSql.Review

variable {n depth : Nat} {m : Mask} {g : Region} {before s v r : List Char} {c : Char}
  {p : Placeholder} {level : Level} {d : Dialect} {fs : List Fragment}

/-! ## Masked texts -/

/-- A mask shows the characters of a text, or blanks. -/
theorem mem_maskFrom (h : c ∈ maskFrom m g s) : c ∈ s ∨ isBlank c = true := by
  obtain ⟨x, hx, hc⟩ := List.mem_flatMap.1 h
  rcases mem_show hc with rfl | hblank
  · refine Or.inl ?_
    rw [← marksFrom_text g s]
    exact List.mem_map_of_mem hx
  · exact Or.inr (isBlank_of_mem_blanks hblank)

/-- A character that is no part of a word does not become one in a mask. -/
theorem isWordChar_of_mem_show {x : Char × Role} (hx : isWordChar x.1 = false) (h : c ∈ m.show x) :
    isWordChar c = false := by
  rcases mem_show h with rfl | hblank
  · exact hx
  · exact isWordChar_of_isBlank (isBlank_of_mem_blanks hblank)

theorem maskFrom_ne_nil (hs : s ≠ []) : maskFrom m g s ≠ [] := by
  obtain ⟨c, s, rfl⟩ := List.exists_cons_of_ne_nil hs
  rw [maskFrom_cons]
  exact List.append_ne_nil_of_left_ne_nil (show_ne_nil m _) _

theorem beginsWithWord_maskFrom (hs : beginsWithWord s = false) :
    beginsWithWord (maskFrom m g s) = false := by
  cases s with
  | nil => rfl
  | cons c s =>
    obtain ⟨e, shown, hshow⟩ := List.exists_cons_of_ne_nil (show_ne_nil m (c, (g.read c s.head?).1))
    have he : isWordChar e = false :=
      isWordChar_of_mem_show (m := m) (x := (c, (g.read c s.head?).1)) hs (by rw [hshow]; simp)
    rw [maskFrom_cons, hshow]
    exact he

theorem endsInWord_maskFrom (hs : endsInWord s = false) : endsInWord (maskFrom m g s) = false := by
  rcases List.eq_nil_or_concat s with rfl | ⟨s, c, rfl⟩
  · rfl
  · rw [List.concat_eq_append] at hs ⊢
    rw [endsInWord_append_singleton] at hs
    rw [maskFrom, marksFrom_append, List.flatMap_append]
    have hlast : (marksFrom (g.after [c].head? s) [c]).flatMap m.show =
        m.show (c, ((g.after [c].head? s).read c none).1) := by
      simp [marksFrom]
    rw [hlast, endsInWord, List.getLast?_append_of_ne_nil _ (show_ne_nil m _), Option.any_eq_false]
    intro e he
    simp [isWordChar_of_mem_show hs (List.mem_of_getLast? he)]

/-- A mask of a text that keeps its region, and of what stands around it. -/
theorem mask_around (m : Mask) (hv : (Place.start.after before).region.Keeps v) (r : List Char) :
    mask m (before ++ (v ++ r)) = (marksUpTo opening .code before).flatMap m.show ++
      (maskFrom m (Place.start.after before).region v ++
        maskFrom m (Place.start.after before).region r) := by
  have hregion : (Place.start.after before).region = Region.after opening .code before := rfl
  obtain ⟨hmarks, hafter⟩ := hv.before_eq .code before r (by decide : opening.any isPairing = false)
  rw [mask, maskFrom, marksFrom_append, hmarks, hafter, ← hregion, hv.marksFrom_append,
    List.flatMap_append, List.flatMap_append]
  rfl

/-! ## Values at places -/

/-- What is shown of a text before a place, its comments and literals masked. -/
def shownBefore (before : List Char) : List Char :=
  (marksUpTo opening .code before).flatMap Mask.commentsAndLiterals.show

/-- Whether no keyword by which a statement is a query goes on with a numeral
between two texts: not the `WITH` with which it begins, and neither a `SELECT`
nor a `FROM`. -/
structure SparesKeywords (a b : List Char) : Prop where
  begins : sameWord (trimLeft a) "WITH".toList = false
  before : ∀ k ∈ ["SELECT", "FROM"], sameWord (a.rtakeWhile isWordChar) k.toList = false
  behind : ∀ k ∈ ["SELECT", "FROM"], sameWord (b.takeWhile isWordChar) k.toList = false

instance (a b : List Char) : Decidable (SparesKeywords a b) :=
  decidable_of_iff (sameWord (trimLeft a) "WITH".toList = false ∧
      (∀ k ∈ ["SELECT", "FROM"], sameWord (a.rtakeWhile isWordChar) k.toList = false) ∧
      ∀ k ∈ ["SELECT", "FROM"], sameWord (b.takeWhile isWordChar) k.toList = false)
    ⟨fun h => ⟨h.1, h.2.1, h.2.2⟩, fun h => ⟨h.begins, h.before, h.behind⟩⟩

/-- Whether the place behind a text is aside from the select list of the
statement: in parentheses, or behind the list. -/
def StandsAside (a : List Char) : Prop :=
  0 < (Nesting.after true ⟨0, none⟩ a).depth ∨
    endsWithin (lexemes (a.rdropWhile isWordChar)) = true

/-- A value that fits between the text before its place and the text behind it:
it closes neither the literal nor the name around it, and a numeral outside of
them takes no keyword away, unless it stands aside from the select list and
leaves the statement a `FROM`. -/
structure Lodges (v before rest : List Char) : Prop where
  literal : (Place.start.after before).region = .literal → '\'' ∉ v
  name : (Place.start.after before).region = .name → '"' ∉ v ∧
    ((Place.start.after before).nesting.name = none → '\'' ∉ v)
  closing : ∀ stop ∈ (Place.start.after before).nesting.name, stop ∉ v
  numeral : IsNumeral v → (Place.start.after before).region ≠ .literal →
    (Place.start.after before).nesting.name = none →
    SparesKeywords (shownBefore before) ((Place.start.after before).shown rest) ∨
      StandsAside (shownBefore before) ∧
        hasQueryFrom (structuralLexemes (before ++ (v ++ rest))) = true

/-- A value that fits keeps the region of its place. -/
theorem Lodges.keeps {rest : List Char} (h : Lodges v before rest) (hv : IsValueText v)
    (hsteady : (Place.start.after before).region.Steady) :
    (Place.start.after before).region.Keeps v := by
  obtain ⟨hne, hbegins, hends, -⟩ := hv.keeps.2
  rcases hsteady with hcode | hliteral | hname
  · rw [hcode]
    exact hv.keeps.2
  · have hquote : ∀ c ∈ v, c ≠ '\'' := fun c hc heq => h.literal hliteral (heq ▸ hc)
    rw [hliteral]
    exact ⟨hne, hbegins, hends, (read_in_literal hquote).2⟩
  · have hquote : ∀ c ∈ v, c ≠ '"' := fun c hc heq => (h.name hname).1 (heq ▸ hc)
    rw [hname]
    exact ⟨hne, hbegins, hends, (read_in_name hquote).2⟩

/-- A text that begins with no letter is foreign in any mask. -/
theorem isForeign_maskFrom (hc : isNameStart c = false) :
    isForeign (maskFrom m g (c :: s)) = true := by
  obtain ⟨e, shown, hshow⟩ := List.exists_cons_of_ne_nil (show_ne_nil m (c, (g.read c s.head?).1))
  have he : isNameStart e = false := by
    have hmem : e ∈ m.show (c, (g.read c s.head?).1) := by rw [hshow]; exact List.mem_cons_self
    rcases mem_show hmem with rfl | hblank
    · exact hc
    · rcases eq_of_mem_blanks hblank with rfl | rfl <;> decide
  rw [maskFrom_cons, hshow]
  simp [isForeign, he]

/-- Only a double quote or a bracket closes a name. -/
theorem eq_of_closing {a : Place} (hsteady : a.Steady) {stop : Char}
    (hstop : a.nesting.name = some stop) : stop = '"' ∨ stop = ']' := by
  have hproper := hsteady.nesting
  rw [Nesting.Proper, hstop] at hproper
  simpa using hproper

/-- A mark that closes a name is shown only where it stands. -/
theorem not_mem_maskFrom {a : Place} (hsteady : a.Steady) {stop : Char}
    (hstop : a.nesting.name = some stop) (hs : stop ∉ s) : stop ∉ maskFrom m g s := by
  intro hmem
  rcases mem_maskFrom hmem with hmem | hblank
  · exact hs hmem
  · rcases eq_of_closing hsteady hstop with rfl | rfl <;> exact absurd hblank (by decide)

/-- Ordinary characters are shown outside of literals. -/
theorem maskFrom_ordinary (hg : g = .code ∨ g = .name) (hs : ∀ c ∈ s, isOrdinary c = true) :
    maskFrom .commentsAndLiterals g s = s := by
  have hsteady : g.Steady := hg.elim Or.inl fun h => Or.inr (Or.inr h)
  have hvisible : ∀ y ∈ marksFrom g s, Mask.commentsAndLiterals.hides y.2 = false := by
    intro y hy
    rw [(read_ordinary_text hsteady hs).1] at hy
    obtain ⟨c, -, rfl⟩ := List.mem_map.1 hy
    rcases hg with rfl | rfl <;> rfl
  rw [maskFrom, flatMap_show_of_visible _ hvisible, marksFrom_text]

/-! ### The placeholder -/

/-- The lexemes of a placeholder. -/
def displayLexemes (p : Placeholder) (depth : Nat) : List Lexeme :=
  [⟨.punct '\x7b', 0, depth⟩, ⟨.word p.name, 0, depth⟩, ⟨.punct '\x7d', 0, depth⟩]

theorem reads_display (p : Placeholder) (depth : Nat) :
    Reads p.display depth (displayLexemes p depth) depth := by
  have hname : IsWord p.name := by
    have hall : ∀ q ∈ Placeholder.all, IsName q.name := by decide
    exact isWord_of_isName (hall p (mem_all p))
  have hopen : Reads ['\x7b'] depth [⟨.punct '\x7b', 0, depth⟩] depth := reads_marks (by decide)
  have hclose : Reads ['\x7d'] depth [⟨.punct '\x7d', 0, depth⟩] depth := reads_marks (by decide)
  exact (hopen.append (reads_word hname) (Or.inl (by decide))).append hclose (Or.inr (by decide))

/-- What is in a list with another one in the middle is in one of the two. -/
theorem mem_around {α : Type} {x : α} {a b c : List α} (h : x ∈ a ++ (b ++ c)) :
    x ∈ a ++ c ∨ x ∈ b := by
  rcases List.mem_append.1 h with ha | h
  · exact Or.inl (List.mem_append_left c ha)
  · rcases List.mem_append.1 h with hb | hc
    · exact Or.inr hb
    · exact Or.inl (List.mem_append_right a hc)

/-- The name of a placeholder is no keyword of a query. -/
theorem withoutQuery_display (p : Placeholder) (depth : Nat) :
    WithoutQuery (displayLexemes p depth) := by
  have hname : ∀ q ∈ Placeholder.all, ∀ k ∈ ["SELECT", "FROM"],
      sameWord q.name k.toList = false := by decide
  intro l hl k hk
  simp only [displayLexemes, List.mem_cons, List.not_mem_nil, or_false] at hl
  rcases hl with rfl | rfl | rfl
  · rfl
  · exact hname p (mem_all p) k hk
  · rfl

/-- The lexemes of a placeholder, possibly between words that neither begin nor
end a select list. -/
theorem isHole_display {front behind : List Lexeme}
    (hwords : ∀ l ∈ front ++ behind, ∃ w, l.kind = .word w)
    (houter : ∀ l ∈ front ++ behind, isOuterSelect l = false ∧ endsList l = false) :
    IsHole (front ++ (displayLexemes p depth ++ behind)) where
  marked := ⟨front, _, _, _, behind, rfl, rfl, rfl⟩
  outer := by
    intro l hl
    rcases mem_around hl with hl | hl
    · exact houter l hl
    · have hname := withoutQuery_display p depth l hl
      have hsemicolon : l.isPunct ';' = false := by
        simp only [displayLexemes, List.mem_cons, List.not_mem_nil, or_false] at hl
        rcases hl with rfl | rfl | rfl <;> rfl
      simp [isOuterSelect, endsList, hname, hsemicolon]
  marks := by
    intro l hl c hc
    rcases mem_around hl with hl | hl
    · obtain ⟨w, hkind⟩ := hwords l hl
      simp [Lexeme.isPunct, hkind]
    · have hne : ∀ c ∈ ['(', ','], c ≠ '\x7b' ∧ c ≠ '\x7d' := by decide
      obtain ⟨hopen, hclose⟩ := hne c hc
      simp only [displayLexemes, List.mem_cons, List.not_mem_nil, or_false] at hl
      rcases hl with rfl | rfl | rfl
      · simpa [Lexeme.isPunct] using hopen.symm
      · rfl
      · simpa [Lexeme.isPunct] using hclose.symm

/-! ### The structure -/

/-- A word with a digit is no keyword, and takes nothing from a statement. -/
theorem isFilling_word {w : List Char} (hdigit : ∃ c ∈ w, c.isDigit = true) (depth : Nat) :
    IsFilling depth [⟨.word w, 0, depth⟩] := by
  have hword : ∀ k ∈ ["SELECT", "FROM", "DISTINCT", "ALL", "TOP"], sameWord w k.toList = false := by
    intro k hk
    rw [Bool.eq_false_iff]
    intro hsame
    obtain ⟨c, hc, hdigit⟩ := hdigit
    have hall : ∀ k ∈ ["SELECT", "FROM", "DISTINCT", "ALL", "TOP"],
        ∀ c ∈ foldCase k.toList, isNameStart c = true := by decide
    have hstart := isNameStart_of_sameWord (hall k hk) hsame c hc
    rw [isDigit_of_isNameStart hstart] at hdigit
    cases hdigit
  have hlexeme : ∀ k ∈ ["SELECT", "FROM", "DISTINCT", "ALL", "TOP"],
      Lexeme.isKeyword ⟨.word w, 0, depth⟩ k = false := hword
  exact
    { nonempty := by simp
      words := by simp [hlexeme]
      begins := by simp [hlexeme]
      ends := by simp [hlexeme]
      single := by simp [Lexeme.isPunct]
      opens := by simp [Lexeme.isPunct]
      separates := by simp [Lexeme.isPunct] }

/-- A word opens and closes nothing. -/
theorem after_of_word {n : Nesting} {w : List Char} (hn : n.Proper)
    (hw : ∀ c ∈ w, isWordChar c = true) : n.after true w = n := by
  rcases hn with hnone | hquote | hbracket
  · exact Nesting.after_of_isWordChar hnone hw
  · exact Nesting.after_of_open hquote fun c hc => ne_of_test (hw c hc) (by decide)
  · exact Nesting.after_of_open hbracket fun c hc => ne_of_test (hw c hc) (by decide)

/-- A run of word characters is a word, if there is anything in it. -/
theorem exists_reads_run {w : List Char} (hw : ∀ c ∈ w, isWordChar c = true) (depth : Nat) :
    ∃ word : List Lexeme, Reads w depth word depth ∧ ∀ l ∈ word, l = ⟨.word w, 0, depth⟩ := by
  by_cases hempty : w = []
  · subst hempty
    exact ⟨[], reads_nil, by simp⟩
  · exact ⟨[⟨.word w, 0, depth⟩], reads_word ⟨hempty, hw⟩, by simp⟩

/-- Behind blanks a word is what the blanks leave. -/
theorem trimLeft_blanks_append {x w : List Char} (hx : ∀ c ∈ x, isBlank c = true)
    (hw : ∀ c ∈ w, isWordChar c = true) : trimLeft (x ++ w) = w := by
  rw [trimLeft, List.dropWhile_append_of_pos hx]
  cases w with
  | nil => rfl
  | cons c w =>
    have hc : ¬ isBlank c = true := by
      intro hblank
      have hword := hw c List.mem_cons_self
      rw [isWordChar_of_isBlank hblank] at hword
      cases hword
    rw [List.dropWhile_cons, if_neg hc]

/-- The lexemes of the words around a place, none where there is no word. -/
structure AreAround (w w' : List Char) (depth : Nat) (front behind : List Lexeme) : Prop where
  front : ∀ l ∈ front, l = ⟨.word w, 0, depth⟩
  behind : ∀ l ∈ behind, l = ⟨.word w', 0, depth⟩

section Around

variable {w w' : List Char} {front behind : List Lexeme}

/-- The lexemes of a placeholder between words. -/
theorem exists_reads_around (hw : ∀ c ∈ w, isWordChar c = true)
    (hw' : ∀ c ∈ w', isWordChar c = true) (p : Placeholder) (depth : Nat) :
    ∃ front behind : List Lexeme, AreAround w w' depth front behind ∧
      Reads (w ++ (p.display ++ w')) depth (front ++ (displayLexemes p depth ++ behind)) depth := by
  obtain ⟨front, hreads, hfront⟩ := exists_reads_run hw depth
  obtain ⟨behind, hreads', hbehind⟩ := exists_reads_run hw' depth
  refine ⟨front, behind, ⟨hfront, hbehind⟩, ?_⟩
  refine hreads.append ((reads_display p depth).append hreads' (Or.inl ?_)) (Or.inr rfl)
  rw [Placeholder.display, endsInWord_append_singleton]
  decide

namespace AreAround

theorem eq_word (h : AreAround w w' depth front behind) :
    ∀ l ∈ front ++ behind, ∃ u ∈ [w, w'], l = ⟨.word u, 0, depth⟩ := by
  intro l hl
  rcases List.mem_append.1 hl with hl | hl
  · exact ⟨w, by simp, h.front l hl⟩
  · exact ⟨w', by simp, h.behind l hl⟩

theorem kind (h : AreAround w w' depth front behind) :
    ∀ l ∈ front ++ behind, ∃ u, l.kind = .word u := by
  intro l hl
  obtain ⟨u, -, rfl⟩ := h.eq_word l hl
  exact ⟨u, rfl⟩

/-- In parentheses the words neither begin nor end a select list. -/
theorem outer (h : AreAround w w' depth front behind) (hdepth : 0 < depth) :
    ∀ l ∈ front ++ behind, isOuterSelect l = false ∧ endsList l = false := by
  intro l hl
  obtain ⟨u, -, rfl⟩ := h.eq_word l hl
  simp [isOuterSelect, endsList, Nat.pos_iff_ne_zero.1 hdepth]

theorem withoutQuery (h : AreAround w w' depth front behind)
    (hw : ∀ k ∈ ["SELECT", "FROM"], sameWord w k.toList = false)
    (hw' : ∀ k ∈ ["SELECT", "FROM"], sameWord w' k.toList = false) :
    WithoutQuery (front ++ behind) := by
  intro l hl k hk
  obtain ⟨u, hu, rfl⟩ := h.eq_word l hl
  simp only [List.mem_cons, List.not_mem_nil, or_false] at hu
  rcases hu with rfl | rfl
  · exact hw k hk
  · exact hw' k hk

/-- With a placeholder between words that are no keywords of a query the lexemes
of a statement are exchanged. -/
theorem isHole (h : AreAround w w' depth front behind) (hquery : WithoutQuery (front ++ behind)) :
    IsHole (front ++ (displayLexemes p depth ++ behind)) ∧
      WithoutQuery (front ++ (displayLexemes p depth ++ behind)) := by
  refine ⟨isHole_display h.kind fun l hl => ?_, fun l hl => ?_⟩
  · obtain ⟨u, hkind⟩ := h.kind l hl
    simp [isOuterSelect, endsList, hquery l hl, Lexeme.isPunct, hkind]
  · exact (mem_around hl).elim (hquery l) (withoutQuery_display p depth l)

/-- The first lexeme is a keyword only if the first word is. -/
theorem head?_isKeyword (h : AreAround w w' depth front behind) {k : String}
    (hw : sameWord w k.toList = false) :
    ∀ l ∈ (front ++ (displayLexemes p depth ++ behind)).head?, l.isKeyword k = false := by
  intro l hl
  cases front with
  | nil =>
    obtain rfl := Option.some.inj hl
    rfl
  | cons e front =>
    obtain rfl := Option.some.inj hl
    rw [h.front e List.mem_cons_self]
    exact hw

end AreAround

/-- A numeral with words around it is a word with a digit. -/
theorem isWord_around (hw : ∀ c ∈ w, isWordChar c = true) (hw' : ∀ c ∈ w', isWordChar c = true)
    (hv : IsNumeral v) : IsWord (w ++ (v ++ w')) ∧ ∃ c ∈ w ++ (v ++ w'), c.isDigit = true := by
  have hdigits : ∀ c ∈ v, isWordChar c = true :=
    fun c hc => isWordChar_of_isNumeric (isNumeric_of_isDigit (hv.2 c hc))
  refine ⟨⟨by simp [hv.1], ?_⟩, ?_⟩
  · simpa only [List.forall_mem_append] using ⟨hw, hdigits, hw'⟩
  · obtain ⟨c, r, rfl⟩ := List.exists_cons_of_ne_nil hv.1
    exact ⟨c, by simp, hv.2 c List.mem_cons_self⟩

end Around

/-- The word in which a text ends leaves the nesting as it is. -/
theorem after_rdropWhile (a : List Char) :
    Nesting.after true ⟨0, none⟩ (a.rdropWhile isWordChar) = Nesting.after true ⟨0, none⟩ a := by
  have hproper : (Nesting.after true ⟨0, none⟩ (a.rdropWhile isWordChar)).Proper :=
    Nesting.Proper.after (Or.inl rfl) _
  rw [← after_of_word hproper fun _ hc => List.mem_rtakeWhile_imp hc, ← Nesting.after_append,
    List.rdropWhile_append_rtakeWhile]

/-- A text at a place together with the words around it. -/
theorem append_words (a u b : List Char) : a ++ (u ++ b) = a.rdropWhile isWordChar ++
    ((a.rtakeWhile isWordChar ++ (u ++ b.takeWhile isWordChar)) ++ b.dropWhile isWordChar) := by
  simp only [List.append_assoc, List.takeWhile_append_dropWhile]
  rw [← List.append_assoc (a.rdropWhile isWordChar), List.rdropWhile_append_rtakeWhile]

/-- A numeral in the code, with the words around it if there are any. -/
theorem isStructured_numeral {a b : List Char}
    (hname : (Nesting.after true ⟨0, none⟩ a).name = none) (hv : IsNumeral v)
    (hspares : SparesKeywords a b ∨
      StandsAside a ∧ hasQueryFrom (lexemes (a ++ (v ++ b))) = true)
    (hs : IsStructured level (lexemes (a ++ (p.display ++ b)))) :
    IsStructured level (lexemes (a ++ (v ++ b))) := by
  have hx := endsInWord_rdropWhile a
  have hy := beginsWithWord_dropWhile b
  have hw : ∀ c ∈ a.rtakeWhile isWordChar, isWordChar c = true :=
    fun _ hc => List.mem_rtakeWhile_imp hc
  have hw' : ∀ c ∈ b.takeWhile isWordChar, isWordChar c = true :=
    fun _ hc => List.mem_takeWhile_imp hc
  rw [← after_rdropWhile] at hname
  obtain ⟨front, behind, haround, hdisplay⟩ := exists_reads_around hw hw' p
    (Nesting.after true ⟨0, none⟩ (a.rdropWhile isWordChar)).depth
  obtain ⟨hword, hdigit⟩ := isWord_around hw hw' hv
  have hfilling := isFilling_word hdigit
  rw [append_words] at hs ⊢
  rcases hspares with ⟨hbegins, hspared, hspared'⟩ | ⟨hnested | hends, hfrom⟩
  · -- no keyword is taken away
    obtain ⟨hhole, hquery⟩ := haround.isHole (haround.withoutQuery hspared hspared') (p := p)
    refine isStructured_of_reads hname hdisplay (reads_word hword) ⟨Or.inl hx, Or.inr hy⟩
      ⟨Or.inl hx, Or.inr hy⟩ (fun rest hrest hstructure => ?_) hs
    refine Exchange.isStructured ⟨hhole, hfilling _⟩ hquery hrest (fun hnil => ?_) hstructure
    -- where no lexeme stands before it, the word is what the statement begins with
    have hblank := isBlank_of_lexFrom_eq_nil (List.map_eq_nil_iff.1 hnil)
    rw [← List.rdropWhile_append_rtakeWhile (p := isWordChar) (l := a),
      trimLeft_blanks_append hblank hw] at hbegins
    exact haround.head?_isKeyword hbegins
  · -- the place is in parentheses
    rw [← after_rdropWhile] at hnested
    rw [append_words] at hfrom
    exact isStructured_of_nested hname hnested hdisplay (reads_word hword) ⟨Or.inl hx, Or.inr hy⟩
      ⟨Or.inl hx, Or.inr hy⟩ ⟨isHole_display haround.kind (haround.outer hnested), hfilling _⟩
      hfrom hs
  · -- the place is behind the select list
    rw [append_words] at hfrom
    exact isStructured_of_endsWithin hname hends (Or.inl hx) (Or.inl hx) hfrom hs

/-- A value that is no numeral, outside of literals and quoted names. -/
theorem isStructured_value {a b : List Char} {fs : List Fragment} (d : Dialect)
    (hname : (Nesting.after true ⟨0, none⟩ a).name = none) (hfs : IsValue fs)
    (hs : IsStructured level (lexemes (a ++ (p.display ++ b)))) :
    IsStructured level
      (lexemes (a ++ (maskFrom .commentsAndLiterals .code (write d fs) ++ b))) := by
  obtain ⟨e, s, hbegins, he⟩ := hfs.begins d
  obtain ⟨s', hends⟩ := hfs.ends d
  refine isStructured_of_reads hname (reads_display p _) (hfs.reads_shown d _)
    ⟨Or.inr rfl, Or.inl ?_⟩ ⟨Or.inr ?_, Or.inl ?_⟩ (fun rest hrest hstructure => ?_) hs
  · rw [Placeholder.display, endsInWord_append_singleton]
    decide
  · have hmark : isWordChar e = false := by
      have hall : ∀ b ∈ ['(', '"', '['], isWordChar b = false := by decide
      exact hall e he
    have hfirst : beginsWithWord (maskFrom .commentsAndLiterals .code (write d fs)) = false :=
      beginsWithWord_maskFrom (by rw [hbegins]; exact hmark)
    have hne : write d fs ≠ [] := by simp [hbegins]
    obtain ⟨e', r', hmasked⟩ := List.exists_cons_of_ne_nil
      (maskFrom_ne_nil (m := .commentsAndLiterals) (g := .code) hne)
    rw [hmasked] at hfirst ⊢
    exact hfirst
  · refine endsInWord_maskFrom ?_
    rw [hends, endsInWord_append_singleton]
    decide
  · have hhole : IsHole ([] ++ (displayLexemes p (Nesting.after true ⟨0, none⟩ a).depth ++ [])) :=
      isHole_display (by simp) (by simp)
    refine Exchange.isStructured ⟨hhole, hfs.isFilling d _⟩ (withoutQuery_display p _) hrest
      (fun _ l hl => ?_) hstructure
    obtain rfl := Option.some.inj hl
    rfl

/-- A numeral is shown as it is. -/
theorem maskFrom_natural {g : Region} (hg : g = .code ∨ g = .name) (k : Nat) :
    maskFrom .commentsAndLiterals g (natural k) = natural k := by
  refine maskFrom_ordinary hg fun c hc => ?_
  have hall : ∀ c ∈ "0123456789".toList, isOrdinary c = true := by decide
  exact hall c (mem_digits (isDigit_of_mem_natural hc))

/-- A value outside of literals is shown as in the code. -/
theorem Lodges.shown_write {d : Dialect} {rest : List Char} {fs : List Fragment}
    (h : Lodges (write d fs) before rest) (hfs : IsValue fs)
    (hregion : (Place.start.after before).region = .code ∨
      (Place.start.after before).region = .name)
    (hname : (Place.start.after before).nesting.name = none) :
    (Place.start.after before).shown (write d fs) =
      maskFrom .commentsAndLiterals .code (write d fs) := by
  rcases hregion with hg | hg
  · rw [Place.shown, hg]
  · obtain ⟨hquote, hsingle⟩ := h.name hg
    rw [Place.shown, hg, maskFrom_in_name fun c hc heq => hquote (heq ▸ hc)]
    refine (hfs.fitting.piecewise.whole.maskLiterals_eq fun c hc heq => ?_).symm
    exact hsingle hname (heq ▸ hc)

/-- **A value where it fits** takes nothing from the structure of a statement. -/
theorem isStructured_fill (hsteady : (Place.start.after before).Steady) (hv : IsValueText v)
    (h : Lodges v before r)
    (hs : IsStructured level (structuralLexemes (before ++ (p.display ++ r)))) :
    IsStructured level (structuralLexemes (before ++ (v ++ r))) := by
  have hdisplay := keeps_display hsteady.region p
  have hkeeps := h.keeps hv hsteady.region
  have hcut : ∀ u, (Place.start.after before).region.Keeps u →
      structuralLexemes (before ++ (u ++ r)) = lexemes (shownBefore before ++
        ((Place.start.after before).shown u ++ (Place.start.after before).shown r)) := by
    intro u hu
    rw [structuralLexemes, maskLiterals, mask_around _ hu]
    rfl
  rw [hcut _ hdisplay] at hs
  rw [hcut _ hkeeps]
  obtain ⟨b, r', hbegins, hb⟩ := hv.isInsert.begins
  have hstart : ∀ c ∈ valueStarts, isNameStart c = false := by decide
  cases hname : (Place.start.after before).nesting.name with
  | some stop =>
    have hnesting : Nesting.after true ⟨0, none⟩ (shownBefore before) =
        ⟨(Place.start.after before).nesting.depth, some stop⟩ := Nesting.ext rfl hname
    refine isStructured_of_name hnesting ?_ ?_ ?_ ?_ hs
    · refine not_mem_maskFrom hsteady hname ?_
      have hall : ∀ q ∈ Placeholder.all, '"' ∉ q.display ∧ ']' ∉ q.display := by decide
      rcases eq_of_closing hsteady hname with rfl | rfl
      · exact (hall p (mem_all p)).1
      · exact (hall p (mem_all p)).2
    · exact not_mem_maskFrom hsteady hname (h.closing stop hname)
    · exact isForeign_maskFrom (by decide)
    · rw [hbegins]
      exact isForeign_maskFrom (hstart b hb)
  | none =>
    have hnone : (Nesting.after true ⟨0, none⟩ (shownBefore before)).name = none := hname
    by_cases hliteral : (Place.start.after before).region = .literal
    · -- in a literal both are blank
      have hblank : ∀ u : List Char, '\'' ∉ u →
          ∀ c ∈ (Place.start.after before).shown u, isBlank c = true := by
        intro u hu
        rw [Place.shown, hliteral]
        exact isBlank_of_mem_masked fun c hc heq => hu (heq ▸ hc)
      have hall : ∀ q ∈ Placeholder.all, '\'' ∉ q.display := by decide
      exact isStructured_of_blanks hnone (hblank _ (hall p (mem_all p)))
        (hblank _ (h.literal hliteral)) (maskFrom_ne_nil hdisplay.nonempty)
        (maskFrom_ne_nil hkeeps.nonempty) hs
    · have hregion : (Place.start.after before).region = .code ∨
          (Place.start.after before).region = .name := by
        rcases hsteady.region with hg | hg | hg
        · exact Or.inl hg
        · exact absurd hg hliteral
        · exact Or.inr hg
      have hshown : (Place.start.after before).shown p.display = p.display :=
        maskFrom_ordinary hregion (display_ordinary p)
      rw [hshown] at hs
      rcases hv with ⟨k, rfl⟩ | ⟨d, fs, rfl, hfs⟩
      · have hnumeral := h.numeral (isNumeral_natural k) hliteral hname
        have hshown : (Place.start.after before).shown (natural k) = natural k :=
          maskFrom_natural hregion k
        rw [hcut _ hkeeps, hshown] at hnumeral
        rw [hshown]
        exact isStructured_numeral hnone (isNumeral_natural k) hnumeral hs
      · rw [h.shown_write hfs hregion hname]
        exact isStructured_value d hnone hfs hs

end DealSql.Placeholder
