import DealSql.Proofs.LeftCuts
import DealSql.Proofs.LexemeSeams
import DealSql.Proofs.Templates

/-!
# What lexemes spell

Read without quoted names, lexemes lose nothing of a text but its blanks.  They
follow each other without overlapping, each word is as long as word characters
stand together, and put together they spell all that is not blank.

A text is cut by its quoted names into pieces: a name from its opening mark to
the first mark that closes it, or to the end, and what stands outside of names
before and behind it.  Read with quoted names, a name is one word, the characters
between its marks, and outside of names the lexemes are the same.

* `pairwise_lexFrom` — lexemes do not overlap.
* `flatMap_text_lexFrom` — lexemes spell the text.
* `existsUnique_isPieced` — a text has one cut by its quoted names.
* `IsPieced.lexFrom_eq` — the lexemes of a text are those of its pieces.
* `lexing_lossless` — both readings of any text.
-/

namespace DealSql.Statement

open DealSql.Text

/-- What a lexeme spells. -/
def Lexeme.text (l : Lexeme) : List Char :=
  match l.kind with
  | .word w => w
  | .punct c => [c]

/-- A byte position lies within what a lexeme spells. -/
def Lexeme.Covers (l : Lexeme) (n : Nat) : Prop :=
  l.offset ≤ n ∧ n < l.offset + byteLength l.text

/-- A lexeme ends before another begins. -/
def Lexeme.Precedes (l m : Lexeme) : Prop :=
  l.offset < m.offset ∧ l.offset + byteLength l.text ≤ m.offset

variable {names : Bool} {offset depth n : Nat} {c stop : Char} {a b s t rest : List Char}
  {l m : Lexeme} {ls : List Lexeme}

@[simp] theorem Lexeme.text_word (w : List Char) (offset depth : Nat) :
    Lexeme.text ⟨.word w, offset, depth⟩ = w := rfl

@[simp] theorem Lexeme.text_punct (c : Char) (offset depth : Nat) :
    Lexeme.text ⟨.punct c, offset, depth⟩ = [c] := rfl

/-! ## Positions -/

/-- What begins with a character is at least one byte long. -/
theorem byteLength_cons_pos (c : Char) (s : List Char) : 0 < byteLength (c :: s) := by
  have hc := c.utf8Size_pos
  rw [byteLength]
  omega

/-- No lexeme begins before the text. -/
theorem le_offset (h : l ∈ lexFrom names offset depth t) : offset ≤ l.offset := by
  fun_induction lexFrom names offset depth t with
  | case1 => cases h
  | case2 offset depth c r hb ih => exact Nat.le_trans (Nat.le_add_right _ _) (ih h)
  | case3 offset depth c r hb hc w ih =>
    rcases List.mem_cons.1 h with rfl | h
    · exact Nat.le_refl _
    · exact Nat.le_trans (Nat.le_add_right _ _) (ih h)
  | case4 offset depth c r hb hc stop hs inner ih =>
    rcases List.mem_cons.1 h with rfl | h
    · exact Nat.le_refl _
    · have := ih h
      omega
  | case5 offset depth c r hb hc hs outside ih =>
    rcases List.mem_cons.1 h with rfl | h
    · exact Nat.le_refl _
    · exact Nat.le_trans (Nat.le_add_right _ _) (ih h)

/-- **Lexemes do not overlap.** -/
theorem pairwise_lexFrom (names : Bool) (offset depth : Nat) (t : List Char) :
    (lexFrom names offset depth t).Pairwise Lexeme.Precedes := by
  fun_induction lexFrom names offset depth t with
  | case1 => exact List.Pairwise.nil
  | case2 offset depth c r hb ih => exact ih
  | case3 offset depth c r hb hc w ih =>
    refine List.pairwise_cons.2 ⟨fun m hm => ?_, ih⟩
    have hle := le_offset hm
    have hpos : 0 < byteLength w := byteLength_cons_pos _ _
    exact ⟨by simp only; omega, hle⟩
  | case4 offset depth c r hb hc stop hs inner ih =>
    refine List.pairwise_cons.2 ⟨fun m hm => ?_, ih⟩
    have hle := le_offset hm
    exact ⟨by simp only; omega, by simp only [Lexeme.text_word]; omega⟩
  | case5 offset depth c r hb hc hs outside ih =>
    refine List.pairwise_cons.2 ⟨fun m hm => ?_, ih⟩
    have hle := le_offset hm
    have hpos := c.utf8Size_pos
    exact ⟨by simp only; omega, by simpa [byteLength] using hle⟩

/-- At most one of such lexemes covers a position. -/
theorem eq_of_covers (h : ls.Pairwise Lexeme.Precedes) (hl : l ∈ ls) (hm : m ∈ ls)
    (hcovers : l.Covers n) (hcovers' : m.Covers n) : l = m := by
  have hapart : ∀ {x y : Lexeme}, x.Precedes y → x.Covers n → y.Covers n → False := by
    intro x y hxy hx hy
    have h1 := hxy.2
    have h2 := hx.2
    have h3 := hy.1
    omega
  induction ls with
  | nil => cases hl
  | cons x ls ih =>
    obtain ⟨hfirst, hrest⟩ := List.pairwise_cons.1 h
    rcases List.mem_cons.1 hl with hl | hl <;> rcases List.mem_cons.1 hm with hm | hm
    · exact hl.trans hm.symm
    · exact (hapart (hfirst m hm) (hl ▸ hcovers) hcovers').elim
    · exact (hapart (hfirst l hl) (hm ▸ hcovers') hcovers).elim
    · exact ih hrest hl hm

/-! ## Spelling -/

/-- Word characters are all kept when blanks are dropped. -/
theorem filter_of_isWordChar {w : List Char} (hw : ∀ c ∈ w, isWordChar c = true) :
    w.filter (!isBlank ·) = w := by
  refine List.filter_eq_self.2 fun c hc => ?_
  rw [Bool.not_eq_true', ← Bool.not_eq_true]
  intro hblank
  have hword := hw c hc
  rw [isWordChar_of_isBlank hblank] at hword
  cases hword

/-- **Lexemes spell the text** without its blanks. -/
theorem flatMap_text_lexFrom (offset depth : Nat) (t : List Char) :
    (lexFrom false offset depth t).flatMap Lexeme.text = t.filter (!isBlank ·) := by
  fun_induction lexFrom false offset depth t with
  | case1 => rfl
  | case2 offset depth c r hb ih => rw [ih, List.filter_cons_of_neg (by simp [hb])]
  | case3 offset depth c r hb hc w ih =>
    have hcut : c :: r = w ++ r.dropWhile isWordChar := by simp [w]
    rw [List.flatMap_cons, ih, hcut, List.filter_append,
      filter_of_isWordChar (isWordChar_of_mem_run hc r)]
    rfl
  | case4 offset depth c r hb hc stop hs => simp at hs
  | case5 offset depth c r hb hc hs outside ih =>
    simp only [dite_eq_ite] at ih
    rw [List.flatMap_cons, ih, List.filter_cons_of_pos (by simp [hb])]
    rfl

/-- What is no blank is covered by a lexeme: a word as far as word characters
stand around it, or itself. -/
theorem exists_covers (hc : isBlank c = false) (a b : List Char) (offset depth : Nat) :
    ∃ l ∈ lexFrom false offset depth (a ++ c :: b), l.Covers (offset + byteLength a) := by
  cases hword : isWordChar c with
  | false =>
    obtain ⟨d, hmem⟩ := punct_mem_lexFrom hc hword a b offset depth
    have hpos := byteLength_cons_pos c []
    exact ⟨_, hmem, Nat.le_refl _, by simp only [Lexeme.text_punct]; omega⟩
  | true =>
    have hbefore := endsInWord_rdropWhile a
    have hrun : IsWord (a.rtakeWhile isWordChar ++ c :: b.takeWhile isWordChar) := by
      refine ⟨by simp, fun d hd => ?_⟩
      rcases List.mem_append.1 hd with hd | hd
      · exact List.mem_rtakeWhile_imp hd
      · exact isWordChar_of_mem_run hword b d hd
    obtain ⟨d, hmem⟩ := word_mem_lexFrom hrun hbefore (beginsWithWord_dropWhile b) offset depth
    have ha := List.rdropWhile_append_rtakeWhile (p := isWordChar) (l := a)
    have hb := List.takeWhile_append_dropWhile (p := isWordChar) (l := b)
    have htext : a.rdropWhile isWordChar ++ (a.rtakeWhile isWordChar ++
        c :: b.takeWhile isWordChar) ++ b.dropWhile isWordChar = a ++ c :: b := by
      rw [← List.append_assoc, ha, List.append_assoc, List.cons_append, hb]
    rw [htext] at hmem
    have hlength := congrArg byteLength ha
    have hpos := byteLength_cons_pos c (b.takeWhile isWordChar)
    rw [byteLength_append] at hlength
    refine ⟨_, hmem, ?_, ?_⟩
    · simp only; omega
    · simp only [Lexeme.text_word, byteLength_append]; omega

/-! ## Pieces -/

/-- A piece of a text: what stands outside of quoted names, at least one
character, or such a name from its opening mark on, which may lack the closing
one. -/
inductive Piece where
  | outside (first : Char) (others : List Char)
  | quoted (opening : Char) (inner : List Char) (closed : Bool)
  deriving Repr, DecidableEq

namespace Piece

/-- A piece as it stands in the text. -/
def text : Piece → List Char
  | outside c s => c :: s
  | quoted c inner closed => c :: inner ++ if closed then (closing? c).toList else []

/-- Whether a piece, which stands in front of a text, begins and ends where one
does: a name at the first mark that closes it or, when there is none, with the
text, and what is outside of names where one opens. -/
def StandsBefore (rest : List Char) : Piece → Prop
  | outside c s => (∀ d ∈ c :: s, closing? d = none) ∧ ∀ d ∈ rest.head?, closing? d ≠ none
  | quoted c inner closed => (∃ stop, closing? c = some stop ∧ stop ∉ inner) ∧
      (closed = false → rest = [])

/-- The lexemes of a piece that begins at a position and at a depth.  With
`names`, a quoted name is one word, the characters between its marks. -/
def lexemes (names : Bool) (offset depth : Nat) : Piece → List Lexeme
  | outside c s => lexFrom false offset depth (c :: s)
  | quoted c inner closed =>
    if names then [⟨.word inner, offset, depth⟩]
    else lexFrom false offset depth (quoted c inner closed).text

/-- How many parentheses are open behind a piece. -/
def depthBehind (names : Bool) (depth : Nat) (piece : Piece) : Nat :=
  (Nesting.after names ⟨depth, none⟩ piece.text).depth

end Piece

/-- The pieces of a text, in order. -/
inductive IsPieced : List Char → List Piece → Prop
  | nil : IsPieced [] []
  | cons {piece : Piece} {rest : List Char} {pieces : List Piece}
      (h : piece.StandsBefore rest) (hrest : IsPieced rest pieces) :
      IsPieced (piece.text ++ rest) (piece :: pieces)

/-- The lexemes of pieces, of which the first begins at a position and at a depth. -/
def lexemesAlong (names : Bool) (offset depth : Nat) : List Piece → List Lexeme
  | [] => []
  | piece :: pieces => piece.lexemes names offset depth ++
      lexemesAlong names (offset + byteLength piece.text) (piece.depthBehind names depth) pieces

variable {inner : List Char} {piece : Piece} {pieces : List Piece}

/-! ## Cuts -/

namespace Piece

theorem text_ne_nil (piece : Piece) : piece.text ≠ [] := by cases piece <;> simp [text]

/-- A text begins with a piece. -/
theorem exists_standsBefore (c : Char) (s : List Char) :
    ∃ piece rest, StandsBefore rest piece ∧ c :: s = piece.text ++ rest := by
  cases hc : closing? c with
  | none =>
    have hstop := List.head?_dropWhile_not (fun d => (closing? d).isNone) s
    refine ⟨outside c (s.takeWhile fun d => (closing? d).isNone),
      s.dropWhile fun d => (closing? d).isNone, ⟨fun d hd => ?_, fun d hd => ?_⟩, ?_⟩
    · rcases List.mem_cons.1 hd with rfl | hd
      · exact hc
      · simpa using List.mem_takeWhile_imp hd
    · rw [Option.mem_def.1 hd] at hstop
      exact Option.isSome_iff_ne_none.1 (by simpa using hstop)
    · rw [text, List.cons_append, List.takeWhile_append_dropWhile]
  | some stop =>
    by_cases hmem : stop ∈ s
    · obtain ⟨inner, rest, rfl, hinner⟩ := List.eq_append_cons_of_mem hmem
      exact ⟨quoted c inner true, rest, ⟨⟨stop, hc, hinner⟩, by simp⟩, by simp [text, hc]⟩
    · exact ⟨quoted c s false, [], ⟨⟨stop, hc, hmem⟩, fun _ => rfl⟩, by simp [text]⟩

/-- What is outside of names reaches up to the first mark that opens one. -/
theorem outside_reads (h : (outside c s).StandsBefore rest) :
    ((outside c s).text ++ rest).takeWhile (fun d => (closing? d).isNone) = c :: s ∧
      ((outside c s).text ++ rest).dropWhile (fun d => (closing? d).isNone) = rest :=
  run_append_of_stop (by simpa [text] using h.1) (by simpa [Option.isSome_iff_ne_none] using h.2)

/-- A name reaches up to the first mark that closes it, and lacks this one when
there is none. -/
theorem quoted_reads {closed : Bool} (h : (quoted c inner closed).StandsBefore rest)
    (hc : closing? c = some stop) :
    ∃ r, (quoted c inner closed).text ++ rest = c :: r ∧ r.takeWhile (· != stop) = inner ∧
      afterFirst stop r = rest ∧ (closed = true ↔ stop ∈ r) := by
  obtain ⟨⟨stop', hc', hstop⟩, hrest⟩ := h
  obtain rfl := Option.some.inj (hc.symm.trans hc')
  have hne : ∀ d ∈ inner, d ≠ stop := fun d hd heq => hstop (heq ▸ hd)
  cases closed with
  | true =>
    obtain ⟨htake, hfirst⟩ := split_at_stop rest hne
    exact ⟨inner ++ stop :: rest, by simp [text, hc], htake, hfirst, by simp⟩
  | false =>
    obtain rfl := hrest rfl
    have htake : inner.takeWhile (· != stop) = inner :=
      List.takeWhile_eq_self_iff.2 (by simpa using hne)
    exact ⟨inner, by simp [text], htake, afterFirst_of_not_mem hstop, by simpa using hstop⟩

/-- The first piece of a text is determined. -/
theorem eq_of_standsBefore {piece' : Piece} {rest' : List Char} (h : piece.StandsBefore rest)
    (h' : piece'.StandsBefore rest') (heq : piece.text ++ rest = piece'.text ++ rest') :
    piece = piece' ∧ rest = rest' := by
  cases piece with
  | outside c s =>
    cases piece' with
    | outside c' s' =>
      obtain ⟨htake, hdrop⟩ := outside_reads h
      obtain ⟨htake', hdrop'⟩ := outside_reads h'
      rw [heq] at htake hdrop
      obtain ⟨rfl, rfl⟩ := List.cons.inj (htake.symm.trans htake')
      exact ⟨rfl, hdrop.symm.trans hdrop'⟩
    | quoted c' inner closed =>
      obtain ⟨rfl, -⟩ := List.cons.inj heq
      obtain ⟨⟨stop, hc, -⟩, -⟩ := h'
      rw [h.1 c List.mem_cons_self] at hc
      cases hc
  | quoted c inner closed =>
    obtain ⟨stop, hc, -⟩ := h.1
    cases piece' with
    | outside c' s' =>
      obtain ⟨rfl, -⟩ := List.cons.inj heq
      rw [h'.1 c List.mem_cons_self] at hc
      cases hc
    | quoted c' inner' closed' =>
      obtain ⟨rfl, -⟩ := List.cons.inj heq
      obtain ⟨r, htext, rfl, rfl, hclosed⟩ := quoted_reads h hc
      obtain ⟨r', htext', rfl, rfl, hclosed'⟩ := quoted_reads h' hc
      rw [htext, htext'] at heq
      obtain ⟨-, rfl⟩ := List.cons.inj heq
      obtain rfl : closed = closed' := Bool.eq_iff_iff.2 (hclosed.trans hclosed'.symm)
      exact ⟨rfl, rfl⟩

end Piece

/-- **A text has one cut by its quoted names**, from the left. -/
theorem existsUnique_isPieced (t : List Char) : ∃! pieces, IsPieced t pieces := by
  have hcut : LeftCut Piece.text (fun rest piece => Piece.StandsBefore rest piece) IsPieced :=
    { nil := .nil
      cons := .cons
      inv := fun h => by
        cases h with
        | nil => exact Or.inl ⟨rfl, rfl⟩
        | cons h hrest => exact Or.inr ⟨_, _, _, h, hrest, rfl, rfl⟩
      ne_nil := Piece.text_ne_nil
      exists_first := Piece.exists_standsBefore
      first_unique := Piece.eq_of_standsBefore }
  exact hcut.existsUnique t

/-! ## Lexemes of pieces -/

/-- Outside of quoted names both readings agree. -/
theorem lexFrom_of_no_opening (h : ∀ c ∈ s, closing? c = none) (offset depth : Nat) :
    lexFrom true offset depth s = lexFrom false offset depth s := by
  have hmem : ∀ {c : Char} {r : List Char}, (∀ d ∈ c :: r, closing? d = none) →
      ∀ d ∈ r, closing? d = none := fun hr d hd => hr d (List.mem_cons_of_mem _ hd)
  fun_induction lexFrom true offset depth s with
  | case1 => rw [lexFrom]
  | case2 offset depth c r hb ih => rw [ih (hmem h), lexFrom, if_pos hb]
  | case3 offset depth c r hb hc w ih =>
    have hrest : ∀ d ∈ r.dropWhile isWordChar, closing? d = none := fun d hd =>
      h d (List.mem_cons_of_mem _ ((List.dropWhile_suffix _).mem hd))
    rw [ih hrest, lexFrom.eq_def _ _ _ (c :: r)]
    simp only [if_neg hb, if_pos hc, w]
  | case4 offset depth c r hb hc stop hs inner ih =>
    have hopens : closing? c = none := h c List.mem_cons_self
    simp [hopens] at hs
  | case5 offset depth c r hb hc hs outside ih =>
    simp only [dite_eq_ite] at ih
    rw [ih (hmem h), lexFrom.eq_def _ _ _ (c :: r)]
    simp [hb, hc, outside]

/-- No name is open behind what opens none. -/
theorem after_of_no_opening (h : ∀ c ∈ s, closing? c = none) (depth : Nat) :
    (Nesting.after names ⟨depth, none⟩ s).name = none := by
  induction s generalizing depth with
  | nil => rfl
  | cons c s ih =>
    have hc : (if names = true then closing? c else none) = none := by
      rw [h c List.mem_cons_self, ite_self]
    rw [Nesting.after_cons, Nesting.step_of_mark hc rfl]
    exact ih (fun d hd => h d (List.mem_cons_of_mem _ hd)) _

/-- A mark that closes a name is no word character. -/
theorem isWordChar_of_closes (h : closing? c = some stop) : isWordChar stop = false := by
  rcases closing?_eq_some h with ⟨-, rfl⟩ | ⟨-, rfl⟩ <;> decide

/-- A mark that opens a name is none either. -/
theorem isWordChar_of_opens (h : closing? c ≠ none) : isWordChar c = false := by
  rw [← Bool.not_eq_true]
  exact fun hword => h (closing?_of_isWordChar hword)

namespace Piece

/-- The lexemes of a piece on its own. -/
theorem lexFrom_text (h : piece.StandsBefore rest) (offset depth : Nat) :
    lexFrom names offset depth piece.text = piece.lexemes names offset depth := by
  cases names with
  | false => cases piece <;> rfl
  | true =>
    cases piece with
    | outside c s => exact lexFrom_of_no_opening h.1 offset depth
    | quoted c inner closed =>
      obtain ⟨stop, hc, -⟩ := h.1
      have halone : (quoted c inner closed).StandsBefore [] := ⟨h.1, fun _ => rfl⟩
      obtain ⟨r, htext, htake, hbehind, -⟩ := quoted_reads halone hc
      rw [List.append_nil] at htext
      rw [htext, lexFrom_opening hc, htake, hbehind, lexFrom]
      rfl

/-- A piece leaves no name open, and where it ends no word is divided, unless it is
the last. -/
theorem seam (h : piece.StandsBefore rest) (depth : Nat) : rest = [] ∨
    (Nesting.after names ⟨depth, none⟩ piece.text).name = none ∧ Parted piece.text rest := by
  cases piece with
  | outside c s =>
    refine Or.inr ⟨after_of_no_opening h.1 depth, Or.inr ?_⟩
    cases rest with
    | nil => rfl
    | cons d r => exact isWordChar_of_opens (h.2 d rfl)
  | quoted c inner closed =>
    obtain ⟨⟨stop, hc, hstop⟩, hrest⟩ := h
    cases closed with
    | false => exact Or.inl (hrest rfl)
    | true =>
      have htext : (quoted c inner true).text = c :: inner ++ [stop] := by simp [text, hc]
      have hends : endsInWord (quoted c inner true).text = false := by
        rw [htext, endsInWord_append_singleton, isWordChar_of_closes hc]
      refine Or.inr ⟨?_, Or.inl hends⟩
      cases names with
      | false => exact Nesting.after_plain_name _ rfl _
      | true =>
        rw [htext, Nesting.after_quoted (by rw [if_pos rfl, hc])]
        exact fun d hd heq => hstop (heq ▸ hd)

/-- **A text has the lexemes of its first piece**, then those of the rest. -/
theorem lexFrom_append (h : piece.StandsBefore rest) (offset depth : Nat) :
    lexFrom names offset depth (piece.text ++ rest) =
      piece.lexemes names offset depth ++
        lexFrom names (offset + byteLength piece.text) (piece.depthBehind names depth) rest := by
  rcases seam h depth with rfl | ⟨hname, hparted⟩
  · rw [List.append_nil, lexFrom_text h, lexFrom, List.append_nil]
  · rw [Statement.lexFrom_append hname hparted, lexFrom_text h]
    rfl

end Piece

/-- **The lexemes of a text** are those of its pieces. -/
theorem IsPieced.lexFrom_eq (h : IsPieced t pieces) (offset depth : Nat) :
    lexFrom names offset depth t = lexemesAlong names offset depth pieces := by
  induction h generalizing offset depth with
  | nil => rw [lexFrom]; rfl
  | cons hpiece _ ih => rw [Piece.lexFrom_append hpiece, ih]; rfl

/-- In either reading the lexemes of a piece are among those of the text. -/
theorem exists_piece_lexemes (names : Bool) (before after : List Piece) (piece : Piece)
    (offset depth : Nat) :
    ∃ d, ∀ l ∈ piece.lexemes names (offset + byteLength (before.flatMap Piece.text)) d,
      l ∈ lexemesAlong names offset depth (before ++ piece :: after) := by
  induction before generalizing offset depth with
  | nil => exact ⟨depth, fun l hl => List.mem_append_left _ hl⟩
  | cons first before ih =>
    obtain ⟨d, hd⟩ := ih (offset + byteLength first.text) (first.depthBehind names depth)
    refine ⟨d, fun l hl => List.mem_append_right _ (hd l ?_)⟩
    rwa [List.flatMap_cons, byteLength_append, ← Nat.add_assoc] at hl

/-- **Outside of quoted names** what is no blank belongs to one lexeme. -/
theorem IsPieced.existsUnique_covers {before after : List Piece} {first : Char}
    {others : List Char} (h : IsPieced t (before ++ .outside first others :: after))
    (heq : first :: others = a ++ c :: b) (hc : isBlank c = false) :
    ∃! l, l ∈ lexFrom names 0 0 t ∧
      l.Covers (byteLength (before.flatMap Piece.text) + byteLength a) := by
  obtain ⟨d, hd⟩ := exists_piece_lexemes names before after (.outside first others) 0 0
  rw [Nat.zero_add, ← h.lexFrom_eq 0 0] at hd
  obtain ⟨l, hl, hcovers⟩ := exists_covers hc a b (byteLength (before.flatMap Piece.text)) d
  rw [← heq] at hl
  exact ⟨l, ⟨hd l hl, hcovers⟩, fun m hm =>
    eq_of_covers (pairwise_lexFrom names 0 0 t) hm.1 (hd l hl) hm.2 hcovers⟩

/-! ## Both readings -/

/-- How lexemes account for a text. -/
structure Lossless (t : List Char) (ls : List Lexeme) : Prop where
  inOrder : ls.Pairwise fun l m => l.offset < m.offset
  /-- A word is made of word characters, stands where it is said to, and no further
  word character stands next to it. -/
  words : ∀ l ∈ ls, ∀ w, l.kind = .word w → IsWord w ∧ StandsAloneAt l.offset w t ∧
    sliceBytes l.offset (l.offset + byteLength w) t = w
  spelled : ls.flatMap Lexeme.text = t.filter (!isBlank ·)

/-- The lexemes without quoted names account for their text. -/
theorem lossless_plainLexemes (t : List Char) : Lossless t (plainLexemes t) where
  inOrder := (pairwise_lexFrom false 0 0 t).imp And.left
  words := by
    intro l hl w hkind
    obtain ⟨hw, n, hn, hstands⟩ := standsAloneAt_of_mem_lexFrom hl hkind
    rw [Nat.zero_add] at hn
    refine ⟨hw, hn ▸ hstands, ?_⟩
    obtain ⟨a, b, rfl, rfl, -, -⟩ := hstands
    rw [hn, List.append_assoc, Placeholder.Template.sliceBytes_append]
  spelled := flatMap_text_lexFrom 0 0 t

/-- **Lexing loses nothing.**  Read without quoted names, the lexemes of a text are in order, each
word is as long as it can be, and together they spell all that is not blank.  A text has one cut
by its quoted names; read with them, each name is one word, what stands between its marks, and
what is outside of them has the same lexemes, of which one, and only one, covers each character
that is not blank. -/
theorem lexing_lossless (t : List Char) : Lossless t (plainLexemes t) ∧
    ∃ pieces, (∀ u, IsPieced t u ↔ u = pieces) ∧
      plainLexemes t = lexemesAlong false 0 0 pieces ∧
      lexemes t = lexemesAlong true 0 0 pieces ∧
      ((lexemes t).Pairwise fun l m => l.offset < m.offset) ∧
      ∀ before first others after a c b, pieces = before ++ .outside first others :: after →
        first :: others = a ++ c :: b → isBlank c = false →
        ∃! l, l ∈ lexemes t ∧
          l.Covers (byteLength (before.flatMap Piece.text) + byteLength a) := by
  obtain ⟨pieces, hpieces, hunique⟩ := existsUnique_isPieced t
  refine ⟨lossless_plainLexemes t, pieces, fun u => ⟨hunique u, fun h => h ▸ hpieces⟩,
    hpieces.lexFrom_eq 0 0, hpieces.lexFrom_eq 0 0, (pairwise_lexFrom true 0 0 t).imp And.left, ?_⟩
  rintro before first others after a c b rfl heq hc
  exact hpieces.existsUnique_covers heq hc

/-- A name that is not closed takes the rest of the text, and one that is empty is a word all the
same. -/
example : lexemes "a[](\"b (".toList =
    [⟨.word ['a'], 0, 0⟩, ⟨.word [], 1, 0⟩, ⟨.punct '(', 3, 0⟩, ⟨.word "b (".toList, 4, 1⟩] := by
  decide +kernel

end DealSql.Statement
