import DealSql.Proofs.Characters
import Mathlib.Data.List.DropRight
import Mathlib.Data.List.TakeWhile

/-!
# Where lexemes part

A text may be cut into two without changing its lexemes wherever the cut
neither divides a word nor falls into a quoted name.  Everything that is
said about the lexemes of a text follows from this one equation,
`lexFrom_append`.

What lies to the left of a cut acts on the right only through its
`Nesting`: how many parentheses are open, and which mark closes the quoted
name in which the text stops.

* `lexFrom_append` — the lexemes of a text part at a cut.
* `word_mem_plainLexemes_iff` — the words among the lexemes are the runs of
  word characters that stand alone.
* `semicolon_mem_plainLexemes` — a semicolon is a lexeme wherever it stands.
-/

namespace DealSql.Statement

open DealSql.Text

/-! ## The ends of a text -/

/-- Whether the last character of a text is a word character. -/
def endsInWord (s : List Char) : Bool := s.getLast?.any isWordChar

/-- Whether the first character of a text is a word character. -/
def beginsWithWord (s : List Char) : Bool := s.head?.any isWordChar

@[simp] theorem beginsWithWord_cons (c : Char) (r : List Char) :
    beginsWithWord (c :: r) = isWordChar c := rfl

@[simp] theorem endsInWord_append_cons (a : List Char) (c : Char) (r : List Char) :
    endsInWord (a ++ c :: r) = endsInWord (c :: r) := by
  simp [endsInWord, List.getLast?_append, List.getLast?_cons]

@[simp] theorem endsInWord_append_singleton (a : List Char) (c : Char) :
    endsInWord (a ++ [c]) = isWordChar c := by
  simp [endsInWord]

/-- A text that does not end in a word character leaves no part that does. -/
theorem endsInWord_right {a b : List Char} (h : endsInWord (a ++ b) = false) :
    endsInWord b = false := by
  cases b with
  | nil => rfl
  | cons c r => simpa using h

/-- A nonempty run of word characters. -/
def IsWord (w : List Char) : Prop := w ≠ [] ∧ ∀ c ∈ w, isWordChar c = true

/-- A word stands in a text with no word character next to it. -/
def StandsAlone (word text : List Char) : Prop :=
  ∃ a b, text = a ++ word ++ b ∧ endsInWord a = false ∧ beginsWithWord b = false

/-- A word stands so at a byte position of a text. -/
def StandsAloneAt (n : Nat) (word text : List Char) : Prop :=
  ∃ a b, text = a ++ word ++ b ∧ byteLength a = n ∧ endsInWord a = false ∧
    beginsWithWord b = false

/-- Two texts meet without dividing a word. -/
def Parted (a b : List Char) : Prop := endsInWord a = false ∨ beginsWithWord b = false

theorem Parted.right {a b c : List Char} (h : Parted (a ++ b) c) : Parted b c :=
  h.imp_left endsInWord_right

/-! ## What a text leaves open -/

/-- How many parentheses are open, and which mark closes the quoted name
that is open. -/
@[ext]
structure Nesting where
  depth : Nat
  name : Option Char
  deriving Repr, DecidableEq

namespace Nesting

/-- The nesting after one more character. -/
def step (names : Bool) (n : Nesting) (c : Char) : Nesting :=
  match n.name with
  | some stop => if c = stop then ⟨n.depth, none⟩ else n
  | none =>
    match if names then closing? c else none with
    | some stop => ⟨n.depth, some stop⟩
    | none => ⟨if c = '(' then n.depth + 1 else if c = ')' then n.depth - 1 else n.depth, none⟩

/-- The nesting after a text. -/
def after (names : Bool) (n : Nesting) (text : List Char) : Nesting :=
  text.foldl (step names) n

@[simp] theorem after_nil (names : Bool) (n : Nesting) : n.after names [] = n := rfl

@[simp] theorem after_cons (names : Bool) (n : Nesting) (c : Char) (r : List Char) :
    n.after names (c :: r) = (n.step names c).after names r := rfl

@[simp] theorem after_append (names : Bool) (n : Nesting) (a b : List Char) :
    n.after names (a ++ b) = (n.after names a).after names b := List.foldl_append

/-- Characters that neither open a name nor a parenthesis leave the nesting alone. -/
theorem step_of_plain {names : Bool} {n : Nesting} (hn : n.name = none) {c : Char}
    (hc : closing? c = none) (ho : c ≠ '(') (hp : c ≠ ')') : n.step names c = n := by
  obtain ⟨depth, name⟩ := n
  subst hn
  cases names <;> simp [step, hc, ho, hp]

/-- Blanks leave the nesting alone. -/
theorem step_of_isBlank {names : Bool} {n : Nesting} (hn : n.name = none) {c : Char}
    (hc : isBlank c = true) : n.step names c = n := by
  refine step_of_plain hn (closing?_of_isBlank hc) ?_ ?_
  · exact ne_of_test hc (by decide)
  · exact ne_of_test hc (by decide)

/-- Word characters leave the nesting alone. -/
theorem step_of_isWordChar {names : Bool} {n : Nesting} (hn : n.name = none) {c : Char}
    (hc : isWordChar c = true) : n.step names c = n := by
  refine step_of_plain hn (closing?_of_isWordChar hc) ?_ ?_
  · exact ne_of_test hc (by decide)
  · exact ne_of_test hc (by decide)

/-- A run of word characters leaves the nesting alone. -/
theorem after_of_isWordChar {names : Bool} {n : Nesting} (hn : n.name = none) {w : List Char}
    (hw : ∀ c ∈ w, isWordChar c = true) : n.after names w = n := by
  induction w with
  | nil => rfl
  | cons c r ih =>
    rw [after_cons, step_of_isWordChar hn (hw c List.mem_cons_self)]
    exact ih fun d hd => hw d (List.mem_cons_of_mem _ hd)

/-- A name stays open up to its closing mark. -/
theorem after_of_ne_stop {names : Bool} {depth : Nat} {stop : Char} {inner : List Char}
    (h : ∀ c ∈ inner, c ≠ stop) :
    after names ⟨depth, some stop⟩ inner = ⟨depth, some stop⟩ := by
  induction inner with
  | nil => rfl
  | cons c r ih =>
    have hc : c ≠ stop := h c List.mem_cons_self
    rw [after_cons]
    simp only [step, hc, if_false]
    exact ih fun d hd => h d (List.mem_cons_of_mem _ hd)

/-- After its closing mark a name is over. -/
theorem after_closed {names : Bool} {depth : Nat} {stop : Char} {inner : List Char}
    (h : ∀ c ∈ inner, c ≠ stop) (rest : List Char) :
    after names ⟨depth, some stop⟩ (inner ++ stop :: rest) = after names ⟨depth, none⟩ rest := by
  rw [after_append, after_of_ne_stop h, after_cons]
  simp [step]

/-- An opening mark opens a name. -/
theorem step_of_opening {names : Bool} {depth : Nat} {c stop : Char}
    (hs : (if names = true then closing? c else none) = some stop) :
    step names ⟨depth, none⟩ c = ⟨depth, some stop⟩ := by simp only [step, hs]

/-- A quoted name leaves nothing open. -/
theorem after_quoted {names : Bool} {depth : Nat} {c stop : Char} {inner : List Char}
    (hs : (if names = true then closing? c else none) = some stop)
    (h : ∀ d ∈ inner, d ≠ stop) :
    after names ⟨depth, none⟩ (c :: inner ++ [stop]) = ⟨depth, none⟩ := by
  rw [List.cons_append, after_cons, step_of_opening hs, after_closed h]
  rfl

/-- A mark that opens no name is outside at most one pair of parentheses. -/
theorem step_of_mark {names : Bool} {depth outside : Nat} {c : Char}
    (hs : (if names = true then closing? c else none) = none)
    (houtside : outside = if c = ')' then depth - 1 else depth) :
    step names ⟨depth, none⟩ c = ⟨if c = '(' then outside + 1 else outside, none⟩ := by
  simp only [step, hs, houtside]
  grind

/-- Without quoted names nothing opens one. -/
theorem after_plain_name (n : Nesting) (hn : n.name = none) (text : List Char) :
    (n.after false text).name = none := by
  induction text generalizing n with
  | nil => exact hn
  | cons c r ih =>
    refine ih _ ?_
    obtain ⟨depth, name⟩ := n
    subst hn
    simp [step]

end Nesting

/-! ## Cuts -/

/-- The marks around a quoted name take one byte each. -/
theorem utf8Size_of_closing? {c stop : Char} (h : closing? c = some stop) :
    c.utf8Size = 1 ∧ stop.utf8Size = 1 := by
  rcases closing?_eq_some h with ⟨rfl, rfl⟩ | ⟨rfl, rfl⟩ <;> decide

/-- A run of word characters is not continued where two texts meet. -/
theorem Parted.run {a b : List Char} {c : Char} (hc : isWordChar c = true)
    (h : Parted (c :: a) b) :
    (a ++ b).takeWhile isWordChar = a.takeWhile isWordChar ∧
      (a ++ b).dropWhile isWordChar = a.dropWhile isWordChar ++ b := by
  induction a generalizing c with
  | nil =>
    have hb : beginsWithWord b = false := by
      rcases h with h | h
      · simp [endsInWord, hc] at h
      · exact h
    cases b with
    | nil => simp
    | cons d r =>
      have hd : isWordChar d = false := by simpa using hb
      simp [hd]
  | cons d r ih =>
    by_cases hd : isWordChar d = true
    · have hr : Parted (d :: r) b := Parted.right (a := [c]) h
      simp [hd, ih hd hr]
    · simp [hd]

/-- A text that leaves a name holds its closing mark. -/
theorem Nesting.exists_stop_of_closed {names : Bool} {depth : Nat} {stop : Char} {a : List Char}
    (h : (Nesting.after names ⟨depth, some stop⟩ a).name = none) :
    ∃ inner rest, a = inner ++ stop :: rest ∧ ∀ c ∈ inner, c ≠ stop := by
  induction a with
  | nil => simp at h
  | cons c r ih =>
    by_cases hc : c = stop
    · exact ⟨[], r, by simp [hc], by simp⟩
    · rw [Nesting.after_cons] at h
      simp only [Nesting.step, hc, if_false] at h
      obtain ⟨inner, rest, rfl, hi⟩ := ih h
      exact ⟨c :: inner, rest, rfl, by simpa [hc] using hi⟩

/-- What stands before and after the first mark of a kind. -/
theorem split_at_stop {stop : Char} {inner : List Char} (rest : List Char)
    (h : ∀ c ∈ inner, c ≠ stop) :
    (inner ++ stop :: rest).takeWhile (· != stop) = inner ∧
      afterFirst stop (inner ++ stop :: rest) = rest := by
  have hp : ∀ c ∈ inner, (c != stop) = true := by simpa using h
  rw [afterFirst, List.takeWhile_append_of_pos hp, List.dropWhile_append_of_pos hp]
  simp

/-- Behind a mark that does not stand in a text there is nothing. -/
theorem afterFirst_of_not_mem {stop : Char} {s : List Char} (h : stop ∉ s) :
    afterFirst stop s = [] := by
  have hne : ∀ d ∈ s, (d != stop) = true := by
    intro d hd
    have hstop : d ≠ stop := by
      rintro rfl
      exact h hd
    simpa using hstop
  rw [afterFirst, List.dropWhile_eq_nil_iff.2 hne]
  rfl

/-- A run of word characters is made of them. -/
theorem isWordChar_of_mem_run {c : Char} (hc : isWordChar c = true) (r : List Char) :
    ∀ d ∈ c :: r.takeWhile isWordChar, isWordChar d = true := by
  simpa [hc] using List.all_eq_true.1 (List.all_takeWhile (p := isWordChar) (l := r))

/-- What stands behind a run of word characters is not another one. -/
theorem beginsWithWord_dropWhile (r : List Char) :
    beginsWithWord (r.dropWhile isWordChar) = false := by
  have hhead := List.head?_dropWhile_not isWordChar r
  rw [beginsWithWord]
  cases hd : (r.dropWhile isWordChar).head? with
  | none => rfl
  | some d =>
    rw [hd] at hhead
    simpa using hhead

/-- And what stands before a run of them does not end with one. -/
theorem endsInWord_rdropWhile (r : List Char) : endsInWord (r.rdropWhile isWordChar) = false := by
  rw [endsInWord, List.rdropWhile, List.getLast?_reverse]
  exact beginsWithWord_dropWhile r.reverse

/-- **The lexemes of a text part at a cut** that neither divides a word nor
falls into a quoted name. -/
theorem lexFrom_append {names : Bool} {offset depth : Nat} {a b : List Char}
    (hname : (Nesting.after names ⟨depth, none⟩ a).name = none) (h : Parted a b) :
    lexFrom names offset depth (a ++ b) =
      lexFrom names offset depth a ++
        lexFrom names (offset + byteLength a) (Nesting.after names ⟨depth, none⟩ a).depth b := by
  fun_induction lexFrom names offset depth a with
  | case1 => simp [byteLength]
  | case2 offset depth c r hc ih =>
    rw [Nesting.after_cons, Nesting.step_of_isBlank rfl hc] at hname ⊢
    rw [List.cons_append, lexFrom, if_pos hc, ih hname (Parted.right (a := [c]) h)]
    simp only [byteLength, Nat.add_assoc]
  | case3 offset depth c r hb hc w ih =>
    -- the word ends before the meeting, so the rest is that of `a` followed by `b`
    obtain ⟨htake, hdrop⟩ := Parted.run hc h
    have hword : ∀ d ∈ w, isWordChar d = true := isWordChar_of_mem_run hc r
    have hcut : c :: r = w ++ r.dropWhile isWordChar := by simp [w]
    have hafter : Nesting.after names ⟨depth, none⟩ (c :: r) =
        Nesting.after names ⟨depth, none⟩ (r.dropWhile isWordChar) := by
      rw [hcut, Nesting.after_append, Nesting.after_of_isWordChar rfl hword]
    have hlen : byteLength (c :: r) = byteLength w + byteLength (r.dropWhile isWordChar) := by
      rw [hcut, byteLength_append]
    have hrest : Parted (r.dropWhile isWordChar) b := Parted.right (a := w) (by rwa [← hcut])
    rw [List.cons_append, lexFrom, if_neg hb, if_pos hc]
    simp only [htake, hdrop]
    rw [hafter] at hname ⊢
    rw [ih hname hrest, hlen]
    simp only [w, List.cons_append, Nat.add_assoc]
  | case4 offset depth c r hb hc stop hs inner ih =>
    rw [dite_eq_ite] at hs
    rw [Nesting.after_cons, Nesting.step_of_opening hs] at hname ⊢
    obtain ⟨x, rest, rfl, hx⟩ := Nesting.exists_stop_of_closed hname
    obtain ⟨htake, hfirst⟩ := split_at_stop rest hx
    obtain ⟨htake', hfirst'⟩ := split_at_stop (rest ++ b) hx
    have hrest : Parted rest b := Parted.right (a := c :: x ++ [stop]) (by simpa using h)
    rw [Nesting.after_closed hx] at hname ⊢
    rw [hfirst] at ih
    rw [List.cons_append, List.append_assoc, List.cons_append, lexFrom, if_neg hb, if_neg hc]
    have hsize : c.utf8Size = 1 ∧ stop.utf8Size = 1 := by
      cases names
      · simp at hs
      · exact utf8Size_of_closing? hs
    simp only [hs, htake', hfirst', inner, htake] at ih ⊢
    rw [ih hname hrest]
    simp only [byteLength, byteLength_append, hsize, hfirst, List.cons_append]
    congr 3
    omega
  | case5 offset depth c r hb hc hs outside ih =>
    simp only [dite_eq_ite] at hs ih outside
    have houtside : outside = if c = ')' then depth - 1 else depth := by simp [outside]
    rw [Nesting.after_cons, Nesting.step_of_mark hs houtside] at hname ⊢
    rw [List.cons_append, lexFrom, if_neg hb, if_neg hc]
    simp only [hs, ← houtside]
    rw [ih hname (Parted.right (a := [c]) h)]
    simp only [byteLength, List.cons_append, Nat.add_assoc]

/-! ## The lexemes of plain texts -/

/-- A word on its own is one lexeme. -/
theorem lexFrom_word {names : Bool} {offset depth : Nat} {w : List Char} (hw : IsWord w) :
    lexFrom names offset depth w = [⟨.word w, offset, depth⟩] := by
  obtain ⟨hne, hall⟩ := hw
  obtain ⟨c, r, rfl⟩ := List.exists_cons_of_ne_nil hne
  have hc : isWordChar c = true := hall c List.mem_cons_self
  have hr : ∀ d ∈ r, isWordChar d = true := fun d hd => hall d (List.mem_cons_of_mem _ hd)
  have hb : ¬ isBlank c = true := by
    intro hb
    simp [isWordChar_of_isBlank hb] at hc
  have htake : r.takeWhile isWordChar = r := List.takeWhile_eq_self_iff.2 hr
  have hdrop : r.dropWhile isWordChar = [] := List.dropWhile_eq_nil_iff.2 hr
  rw [lexFrom, if_neg hb, if_pos hc, htake, hdrop]
  simp only [lexFrom]

/-- A quoted name is one word, up to the first closing mark. -/
theorem lexFrom_opening {offset depth : Nat} {c stop : Char} (hc : closing? c = some stop)
    (r : List Char) : lexFrom true offset depth (c :: r) =
      ⟨.word (r.takeWhile (· != stop)), offset, depth⟩ ::
        lexFrom true (offset + byteLength (r.takeWhile (· != stop)) + 2) depth
          (afterFirst stop r) := by
  have hblank : ¬ isBlank c = true := by
    intro hblank
    rw [closing?_of_isBlank hblank] at hc
    cases hc
  have hword : ¬ isWordChar c = true := by
    intro hword
    rw [closing?_of_isWordChar hword] at hc
    cases hc
  rw [lexFrom, if_neg hblank, if_neg hword, if_pos rfl, hc]

/-- A word that stands alone in a text stands so at some position. -/
theorem standsAlone_iff {w t : List Char} : StandsAlone w t ↔ ∃ n, StandsAloneAt n w t :=
  ⟨fun ⟨a, b, ht, ha, hb⟩ => ⟨_, a, b, ht, rfl, ha, hb⟩,
    fun ⟨_, a, b, ht, _, ha, hb⟩ => ⟨a, b, ht, ha, hb⟩⟩

/-- A word that stands alone in a text does so in a longer one, provided the
texts meet without dividing a word. -/
theorem StandsAloneAt.append_left {n : Nat} {w x r : List Char} (hw : IsWord w) (hp : Parted x r)
    (h : StandsAloneAt n w r) : StandsAloneAt (byteLength x + n) w (x ++ r) := by
  obtain ⟨a, b, rfl, rfl, ha, hb⟩ := h
  refine ⟨x ++ a, b, by simp, byteLength_append x a, ?_, hb⟩
  cases a with
  | cons c a => simpa using ha
  | nil =>
    obtain ⟨c, w', rfl⟩ := List.exists_cons_of_ne_nil hw.1
    have hc : isWordChar c = true := hw.2 c List.mem_cons_self
    rcases hp with hp | hp
    · simpa using hp
    · simp [hc] at hp

/-- So it is wherever the word stands. -/
theorem StandsAlone.append_left {w x r : List Char} (hw : IsWord w) (hp : Parted x r)
    (h : StandsAlone w r) : StandsAlone w (x ++ r) := by
  obtain ⟨n, hn⟩ := standsAlone_iff.1 h
  exact standsAlone_iff.2 ⟨_, hn.append_left hw hp⟩

/-- Every word among the lexemes stands alone at its position. -/
theorem standsAloneAt_of_mem_lexFrom {offset depth : Nat} {t w : List Char} {l : Lexeme}
    (hl : l ∈ lexFrom false offset depth t) (hk : l.kind = .word w) :
    IsWord w ∧ ∃ n, l.offset = offset + n ∧ StandsAloneAt n w t := by
  fun_induction lexFrom false offset depth t with
  | case1 => simp at hl
  | case2 offset depth c r hc ih =>
    obtain ⟨hw, n, hoffset, hs⟩ := ih hl
    have hp : Parted [c] r := Or.inl (by simp [endsInWord, isWordChar_of_isBlank hc])
    exact ⟨hw, _, by simp [hoffset, byteLength, Nat.add_assoc], hs.append_left hw hp⟩
  | case3 offset depth c r hb hc run ih =>
    have hrun : IsWord run := ⟨by simp [run], isWordChar_of_mem_run hc r⟩
    have hcut : c :: r = run ++ r.dropWhile isWordChar := by simp [run]
    have hrest : beginsWithWord (r.dropWhile isWordChar) = false := beginsWithWord_dropWhile r
    rw [hcut]
    rcases List.mem_cons.1 hl with rfl | hl
    · obtain rfl : run = w := by simpa using hk
      exact ⟨hrun, 0, rfl, [], _, by simp, rfl, rfl, hrest⟩
    · obtain ⟨hw, n, hoffset, hs⟩ := ih hl
      exact ⟨hw, _, by rw [hoffset, Nat.add_assoc], hs.append_left hw (Or.inr hrest)⟩
  | case4 offset depth c r hb hc stop hs => simp at hs
  | case5 offset depth c r hb hc hs outside ih =>
    rcases List.mem_cons.1 hl with rfl | hl
    · simp at hk
    · obtain ⟨hw, n, hoffset, hs⟩ := ih hl
      have hp : Parted [c] r := Or.inl (by simpa [endsInWord] using hc)
      exact ⟨hw, _, by simp [hoffset, byteLength, Nat.add_assoc], hs.append_left hw hp⟩

/-- Every word among the lexemes stands alone in the text. -/
theorem standsAlone_of_mem_lexFrom {offset depth : Nat} {t w : List Char} {l : Lexeme}
    (hl : l ∈ lexFrom false offset depth t) (hk : l.kind = .word w) :
    IsWord w ∧ StandsAlone w t := by
  obtain ⟨hw, n, -, hs⟩ := standsAloneAt_of_mem_lexFrom hl hk
  exact ⟨hw, standsAlone_iff.2 ⟨n, hs⟩⟩

/-- A word that stands alone in a text is a lexeme. -/
theorem word_mem_lexFrom {a w b : List Char} (hw : IsWord w) (ha : endsInWord a = false)
    (hb : beginsWithWord b = false) (offset depth : Nat) :
    ∃ d, ⟨.word w, offset + byteLength a, d⟩ ∈ lexFrom false offset depth (a ++ w ++ b) := by
  rw [List.append_assoc, lexFrom_append (Nesting.after_plain_name _ rfl a) (Or.inl ha),
    lexFrom_append (Nesting.after_plain_name _ rfl w) (Or.inr hb), lexFrom_word hw]
  generalize (Nesting.after false ⟨depth, none⟩ a).depth = d
  exact ⟨d, by simp⟩

/-- A mark of punctuation is a lexeme wherever it stands. -/
theorem punct_mem_lexFrom {c : Char} (hb : isBlank c = false) (hw : isWordChar c = false)
    (a b : List Char) (offset depth : Nat) :
    ∃ d, ⟨.punct c, offset + byteLength a, d⟩ ∈ lexFrom false offset depth (a ++ c :: b) := by
  have hparted : Parted a (c :: b) := Or.inr (by rw [beginsWithWord_cons, hw])
  rw [lexFrom_append (Nesting.after_plain_name _ rfl a) hparted]
  generalize (Nesting.after false ⟨depth, none⟩ a).depth = d
  rw [lexFrom, if_neg (by simp [hb]), if_neg (by simp [hw])]
  exact ⟨if c = ')' then d - 1 else d, by simp⟩

/-- The words among the lexemes are the runs of word characters that stand alone. -/
theorem word_mem_plainLexemes_iff {t w : List Char} :
    (∃ l ∈ plainLexemes t, l.kind = .word w) ↔ IsWord w ∧ StandsAlone w t := by
  constructor
  · intro hlexeme
    obtain ⟨l, hl, hk⟩ := hlexeme
    exact standsAlone_of_mem_lexFrom hl hk
  · intro halone
    obtain ⟨hw, a, b, rfl, ha, hb⟩ := halone
    obtain ⟨d, hmem⟩ := word_mem_lexFrom hw ha hb 0 0
    exact ⟨_, hmem, rfl⟩

/-- A semicolon is a lexeme wherever it stands. -/
theorem semicolon_mem_plainLexemes (a b : List Char) :
    ∃ l ∈ plainLexemes (a ++ ';' :: b), l.kind = .punct ';' ∧ l.offset = byteLength a := by
  obtain ⟨d, hmem⟩ := punct_mem_lexFrom (c := ';') (by decide) (by decide) a b 0 0
  exact ⟨_, hmem, rfl, Nat.zero_add _⟩

end DealSql.Statement
