import DealSql.Proofs.TransparentTexts

/-!
# Texts with alike lexemes

Two masked texts are alike when they differ only in how many blanks stand
between the quotes of their literals.  Their lexemes then have the same
kinds and depths.  The other way round, lexemes of the same kinds weigh the
same, where the weight of a text counts the characters that its lexemes are
made of, one by one.

* `Alike.outline_eq` — alike texts have the same outline.
* `weight_lexFrom` — the weight of the lexemes is that of the text.
-/

namespace DealSql.Statement

open DealSql.Text

/-- The kinds and depths of lexemes. -/
def outline (ls : List Lexeme) : List (Lexeme.Kind × Nat) := ls.map fun l => (l.kind, l.depth)

@[simp] theorem outline_cons (l : Lexeme) (ls : List Lexeme) :
    outline (l :: ls) = (l.kind, l.depth) :: outline ls := rfl

@[simp] theorem outline_append (ls ms : List Lexeme) :
    outline (ls ++ ms) = outline ls ++ outline ms := List.map_append

/-- Two texts that differ only in the blanks inside their literals, read from
a nesting; a literal stands in no open name. -/
inductive Alike : Nesting → List Char → List Char → Prop
  | same (n : Nesting) (s : List Char) : Alike n s s
  | literal {n : Nesting} (s : List Char) {b b' r r' : List Char}
      (hname : (n.after true s).name = none) (hb : ∀ c ∈ b, isBlank c = true)
      (hb' : ∀ c ∈ b', isBlank c = true) (h : Alike (n.after true s) r r') :
      Alike n (s ++ ('\'' :: b ++ '\'' :: r)) (s ++ ('\'' :: b' ++ '\'' :: r'))

variable {n : Nesting} {a a' b b' : List Char}

/-- A literal changes nothing for what follows it. -/
theorem Nesting.after_literal (hname : n.name = none) (hb : ∀ c ∈ b, isBlank c = true)
    (r : List Char) : n.after true ('\'' :: b ++ '\'' :: r) = n.after true r := by
  have hquote : n.step true '\'' = n := Nesting.step_of_plain hname rfl (by decide) (by decide)
  rw [List.cons_append, Nesting.after_cons, hquote, Nesting.after_append,
    Nesting.after_of_isBlank (Or.inl hname) hb, Nesting.after_cons, hquote]

/-- A common front part makes no difference. -/
theorem Alike.append_same (s : List Char) (h : Alike (n.after true s) b b') :
    Alike n (s ++ b) (s ++ b') := by
  generalize hm : n.after true s = m at h
  cases h with
  | same => exact .same n _
  | literal t hname hb hb' h =>
    subst hm
    rw [← Nesting.after_append] at hname h
    have hliteral := Alike.literal (s ++ t) hname hb hb' h
    simpa using hliteral

/-- Alike texts side by side are alike. -/
theorem Alike.append (h : Alike n a a') (h' : Alike (n.after true a) b b') :
    Alike n (a ++ b) (a' ++ b') := by
  induction h with
  | same n s => exact h'.append_same s
  | literal s hname hb hb' h ih =>
    rw [Nesting.after_append, Nesting.after_literal hname hb] at h'
    have hliteral := Alike.literal s hname hb hb' (ih h')
    simpa using hliteral

/-! ## Outlines -/

/-- Blanks have no lexemes. -/
theorem lexFrom_blanks {names : Bool} {offset depth : Nat} (hb : ∀ c ∈ b, isBlank c = true)
    (r : List Char) : lexFrom names offset depth (b ++ r) =
      lexFrom names (offset + byteLength b) depth r := by
  induction b generalizing offset with
  | nil => rfl
  | cons c b ih =>
    rw [List.cons_append, lexFrom, if_pos (hb c List.mem_cons_self),
      ih fun d hd => hb d (List.mem_cons_of_mem _ hd)]
    simp only [byteLength, Nat.add_assoc]

/-- A literal is two quotes. -/
theorem lexFrom_literal (offset depth : Nat) (hb : ∀ c ∈ b, isBlank c = true)
    (r : List Char) : ∃ offset', lexFrom true offset depth ('\'' :: b ++ '\'' :: r) =
      ⟨.punct '\'', offset, depth⟩ :: ⟨.punct '\'', offset + 1 + byteLength b, depth⟩ ::
        lexFrom true offset' depth r := by
  have hblank : ¬ isBlank '\'' = true := by decide
  have hword : ¬ isWordChar '\'' = true := by decide
  have hquote : ∀ offset t, lexFrom true offset depth ('\'' :: t) =
      ⟨.punct '\'', offset, depth⟩ :: lexFrom true (offset + 1) depth t := by
    intro offset t
    rw [lexFrom, if_neg hblank, if_neg hword]
    rfl
  exact ⟨_, by rw [List.cons_append, hquote, lexFrom_blanks hb, hquote]⟩

/-- The outline does not depend on where a text begins. -/
theorem outline_offset (names : Bool) (offset offset' depth : Nat) (s : List Char) :
    outline (lexFrom names offset depth s) = outline (lexFrom names offset' depth s) := by
  fun_induction lexFrom names offset depth s generalizing offset' with
  | case1 => simp [lexFrom]
  | case2 offset depth c r hc ih =>
    rw [ih (offset' + c.utf8Size), lexFrom, if_pos hc]
  | case3 offset depth c r hb hc w ih =>
    rw [lexFrom, if_neg hb, if_pos hc]
    simp only [outline_cons, w, ih (offset' + byteLength w)]
  | case4 offset depth c r hb hc stop hs inner ih =>
    rw [dite_eq_ite] at hs
    rw [lexFrom, if_neg hb, if_neg hc]
    simp only [hs, outline_cons, inner, ih (offset' + byteLength inner + 2)]
  | case5 offset depth c r hb hc hs outside ih =>
    simp only [dite_eq_ite] at hs ih outside
    rw [lexFrom, if_neg hb, if_neg hc]
    have houtside : (if c = ')' then depth - 1 else depth) = outside := by simp [outside]
    simp only [hs, houtside, outline_cons, ih (offset' + c.utf8Size)]

/-- **Alike texts have the same outline.** -/
theorem Alike.outline_eq (h : Alike n a a') (hn : n.name = none) (offset offset' : Nat) :
    outline (lexFrom true offset n.depth a) = outline (lexFrom true offset' n.depth a') := by
  induction h generalizing offset offset' with
  | same n s => exact outline_offset true offset offset' n.depth s
  | @literal n s b b' r r' hname hb hb' h ih =>
    obtain ⟨depth, name⟩ := n
    subst hn
    have hparted : ∀ t, Parted s ('\'' :: t) := by
      intro t
      refine Or.inr ?_
      rw [beginsWithWord_cons]
      decide
    rw [List.cons_append, List.cons_append, lexFrom_append hname (hparted _),
      lexFrom_append hname (hparted _), outline_append, outline_append,
      outline_offset true offset offset' depth s]
    obtain ⟨o, ho⟩ := lexFrom_literal (offset + byteLength s)
      (Nesting.after true ⟨depth, none⟩ s).depth hb r
    obtain ⟨o', ho'⟩ := lexFrom_literal (offset' + byteLength s)
      (Nesting.after true ⟨depth, none⟩ s).depth hb' r'
    rw [List.cons_append] at ho ho'
    rw [ho, ho']
    simp only [outline_cons, ih hname o o']

/-! ## Weights -/

/-- The number of characters that a lexeme is made of, without the marks
around a name. -/
def Lexeme.Kind.weight : Lexeme.Kind → Nat
  | .word w => w.length
  | .punct _ => 1

/-- The number of characters that an outline is made of. -/
def outlineWeight : List (Lexeme.Kind × Nat) → Nat
  | [] => 0
  | x :: o => x.1.weight + outlineWeight o

namespace Nesting

/-- What a character adds to the lexemes: nothing if it is a blank outside of
names, or a mark that opens or closes one. -/
def charWeight (n : Nesting) (c : Char) : Nat :=
  match n.name with
  | some stop => if c = stop then 0 else 1
  | none => if isBlank c || (closing? c).isSome then 0 else 1

/-- The number of characters of a text that its lexemes are made of. -/
def weight (n : Nesting) : List Char → Nat
  | [] => 0
  | c :: r => n.charWeight c + (n.step true c).weight r

theorem weight_append (n : Nesting) (a b : List Char) :
    n.weight (a ++ b) = n.weight a + (n.after true a).weight b := by
  induction a generalizing n with
  | nil => simp [weight]
  | cons c r ih => simp [weight, ih, Nat.add_assoc]

/-- The parentheses around a text make no difference to its weight. -/
theorem weight_eq {n m : Nesting} (h : n.name = m.name) (s : List Char) :
    n.weight s = m.weight s := by
  induction s generalizing n m with
  | nil => rfl
  | cons c r ih => rw [weight, weight, charWeight, charWeight, h, ih (step_name_eq h c)]

/-- All characters of a word count. -/
theorem weight_of_isWordChar {depth : Nat} {w : List Char}
    (hw : ∀ c ∈ w, isWordChar c = true) : weight ⟨depth, none⟩ w = w.length := by
  induction w with
  | nil => rfl
  | cons c r ih =>
    have hc := hw c List.mem_cons_self
    have hblank : isBlank c = false := by
      cases hb : isBlank c with
      | false => rfl
      | true => simp [isWordChar_of_isBlank hb] at hc
    rw [weight, step_of_isWordChar rfl hc, ih fun d hd => hw d (List.mem_cons_of_mem _ hd)]
    simp [charWeight, hblank, closing?_of_isWordChar hc, Nat.add_comm]

/-- All characters of an open name count up to its closing mark. -/
theorem weight_of_open (depth : Nat) (stop : Char) (r : List Char) :
    weight ⟨depth, some stop⟩ r = (r.takeWhile (· != stop)).length +
      weight ⟨depth, none⟩ (afterFirst stop r) := by
  induction r with
  | nil => rfl
  | cons c r ih =>
    by_cases hc : c = stop
    · simp [weight, charWeight, step, afterFirst, hc]
    · have hfirst : afterFirst stop (c :: r) = afterFirst stop r := by simp [afterFirst, hc]
      rw [hfirst, weight]
      simp only [step, hc, if_false, ih, charWeight]
      simp [hc]
      omega

end Nesting

/-- **The weight of the lexemes** is that of the text. -/
theorem weight_lexFrom (offset depth : Nat) (s : List Char) :
    outlineWeight (outline (lexFrom true offset depth s)) = Nesting.weight ⟨depth, none⟩ s := by
  fun_induction lexFrom true offset depth s with
  | case1 => rfl
  | case2 offset depth c r hc ih =>
    rw [ih, Nesting.weight, Nesting.step_of_isBlank rfl hc]
    simp [Nesting.charWeight, hc]
  | case3 offset depth c r hb hc w ih =>
    have hword : ∀ d ∈ w, isWordChar d = true := isWordChar_of_mem_run hc r
    have hcut : c :: r = w ++ r.dropWhile isWordChar := by simp [w]
    rw [hcut, Nesting.weight_append, Nesting.weight_of_isWordChar hword,
      Nesting.after_of_isWordChar rfl hword, ← ih]
    rfl
  | case4 offset depth c r hb hc stop hs inner ih =>
    rw [dite_eq_ite] at hs
    rw [Nesting.weight, Nesting.step_of_opening hs, Nesting.weight_of_open, ← ih]
    rw [if_pos rfl] at hs
    simp [Nesting.charWeight, hs, outlineWeight, Lexeme.Kind.weight, inner]
  | case5 offset depth c r hb hc hs outside ih =>
    rw [dite_eq_ite] at hs
    simp only [dite_eq_ite] at ih outside
    have houtside : outside = if c = ')' then depth - 1 else depth := by simp [outside]
    rw [Nesting.weight, Nesting.step_of_mark hs houtside, ← ih]
    rw [if_pos rfl] at hs
    simp [Nesting.charWeight, hs, hb, outlineWeight, Lexeme.Kind.weight]

end DealSql.Statement
