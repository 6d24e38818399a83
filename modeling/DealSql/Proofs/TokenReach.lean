import DealSql.Proofs.LocalTokens
import DealSql.Proofs.TokenSources

/-!
# How far a dialect reads before a place

The text before a placeholder falls into tokens that end before the place and
the beginning of a token that takes what stands there.  The former are read
whatever stands at the place, unless one of them goes on with it.

* `tokens_front` — the tokens of a text that goes on at a place.
* `tokens_reach_word` — what goes on a word belongs to the word.
-/

namespace DealSql.Statement

open DealSql.Text

/-- A token that ends before a place, and what it leaves of the text there. -/
structure Step where
  token : Token
  left : List Char
  deriving Repr, DecidableEq

/-- What a dialect makes of the text before a place: the tokens that end
there, and the beginning of one that takes what stands at the place. -/
structure Reach where
  steps : List Step
  begun : List Char
  deriving Repr, DecidableEq

/-- What a dialect makes of a text before the brace of a placeholder. -/
def reach (d : Dialect) : List Char → Reach
  | [] => ⟨[], []⟩
  | c :: r =>
    match _h : Rule.find d c (r ++ ['\x7b']) with
    | .token t rest =>
      if rest = [] then ⟨[], c :: r⟩
      else
        let x := reach d rest.dropLast
        ⟨⟨t, rest.dropLast⟩ :: x.steps, x.begun⟩
    | _ => ⟨[], c :: r⟩
termination_by s => s.length
decreasing_by
  have := Rule.find_length _h
  simp only [List.length_append, List.length_dropLast, List.length_cons, List.length_nil] at *
  omega

variable {d : Dialect} {b c : Char} {r s w y z : List Char} {t : Token}

/-- What a token leaves of a text ends as the text does. -/
theorem left_of_find {rest : List Char} (h : Rule.find d c (r ++ [b]) = .token t rest)
    (hne : rest ≠ []) : ∃ y, rest = y ++ [b] := by
  obtain ⟨source, hsource, -⟩ := Rule.find_source h
  have hlast := congrArg List.getLast? hsource
  rw [← List.cons_append, List.getLast?_append, List.getLast?_append,
    List.getLast?_eq_some_getLast hne] at hlast
  exact List.getLast?_eq_some_iff.1 ((List.getLast?_eq_some_getLast hne).trans hlast.symm)

/-- The first token ends before the place. -/
theorem reach_step (h : Rule.find d c (r ++ ['\x7b']) = .token t (y ++ ['\x7b'])) :
    reach d (c :: r) = ⟨⟨t, y⟩ :: (reach d y).steps, (reach d y).begun⟩ := by
  rw [reach]
  split
  · next u rest hfind =>
    rw [h] at hfind
    cases hfind
    simp
  · next hnone => exact absurd h (hnone t _)

/-- No token ends before the place. -/
theorem reach_begun (h : ∀ t y, Rule.find d c (r ++ ['\x7b']) ≠ .token t (y ++ ['\x7b'])) :
    reach d (c :: r) = ⟨[], c :: r⟩ := by
  rw [reach]
  split
  · next t rest hfind =>
    by_cases hrest : rest = []
    · rw [if_pos hrest]
    · obtain ⟨y, rfl⟩ := left_of_find hfind hrest
      exact absurd hfind (h t y)
  · rfl

/-- The first token ends before the place, or none does. -/
theorem reach_cons (d : Dialect) (c : Char) (r : List Char) :
    (∃ t y, Rule.find d c (r ++ ['\x7b']) = .token t (y ++ ['\x7b']) ∧
      y.length < (c :: r).length ∧
      reach d (c :: r) = ⟨⟨t, y⟩ :: (reach d y).steps, (reach d y).begun⟩) ∨
    (∀ t y, Rule.find d c (r ++ ['\x7b']) ≠ .token t (y ++ ['\x7b'])) ∧
      reach d (c :: r) = ⟨[], c :: r⟩ := by
  by_cases hstep : ∃ t y, Rule.find d c (r ++ ['\x7b']) = .token t (y ++ ['\x7b'])
  · obtain ⟨t, y, hfind⟩ := hstep
    have hlength := Rule.find_length hfind
    simp only [List.length_append, List.length_cons, List.length_nil] at hlength
    exact Or.inl ⟨t, y, hfind, by simp only [List.length_cons]; omega, reach_step hfind⟩
  · have hnone : ∀ t y, Rule.find d c (r ++ ['\x7b']) ≠ .token t (y ++ ['\x7b']) :=
      fun t y h => hstep ⟨t, y, h⟩
    exact Or.inr ⟨hnone, reach_begun hnone⟩

/-- What some of the tokens before a place leave of the text there. -/
def leftAfter (s : List Char) : List Step → List Char
  | [] => s
  | x :: xs => leftAfter x.left xs

/-- What they leave is read as it was behind them. -/
theorem reach_leftAfter {steps more : List Step} (h : (reach d s).steps = steps ++ more) :
    reach d (leftAfter s steps) = ⟨more, (reach d s).begun⟩ := by
  induction steps generalizing s with
  | nil =>
    rw [List.nil_append] at h
    rw [leftAfter, ← h]
  | cons x steps ih =>
    cases s with
    | nil => simp [reach] at h
    | cons c r =>
      rcases reach_cons d c r with ⟨t, y, -, -, hstep⟩ | ⟨-, hbegun⟩
      · rw [hstep] at h ⊢
        obtain ⟨rfl, hrest⟩ := List.cons.inj h
        exact ih hrest
      · simp [hbegun] at h

/-- All of them leave what is begun. -/
theorem leftAfter_reach (d : Dialect) (s : List Char) :
    leftAfter s (reach d s).steps = (reach d s).begun := by
  have hreach := reach_leftAfter (d := d) (s := s) (List.append_nil _).symm
  generalize leftAfter s (reach d s).steps = z at hreach
  cases z with
  | nil =>
    rw [reach, Reach.mk.injEq] at hreach
    exact hreach.2
  | cons c r =>
    rcases reach_cons d c r with ⟨t, y, -, -, hstep⟩ | ⟨-, hbegun⟩
    · simp [hstep] at hreach
    · rw [hbegun, Reach.mk.injEq] at hreach
      exact hreach.2

/-- **The tokens of a text that goes on at a place.** The first of those that
end before the place are read first, unless they go on with what stands there. -/
theorem tokens_front {steps : List Step} (hfront : steps <+: (reach d s).steps)
    (hb : b ∈ valueStarts) (hgoes : ∀ x ∈ steps, x.token.goesOn b x.left = false)
    (w : List Char) : tokens d (s ++ b :: w) =
      (tokens d (leftAfter s steps ++ b :: w)).map (steps.map Step.token ++ ·) := by
  induction steps generalizing s with
  | nil => simp [leftAfter]
  | cons x steps ih =>
    obtain ⟨hx, hsteps⟩ := List.forall_mem_cons.1 hgoes
    cases s with
    | nil => simp [reach] at hfront
    | cons c r =>
      rcases reach_cons d c r with ⟨t, y, hfind, -, hstep⟩ | ⟨-, hbegun⟩
      · rw [hstep] at hfront
        obtain ⟨rfl, hprefix⟩ := List.cons_prefix_cons.1 hfront
        rw [List.cons_append, tokens_of_find (Rule.find_local (q := w) hb hx hfind),
          ih hprefix hsteps, Option.map_map]
        rfl
      · simp [hbegun] at hfront

/-! ## Words that go on -/

/-- A run that reaches a place goes on with the characters of the run there. -/
theorem run_grows {p : Char → Bool} {x ds rest : List Char} (hbrace : p '\x7b' = false)
    (hds : ∀ e ∈ ds, p e = true) (hrest : rest.head?.any p = false)
    (h : (x ++ '\x7b' :: z).dropWhile p = '\x7b' :: z) :
    (x ++ (ds ++ rest)).takeWhile p = (x ++ '\x7b' :: z).takeWhile p ++ ds ∧
      (x ++ (ds ++ rest)).dropWhile p = rest := by
  have hx : ∀ e ∈ x, p e = true := by
    rw [← List.dropWhile_eq_nil_iff]
    cases hdrop : x.dropWhile p with
    | nil => rfl
    | cons e v =>
      rw [List.dropWhile_append, hdrop] at h
      have hlength := congrArg List.length h
      simp at hlength
      omega
  have hstop : ∀ e ∈ rest.head?, p e = false := by
    intro e he
    rw [Option.mem_def.1 he] at hrest
    exact hrest
  obtain ⟨htake, hdrop⟩ := run_append_of_stop hds hstop
  rw [List.takeWhile_append_of_pos hx, List.takeWhile_append_of_pos hx,
    List.dropWhile_append_of_pos hx, htake, hdrop]
  simp [hbrace]

namespace Rule

variable {ds rest : List Char}

/-- A word that is made of a run. -/
theorem word_grows (start : List Char) {x : List Char} (hds : ∀ e ∈ ds, isWordPart d e = true)
    (hrest : rest.head?.any (isWordPart d) = false)
    (h : Found.token (.word (start ++ (x ++ '\x7b' :: z).takeWhile (isWordPart d)))
      ((x ++ '\x7b' :: z).dropWhile (isWordPart d)) = .token (.word w) ('\x7b' :: z)) :
    Found.token (.word (start ++ (x ++ (ds ++ rest)).takeWhile (isWordPart d)))
      ((x ++ (ds ++ rest)).dropWhile (isWordPart d)) = .token (.word (w ++ ds)) rest := by
  simp only [Found.token.injEq, Token.word.injEq] at h ⊢
  obtain ⟨htake, hdrop⟩ :=
    run_grows (not_isWordPart_of_mem (by decide) (by decide)) hds hrest h.2
  rw [htake, hdrop, ← List.append_assoc, h.1]
  exact ⟨rfl, rfl⟩

/-- A token that takes the brace leaves less than what begins with it. -/
theorem not_token_of_dropWhile {p : Char → Bool} {u v : Token}
    (h : Found.token u (z.dropWhile p) = .token v ('\x7b' :: z)) : False := by
  simp only [Found.token.injEq] at h
  have hle := length_dropWhile_le p z
  rw [h.2, List.length_cons] at hle
  omega

theorem markedWord_grows (hds : ∀ e ∈ ds, isWordPart d e = true)
    (hrest : rest.head?.any (isWordPart d) = false)
    (h : readMarkedWord d c (r ++ '\x7b' :: z) = .token (.word w) ('\x7b' :: z)) :
    readMarkedWord d c (r ++ (ds ++ rest)) = .token (.word (w ++ ds)) rest := by
  by_cases hd : d = .tsql
  · subst hd
    by_cases hhash : c = '#'
    · subst hhash
      cases r with
      | nil => exact (not_token_of_dropWhile h).elim
      | cons e x =>
        rw [List.cons_append, readMarkedWord_hash] at h ⊢
        split at h
        · cases h
        · next hother =>
          rw [if_neg hother]
          exact word_grows _ hds hrest h
    by_cases hat : c = '@'
    · subst hat
      cases r with
      | nil => exact (not_token_of_dropWhile h).elim
      | cons e x =>
        by_cases he : e = '@'
        · subst he
          cases x with
          | nil => exact (not_token_of_dropWhile h).elim
          | cons f x =>
            rw [List.cons_append, List.cons_append, readMarkedWord_atAt] at h ⊢
            split at h
            · cases h
            · next hother =>
              rw [if_neg hother]
              exact word_grows _ hds hrest h
        · rw [List.cons_append, readMarkedWord_at he] at h ⊢
          split at h
          · cases h
          · next hother =>
            rw [if_neg hother]
            exact word_grows _ hds hrest h
    · rw [readMarkedWord_other hhash hat] at h
      cases h
  · simp only [readMarkedWord, ne_eq, hd, not_false_eq_true, if_true] at h
    cases h

/-- What reads a word before a place reads with it what belongs to the word. -/
theorem read_grows {rule : Rule} (hrule : rule ∈ all) (hds : ∀ e ∈ ds, isWordPart d e = true)
    (hrest : rest.head?.any (isWordPart d) = false)
    (h : rule.read d c (r ++ '\x7b' :: z) = .token (.word w) ('\x7b' :: z)) :
    rule.read d c (r ++ (ds ++ rest)) = .token (.word (w ++ ds)) rest := by
  simp only [all, List.mem_cons, List.not_mem_nil, or_false] at hrule
  rcases hrule with rfl | rfl | rfl | rfl | rfl | rfl | rfl | rfl | rfl | rfl
  · simp only [blank, readBlank] at h
    repeat' split at h
    all_goals cases h
  · simp only [string, readString, Found.ofReading] at h
    repeat' split at h
    all_goals cases h
  · simp only [name, readName, Found.ofReading] at h
    repeat' split at h
    all_goals cases h
  · simp only [number, readNumber] at h
    repeat' split at h
    all_goals cases h
  · simp only [comment, readComment] at h
    repeat' split at h
    all_goals cases h
  · exact markedWord_grows hds hrest h
  · simp only [question, readQuestion] at h
    repeat' split at h
    all_goals cases h
  · simp only [operator, readOperator] at h
    repeat' split at h
    all_goals cases h
  · simp only [word, readWord] at h ⊢
    split at h
    · next hstart =>
      rw [if_pos hstart]
      exact word_grows [c] hds hrest h
    · cases h
  · simp only [dollar, readDollar, Found.ofReading] at h
    repeat' split at h
    all_goals cases h

/-- What goes on a word is read with it. -/
theorem find_grows (hds : ∀ e ∈ b :: ds, isWordPart d e = true) (hb : b ∈ valueStarts)
    (hrest : rest.head?.any (isWordPart d) = false)
    (h : find d c (r ++ '\x7b' :: z) = .token (.word w) ('\x7b' :: z)) :
    find d c (r ++ (b :: ds ++ rest)) = .token (.word (w ++ b :: ds)) rest := by
  have hquote : b ≠ '"' := by
    rintro rfl
    exact absurd (hds _ List.mem_cons_self) (by cases d <;> decide)
  -- what does not apply before the brace does not apply before the word's characters
  have hpass : ∀ rule ∈ all, rule.read d c (r ++ '\x7b' :: z) = .pass →
      rule.read d c (r ++ (b :: ds ++ rest)) = .pass := fun rule hrule =>
    (agrees_all (t := .comment) (y := []) hb rfl (fun _ _ _ => hquote) rule hrule).pass
  have hgrows : ∀ rule ∈ all, rule.read d c (r ++ '\x7b' :: z) = .token (.word w) ('\x7b' :: z) →
      rule.read d c (r ++ (b :: ds ++ rest)) = .token (.word (w ++ b :: ds)) rest :=
    fun rule hrule => read_grows hrule hds hrest
  unfold find at h ⊢
  generalize all = rules at hpass hgrows h ⊢
  induction rules with
  | nil =>
    simp only [List.foldr_nil, other] at h
    split at h <;> cases h
  | cons rule rules ih =>
    obtain ⟨hpass, hpasses⟩ := List.forall_mem_cons.1 hpass
    obtain ⟨hgrows, hgrow⟩ := List.forall_mem_cons.1 hgrows
    rw [List.foldr_cons] at h ⊢
    cases hread : rule.read d c (r ++ '\x7b' :: z) with
    | pass =>
      rw [hread] at h
      rw [hpass hread]
      exact ih hpasses hgrow h
    | malformed =>
      rw [hread] at h
      cases h
    | token t left =>
      rw [hread] at h
      rw [hgrows (by rw [hread]; exact h)]
      rfl

end Rule

/-- **What goes on a word belongs to the word.** -/
theorem tokens_reach_word {ds rest : List Char} (hds : ∀ e ∈ b :: ds, isWordPart d e = true)
    (hb : b ∈ valueStarts) (hreach : reach d s = ⟨[⟨.word w, []⟩], []⟩)
    (hrest : rest.head?.any (isWordPart d) = false) :
    tokens d (s ++ (b :: ds ++ rest)) = (tokens d rest).map ([.word (w ++ b :: ds)] ++ ·) := by
  cases s with
  | nil => simp [reach] at hreach
  | cons c r =>
    rcases reach_cons d c r with ⟨t, y, hfind, -, hstep⟩ | ⟨-, hbegun⟩
    · rw [hstep] at hreach
      obtain ⟨⟨rfl, rfl⟩, -⟩ : (t = .word w ∧ y = []) ∧ _ := by
        simpa using (Reach.mk.inj hreach).1
      have hread : Rule.find d c (r ++ (b :: ds ++ rest)) = .token (.word (w ++ b :: ds)) rest :=
        Rule.find_grows hds hb hrest hfind
      rw [List.cons_append, tokens_of_find hread]
      rfl
    · simp [hbegun] at hreach

end DealSql.Statement
