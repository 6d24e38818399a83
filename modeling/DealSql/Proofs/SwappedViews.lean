import DealSql.Proofs.EnclosedTexts
import DealSql.Proofs.QuietTexts
import DealSql.Proofs.Templates
import DealSql.Proofs.TokenReach

/-!
# Views with a value in the place of a placeholder

A dialect shows a statement with a value as it shows it with the placeholder,
the value in its place, as long as none of its tokens takes what follows: there
are tokens before the place that do not go on with the value, and behind the
place the dialect comes back to tokens that it reads with the placeholder, too.

* `Fits` — how a value can stand at a place.
* `Fits.of_verbatim`, `Fits.of_apart`, `Fits.of_word` — values that are read as
  they stand, between their neighbours, and as a part of a word.
* `Fits.views` — the view of a dialect with the value.
-/

namespace DealSql.Statement

open DealSql.Text DealSql.Review

/-- A number without a sign. -/
def IsNumeral (u : List Char) : Prop := u ≠ [] ∧ ∀ c ∈ u, c.isDigit = true

/-- Code without a signal in the place of other code, which is visible.  No
word around them goes on in either. -/
structure Unobtrusive (z z' : List Char) : Prop where
  visible : ∃ c ∈ z, isBlank c = false
  parted : beginsWithWord z = false ∧ endsInWord z = false
  nonempty : z' ≠ []
  parted' : beginsWithWord z' = false ∧ endsInWord z' = false
  quiet : Quiet z'
  single : ∀ c ∈ z', c ≠ ';'

/-- The code of tokens. -/
def printed (ts : List Token) : List Char := ts.flatMap Token.text

/-- How a dialect can take a value in the place of a placeholder, given the
text before the place and the text behind it. -/
inductive Fits (d : Dialect) (p : Placeholder) (u before rest : List Char) : Prop where
  /-- Some tokens end before the place and do not go on with the value, and the
  text behind the place begins with some that the dialect reads to their end
  with either.  What it reads between them differs in the placeholder and the
  value alone, or the value makes it code without a signal. -/
  | between {steps : List Step} {taken left : List Char} {ts us : List Token}
      (front : steps <+: (reach d before).steps)
      (goes : ∀ x ∈ steps, ∀ b ∈ u.head?, x.token.goesOn b x.left = false)
      (behind : rest = taken ++ left)
      (reads : tokens d (leftAfter before steps ++ (p.display ++ (taken ++ left))) =
        (tokens d left).map (ts ++ ·))
      (reads' : tokens d (leftAfter before steps ++ (u ++ (taken ++ left))) =
        (tokens d left).map (us ++ ·))
      (seam : Swapped p.display u (printed ts) (printed us) ∨
        Unobtrusive (printed ts) (printed us))
  /-- A token is open at the place and holds the value. -/
  | inside
      (goes : ∀ x ∈ (reach d before).steps, ∀ b ∈ u.head?, x.token.goesOn b x.left = false)
      (encloses : Encloses d u (reach d before).begun)
  /-- The dialect can read the statement with neither. -/
  | unread (hdisplay : tokens d (before ++ (p.display ++ rest)) = none)
      (hvalue : tokens d (before ++ (u ++ rest)) = none)

/-- A text that dialects read as it stands, wherever nothing goes on with it. -/
structure IsInsert (u : List Char) : Prop where
  begins : ∃ b r, u = b :: r ∧ b ∈ valueStarts
  closes : ∀ c ∈ u, closesNothing c = true
  reads : ∀ d rest, (IsNumeral u → rest.head?.all endsNumber = true) → Verbatim d u rest

variable {d : Dialect} {p : Placeholder} {b c : Char} {a r s s' u v w z z' rest : List Char}
  {steps : List Step} {ts : List Token}

theorem IsInsert.nonempty (h : IsInsert u) : u ≠ [] := by
  obtain ⟨b, r, rfl, -⟩ := h.begins
  exact List.cons_ne_nil b r

/-- What is open at a place is left open by all tokens before it. -/
theorem reach_open (h : (reach d s).begun = c :: r) (t : Token) (y : List Char) :
    Rule.find d c (r ++ ['\x7b']) ≠ .token t (y ++ ['\x7b']) := by
  have hreach := reach_leftAfter (d := d) (s := s) (List.append_nil _).symm
  rw [leftAfter_reach, h] at hreach
  rcases reach_cons d c r with ⟨t', y', -, -, hstep⟩ | ⟨hnone, -⟩
  · simp [hstep] at hreach
  · exact hnone t y

/-! ## Swapped texts -/

theorem swapped_of_parts (a b : List Char) : Swapped v u (a ++ (v ++ b)) (a ++ (u ++ b)) :=
  Or.inr ⟨a, b, rfl, rfl⟩

/-- What stands before swapped texts does not matter. -/
theorem Swapped.prepend (h : Swapped v u s s') (a : List Char) :
    Swapped v u (a ++ s) (a ++ s') := by
  rcases h with rfl | ⟨x, y, rfl, rfl⟩
  · exact Or.inl rfl
  · exact Or.inr ⟨a ++ x, y, by simp, by simp⟩

/-- What stands behind swapped texts does not matter. -/
theorem Swapped.append (h : Swapped v u s s') (b : List Char) :
    Swapped v u (s ++ b) (s' ++ b) := by
  rcases h with rfl | ⟨x, y, rfl, rfl⟩
  · exact Or.inl rfl
  · exact Or.inr ⟨x, y ++ b, by simp, by simp⟩

/-! ## Codes and views -/

/-- What two fronts are put before. -/
theorem map_append_map {α : Type} (a b : List α) (o : Option (List α)) :
    (o.map (b ++ ·)).map (a ++ ·) = o.map (a ++ b ++ ·) := by
  cases o <;> simp

/-- The code of a text whose first tokens are known. -/
theorem stripComments_of_tokens (h : tokens d s = (tokens d rest).map (ts ++ ·)) :
    stripComments d s = (stripComments d rest).map (printed ts ++ ·) := by
  rw [stripComments, stripComments, h, Option.map_map, Option.map_map]
  congr 1
  funext us
  simp [printed]

/-- The code of a text whose first token is known. -/
theorem stripComments_of_find {t : Token} (h : Rule.find d c s = .token t rest) :
    stripComments d (c :: s) = (stripComments d rest).map (t.text ++ ·) := by
  have hone : tokens d (c :: s) = (tokens d rest).map ([t] ++ ·) := tokens_of_find h
  simpa [printed] using stripComments_of_tokens hone

theorem printed_append (ts us : List Token) :
    printed (ts ++ us) = printed ts ++ printed us := List.flatMap_append

/-- A text that begins malformed has no code. -/
theorem stripComments_of_malformed (h : Rule.find d c s = .malformed) :
    stripComments d (c :: s) = none := by
  rw [stripComments, tokens]
  split
  · next t rest hfind =>
    rw [h] at hfind
    cases hfind
  · rfl

/-- The view of a dialect. -/
def view (d : Dialect) (sql : List Char) : List Char := (stripComments d sql).getD sql

/-- Statements with swapped texts have swapped views when their codes begin with
swapped texts and end alike, or are both missing. -/
theorem swapped_views {o : Option (List Char)} (hz : Swapped v u z z')
    (h : stripComments d (s ++ (v ++ rest)) = o.map (z ++ ·))
    (h' : stripComments d (s ++ (u ++ rest)) = o.map (z' ++ ·)) :
    Swapped v u (view d (s ++ (v ++ rest))) (view d (s ++ (u ++ rest))) := by
  rw [view, view, h, h']
  cases o with
  | none => exact swapped_of_parts s rest
  | some b => exact hz.append b

/-- A placeholder is read as it stands. -/
theorem verbatim_display (p : Placeholder) : Verbatim d p.display rest := by
  have hname : IsName p.name := by
    have hall : ∀ q ∈ Placeholder.all, IsName q.name := by decide
    exact hall p (Placeholder.mem_all p)
  have hopen : Verbatim d ['\x7b'] (p.name ++ ['\x7d'] ++ rest) :=
    verbatim_of_find (s := []) (t := .symbol ['\x7b']) (by cases d <;> rfl) rfl
  have hclose : Verbatim d ['\x7d'] rest :=
    verbatim_of_find (s := []) (t := .symbol ['\x7d']) (by cases d <;> rfl) rfl
  have hword : Verbatim d p.name (['\x7d'] ++ rest) := verbatim_word hname rfl
  exact hopen.append (hword.append hclose)

theorem isInsert_display (p : Placeholder) : IsInsert p.display where
  begins := ⟨'\x7b', _, rfl, by decide⟩
  closes := by
    have hall : ∀ q ∈ Placeholder.all, ∀ c ∈ q.display, closesNothing c = true := by decide
    exact hall p (Placeholder.mem_all p)
  reads _ _ _ := verbatim_display p

/-- Nothing goes on with a placeholder. -/
theorem goesOn_display (p : Placeholder) (x : Step) :
    ∀ b ∈ p.display.head?, x.token.goesOn b x.left = false := by
  intro b hb
  obtain rfl : '\x7b' = b := Option.some.inj hb
  exact Token.goesOn_brace _ _

/-- The tokens of a text behind tokens that do not go on with it. -/
theorem IsInsert.tokens_front (hu : IsInsert u) (hfront : steps <+: (reach d s).steps)
    (hgoes : ∀ x ∈ steps, ∀ b ∈ u.head?, x.token.goesOn b x.left = false) (rest : List Char) :
    tokens d (s ++ (u ++ rest)) =
      (tokens d (leftAfter s steps ++ (u ++ rest))).map (steps.map Step.token ++ ·) := by
  obtain ⟨b, r, rfl, hb⟩ := hu.begins
  exact Statement.tokens_front hfront hb (fun x hx => hgoes x hx b rfl) (r ++ rest)

namespace Fits

/-! ## Values between their neighbours -/

/-- A value that is read as it stands, with what stands behind it up to where the
dialect reads that with the placeholder, too. -/
theorem of_verbatim (taken left : List Char) (ends : (reach d s).begun = [])
    (goes : ∀ x ∈ (reach d s).steps, ∀ b ∈ u.head?, x.token.goesOn b x.left = false)
    (behind : rest = taken ++ left) (reads : Verbatim d taken left)
    (reads' : Verbatim d (u ++ taken) left) : Fits d p u s rest := by
  obtain ⟨ts, hts, hreads⟩ := (verbatim_display p).append reads
  obtain ⟨us, hus, hreads'⟩ := reads'
  have hleft : leftAfter s (reach d s).steps = [] := (leftAfter_reach d s).trans ends
  refine .between (List.prefix_refl _) goes behind (by simpa [hleft] using hreads)
    (by simpa [hleft] using hreads') (Or.inl ?_)
  rw [printed, printed, hts, hus]
  simpa using swapped_of_parts (v := p.display) (u := u) [] taken

/-- **A value between its neighbours**: nothing is open at its place, no token
goes on with it, and a numeral ends there or with the digits behind it. -/
theorem of_apart (hu : IsInsert u) (ends : (reach d s).begun = [])
    (goes : ∀ x ∈ (reach d s).steps, ∀ b ∈ u.head?, x.token.goesOn b x.left = false)
    (free : IsNumeral u → (rest.dropWhile Char.isDigit).head?.all endsNumber = true) :
    Fits d p u s rest := by
  by_cases hnumeral : IsNumeral u
  · have hdigits : ∀ c ∈ rest.takeWhile Char.isDigit, c.isDigit = true :=
      fun c hc => List.mem_takeWhile_imp hc
    refine of_verbatim (rest.takeWhile Char.isDigit) (rest.dropWhile Char.isDigit) ends goes
      List.takeWhile_append_dropWhile.symm ?_ ?_
    · by_cases hempty : rest.takeWhile Char.isDigit = []
      · rw [hempty]
        exact verbatim_nil
      · exact verbatim_digits hempty hdigits (free hnumeral)
    · refine verbatim_digits (List.append_ne_nil_of_left_ne_nil hnumeral.1 _) ?_ (free hnumeral)
      rw [List.forall_mem_append]
      exact ⟨hnumeral.2, hdigits⟩
  · refine of_verbatim [] rest ends goes rfl verbatim_nil ?_
    simpa using hu.reads d rest fun h => absurd h hnumeral

/-- **A numeral that goes on a word**, with what goes on with it behind it. -/
theorem of_word (taken left : List Char) (hu : IsInsert u) (hnumeral : IsNumeral u)
    (ends : (reach d s).begun = []) (last : (reach d s).steps.getLast? = some ⟨.word w, []⟩)
    (goes : ∀ x ∈ (reach d s).steps.dropLast, ∀ b ∈ u.head?, x.token.goesOn b x.left = false)
    (behind : rest = taken ++ left) (reads : Verbatim d taken left)
    (part : ∀ c ∈ taken, isWordPart d c = true) (stops : left.head?.any (isWordPart d) = false) :
    Fits d p u s rest := by
  obtain ⟨b, r, rfl, hb⟩ := hu.begins
  have hsteps : (reach d s).steps = (reach d s).steps.dropLast ++ [⟨.word w, []⟩] :=
    (List.dropLast_append_getLast? _ last).symm
  have hword : ∀ c ∈ b :: (r ++ taken), isWordPart d c = true := by
    rw [← List.cons_append, List.forall_mem_append]
    exact ⟨fun c hc => isWordPart_of_isDigit (hnumeral.2 c hc), part⟩
  have hreach : reach d (leftAfter s (reach d s).steps.dropLast) = ⟨[⟨.word w, []⟩], []⟩ := by
    rw [reach_leftAfter hsteps, ends]
  obtain ⟨ts, hts, hreads⟩ := (verbatim_display p).append reads
  have hfront : tokens d (leftAfter s (reach d s).steps.dropLast ++
      (p.display ++ (taken ++ left))) = (tokens d left).map ([.word w] ++ ts ++ ·) := by
    have hread := (isInsert_display p).tokens_front (List.prefix_refl _)
      (fun x _ => goesOn_display p x) (taken ++ left) (d := d)
      (s := leftAfter s (reach d s).steps.dropLast)
    rw [← List.append_assoc p.display] at hread ⊢
    simp only [hreach, leftAfter, List.nil_append, hreads, map_append_map] at hread
    exact hread
  have hgrown : tokens d (leftAfter s (reach d s).steps.dropLast ++
      (b :: r ++ (taken ++ left))) =
        (tokens d left).map ([.word (w ++ b :: (r ++ taken))] ++ ·) := by
    simpa using tokens_reach_word hword hb hreach stops
  refine .between ⟨_, hsteps.symm⟩ goes behind hfront hgrown (Or.inl ?_)
  have hswapped := swapped_of_parts (v := p.display) (u := b :: r) w taken
  simpa [printed, Token.text, hts] using hswapped

/-! ## The view with a value -/

/-- **The view of a dialect with a value in the place of a placeholder.** -/
theorem views (h : Fits d p u s rest) (hu : IsInsert u) :
    Swapped p.display u (view d (s ++ (p.display ++ rest))) (view d (s ++ (u ++ rest))) ∨
      ∃ a z z' b, Unobtrusive z z' ∧ view d (s ++ (p.display ++ rest)) = a ++ (z ++ b) ∧
        view d (s ++ (u ++ rest)) = a ++ (z' ++ b) := by
  have hv := isInsert_display p
  cases h with
  | @between steps taken left ts us front goes behind reads reads' seam =>
    subst behind
    have hfront := hv.tokens_front front (fun x _ => goesOn_display p x) (taken ++ left)
    have hfront' := hu.tokens_front front goes (taken ++ left)
    rw [reads, map_append_map] at hfront
    rw [reads', map_append_map] at hfront'
    have hcode := stripComments_of_tokens hfront
    have hcode' := stripComments_of_tokens hfront'
    rw [printed_append] at hcode hcode'
    rcases seam with hswapped | hquiet
    · exact Or.inl (swapped_views (hswapped.prepend _) hcode hcode')
    · rw [view, view, hcode, hcode']
      cases stripComments d left with
      | none => exact Or.inl (swapped_of_parts s _)
      | some b =>
        exact Or.inr ⟨_, _, _, b, hquiet, List.append_assoc _ _ _, List.append_assoc _ _ _⟩
  | inside goes encloses =>
    have hall := List.prefix_refl (reach d s).steps
    have hcode := stripComments_of_tokens
      (hv.tokens_front hall (fun x _ => goesOn_display p x) rest)
    have hcode' := stripComments_of_tokens (hu.tokens_front hall goes rest)
    rw [leftAfter_reach] at hcode hcode'
    refine Or.inl ?_
    cases hbegun : (reach d s).begun with
    | nil =>
      rw [hbegun] at encloses
      cases encloses
    | cons c r =>
      rw [hbegun] at encloses hcode hcode'
      have hfree : ∀ e ∈ p.display, e ∉ Rule.closers := by
        have hall : ∀ q ∈ Placeholder.all, ∀ e ∈ q.display, e ∉ Rule.closers := by decide
        exact hall p (Placeholder.mem_all p)
      have htag : ∀ e ∈ p.display.head?, Rule.isTagChar e = false := by
        intro e he
        obtain rfl : '\x7b' = e := Option.some.inj he
        decide
      have hfound := Rule.find_enclosed encloses (reach_open hbegun) hfree hv.nonempty htag
        hu.closes hu.nonempty rest
      rw [List.cons_append] at hcode hcode'
      rcases hfound with ⟨hnone, hnone'⟩ | ⟨t, t', left, hfind, hfind', hswapped⟩
      · rw [stripComments_of_malformed hnone] at hcode
        rw [stripComments_of_malformed hnone'] at hcode'
        exact swapped_views (o := none) (z := []) (Or.inl rfl) hcode hcode'
      · rw [stripComments_of_find hfind, map_append_map] at hcode
        rw [stripComments_of_find hfind', map_append_map] at hcode'
        exact swapped_views (hswapped.prepend _) hcode hcode'
  | unread hdisplay hvalue =>
    refine Or.inl (swapped_views (o := none) (z := []) (Or.inl rfl) ?_ ?_)
    · rw [stripComments, hdisplay]
      rfl
    · rw [stripComments, hvalue]
      rfl

end Fits

end DealSql.Statement
