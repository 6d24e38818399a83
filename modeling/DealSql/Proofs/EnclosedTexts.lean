import DealSql.Proofs.LocalTokens

/-!
# Texts inside a token

A string, a quoted name or a comment that is open at a place holds whatever
stands there, as long as nothing in it closes what is open.  In a string with
escapes, an escape before the place must also be complete, and in a string
between tags the text must not look like the end of the tag.

* `Encloses` — a token is open at a place and holds a text there.
* `find_enclosed` — what is found with one such text and with another.
-/

namespace DealSql.Statement

open DealSql.Text DealSql.Statement.Strings

/-- Two texts that are the same, but that the second may have another part
where the first has a certain one. -/
def Swapped (u u' s s' : List Char) : Prop :=
  s = s' ∨ ∃ a b, s = a ++ (u ++ b) ∧ s' = a ++ (u' ++ b)

/-- Whether a character closes no comment and no string between dollar signs,
and begins no escape. -/
def closesNothing (c : Char) : Bool := !"\\$*/\n".toList.contains c

variable {b c stop last : Char} {n : Nat} {a t u v w x z tag : List Char}

/-- A reader that takes a text at a place into what it reads, once it has read
what stands before; or it cannot read what stands before. -/
def TakesIn (P : List Char → Prop) (f g : List Char → Reading (List Char)) (x : List Char) : Prop :=
  (∀ u w, P u → f (x ++ (u ++ w)) = none) ∨
    ∃ a, ∀ u w, P u → f (x ++ (u ++ w)) = (g w).map fun y => (a ++ (u ++ y.1), y.2)

namespace TakesIn

variable {P : List Char → Prop} {f f' g : List Char → Reading (List Char)}

/-- What is read before the rest. -/
theorem front' {y : List Char} (h : TakesIn P f g x) (front : List Char)
    (hread : ∀ u w, P u →
      f' (y ++ (u ++ w)) = (f (x ++ (u ++ w))).map fun z => (front ++ z.1, z.2)) :
    TakesIn P f' g y := by
  rcases h with hnone | ⟨a, ha⟩
  · refine Or.inl fun u w hu => ?_
    rw [hread u w hu, hnone u w hu]
    rfl
  · refine Or.inr ⟨front ++ a, fun u w hu => ?_⟩
    rw [hread u w hu, ha u w hu, Option.map_map]
    simp [Function.comp_def]

/-- What is read before the rest, whatever follows. -/
theorem front {y : List Char} (h : TakesIn P f g x) (front : List Char)
    (hread : ∀ w, f' (y ++ w) = (f (x ++ w)).map fun z => (front ++ z.1, z.2)) :
    TakesIn P f' g y :=
  h.front' front fun u w _ => hread (u ++ w)

/-- What is taken in when less is asked of a text. -/
theorem mono {Q : List Char → Prop} (h : TakesIn P f g x) (hPQ : ∀ u, Q u → P u) :
    TakesIn Q f g x :=
  h.imp (fun hnone u w hu => hnone u w (hPQ u hu))
    fun ⟨a, ha⟩ => ⟨a, fun u w hu => ha u w (hPQ u hu)⟩

end TakesIn

/-! ## Quoted texts -/

/-- A text without the closing mark is taken in. -/
theorem closeQuoted_append (hu : stop ∉ u) (w : List Char) :
    closeQuoted stop (u ++ w) = (closeQuoted stop w).map fun y => (u ++ y.1, y.2) := by
  induction u with
  | nil => simp
  | cons c u ih =>
    have hc : c ≠ stop := fun h => hu (h ▸ List.mem_cons_self)
    rw [List.cons_append, closeQuoted.eq_def]
    simp [hc, ih (fun h => hu (List.mem_cons_of_mem _ h)), Function.comp_def]

/-- A quoted text that is open at a place. -/
theorem closeQuoted_open (hb : b ≠ stop)
    (h : ∀ t y, closeQuoted stop (x ++ [b]) ≠ some (t, y ++ [b])) :
    TakesIn (stop ∉ ·) (closeQuoted stop) (closeQuoted stop) x := by
  induction hn : x.length using Nat.strong_induction_on generalizing x with
  | _ n ih =>
    cases x with
    | nil => exact Or.inr ⟨[], fun u w hu => closeQuoted_append hu w⟩
    | cons c x =>
      by_cases hc : c = stop
      · subst hc
        cases x with
        | nil => exact absurd (by simp [closeQuoted, hb]) (h [] [])
        | cons e x =>
          by_cases he : e = c
          · subst he
            have hread : ∀ w, closeQuoted e (e :: e :: x ++ w) =
                (closeQuoted e (x ++ w)).map fun y => ([e] ++ y.1, y.2) := by
              intro w
              rw [List.cons_append, List.cons_append, closeQuoted.eq_def]
              simp
            refine (ih x.length ?_ (fun t y hy => ?_) rfl).front [e] hread
            · simp only [← hn, List.length_cons]
              omega
            · exact h (e :: t) y (by rw [hread, hy]; rfl)
          · exact absurd (by simp [closeQuoted, he]) (h [] (e :: x))
      · have hread : ∀ w, closeQuoted stop (c :: x ++ w) =
            (closeQuoted stop (x ++ w)).map fun y => ([c] ++ y.1, y.2) := by
          intro w
          rw [List.cons_append, closeQuoted.eq_def]
          simp [hc]
        refine (ih x.length ?_ (fun t y hy => ?_) rfl).front [c] hread
        · simp only [← hn, List.length_cons]
          omega
        · exact h (c :: t) y (by rw [hread, hy]; rfl)

/-! ## Strings with escapes -/

/-- How many characters an escape takes at most. -/
def longestEscape : Nat := 10

/-- Whether no escape can begin before the end of a text and end behind it. -/
def EndsOutsideEscape (x : List Char) : Prop := '\\' ∉ x.reverse.take longestEscape

instance (x : List Char) : Decidable (EndsOutsideEscape x) :=
  inferInstanceAs (Decidable ('\\' ∉ x.reverse.take longestEscape))

theorem EndsOutsideEscape.of_suffix (h : EndsOutsideEscape x) (hy : w <:+ x) :
    EndsOutsideEscape w := by
  intro hmem
  have hfront : w.reverse.take longestEscape <+: x.reverse.take longestEscape :=
    List.prefix_take_iff.2
      ⟨(List.take_prefix _ _).trans (List.reverse_prefix.2 hy), List.length_take_le _ _⟩
  exact h (hfront.mem hmem)

/-- A backslash is followed by all that its escape can take. -/
theorem EndsOutsideEscape.length_le (h : EndsOutsideEscape ('\\' :: x)) :
    longestEscape ≤ x.length := by
  by_contra hlt
  refine h ?_
  rw [List.take_of_length_le (by rw [List.length_reverse, List.length_cons]; omega)]
  simp

/-- Whether the escapes of a rule end within the longest. -/
def IsBounded (rule : EscapeRule) : Prop := ∀ x w, longestEscape ≤ x.length →
  rule.read (x ++ w) = (rule.read x).map fun y => (y.1, y.2 ++ w)

theorem codePoint_append {digits : List Char → List Char} (hn : n ≤ x.length) (w : List Char) :
    codePoint n digits (x ++ w) = (codePoint n digits x).map fun y => (y.1, y.2 ++ w) := by
  have hlong : n ≤ (x ++ w).length := by
    rw [List.length_append]
    omega
  rw [codePoint, codePoint, if_pos hn, if_pos hlong, List.take_append_of_le_length hn,
    List.drop_append_of_le_length hn, Option.map_map]
  rfl

theorem upToTwo_append {p : Char → Bool} (hn : 2 ≤ x.length) (w : List Char) :
    upToTwo p (x ++ w) = upToTwo p x ∧ (upToTwo p x).length ≤ x.length := by
  constructor
  · rw [upToTwo, upToTwo, List.take_append_of_le_length hn]
  · exact ((List.takeWhile_prefix p).length_le).trans (List.length_take_le' 2 x)

theorem isBounded_nationalEscapes : IsBounded nationalEscapes := by
  intro x w hx
  cases x with
  | nil => simp [longestEscape] at hx
  | cons c x => rfl

theorem isBounded_unicodeEscapes : IsBounded unicodeEscapes := by
  intro x w hx
  cases x with
  | nil => simp [longestEscape] at hx
  | cons c x =>
    simp only [longestEscape, List.length_cons] at hx
    change unicodeEscape (c :: x ++ w) = (unicodeEscape (c :: x)).map _
    rw [List.cons_append, unicodeEscape_cons, unicodeEscape_cons]
    split
    · rfl
    split
    · exact codePoint_append (by omega) w
    · exact codePoint_append (x := c :: x) (by rw [List.length_cons]; omega) w

/-- What is left does not decide whether a character is kept. -/
theorem filter_left (p : Char → Bool) (o : Reading Char) (w : List Char) :
    (o.map fun y => (y.1, y.2 ++ w)).filter (fun y => p y.1) =
      (o.filter fun y => p y.1).map fun y => (y.1, y.2 ++ w) := by
  cases o with
  | none => rfl
  | some y => by_cases hp : p y.1 <;> simp [Option.filter, hp]

/-- The digits of an escape. -/
theorem digits_append_left {p : Char → Bool} {f : List Char → Option Char} (hn : 2 ≤ x.length)
    (w : List Char) :
    (f (upToTwo p (x ++ w))).map (·, (x ++ w).drop (upToTwo p (x ++ w)).length) =
      ((f (upToTwo p x)).map (·, x.drop (upToTwo p x).length)).map fun y => (y.1, y.2 ++ w) := by
  obtain ⟨hsame, hle⟩ := upToTwo_append (p := p) hn w
  rw [hsame, List.drop_append_of_le_length hle, Option.map_map]
  rfl

theorem isBounded_byteEscapes : IsBounded byteEscapes := by
  intro x w hx
  cases x with
  | nil => simp [longestEscape] at hx
  | cons c x =>
    simp only [longestEscape, List.length_cons] at hx
    change byteEscape (c :: x ++ w) = (byteEscape (c :: x)).map _
    rw [List.cons_append, byteEscape, byteEscape]
    dsimp only
    rw [← filter_left (· != '\x00')]
    congr 1
    split
    · rfl
    by_cases hu : c = 'u'
    · rw [if_pos hu, if_pos hu]
      exact codePoint_append (by omega) w
    rw [if_neg hu, if_neg hu]
    by_cases hU : c = 'U'
    · rw [if_pos hU, if_pos hU]
      exact codePoint_append (by omega) w
    rw [if_neg hU, if_neg hU]
    by_cases hx : c = 'x'
    · obtain ⟨hsame, -⟩ := upToTwo_append (p := isHex) (x := x) (by omega) w
      rw [if_pos hx, if_pos hx, hsame]
      split
      · rfl
      · have hdigits := digits_append_left (p := isHex)
          (f := fun ds => (hexValue? ds).bind byteChar?) (x := x) (by omega) w
        rwa [hsame] at hdigits
    rw [if_neg hx, if_neg hx]
    by_cases hoctal : isOctal c
    · rw [if_pos hoctal, if_pos hoctal]
      exact digits_append_left (f := fun ds => byteChar? (octalValue (c :: ds))) (by omega) w
    · rw [if_neg hoctal, if_neg hoctal]
      rfl

/-- A text without quotes and backslashes is taken in. -/
theorem closeEscaped_append {rule : EscapeRule} (hu : '\'' ∉ u ∧ '\\' ∉ u) (w : List Char) :
    closeEscaped rule (u ++ w) = (closeEscaped rule w).map fun y => (u ++ y.1, y.2) := by
  induction u with
  | nil => simp
  | cons c u ih =>
    simp only [List.mem_cons, not_or] at hu
    rw [List.cons_append, closeEscaped_plain (Ne.symm hu.1.1) (Ne.symm hu.2.1),
      ih ⟨hu.1.2, hu.2.2⟩, push, Option.map_map]
    rfl

/-- A string with escapes that is open at a place. -/
theorem closeEscaped_open {rule : EscapeRule} (hrule : IsBounded rule) (hlocal : IsLocal rule)
    (hb : b ≠ '\'') (hx : EndsOutsideEscape x)
    (h : ∀ t y, closeEscaped rule (x ++ [b]) ≠ some (t, y ++ [b])) :
    TakesIn (fun u => '\'' ∉ u ∧ '\\' ∉ u) (closeEscaped rule) (closeEscaped rule) x := by
  induction hn : x.length using Nat.strong_induction_on generalizing x with
  | _ n ih =>
    cases x with
    | nil => exact Or.inr ⟨[], fun u w hu => closeEscaped_append hu w⟩
    | cons c x =>
      have hrest : EndsOutsideEscape x := hx.of_suffix (List.suffix_cons c x)
      by_cases hc : c = '\''
      · subst hc
        cases x with
        | nil => exact absurd (closeEscaped_closed (by simpa using hb)) (h [] [])
        | cons e x =>
          by_cases he : e = '\''
          · subst he
            have hread : ∀ w, closeEscaped rule ('\'' :: '\'' :: x ++ w) =
                push '\'' (closeEscaped rule (x ++ w)) := fun w => closeEscaped_doubled
            refine (ih x.length ?_ (hrest.of_suffix (List.suffix_cons _ x)) (fun t y hy => ?_)
              rfl).front ['\''] hread
            · simp only [← hn, List.length_cons]
              omega
            · exact h ('\'' :: t) y (by rw [hread, hy]; rfl)
          · exact absurd (closeEscaped_closed (by simpa using he)) (h [] (e :: x))
      by_cases hslash : c = '\\'
      · subst hslash
        -- the escape ends before the place, so it is read the same whatever follows
        have hlong := hx.length_le
        cases hescape : rule.read x with
        | none =>
          have hnone : ∀ w, rule.read (x ++ w) = none := by
            intro w
            rw [hrule _ _ hlong, hescape]
            rfl
          exact Or.inl fun u w _ => closeEscaped_malformed (hnone (u ++ w))
        | some e =>
          have hsome : ∀ w, rule.read (x ++ w) = some (e.1, e.2 ++ w) := by
            intro w
            rw [hrule _ _ hlong, hescape]
            rfl
          have hread : ∀ w, closeEscaped rule ('\\' :: x ++ w) =
              push e.1 (closeEscaped rule (e.2 ++ w)) := fun w => closeEscaped_escape (hsome w)
          have hsuffix : e.2 <:+ x := hlocal.suffix hescape
          refine (ih e.2.length ?_ (hrest.of_suffix hsuffix) (fun t y hy => ?_) rfl).front [e.1]
            hread
          · have hle := hsuffix.length_le
            simp only [← hn, List.length_cons]
            omega
          · exact h (e.1 :: t) y (by rw [hread, hy]; rfl)
      · have hread : ∀ w, closeEscaped rule (c :: x ++ w) = push c (closeEscaped rule (x ++ w)) :=
          fun w => closeEscaped_plain hc hslash
        refine (ih x.length ?_ hrest (fun t y hy => ?_) rfl).front [c] hread
        · simp only [← hn, List.length_cons]
          omega
        · exact h (c :: t) y (by rw [hread, hy]; rfl)

/-! ## Strings between dollar signs -/

/-- A text without dollar signs is taken in. -/
theorem dollarPlain_append (hu : '$' ∉ u) (w : List Char) :
    dollarPlain false (u ++ w) = (dollarPlain false w).map fun y => (u ++ y.1, y.2) := by
  induction u with
  | nil => simp
  | cons c u ih =>
    simp only [List.mem_cons, not_or] at hu
    rw [List.cons_append, dollarPlain]
    simp [Ne.symm hu.1, ih hu.2, push, Function.comp_def]

/-- A string between dollar signs that is open at a place. -/
theorem dollarPlain_open (afterDollar : Bool)
    (h : ∀ t y, dollarPlain afterDollar (x ++ [b]) ≠ some (t, y ++ [b])) :
    TakesIn (fun u => '$' ∉ u ∧ u ≠ []) (dollarPlain afterDollar) (dollarPlain false) x := by
  induction x generalizing afterDollar with
  | nil =>
    cases afterDollar with
    | false => exact Or.inr ⟨[], fun u w hu => dollarPlain_append hu.1 w⟩
    | true =>
      refine Or.inr ⟨['$'], fun u w hu => ?_⟩
      cases u with
      | nil => exact absurd rfl hu.2
      | cons e u =>
        obtain ⟨he, hu⟩ : e ≠ '$' ∧ '$' ∉ u := by simpa [eq_comm] using hu.1
        rw [List.nil_append, List.cons_append, dollarPlain]
        simp [he, dollarPlain_append hu, push, Function.comp_def]
  | cons c x ih =>
    cases afterDollar with
    | false =>
      by_cases hc : c = '$'
      · subst hc
        have hread : ∀ w, dollarPlain false ('$' :: x ++ w) =
            (dollarPlain true (x ++ w)).map fun y => ([] ++ y.1, y.2) := by
          intro w
          simp [dollarPlain]
        exact (ih _ fun t y hy => h t y (by rw [hread, hy]; rfl)).front [] hread
      · have hread : ∀ w, dollarPlain false (c :: x ++ w) =
            (dollarPlain false (x ++ w)).map fun y => ([c] ++ y.1, y.2) := by
          intro w
          simp [dollarPlain, hc, push]
        exact (ih _ fun t y hy => h (c :: t) y (by rw [hread, hy]; rfl)).front [c] hread
    | true =>
      by_cases hc : c = '$'
      · subst hc
        exact absurd (by simp [dollarPlain]) (h [] x)
      · have hread : ∀ w, dollarPlain true (c :: x ++ w) =
            (dollarPlain false (x ++ w)).map fun y => (['$', c] ++ y.1, y.2) := by
          intro w
          simp [dollarPlain, hc, push, Function.comp_def]
        exact (ih _ fun t y hy => h ('$' :: c :: t) y (by rw [hread, hy]; rfl)).front ['$', c] hread

/-- A text without dollar signs is taken in between tags. -/
theorem dollarTagged_append (hu : '$' ∉ u) (w : List Char) :
    dollarTagged tag (u ++ w) = (dollarTagged tag w).map fun y => (u ++ y.1, y.2) := by
  induction u with
  | nil => simp
  | cons c u ih =>
    simp only [List.mem_cons, not_or] at hu
    rw [List.cons_append, dollarTagged.eq_def]
    simp [Ne.symm hu.1, ih hu.2, push, Function.comp_def]

/-- How far a text agrees with a tag does not change when it goes on, unless
it ended within the tag. -/
theorem matchTag_append (tag x w : List Char) : match matchTag tag x with
    | .whole rest => matchTag tag (x ++ w) = .whole (rest ++ w)
    | .differs taken rest => matchTag tag (x ++ w) = .differs taken (rest ++ w)
    | .ends => ∀ e r, e ∉ tag → w = e :: r → matchTag tag (x ++ w) = .differs (x ++ [e]) r := by
  induction tag generalizing x with
  | nil => simp [matchTag]
  | cons t tag ih =>
    cases x with
    | nil =>
      intro e r he hw
      have hne : e ≠ t := fun h => he (h ▸ List.mem_cons_self)
      simp [hw, matchTag, hne]
    | cons c x =>
      have hrest := ih x
      by_cases hc : c = t
      · cases hm : matchTag tag x with
        | whole rest =>
          rw [hm] at hrest
          simp [matchTag, hc, hm, hrest]
        | differs taken rest =>
          rw [hm] at hrest
          simp [matchTag, hc, hm, hrest]
        | ends =>
          rw [hm] at hrest
          simp only [matchTag, hc, hm, if_true, List.cons_append]
          intro e r he hw
          rw [hrest e r (fun h => he (List.mem_cons_of_mem _ h)) hw]
      · simp [matchTag, hc]

/-- What a text in a string between tags must not have: a dollar sign, or at
its beginning a character of the tag. -/
def IsTagless (tag u : List Char) : Prop := '$' ∉ u ∧ u ≠ [] ∧ ∀ e ∈ u.head?, e ∉ tag

/-- A text right behind the second tag does not complete the end. -/
theorem dollarTagged_behind (hm : matchTag tag x = .whole []) :
    TakesIn (IsTagless tag) (dollarTagged tag) (dollarTagged tag) ('$' :: x) := by
  have hempty : TakesIn (IsTagless tag) (dollarTagged tag) (dollarTagged tag) [] :=
    Or.inr ⟨[], fun u w hu => dollarTagged_append hu.1 w⟩
  have happend := matchTag_append tag x
  simp only [hm] at happend
  refine hempty.front' ('$' :: tag) fun u w hu => ?_
  have hhead : ([] ++ (u ++ w)).head? ≠ some '$' := by
    cases u with
    | nil => exact absurd rfl hu.2.1
    | cons e u =>
      have he : e ≠ '$' := fun h => hu.1 (h ▸ List.mem_cons_self)
      simpa using he
  rw [List.cons_append, dollarTagged_whole (happend _), if_neg hhead]

/-- A text within the second tag does not go on with it. -/
theorem dollarTagged_within (hm : matchTag tag x = .ends) :
    TakesIn (IsTagless tag) (dollarTagged tag) (dollarTagged tag) ('$' :: x) := by
  have happend := matchTag_append tag x
  simp only [hm] at happend
  refine Or.inr ⟨'$' :: x, fun u w hu => ?_⟩
  cases u with
  | nil => exact absurd rfl hu.2.1
  | cons e u =>
    have hrest : '$' ∉ u := fun h => hu.1 (List.mem_cons_of_mem _ h)
    rw [List.cons_append, List.cons_append, dollarTagged_differs
      (happend (e :: (u ++ w)) e (u ++ w) (hu.2.2 e rfl) rfl), dollarTagged_append hrest,
      Option.map_map]
    simp [Function.comp_def]

/-- A string between tags that is open at a place.  The text there must not
go on with the tag. -/
theorem dollarTagged_open (tag : List Char)
    (h : ∀ t y, dollarTagged tag (x ++ [b]) ≠ some (t, y ++ [b])) :
    TakesIn (IsTagless tag) (dollarTagged tag) (dollarTagged tag) x := by
  induction hn : x.length using Nat.strong_induction_on generalizing x with
  | _ n ih =>
    cases x with
    | nil => exact Or.inr ⟨[], fun u w hu => dollarTagged_append hu.1 w⟩
    | cons c x =>
      by_cases hc : c = '$'
      · subst hc
        have happend := matchTag_append tag x
        have hlength := matchTag_length tag x
        cases hm : matchTag tag x with
        | ends => exact dollarTagged_within hm
        | whole rest =>
          simp only [hm, TagMatch.rest] at happend hlength
          cases rest with
          | nil => exact dollarTagged_behind hm
          | cons e rest =>
            by_cases he : e = '$'
            · -- the string is closed before the place
              subst he
              refine absurd ?_ (h [] rest)
              rw [List.cons_append, dollarTagged_whole (happend [b])]
              rfl
            · have hread : ∀ w, dollarTagged tag ('$' :: x ++ w) =
                  (dollarTagged tag (e :: rest ++ w)).map fun y => ('$' :: tag ++ y.1, y.2) := by
                intro w
                rw [List.cons_append, dollarTagged_whole (happend w), if_neg (by simpa using he)]
              refine (ih (e :: rest).length ?_ (fun t y hy => ?_) rfl).front ('$' :: tag) hread
              · have hx : ('$' :: x).length = x.length + 1 := List.length_cons
                omega
              · exact h ('$' :: tag ++ t) y (by rw [hread, hy]; rfl)
        | differs taken rest =>
          simp only [hm, TagMatch.rest] at happend hlength
          have hread : ∀ w, dollarTagged tag ('$' :: x ++ w) =
              (dollarTagged tag (rest ++ w)).map fun y => ('$' :: taken ++ y.1, y.2) := fun w => by
            rw [List.cons_append, dollarTagged_differs (happend w)]
          refine (ih rest.length ?_ (fun t y hy => ?_) rfl).front ('$' :: taken) hread
          · rw [← hn, List.length_cons]
            omega
          · exact h ('$' :: taken ++ t) y (by rw [hread, hy]; rfl)
      · have hread : ∀ w, dollarTagged tag (c :: x ++ w) =
            (dollarTagged tag (x ++ w)).map fun y => ([c] ++ y.1, y.2) := by
          intro w
          rw [List.cons_append, dollarTagged.eq_def]
          simp [hc, push]
        refine (ih x.length ?_ (fun t y hy => ?_) rfl).front [c] hread
        · rw [← hn, List.length_cons]
          omega
        · exact h (c :: t) y (by rw [hread, hy]; rfl)

/-! ## Comments -/

/-- Characters that belong to no mark of a comment are all the same to it. -/
theorem blockComment_last (hlast : last ≠ '*' ∧ last ≠ '/') (n : Nat) (w : List Char) :
    blockComment n last w = blockComment n ' ' w := by
  cases w with
  | nil => rfl
  | cons c w => simp [blockComment, hlast]

theorem blockComment_append (hne : u ≠ []) (hu : ∀ e ∈ u, e ≠ '*' ∧ e ≠ '/') (n : Nat)
    (last : Char) (w : List Char) : blockComment n last (u ++ w) = blockComment n ' ' w := by
  induction u generalizing last with
  | nil => exact absurd rfl hne
  | cons c u ih =>
    obtain ⟨hc, hrest⟩ := List.forall_mem_cons.1 hu
    have hread : blockComment n last (c :: (u ++ w)) = blockComment n c (u ++ w) := by
      simp [blockComment, hc]
    rw [List.cons_append, hread]
    by_cases hnil : u = []
    · rw [hnil, List.nil_append, blockComment_last hc]
    · exact ih hnil hrest c

/-- A block comment that is open at a place. -/
theorem blockComment_open (n : Nat) (last : Char)
    (h : ∀ y, blockComment n last (x ++ [b]) ≠ some (y ++ [b])) :
    ∃ m, ∀ u w, u ≠ [] → (∀ e ∈ u, e ≠ '*' ∧ e ≠ '/') →
      blockComment n last (x ++ (u ++ w)) = blockComment m ' ' w := by
  induction x generalizing n last with
  | nil => exact ⟨n, fun u w hne hu => blockComment_append hne hu n last w⟩
  | cons c x ih =>
    simp only [List.cons_append, blockComment] at h ⊢
    split at h
    · next hopen =>
      simp only [if_pos hopen]
      exact ih _ _ h
    · next hopen =>
      simp only [if_neg hopen]
      split at h
      · next hclose =>
        simp only [if_pos hclose]
        cases n with
        | zero => exact absurd rfl (h x)
        | succ n => exact ih _ _ h
      · next hclose =>
        simp only [if_neg hclose]
        exact ih _ _ h

/-- A comment to the end of the line that is open at a place. -/
theorem afterFirst_open (h : ∀ y, afterFirst stop (x ++ [b]) ≠ y ++ [b]) (hu : stop ∉ u)
    (w : List Char) : afterFirst stop (x ++ (u ++ w)) = afterFirst stop w := by
  have hx : stop ∉ x := by
    intro hmem
    obtain ⟨front, rest, rfl, hfront⟩ := List.eq_append_cons_of_mem hmem
    refine h rest ?_
    rw [List.append_assoc, List.cons_append]
    refine (split_at_stop _ fun e he heq => ?_).2
    subst heq
    exact hfront he
  have hdrop : ∀ s : List Char, stop ∉ s → ∀ r, (s ++ r).dropWhile (· != stop) =
      r.dropWhile (· != stop) := by
    intro s hs r
    refine List.dropWhile_append_of_pos fun e he => bne_iff_ne.2 fun heq => ?_
    subst heq
    exact hs he
  rw [afterFirst, hdrop x hx, hdrop u hu, ← afterFirst]

/-! ## Tokens that are open at a place -/

/-- Whether a backslash has a meaning in a kind of string. -/
def StringKind.hasEscapes : StringKind → Bool
  | .plain => false
  | .bits => false
  | .wideBits => false
  | _ => true

/-- A text begins with a token that is open at its end, and that another text
does not close there. -/
inductive Encloses (d : Dialect) (u : List Char) : List Char → Prop where
  /-- A string, no escape of which reaches beyond the end. -/
  | string {kind : StringKind} {c : Char} {r inside : List Char}
      (opens : Rule.stringOpening? d c r = some (kind, inside)) (closing : kind.closing ∉ u)
      (escapes : kind.hasEscapes = true → EndsOutsideEscape inside) : Encloses d u (c :: r)
  /-- A quoted name. -/
  | name {c stop : Char} {r : List Char} (opens : Rule.nameClosing? d c = some stop)
      (closing : stop ∉ u) : Encloses d u (c :: r)
  /-- A comment to the end of the line. -/
  | line {r : List Char} : Encloses d u ('-' :: '-' :: r)
  /-- A block comment. -/
  | block {r : List Char} : Encloses d u ('/' :: '*' :: r)
  /-- A string between dollar signs, with whose tag the text does not go on. -/
  | dollar {r : List Char} (opens : (r.dropWhile Rule.isTagChar).head? = some '$')
      (tag : ∀ e ∈ u.head?, e ∉ r.takeWhile Rule.isTagChar) : Encloses d u ('$' :: r)

/-- What is found with two texts at a place: nothing with either, or tokens
that differ in those texts alone and leave the same. -/
def Found.Swaps (u u' : List Char) (f f' : Found) : Prop :=
  f = .malformed ∧ f' = .malformed ∨ ∃ t t' rest, f = .token t rest ∧ f' = .token t' rest ∧
    Swapped u u' t.text t'.text

namespace Rule

open Found

variable {d : Dialect} {r inside : List Char} {kind : StringKind}

/-- Two dashes begin a comment. -/
theorem find_line (r : List Char) :
    find d '-' ('-' :: r) = .token .comment (afterFirst '\n' ('-' :: r)) := by
  cases d <;> rfl

/-- A slash and a star begin a comment. -/
theorem find_block (r : List Char) : find d '/' ('*' :: r) =
    match blockComment 0 ' ' r with
    | some rest => .token .comment rest
    | none => .malformed := by
  have hread : readComment d '/' ('*' :: r) = match blockComment 0 ' ' r with
      | some rest => .token .comment rest
      | none => .malformed := rfl
  have hpass : readBlank d '/' ('*' :: r) = .pass ∧ readString d '/' ('*' :: r) = .pass ∧
      readName d '/' ('*' :: r) = .pass ∧ readNumber d '/' ('*' :: r) = .pass := by
    cases d <;> exact ⟨rfl, rfl, rfl, rfl⟩
  simp only [find, all, List.foldr_cons, blank, string, name, number, comment, hpass, hread,
    pass_orElse]
  split <;> rfl

/-- A dollar sign begins a string or a parameter. -/
theorem find_dollar (r : List Char) : find d '$' r = (readDollar d '$' r).orElse (other '$' r) := by
  have hpass : readBlank d '$' r = .pass ∧ readString d '$' r = .pass ∧
      readName d '$' r = .pass ∧ readNumber d '$' r = .pass ∧ readComment d '$' r = .pass ∧
      readMarkedWord d '$' r = .pass ∧ readQuestion d '$' r = .pass ∧
      readOperator d '$' r = .pass ∧ readWord d '$' r = .pass := by
    cases d <;> exact ⟨rfl, rfl, rfl, rfl, rfl, rfl, rfl, rfl, rfl⟩
  simp only [find, all, List.foldr_cons, List.foldr_nil, blank, string, name, number, comment,
    markedWord, question, operator, word, dollar, hpass, pass_orElse]

/-- How a string begins is seen at once. -/
theorem stringOpening_mono (h : stringOpening? d c r = some (kind, inside)) (w : List Char) :
    stringOpening? d c (r ++ w) = some (kind, inside ++ w) := by
  by_cases hc : c = '\''
  · simp only [stringOpening?, if_pos hc, Option.some.injEq, Prod.mk.injEq] at h ⊢
    exact ⟨h.1, by rw [h.2]⟩
  simp only [stringOpening?, if_neg hc] at h ⊢
  cases r with
  | nil => simp at h
  | cons e r =>
    have hnext : r.head? = some '\'' →
        (r ++ w).head? = some '\'' ∧ (r ++ w).tail = r.tail ++ w := by
      intro hhead
      obtain ⟨s, rfl⟩ := List.head?_eq_some_iff.1 hhead
      exact ⟨rfl, rfl⟩
    simp only [List.head?_cons, List.tail_cons, List.cons_append] at h ⊢
    grind

/-- A string that is open at a place. -/
theorem closeString_open (hescapes : kind.hasEscapes = true → EndsOutsideEscape x)
    (h : ∀ t y, closeString kind (x ++ ['\x7b']) ≠ some (t, y ++ ['\x7b'])) :
    TakesIn (fun u => kind.closing ∉ u ∧ '\\' ∉ u) (closeString kind) (closeString kind) x := by
  cases kind with
  | plain => exact (closeQuoted_open (by decide) h).mono fun u hu => hu.1
  | bits => exact (closeQuoted_open (by decide) h).mono fun u hu => hu.1
  | wideBits => exact (closeQuoted_open (by decide) h).mono fun u hu => hu.1
  | national =>
    exact closeEscaped_open isBounded_nationalEscapes isLocal_nationalEscapes (by decide)
      (hescapes rfl) h
  | hex =>
    exact closeEscaped_open isBounded_nationalEscapes isLocal_nationalEscapes (by decide)
      (hescapes rfl) h
  | escaped =>
    exact closeEscaped_open isBounded_byteEscapes isLocal_byteEscapes (by decide) (hescapes rfl) h
  | unicode =>
    exact closeEscaped_open isBounded_unicodeEscapes isLocal_unicodeEscapes (by decide)
      (hescapes rfl) h

/-- A token whose text is taken in. -/
theorem swaps_ofReading {P : List Char → Prop} {f g : List Char → Reading (List Char)}
    {tok : List Char → Token} (opening closing : List Char) (h : TakesIn P f g x) (hv : P v)
    (hu : P u) (htext : ∀ t, (tok t).text = opening ++ t ++ closing) (w : List Char) :
    Found.Swaps v u (.ofReading tok (f (x ++ (v ++ w)))) (.ofReading tok (f (x ++ (u ++ w)))) := by
  rcases h with hnone | ⟨a, ha⟩
  · rw [hnone v w hv, hnone u w hu]
    exact Or.inl ⟨rfl, rfl⟩
  · rw [ha v w hv, ha u w hu]
    cases g w with
    | none => exact Or.inl ⟨rfl, rfl⟩
    | some y =>
      refine Or.inr ⟨_, _, y.2, rfl, rfl, Or.inr ⟨opening ++ a, y.1 ++ closing, ?_, ?_⟩⟩
      · simp [htext]
      · simp [htext]

/-! ### What is found with one text in a token and with another -/

section

variable {stop : Char} (w : List Char)

/-- In a string. -/
theorem swaps_string (opens : stringOpening? d c r = some (kind, inside))
    (escapes : kind.hasEscapes = true → EndsOutsideEscape inside)
    (hopen : ∀ t y, find d c (r ++ ['\x7b']) ≠ .token t (y ++ ['\x7b']))
    (hv : kind.closing ∉ v ∧ '\\' ∉ v) (hu : kind.closing ∉ u ∧ '\\' ∉ u) :
    Found.Swaps v u (find d c (r ++ (v ++ w))) (find d c (r ++ (u ++ w))) := by
  have hfind : ∀ w,
      find d c (r ++ w) = .ofReading (.string kind) (closeString kind (inside ++ w)) :=
    fun w => find_string (stringOpening_mono opens w)
  have htakes := closeString_open escapes fun t y hclose =>
    hopen (.string kind t) y (by rw [hfind, hclose]; rfl)
  rw [hfind, hfind]
  exact swaps_ofReading _ _ htakes hv hu (fun t => rfl) w

/-- In a quoted name. -/
theorem swaps_name (opens : nameClosing? d c = some stop)
    (hopen : ∀ t y, find d c (r ++ ['\x7b']) ≠ .token t (y ++ ['\x7b']))
    (hstop : '\x7b' ≠ stop) (hv : stop ∉ v) (hu : stop ∉ u) :
    Found.Swaps v u (find d c (r ++ (v ++ w))) (find d c (r ++ (u ++ w))) := by
  have hfind : ∀ w, find d c (r ++ w) = .ofReading (.name c stop) (closeQuoted stop (r ++ w)) :=
    fun w => find_name opens
  have htakes := closeQuoted_open hstop fun t y hclose =>
    hopen (.name c stop t) y (by rw [hfind, hclose]; rfl)
  rw [hfind, hfind]
  exact swaps_ofReading [c] [stop] htakes hv hu (fun t => by simp [Token.text]) w

/-- In a comment to the end of the line. -/
theorem swaps_line (hopen : ∀ t y, find d '-' ('-' :: r ++ ['\x7b']) ≠ .token t (y ++ ['\x7b']))
    (hv : '\n' ∉ v) (hu : '\n' ∉ u) :
    Found.Swaps v u (find d '-' ('-' :: r ++ (v ++ w))) (find d '-' ('-' :: r ++ (u ++ w))) := by
  have hread : ∀ y, afterFirst '\n' ('-' :: r ++ ['\x7b']) ≠ y ++ ['\x7b'] := by
    intro y hy
    exact hopen .comment y (by rw [List.cons_append, find_line, ← hy]; rfl)
  rw [List.cons_append, List.cons_append, find_line, find_line, ← List.cons_append,
    ← List.cons_append, afterFirst_open hread hv, afterFirst_open hread hu]
  exact Or.inr ⟨_, _, _, rfl, rfl, Or.inl rfl⟩

/-- In a block comment. -/
theorem swaps_block (hopen : ∀ t y, find d '/' ('*' :: r ++ ['\x7b']) ≠ .token t (y ++ ['\x7b']))
    (hv : v ≠ [] ∧ ∀ e ∈ v, e ≠ '*' ∧ e ≠ '/') (hu : u ≠ [] ∧ ∀ e ∈ u, e ≠ '*' ∧ e ≠ '/') :
    Found.Swaps v u (find d '/' ('*' :: r ++ (v ++ w))) (find d '/' ('*' :: r ++ (u ++ w))) := by
  obtain ⟨m, hm⟩ := blockComment_open 0 ' ' (x := r) (b := '\x7b') fun y hy =>
    hopen .comment y (by rw [List.cons_append, find_block, hy])
  rw [List.cons_append, List.cons_append, find_block, find_block, hm v w hv.1 hv.2,
    hm u w hu.1 hu.2]
  cases blockComment m ' ' w with
  | none => exact Or.inl ⟨rfl, rfl⟩
  | some rest => exact Or.inr ⟨_, _, _, rfl, rfl, Or.inl rfl⟩

/-- In a string between bare dollar signs. -/
theorem swaps_dollarPlain
    (hopen : ∀ t y, find d '$' ('$' :: r ++ ['\x7b']) ≠ .token t (y ++ ['\x7b']))
    (hv : '$' ∉ v ∧ v ≠ []) (hu : '$' ∉ u ∧ u ≠ []) :
    Found.Swaps v u (find d '$' ('$' :: r ++ (v ++ w))) (find d '$' ('$' :: r ++ (u ++ w))) := by
  have hread : ∀ w, find d '$' ('$' :: (r ++ w)) =
      .ofReading (.dollarString []) (dollarPlain false (r ++ w)) := by
    intro w
    rw [find_dollar]
    exact ofReading_orElse _ _ _
  have htakes := dollarPlain_open false (x := r) (b := '\x7b')
    fun t y hclose => hopen (.dollarString [] t) y (by rw [List.cons_append, hread, hclose]; rfl)
  rw [List.cons_append, List.cons_append, hread, hread]
  exact swaps_ofReading "$$".toList "$$".toList htakes hv hu (fun t => by simp [Token.text]) w

/-- What begins with a dollar sign and a tag is read as a string. -/
theorem find_dollarTagged {rest : List Char} (hrest : r.dropWhile isTagChar = '$' :: rest)
    (hhead : r.head? ≠ some '$') : find d '$' (r ++ w) =
      .ofReading (.dollarString (r.takeWhile isTagChar))
        (dollarTagged (r.takeWhile isTagChar) (rest ++ w)) := by
  obtain ⟨htake, hdrop⟩ := run_before hrest w
  have hne : (r ++ w).head? ≠ some '$' := by
    cases r with
    | nil => simp at hrest
    | cons e r => exact hhead
  have hdollar : readDollar d '$' (r ++ w) = .ofReading (.dollarString (r.takeWhile isTagChar))
      (dollarTagged (r.takeWhile isTagChar) (rest ++ w)) := by
    simp only [readDollar, ne_eq, not_true_eq_false, if_false, hne, htake, hdrop,
      List.head?_cons, if_true, List.tail_cons]
  rw [find_dollar, hdollar]
  exact ofReading_orElse _ _ _

/-- In a string between dollar signs with a tag. -/
theorem swaps_dollarTagged {rest : List Char} (hrest : r.dropWhile isTagChar = '$' :: rest)
    (hhead : r.head? ≠ some '$')
    (hopen : ∀ t y, find d '$' (r ++ ['\x7b']) ≠ .token t (y ++ ['\x7b']))
    (hv : IsTagless (r.takeWhile isTagChar) v) (hu : IsTagless (r.takeWhile isTagChar) u) :
    Found.Swaps v u (find d '$' (r ++ (v ++ w))) (find d '$' (r ++ (u ++ w))) := by
  have htakes := dollarTagged_open (r.takeWhile isTagChar) (x := rest) (b := '\x7b')
    fun t y hclose => hopen (.dollarString _ t) y
      (by rw [find_dollarTagged _ hrest hhead, hclose]; rfl)
  rw [find_dollarTagged _ hrest hhead, find_dollarTagged _ hrest hhead]
  exact swaps_ofReading ('$' :: r.takeWhile isTagChar ++ ['$'])
    ('$' :: r.takeWhile isTagChar ++ ['$']) htakes hv hu (fun t => by simp [Token.text]) w

end

/-- The characters that close a token in which a text may stand. -/
def closers : List Char := "'\"\x60]$*/\n\\".toList

/-- A quoted name is closed by a mark that is no brace. -/
theorem closing_of_nameClosing {stop : Char} (h : nameClosing? d c = some stop) :
    stop ∈ closers ∧ '\x7b' ≠ stop := by
  have hall : ∀ x ∈ nameMarks, x.2 ∈ closers ∧ '\x7b' ≠ x.2 := by decide
  exact hall _ (nameClosing?_mem h)

/-- **What is found with one text at a place and with another**, where a token
is open that neither of them closes. -/
theorem find_enclosed (h : Encloses d u (c :: r))
    (hopen : ∀ t y, find d c (r ++ ['\x7b']) ≠ .token t (y ++ ['\x7b']))
    (hv : ∀ e ∈ v, e ∉ closers) (hvne : v ≠ []) (hvtag : ∀ e ∈ v.head?, isTagChar e = false)
    (hu : ∀ e ∈ u, closesNothing e = true) (hune : u ≠ []) (w : List Char) :
    Found.Swaps v u (find d c (r ++ (v ++ w))) (find d c (r ++ (u ++ w))) := by
  have hplain : ∀ e, closesNothing e = false → e ∉ u := by
    rintro e he hmem
    simp [hu e hmem] at he
  have hfree : ∀ e ∈ closers, e ∉ v := fun e he hmem => hv e hmem he
  have hapart : ∀ s : List Char, '*' ∉ s → '/' ∉ s → ∀ e ∈ s, e ≠ '*' ∧ e ≠ '/' :=
    fun s hstar hslash e he => ⟨fun heq => hstar (heq ▸ he), fun heq => hslash (heq ▸ he)⟩
  cases h with
  | @string kind _ _ inside opens closing escapes =>
    have hclosing : kind.closing ∈ closers := by cases kind <;> decide
    exact swaps_string w opens escapes hopen ⟨hfree _ hclosing, hfree _ (by decide)⟩
      ⟨closing, hplain _ (by decide)⟩
  | @name _ stop _ opens closing =>
    obtain ⟨hstop, hbrace⟩ := closing_of_nameClosing opens
    exact swaps_name w opens hopen hbrace (hfree _ hstop) closing
  | @line r => exact swaps_line w hopen (hfree _ (by decide)) (hplain _ (by decide))
  | @block r =>
    exact swaps_block w hopen
      ⟨hvne, hapart v (hfree _ (by decide)) (hfree _ (by decide))⟩
      ⟨hune, hapart u (hplain _ (by decide)) (hplain _ (by decide))⟩
  | @dollar _ opens tag =>
    obtain ⟨rest, hrest⟩ := List.head?_eq_some_iff.1 opens
    by_cases hhead : r.head? = some '$'
    · obtain ⟨r, rfl⟩ := List.head?_eq_some_iff.1 hhead
      exact swaps_dollarPlain w hopen ⟨hfree _ (by decide), hvne⟩ ⟨hplain _ (by decide), hune⟩
    · have hnot : ∀ e ∈ v.head?, e ∉ r.takeWhile isTagChar := by
        intro e he hmem
        have htest := List.mem_takeWhile_imp hmem
        simp [hvtag e he] at htest
      exact swaps_dollarTagged w hrest hhead hopen ⟨hfree _ (by decide), hvne, hnot⟩
        ⟨hplain _ (by decide), hune, tag⟩

end Rule

end DealSql.Statement
