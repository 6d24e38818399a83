import DealSql.Proofs.TokenSources
import DealSql.Proofs.Numerals

/-!
# Readings that stop before a place

A reader that leaves everything from some place on has looked at what stands
there only to see that it does not go on.  What it has read is therefore the
same with another text at that place, unless it would have gone on with the
first character of it.

The place is that of a placeholder, so the one text begins with a brace and
the other with a character that a value may begin with.

* `closeQuoted_local`, `closeEscaped_local`, `dollarPlain_local`,
  `dollarTagged_local`, `blockComment_local` — strings and comments.
* `numberText_of_stop`, `numberText_of_short` — numbers.
-/

namespace DealSql.Statement

open DealSql.Text DealSql.Statement.Strings

variable {b c stop : Char} {s t u w x y z q tag : List Char} {p : Char → Bool} {n : Nat}

/-! ## What is left -/

/-- What is left of a text and reaches back before a place. -/
theorem exists_left (h : s <:+ x ++ w) (hlength : w.length ≤ s.length) : ∃ y, s = y ++ w := by
  obtain ⟨a, ha⟩ := h
  rcases List.append_eq_append_iff.1 ha with ⟨y, -, hs⟩ | ⟨y, rfl, hw⟩
  · exact ⟨y, hs⟩
  · rw [hw, List.length_append] at hlength
    have hy : y = [] := List.eq_nil_of_length_eq_zero (by omega)
    exact ⟨[], by simp [hw, hy]⟩

/-- Nothing that is left is longer than the text. -/
theorem not_left (h : (y ++ b :: z).length ≤ z.length) : False := by
  simp only [List.length_append, List.length_cons] at h
  omega

/-- A run that ends before a place, or just at it. -/
theorem run_local (hbrace : p '\x7b' = false)
    (h : (x ++ '\x7b' :: z).dropWhile p = y ++ '\x7b' :: z) (hb : y = [] → p b = false) :
    (x ++ b :: q).takeWhile p = (x ++ '\x7b' :: z).takeWhile p ∧
      (x ++ b :: q).dropWhile p = y ++ b :: q := by
  induction x with
  | nil =>
    simp only [List.nil_append, List.dropWhile_cons, hbrace] at h
    have hy : y = [] := by simpa using h
    simp [hy, hb hy, hbrace]
  | cons d x ih =>
    simp only [List.cons_append, List.takeWhile_cons, List.dropWhile_cons] at h ⊢
    split
    · next hd =>
      rw [if_pos hd] at h
      rw [(ih h).1]
      exact ⟨rfl, (ih h).2⟩
    · next hd =>
      rw [if_neg hd] at h
      have hy : y = d :: x := by
        rw [← List.cons_append] at h
        exact (List.append_cancel_right h).symm
      exact ⟨rfl, by rw [hy, List.cons_append]⟩

/-- A run that ends before the end of a text is the same with more behind it. -/
theorem run_before {rest : List Char} (h : s.dropWhile p = c :: rest) (w : List Char) :
    (s ++ w).takeWhile p = s.takeWhile p ∧ (s ++ w).dropWhile p = c :: (rest ++ w) := by
  have hne : (s.takeWhile p).length ≠ s.length := by
    have hparts := congrArg List.length (List.takeWhile_append_dropWhile (p := p) (l := s))
    rw [h, List.length_append, List.length_cons] at hparts
    omega
  constructor
  · rw [List.takeWhile_append, if_neg hne]
  · rw [List.dropWhile_append, h]
    rfl

theorem afterFirst_local (hstop : stop ≠ '\x7b')
    (h : afterFirst stop (x ++ '\x7b' :: z) = y ++ '\x7b' :: z) :
    afterFirst stop (x ++ b :: q) = y ++ b :: q := by
  induction x with
  | nil =>
    have hdrop : afterFirst stop ('\x7b' :: z) = afterFirst stop z := by
      simp [afterFirst, hstop.symm]
    rw [List.nil_append, hdrop] at h
    exact (not_left (h ▸ length_afterFirst_le stop z)).elim
  | cons d x ih =>
    by_cases hd : d = stop
    · have hnone : ∀ r, afterFirst stop (d :: r) = r := by simp [afterFirst, hd]
      rw [List.cons_append, hnone] at h ⊢
      rw [List.append_cancel_right h]
    · have hskip : ∀ r, afterFirst stop (d :: r) = afterFirst stop r := by simp [afterFirst, hd]
      rw [List.cons_append, hskip] at h ⊢
      exact ih h

/-! ## Quoted texts -/

/-- A quoted text ends at a mark that stands alone. -/
theorem head?_ne_of_closeQuoted (h : closeQuoted stop s = some (t, w)) : w.head? ≠ some stop := by
  fun_induction closeQuoted stop s generalizing t w with
  | case1 => cases h
  | case2 =>
    cases h
    simp
  | case3 r ih =>
    obtain ⟨⟨u, v⟩, hu, he⟩ := Option.map_eq_some_iff.1 h
    cases he
    exact ih hu
  | case4 d r hd =>
    cases h
    simpa using hd
  | case5 c r hc ih =>
    obtain ⟨⟨u, v⟩, hu, he⟩ := Option.map_eq_some_iff.1 h
    cases he
    exact ih hu

/-- A quoted text that is closed before a place. -/
theorem closeQuoted_local (hb : y = [] → b ≠ stop)
    (h : closeQuoted stop (x ++ '\x7b' :: z) = some (t, y ++ '\x7b' :: z)) :
    closeQuoted stop (x ++ b :: q) = some (t, y ++ b :: q) := by
  have hx : x = double stop t ++ stop :: y := by
    have hsource := eq_of_closeQuoted h
    rw [← List.cons_append, ← List.append_assoc] at hsource
    exact List.append_cancel_right hsource
  have hhead : (y ++ b :: q).head? ≠ some stop := by
    cases y with
    | nil => simpa using hb rfl
    | cons d y =>
      have hd := head?_ne_of_closeQuoted h
      exact hd
  rw [hx, List.append_assoc, List.cons_append]
  exact closeQuoted_double stop t _ hhead

/-! ## Strings with escapes -/

/-- Whether the escapes of a rule that end before the last character in front
of a place are read whatever stands at the place. -/
structure IsLocal (rule : EscapeRule) : Prop where
  suffix : ∀ {s c rest}, rule.read s = some (c, rest) → rest <:+ s
  before : ∀ {b x y z q c}, y ≠ [] → rule.read (x ++ '\x7b' :: z) = some (c, y ++ '\x7b' :: z) →
    rule.read (x ++ b :: q) = some (c, y ++ b :: q)

section

variable {rule : EscapeRule} {r rest : List Char}

/-- A doubled mark stands for one. -/
theorem closeEscaped_doubled :
    closeEscaped rule ('\'' :: '\'' :: r) = push '\'' (closeEscaped rule r) := by
  rw [closeEscaped.eq_def]
  simp

theorem closeEscaped_closed (h : r.head? ≠ some '\'') :
    closeEscaped rule ('\'' :: r) = some ([], r) := by
  rw [closeEscaped.eq_def]
  simp [h]

theorem closeEscaped_escape (h : rule.read r = some (c, rest)) :
    closeEscaped rule ('\\' :: r) = push c (closeEscaped rule rest) := by
  rw [closeEscaped.eq_def]
  simp only [show ('\\' : Char) ≠ '\'' by decide, if_false, if_pos]
  split
  · next hread =>
    rw [h] at hread
    cases hread
    rfl
  · next hnone =>
    rw [h] at hnone
    cases hnone

theorem closeEscaped_malformed (h : rule.read r = none) :
    closeEscaped rule ('\\' :: r) = none := by
  rw [closeEscaped.eq_def]
  simp only [show ('\\' : Char) ≠ '\'' by decide, if_false, if_pos]
  split
  · next hread =>
    rw [h] at hread
    cases hread
  · rfl

theorem closeEscaped_plain (hquote : c ≠ '\'') (hslash : c ≠ '\\') :
    closeEscaped rule (c :: r) = push c (closeEscaped rule r) := by
  rw [closeEscaped.eq_def]
  simp [hquote, hslash]

end

/-- A closing mark is read. -/
theorem closeEscaped_lt {rule : EscapeRule} (h : closeEscaped rule s = some (t, w)) :
    w.length < s.length := by
  fun_induction closeEscaped rule s generalizing t w with
  | case1 => cases h
  | case2 r hr ih =>
    obtain ⟨u, hu, -⟩ := push_eq_some h
    have hrest := ih hu
    simp only [List.length_cons, List.length_tail] at *
    omega
  | case3 r hr =>
    cases h
    simp
  | case4 r d rest hread hq ih =>
    obtain ⟨u, hu, -⟩ := push_eq_some h
    have hrest := ih hu
    have hescape := rule.shrinks hread
    simp only [List.length_cons]
    omega
  | case5 => cases h
  | case6 c r _ _ ih =>
    obtain ⟨u, hu, -⟩ := push_eq_some h
    have hrest := ih hu
    simp only [List.length_cons]
    omega

/-- A text that begins with another character than a brace begins before the place. -/
theorem exists_before {r : List Char} (hc : c ≠ '\x7b') (h : c :: r = x ++ '\x7b' :: z) :
    ∃ x', x = c :: x' ∧ r = x' ++ '\x7b' :: z := by
  cases x with
  | nil =>
    cases h
    exact absurd rfl hc
  | cons d x =>
    cases h
    exact ⟨x, rfl, rfl⟩

/-- What is left behind a closing mark, of a text that reaches back before a place. -/
theorem left_of_closeEscaped {rule : EscapeRule}
    (h : closeEscaped rule s = some (t, y ++ '\x7b' :: z))
    (hs : s <:+ x ++ '\x7b' :: z) : ∃ v, v ≠ [] ∧ s = v ++ '\x7b' :: z := by
  have hlt := closeEscaped_lt h
  rw [List.length_append] at hlt
  obtain ⟨v, rfl⟩ := exists_left hs (by omega)
  refine ⟨v, ?_, rfl⟩
  rintro rfl
  rw [List.nil_append] at hlt
  omega

/-- A string with escapes that is closed before a place. -/
theorem closeEscaped_local {rule : EscapeRule} (hrule : IsLocal rule) (hb : y = [] → b ≠ '\'')
    (h : closeEscaped rule (x ++ '\x7b' :: z) = some (t, y ++ '\x7b' :: z)) :
    closeEscaped rule (x ++ b :: q) = some (t, y ++ b :: q) := by
  generalize hs : x ++ '\x7b' :: z = s at h
  fun_induction closeEscaped rule s generalizing x t with
  | case1 => cases h
  | case2 r hr ih =>
    obtain ⟨u, hu, rfl⟩ := push_eq_some h
    obtain ⟨x, rfl, rfl⟩ := exists_before (by decide) hs.symm
    obtain ⟨r, hr⟩ := List.head?_eq_some_iff.1 hr
    obtain ⟨x, rfl, rfl⟩ := exists_before (by decide) hr.symm
    rw [List.cons_append, List.cons_append, closeEscaped_doubled, ih rfl hu, push, Option.map_some]
  | case3 r hr =>
    simp only [Option.some.injEq, Prod.mk.injEq] at h
    obtain ⟨rfl, rfl⟩ := h
    obtain ⟨x, rfl, hx⟩ := exists_before (by decide) hs.symm
    obtain rfl := List.append_cancel_right hx
    have hhead : (y ++ b :: q).head? ≠ some '\'' := by
      cases y with
      | nil => simpa using hb rfl
      | cons d y => exact hr
    rw [List.cons_append, closeEscaped_closed hhead]
  | case4 r d rest hread hq ih =>
    obtain ⟨u, hu, rfl⟩ := push_eq_some h
    obtain ⟨x, rfl, rfl⟩ := exists_before (by decide) hs.symm
    -- the closing mark is still to come, so the escape ends before it
    obtain ⟨v, hv, rfl⟩ := left_of_closeEscaped hu (hrule.suffix hread)
    have hescape := hrule.before (b := b) (q := q) hv hread
    rw [List.cons_append, closeEscaped_escape hescape, ih rfl hu, push, Option.map_some]
  | case5 => cases h
  | case6 c r hc hslash ih =>
    obtain ⟨u, hu, rfl⟩ := push_eq_some h
    cases x with
    | nil =>
      cases hs
      exact (not_left (Nat.le_of_lt (closeEscaped_lt hu))).elim
    | cons d x =>
      cases hs
      rw [List.cons_append, closeEscaped_plain hc hslash, ih rfl hu, push, Option.map_some]

theorem isLocal_nationalEscapes : IsLocal nationalEscapes where
  suffix {s c rest} h := by
    cases s with
    | nil => cases h
    | cons e r =>
      cases h
      exact List.suffix_cons _ _
  before {b x y z q c} hy h := by
    cases x with
    | nil =>
      have hlength := nationalEscapes.shrinks h
      rw [List.nil_append, List.length_append] at hlength
      exact absurd (List.eq_nil_of_length_eq_zero (by omega)) hy
    | cons e x =>
      have he : (nationalControl? e).getD e = c ∧ x ++ '\x7b' :: z = y ++ '\x7b' :: z := by
        simpa [nationalEscapes, nationalEscape] using h
      rw [← List.append_cancel_right he.2, ← he.1]
      rfl

/-- A code point ends where its digits do. -/
theorem codePoint_local {digits : List Char → List Char}
    (h : codePoint n digits (x ++ '\x7b' :: z) = some (c, y ++ '\x7b' :: z)) :
    codePoint n digits (x ++ b :: q) = some (c, y ++ b :: q) := by
  unfold codePoint at h
  split at h
  · obtain ⟨e, he, heq⟩ := Option.map_eq_some_iff.1 h
    simp only [Prod.mk.injEq] at heq
    obtain ⟨rfl, hdrop⟩ := heq
    have hn : n ≤ x.length := by
      have hlength := congrArg List.length hdrop
      simp only [List.length_drop, List.length_append, List.length_cons] at hlength
      omega
    rw [List.drop_append_of_le_length hn] at hdrop
    rw [List.take_append_of_le_length hn] at he
    have hlong : n ≤ (x ++ b :: q).length := by
      rw [List.length_append]
      omega
    rw [codePoint, if_pos hlong, List.take_append_of_le_length hn, he,
      List.drop_append_of_le_length hn, List.append_cancel_right hdrop]
    rfl
  · cases h

/-- The digits of an escape end before the place when something is left before it. -/
theorem upToTwo_local (hy : y ≠ [])
    (h : (x ++ '\x7b' :: z).drop (upToTwo p (x ++ '\x7b' :: z)).length = y ++ '\x7b' :: z) :
    upToTwo p (x ++ b :: q) = upToTwo p (x ++ '\x7b' :: z) ∧
      (x ++ b :: q).drop (upToTwo p (x ++ '\x7b' :: z)).length = y ++ b :: q := by
  have hshort : (upToTwo p (x ++ '\x7b' :: z)).length < x.length := by
    have hlength := congrArg List.length h
    have hpos := List.length_pos_iff.2 hy
    simp only [List.length_drop, List.length_append, List.length_cons] at hlength
    omega
  rw [List.drop_append_of_le_length (by omega)] at h ⊢
  refine ⟨?_, by rw [List.append_cancel_right h]⟩
  match x with
  | [] => simp at hshort
  | [d] =>
    have hnone : p d = false := by
      cases hd : p d with
      | false => rfl
      | true => simp [upToTwo, hd] at hshort
    simp [upToTwo, hnone]
  | d :: e :: x => rfl

theorem digits_local {f : List Char → Option Char} (hy : y ≠ [])
    (h : (f (upToTwo p (x ++ '\x7b' :: z))).map
      (·, (x ++ '\x7b' :: z).drop (upToTwo p (x ++ '\x7b' :: z)).length) =
        some (c, y ++ '\x7b' :: z)) :
    (f (upToTwo p (x ++ b :: q))).map
      (·, (x ++ b :: q).drop (upToTwo p (x ++ b :: q)).length) = some (c, y ++ b :: q) := by
  obtain ⟨e, he, heq⟩ := Option.map_eq_some_iff.1 h
  simp only [Prod.mk.injEq] at heq
  obtain ⟨hsame, hdrop⟩ := upToTwo_local (b := b) (q := q) hy heq.2
  rw [hsame, he, hdrop, heq.1]
  rfl

theorem unicodeEscape_cons (c : Char) (r : List Char) : unicodeEscape (c :: r) =
    if c = '\\' then some ('\\', r)
    else if c = '+' then codePoint 6 id r
    else codePoint 4 id (c :: r) := by
  unfold unicodeEscape
  split <;> simp_all

theorem isLocal_unicodeEscapes : IsLocal unicodeEscapes where
  suffix h := unicodeEscape_suffix h
  before {b x y z q c} hy h := by
    cases x with
    | nil =>
      have hlength := unicodeEscapes.shrinks h
      rw [List.nil_append, List.length_append] at hlength
      exact absurd (List.eq_nil_of_length_eq_zero (by omega)) hy
    | cons d x =>
      have hcons : ∀ r, unicodeEscapes.read (d :: r) = _ := unicodeEscape_cons d
      rw [List.cons_append, hcons] at h ⊢
      by_cases hslash : d = '\\'
      · rw [if_pos hslash] at h ⊢
        simp only [Option.some.injEq, Prod.mk.injEq] at h
        rw [List.append_cancel_right h.2, h.1]
      rw [if_neg hslash] at h ⊢
      by_cases hplus : d = '+'
      · rw [if_pos hplus] at h ⊢
        exact codePoint_local h
      · rw [if_neg hplus, ← List.cons_append] at h ⊢
        exact codePoint_local h

theorem isLocal_byteEscapes : IsLocal byteEscapes where
  suffix h := byteEscape_suffix h
  before {b x y z q c} hy h := by
    cases x with
    | nil =>
      have hlength := byteEscapes.shrinks h
      rw [List.nil_append, List.length_append] at hlength
      exact absurd (List.eq_nil_of_length_eq_zero (by omega)) hy
    | cons d x =>
      rw [List.cons_append] at h ⊢
      obtain ⟨hread, hnull⟩ := Option.filter_eq_some_iff.1 h
      refine Option.filter_eq_some_iff.2 ⟨?_, hnull⟩
      have hrest : x ++ '\x7b' :: z = y ++ '\x7b' :: z → x = y := List.append_cancel_right
      dsimp only at hread ⊢
      split
      · next e hcontrol =>
        simp only [hcontrol, Option.some.injEq, Prod.mk.injEq] at hread
        rw [hread.1, ← hrest hread.2]
      · next hcontrol =>
        simp only at hread
        by_cases hu : d = 'u'
        · rw [if_pos hu] at hread ⊢
          exact codePoint_local hread
        rw [if_neg hu] at hread ⊢
        by_cases hU : d = 'U'
        · rw [if_pos hU] at hread ⊢
          exact codePoint_local hread
        rw [if_neg hU] at hread ⊢
        by_cases hx : d = 'x'
        · rw [if_pos hx] at hread ⊢
          -- without digits the letter stands for itself, and no digits are left out
          have hdigits : ∀ r, (if (upToTwo isHex r).isEmpty then some ('x', r)
              else ((hexValue? (upToTwo isHex r)).bind byteChar?).map
                (·, r.drop (upToTwo isHex r).length)) =
              (if (upToTwo isHex r).isEmpty then some 'x'
                else (hexValue? (upToTwo isHex r)).bind byteChar?).map
                (·, r.drop (upToTwo isHex r).length) := by
            intro r
            split
            · next hnone =>
              rw [List.isEmpty_iff.1 hnone]
              rfl
            · rfl
          rw [hdigits] at hread ⊢
          exact digits_local (f := fun ds => if ds.isEmpty then some 'x'
            else (hexValue? ds).bind byteChar?) hy hread
        rw [if_neg hx] at hread ⊢
        by_cases hoctal : isOctal d
        · rw [if_pos hoctal] at hread ⊢
          exact digits_local (f := fun digits => byteChar? (octalValue (d :: digits))) hy hread
        · rw [if_neg hoctal] at hread ⊢
          simp only [Option.some.injEq, Prod.mk.injEq] at hread
          rw [hread.1, ← hrest hread.2]

/-! ## Strings between dollar signs -/

theorem dollarPlain_local {afterDollar : Bool}
    (h : dollarPlain afterDollar (x ++ '\x7b' :: z) = some (t, y ++ '\x7b' :: z)) :
    dollarPlain afterDollar (x ++ b :: q) = some (t, y ++ b :: q) := by
  induction x generalizing afterDollar t with
  | nil =>
    have hdollar : '\x7b' ≠ '$' := by decide
    obtain ⟨u, hu⟩ : ∃ u, dollarPlain false z = some (u, y ++ '\x7b' :: z) := by
      rw [List.nil_append, dollarPlain] at h
      simp only [hdollar, if_false] at h
      cases afterDollar with
      | false =>
        obtain ⟨u, hu, -⟩ := push_eq_some h
        exact ⟨u, hu⟩
      | true =>
        obtain ⟨u, hu, -⟩ := push_eq_some h
        obtain ⟨v, hv, -⟩ := push_eq_some hu
        exact ⟨v, hv⟩
    exact (not_left (dollarPlain_length hu)).elim
  | cons d x ih =>
    rw [List.cons_append, dollarPlain] at h ⊢
    by_cases hafter : afterDollar = true
    · rw [if_pos hafter] at h ⊢
      by_cases hd : d = '$'
      · rw [if_pos hd] at h ⊢
        simp only [Option.some.injEq, Prod.mk.injEq] at h
        rw [List.append_cancel_right h.2, h.1]
      · rw [if_neg hd] at h ⊢
        obtain ⟨u, hu, rfl⟩ := push_eq_some h
        obtain ⟨v, hv, rfl⟩ := push_eq_some hu
        rw [ih hv]
        rfl
    rw [if_neg hafter] at h ⊢
    by_cases hd : d = '$'
    · rw [if_pos hd] at h ⊢
      exact ih h
    · rw [if_neg hd] at h ⊢
      obtain ⟨u, hu, rfl⟩ := push_eq_some h
      rw [ih hu]
      rfl

/-- A comparison with another rest. -/
def Strings.TagMatch.leaving (rest : List Char) : TagMatch → TagMatch
  | .whole _ => .whole rest
  | .differs taken _ => .differs taken rest
  | .ends => .ends

theorem matchTag_local (h : (matchTag tag (x ++ '\x7b' :: z)).rest = y ++ '\x7b' :: z) :
    matchTag tag (x ++ b :: q) = (matchTag tag (x ++ '\x7b' :: z)).leaving (y ++ b :: q) := by
  induction tag generalizing x with
  | nil =>
    simp only [matchTag, TagMatch.rest] at h
    rw [List.append_cancel_right h]
    rfl
  | cons e tag ih =>
    cases x with
    | nil =>
      have hlength : (matchTag (e :: tag) ('\x7b' :: z)).rest.length ≤ z.length := by
        rw [matchTag]
        split
        · have hrest := matchTag_length tag z
          cases hm : matchTag tag z <;> simp_all [TagMatch.rest]
        · exact Nat.le_refl _
      rw [List.nil_append] at h
      exact (not_left (h ▸ hlength)).elim
    | cons d x =>
      rw [List.cons_append, matchTag] at h
      rw [List.cons_append, List.cons_append, matchTag, matchTag]
      by_cases hd : d = e
      · rw [if_pos hd] at h ⊢
        have hrest : (matchTag tag (x ++ '\x7b' :: z)).rest = y ++ '\x7b' :: z := by
          cases hm : matchTag tag (x ++ '\x7b' :: z) <;> simp_all [TagMatch.rest]
        rw [if_pos hd, ih hrest]
        cases matchTag tag (x ++ '\x7b' :: z) <;> rfl
      · rw [if_neg hd] at h ⊢
        have hrest : x = y := List.append_cancel_right h
        rw [if_neg hd, hrest]
        rfl

theorem dollarTagged_whole {r rest : List Char} (h : matchTag tag r = .whole rest) :
    dollarTagged tag ('$' :: r) =
      if rest.head? = some '$' then some ([], rest.tail)
      else (dollarTagged tag rest).map fun x => ('$' :: tag ++ x.1, x.2) := by
  rw [dollarTagged.eq_def]
  simp only [if_pos]
  split <;> simp_all

theorem dollarTagged_differs {r taken rest : List Char} (h : matchTag tag r = .differs taken rest) :
    dollarTagged tag ('$' :: r) =
      (dollarTagged tag rest).map fun x => ('$' :: taken ++ x.1, x.2) := by
  rw [dollarTagged.eq_def]
  simp only [if_pos]
  split <;> simp_all

/-- A closing tag is read. -/
theorem dollarTagged_lt (h : dollarTagged tag s = some (t, w)) : w.length < s.length := by
  have hsource := congrArg List.length (eq_of_dollarTagged h)
  simp only [List.length_append, List.length_cons] at hsource
  omega

/-- What a comparison with the tag leaves still holds the closing tag, so it
reaches back before the place. -/
theorem left_of_dollarTagged {rest : List Char}
    (h : dollarTagged tag rest = some (t, y ++ '\x7b' :: z)) (hrest : rest <:+ x ++ '\x7b' :: z) :
    ∃ e v, rest = e :: v ++ '\x7b' :: z := by
  have hlt := dollarTagged_lt h
  rw [List.length_append] at hlt
  obtain ⟨v, rfl⟩ := exists_left hrest (by omega)
  cases v with
  | nil =>
    rw [List.nil_append] at hlt
    omega
  | cons e v => exact ⟨e, v, rfl⟩

/-- A string between tags that is closed before a place. -/
theorem dollarTagged_local
    (h : dollarTagged tag (x ++ '\x7b' :: z) = some (t, y ++ '\x7b' :: z)) :
    dollarTagged tag (x ++ b :: q) = some (t, y ++ b :: q) := by
  generalize hs : x ++ '\x7b' :: z = s at h
  fun_induction dollarTagged tag s generalizing x t with
  | case1 => cases h
  | case2 => cases h
  | case3 r rest hm hhead =>
    obtain ⟨x, rfl, rfl⟩ := exists_before (by decide) hs.symm
    obtain ⟨v, rfl⟩ := List.head?_eq_some_iff.1 hhead
    simp only [List.tail_cons, Option.some.injEq, Prod.mk.injEq] at h
    obtain ⟨rfl, rfl⟩ := h
    have hmatch := matchTag_local (y := '$' :: y) (b := b) (q := q) (congrArg TagMatch.rest hm)
    rw [hm] at hmatch
    rw [List.cons_append, dollarTagged_whole hmatch]
    rfl
  | case4 r rest hm hhead ih =>
    obtain ⟨x, rfl, rfl⟩ := exists_before (by decide) hs.symm
    obtain ⟨⟨u, v⟩, hu, he⟩ := Option.map_eq_some_iff.1 h
    cases he
    have hsource := eq_of_matchTag tag (x ++ '\x7b' :: z)
    rw [hm] at hsource
    obtain ⟨e, v, rfl⟩ := left_of_dollarTagged hu ⟨tag, hsource.symm⟩
    have hmatch := matchTag_local (y := e :: v) (b := b) (q := q) (congrArg TagMatch.rest hm)
    rw [hm] at hmatch
    have hhead' : (e :: v ++ b :: q).head? ≠ some '$' := hhead
    rw [List.cons_append, dollarTagged_whole hmatch, if_neg hhead', ih rfl hu]
    rfl
  | case5 r taken rest hm ih =>
    obtain ⟨x, rfl, rfl⟩ := exists_before (by decide) hs.symm
    obtain ⟨⟨u, v⟩, hu, he⟩ := Option.map_eq_some_iff.1 h
    cases he
    have hsource := eq_of_matchTag tag (x ++ '\x7b' :: z)
    rw [hm] at hsource
    obtain ⟨e, v, rfl⟩ := left_of_dollarTagged hu ⟨taken, hsource.symm⟩
    have hmatch := matchTag_local (y := e :: v) (b := b) (q := q) (congrArg TagMatch.rest hm)
    rw [hm] at hmatch
    rw [List.cons_append, dollarTagged_differs hmatch, ih rfl hu]
    rfl
  | case6 c r hc ih =>
    obtain ⟨u, hu, rfl⟩ := push_eq_some h
    cases x with
    | nil =>
      cases hs
      exact (not_left (Nat.le_of_lt (dollarTagged_lt hu))).elim
    | cons d x =>
      cases hs
      have hrest := ih rfl hu
      rw [List.cons_append, dollarTagged.eq_def]
      simp only [hc, if_false, hrest]
      rfl

/-! ## Comments -/

theorem blockComment_local {last : Char}
    (h : blockComment n last (x ++ '\x7b' :: z) = some (y ++ '\x7b' :: z)) :
    blockComment n last (x ++ b :: q) = some (y ++ b :: q) := by
  induction x generalizing n last with
  | nil =>
    rw [List.nil_append, blockComment.eq_def] at h
    have hbrace : '\x7b' ≠ '*' ∧ '\x7b' ≠ '/' := by decide
    simp only [hbrace.1, hbrace.2, and_false, if_false] at h
    exact (not_left (blockComment_length h)).elim
  | cons d x ih =>
    rw [List.cons_append, blockComment.eq_def] at h ⊢
    dsimp only at h ⊢
    by_cases hopen : last = '/' ∧ d = '*'
    · rw [if_pos hopen] at h ⊢
      exact ih h
    rw [if_neg hopen] at h ⊢
    by_cases hclose : last = '*' ∧ d = '/'
    · rw [if_pos hclose] at h ⊢
      cases n with
      | zero =>
        simp only [Option.some.injEq] at h
        rw [List.append_cancel_right h]
      | succ n => exact ih h
    · rw [if_neg hclose] at h ⊢
      exact ih h

/-! ## Numbers -/

open Rule

/-- A run of digits with something behind it that is no digit. -/
theorem digits_append (h : digits s ≠ s ∨ w.head?.any Char.isDigit = false) :
    digits (s ++ w) = digits s := by
  induction s with
  | nil =>
    rcases h with h | h
    · exact absurd rfl h
    · cases w with
      | nil => rfl
      | cons d w =>
        have hd : d.isDigit = false := by simpa using h
        simp [digits, hd]
  | cons d s ih =>
    by_cases hd : d.isDigit = true
    · have hstep : ∀ r, digits (d :: r) = d :: digits r := by simp [digits, hd]
      rw [List.cons_append, hstep, hstep, ih]
      refine h.imp (fun hne heq => hne ?_) id
      rw [hstep, heq]
    · have hstep : ∀ r, digits (d :: r) = [] := by simp [digits, hd]
      rw [List.cons_append, hstep, hstep]

/-- Whether no number goes on with a character. -/
def stopsNumber (c : Char) : Bool := !c.isDigit && !".eE+-".toList.contains c

/-- What of an exponent has no digits yet. -/
def exponentStarts : List (List Char) := ["e", "E", "e+", "e-", "E+", "E-"].map String.toList

theorem digits_length_le (s : List Char) : (digits s).length ≤ s.length :=
  (List.takeWhile_prefix Char.isDigit).length_le

/-- An exponent with something behind the text that it is read from: nothing
changes unless the text is taken to its end. -/
theorem exponent_append (h : s ∉ exponentStarts ∧ s ≠ [] ∧ exponent s ≠ s) :
    exponent (s ++ w) = exponent s := by
  obtain ⟨hstart, hne, hshort⟩ := h
  cases s with
  | nil => exact absurd rfl hne
  | cons e r =>
    rw [List.cons_append]
    by_cases he : e = 'e' ∨ e = 'E'
    · cases r with
      | nil =>
        exfalso
        apply hstart
        rcases he with rfl | rfl <;> decide
      | cons c r =>
        simp only [exponent, he, if_true, List.cons_append] at hshort ⊢
        by_cases hc : c = '+' ∨ c = '-'
        · simp only [hc, if_true, List.length_singleton, List.drop_succ_cons, List.drop_zero]
            at hshort ⊢
          have hr : r ≠ [] := by
            rintro rfl
            apply hstart
            rcases he with rfl | rfl <;> rcases hc with rfl | rfl <;> decide
          have hdigits : digits (r ++ w) = digits r := by
            refine digits_append (Or.inl fun hall => hshort ?_)
            rw [hall, if_neg (by simpa using hr)]
            rfl
          rw [hdigits]
        · simp only [hc, if_false, List.length_nil, List.drop_zero] at hshort ⊢
          have hdigits : digits (c :: r ++ w) = digits (c :: r) := by
            refine digits_append (Or.inl fun hall => hshort ?_)
            rw [hall]
            rfl
          rw [← List.cons_append, hdigits]
    · simp only [exponent, he, if_false]

/-- An exponent before a character that does not belong to it. -/
theorem exponent_of_stop (h : w.head?.all stopsNumber = true) :
    exponent (s ++ w) = exponent s := by
  have hdigit : w.head?.any Char.isDigit = false := by
    cases w with
    | nil => rfl
    | cons d w =>
      have hd : stopsNumber d = true := h
      simp only [stopsNumber, Bool.and_eq_true, Bool.not_eq_true'] at hd
      exact hd.1
  have hnone : ∀ c, stopsNumber c = false → w.head? ≠ some c := by
    intro c hc hhead
    rw [hhead] at h
    simp [hc] at h
  cases s with
  | nil =>
    cases w with
    | nil => rfl
    | cons d w =>
      have hd : ¬ (d = 'e' ∨ d = 'E') := by
        rintro (rfl | rfl)
        · exact hnone 'e' (by decide) rfl
        · exact hnone 'E' (by decide) rfl
      simp only [List.nil_append, exponent, hd, if_false]
  | cons e r =>
    rw [List.cons_append]
    by_cases he : e = 'e' ∨ e = 'E'
    · cases r with
      | nil =>
        have hw : digits w = [] := by
          have hdigits := digits_append (s := []) (Or.inr hdigit)
          exact hdigits
        cases w with
        | nil => rfl
        | cons d w =>
          have hd : ¬ (d = '+' ∨ d = '-') := by
            rintro (rfl | rfl)
            · exact hnone '+' (by decide) rfl
            · exact hnone '-' (by decide) rfl
          simp only [List.nil_append, exponent, he, if_true, hd, if_false, List.length_nil,
            List.drop_zero, hw]
          rfl
      | cons c r =>
        simp only [exponent, he, if_true, List.cons_append]
        by_cases hc : c = '+' ∨ c = '-'
        · simp only [hc, if_true, List.length_singleton, List.drop_succ_cons, List.drop_zero,
            digits_append (Or.inr hdigit)]
        · simp only [hc, if_false, List.length_nil, List.drop_zero]
          rw [← List.cons_append, digits_append (Or.inr hdigit)]
    · simp only [exponent, he, if_false]

/-- A number without its exponent. -/
def numberBase (s : List Char) : List Char :=
  let whole := digits s
  let r := s.drop whole.length
  let point := if r.head? = some '.' then ['.'] else []
  whole ++ point ++ digits (r.drop point.length)

theorem numberText_eq (s : List Char) : numberText s =
    if numberBase s = ['.'] then numberBase s
    else numberBase s ++ exponent (s.drop (numberBase s).length) := rfl

theorem numberBase_length_le (s : List Char) : (numberBase s).length ≤ s.length := by
  have hle := (numberText_begins s).length_le
  rw [numberText_eq] at hle
  split at hle
  · exact hle
  · rw [List.length_append] at hle
    omega

/-- The base of a number, unless it is taken to the end of the text. -/
theorem numberBase_append (h : (numberBase s).length < s.length ∨
    w.head?.all stopsNumber = true) : numberBase (s ++ w) = numberBase s := by
  have hstop : w.head?.all stopsNumber = true →
      w.head?.any Char.isDigit = false ∧ w.head? ≠ some '.' := by
    intro hw
    cases w with
    | nil => exact ⟨rfl, by simp⟩
    | cons d w =>
      have hd : stopsNumber d = true := hw
      have hpoint : d ≠ '.' := ne_of_test hd (by decide)
      simp only [stopsNumber, Bool.and_eq_true, Bool.not_eq_true'] at hd
      exact ⟨hd.1, by simpa using hpoint⟩
  have hwhole : digits (s ++ w) = digits s := by
    refine digits_append (h.imp (fun hlt hall => ?_) fun hw => (hstop hw).1)
    rw [numberBase, hall, List.length_append, List.length_append] at hlt
    omega
  have hle := digits_length_le s
  simp only [numberBase] at h ⊢
  rw [hwhole, List.drop_append_of_le_length hle]
  generalize hr : s.drop (digits s).length = r at h ⊢
  have hlength : s.length = (digits s).length + r.length := by
    rw [← hr, List.length_drop]
    omega
  have hpoint : (r ++ w).head? = some '.' ↔ r.head? = some '.' := by
    cases r with
    | nil =>
      rcases h with h | h
      · simp only [List.length_append, List.length_nil] at h hlength
        omega
      · simpa using (hstop h).2
    | cons d r => rfl
  simp only [hpoint]
  by_cases hdot : r.head? = some '.'
  · obtain ⟨r, rfl⟩ := List.head?_eq_some_iff.1 hdot
    simp only [List.head?_cons, if_true, List.cons_append, List.length_singleton,
      List.drop_succ_cons, List.drop_zero] at h ⊢
    rw [digits_append (h.imp (fun hlt hall => ?_) fun hw => (hstop hw).1)]
    simp only [hall, List.length_append, List.length_cons] at hlt hlength
    omega
  · simp only [hdot, if_false, List.length_nil, List.drop_zero] at h ⊢
    rw [digits_append (h.imp (fun hlt hall => ?_) fun hw => (hstop hw).1)]
    simp only [hall, List.length_append, List.length_nil] at hlt
    omega

/-- **A number that ends before a place**, unless what stands between is an
exponent without digits. -/
theorem numberText_of_short (hlt : (numberText s).length < s.length)
    (h : numberText s = ['.'] ∨ s.drop (numberText s).length ∉ exponentStarts) :
    numberText (s ++ w) = numberText s := by
  have hbase : (numberBase s).length < s.length := by
    rw [numberText_eq] at hlt
    split at hlt
    · exact hlt
    · rw [List.length_append] at hlt
      omega
  rw [numberText_eq, numberText_eq, numberBase_append (Or.inl hbase)]
  by_cases hpoint : numberBase s = ['.']
  · rw [if_pos hpoint, if_pos hpoint]
  have htext : numberText s = numberBase s ++ exponent (s.drop (numberBase s).length) := by
    rw [numberText_eq, if_neg hpoint]
  rw [if_neg hpoint, if_neg hpoint, List.drop_append_of_le_length (by omega)]
  congr 1
  refine exponent_append ⟨fun hstart => ?_, by simp; omega, fun hall => ?_⟩
  · have hnone : ∀ e ∈ exponentStarts, exponent e = [] := by decide
    rw [hnone _ hstart, List.append_nil] at htext
    rw [htext] at h
    rcases h with h | h
    · exact hpoint h
    · exact h hstart
  · rw [htext, hall, List.length_append, List.length_drop] at hlt
    omega

/-- **A number before a character that does not belong to it.** -/
theorem numberText_of_stop (h : w.head?.all stopsNumber = true) :
    numberText (s ++ w) = numberText s := by
  rw [numberText_eq, numberText_eq, numberBase_append (Or.inr h),
    List.drop_append_of_le_length (numberBase_length_le s), exponent_of_stop h]

end DealSql.Statement
