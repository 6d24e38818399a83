import DealSql.Proofs.TokenSeams
import DealSql.Proofs.WholeTexts

/-!
# What tokens are read from

Each token is read from the characters that the one before it left, so what
tokens are read from makes up the statement.  Most of them print the braces
that they were read with, and no others: a comment prints none, an escape
may stand for a brace that is not there, and the question mark of PostgreSQL
takes the next character with it, whatever it is.

* `find_source` — what a token is read from.
* `spans_of_tokens` — the tokens of a statement and what they were read from.
* `braces_stripComments` — the braces in the code of a statement.
-/

namespace DealSql.Statement

open DealSql.Text DealSql.Statement.Strings

/-! ## Braces -/

/-- Whether a character is a brace. -/
def isBrace (c : Char) : Bool := c == '\x7b' || c == '\x7d'

/-- What a token prints of the braces it was read with is known, unless it is
a comment, decodes what it holds, or is a question mark. -/
def Token.isFaithful : Token → Bool
  | .comment => false
  | .string .escaped _ => false
  | .string .unicode _ => false
  | .symbol s => s ≠ ['?']
  | _ => true

/-- The braces of a text. -/
def braces (s : List Char) : List Char := s.filter isBrace

/-- A token that leaves some of a text was read from the rest of it, and
prints the braces there if it is faithful. -/
def Token.IsRead (s rest : List Char) (t : Token) : Prop :=
  ∃ source, s = source ++ rest ∧ (t.isFaithful = true → braces t.text = braces source)

variable {d : Dialect} {c stop : Char} {s t r rest tag inside : List Char} {u : Token}

theorem braces_append (s t : List Char) : braces (s ++ t) = braces s ++ braces t :=
  List.filter_append s t

theorem braces_cons (c : Char) (s : List Char) : braces (c :: s) = braces [c] ++ braces s :=
  braces_append [c] s

theorem braces_eq_nil : braces s = [] ↔ ∀ c ∈ s, isBrace c = false := by
  simp [braces, List.filter_eq_nil_iff]

/-- A token that prints as it was read. -/
theorem isRead_of_text (h : s = u.text ++ rest) : u.IsRead s rest :=
  ⟨u.text, h, fun _ => rfl⟩

/-- A token that prints no brace and was read from none. -/
theorem isRead_of_none (source : List Char) (h : s = source ++ rest)
    (hsource : ∀ c ∈ source, isBrace c = false) (htext : ∀ c ∈ u.text, isBrace c = false) :
    u.IsRead s rest :=
  ⟨source, h, fun _ => (braces_eq_nil.2 htext).trans (braces_eq_nil.2 hsource).symm⟩

/-- No character that passes a test which braces fail is a brace. -/
theorem not_brace {p : Char → Bool} (hp : p '\x7b' = false ∧ p '\x7d' = false)
    (hc : p c = true) : isBrace c = false := by
  have hopen : c ≠ '\x7b' := ne_of_test hc hp.1
  have hclose : c ≠ '\x7d' := ne_of_test hc hp.2
  simp [isBrace, hopen, hclose]

/-! ## Quoted texts -/

/-- What is read up to a closing mark is what quoting would write. -/
theorem eq_of_closeQuoted (h : closeQuoted stop s = some (t, rest)) :
    s = double stop t ++ stop :: rest := by
  fun_induction closeQuoted stop s generalizing t rest with
  | case1 => cases h
  | case2 =>
    cases h
    simp [double]
  | case3 r' ih =>
    obtain ⟨⟨u, v⟩, hx, he⟩ := Option.map_eq_some_iff.1 h
    cases he
    rw [ih hx, double_cons, if_pos rfl]
    simp
  | case4 d r' hd =>
    cases h
    simp [double]
  | case5 c r hc ih =>
    obtain ⟨⟨u, v⟩, hx, he⟩ := Option.map_eq_some_iff.1 h
    cases he
    rw [ih hx, double_cons, if_neg hc]
    simp

theorem braces_double (hstop : isBrace stop = false) (t : List Char) :
    braces (double stop t) = braces t := by
  induction t with
  | nil => rfl
  | cons c t ih =>
    rw [double_cons, braces_append, ih, braces_cons c]
    congr 1
    split
    · next hc => simp [braces, hc, hstop]
    · rfl

/-- A string with escapes is read up to its closing mark.  Its braces are
those of its text when this is so of its escapes. -/
theorem closeEscaped_source {rule : EscapeRule} {keeps : Prop}
    (hrule : ∀ s c rest, rule.read s = some (c, rest) →
      ∃ source, s = source ++ rest ∧ (keeps → braces [c] = braces source))
    (h : closeEscaped rule s = some (t, rest)) :
    ∃ source, s = source ++ rest ∧ (keeps → braces t = braces source) := by
  fun_induction closeEscaped rule s generalizing t rest with
  | case1 => cases h
  | case2 r hr ih =>
    obtain ⟨u, hu, rfl⟩ := push_eq_some h
    obtain ⟨source, hsource, hkeeps⟩ := ih hu
    obtain ⟨x, rfl⟩ := List.head?_eq_some_iff.1 hr
    exact ⟨'\'' :: '\'' :: source, by simpa using hsource, hkeeps⟩
  | case3 r hr =>
    cases h
    exact ⟨['\''], rfl, fun _ => rfl⟩
  | case4 r c rest' hread hq ih =>
    obtain ⟨u, hu, rfl⟩ := push_eq_some h
    obtain ⟨source, rfl, hkeeps⟩ := ih hu
    obtain ⟨escape, rfl, hescape⟩ := hrule _ _ _ hread
    refine ⟨'\\' :: escape ++ source, by simp, fun hk => ?_⟩
    rw [braces_cons, hescape hk, hkeeps hk, ← braces_append]
    rfl
  | case5 => cases h
  | case6 c r hc _ ih =>
    obtain ⟨u, hu, rfl⟩ := push_eq_some h
    obtain ⟨source, rfl, hkeeps⟩ := ih hu
    refine ⟨c :: source, rfl, fun hk => ?_⟩
    rw [braces_cons, hkeeps hk, ← braces_cons]

/-- In national strings no brace is escaped by another character, nor escapes one. -/
theorem nationalEscape_source (h : nationalEscape s = some (c, rest)) :
    ∃ source, s = source ++ rest ∧ braces [c] = braces source := by
  cases s with
  | nil => cases h
  | cons e r =>
    cases h
    refine ⟨[e], rfl, ?_⟩
    cases hcontrol : nationalControl? e with
    | none => rfl
    | some x =>
      have hbraces : isBrace x = false ∧ isBrace e = false := by
        unfold nationalControl? control? at hcontrol
        repeat' split at hcontrol
        all_goals first
          | (cases hcontrol; decide)
          | cases hcontrol
      simp [braces, hbraces]

theorem codePoint_suffix {n : Nat} {digits : List Char → List Char}
    (h : codePoint n digits s = some (c, rest)) : rest <:+ s := by
  unfold codePoint at h
  split at h
  · obtain ⟨x, -, he⟩ := Option.map_eq_some_iff.1 h
    cases he
    exact List.drop_suffix _ _
  · cases h

theorem byteEscape_suffix (h : byteEscape s = some (c, rest)) : rest <:+ s := by
  cases s with
  | nil => cases h
  | cons e r =>
    have hx := (Option.filter_eq_some_iff.1 h).1
    refine List.IsSuffix.trans ?_ (List.suffix_cons e r)
    dsimp only at hx
    split at hx
    · cases hx
      exact List.suffix_rfl
    split at hx
    · exact codePoint_suffix hx
    split at hx
    · exact codePoint_suffix hx
    split at hx
    · split at hx
      · cases hx
        exact List.suffix_rfl
      · obtain ⟨y, -, he⟩ := Option.map_eq_some_iff.1 hx
        cases he
        exact List.drop_suffix _ _
    split at hx
    · obtain ⟨y, -, he⟩ := Option.map_eq_some_iff.1 hx
      cases he
      exact List.drop_suffix _ _
    · cases hx
      exact List.suffix_rfl

theorem unicodeEscape_suffix (h : unicodeEscape s = some (c, rest)) : rest <:+ s := by
  unfold unicodeEscape at h
  split at h
  · cases h
    exact List.suffix_cons _ _
  · exact (codePoint_suffix h).trans (List.suffix_cons _ _)
  · exact codePoint_suffix h

/-! ## Strings between dollar signs -/

theorem eq_of_dollarPlain {afterDollar : Bool} (h : dollarPlain afterDollar s = some (t, rest)) :
    (if afterDollar then '$' :: s else s) = t ++ '$' :: '$' :: rest := by
  induction s generalizing afterDollar t with
  | nil => cases h
  | cons c r ih =>
    rw [dollarPlain] at h
    split at h
    · next hafter =>
      rw [if_pos hafter]
      split at h
      · next hc =>
        cases h
        rw [hc]
        rfl
      · obtain ⟨u, hu, rfl⟩ := push_eq_some h
        obtain ⟨v, hv, rfl⟩ := push_eq_some hu
        have hrest := ih hv
        rw [if_neg Bool.false_ne_true] at hrest
        rw [hrest]
        rfl
    · next hafter =>
      rw [if_neg hafter]
      split at h
      · next hc =>
        have hrest := ih h
        rw [if_pos rfl] at hrest
        rw [hc, hrest]
      · obtain ⟨u, hu, rfl⟩ := push_eq_some h
        have hrest := ih hu
        rw [if_neg Bool.false_ne_true] at hrest
        rw [hrest]
        rfl

/-- What a comparison with a tag has gone through. -/
theorem eq_of_matchTag (tag s : List Char) : match matchTag tag s with
    | .whole rest => s = tag ++ rest
    | .differs taken rest => s = taken ++ rest
    | .ends => True := by
  induction tag generalizing s with
  | nil => rfl
  | cons x tag ih =>
    cases s with
    | nil => trivial
    | cons c r =>
      have hrest := ih r
      rw [matchTag]
      by_cases hc : c = x
      · rw [if_pos hc]
        cases hmatch : matchTag tag r with
        | ends => trivial
        | whole rest =>
          rw [hmatch] at hrest
          dsimp only at hrest ⊢
          rw [hc, hrest, List.cons_append]
        | differs taken rest =>
          rw [hmatch] at hrest
          dsimp only at hrest ⊢
          rw [hrest, List.cons_append]
      · rw [if_neg hc]
        rfl

theorem eq_of_dollarTagged (h : dollarTagged tag s = some (t, rest)) :
    s = t ++ '$' :: tag ++ '$' :: rest := by
  fun_induction dollarTagged tag s generalizing t rest with
  | case1 => cases h
  | case2 => cases h
  | case3 r rest' hm hhead =>
    have hwhole := eq_of_matchTag tag r
    rw [hm] at hwhole
    cases h
    obtain ⟨x, hx⟩ : ∃ x, rest' = '$' :: x := by
      cases rest' with
      | nil => cases hhead
      | cons y x =>
        obtain rfl : y = '$' := by simpa using hhead
        exact ⟨x, rfl⟩
    subst hx
    simpa using hwhole
  | case4 r rest' hm _ ih =>
    have hwhole := eq_of_matchTag tag r
    rw [hm] at hwhole
    obtain ⟨⟨u, v⟩, hu, he⟩ := Option.map_eq_some_iff.1 h
    cases he
    dsimp only at hwhole
    rw [hwhole, ih hu]
    simp
  | case5 r taken rest' hm ih =>
    have hdiffers := eq_of_matchTag tag r
    rw [hm] at hdiffers
    obtain ⟨⟨u, v⟩, hu, he⟩ := Option.map_eq_some_iff.1 h
    cases he
    dsimp only at hdiffers
    rw [hdiffers, ih hu]
    simp
  | case6 c r _ ih =>
    obtain ⟨u, hu, rfl⟩ := push_eq_some h
    rw [ih hu]
    rfl

/-! ## Comments -/

theorem afterFirst_suffix (stop : Char) (s : List Char) : afterFirst stop s <:+ s :=
  (List.drop_suffix _ _).trans (List.dropWhile_suffix _)

theorem blockComment_suffix {n : Nat} {last : Char} (h : blockComment n last s = some rest) :
    rest <:+ s := by
  induction s generalizing n last with
  | nil => cases h
  | cons c r ih =>
    refine List.IsSuffix.trans ?_ (List.suffix_cons c r)
    rw [blockComment.eq_def] at h
    dsimp only at h
    split at h
    · exact ih h
    split at h
    · split at h
      · cases h
        exact List.suffix_rfl
      · exact ih h
    · exact ih h

/-! ## The rules one by one -/

namespace Rule

theorem source_blank (h : readBlank d c r = .token u rest) : u.IsRead (c :: r) rest := by
  unfold readBlank at h
  split at h
  · cases h
    exact isRead_of_text rfl
  split at h
  · next hc =>
    cases h
    have htext : ∀ x ∈ (Token.blank '\n').text, isBrace x = false := by decide
    split
    · next hhead =>
      obtain ⟨x, rfl⟩ : ∃ x, r = '\n' :: x := List.head?_eq_some_iff.1 hhead
      exact isRead_of_none ['\r', '\n'] (by simp [hc]) (by decide) htext
    · exact isRead_of_none ['\r'] (by simp [hc]) (by decide) htext
  · cases h

/-- No string begins with a brace. -/
theorem stringOpening_source {k : StringKind} (h : stringOpening? d c r = some (k, inside)) :
    ∃ source, c :: r = source ++ inside ∧ ∀ x ∈ source, isBrace x = false := by
  have hletter : ∀ x, isBrace x = false → c.toLower = x → isBrace c = false := by
    rintro x hx rfl
    cases hc : isBrace c with
    | false => rfl
    | true =>
      rcases (by simpa [isBrace] using hc : c = '\x7b' ∨ c = '\x7d') with rfl | rfl
      · exact absurd hx (by decide)
      · exact absurd hx (by decide)
  have hmark : ∀ x, isBrace x = false → isBrace c = false → r.head? = some x →
      ∃ source, c :: r = source ++ r.tail ∧ ∀ y ∈ source, isBrace y = false := by
    intro x hx hc hhead
    obtain ⟨y, rfl⟩ := List.head?_eq_some_iff.1 hhead
    exact ⟨[c, x], rfl, by simp [hc, hx]⟩
  unfold stringOpening? at h
  dsimp only at h
  split at h
  · next hc =>
    cases h
    exact ⟨[c], rfl, by simp [hc, isBrace]⟩
  split at h
  · next hc =>
    cases h
    exact hmark '\'' (by decide) (hletter 'b' (by decide) hc.1) hc.2.2
  split at h
  · next hc =>
    cases h
    exact hmark '"' (by decide) (hletter 'b' (by decide) hc.1) hc.2.2
  split at h
  · next hc =>
    cases h
    exact hmark '\'' (by decide) (hletter 'n' (by decide) hc.1) hc.2
  split at h
  · next hc =>
    cases h
    exact hmark '\'' (by decide) (hletter 'x' (by decide) hc.1) hc.2
  split at h
  · next hc =>
    cases h
    exact hmark '\'' (by decide) (hletter 'e' (by decide) hc.1) hc.2
  split at h
  · next hc =>
    cases h
    obtain ⟨y, rfl⟩ := List.head?_eq_some_iff.1 hc.2.2.1
    obtain ⟨z, rfl⟩ := List.head?_eq_some_iff.1 hc.2.2.2
    have hnone : isBrace c = false := hletter 'u' (by decide) hc.1
    exact ⟨[c, '&', '\''], rfl, List.forall_mem_cons.2 ⟨hnone, by decide⟩⟩
  · cases h

/-- A string is read up to its closing mark. -/
theorem closeString_source {k : StringKind} (h : closeString k inside = some (t, rest)) :
    ∃ source, inside = source ++ rest ∧
      ((Token.string k t).isFaithful = true → braces t = braces source) := by
  have hquoted : ∀ stop, isBrace stop = false → closeQuoted stop inside = some (t, rest) →
      ∃ source, inside = source ++ rest ∧
        ((Token.string k t).isFaithful = true → braces t = braces source) := by
    intro stop hstop hread
    refine ⟨double stop t ++ [stop], by simp [eq_of_closeQuoted hread], fun _ => ?_⟩
    have hclosing : braces [stop] = [] := braces_eq_nil.2 (by simpa using hstop)
    rw [braces_append, braces_double hstop, hclosing, List.append_nil]
  have hescaped : ∀ rule : EscapeRule, ∀ keeps : Prop,
      (∀ s c rest, rule.read s = some (c, rest) →
        ∃ source, s = source ++ rest ∧ (keeps → braces [c] = braces source)) →
      ((Token.string k t).isFaithful = true → keeps) →
      closeEscaped rule inside = some (t, rest) →
      ∃ source, inside = source ++ rest ∧
        ((Token.string k t).isFaithful = true → braces t = braces source) := by
    intro rule keeps hrule hkeeps hread
    obtain ⟨source, hsource, hsame⟩ := closeEscaped_source hrule hread
    exact ⟨source, hsource, fun hfaithful => hsame (hkeeps hfaithful)⟩
  have hnational := hescaped nationalEscapes True (fun _ _ _ he => by
    obtain ⟨e, he, hsame⟩ := nationalEscape_source he
    exact ⟨e, he, fun _ => hsame⟩) fun _ => trivial
  cases k with
  | plain => exact hquoted '\'' (by decide) h
  | bits => exact hquoted '\'' (by decide) h
  | wideBits => exact hquoted '"' (by decide) h
  | national => exact hnational h
  | hex => exact hnational h
  | escaped =>
    refine hescaped byteEscapes False (fun _ _ _ he => ?_) (fun hf => by cases hf) h
    obtain ⟨e, he⟩ := byteEscape_suffix he
    exact ⟨e, he.symm, False.elim⟩
  | unicode =>
    refine hescaped unicodeEscapes False (fun _ _ _ he => ?_) (fun hf => by cases hf) h
    obtain ⟨e, he⟩ := unicodeEscape_suffix he
    exact ⟨e, he.symm, False.elim⟩

theorem source_string (h : readString d c r = .token u rest) : u.IsRead (c :: r) rest := by
  obtain ⟨k, inside, s, hopen, hread, rfl⟩ := readString_eq_token h
  obtain ⟨opening, hopening, hnone⟩ := stringOpening_source hopen
  obtain ⟨source, hsource, hsame⟩ := closeString_source hread
  have hopens : braces k.opening = [] := by cases k <;> rfl
  have hcloses : braces [k.closing] = [] := by cases k <;> rfl
  refine ⟨opening ++ source, by rw [hopening, hsource, List.append_assoc], fun hfaithful => ?_⟩
  rw [Token.text, braces_append, braces_append, braces_append, hopens, hcloses,
    braces_eq_nil.2 hnone, hsame hfaithful, List.append_nil]

theorem source_name (h : readName d c r = .token u rest) : u.IsRead (c :: r) rest := by
  obtain ⟨stop, s, hstop, hread, rfl⟩ := readName_eq_token h
  have hall : ∀ x ∈ nameMarks, isBrace x.2 = false := by decide
  have hnone : isBrace stop = false := hall _ (nameClosing?_mem hstop)
  refine ⟨c :: double stop s ++ [stop], ?_, fun _ => ?_⟩
  · rw [eq_of_closeQuoted hread]
    simp
  · rw [Token.text, braces_append, braces_append]
    congr 1
    rw [braces_cons c s, braces_cons c (double stop s), braces_double hnone]

/-- What begins a text and what begins the rest of it. -/
theorem begins_append {a b s : List Char} (ha : a <+: s) (hb : b <+: s.drop a.length) :
    a ++ b <+: s := by
  obtain ⟨t, rfl⟩ := ha
  rw [List.drop_left] at hb
  exact (List.prefix_append_right_inj a).2 hb

theorem exponent_begins (s : List Char) : exponent s <+: s := by
  unfold exponent
  split
  · next e r =>
    split
    · extract_lets sign ds
      have hsign : sign <+: r := by
        simp only [sign]
        cases r with
        | nil => exact List.nil_prefix
        | cons x r =>
          dsimp only
          split
          · exact ⟨r, rfl⟩
          · exact List.nil_prefix
      split
      · exact List.nil_prefix
      · exact (List.prefix_cons_inj e).2 (begins_append hsign (List.takeWhile_prefix _))
    · exact List.nil_prefix
  · exact List.nil_prefix

/-- A number stands at the start of the text that it is read from. -/
theorem numberText_begins (s : List Char) : numberText s <+: s := by
  unfold numberText
  extract_lets whole r point fraction base
  have hpoint : point <+: r := by
    simp only [point]
    split
    · next hhead =>
      obtain ⟨x, hx⟩ := List.head?_eq_some_iff.1 hhead
      exact ⟨x, hx.symm⟩
    · exact List.nil_prefix
  have hwhole : whole ++ point <+: s := begins_append (List.takeWhile_prefix _) hpoint
  have hbase : base <+: s := by
    refine begins_append hwhole ?_
    rw [List.length_append, ← List.drop_drop]
    exact List.takeWhile_prefix _
  split
  · exact hbase
  · exact begins_append hbase (exponent_begins _)

theorem source_number (h : readNumber d c r = .token u rest) : u.IsRead (c :: r) rest := by
  unfold readNumber at h
  split at h
  · split at h
    · next hx =>
      cases h
      obtain ⟨rfl, hhead⟩ := hx
      obtain ⟨y, rfl⟩ := List.head?_eq_some_iff.1 hhead
      have hdigits : ∀ x ∈ y.takeWhile isHex, isBrace x = false := fun x hx =>
        not_brace (by decide) (List.all_eq_true.1 List.all_takeWhile x hx)
      refine isRead_of_none ('0' :: 'x' :: y.takeWhile isHex) (by simp) ?_ ?_
      · exact List.forall_mem_cons.2 ⟨by decide, List.forall_mem_cons.2 ⟨by decide, hdigits⟩⟩
      · rw [Token.text, List.forall_mem_append, List.forall_mem_append]
        exact ⟨⟨by decide, hdigits⟩, by decide⟩
    · next hc _ =>
      obtain ⟨y, hy⟩ := numberText_begins (c :: r)
      obtain ⟨x, hx⟩ : ∃ x, numberText (c :: r) = c :: x := by
        have hhead := (numberText_ends (r := r) hc).1
        exact List.head?_eq_some_iff.1 hhead
      have hrest : r.drop ((numberText (c :: r)).length - 1) = y := by
        rw [hx, List.cons_append, List.cons.injEq] at hy
        rw [hx, ← hy.2]
        simp
      dsimp only at h
      rw [hrest] at h
      split at h
      · next hpoint =>
        cases h
        rw [hpoint, List.singleton_append, List.cons.injEq] at hy
        refine isRead_of_text ?_
        rw [hpoint, ← hy.1]
        rfl
      split at h
      · next hhead =>
        obtain ⟨z, rfl⟩ := List.head?_eq_some_iff.1 hhead
        cases h
        refine isRead_of_text ?_
        rw [Token.text, List.append_assoc]
        exact hy.symm
      · cases h
        exact isRead_of_text hy.symm
  · cases h

theorem source_comment (h : readComment d c r = .token u rest) : u.IsRead (c :: r) rest := by
  have hcomment : rest <:+ c :: r → Token.comment.IsRead (c :: r) rest := by
    rintro ⟨source, hsource⟩
    exact ⟨source, hsource.symm, fun hfaithful => by cases hfaithful⟩
  unfold readComment at h
  split at h
  · cases h
    exact hcomment ((afterFirst_suffix '\n' r).trans (List.suffix_cons c r))
  split at h
  · split at h
    · next hblock =>
      cases h
      exact hcomment (((blockComment_suffix hblock).trans (List.tail_suffix r)).trans
        (List.suffix_cons c r))
    · cases h
  · cases h

theorem source_markedWord (h : readMarkedWord d c r = .token u rest) :
    u.IsRead (c :: r) rest := by
  unfold readMarkedWord at h
  dsimp only at h
  split at h
  · cases h
  · split at h
    · split at h <;> cases h
      exact isRead_of_text (by simp [Token.text])
    · split at h <;> cases h
      exact isRead_of_text (by simp [Token.text])
    · split at h <;> cases h
      exact isRead_of_text (by simp [Token.text])
    · cases h

theorem source_question (h : readQuestion d c r = .token u rest) : u.IsRead (c :: r) rest := by
  unfold readQuestion at h
  split at h
  · cases h
  next hc =>
  obtain rfl : c = '?' := by simpa using hc
  split at h
  · split at h
    · cases h
      exact isRead_of_text rfl
    · cases h
      exact isRead_of_text rfl
    · cases h
      exact ⟨'?' :: r.take 1, by cases r <;> simp, fun hfaithful => by cases hfaithful⟩
  · cases h
    exact isRead_of_text (by simp [Token.text])

/-- Operators are made of other characters. -/
theorem operators_braceFree : ∀ o ∈ integerDivision :: operators,
    ∀ x ∈ o.spelling ++ o.printed, isBrace x = false := by
  decide +kernel

theorem source_operator (h : readOperator d c r = .token u rest) : u.IsRead (c :: r) rest := by
  obtain ⟨o, ho, extra, hextra, hsource, rfl⟩ := readOperator_eq_token h
  have hnone := operators_braceFree o ho
  have hspelled : ∀ z ∈ o.spelling ++ extra, isBrace z = false := by
    intro z hz
    rcases List.mem_append.1 hz with hz | hz
    · exact hnone z (List.mem_append_left _ hz)
    · exact not_brace (by decide) (hextra z hz)
  refine isRead_of_none (o.spelling ++ extra) hsource hspelled ?_
  rw [Token.text]
  split
  · exact fun z hz => hnone z (List.mem_append_right _ hz)
  · exact hspelled

theorem source_word (h : readWord d c r = .token u rest) : u.IsRead (c :: r) rest := by
  unfold readWord at h
  split at h
  · cases h
    exact isRead_of_text (by simp [Token.text])
  · cases h

theorem source_dollar (h : readDollar d c r = .token u rest) : u.IsRead (c :: r) rest := by
  unfold readDollar at h
  split at h
  · cases h
  next hc =>
  obtain rfl : c = '$' := by simpa using hc
  split at h
  · next hhead =>
    obtain ⟨x, rfl⟩ := List.head?_eq_some_iff.1 hhead
    obtain ⟨s, hread, rfl⟩ := Found.ofReading_eq_token.1 h
    have hx := eq_of_dollarPlain hread
    rw [List.tail_cons, if_neg Bool.false_ne_true] at hx
    refine isRead_of_text ?_
    rw [hx]
    simp [Token.text]
  · dsimp only at h
    split at h
    · next hhead =>
      obtain ⟨x, hx⟩ := List.head?_eq_some_iff.1 hhead
      rw [hx, List.tail_cons] at h
      obtain ⟨s, hread, rfl⟩ := Found.ofReading_eq_token.1 h
      have hr : r = r.takeWhile isTagChar ++ '$' :: x := by
        rw [← hx, List.takeWhile_append_dropWhile]
      refine isRead_of_text ?_
      have hinside := eq_of_dollarTagged hread
      generalize r.takeWhile isTagChar = tag at hr hinside ⊢
      rw [hr, hinside]
      simp [Token.text]
    · cases h
      exact isRead_of_text (by simp [Token.text])

theorem source_other (h : other c r = .token u rest) : u.IsRead (c :: r) rest := by
  unfold other at h
  cases h
  split
  · next hblank =>
    have hc : isBrace c = false := not_brace (by decide) hblank
    exact isRead_of_none [c] rfl (by simpa using hc) (by decide)
  · exact isRead_of_text rfl

/-- **What a token is read from.** -/
theorem find_source (h : find d c r = .token u rest) : u.IsRead (c :: r) rest := by
  rcases find_eq_token h with ⟨rule, hrule, hread⟩ | ⟨-, hother⟩
  · simp only [all, List.mem_cons, List.not_mem_nil, or_false] at hrule
    rcases hrule with rfl | rfl | rfl | rfl | rfl | rfl | rfl | rfl | rfl | rfl
    · exact source_blank (d := d) hread
    · exact source_string hread
    · exact source_name hread
    · exact source_number (d := d) hread
    · exact source_comment (d := d) hread
    · exact source_markedWord hread
    · exact source_question hread
    · exact source_operator hread
    · exact source_word hread
    · exact source_dollar (d := d) hread
  · exact source_other hother

end Rule

/-! ## Statements -/

/-- A token and the characters that it was read from. -/
structure Span where
  source : List Char
  token : Token
  deriving Repr, DecidableEq

/-- The tokens of a statement, each with what it was read from. -/
def spans (d : Dialect) : List Char → Option (List Span)
  | [] => some []
  | c :: r =>
    match _h : Rule.find d c r with
    | .token t rest =>
      (spans d rest).map (⟨(c :: r).take ((c :: r).length - rest.length), t⟩ :: ·)
    | _ => none
termination_by s => s.length
decreasing_by
  have := Rule.find_length _h
  simp only [List.length_cons]
  omega

/-- The braces that a token shows: those that it was read with, if it is faithful. -/
def Span.shown (x : Span) : List Char :=
  if x.token.isFaithful then braces x.source else braces x.token.text

/-- What spans make up a text, and show the braces that they print. -/
structure AreSpansOf (ss : List Span) (s : List Char) : Prop where
  sources : ss.flatMap Span.source = s
  shown : ∀ x ∈ ss, braces x.token.text = x.shown

/-- What the first token of a statement was read from. -/
theorem spans_cons (h : Rule.find d c r = .token u rest) : ∃ source, c :: r = source ++ rest ∧
    spans d (c :: r) = (spans d rest).map (⟨source, u⟩ :: ·) ∧
      braces u.text = Span.shown ⟨source, u⟩ := by
  obtain ⟨source, hsource, hbraces⟩ := Rule.find_source h
  have htake : (c :: r).take ((c :: r).length - rest.length) = source := by
    rw [hsource, List.length_append, Nat.add_sub_cancel, List.take_left]
  refine ⟨source, hsource, ?_, ?_⟩
  · rw [spans]
    split
    · next hfind =>
      rw [h] at hfind
      cases hfind
      rw [htake]
    · next hnone => exact absurd h (hnone u rest)
  · unfold Span.shown
    split
    · next hfaithful => exact hbraces hfaithful
    · rfl

/-- The tokens of a statement have spans that make it up. -/
theorem spans_of_tokens {ts : List Token} (h : tokens d s = some ts) :
    ∃ ss, spans d s = some ss ∧ ss.map Span.token = ts ∧ AreSpansOf ss s := by
  induction ts generalizing s with
  | nil =>
    cases s with
    | nil => exact ⟨[], by rw [spans], rfl, rfl, by simp⟩
    | cons c r =>
      rw [tokens] at h
      split at h
      · obtain ⟨us, -, hus⟩ := Option.map_eq_some_iff.1 h
        cases hus
      · cases h
  | cons u ts ih =>
    obtain ⟨c, r, rest, rfl, hfind, hrest⟩ := tokens_eq_cons h
    obtain ⟨ss, hss, hmap, hspans⟩ := ih hrest
    obtain ⟨source, hsource, hcons, hshown⟩ := spans_cons hfind
    refine ⟨⟨source, u⟩ :: ss, by rw [hcons, hss]; rfl, by rw [List.map_cons, hmap], ?_, ?_⟩
    · rw [List.flatMap_cons, hspans.sources, hsource]
    · exact List.forall_mem_cons.2 ⟨hshown, hspans.shown⟩

/-- **The braces in the code of a statement** are those that its tokens show. -/
theorem braces_stripComments {code : List Char} (h : stripComments d s = some code) :
    ∃ ss, spans d s = some ss ∧ ss.flatMap Span.source = s ∧
      braces code = ss.flatMap Span.shown := by
  obtain ⟨ts, hts, rfl⟩ := Option.map_eq_some_iff.1 h
  obtain ⟨ss, hss, rfl, hspans⟩ := spans_of_tokens hts
  refine ⟨ss, hss, hspans.sources, ?_⟩
  have hall := hspans.shown
  clear hts hss hspans h
  induction ss with
  | nil => rfl
  | cons x ss ih =>
    obtain ⟨hx, hrest⟩ := List.forall_mem_cons.1 hall
    rw [List.map_cons, List.flatMap_cons, List.flatMap_cons, braces_append, hx, ih hrest]

end DealSql.Statement
