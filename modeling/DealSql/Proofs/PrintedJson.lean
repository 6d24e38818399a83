import DealSql.Json.Printer
import DealSql.Json.Reader
import DealSql.Proofs.Characters
import DealSql.Proofs.Numerals
import Mathlib.Tactic.SplitIfs

/-!
# Reading printed JSON

What is printed is read back, as long as its numbers are integers and its
arrays and objects are not nested too deeply for the reader.  The text is
first seen to spell the tokens of the value (`tokens?_print`), however its
lines are indented; the machine, where it expects a value, then takes these
tokens to that value (`run_tokens`).

* `upToQuote_escaped` — a string is read back, whatever its characters.
* `number?_integer` — an integer is read back.
* `read?_print` — a value is read back.
-/

namespace DealSql.Json

open DealSql.Text

/-! ## Strings -/

/-- Two digits give a control character back. -/
theorem hexValue?_control : ∀ n < 32,
    hexValue? ['0', '0', hexDigit (n / 16), hexDigit (n % 16)] = some n := by decide

/-- A backslash begins the escape that is read behind it. -/
theorem upToQuote_escape {r rest : List Char} {c : Char} (h : escape r = some (c, rest)) :
    upToQuote escapes isPlain ('\\' :: r) = push c (upToQuote escapes isPlain rest) := by
  have hread : escapes.read r = some (c, rest) := h
  rw [upToQuote.eq_def]
  simp only [Char.reduceEq, if_false, if_true]
  split
  · next d rest' heq =>
    cases hread.symm.trans heq
    rfl
  · next heq => cases hread.symm.trans heq

/-- The escape of a control character is read back. -/
theorem escape_control {c : Char} (h : c.toNat < 0x20) (rest : List Char) :
    escape ('u' :: '0' :: '0' :: hexDigit (c.toNat / 16) :: hexDigit (c.toNat % 16) :: rest) =
      some (c, rest) := by
  have hunit : unit ('0' :: '0' :: hexDigit (c.toNat / 16) :: hexDigit (c.toNat % 16) :: rest) =
      some (c.toNat, rest) := by
    simp [unit, hexValue?_control c.toNat h]
  have hsurrogate : ¬ (0xD800 ≤ c.toNat ∧ c.toNat < 0xDC00) := by omega
  have hvalid : c.toNat.isValidChar := c.valid
  have hchar : charOf? c.toNat = some c := by
    rw [charOf?, if_pos hvalid, Char.ofNat_toNat]
  rw [escape, if_pos rfl, unicodeEscape, hunit, Option.bind_some, if_neg hsurrogate, hchar]
  rfl

/-- What stands for a character in a string is read as the character. -/
theorem upToQuote_escapeChar (c : Char) (rest : List Char) :
    upToQuote escapes isPlain (escapeChar c ++ rest) = push c (upToQuote escapes isPlain rest) := by
  rw [escapeChar]
  split_ifs with hquote hbackslash hfeed hreturn htab hback hform hcontrol
  · subst hquote
    exact upToQuote_escape rfl
  · subst hbackslash
    exact upToQuote_escape rfl
  · subst hfeed
    exact upToQuote_escape rfl
  · subst hreturn
    exact upToQuote_escape rfl
  · subst htab
    exact upToQuote_escape rfl
  · subst hback
    exact upToQuote_escape rfl
  · subst hform
    exact upToQuote_escape rfl
  · exact upToQuote_escape (escape_control hcontrol rest)
  · have hplain : isPlain c = true := decide_eq_true (Nat.not_lt.1 hcontrol)
    rw [List.singleton_append, upToQuote.eq_def]
    simp only [if_neg hquote, if_neg hbackslash, hplain, if_true]

/-- **A string is read back**, whatever its characters. -/
theorem upToQuote_escaped (s rest : List Char) :
    upToQuote escapes isPlain (s.flatMap escapeChar ++ '"' :: rest) = some (s, rest) := by
  induction s with
  | nil =>
    rw [List.flatMap_nil, List.nil_append, upToQuote.eq_def]
    rfl
  | cons c r ih =>
    rw [List.flatMap_cons, List.append_assoc, upToQuote_escapeChar, ih]
    rfl

/-! ## Numbers -/

/-- The digits of a natural number are read as one part. -/
theorem digits?_natural (n : Nat) : digits? (natural n) = some (natural n, []) := by
  have hrun : (natural n ++ []).takeWhile Char.isDigit = natural n ∧ _ :=
    run_append_of_stop (fun _ => isDigit_of_mem_natural) (by simp)
  have hne : natural n ≠ [] := Nat.toDigits_ne_nil
  rw [List.append_nil] at hrun
  rw [digits?, hrun.1, List.drop_length]
  simp [hne]

/-- They have the value of the number. -/
theorem digitsValue_natural (n : Nat) : digitsValue (natural n) = n := by
  have hvalue := naturalValue?_natural n
  rw [naturalValue?] at hvalue
  split_ifs at hvalue
  exact Option.some.inj hvalue

/-- A natural number is read back, and so is the negative of one that is not
zero. -/
theorem number?_natural (k : Nat) : number? (natural k) = some (.integer k) ∧
    (k ≠ 0 → number? ('-' :: natural k) = some (.integer (-k))) := by
  have hzero : ¬ ((natural k).head? = some '0' ∧ (natural k).length ≠ 1) := by
    rintro ⟨hhead, hlength⟩
    rcases Nat.eq_zero_or_pos k with rfl | hk
    · exact hlength rfl
    · exact head?_natural_ne_zero hk hhead
  have hsign : (natural k).head? ≠ some '-' := by
    intro hhead
    have hdigit := isDigit_of_mem_natural (List.mem_of_mem_head? hhead)
    cases hdigit
  constructor
  · simp [number?, digits?_natural, digitsValue_natural, hzero, hsign]
  · intro hk
    simp [number?, digits?_natural, digitsValue_natural, hzero, hk]

/-- **An integer is read back.** -/
theorem number?_integer (n : Int) : number? (Text.integer n) = some (.integer n) := by
  obtain ⟨hnatural, hnegative⟩ := number?_natural n.natAbs
  rw [Text.integer]
  split_ifs with hn
  · have hvalue : -(n.natAbs : Int) = n := by omega
    rw [hnegative (by omega), hvalue]
  · have hvalue : (n.natAbs : Int) = n := by omega
    rw [hnatural, hvalue]

/-! ## Tokens -/

variable {c : Char} {r s rest : List Char} {ts : List Token} {n m : Nat}

/-- The token that begins with a character, if it is not a space, and what
follows it. -/
def readToken (c : Char) (r : List Char) : Reading (List Token) :=
  if isSpace c then some ([], r)
  else if c = '[' then some ([.openArray], r)
  else if c = ']' then some ([.closeArray], r)
  else if c = '\x7b' then some ([.openObject], r)
  else if c = '\x7d' then some ([.closeObject], r)
  else if c = ',' then some ([.comma], r)
  else if c = ':' then some ([.colon], r)
  else if c = '"' then
    (upToQuote escapes isPlain r).map fun x => ([.scalar (.string (String.ofList x.1))], x.2)
  else if c = '-' ∨ c.isDigit then
    let t := (c :: r).takeWhile isNumberChar
    (number? t).map fun v => ([.scalar v], (c :: r).drop t.length)
  else
    let t := (c :: r).takeWhile Char.isAlpha
    (word? t).map fun v => ([.scalar v], (c :: r).drop t.length)

/-- Tokens are read one after another. -/
theorem tokensWithin_cons (n : Nat) (c : Char) (r : List Char) : tokensWithin (n + 1) (c :: r) =
    (readToken c r).bind fun x => (tokensWithin n x.2).map (x.1 ++ ·) := by
  have hbind : ∀ (p : Prop) [Decidable p] (x y : Reading (List Token))
      (k : List Token × List Char → Option (List Token)),
      (if p then x else y).bind k = if p then x.bind k else y.bind k := by
    intro p _ x y k
    split <;> rfl
  simp only [tokensWithin, readToken, hbind, Option.bind_map, Function.comp_def, Option.bind_some,
    List.cons_append, List.nil_append, Option.map_id']

/-- A sign and digits may stand in a number. -/
theorem isNumberChar_of_begins (hc : c = '-' ∨ c.isDigit = true) : isNumberChar c = true := by
  rw [isNumberChar, Bool.or_eq_true]
  rcases hc with rfl | hdigit
  · exact Or.inr (by decide)
  · exact Or.inl hdigit

/-- What follows a token is no longer than what follows its first character. -/
theorem readToken_length (h : readToken c r = some (ts, rest)) : rest.length ≤ r.length := by
  have hdrop : ∀ (p : Char → Bool) (o : Option Json), p c = true ∨ o = none →
      (o.map fun v => ([Token.scalar v], (c :: r).drop ((c :: r).takeWhile p).length)) =
        some (ts, rest) → rest.length ≤ r.length := by
    rintro p o hp heq
    obtain ⟨v, hv, heq⟩ := Option.map_eq_some_iff.1 heq
    cases heq
    rcases hp with hp | rfl
    · rw [List.takeWhile_cons_of_pos hp, List.length_cons, List.drop_succ_cons, List.length_drop]
      exact Nat.sub_le _ _
    · cases hv
  have hmark : ∀ us : List Token, some (us, r) = some (ts, rest) → rest.length ≤ r.length := by
    rintro us heq
    cases heq
    exact Nat.le_refl _
  rw [readToken] at h
  -- a space and the six marks, a string, a number, a word
  iterate 7
    split at h
    · exact hmark _ h
  split at h
  · obtain ⟨x, hx, heq⟩ := Option.map_eq_some_iff.1 h
    cases heq
    exact Nat.le_of_lt (upToQuote_length hx)
  split at h
  · next hnumber => exact hdrop isNumberChar _ (Or.inl (isNumberChar_of_begins hnumber)) h
  · refine hdrop Char.isAlpha _ ?_ h
    by_cases hc : c.isAlpha = true
    · exact Or.inl hc
    · rw [List.takeWhile_cons_of_neg hc]
      exact Or.inr rfl

/-- Fuel for more characters than there are does not matter. -/
theorem tokensWithin_congr (hn : s.length < n) (hm : s.length < m) :
    tokensWithin n s = tokensWithin m s := by
  induction n generalizing m s with
  | zero => omega
  | succ n ih =>
    obtain ⟨m, rfl⟩ : ∃ k, m = k + 1 := ⟨m - 1, by omega⟩
    cases s with
    | nil => rfl
    | cons c r =>
      -- a token takes at least one character, so both fuels still suffice behind it
      rw [tokensWithin_cons, tokensWithin_cons]
      cases hread : readToken c r with
      | none => rfl
      | some x =>
        have hlength := readToken_length hread
        rw [List.length_cons] at hn hm
        have hrest : tokensWithin n x.2 = tokensWithin m x.2 := ih (by omega) (by omega)
        rw [Option.bind_some, Option.bind_some, hrest]

/-- **The tokens of a text** are its first and those of what follows it. -/
theorem tokens?_cons (h : readToken c r = some (ts, rest)) :
    tokens? (c :: r) = (tokens? rest).map (ts ++ ·) := by
  have hlength := readToken_length h
  have hrest : tokensWithin (r.length + 1) rest = tokens? rest :=
    tokensWithin_congr (by omega) (Nat.lt_succ_self _)
  rw [tokens?, List.length_cons, tokensWithin_cons, h, Option.bind_some, hrest]

/-! ## Tokens of printed values -/

/-- A text that, in front of another, spells some tokens and leaves the other. -/
def Spells (a : List Char) (ts : List Token) (rest : List Char) : Prop :=
  tokens? (a ++ rest) = (tokens? rest).map (ts ++ ·)

variable {a b : List Char} {us : List Token}

theorem spells_nil (rest : List Char) : Spells [] [] rest := by simp [Spells]

/-- What is read at once is spelled. -/
theorem spells_of_readToken (h : readToken c (a ++ rest) = some (ts, rest)) :
    Spells (c :: a) ts rest := tokens?_cons h

/-- Two texts spell their tokens one after the other. -/
theorem Spells.append (ha : Spells a ts (b ++ rest)) (hb : Spells b us rest) :
    Spells (a ++ b) (ts ++ us) rest := by
  rw [Spells, List.append_assoc, ha, hb, Option.map_map]
  simp [Function.comp_def]

/-- A space spells nothing. -/
theorem spells_space (hc : isSpace c = true) (rest : List Char) : Spells [c] [] rest := by
  refine spells_of_readToken ?_
  rw [readToken, if_pos hc]
  rfl

/-- Nor does a line break. -/
theorem spells_newline (level : Nat) (rest : List Char) : Spells (newline level) [] rest := by
  have hspaces : ∀ k, Spells (List.replicate k ' ') [] rest := by
    intro k
    induction k with
    | zero => exact spells_nil rest
    | succ k ih => exact (spells_space rfl _).append ih
  have hbreak : Spells ['\n'] [] (List.replicate (2 * level) ' ' ++ rest) := spells_space rfl _
  exact hbreak.append (hspaces _)

/-- A mark spells itself. -/
theorem spells_mark {t : Token} (h : ∀ r, readToken c r = some ([t], r)) (rest : List Char) :
    Spells [c] [t] rest := spells_of_readToken (h rest)

/-- **A string** spells itself. -/
theorem spells_quoted (t : String) (rest : List Char) :
    Spells (quoted t) [.scalar (.string t)] rest := by
  refine spells_of_readToken ?_
  have hread := upToQuote_escaped t.toList rest
  simp [readToken, isSpace, hread]

/-- Whether a number or a word may end in front of a text. -/
def Ends (rest : List Char) : Prop := ∀ c ∈ rest.head?, isNumberChar c = false ∧ c.isAlpha = false

theorem ends_cons (hc : isNumberChar c = false ∧ c.isAlpha = false) (r : List Char) :
    Ends (c :: r) := by
  rintro d hd
  cases hd
  exact hc

/-- The characters that are spaces, marks or quotes. -/
def markChars : List Char := [' ', '\n', '\t', '\r', '[', ']', '\x7b', '\x7d', ',', ':', '"']

/-- A token that begins with none of these is a number or a word. -/
theorem readToken_of_not_mark (hc : c ∉ markChars) (r : List Char) :
    readToken c r = if c = '-' ∨ c.isDigit then
        (number? ((c :: r).takeWhile isNumberChar)).map fun v =>
          ([.scalar v], (c :: r).drop ((c :: r).takeWhile isNumberChar).length)
      else (word? ((c :: r).takeWhile Char.isAlpha)).map fun v =>
        ([.scalar v], (c :: r).drop ((c :: r).takeWhile Char.isAlpha).length) := by
  simp only [markChars, List.mem_cons, List.not_mem_nil, or_false, not_or] at hc
  simp [readToken, isSpace, hc]

/-- **An integer** spells itself. -/
theorem spells_integer (k : Int) (h : Ends rest) :
    Spells (Text.integer k) [.scalar (.integer k)] rest := by
  have hdigits : ∀ c ∈ natural k.natAbs, c.isDigit = true := fun _ => isDigit_of_mem_natural
  have hnumber : ∀ c ∈ Text.integer k, c = '-' ∨ c.isDigit = true := by
    rw [Text.integer]
    split_ifs
    · exact List.forall_mem_cons.2 ⟨Or.inl rfl, fun c hc => Or.inr (hdigits c hc)⟩
    · exact fun c hc => Or.inr (hdigits c hc)
  have hchars : ∀ c ∈ Text.integer k, isNumberChar c = true := fun c hc =>
    isNumberChar_of_begins (hnumber c hc)
  have hne : Text.integer k ≠ [] := by
    rw [Text.integer]
    split_ifs
    · exact List.cons_ne_nil _ _
    · exact Nat.toDigits_ne_nil
  obtain ⟨c, a, hcons⟩ := List.exists_cons_of_ne_nil hne
  obtain ⟨hrun, -⟩ := run_append_of_stop hchars fun c hc => (h c hc).1
  have hread := number?_integer k
  rw [hcons] at hnumber hread hrun ⊢
  have hmark : c ∉ markChars := by
    intro hmem
    have hmarks : ∀ d ∈ markChars, ¬ (d = '-' ∨ d.isDigit = true) := by decide
    exact hmarks c hmem (hnumber c List.mem_cons_self)
  refine spells_of_readToken ?_
  rw [readToken_of_not_mark hmark, if_pos (hnumber c List.mem_cons_self), ← List.cons_append,
    hrun, hread, List.drop_left]
  rfl

/-- A word spells its value. -/
theorem spells_word {w : List Char} {v : Json} (hne : w ≠ []) (hw : ∀ c ∈ w, c.isAlpha = true)
    (hv : word? w = some v) (h : Ends rest) : Spells w [.scalar v] rest := by
  obtain ⟨c, a, rfl⟩ := List.exists_cons_of_ne_nil hne
  obtain ⟨hrun, -⟩ := run_append_of_stop hw fun c hc => (h c hc).2
  have halpha : c.isAlpha = true := hw c List.mem_cons_self
  have hmark : c ∉ markChars := by
    intro hmem
    have hmarks : ∀ d ∈ markChars, ¬ d.isAlpha = true := by decide
    exact hmarks c hmem halpha
  have hnumber : ¬ (c = '-' ∨ c.isDigit = true) := by
    rintro (rfl | hdigit)
    · cases halpha
    · have hletter := range_of_isAlpha halpha
      have hrange := range_of_isDigit hdigit
      omega
  refine spells_of_readToken ?_
  rw [readToken_of_not_mark hmark, if_neg hnumber, ← List.cons_append, hrun, hv, List.drop_left]
  rfl

/-! ## Values -/

mutual

/-- The tokens of a value. -/
def tokens : Json → List Token
  | .null => [.scalar .null]
  | .bool b => [.scalar (.bool b)]
  | .integer n => [.scalar (.integer n)]
  | .real t => [.scalar (.real t)]
  | .string s => [.scalar (.string s)]
  | .array [] => [.openArray, .closeArray]
  | .array (x :: xs) => .openArray :: tokens x ++ itemTokens xs ++ [.closeArray]
  | .object [] => [.openObject, .closeObject]
  | .object ((k, v) :: ms) =>
    .openObject :: .scalar (.string k) :: .colon :: tokens v ++ memberTokens ms ++ [.closeObject]

/-- The tokens of the items after the first. -/
def itemTokens : List Json → List Token
  | [] => []
  | x :: xs => .comma :: tokens x ++ itemTokens xs

/-- The tokens of the members after the first. -/
def memberTokens : List (String × Json) → List Token
  | [] => []
  | (k, v) :: ms => .comma :: .scalar (.string k) :: .colon :: tokens v ++ memberTokens ms

end

mutual

/-- Whether a value has no numbers but integers and is nested at most so deeply. -/
def fits : Nat → Json → Bool
  | _, .real _ => false
  | depth, .array xs => 0 < depth && itemsFit (depth - 1) xs
  | depth, .object ms => 0 < depth && membersFit (depth - 1) ms
  | _, _ => true

/-- Whether all items of an array fit. -/
def itemsFit : Nat → List Json → Bool
  | _, [] => true
  | depth, x :: xs => fits depth x && itemsFit depth xs

/-- Whether all members of an object fit. -/
def membersFit : Nat → List (String × Json) → Bool
  | _, [] => true
  | depth, (_, v) :: ms => fits depth v && membersFit depth ms

end

/-- All items of a list that fits fit. -/
theorem itemsFit_iff {depth : Nat} {xs : List Json} :
    itemsFit depth xs = true ↔ ∀ x ∈ xs, fits depth x = true := by
  induction xs with
  | nil => simp [itemsFit]
  | cons x xs ih => rw [itemsFit, Bool.and_eq_true, ih, List.forall_mem_cons]

/-! ## Printed values -/

/-- A text that spells some tokens wherever a number or a word may end behind it. -/
def Spelled (a : List Char) (ts : List Token) : Prop := ∀ rest, Ends rest → Spells a ts rest

theorem spelled_nil : Spelled [] [] := fun rest _ => spells_nil rest

/-- A text that begins with a mark may stand behind a number or a word. -/
theorem Spelled.append (ha : Spelled a ts) (hb : Spelled b us)
    (hends : ∀ rest, Ends rest → Ends (b ++ rest)) : Spelled (a ++ b) (ts ++ us) :=
  fun rest h => (ha _ (hends rest h)).append (hb rest h)

/-- A text between brackets on lines of their own. -/
theorem spelled_enclosed {opening closing : Char} {t u : Token} (level : Nat)
    (hopening : ∀ r, readToken opening r = some ([t], r))
    (hclosing : ∀ r, readToken closing r = some ([u], r)) (h : Spelled a ts) :
    Spelled (opening :: newline (level + 1) ++ a ++ newline level ++ [closing])
      (t :: ts ++ [u]) := by
  intro rest _
  have hbefore : ∀ r, Spells (opening :: newline (level + 1)) [t] r := fun r =>
    (spells_mark hopening _).append (spells_newline (level + 1) r)
  have hbehind : Spells (newline level ++ [closing]) [u] rest :=
    (spells_newline level _).append (spells_mark hclosing rest)
  have hinside : Spells a ts (newline level ++ [closing] ++ rest) := h _ (ends_cons (by decide) _)
  have hall := (hbefore _).append (hinside.append hbehind)
  simpa using hall

/-- A text behind a comma and a line break. -/
theorem spelled_comma (level : Nat) (h : Spelled a ts) :
    Spelled (',' :: newline level ++ a) (.comma :: ts) := by
  intro rest hrest
  have hcomma := (spells_mark (c := ',') (t := .comma) (fun _ => rfl) _).append
    ((spells_newline level _).append (h rest hrest))
  simpa using hcomma

/-- A value behind its key. -/
theorem spelled_member (k : String) (h : Spelled a ts) :
    Spelled (quoted k ++ [':', ' '] ++ a) (.scalar (.string k) :: .colon :: ts) := by
  intro rest hrest
  have hcolon := (spells_mark (c := ':') (t := .colon) (fun _ => rfl) _).append
    ((spells_space (c := ' ') rfl _).append (h rest hrest))
  have hmember := (spells_quoted k _).append hcolon
  simpa using hmember

/-- What stands behind an item or a member begins with a comma, or not at all. -/
theorem ends_printItems (level : Nat) (xs : List Json) (rest : List Char) (hrest : Ends rest) :
    Ends (printItems level xs ++ rest) := by
  cases xs with
  | nil => exact hrest
  | cons x xs =>
    rw [printItems]
    exact ends_cons (by decide) _

theorem ends_printMembers (level : Nat) (ms : List (String × Json)) (rest : List Char)
    (hrest : Ends rest) : Ends (printMembers level ms ++ rest) := by
  cases ms with
  | nil => exact hrest
  | cons m ms =>
    rw [printMembers]
    exact ends_cons (by decide) _

mutual

/-- **A printed value** spells its tokens. -/
theorem spelled_print : ∀ (level n : Nat) (v : Json), fits n v = true →
    Spelled (print level v) (tokens v)
  | _, _, .null, _ => by
    rw [print, tokens]
    exact fun rest hrest => spells_word (by decide) (by decide) rfl hrest
  | _, _, .bool true, _ => by
    rw [print, tokens]
    exact fun rest hrest => spells_word (by decide) (by decide) rfl hrest
  | _, _, .bool false, _ => by
    rw [print, tokens]
    exact fun rest hrest => spells_word (by decide) (by decide) rfl hrest
  | _, _, .integer k, _ => by
    rw [print, tokens]
    exact fun rest hrest => spells_integer k hrest
  | _, _, .real t, h => by
    rw [fits] at h
    cases h
  | _, _, .string t, _ => by
    rw [print, tokens]
    exact fun rest _ => spells_quoted t rest
  | _, _, .array [], _ => by
    rw [print, tokens]
    exact fun rest _ => (spells_mark (fun _ => rfl) _).append (spells_mark (fun _ => rfl) rest)
  | level, n, .array (x :: xs), h => by
    rw [fits, itemsFit, Bool.and_eq_true, Bool.and_eq_true] at h
    obtain ⟨-, hx, hxs⟩ := h
    have hitems := (spelled_print (level + 1) (n - 1) x hx).append
      (spelled_printItems (level + 1) (n - 1) xs hxs) (ends_printItems _ _)
    have hopen : ∀ r, readToken '[' r = some ([.openArray], r) := fun _ => rfl
    have hclose : ∀ r, readToken ']' r = some ([.closeArray], r) := fun _ => rfl
    have hall := spelled_enclosed level hopen hclose hitems
    rw [print, tokens]
    simpa using hall
  | _, _, .object [], _ => by
    rw [print, tokens]
    exact fun rest _ => (spells_mark (fun _ => rfl) _).append (spells_mark (fun _ => rfl) rest)
  | level, n, .object ((k, v) :: ms), h => by
    rw [fits, membersFit, Bool.and_eq_true, Bool.and_eq_true] at h
    obtain ⟨-, hv, hms⟩ := h
    have hmembers := (spelled_member k (spelled_print (level + 1) (n - 1) v hv)).append
      (spelled_printMembers (level + 1) (n - 1) ms hms) (ends_printMembers _ _)
    have hopen : ∀ r, readToken '\x7b' r = some ([.openObject], r) := fun _ => rfl
    have hclose : ∀ r, readToken '\x7d' r = some ([.closeObject], r) := fun _ => rfl
    have hall := spelled_enclosed level hopen hclose hmembers
    rw [print, tokens]
    simpa using hall

/-- Printed items spell theirs, each behind a comma. -/
theorem spelled_printItems : ∀ (level n : Nat) (xs : List Json), itemsFit n xs = true →
    Spelled (printItems level xs) (itemTokens xs)
  | _, _, [], _ => spelled_nil
  | level, n, x :: xs, h => by
    rw [itemsFit, Bool.and_eq_true] at h
    have hitems := (spelled_comma level (spelled_print level n x h.1)).append
      (spelled_printItems level n xs h.2) (ends_printItems _ _)
    rw [printItems, itemTokens]
    exact hitems

/-- So do printed members. -/
theorem spelled_printMembers : ∀ (level n : Nat) (ms : List (String × Json)),
    membersFit n ms = true → Spelled (printMembers level ms) (memberTokens ms)
  | _, _, [], _ => spelled_nil
  | level, n, (k, v) :: ms, h => by
    rw [membersFit, Bool.and_eq_true] at h
    have hmembers := (spelled_comma level (spelled_member k (spelled_print level n v h.1))).append
      (spelled_printMembers level n ms h.2) (ends_printMembers _ _)
    rw [printMembers, memberTokens]
    simpa using hmembers

end

/-- **The tokens of a printed value.** -/
theorem tokens?_print {v : Json} (h : fits n v = true) : tokens? (print 0 v) = some (tokens v) := by
  have hprint := spelled_print 0 n v h [] (by simp [Ends])
  rw [Spells, List.append_nil] at hprint
  rw [hprint]
  simp [tokens?, tokensWithin]

/-! ## The machine -/

/-- The state after some tokens. -/
def State.run (x : State) (ts : List Token) : Option State := ts.foldlM State.step x

theorem State.run_cons {x y : State} {t : Token} (h : x.step t = some y) (ts : List Token) :
    x.run (t :: ts) = y.run ts := by
  rw [State.run, List.foldlM_cons, h]
  rfl

/-- A value does not begin with the end of an array. -/
theorem exists_tokens_eq_cons (v : Json) : ∃ t ts, tokens v = t :: ts ∧ t ≠ .closeArray := by
  cases v with
  | array xs => cases xs <;> simp [tokens]
  | object ms => cases ms <;> simp [tokens]
  | _ => simp [tokens]

/-- Where an array has been opened its first item may come. -/
theorem State.run_firstItem (stack : List Frame) (v : Json) (ts : List Token) :
    (State.firstItem stack).run (tokens v ++ ts) =
      (State.value (.array [] :: stack)).run (tokens v ++ ts) := by
  obtain ⟨t, us, htokens, hne⟩ := exists_tokens_eq_cons v
  have hstep : (State.firstItem stack).step t = (State.value (.array [] :: stack)).step t := by
    cases t <;> first | rfl | exact absurd rfl hne
  rw [htokens, List.cons_append, State.run, State.run, List.foldlM_cons, List.foldlM_cons, hstep]

mutual

/-- **The tokens of a value** are taken to the value, whatever is open. -/
theorem run_tokens : ∀ (v : Json) (depth : Nat) (stack : List Frame) (ts : List Token),
    fits depth v = true → stack.length + depth ≤ maxDepth →
    (State.value stack).run (tokens v ++ ts) = (State.close v stack).run ts
  | .null, _, _, _, _, _ => State.run_cons rfl _
  | .bool _, _, _, _, _, _ => State.run_cons rfl _
  | .integer _, _, _, _, _, _ => State.run_cons rfl _
  | .real _, _, _, _, _, _ => State.run_cons rfl _
  | .string _, _, _, _, _, _ => State.run_cons rfl _
  | .array [], depth, stack, ts, h, hdepth => by
    rw [fits, Bool.and_eq_true, decide_eq_true_eq] at h
    have hopen : (State.value stack).step .openArray = some (.firstItem stack) :=
      if_pos (by omega)
    rw [tokens, List.cons_append, State.run_cons hopen]
    exact State.run_cons rfl ts
  | .array (x :: xs), depth, stack, ts, h, hdepth => by
    rw [fits, itemsFit, Bool.and_eq_true, Bool.and_eq_true, decide_eq_true_eq] at h
    obtain ⟨hpos, hx, hxs⟩ := h
    have hopen : (State.value stack).step .openArray = some (.firstItem stack) :=
      if_pos (by omega)
    -- what is inside is one level deeper, and fits with one level less
    have hinside : (Frame.array [] :: stack).length + (depth - 1) ≤ maxDepth := by
      rw [List.length_cons]
      omega
    have htokens : tokens (.array (x :: xs)) ++ ts =
        .openArray :: (tokens x ++ (itemTokens xs ++ .closeArray :: ts)) := by simp [tokens]
    rw [htokens, State.run_cons hopen, State.run_firstItem, run_tokens x _ _ _ hx hinside,
      State.close, run_itemTokens xs _ _ _ _ hxs hinside]
    rfl
  | .object [], depth, stack, ts, h, hdepth => by
    rw [fits, Bool.and_eq_true, decide_eq_true_eq] at h
    have hopen : (State.value stack).step .openObject = some (.firstKey stack) :=
      if_pos (by omega)
    rw [tokens, List.cons_append, State.run_cons hopen]
    exact State.run_cons rfl ts
  | .object ((k, v) :: ms), depth, stack, ts, h, hdepth => by
    rw [fits, membersFit, Bool.and_eq_true, Bool.and_eq_true, decide_eq_true_eq] at h
    obtain ⟨hpos, hv, hms⟩ := h
    have hopen : (State.value stack).step .openObject = some (.firstKey stack) :=
      if_pos (by omega)
    have hkey : (State.firstKey stack).step (.scalar (.string k)) = some (.colon [] k stack) := rfl
    have hcolon : (State.colon [] k stack).step .colon =
        some (.value (.object [] k :: stack)) := rfl
    have hinside : (Frame.object [] k :: stack).length + (depth - 1) ≤ maxDepth := by
      rw [List.length_cons]
      omega
    have htokens : tokens (.object ((k, v) :: ms)) ++ ts = .openObject :: .scalar (.string k) ::
        .colon :: (tokens v ++ (memberTokens ms ++ .closeObject :: ts)) := by simp [tokens]
    rw [htokens, State.run_cons hopen, State.run_cons hkey, State.run_cons hcolon,
      run_tokens v _ _ _ hv hinside, State.close, run_memberTokens ms _ _ _ _ _ hms hinside]
    rfl

/-- The tokens of items and the end of their array. -/
theorem run_itemTokens : ∀ (xs : List Json) (depth : Nat) (items : List Json)
    (stack : List Frame) (ts : List Token), itemsFit depth xs = true →
    stack.length + 1 + depth ≤ maxDepth →
    (State.after (.array items) stack).run (itemTokens xs ++ .closeArray :: ts) =
      (State.close (.array (items.reverse ++ xs)) stack).run ts
  | [], _, items, stack, ts, _, _ => by
    rw [itemTokens, List.nil_append, List.append_nil]
    exact State.run_cons rfl ts
  | x :: xs, depth, items, stack, ts, h, hdepth => by
    rw [itemsFit, Bool.and_eq_true] at h
    have hcomma : (State.after (.array items) stack).step .comma =
        some (.value (.array items :: stack)) := rfl
    rw [itemTokens, List.cons_append, List.cons_append, State.run_cons hcomma, List.append_assoc,
      run_tokens x depth _ _ h.1 (by rw [List.length_cons]; omega), State.close,
      run_itemTokens xs depth _ stack ts h.2 hdepth]
    simp

/-- The tokens of members and the end of their object. -/
theorem run_memberTokens : ∀ (ms : List (String × Json)) (depth : Nat)
    (members : List (String × Json)) (key : String) (stack : List Frame) (ts : List Token),
    membersFit depth ms = true → stack.length + 1 + depth ≤ maxDepth →
    (State.after (.object members key) stack).run (memberTokens ms ++ .closeObject :: ts) =
      (State.close (.object (members.reverse ++ ms)) stack).run ts
  | [], _, members, key, stack, ts, _, _ => by
    rw [memberTokens, List.nil_append, List.append_nil]
    exact State.run_cons rfl ts
  | (k, v) :: ms, depth, members, key, stack, ts, h, hdepth => by
    rw [membersFit, Bool.and_eq_true] at h
    have hcomma : (State.after (.object members key) stack).step .comma =
        some (.key members stack) := rfl
    have hkey : (State.key members stack).step (.scalar (.string k)) =
        some (.colon members k stack) := rfl
    have hcolon : (State.colon members k stack).step .colon =
        some (.value (.object members k :: stack)) := rfl
    have htokens : memberTokens ((k, v) :: ms) ++ .closeObject :: ts = .comma ::
        .scalar (.string k) :: .colon :: (tokens v ++ (memberTokens ms ++ .closeObject :: ts)) := by
      simp [memberTokens]
    rw [htokens, State.run_cons hcomma, State.run_cons hkey, State.run_cons hcolon,
      run_tokens v depth _ _ h.1 (by rw [List.length_cons]; omega), State.close,
      run_memberTokens ms depth _ k stack ts h.2 hdepth]
    simp

end

/-- **A printed value is read back.** -/
theorem read?_print {v : Json} (h : fits maxDepth v = true) : read? (print 0 v) = some v := by
  have hrun := run_tokens v maxDepth [] [] h (by simp)
  rw [List.append_nil, State.close] at hrun
  have hdone : (tokens v).foldlM State.step (.value []) = some (.done v) := hrun
  rw [read?, tokens?_print h, Option.bind_some, hdone]

end DealSql.Json
