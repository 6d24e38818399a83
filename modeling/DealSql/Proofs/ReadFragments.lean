import DealSql.Proofs.Characters
import DealSql.Proofs.Numerals
import DealSql.Proofs.WrittenExpressions
import DealSql.Text.Escaped
import Mathlib.Data.List.Chain

/-!
# Reading conditions back

A condition is sent as a text, and what it says is what a database reads
there.  The reader below takes the fragments of conditions from a text by
the rules that the dialects share: a quoted name or string goes on to the
first closing mark that is not doubled, digits with a sign before them make
an integer, a word goes on to the last letter, and of two symbols that begin
alike the longer one is meant.

What was written is read back as long as of two neighbours one is a space, a
comma, a point or a parenthesis: these end whatever stands before them and
begin nothing.

* `readFragments_write` — fragments that are set apart are read back.
-/

namespace DealSql.Sql

open DealSql.Text

/-! ## The reader -/

/-- The symbols of conditions, those that begin alike with the longest first. -/
def conditionSymbols : List Symbol :=
  [.comma, .dot, .openParen, .closeParen, .le, .ne, .ge, .lt, .gt, .eq]

/-- The words of conditions. -/
def conditionWords : List Fragment :=
  [.keyword .AND, .keyword .OR, .keyword .NOT, .keyword .IN, .keyword .NULL, .keyword .TRUE,
    .keyword .FALSE, .truth true, .truth false]

/-- The number at the start of a text. -/
def readNumeral (s : List Char) : Reading Nat :=
  (naturalValue? (s.takeWhile Char.isDigit)).map fun n => (n, s.dropWhile Char.isDigit)

/-- The word at the start of a text. -/
def readWord (d : Dialect) (s : List Char) : Reading Fragment :=
  (conditionWords.find? fun f => f.write d = s.takeWhile Char.isAlpha).map
    fun f => (f, s.dropWhile Char.isAlpha)

/-- The symbol at the start of a text. -/
def readSymbol (s : List Char) : Reading Fragment :=
  (conditionSymbols.find? fun x => x.text.toList.isPrefixOf s).map
    fun x => (.symbol x, s.drop x.text.toList.length)

/-- The quoted text up to a closing mark, as a fragment. -/
def readQuoted (f : String → Fragment) (stop : Char) (s : List Char) : Reading Fragment :=
  (closeQuoted stop s).map fun x => (f (String.ofList x.1), x.2)

/-- The fragment at the start of a text. -/
def readFragment (d : Dialect) : List Char → Reading Fragment
  | [] => none
  | c :: r =>
    if c = ' ' then some (.space, r)
    else if c = d.identifierMarks.1 then readQuoted .identifier d.identifierMarks.2 r
    else if c = '\'' then readQuoted .string '\'' r
    else if d = .tsql ∧ c = 'N' ∧ r.head? = some '\'' then readQuoted .string '\'' r.tail
    else if c.isDigit then (readNumeral (c :: r)).map fun x => (.integer x.1, x.2)
    else if c = '-' then (readNumeral r).map fun x => (.integer (-x.1), x.2)
    else if c.isAlpha then readWord d (c :: r)
    else readSymbol (c :: r)

variable {d : Dialect} {s rest : List Char} {f : Fragment}

theorem readNumeral_length {n : Nat} (h : readNumeral s = some (n, rest)) :
    rest.length < s.length := by
  obtain ⟨k, hk, hrest⟩ := Option.map_eq_some_iff.1 h
  obtain ⟨-, rfl⟩ := Prod.mk.inj hrest
  have hdigits := List.length_pos_iff.2 (naturalValue?_eq_some.1 hk).1
  have hlength := congrArg List.length (List.takeWhile_append_dropWhile (p := Char.isDigit) (l := s))
  rw [List.length_append] at hlength
  omega

theorem readQuoted_length {g : String → Fragment} {stop : Char}
    (h : readQuoted g stop s = some (f, rest)) : rest.length < s.length := by
  obtain ⟨⟨t, r⟩, ht, hrest⟩ := Option.map_eq_some_iff.1 h
  obtain ⟨-, rfl⟩ := Prod.mk.inj hrest
  exact closeQuoted_length ht

/-- Every fragment takes at least one character. -/
theorem readFragment_length (h : readFragment d s = some (f, rest)) :
    rest.length < s.length := by
  cases s with
  | nil => cases h
  | cons c r =>
    rw [readFragment] at h
    rw [List.length_cons]
    split at h
    · cases h
      exact Nat.lt_succ_self _
    split at h
    · exact Nat.lt_succ_of_lt (readQuoted_length h)
    split at h
    · exact Nat.lt_succ_of_lt (readQuoted_length h)
    split at h
    · have hquoted := readQuoted_length h
      rw [List.length_tail] at hquoted
      omega
    split at h
    · obtain ⟨⟨n, t⟩, hn, hrest⟩ := Option.map_eq_some_iff.1 h
      obtain ⟨-, rfl⟩ := Prod.mk.inj hrest
      exact readNumeral_length hn
    split at h
    · obtain ⟨⟨n, t⟩, hn, hrest⟩ := Option.map_eq_some_iff.1 h
      obtain ⟨-, rfl⟩ := Prod.mk.inj hrest
      exact Nat.lt_succ_of_lt (readNumeral_length hn)
    split at h
    · next hc =>
      obtain ⟨g, -, hrest⟩ := Option.map_eq_some_iff.1 h
      obtain ⟨-, rfl⟩ := Prod.mk.inj hrest
      rw [List.dropWhile_cons_of_pos hc]
      exact Nat.lt_succ_of_le (Statement.length_dropWhile_le _ _)
    · obtain ⟨x, -, hrest⟩ := Option.map_eq_some_iff.1 h
      obtain ⟨-, rfl⟩ := Prod.mk.inj hrest
      have htext : 0 < x.text.toList.length := by cases x <;> decide
      rw [List.length_drop, List.length_cons]
      omega

/-- The fragments of a text; nothing when it is no text of a condition. -/
def readFragments (d : Dialect) : List Char → Option (List Fragment)
  | [] => some []
  | c :: r =>
    match _h : readFragment d (c :: r) with
    | some (f, rest) => (readFragments d rest).map (f :: ·)
    | none => none
termination_by s => s.length
decreasing_by exact readFragment_length _h

/-- The fragments of a text are the first and those of the rest. -/
theorem readFragments_of_readFragment (h : readFragment d s = some (f, rest)) :
    readFragments d s = (readFragments d rest).map (f :: ·) := by
  cases s with
  | nil => cases h
  | cons c r =>
    rw [readFragments]
    split
    · next g t hg =>
      obtain ⟨rfl, rfl⟩ := Prod.mk.inj (Option.some.inj (hg.symm.trans h))
      rfl
    · next hnone => simp [hnone] at h

/-! ## Fragments set apart -/

/-- Whether a fragment sets apart those next to it. -/
def Fragment.isMark : Fragment → Bool
  | .space => true
  | .symbol x => x = .comma ∨ x = .dot ∨ x = .openParen ∨ x = .closeParen
  | _ => false

/-- One of two neighbours sets them apart. -/
def Apart (f g : Fragment) : Prop := f.isMark = true ∨ g.isMark = true

/-- Whether a character begins a fragment that sets others apart. -/
def isMarkChar (c : Char) : Bool := " ,.()".toList.contains c

/-- A fragment that is read back, by itself or before what sets it apart. -/
def Legible (d : Dialect) (f : Fragment) : Prop :=
  ∀ rest : List Char, (f.isMark = true ∨ rest.head?.all isMarkChar = true) →
    readFragment d (f.write d ++ rest) = some (f, rest)

/-- Legible fragments that are set apart. -/
structure Readable (d : Dialect) (fs : List Fragment) : Prop where
  legible : ∀ f ∈ fs, Legible d f
  apart : fs.IsChain Apart

variable {fs gs : List Fragment}

/-- **Fragments that are set apart** are read back. -/
theorem readFragments_write (h : Readable d fs) : readFragments d (write d fs) = some fs := by
  obtain ⟨hlegible, hapart⟩ := h
  induction fs with
  | nil => simp [write, readFragments]
  | cons f fs ih =>
    have hnext : f.isMark = true ∨ (write d fs).head?.all isMarkChar = true := by
      cases fs with
      | nil => exact Or.inr rfl
      | cons g gs =>
        refine (List.isChain_cons_cons.1 hapart).1.imp_right fun hg => ?_
        cases g with
        | space => rfl
        | symbol x => cases x <;> first | rfl | cases hg
        | _ => cases hg
    have hread := hlegible f List.mem_cons_self (write d fs) hnext
    have hrest := ih (fun g hg => hlegible g (List.mem_cons_of_mem _ hg)) hapart.of_cons
    rw [write, List.flatMap_cons, ← write, readFragments_of_readFragment hread, hrest]
    rfl

theorem readable_singleton (h : Legible d f) : Readable d [f] :=
  ⟨by simpa using h, List.isChain_singleton f⟩

/-- Readable fragments may be set side by side where one sets them apart. -/
theorem Readable.append (hf : Readable d fs) (hg : Readable d gs)
    (h : fs.getLast?.all Fragment.isMark = true ∨ gs.head?.all Fragment.isMark = true) :
    Readable d (fs ++ gs) := by
  constructor
  · intro f hmem
    exact (List.mem_append.1 hmem).elim (hf.legible f) (hg.legible f)
  · refine List.isChain_append.2 ⟨hf.apart, hg.apart, fun x hx y hy => ?_⟩
    rw [Option.mem_def] at hx hy
    rw [hx, hy] at h
    exact h

/-! ## Legible fragments -/

/-- A run of characters ends where it is set apart. -/
theorem run_append {p : Char → Bool} {w : List Char} (hw : ∀ c ∈ w, p c = true)
    (hrest : rest.head?.all isMarkChar = true) (hmark : ∀ c ∈ " ,.()".toList, p c = false) :
    (w ++ rest).takeWhile p = w ∧ (w ++ rest).dropWhile p = rest := by
  refine run_append_of_stop hw fun c hc => hmark c ?_
  rw [Option.mem_def.1 hc] at hrest
  simpa [isMarkChar] using hrest

/-- What sets a text apart is none of its characters. -/
theorem head?_ne {stop : Char} (hrest : rest.head?.all isMarkChar = true)
    (hstop : isMarkChar stop = false) : rest.head? ≠ some stop := by
  intro hhead
  rw [hhead, Option.all_some, hstop] at hrest
  cases hrest

theorem legible_space : Legible d .space := fun _ _ => rfl

/-- Of the symbols that begin alike the shorter one is read where it is set apart. -/
theorem readSymbol_short (hrest : rest.head?.all isMarkChar = true) :
    readSymbol ('<' :: rest) = some (.symbol .lt, rest) ∧
      readSymbol ('>' :: rest) = some (.symbol .gt, rest) := by
  cases rest with
  | nil => exact ⟨rfl, rfl⟩
  | cons c r =>
    have hc : isMarkChar c = true := hrest
    have heq : ('=' == c) = false := beq_false_of_ne (ne_of_test hc (by decide)).symm
    have hgt : ('>' == c) = false := beq_false_of_ne (ne_of_test hc (by decide)).symm
    have hlt : conditionSymbols.find? (fun x => x.text.toList.isPrefixOf ('<' :: c :: r)) =
        some .lt := by
      simp [conditionSymbols, Symbol.text, List.isPrefixOf, heq, hgt]
    have hgt : conditionSymbols.find? (fun x => x.text.toList.isPrefixOf ('>' :: c :: r)) =
        some .gt := by
      simp [conditionSymbols, Symbol.text, List.isPrefixOf, heq]
    rw [readSymbol, readSymbol, hlt, hgt]
    exact ⟨rfl, rfl⟩

/-- A symbol is read back. -/
theorem legible_symbol {x : Symbol} (hx : x ∈ conditionSymbols) : Legible d (.symbol x) := by
  intro rest hrest
  have hread : readFragment d (x.text.toList ++ rest) = readSymbol (x.text.toList ++ rest) := by
    simp only [conditionSymbols, List.mem_cons, List.not_mem_nil, or_false] at hx
    rcases hx with rfl | rfl | rfl | rfl | rfl | rfl | rfl | rfl | rfl | rfl <;> cases d <;> rfl
  rw [Fragment.write, hread]
  cases x with
  | lt => exact (readSymbol_short (hrest.resolve_left Bool.false_ne_true)).1
  | gt => exact (readSymbol_short (hrest.resolve_left Bool.false_ne_true)).2
  | comma => rfl
  | dot => rfl
  | openParen => rfl
  | closeParen => rfl
  | le => rfl
  | ne => rfl
  | ge => rfl
  | eq => rfl
  | _ => exact absurd hx (by decide)

/-- A word is read back: it is made of letters, and the only one so written. -/
theorem legible_word (hf : f ∈ conditionWords) (hd : ∀ b, f = .truth b → d ≠ .tsql) :
    Legible d f := by
  intro rest hrest
  have hmark : f.isMark = false := by
    have hall : ∀ g ∈ conditionWords, g.isMark = false := by decide
    exact hall f hf
  have hrest : rest.head?.all isMarkChar = true := hrest.resolve_left (by simp [hmark])
  have hword : readFragment d (f.write d ++ rest) = readWord d (f.write d ++ rest) ∧
      (∀ c ∈ f.write d, c.isAlpha = true) ∧
      conditionWords.find? (fun g => g.write d = f.write d) = some f := by
    simp only [conditionWords, List.mem_cons, List.not_mem_nil, or_false] at hf
    rcases hf with rfl | rfl | rfl | rfl | rfl | rfl | rfl | rfl | rfl <;> cases d
    all_goals first
      | exact ⟨rfl, by decide, by decide⟩
      | exact absurd rfl (hd _ rfl)
  obtain ⟨hread, hletters, hfind⟩ := hword
  obtain ⟨htake, hdrop⟩ := run_append hletters hrest (by decide)
  rw [hread, readWord, htake, hdrop, hfind]
  rfl

/-- A quoted text is read up to its closing mark. -/
theorem readQuoted_double (g : String → Fragment) {stop : Char} (t : String)
    (hrest : rest.head? ≠ some stop) :
    readQuoted g stop (double stop t.toList ++ stop :: rest) = some (g t, rest) := by
  rw [readQuoted, closeQuoted_double stop _ _ hrest]
  simp

theorem legible_identifier (t : String) : Legible d (.identifier t) := by
  intro rest hrest
  have hrest : rest.head?.all isMarkChar = true := hrest.resolve_left Bool.false_ne_true
  have hopening : d.identifierMarks.1 ≠ ' ' := by cases d <;> decide
  have hclosing : isMarkChar d.identifierMarks.2 = false := by cases d <;> decide
  have hwrite : (Fragment.identifier t).write d ++ rest = d.identifierMarks.1 ::
      (double d.identifierMarks.2 t.toList ++ d.identifierMarks.2 :: rest) := by
    simp [Fragment.write, Dialect.quoteIdentifier, quoteWith]
  rw [hwrite, readFragment, if_neg hopening, if_pos rfl]
  exact readQuoted_double .identifier t (head?_ne hrest hclosing)

theorem legible_string (t : String) : Legible d (.string t) := by
  intro rest hrest
  have hrest : rest.head?.all isMarkChar = true := hrest.resolve_left Bool.false_ne_true
  have hnext : rest.head? ≠ some '\'' := head?_ne hrest (by decide)
  have hquoted := readQuoted_double .string t hnext
  have hopening : '\'' ≠ d.identifierMarks.1 ∧ 'N' ≠ d.identifierMarks.1 := by
    cases d <;> decide
  rw [Fragment.write, Dialect.quoteString]
  split
  · next hnational =>
    have hd : d = .tsql := by
      simp only [Dialect.marksNational, Bool.and_eq_true, beq_iff_eq] at hnational
      exact hnational.1
    rw [quoteWith, List.cons_append, List.cons_append, List.cons_append, List.append_assoc,
      List.singleton_append, readFragment, if_neg (by decide), if_neg hopening.2, if_neg (by decide),
      if_pos ⟨hd, rfl, rfl⟩]
    exact hquoted
  · rw [quoteWith, List.append_assoc, List.singleton_append, List.cons_append, readFragment,
      if_neg (by decide), if_neg hopening.1, if_pos rfl]
    exact hquoted

/-- The digits of a number are read back. -/
theorem readNumeral_natural (n : Nat) (hrest : rest.head?.all isMarkChar = true) :
    readNumeral (natural n ++ rest) = some (n, rest) := by
  obtain ⟨htake, hdrop⟩ := run_append (fun _ => isDigit_of_mem_natural) hrest (by decide)
  rw [readNumeral, htake, hdrop, naturalValue?_natural]
  rfl

theorem legible_integer (n : Int) : Legible d (.integer n) := by
  intro rest hrest
  have hrest : rest.head?.all isMarkChar = true := hrest.resolve_left Bool.false_ne_true
  have hnumeral := readNumeral_natural n.natAbs hrest
  rw [Fragment.write, integer]
  split
  · next hneg =>
    have hopening : '-' ≠ d.identifierMarks.1 := by cases d <;> decide
    rw [List.cons_append, readFragment, if_neg (by decide), if_neg hopening, if_neg (by decide),
      if_neg (by simp), if_neg (by decide), if_pos rfl, hnumeral, Option.map_some]
    have hvalue : -(n.natAbs : Int) = n := by omega
    rw [hvalue]
  · next hpos =>
    have hne : natural n.natAbs ≠ [] := Nat.toDigits_ne_nil
    obtain ⟨c, r, hcons⟩ := List.exists_cons_of_ne_nil hne
    have hc : c.isDigit = true := isDigit_of_mem_natural (by rw [hcons]; exact List.mem_cons_self)
    have hopening : c ≠ d.identifierMarks.1 := by
      cases d <;> exact ne_of_test hc (by decide)
    have hletter : c ≠ 'N' := ne_of_test hc (by decide)
    rw [hcons] at hnumeral ⊢
    rw [List.cons_append, readFragment, if_neg (ne_of_test hc (by decide)), if_neg hopening,
      if_neg (ne_of_test hc (by decide)), if_neg (by simp [hletter]), if_pos hc,
      ← List.cons_append, hnumeral, Option.map_some]
    have hvalue : (n.natAbs : Int) = n := by omega
    rw [hvalue]

/-! ## Lists, and fragments between others -/

theorem readable_space : Readable d [.space] := readable_singleton legible_space

/-- What stands between parentheses is set apart by them. -/
theorem Readable.paren (h : Readable d fs) :
    Readable d (.symbol .openParen :: fs ++ [.symbol .closeParen]) := by
  have hopen : Readable d [.symbol .openParen] := readable_singleton (legible_symbol (by decide))
  have hclose : Readable d [.symbol .closeParen] := readable_singleton (legible_symbol (by decide))
  exact (hopen.append h (Or.inl rfl)).append hclose (Or.inr rfl)

/-- A fragment between spaces is set apart by them from those around it. -/
theorem Readable.around (hf : Readable d fs) (hg : Readable d gs) (h : Legible d f) :
    Readable d (fs ++ [.space, f, .space] ++ gs) := by
  have hspaced : Readable d [.space, f, .space] :=
    (readable_space.append (readable_singleton h) (Or.inl rfl)).append readable_space (Or.inr rfl)
  have hleft : Readable d (fs ++ [.space, f, .space]) := hf.append hspaced (Or.inr rfl)
  refine hleft.append hg (Or.inl ?_)
  rw [List.getLast?_append]
  rfl

/-- The elements of a list are set apart by what stands between them. -/
theorem readable_commaSeparated {ps : List (List Fragment)} (h : ∀ p ∈ ps, Readable d p) :
    Readable d (commaSeparated ps) := by
  have hcomma : Readable d [.symbol .comma] := readable_singleton (legible_symbol (by decide))
  have hseparator : Readable d separator := hcomma.append readable_space (Or.inl rfl)
  exact intercalate_induction ⟨by simp, by simp⟩
    (fun p rest hp hrest => hp.append (hseparator.append hrest (Or.inl rfl)) (Or.inr rfl)) h

end DealSql.Sql
