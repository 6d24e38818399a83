import DealSql.Proofs.ColumnItems
import DealSql.Proofs.ExchangedLexemes
import DealSql.Proofs.PlainStatements
import Mathlib.Data.List.Induction

/-!
# Nested queries

The groups of a statement are what stands in parentheses, and a query may be
nested in any of them.  The innermost group around a lexeme is found here by
the parentheses alone: between the one that opens it and the lexeme all others
belong together.  That is the group which the depths of the lexemes tell.

A nested query is seen, and with it the `FROM` of a query in parentheses, where
its group begins with `SELECT`.  A query that begins otherwise, with `WITH`, is
not.

* `isQueryFrom_iff` — which `FROM` counts as that of a query.
* `hasSubqueries_iff` — which statements have nested queries.
* `tableName?_eq_some_iff` — which table is named after a lexeme.
* `nested_queries_seen` — all of it, for every text.
-/

namespace DealSql.Review

open DealSql.Text DealSql.Statement

variable {ls ms : List Lexeme} {l : Lexeme} {p g : Position} {depth k n : Nat} {sql : List Char}

/-! ## Parentheses -/

/-- How many parentheses are open behind a lexeme. -/
def depthBehind (depth : Nat) (l : Lexeme) : Nat :=
  if l.isPunct '(' then depth + 1 else if l.isPunct ')' then depth - 1 else depth

/-- How many are open behind some lexemes, unless one is closed that is not open. -/
def openBehind? (n : Nat) : List Lexeme → Option Nat
  | [] => some n
  | l :: ls => if l.isPunct ')' && n == 0 then none else openBehind? (depthBehind n l) ls

/-- Lexemes whose parentheses belong together. -/
def IsPaired (ls : List Lexeme) : Prop := openBehind? 0 ls = some 0

instance (ls : List Lexeme) : Decidable (IsPaired ls) := inferInstanceAs (Decidable (_ = _))

/-- Lexemes that carry the depth at which they stand. -/
def AtDepths (depth : Nat) : List Lexeme → Prop
  | [] => True
  | l :: ls => l.depth = (if l.isPunct ')' then depth - 1 else depth) ∧
      AtDepths (depthBehind depth l) ls

theorem not_closes_of_opens (h : l.isPunct '(' = true) : l.isPunct ')' = false := by
  rw [Lexeme.isPunct_iff] at h
  simp [Lexeme.isPunct, h]

theorem not_opens_of_closes (h : l.isPunct ')' = true) : l.isPunct '(' = false := by
  rw [Lexeme.isPunct_iff] at h
  simp [Lexeme.isPunct, h]

theorem depthBehind_of_opens (h : l.isPunct '(' = true) (depth : Nat) :
    depthBehind depth l = depth + 1 := by
  simp [depthBehind, h]

/-- A lexeme opens a group, closes one, or does neither. -/
theorem paren_cases (l : Lexeme) :
    l.isPunct '(' = true ∧ l.isPunct ')' = false ∧ (∀ d, depthBehind d l = d + 1) ∨
      l.isPunct '(' = false ∧ l.isPunct ')' = true ∧ (∀ d, depthBehind d l = d - 1) ∨
      l.isPunct '(' = false ∧ l.isPunct ')' = false ∧ ∀ d, depthBehind d l = d := by
  cases hopen : l.isPunct '(' with
  | true => exact Or.inl ⟨rfl, not_closes_of_opens hopen, depthBehind_of_opens hopen⟩
  | false =>
    cases hclose : l.isPunct ')' with
    | true => exact Or.inr (Or.inl ⟨rfl, rfl, by simp [depthBehind, hopen, hclose]⟩)
    | false => exact Or.inr (Or.inr ⟨rfl, rfl, by simp [depthBehind, hopen, hclose]⟩)

theorem openBehind?_of_opens (h : l.isPunct '(' = true) :
    openBehind? n (l :: ls) = openBehind? (n + 1) ls := by
  simp [openBehind?, depthBehind, h, not_closes_of_opens h]

theorem openBehind?_zero_of_closes (h : l.isPunct ')' = true) : openBehind? 0 (l :: ls) = none := by
  simp [openBehind?, h]

theorem openBehind?_succ_of_closes (h : l.isPunct ')' = true) :
    openBehind? (n + 1) (l :: ls) = openBehind? n ls := by
  simp [openBehind?, depthBehind, h, not_opens_of_closes h]

theorem openBehind?_of_other (hopen : l.isPunct '(' = false) (hclose : l.isPunct ')' = false) :
    openBehind? n (l :: ls) = openBehind? n ls := by
  simp [openBehind?, depthBehind, hopen, hclose]

theorem openBehind?_append (n : Nat) (ls ms : List Lexeme) :
    openBehind? n (ls ++ ms) = (openBehind? n ls).bind fun k => openBehind? k ms := by
  induction ls generalizing n with
  | nil => rfl
  | cons l ls ih =>
    rw [List.cons_append, openBehind?, openBehind?, ih]
    split <;> rfl

theorem atDepths_append : AtDepths depth (ls ++ ms) ↔
    AtDepths depth ls ∧ AtDepths (ls.foldl depthBehind depth) ms := by
  induction ls generalizing depth with
  | nil => simp [AtDepths]
  | cons l ls ih => rw [List.cons_append, AtDepths, AtDepths, ih, List.foldl_cons, and_assoc]

/-- **The lexemes of a text** carry their depths. -/
theorem atDepths_lexFrom (names : Bool) (offset depth : Nat) (s : List Char) :
    AtDepths depth (lexFrom names offset depth s) := by
  have hword : ∀ (w : List Char) (o d : Nat) (ls : List Lexeme), AtDepths d ls →
      AtDepths d (⟨.word w, o, d⟩ :: ls) := fun w o d ls h => ⟨rfl, h⟩
  fun_induction lexFrom names offset depth s with
  | case1 => trivial
  | case2 offset depth c r hb ih => exact ih
  | case3 offset depth c r hb hc w ih => exact hword _ _ _ _ ih
  | case4 offset depth c r hb hc stop hs inner ih => exact hword _ _ _ _ ih
  | case5 offset depth c r hb hc hs outside ih =>
    refine ⟨?_, ?_⟩
    · simp [Lexeme.isPunct, outside]
    · have hbehind : depthBehind depth ⟨.punct c, offset, outside⟩ =
          if c = '(' then outside + 1 else outside := by
        rcases eq_or_ne c '(' with rfl | hopen
        · rfl
        · by_cases hclose : c = ')' <;> simp [depthBehind, Lexeme.isPunct, hopen, hclose, outside]
      rw [hbehind]
      exact ih

/-- Where parentheses belong together, but for some open before and some open
after, the depth changes by these, and none of them opens further out. -/
theorem depth_of_openBehind (hls : AtDepths depth ls) (h : openBehind? k ls = some n)
    (hk : k ≤ depth) : ls.foldl depthBehind depth = depth - k + n ∧
      ∀ l ∈ ls, l.isPunct '(' = true → depth - k ≤ l.depth := by
  induction ls generalizing depth k with
  | nil =>
    obtain rfl : k = n := by simpa [openBehind?] using h
    refine ⟨?_, fun l hl => by cases hl⟩
    show depth = depth - k + k
    omega
  | cons l ls ih =>
    obtain ⟨hl, hrest⟩ := hls
    rw [List.foldl_cons]
    rcases paren_cases l with ⟨hopen, hclose, hbehind⟩ | ⟨hopen, hclose, hbehind⟩ |
      ⟨hopen, hclose, hbehind⟩
    · rw [openBehind?_of_opens hopen] at h
      rw [hclose, if_neg Bool.false_ne_true] at hl
      rw [hbehind] at hrest ⊢
      obtain ⟨hsum, hinside⟩ := ih hrest h (by omega)
      refine ⟨by omega, fun x hx hxopen => ?_⟩
      rcases List.mem_cons.1 hx with rfl | hx
      · omega
      · have := hinside x hx hxopen
        omega
    · cases k with
      | zero =>
        rw [openBehind?_zero_of_closes hclose] at h
        cases h
      | succ k =>
        rw [openBehind?_succ_of_closes hclose] at h
        rw [hbehind] at hrest ⊢
        obtain ⟨hsum, hinside⟩ := ih hrest h (by omega)
        refine ⟨by omega, fun x hx hxopen => ?_⟩
        rcases List.mem_cons.1 hx with rfl | hx
        · simp [hopen] at hxopen
        · have := hinside x hx hxopen
          omega
    · rw [openBehind?_of_other hopen hclose] at h
      rw [hbehind] at hrest ⊢
      obtain ⟨hsum, hinside⟩ := ih hrest h hk
      refine ⟨hsum, fun x hx hxopen => ?_⟩
      rcases List.mem_cons.1 hx with rfl | hx
      · simp [hopen] at hxopen
      · exact hinside x hx hxopen

/-- Each parenthesis that is open behind some lexemes stands among them, with as
many open after it as there are further in. -/
theorem exists_unclosed (h : n < ls.foldl depthBehind 0) :
    ∃ outer opening inner, ls = outer ++ opening :: inner ∧ opening.isPunct '(' = true ∧
      openBehind? 0 inner = some n := by
  induction ls using List.reverseRecOn generalizing n with
  | nil => simp at h
  | append_singleton ls l ih =>
    rw [List.foldl_append, List.foldl_cons, List.foldl_nil] at h
    -- A group found before the lexeme goes on with it.
    have hon : ∀ m, m < ls.foldl depthBehind 0 → openBehind? m [l] = some n →
        ∃ outer opening inner, ls ++ [l] = outer ++ opening :: inner ∧
          opening.isPunct '(' = true ∧ openBehind? 0 inner = some n := by
      intro m hm hl
      obtain ⟨outer, opening, inner, rfl, hopens, hinner⟩ := ih hm
      refine ⟨outer, opening, inner ++ [l], by simp, hopens, ?_⟩
      rw [openBehind?_append, hinner]
      exact hl
    rcases paren_cases l with ⟨hopen, -, hbehind⟩ | ⟨-, hclose, hbehind⟩ |
      ⟨hopen, hclose, hbehind⟩
    · rw [hbehind] at h
      cases n with
      | zero => exact ⟨ls, l, [], rfl, hopen, rfl⟩
      | succ n => exact hon n (by omega) (openBehind?_of_opens hopen)
    · rw [hbehind] at h
      exact hon (n + 1) (by omega) (openBehind?_succ_of_closes hclose)
    · rw [hbehind] at h
      exact hon n h (openBehind?_of_other hopen hclose)

/-! ## Groups -/

/-- The innermost group around a position: where, among the lexemes before the
position, stands the parenthesis that opens it. -/
structure Position.Within (p group : Position) : Prop where
  before : group ∈ positions p.before.reverse
  opens : group.here.isPunct '(' = true
  paired : IsPaired group.after

instance (p g : Position) : Decidable (p.Within g) :=
  decidable_of_iff (g ∈ positions p.before.reverse ∧ g.here.isPunct '(' = true ∧ IsPaired g.after)
    ⟨fun ⟨hbefore, hopens, hpaired⟩ => ⟨hbefore, hopens, hpaired⟩,
      fun h => ⟨h.before, h.opens, h.paired⟩⟩

instance (p : Position) (P : Position → Prop) [DecidablePred P] :
    Decidable (∃ g, p.Within g ∧ P g) :=
  decidable_of_iff (∃ g ∈ positions p.before.reverse, p.Within g ∧ P g)
    ⟨fun ⟨g, _, h⟩ => ⟨g, h⟩, fun ⟨g, h⟩ => ⟨g, h.1.before, h⟩⟩

instance (p : Position) (P : Position → Prop) [DecidablePred P] :
    Decidable (∀ g, p.Within g → P g) :=
  decidable_of_iff (∀ g ∈ positions p.before.reverse, p.Within g → P g)
    ⟨fun h g hg => h g hg.before hg, fun h g _ hg => h g hg⟩

theorem Position.Within.before_eq (h : p.Within g) :
    p.before = g.after.reverse ++ g.here :: g.before := by
  rw [← List.reverse_inj, mem_positions_iff.1 h.before]
  simp

/-- At a position in a group one parenthesis more is open than at the one that opens the
group, and no other opens at the level of this one. -/
theorem Position.Within.open_eq (h : p.Within g) (hls : AtDepths 0 ls) (hp : p ∈ positions ls) :
    p.before.reverse.foldl depthBehind 0 = g.here.depth + 1 ∧
      ∀ l ∈ g.after, l.isPunct '(' = true → g.here.depth + 1 ≤ l.depth := by
  rw [mem_positions_iff.1 hp, mem_positions_iff.1 h.before, List.append_assoc, List.cons_append,
    atDepths_append] at hls
  obtain ⟨-, hopening, hrest⟩ := hls
  have hbehind := depthBehind_of_opens h.opens
  rw [not_closes_of_opens h.opens, if_neg Bool.false_ne_true] at hopening
  rw [hbehind, ← hopening, atDepths_append] at hrest
  obtain ⟨hsum, hinside⟩ := depth_of_openBehind hrest.1 h.paired (Nat.zero_le _)
  refine ⟨?_, hinside⟩
  rw [mem_positions_iff.1 h.before, List.foldl_append, List.foldl_cons, hbehind, ← hopening]
  exact hsum

/-- A lexeme in a group stands one level further in than the parenthesis that
opens it, and no other opens at the level of this one. -/
theorem Position.Within.depth_eq (h : p.Within g) (hls : AtDepths 0 ls) (hp : p ∈ positions ls)
    (hclose : p.here.isPunct ')' = false) :
    p.here.depth = g.here.depth + 1 ∧
      ∀ l ∈ g.after, l.isPunct '(' = true → g.here.depth + 1 ≤ l.depth := by
  obtain ⟨hsum, hinside⟩ := h.open_eq hls hp
  rw [mem_positions_iff.1 hp, atDepths_append] at hls
  have hhere : p.here.depth = _ := hls.2.1
  rw [hclose, if_neg Bool.false_ne_true, hsum] at hhere
  exact ⟨hhere, hinside⟩

/-- A position stands in a group when a parenthesis is open there. -/
theorem exists_within_of_open (h : 0 < p.before.reverse.foldl depthBehind 0) :
    ∃ g, p.Within g := by
  obtain ⟨outer, opening, inner, hbefore, hopens, hinner⟩ := exists_unclosed h
  refine ⟨⟨outer.reverse, opening, inner⟩, mem_positions_iff.2 ?_, hopens, hinner⟩
  rw [hbefore, List.reverse_reverse]

/-- A lexeme stands in a group when its depth is not zero. -/
theorem exists_within (hls : AtDepths 0 ls) (hp : p ∈ positions ls)
    (hclose : p.here.isPunct ')' = false) : (∃ g, p.Within g) ↔ p.here.depth ≠ 0 := by
  constructor
  · rintro ⟨g, h⟩
    rw [(h.depth_eq hls hp hclose).1]
    exact Nat.succ_ne_zero _
  · intro hdepth
    rw [mem_positions_iff.1 hp, atDepths_append] at hls
    have hhere : p.here.depth = _ := hls.2.1
    rw [hclose, if_neg Bool.false_ne_true] at hhere
    exact exists_within_of_open (by omega)

/-- The nearest parenthesis of a level is the one that opens the group, -/
theorem Position.Within.opensAt_eq (h : p.Within g) (hls : AtDepths 0 ls) (hp : p ∈ positions ls)
    (hclose : p.here.isPunct ')' = false) : opensAt p.here.depth g.here = true ∧
      ∀ l ∈ g.after, opensAt p.here.depth l = false := by
  obtain ⟨hdepth, hinside⟩ := h.depth_eq hls hp hclose
  refine ⟨by simp [opensAt, h.opens, hdepth], fun l hl => ?_⟩
  cases hopen : l.isPunct '(' with
  | false => simp [opensAt, hopen]
  | true =>
    have hfurther := hinside l hl hopen
    simp only [opensAt, hopen, Bool.true_and, beq_eq_false_iff_ne]
    omega

/-- and the group begins with the lexeme behind it. -/
theorem Position.Within.opensQuery_eq (h : p.Within g) (hls : AtDepths 0 ls)
    (hp : p ∈ positions ls) (hclose : p.here.isPunct ')' = false) :
    opensQuery p.here.depth p.here p.before =
      (g.after ++ [p.here]).head?.any (·.isKeyword "SELECT") := by
  obtain ⟨hopens, hpassed⟩ := h.opensAt_eq hls hp hclose
  have hfound : ∀ next, opensQuery p.here.depth next (g.here :: g.before) =
      next.isKeyword "SELECT" := by
    intro next
    rw [opensQuery, if_pos]
    exact hopens
  rw [h.before_eq]
  cases hafter : g.after with
  | nil => exact hfound p.here
  | cons l r =>
    rw [hafter] at hpassed
    rw [List.reverse_cons, List.append_assoc, List.singleton_append,
      opensQuery_append_of_not_opens fun e he => hpassed e (by simpa [or_comm] using he), hfound]
    rfl

/-! ## Queries -/

/-- Whether the group around a position begins with `SELECT`. -/
def Position.InQuery (p : Position) : Prop :=
  ∃ g, p.Within g ∧ g.after.head?.any (·.isKeyword "SELECT") = true

/-- Whether `SELECT` stands before a position in the group around it, however
this begins. -/
def Position.BehindSelect (p : Position) : Prop :=
  ∃ g, p.Within g ∧ ∃ q ∈ positions g.after, q.here.isKeyword "SELECT" = true ∧
    IsPaired q.before.reverse

instance : DecidablePred Position.InQuery := fun p =>
  inferInstanceAs (Decidable (∃ g, p.Within g ∧ _))

instance : DecidablePred Position.BehindSelect := fun p =>
  inferInstanceAs (Decidable (∃ g, p.Within g ∧ _))

/-- **Which `FROM` counts as that of a query**: none behind `DISTINCT`, and in
parentheses only where `SELECT` stands first. -/
theorem isQueryFrom_iff (hp : p ∈ positions (structuralLexemes sql))
    (hfrom : p.here.isKeyword "FROM" = true) : p.isQueryFrom = true ↔
      p.follows "DISTINCT" = false ∧ (p.here.depth = 0 ∨ p.InQuery) := by
  obtain ⟨w, hkind, hword⟩ := Lexeme.isKeyword_iff.1 hfrom
  have hclose : p.here.isPunct ')' = false := by simp [Lexeme.isPunct, hkind]
  have hdepths : AtDepths 0 (structuralLexemes sql) := atDepths_lexFrom true 0 0 _
  have hselect : p.here.isKeyword "SELECT" = false := by
    rw [← Bool.not_eq_true, Lexeme.isKeyword, hkind]
    intro hselect
    rw [sameWord_iff, sameWord_iff.1 hword] at hselect
    exact absurd hselect (by decide)
  have hfirst : ∀ g : Position, (g.after ++ [p.here]).head?.any (·.isKeyword "SELECT") =
      g.after.head?.any (·.isKeyword "SELECT") := by
    intro g
    cases g.after with
    | nil => exact hselect
    | cons l r => rfl
  rw [Position.isQueryFrom, Bool.and_eq_true, Bool.not_eq_true', Bool.or_eq_true, beq_iff_eq]
  refine and_congr_right fun _ => or_congr_right' fun hdepth => ?_
  constructor
  · intro hopens
    obtain ⟨g, h⟩ := (exists_within hdepths hp hclose).2 hdepth
    rw [h.opensQuery_eq hdepths hp hclose, hfirst] at hopens
    exact ⟨g, h, hopens⟩
  · rintro ⟨g, h, hselects⟩
    rw [h.opensQuery_eq hdepths hp hclose, hfirst]
    exact hselects

/-- Whether a group is the body of a common table expression. -/
def Position.isBody (g : Position) : Bool := g.follows "AS" || g.follows "MATERIALIZED"

/-- **Which statements have nested queries**: those with a group, no body of a
common table expression, in which `SELECT` stands first. -/
theorem hasSubqueries_iff (ls : List Lexeme) : (shape ls).hasSubqueries = true ↔
    ∃ p ∈ positions ls, p.here.isKeyword "SELECT" = true ∧
      ∃ g, p.Within g ∧ g.after = [] ∧ g.isBody = false := by
  have hshape : (shape ls).hasSubqueries = (positions ls).any opensSubquery := rfl
  rw [hshape, List.any_eq_true]
  constructor
  · rintro ⟨q, hq, hopens⟩
    rw [opensSubquery, Bool.and_eq_true, Bool.and_eq_true, Bool.not_eq_true'] at hopens
    obtain ⟨⟨hopen, hnext⟩, hfree⟩ := hopens
    cases hafter : q.after with
    | nil => simp [hafter] at hnext
    | cons select after =>
      refine ⟨⟨q.here :: q.before, select, after⟩, ?_, by simpa [hafter] using hnext,
        ⟨q.before, q.here, []⟩, ⟨mem_positions_iff.2 (by simp), hopen, rfl⟩, rfl, hfree⟩
      rw [mem_positions_iff, mem_positions_iff.1 hq, hafter]
      simp
  · rintro ⟨p, hp, hkeyword, g, h, hfirst, hfree⟩
    refine ⟨⟨g.before, g.here, p.here :: p.after⟩, ?_, ?_⟩
    · rw [mem_positions_iff, mem_positions_iff.1 hp, h.before_eq, hfirst]
      simp
    · have hbody : (Position.follows ⟨g.before, g.here, p.here :: p.after⟩ "AS" ||
          Position.follows ⟨g.before, g.here, p.here :: p.after⟩ "MATERIALIZED") = false := hfree
      rw [opensSubquery, hbody]
      simp [h.opens, hkeyword]

/-! ## Tables -/

/-- Words, each with a point before it. -/
def dotted (words : List (List Char)) : List Lexeme.Kind :=
  words.flatMap fun w => [.punct '.', .word w]

/-- Lexemes that begin with the name of a table: a word that begins no query, and
the words that follow it after points. -/
def NamesTable (name : List Char) (ls : List Lexeme) : Prop :=
  ∃ first words rest, kinds ls = .word first :: (dotted words ++ rest) ∧
    (∀ w r, rest ≠ .punct '.' :: .word w :: r) ∧
    isOneOf first ["LATERAL", "SELECT"] = false ∧ name = first ++ words.flatMap ('.' :: ·)

/-- A dotted name goes on as long as words follow after points. -/
theorem dottedName_eq {rest : List Lexeme.Kind} {words : List (List Char)}
    (h : kinds ls = dotted words ++ rest) (hrest : ∀ w r, rest ≠ .punct '.' :: .word w :: r)
    (name : List Char) : dottedName name ls = name ++ words.flatMap ('.' :: ·) := by
  induction words generalizing ls name with
  | nil =>
    have hend : dottedName name ls = name := by
      rcases ls with _ | ⟨dot, _ | ⟨part, r⟩⟩
      · rfl
      · rfl
      · rw [dottedName]
        split
        · next w hdot hword =>
          have hkinds : kinds (dot :: part :: r) = .punct '.' :: .word w :: kinds r := by
            have hpart : part.kind = .word w := by
              cases hkind : part.kind <;> simp_all [Lexeme.word?]
            simp [kinds, Lexeme.isPunct_iff.1 hdot, hpart]
          rw [hkinds] at h
          exact absurd h.symm (hrest w _)
        · rfl
    simpa using hend
  | cons w words ih =>
    rcases ls with _ | ⟨dot, _ | ⟨part, r⟩⟩
    · cases h
    · simp [kinds, dotted] at h
    · have hkinds : dot.kind :: part.kind :: kinds r =
          .punct '.' :: .word w :: (dotted words ++ rest) := h
      obtain ⟨hdot, hpart, hr⟩ : dot.kind = .punct '.' ∧ part.kind = .word w ∧
          kinds r = dotted words ++ rest := by simpa using hkinds
      have hname : dottedName name (dot :: part :: r) = dottedName (name ++ '.' :: w) r := by
        rw [dottedName]
        simp [Lexeme.isPunct, Lexeme.word?, hdot, hpart]
      rw [hname, ih hr]
      simp

/-- The words of a dotted name can be told. -/
theorem exists_dotted (ls : List Lexeme.Kind) : ∃ words rest, ls = dotted words ++ rest ∧
    ∀ w r, rest ≠ .punct '.' :: .word w :: r := by
  induction hlength : ls.length using Nat.strongRecOn generalizing ls with
  | ind n ih =>
    by_cases h : ∃ w r, ls = .punct '.' :: .word w :: r
    · obtain ⟨w, r, rfl⟩ := h
      obtain ⟨words, rest, rfl, hrest⟩ := ih r.length (by simp at hlength; omega) r rfl
      exact ⟨w :: words, rest, rfl, hrest⟩
    · exact ⟨[], ls, rfl, fun w r hls => h ⟨w, r, hls⟩⟩

/-- **Which table is named** at the start of some lexemes. -/
theorem tableName?_eq_some_iff {name : List Char} :
    tableName? ls = some name ↔ NamesTable name ls := by
  cases ls with
  | nil => simp [tableName?, NamesTable, kinds]
  | cons l r =>
    have hkinds : kinds (l :: r) = l.kind :: kinds r := rfl
    rw [tableName?, NamesTable, hkinds]
    cases hkind : l.kind with
    | punct c => simp [Lexeme.word?, hkind]
    | word w =>
      obtain ⟨words, rest, hr, hrest⟩ := exists_dotted (kinds r)
      simp only [Lexeme.word?, hkind, Option.bind_some]
      constructor
      · intro h
        split at h
        · cases h
        · next hone =>
          exact ⟨w, words, rest, by rw [hr], hrest, by simpa using hone,
            (Option.some.inj h).symm.trans (dottedName_eq hr hrest w)⟩
      · rintro ⟨first, words, rest, hsame, hrest, hone, rfl⟩
        obtain ⟨rfl, hr⟩ : w = first ∧ kinds r = dotted words ++ rest := by simpa using hsame
        rw [hone, if_neg Bool.false_ne_true, dottedName_eq hr hrest]

instance (name : List Char) (ls : List Lexeme) : Decidable (NamesTable name ls) :=
  decidable_of_iff _ tableName?_eq_some_iff

/-- A table is used when it is named where one may be. -/
theorem mem_usedTables_iff (ls : List Lexeme) (name : List Char) :
    (∃ t ∈ usedTables ls, sameWord t name = true) ↔
      ∃ p ∈ positions ls, introducesTable p = true ∧
        ∃ t, NamesTable t p.after ∧ sameWord t name = true := by
  have hkeys := keys_distinctBy foldCase
    (((positions ls).filter introducesTable).filterMap fun p => tableName? p.after) (foldCase name)
  simp only [List.mem_map, List.mem_filterMap, List.mem_filter] at hkeys
  simp only [usedTables, sameWord_iff, hkeys, ← tableName?_eq_some_iff]
  constructor
  · rintro ⟨t, ⟨p, ⟨hp, hintroduces⟩, hname⟩, hsame⟩
    exact ⟨p, hp, hintroduces, t, hname, hsame⟩
  · rintro ⟨p, hp, hintroduces, t, hname, hsame⟩
    exact ⟨t, ⟨p, ⟨hp, hintroduces⟩, hname⟩, hsame⟩

/-! ## The shape of a statement -/

/-- Whether a table may be named behind a position: after `JOIN`, and after the
`FROM` of a query, which in parentheses is told in some way. -/
def Position.Introduces (p : Position) (inParentheses : Position → Prop) : Prop :=
  p.here.isKeyword "JOIN" = true ∨ p.here.isKeyword "FROM" = true ∧
    p.follows "DISTINCT" = false ∧ (p.here.depth = 0 ∨ inParentheses p)

instance (p : Position) (P : Position → Prop) [DecidablePred P] : Decidable (p.Introduces P) :=
  inferInstanceAs (Decidable (_ ∨ _))

theorem introducesTable_iff (hp : p ∈ positions (structuralLexemes sql)) :
    introducesTable p = true ↔ p.Introduces Position.InQuery := by
  rw [introducesTable, Bool.or_eq_true, Bool.and_eq_true, Position.Introduces]
  exact or_congr_right (and_congr_right fun hfrom => isQueryFrom_iff hp hfrom)

/-- Whether each group that has a `SELECT` of its own begins with one. -/
def GroupsBegin (ls : List Lexeme) : Prop :=
  ∀ p ∈ positions ls, p.here.isKeyword "SELECT" = true → ∀ g, p.Within g →
    g.after.head?.all (·.isKeyword "SELECT") = true

instance (ls : List Lexeme) : Decidable (GroupsBegin ls) :=
  inferInstanceAs (Decidable (∀ p ∈ positions ls, _ → ∀ g, p.Within g → _))

/-- Where the groups begin with `SELECT` it does not matter where in its group
the `SELECT` of a nested query stands, -/
theorem GroupsBegin.exists_first (hls : GroupsBegin ls) (hp : p ∈ positions ls)
    (hselect : p.here.isKeyword "SELECT" = true) (h : p.Within g) :
    ∃ q ∈ positions ls, q.here.isKeyword "SELECT" = true ∧
      q.Within ⟨g.before, g.here, []⟩ := by
  have hfirst := hls p hp hselect g h
  cases hafter : g.after with
  | nil =>
    refine ⟨p, hp, hselect, ?_, h.opens, rfl⟩
    rw [← hafter]
    exact h.before
  | cons l r =>
    refine ⟨⟨g.here :: g.before, l, r ++ p.here :: p.after⟩, ?_, by simpa [hafter] using hfirst,
      mem_positions_iff.2 (by simp), h.opens, rfl⟩
    rw [mem_positions_iff, mem_positions_iff.1 hp, h.before_eq, hafter]
    simp

/-- and a `SELECT` before a position is the first in its group. -/
theorem GroupsBegin.inQuery (hls : GroupsBegin ls) (hp : p ∈ positions ls)
    (h : p.BehindSelect) : p.InQuery := by
  obtain ⟨g, hg, q, hq, hselect, hpaired⟩ := h
  have hafter : g.after = q.before.reverse ++ q.here :: q.after := mem_positions_iff.1 hq
  -- the `SELECT` as a position of the whole statement, in the same group
  have hposition : ⟨q.before ++ g.here :: g.before, q.here, q.after ++ p.here :: p.after⟩ ∈
      positions ls := by
    rw [mem_positions_iff, mem_positions_iff.1 hp, hg.before_eq, hafter]
    simp
  have hfirst := hls _ hposition hselect ⟨g.before, g.here, q.before.reverse⟩
    ⟨mem_positions_iff.2 (by simp), hg.opens, hpaired⟩
  refine ⟨g, hg, ?_⟩
  rw [hafter]
  cases hbefore : q.before.reverse with
  | nil => exact hselect
  | cons l r => simpa [hbefore] using hfirst

/-- **What is seen of nested queries.**  A statement has them when in a group, no
body of a common table expression, `SELECT` stands first; and its tables are the
names after each `JOIN` and after each `FROM` of a query, which in parentheses is
told by the `SELECT` that stands first, each once whatever its letter case.
Where all groups with a `SELECT` of their own begin with it no nested query and
no `FROM` behind a `SELECT` is missed. -/
theorem nested_queries_seen (sql : List Char) :
    let ls := structuralLexemes sql
    ((shape ls).hasSubqueries = true ↔ ∃ p ∈ positions ls, p.here.isKeyword "SELECT" = true ∧
      ∃ g, p.Within g ∧ g.after = [] ∧ g.isBody = false) ∧
    (∀ name, (∃ t ∈ (shape ls).tables, sameWord t name = true) ↔
      ∃ p ∈ positions ls, p.Introduces Position.InQuery ∧
        ∃ t, NamesTable t p.after ∧ sameWord t name = true) ∧
    ((shape ls).tables.map foldCase).Nodup ∧
    (GroupsBegin ls →
      ((shape ls).hasSubqueries = true ↔ ∃ p ∈ positions ls, p.here.isKeyword "SELECT" = true ∧
        ∃ g, p.Within g ∧ g.isBody = false) ∧
      ∀ p ∈ positions ls, p.Introduces Position.BehindSelect → ∀ name, NamesTable name p.after →
        ∃ t ∈ (shape ls).tables, sameWord t name = true) := by
  intro ls
  have htables : ∀ name, (∃ t ∈ (shape ls).tables, sameWord t name = true) ↔
      ∃ p ∈ positions ls, p.Introduces Position.InQuery ∧
        ∃ t, NamesTable t p.after ∧ sameWord t name = true := by
    intro name
    refine (mem_usedTables_iff ls name).trans (exists_congr fun p => and_congr_right fun hp => ?_)
    rw [introducesTable_iff hp]
  refine ⟨hasSubqueries_iff ls, htables, nodup_distinctBy foldCase _, fun hls => ⟨?_, ?_⟩⟩
  · rw [hasSubqueries_iff]
    constructor
    · rintro ⟨p, hp, hselect, g, h, -, hfree⟩
      exact ⟨p, hp, hselect, g, h, hfree⟩
    · rintro ⟨p, hp, hselect, g, h, hfree⟩
      obtain ⟨q, hq, hfirst, hwithin⟩ := hls.exists_first hp hselect h
      exact ⟨q, hq, hfirst, _, hwithin, rfl, hfree⟩
  · intro p hp hintroduces name hname
    refine (htables name).2 ⟨p, hp, ?_, name, hname, sameWord_refl name⟩
    refine hintroduces.imp_right fun hfrom => ?_
    exact ⟨hfrom.1, hfrom.2.1, hfrom.2.2.imp_right (hls.inQuery hp)⟩

/-- A query nested in another, which takes a part of a date. -/
def nestedSelect : List Char :=
  "SELECT a FROM t WHERE EXTRACT(y FROM d) > k AND a IN (SELECT a FROM x.b)".toList

/-- The nested query is seen, and its table. -/
theorem nestedSelect_seen : GroupsBegin (structuralLexemes nestedSelect) ∧
    (shape (structuralLexemes nestedSelect)).hasSubqueries = true ∧
    ∃ t ∈ (shape (structuralLexemes nestedSelect)).tables, sameWord t "X.B".toList = true := by
  obtain ⟨-, htables, -, hseen⟩ := nested_queries_seen nestedSelect
  have hfound : GroupsBegin (structuralLexemes nestedSelect) ∧
      (∃ p ∈ positions (structuralLexemes nestedSelect), p.here.isKeyword "SELECT" = true ∧
        ∃ g, p.Within g ∧ g.isBody = false) ∧
      ∃ p ∈ positions (structuralLexemes nestedSelect),
        p.Introduces Position.InQuery ∧ NamesTable "x.b".toList p.after := by
    decide +kernel
  obtain ⟨hbegin, hselect, p, hp, hintroduces, hnames⟩ := hfound
  exact ⟨hbegin, (hseen hbegin).1.2 hselect,
    (htables "X.B".toList).2 ⟨p, hp, hintroduces, "x.b".toList, hnames, by decide⟩⟩

/-- A query in parentheses that begins with `WITH`. -/
def nestedWith : List Char := ("SELECT deal.dl_nbr, 1 AS x FROM deal WHERE k IN " ++
  "(WITH b AS (SELECT k FROM t) SELECT k FROM b)").toList

/-- Neither the nested query nor its table is seen. -/
theorem nestedWith_missed :
    (∃ p ∈ positions (structuralLexemes nestedWith), p.here.isKeyword "SELECT" = true ∧
      ∃ g, p.Within g ∧ g.isBody = false) ∧
    (∃ p ∈ positions (structuralLexemes nestedWith), p.Introduces Position.BehindSelect ∧
      NamesTable "b".toList p.after) ∧
    (shape (structuralLexemes nestedWith)).hasSubqueries = false ∧
    (shape (structuralLexemes nestedWith)).tables = ["deal".toList, "t".toList] := by
  decide +kernel

end DealSql.Review
