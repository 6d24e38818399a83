import DealSql.Proofs.FragmentLexemes
import DealSql.Proofs.QueryFragments

/-!
# Sealed texts

A whole text is sealed when it does not end in the first half of a pair.
Only a quote behind it can then change how it is read, and all else is read
as if it stood alone.

Whatever names and strings they hold, expressions and queries are written as
sealed texts where names stand between double quotes: the fragments of each
are whole, no pair arises between them, and none but a closing one is last.

* `Sealed.mask_append` — what follows a sealed text is masked by itself.
* `Expr.sealed_write`, `Query.sealed_write` — expressions and queries are sealed.
* `maskComments_write_append` — nothing in them reaches what follows.
-/

namespace DealSql.Statement

open DealSql.Text

/-- A whole text that does not end in the first half of a pair. -/
structure Sealed (s : List Char) : Prop extends Whole s where
  ends : ∀ c ∈ s.getLast?, c ≠ '-' ∧ c ≠ '/'

variable {ahead : Option Char} {g : Region} {c : Char} {s : List Char}

/-- A character after which the code goes on is read alike before anything but
a quote, unless it can begin a pair. -/
theorem Region.read_of_returns (hcode : (g.read c none).2 = .code) (hdash : c ≠ '-')
    (hslash : c ≠ '/') (hahead : ahead ≠ some '\'') : g.read c ahead = g.read c none := by
  cases g with
  | code => simp [Region.read, hdash, hslash]
  | block =>
    -- a star before nothing closes no comment, so the comment goes on
    simp [Region.read] at hcode
  | literal => simp [Region.read, hahead]
  | _ => rfl

/-- A text after which the code goes on is read alike before anything but a quote. -/
theorem read_alike_of_returns (hcode : g.after none s = .code)
    (hends : ∀ c ∈ s.getLast?, c ≠ '-' ∧ c ≠ '/') (hahead : ahead ≠ some '\'') :
    marksUpTo ahead g s = marksFrom g s ∧ g.after ahead s = .code := by
  induction s generalizing g with
  | nil => exact ⟨rfl, hcode⟩
  | cons c r ih =>
    rw [Region.after, Option.or_none] at hcode
    have hread : g.read c (r.head?.or ahead) = g.read c r.head? := by
      cases r with
      | nil =>
        obtain ⟨hdash, hslash⟩ := hends c rfl
        exact Region.read_of_returns hcode hdash hslash hahead
      | cons d r => rfl
    have hlast : ∀ x ∈ r.getLast?, x ≠ '-' ∧ x ≠ '/' := by
      intro x hx
      refine hends x ?_
      rw [List.getLast?_cons, Option.mem_def.1 hx]
      rfl
    obtain ⟨hmarks, hafter⟩ := ih hcode hlast
    rw [marksUpTo, marksFrom, Region.after, hread, hmarks, hafter]
    exact ⟨rfl, rfl⟩

/-- **What follows a sealed text**, a quote aside, is masked by itself. -/
theorem Sealed.mask_append {rest : List Char} (h : Sealed s) (hrest : rest.head? ≠ some '\'')
    (m : Mask) : mask m (s ++ rest) = mask m s ++ mask m rest := by
  obtain ⟨hmarks, hafter⟩ := read_alike_of_returns h.returns h.ends hrest
  rw [mask, maskFrom, marksFrom_append, hmarks, hafter, List.flatMap_append]
  rfl

end DealSql.Statement

namespace DealSql.Sql

open DealSql.Text DealSql.Statement

variable {d : Dialect} {f : Fragment} {fs gs : List Fragment}

/-! ## Names of functions -/

/-- The upper-case form of a character of a name is one. -/
theorem isNameChar_of_mem_upperChar {c x : Char} (h : Placeholder.isNameChar c = true)
    (hx : x ∈ upperChar c) : Placeholder.isNameChar x = true := by
  have hall : ∀ n < 128, Placeholder.isNameChar (Char.ofNat n) = true →
      Placeholder.isNameChar (Char.ofNat n).toUpper = true := by decide +kernel
  have hc : c.toNat < 128 := by
    rcases Bool.or_eq_true_iff.1 h with hname | hunderscore
    · rcases Bool.or_eq_true_iff.1 hname with halpha | hdigit
      · have hrange := range_of_isAlpha halpha
        omega
      · have hrange := range_of_isDigit hdigit
        omega
    · rw [beq_iff_eq.1 hunderscore]
      decide
  rw [upperChar, if_pos hc, List.mem_singleton] at hx
  rw [hx, ← Char.ofNat_toNat c]
  exact hall c.toNat hc (by rwa [Char.ofNat_toNat])

/-- The name of a function is written as a whole text. -/
theorem whole_upper {s : List Char} (h : ∀ c ∈ s, Placeholder.isNameChar c = true) :
    Whole (upper s) := by
  refine (whole_of_inert fun x hx => ?_).1
  obtain ⟨c, hc, hx⟩ := List.mem_flatMap.1 hx
  exact isInert_of_isNameChar (isNameChar_of_mem_upperChar (h c hc) hx)

namespace Expr

/-- All functions that an expression calls have names of letters, digits and underscores. -/
def CallsPlainNames (e : Expr) : Prop :=
  ∀ function args distinct, e.HasPart (.call function args distinct) →
    ∀ c ∈ function.toList, Placeholder.isNameChar c = true

/-- A component is smaller than the expression that is made of it. -/
theorem sizeOf_lt_of_mem_components {c e : Expr} (h : c ∈ e.components) : sizeOf c < sizeOf e := by
  cases e with
  | call function args distinct =>
    have harg : sizeOf c < sizeOf args := List.sizeOf_lt_of_mem h
    simp only [call.sizeOf_spec]
    omega
  | member e values negated =>
    simp only [member.sizeOf_spec]
    rcases List.mem_cons.1 h with rfl | h
    · omega
    · have hvalue := List.sizeOf_lt_of_mem h
      omega
  | binary l op r =>
    simp only [components, List.mem_cons, List.not_mem_nil, or_false] at h
    simp only [binary.sizeOf_spec]
    rcases h with rfl | rfl <;> omega
  | paren e =>
    obtain rfl : c = e := by simpa [components] using h
    simp
  | _ => simp [components] at h

/-- What holds of an expression whenever it holds of its components holds of all. -/
theorem induction_components {P : Expr → Prop} (h : ∀ e, (∀ c ∈ e.components, P c) → P e)
    (e : Expr) : P e :=
  h e fun c hc => have := sizeOf_lt_of_mem_components hc; induction_components h c
termination_by sizeOf e

/-- The fragments of its own with which an expression is written are whole. -/
theorem whole_ownFragment {e : Expr} (hd : d ≠ .tsql) (h : e.CallsPlainNames)
    (hf : f ∈ e.ownFragments) : Whole (f.write d) := by
  have hother : (∀ s, f ≠ .function s) → (∀ s, f ≠ .comment s) → Whole (f.write d) :=
    fun hfunction hcomment =>
      whole_fragment f (fun _ _ => Or.inl hd) (fun s hs => absurd hs (hfunction s)) hcomment
  cases e with
  | call function args distinct =>
    obtain rfl := List.mem_singleton.1 hf
    exact whole_upper (h function args distinct (.whole _))
  | literal v =>
    obtain rfl := List.mem_singleton.1 hf
    cases v <;> exact hother (by simp [Literal.fragment]) (by simp [Literal.fragment])
  | binary l op r =>
    obtain rfl := List.mem_singleton.1 hf
    cases op <;> exact hother (by simp [BinaryOp.fragment]) (by simp [BinaryOp.fragment])
  | column table name =>
    refine hother ?_ ?_ <;> rintro s rfl <;> simp [ownFragments] at hf
  | star table =>
    refine hother ?_ ?_ <;> rintro s rfl <;> simp [ownFragments] at hf
  | _ => cases hf

/-- All fragments of an expression are whole. -/
theorem whole_of_mem_fragments {e : Expr} (hd : d ≠ .tsql) (h : e.CallsPlainNames)
    (hf : f ∈ e.fragments) : Whole (f.write d) := by
  induction e using induction_components with
  | h e ih =>
    rcases mem_fragments hf with hf | hf | ⟨c, hc, hf⟩
    · refine whole_fragment f (fun _ _ => Or.inl hd) ?_ ?_ <;> rintro s rfl <;>
        simp [joiningFragments] at hf
    · exact whole_ownFragment hd h hf
    · exact ih c hc (fun function args distinct hp => h function args distinct (.inside hc hp)) hf

end Expr

/-! ## The ends of what is written -/

/-- Whether a fragment may be the last one: there is something of it, and it
does not end in the first half of a pair. -/
def Fragment.closes : Fragment → Bool
  | .symbol s => s != .minus && s != .over
  | .indent _ => false
  | .function _ => false
  | .comment _ => false
  | _ => true

/-- How a fragment that may be the last one ends. -/
theorem Fragment.exists_getLast?_write (d : Dialect) (h : f.closes = true) :
    ∃ c, (f.write d).getLast? = some c ∧ c ≠ '-' ∧ c ≠ '/' := by
  cases f with
  | keyword k => cases k <;> exact ⟨_, rfl, by decide, by decide⟩
  | symbol s =>
    cases s with
    | minus => cases h
    | _ => first | exact ⟨_, rfl, by decide, by decide⟩ | cases h
  | space => exact ⟨_, rfl, by decide, by decide⟩
  | newline => exact ⟨_, rfl, by decide, by decide⟩
  | identifier s =>
    refine ⟨d.identifierMarks.2, List.getLast?_concat .., ?_, ?_⟩ <;> cases d <;> decide
  | string s =>
    refine ⟨'\'', ?_, by decide, by decide⟩
    rw [Fragment.write, Dialect.quoteString]
    split
    · rw [List.getLast?_cons, quoteWith, List.getLast?_concat]
      rfl
    · exact List.getLast?_concat ..
  | integer n =>
    obtain ⟨c, hc⟩ : ∃ c, (natural n.natAbs).getLast? = some c :=
      ⟨_, List.getLast?_eq_some_getLast Nat.toDigits_ne_nil⟩
    have hdigit := isDigit_of_mem_natural (List.mem_of_getLast? hc)
    refine ⟨c, ?_, ne_of_test hdigit rfl, ne_of_test hdigit rfl⟩
    rw [Fragment.write, Text.integer]
    split
    · rw [List.getLast?_cons, hc]
      rfl
    · exact hc
  | truth b => cases d <;> cases b <;> exact ⟨_, rfl, by decide, by decide⟩
  | _ => cases h

/-- Fragments read one by one make a sealed text when the last of them closes it. -/
theorem Piecewise.sealed (h : Piecewise d fs) (hlast : fs.getLast?.any Fragment.closes = true) :
    Sealed (write d fs) := by
  refine ⟨h.whole, ?_⟩
  obtain ⟨f, hf, hcloses⟩ := (Option.any_eq_true _ _).1 hlast
  obtain ⟨init, rfl⟩ := List.getLast?_eq_some_iff.1 hf
  obtain ⟨c, hc, hends⟩ := f.exists_getLast?_write d hcloses
  have hwrite : (write d (init ++ [f])).getLast? = some c := by
    rw [write_append, List.getLast?_append]
    simp [write, hc]
  intro x hx
  obtain rfl : c = x := Option.some.inj (hwrite.symm.trans hx)
  exact hends

/-- The last fragment of an expression closes it. -/
theorem Expr.closes_fragments : (e : Expr) → e.fragments.getLast?.any Fragment.closes = true
  | .column table name => by rw [Expr.fragments, List.getLast?_concat]; rfl
  | .literal v => by cases v <;> rfl
  | .binary l op r => by
    obtain ⟨f, hf, hcloses⟩ := (Option.any_eq_true _ _).1 r.closes_fragments
    rw [Expr.fragments, List.getLast?_append, hf]
    exact hcloses
  | .call function args distinct => by rw [Expr.fragments, List.getLast?_concat]; rfl
  | .member e values negated => by
    rw [Expr.fragments]
    split
    · cases negated <;> rfl
    · rw [parenthesized, ← List.append_assoc, List.getLast?_concat]
      rfl
  | .star table => by rw [Expr.fragments, List.getLast?_concat]; rfl
  | .paren e => by rw [Expr.fragments, List.getLast?_concat]; rfl

/-- Fragments that are none at all or end with one that closes them. -/
def Closed (fs : List Fragment) : Prop := fs.getLast?.all Fragment.closes = true

theorem Closed.append (hf : Closed fs) (hg : Closed gs) : Closed (fs ++ gs) := by
  rw [Closed, List.getLast?_append]
  cases hlast : gs.getLast? with
  | none => exact hf
  | some g =>
    rw [Closed, hlast] at hg
    exact hg

theorem Closed.flatMap {α : Type} {write : α → List Fragment} {xs : List α}
    (h : ∀ x ∈ xs, Closed (write x)) : Closed (xs.flatMap write) := by
  induction xs with
  | nil => rfl
  | cons x xs ih =>
    rw [List.flatMap_cons]
    exact (h x List.mem_cons_self).append (ih fun y hy => h y (List.mem_cons_of_mem x hy))

theorem Closed.intercalate {ps : List (List Fragment)} (hf : Closed fs)
    (h : ∀ p ∈ ps, Closed p) : Closed (fs.intercalate ps) := by
  exact intercalate_induction rfl (fun p rest hp hrest => hp.append (hf.append hrest)) h

theorem Expr.closed_fragments (e : Expr) (fs : List Fragment) : Closed (fs ++ e.fragments) := by
  obtain ⟨f, hf, hcloses⟩ := (Option.any_eq_true _ _).1 e.closes_fragments
  rw [Closed, List.getLast?_append, hf]
  exact hcloses

/-- The last fragment of a query closes it. -/
theorem Query.closes_body (q : Query) : q.body.getLast?.any Fragment.closes = true := by
  have hitems : Closed q.itemFragments := by
    refine Closed.intercalate rfl fun p hp => ?_
    obtain ⟨i, -, rfl⟩ := List.mem_map.1 hp
    rw [SelectItem.fragments, ← List.append_assoc]
    refine (i.expr.closed_fragments _).append ?_
    cases i.label <;> rfl
  have htable : Closed q.tableFragments := by
    rw [Query.tableFragments]
    cases q.table <;> rfl
  have hjoins : Closed (q.joins.flatMap Join.fragments) :=
    Closed.flatMap fun j _ => j.condition.closed_fragments _
  have hcondition : Closed q.conditionFragments := by
    rw [Query.conditionFragments]
    cases q.condition with
    | none => rfl
    | some e => exact e.closed_fragments _
  have hgrouping : Closed q.groupingFragments := by
    rw [Query.groupingFragments]
    split
    · rfl
    · have hwords : Closed [.newline, .keyword .GROUP_BY, .space] := rfl
      refine hwords.append (Closed.intercalate rfl fun p hp => ?_)
      obtain ⟨e, -, rfl⟩ := List.mem_map.1 hp
      exact e.closed_fragments []
  have hclauses := hjoins.append (hcondition.append hgrouping)
  have hrest := hitems.append (htable.append hclauses)
  rw [Query.body_eq, List.cons_append, List.getLast?_cons]
  rw [Closed] at hrest
  cases hlast : (q.itemFragments ++ (q.tableFragments ++ q.clauses)).getLast? with
  | none => rfl
  | some f =>
    rw [Query.clauses] at hlast
    rw [hlast] at hrest
    exact hrest

/-! ## Expressions and queries -/

/-- **An expression is sealed**, whatever names and strings it holds. -/
theorem Expr.sealed_write {e : Expr} (hd : d ≠ .tsql) (h : e.CallsPlainNames) :
    Sealed (e.write d) :=
  (piecewise_fragments e fun _ hf => Expr.whole_of_mem_fragments hd h hf).sealed e.closes_fragments

/-- No pair arises next to a fragment that sets apart. -/
theorem seam_of_setsApart (h : fs.getLast?.all Fragment.setsApart = true ∨
    gs.head?.all Fragment.setsApart = true) : Seam (write d fs) (write d gs) := by
  have hbreak : ∀ c ∈ " \n,()".toList, isPairing c = false := by decide
  have hpairing : ∀ {f : Fragment}, f.setsApart = true → ∀ c ∈ f.write d, isPairing c = false :=
    fun hf c hc => hbreak c (by simpa [isBreak] using (isBreak_of_setsApart (d := d) hf).2 c hc)
  rcases h with h | h
  · refine Or.inl ?_
    cases hlast : fs.getLast? with
    | none => rw [List.getLast?_eq_none_iff.1 hlast]; rfl
    | some f =>
      rw [hlast] at h
      obtain ⟨init, rfl⟩ := List.getLast?_eq_some_iff.1 hlast
      obtain ⟨c, hc⟩ : ∃ c, (f.write d).getLast? = some c :=
        ⟨_, List.getLast?_eq_some_getLast (isBreak_of_setsApart h).1⟩
      have hsingle : write d [f] = f.write d := by simp [write]
      rw [write_append, List.getLast?_append, hsingle, hc]
      exact hpairing h c (List.mem_of_getLast? hc)
  · refine Or.inr ?_
    cases gs with
    | nil => rfl
    | cons f gs =>
      obtain ⟨c, r, hc⟩ := List.exists_cons_of_ne_nil (isBreak_of_setsApart (d := d) h).1
      have hcons : write d (f :: gs) = f.write d ++ write d gs := by simp [write]
      rw [hcons, hc]
      exact hpairing h c (by simp [hc])

/-- Being read fragment by fragment passes on. -/
theorem piecewise_passesOn (d : Dialect) : PassesOn (Piecewise d) where
  nil := piecewise_nil
  layout {f} h := by
    refine piecewise_single (whole_fragment f ?_ ?_ ?_) <;> rintro s rfl <;> cases h
  append hf hg h := hf.append hg (seam_of_setsApart h)

/-- All functions that a query calls have names of letters, digits and underscores. -/
def Query.CallsPlainNames (q : Query) : Prop := ∀ e ∈ q.expressions, e.CallsPlainNames

/-- **A query without a comment is sealed**, whatever names and strings it holds. -/
theorem Query.sealed_write {q : Query} (hd : d ≠ .tsql) (hcomment : q.comment = none)
    (h : q.CallsPlainNames) : Sealed (q.write d) := by
  have hbody : q.body = q.fragments := by
    rw [q.fragments_eq_comment_append, Query.commentFragments, hcomment]
    rfl
  have hpiecewise : Piecewise d q.body := by
    refine (piecewise_passesOn d).body (fun t _ => ?_) fun e he => ?_
    · exact piecewise_single
        (whole_fragment _ (fun _ _ => Or.inl hd) (fun _ hs => by cases hs) fun _ hs => by cases hs)
    · exact piecewise_fragments e fun f hf => Expr.whole_of_mem_fragments hd (h e he) hf
  rw [Query.write, ← hbody]
  exact hpiecewise.sealed q.closes_body

/-- **Nothing in an expression or a query reaches what follows.**  Where names
stand between double quotes, no name and no string that is written opens a
comment or leaves a quote open: whatever follows, unless it begins with a
quote that would go on with a string, is masked as if it stood alone. -/
theorem maskComments_write_append {rest : List Char} (hd : d ≠ .tsql)
    (hrest : rest.head? ≠ some '\'') :
    (∀ e : Expr, e.CallsPlainNames →
      maskComments (e.write d ++ rest) = e.write d ++ maskComments rest) ∧
    ∀ q : Query, q.comment = none → q.CallsPlainNames →
      maskComments (q.write d ++ rest) = q.write d ++ maskComments rest := by
  have hsealed : ∀ s, Sealed s → maskComments (s ++ rest) = s ++ maskComments rest := by
    intro s hs
    have hmask : maskComments (s ++ rest) = maskComments s ++ maskComments rest :=
      hs.mask_append hrest .comments
    rwa [hs.toWhole.maskComments_eq] at hmask
  exact ⟨fun e he => hsealed _ (e.sealed_write hd he),
    fun q hcomment hq => hsealed _ (q.sealed_write hd hcomment hq)⟩

/-- Names and strings with marks of every kind, and a comment behind the query. -/
theorem quotedMarks_masked :
    let e : Expr := .binary (.column (some "a\"--") "b'") .minus
      (.call "coalesce" [.str "it's /*", .int (-5)] false)
    let q : Query := { Query.empty with items := [⟨e, some "-- x"⟩], table := some "t'/*" }
    (maskComments (e.write .postgres ++ "-- end".toList) =
        "\"a\"\"--\".\"b'\" - COALESCE('it''s /*', -5)      ".toList) ∧
      maskComments (q.write .duckdb ++ "/*".toList) = q.write .duckdb ++ "  ".toList := by
  intro e q
  have he : e.CallsPlainNames := by
    intro function args distinct hpart
    simp only [e, Expr.hasPart_binary, Expr.hasPart_column, Expr.hasPart_call, Expr.str, Expr.int,
      List.mem_cons, List.not_mem_nil, or_false, exists_eq_or_imp, exists_eq_left,
      Expr.hasPart_literal, reduceCtorEq, false_or, Expr.call.injEq] at hpart
    rw [hpart.1]
    decide
  have hq : q.CallsPlainNames := by
    intro x hx
    obtain rfl : x = e := by simpa [q, Query.expressions, Query.empty] using hx
    exact he
  have hline : "-- end".toList.head? ≠ some '\'' := by decide
  have hblock : "/*".toList.head? ≠ some '\'' := by decide
  constructor
  · rw [(maskComments_write_append (by decide) hline).1 e he]
    decide +kernel
  · rw [(maskComments_write_append (by decide) hblock).2 q rfl hq]
    rfl

end DealSql.Sql
