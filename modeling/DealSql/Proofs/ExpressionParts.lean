import DealSql.Sql.Expr

/-!
# The parts of an expression

An expression is made of smaller ones, and what it mentions are its parts of
a kind: its columns are the parts that are a column, its divisions those
that are a division.  The way an expression is written depends on the
dialect only through its smallest parts, so it can be written with other
names for its columns and the same everything else.

* `hasPart_iff` — a part is the whole or a part of a component.
* `forall_hasPart_iff` — what holds of all parts, component by component.
* `writeWith_quoted` — with the columns as the dialect writes them, an
  expression is written as the dialect writes it.
-/

namespace DealSql.Sql.Expr

open DealSql.Text

/-- The expressions of which an expression is made directly. -/
def components : Expr → List Expr
  | .column _ _ => []
  | .literal _ => []
  | .binary l _ r => [l, r]
  | .call _ args _ => args
  | .member e values _ => e :: values
  | .star _ => []
  | .paren e => [e]

/-- An expression has a part, itself or one further inside. -/
inductive HasPart : Expr → Expr → Prop where
  | whole (e : Expr) : HasPart e e
  | inside {e c p : Expr} (hc : c ∈ e.components) (hp : HasPart c p) : HasPart e p

theorem hasPart_iff {e p : Expr} :
    e.HasPart p ↔ p = e ∨ ∃ c ∈ e.components, c.HasPart p := by
  constructor
  · intro h
    cases h with
    | whole => exact Or.inl rfl
    | inside hc hp => exact Or.inr ⟨_, hc, hp⟩
  · rintro (rfl | ⟨c, hc, hp⟩)
    · exact .whole p
    · exact .inside hc hp

/-- What holds of all parts holds of the whole and of all parts of its components. -/
theorem forall_hasPart_iff {P : Expr → Prop} {e : Expr} :
    (∀ p, e.HasPart p → P p) ↔ P e ∧ ∀ c ∈ e.components, ∀ p, c.HasPart p → P p := by
  constructor
  · intro h
    exact ⟨h e (.whole e), fun c hc p hp => h p (.inside hc hp)⟩
  · rintro ⟨hwhole, hcomponents⟩ p hp
    rcases hasPart_iff.1 hp with rfl | ⟨c, hc, hp⟩
    · exact hwhole
    · exact hcomponents c hc p hp

@[simp] theorem hasPart_column {table : Option String} {name : String} {p : Expr} :
    (column table name).HasPart p ↔ p = column table name := by
  rw [hasPart_iff]
  simp [components]

@[simp] theorem hasPart_literal {v : Literal} {p : Expr} :
    (literal v).HasPart p ↔ p = literal v := by
  rw [hasPart_iff]
  simp [components]

@[simp] theorem hasPart_binary {l r p : Expr} {op : BinaryOp} :
    (binary l op r).HasPart p ↔ p = binary l op r ∨ l.HasPart p ∨ r.HasPart p := by
  rw [hasPart_iff]
  simp [components]

@[simp] theorem hasPart_call {function : String} {args : List Expr} {distinct : Bool} {p : Expr} :
    (call function args distinct).HasPart p ↔
      p = call function args distinct ∨ ∃ a ∈ args, a.HasPart p := by
  rw [hasPart_iff]
  simp [components]

@[simp] theorem hasPart_member {e p : Expr} {values : List Expr} {negated : Bool} :
    (member e values negated).HasPart p ↔
      p = member e values negated ∨ e.HasPart p ∨ ∃ v ∈ values, v.HasPart p := by
  rw [hasPart_iff]
  simp [components]

@[simp] theorem hasPart_paren {e p : Expr} : (paren e).HasPart p ↔ p = paren e ∨ e.HasPart p := by
  rw [hasPart_iff]
  simp [components]

/-! ## Other names for the columns -/

mutual

/-- How a dialect writes an expression in which columns are written in a way
of their own. -/
def writeWith (columnText : Option String → String → List Char) (d : Dialect) :
    Expr → List Char
  | .column table name => columnText table name
  | .literal v => v.fragment.write d
  | .binary l op r =>
    l.writeWith columnText d ++ [' '] ++ op.fragment.write d ++ [' '] ++ r.writeWith columnText d
  | .call function args distinct =>
    upper function.toList ++ ['('] ++ (if distinct then "DISTINCT ".toList else []) ++
      ", ".toList.intercalate (writeEachWith columnText d args) ++ [')']
  | .member e values negated =>
    if values.isEmpty then (if negated then "TRUE".toList else "FALSE".toList)
    else e.writeWith columnText d ++ (if negated then " NOT".toList else []) ++ " IN (".toList ++
      ", ".toList.intercalate (writeEachWith columnText d values) ++ [')']
  | .star table => Sql.write d (qualifier table) ++ ['*']
  | .paren e => ['('] ++ e.writeWith columnText d ++ [')']

/-- Each expression of a list so written. -/
def writeEachWith (columnText : Option String → String → List Char) (d : Dialect) :
    List Expr → List (List Char)
  | [] => []
  | e :: es => e.writeWith columnText d :: writeEachWith columnText d es

end

/-- A column as a dialect writes it. -/
def quotedColumn (d : Dialect) (table : Option String) (name : String) : List Char :=
  Sql.write d (qualifier table ++ [.identifier name])

/-- A list of fragments is written fragment by fragment. -/
theorem write_cons (d : Dialect) (f : Fragment) (fs : List Fragment) :
    Sql.write d (f :: fs) = f.write d ++ Sql.write d fs := by simp [Sql.write]

/-- A list of parts is written part by part. -/
theorem write_commaSeparated (d : Dialect) (parts : List (List Fragment)) :
    Sql.write d (commaSeparated parts) = ", ".toList.intercalate (parts.map (Sql.write d)) := by
  induction parts with
  | nil => rfl
  | cons p ps ih =>
    cases ps with
    | nil => simp [commaSeparated, List.intercalate]
    | cons q qs =>
      have hcomma : Sql.write d [.symbol .comma, .space] = ", ".toList := rfl
      simp only [commaSeparated, List.intercalate, List.map_cons, List.intersperse_cons_cons,
        List.flatten_cons, write_append, hcomma] at ih ⊢
      rw [ih]

section Quoted

variable (d : Dialect)

mutual

/-- With its columns written as the dialect writes them, an expression is
written as the dialect writes it. -/
theorem writeWith_quoted (e : Expr) : e.writeWith (quotedColumn d) d = Sql.write d e.fragments := by
  have hnil : Sql.write d [] = [] := rfl
  cases e with
  | column table name => rfl
  | literal v => simp [writeWith, fragments, write_cons, hnil]
  | binary l op r =>
    have hl := writeWith_quoted l
    have hr := writeWith_quoted r
    simp [writeWith, fragments, hl, hr, write_cons, Fragment.write]
  | call function args distinct =>
    have hargs := writeEachWith_quoted args
    cases distinct <;>
      simp [writeWith, fragments, hargs, write_commaSeparated, write_cons, hnil, Fragment.write,
        Symbol.text, Keyword.text]
  | member e values negated =>
    have he := writeWith_quoted e
    have hvalues := writeEachWith_quoted values
    by_cases hempty : values.isEmpty = true
    · cases negated <;>
        simp [writeWith, fragments, hempty, write_cons, hnil, Fragment.write, Keyword.text]
    · cases negated <;>
        simp [writeWith, fragments, hempty, he, hvalues, parenthesized, write_commaSeparated,
          write_cons, hnil, Fragment.write, Symbol.text, Keyword.text]
  | star table => simp [writeWith, fragments, write_cons, hnil, Fragment.write, Symbol.text]
  | paren e =>
    have he := writeWith_quoted e
    simp [writeWith, fragments, he, write_cons, hnil, Fragment.write, Symbol.text]

theorem writeEachWith_quoted (es : List Expr) :
    writeEachWith (quotedColumn d) d es = (fragmentsOfEach es).map (Sql.write d) := by
  cases es with
  | nil => rfl
  | cons e es =>
    have he := writeWith_quoted e
    have hes := writeEachWith_quoted es
    simp [writeEachWith, fragmentsOfEach, he, hes]

end

end Quoted

end DealSql.Sql.Expr
