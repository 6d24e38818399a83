/-!
# Quoted texts

Between quotes a closing mark that belongs to the text is written twice;
the first one that stands alone ends it.

* `closeQuoted_double` — reading what quoting wrote gives the text back and
  leaves what follows, provided no further closing mark follows at once.
* `closeQuoted_length` — reading leaves less than it was given.
-/

namespace DealSql.Text

/-- A text with every closing mark written twice. -/
def double (stop : Char) (s : List Char) : List Char :=
  s.flatMap fun c => if c = stop then [c, c] else [c]

/-- A text between an opening and a closing mark. -/
def quoteWith (opening closing : Char) (s : List Char) : List Char :=
  opening :: double closing s ++ [closing]

/-- The text up to the first closing mark that stands alone, and what
follows it; nothing when there is no such mark. -/
def closeQuoted (stop : Char) : List Char → Option (List Char × List Char)
  | [] => none
  | c :: r =>
    if c = stop then
      match r with
      | [] => some ([], [])
      | d :: r' =>
        if d = stop then (closeQuoted stop r').map fun x => (stop :: x.1, x.2)
        else some ([], d :: r')
    else (closeQuoted stop r).map fun x => (c :: x.1, x.2)

/-- Reading what quoting wrote gives the text back and leaves the rest. -/
theorem closeQuoted_double (stop : Char) (s rest : List Char) (h : rest.head? ≠ some stop) :
    closeQuoted stop (double stop s ++ stop :: rest) = some (s, rest) := by
  induction s with
  | nil =>
    cases rest with
    | nil => simp [double, closeQuoted]
    | cons d r =>
      have hd : d ≠ stop := by simpa using h
      simp [double, closeQuoted, hd]
  | cons c r ih =>
    by_cases hc : c = stop
    · subst hc
      simp only [double] at ih
      simp [double, closeQuoted, ih]
    · have hd : double stop (c :: r) = c :: double stop r := by simp [double, hc]
      rw [hd, List.cons_append, closeQuoted.eq_def]
      simp [hc, ih]

/-- Reading leaves less than it was given. -/
theorem closeQuoted_length {stop : Char} {s t rest : List Char}
    (h : closeQuoted stop s = some (t, rest)) : rest.length < s.length := by
  fun_induction closeQuoted stop s generalizing t rest with
  | case1 => simp at h
  | case2 => simp_all
  | case3 r' ih =>
    obtain ⟨x, hx, he⟩ := Option.map_eq_some_iff.1 h
    have := ih hx
    simp only [Prod.mk.injEq] at he
    obtain ⟨-, rfl⟩ := he
    simp only [List.length_cons]
    omega
  | case4 d r' hd => simp_all
  | case5 c r hc ih =>
    obtain ⟨x, hx, he⟩ := Option.map_eq_some_iff.1 h
    have := ih hx
    simp only [Prod.mk.injEq] at he
    obtain ⟨-, rfl⟩ := he
    simp only [List.length_cons]
    omega

end DealSql.Text
