import DealSql.Proofs.Characters
import DealSql.Sql.Query
import Mathlib.Data.List.TakeWhile

/-!
# Comments on one line

The comment of a query is written on a line of its own.  Its text may have several
lines: they lose the blanks at their ends and are joined by spaces.

A line ends at a line feed.  A carriage return is a blank like any other, so the
returns at the ends of a line go, those of a line feed written with one among
them.  A return between characters of one line stays, and whoever takes it for
the end of a line reads what follows as code.

* `induction_lines` — a text is a last line, or a line in front of a text.
* `mem_trim_iff` — which blanks are left between the ends of a text.
* `return_mem_flatten_iff` — which returns are left when the lines are joined.
* `write_withComment` — a comment keeps its line and all but blanks of its text.
* `staysOnLine_iff` — which comments stay on one line.
-/

namespace DealSql

open DealSql.Text

namespace Text

variable {c : Char} {a b l r s u v w : List Char}

/-! ## Trimmed texts -/

/-- Leading blanks are dropped from the front part, if that has anything else. -/
theorem trimLeft_append (h : ∃ c ∈ a, isBlank c = false) (b : List Char) :
    trimLeft (a ++ b) = trimLeft a ++ b := by
  have hne : a.dropWhile isBlank ≠ [] := by
    intro hnil
    obtain ⟨c, hc, hblank⟩ := h
    rw [trimLeft_eq_nil_iff.1 hnil c hc] at hblank
    cases hblank
  rw [trimLeft, trimLeft, List.dropWhile_append, if_neg (by simpa using hne)]

/-- Trailing blanks are dropped from the last part, if that has anything else. -/
theorem trimRight_append (h : ∃ c ∈ b, isBlank c = false) (a : List Char) :
    trimRight (a ++ b) = a ++ trimRight b := by
  have hreverse : ∃ c ∈ b.reverse, isBlank c = false := by simpa using h
  have hleft := trimLeft_append hreverse a.reverse
  rw [trimLeft, trimLeft] at hleft
  rw [trimRight, trimRight, List.reverse_append, hleft, List.reverse_append, List.reverse_reverse]

/-- What is dropped at the front is blank. -/
theorem exists_trimLeft (s : List Char) :
    ∃ x, s = x ++ trimLeft s ∧ ∀ c ∈ x, isBlank c = true :=
  ⟨s.takeWhile isBlank, (List.takeWhile_append_dropWhile).symm, fun _ => List.mem_takeWhile_imp⟩

/-- What is dropped at the end is blank. -/
theorem exists_trimRight (s : List Char) :
    ∃ y, s = trimRight s ++ y ∧ ∀ c ∈ y, isBlank c = true := by
  obtain ⟨x, hx, hblank⟩ := exists_trimLeft s.reverse
  refine ⟨x.reverse, ?_, by simpa using hblank⟩
  rw [trimLeft, ← List.reverse_inj, List.reverse_reverse, List.reverse_append] at hx
  exact hx

/-- A text that is not all blank keeps something at the front and at the end. -/
theorem exists_trim (s : List Char) : ∃ x y, s = x ++ trim s ++ y ∧
    (∀ c ∈ x, isBlank c = true) ∧ (∀ c ∈ y, isBlank c = true) ∧
    (∀ c ∈ (trim s).head?, isBlank c = false) ∧ ∀ c ∈ (trim s).getLast?, isBlank c = false := by
  obtain ⟨x, hx, hxblank⟩ := exists_trimLeft s
  obtain ⟨y, hy, hyblank⟩ := exists_trimRight (trimLeft s)
  refine ⟨x, y, ?_, hxblank, hyblank, ?_, ?_⟩
  · rw [List.append_assoc, trim, ← hy]
    exact hx
  · intro c hc
    have hfirst : c ∈ (trimLeft s).head? := by
      have hkept : (trimRight (trimLeft s)).head? = some c := hc
      rw [hy, List.head?_append, hkept]
      rfl
    have hhead := List.head?_dropWhile_not isBlank s
    rw [trimLeft] at hfirst
    rw [Option.mem_def.1 hfirst] at hhead
    simpa using hhead
  · intro c hc
    have hlast := List.head?_dropWhile_not isBlank (trimLeft s).reverse
    rw [trim, trimRight, List.getLast?_reverse] at hc
    rw [Option.mem_def.1 hc] at hlast
    simpa using hlast

/-- Trimming takes nothing but blanks. -/
theorem filter_trim (s : List Char) :
    (trim s).filter (!isBlank ·) = s.filter (!isBlank ·) := by
  obtain ⟨x, y, hs, hx, hy, -, -⟩ := exists_trim s
  have hnone : ∀ t : List Char, (∀ c ∈ t, isBlank c = true) → t.filter (!isBlank ·) = [] := by
    intro t ht
    rw [List.filter_eq_nil_iff]
    intro c hc
    simp [ht c hc]
  have hparts := congrArg (List.filter (!isBlank ·)) hs
  rw [List.filter_append, List.filter_append, hnone x hx, hnone y hy, List.nil_append,
    List.append_nil] at hparts
  exact hparts.symm

/-- **A blank is left in a trimmed text** where it stands between other
characters. -/
theorem mem_trim_iff (hc : isBlank c = true) : c ∈ trim s ↔
    ∃ u v, s = u ++ c :: v ∧ (∃ d ∈ u, isBlank d = false) ∧ ∃ d ∈ v, isBlank d = false := by
  constructor
  · intro hmem
    obtain ⟨x, y, hs, -, -, hhead, hlast⟩ := exists_trim s
    obtain ⟨p, q, hpq⟩ := List.append_of_mem hmem
    rw [hpq] at hs hhead hlast
    refine ⟨x ++ p, q ++ y, by rw [hs]; simp, ?_, ?_⟩
    · cases p with
      | nil =>
        rw [hhead c rfl] at hc
        cases hc
      | cons d p => exact ⟨d, by simp, hhead d rfl⟩
    · rcases List.eq_nil_or_concat q with rfl | ⟨q, d, rfl⟩
      · rw [hlast c (by simp)] at hc
        cases hc
      · refine ⟨d, by simp, hlast d ?_⟩
        rw [List.concat_eq_append, ← List.cons_append, ← List.append_assoc, List.getLast?_concat]
        rfl
  · rintro ⟨u, v, rfl, hu, hv⟩
    rw [trim, trimLeft_append hu, ← List.singleton_append, ← List.append_assoc,
      trimRight_append hv]
    simp

/-! ## Lines -/

/-- A line without the carriage return at its end. -/
def withoutReturn (l : List Char) : List Char :=
  if l.getLast? = some '\r' then l.dropLast else l

/-- The return at the end of a line is a blank. -/
theorem trim_withoutReturn (l : List Char) : trim (withoutReturn l) = trim l := by
  unfold withoutReturn
  split
  · next hlast =>
    obtain ⟨k, rfl⟩ := List.getLast?_eq_some_iff.1 hlast
    have hblank : isBlank '\r' = true := by decide
    rw [List.dropLast_concat]
    by_cases hk : ∀ c ∈ k, isBlank c = true
    · have hall : ∀ c ∈ k ++ ['\r'], isBlank c = true := by
        intro c hc
        rcases List.mem_append.1 hc with hc | hc
        · exact hk c hc
        · rwa [List.mem_singleton.1 hc]
      rw [trim_eq_nil_iff.2 hk, trim_eq_nil_iff.2 hall]
    · have hsome : ∃ c ∈ k, isBlank c = false := by simpa using hk
      rw [trim, trim, trimLeft_append hsome, trimRight, trimRight, List.reverse_append]
      simp [hblank]
  · rfl

/-- A line feed ends the line that has been read. -/
theorem linesFrom_line (hl : '\n' ∉ l) (acc r : List Char) :
    linesFrom acc (l ++ '\n' :: r) = withoutReturn (acc.reverse ++ l) :: linesFrom [] r := by
  induction l generalizing acc with
  | nil =>
    rw [List.nil_append, List.append_nil, linesFrom, if_pos rfl, withoutReturn,
      List.getLast?_reverse, List.dropLast_reverse]
  | cons c l ih =>
    obtain ⟨hc, hrest⟩ := List.ne_and_not_mem_of_not_mem_cons hl
    rw [List.cons_append, linesFrom, if_neg hc.symm, ih hrest]
    simp

/-- What follows the last line feed is a line of its own, if there is anything. -/
theorem linesFrom_last (hl : '\n' ∉ l) (acc : List Char) :
    linesFrom acc l = if acc.reverse ++ l = [] then [] else [acc.reverse ++ l] := by
  induction l generalizing acc with
  | nil => simp [linesFrom]
  | cons c l ih =>
    obtain ⟨hc, hrest⟩ := List.ne_and_not_mem_of_not_mem_cons hl
    rw [linesFrom, if_neg hc.symm, ih hrest]
    simp

/-- **A text is a last line, or a line in front of a text.** -/
theorem induction_lines {P : List Char → Prop} (last : ∀ l, '\n' ∉ l → P l)
    (line : ∀ l r, '\n' ∉ l → P r → P (l ++ '\n' :: r)) (s : List Char) : P s := by
  induction hn : s.length using Nat.strongRecOn generalizing s with
  | _ n ih =>
    by_cases hs : '\n' ∈ s
    · obtain ⟨l, r, rfl, hl⟩ := List.eq_append_cons_of_mem hs
      refine line l r hl (ih r.length ?_ r rfl)
      rw [← hn, List.length_append, List.length_cons]
      omega
    · exact last s hs

/-! ## Joined lines -/

/-- The trimmed lines of a text. -/
def trimmedLines (s : List Char) : List (List Char) := (lines s).map trim

theorem trimmedLines_line (hl : '\n' ∉ l) (r : List Char) :
    trimmedLines (l ++ '\n' :: r) = trim l :: trimmedLines r := by
  rw [trimmedLines, lines, linesFrom_line hl, List.map_cons, List.reverse_nil, List.nil_append,
    trim_withoutReturn]
  rfl

theorem trimmedLines_last (hl : '\n' ∉ l) (hne : l ≠ []) : trimmedLines l = [trim l] := by
  rw [trimmedLines, lines, linesFrom_last hl, List.reverse_nil, List.nil_append, if_neg hne]
  rfl

/-- What is not a space comes from the lines that are joined. -/
theorem filter_joined {p : Char → Bool} (hp : p ' ' = false) (ls : List (List Char)) :
    ([' '].intercalate ls).filter p = ls.flatMap (List.filter p) := by
  induction ls with
  | nil => rfl
  | cons l ls ih =>
    cases ls with
    | nil => simp [List.intercalate]
    | cons k ks =>
      have hspace : [' '].filter p = [] := by simp [hp]
      rw [List.intercalate_cons_cons, List.filter_append, List.filter_append, ih, hspace,
        List.append_nil]
      rfl

/-- A character other than a space stands in one of the lines that are joined. -/
theorem mem_flatten_iff (hc : c ≠ ' ') : c ∈ flatten s ↔ ∃ l ∈ trimmedLines s, c ∈ l := by
  have hspace : (' ' == c) = false := by simpa using hc.symm
  have hfilter : c ∈ (flatten s).filter (· == c) ↔ c ∈ flatten s := by simp
  rw [← hfilter, flatten, filter_joined hspace, List.mem_flatMap]
  simp [trimmedLines]

/-- **Nothing but blanks is lost** when lines are joined. -/
theorem filter_flatten (s : List Char) :
    (flatten s).filter (!isBlank ·) = s.filter (!isBlank ·) := by
  have hspace : isBlank ' ' = true := by decide
  rw [flatten, filter_joined (by simp [hspace])]
  change (trimmedLines s).flatMap _ = _
  induction s using induction_lines with
  | last l hl =>
    rcases eq_or_ne l [] with rfl | hne
    · rfl
    · rw [trimmedLines_last hl hne, List.flatMap_singleton, filter_trim]
  | line l r hl ih =>
    have hfeed : isBlank '\n' = true := by decide
    rw [trimmedLines_line hl, List.flatMap_cons, ih, filter_trim, List.filter_append,
      List.filter_cons_of_neg (by simp [hfeed])]

/-- No line feed is left when lines are joined. -/
theorem lineFeed_not_mem_flatten (s : List Char) : '\n' ∉ flatten s := by
  rw [mem_flatten_iff (by decide)]
  rintro ⟨l, hl, hmem⟩
  induction s using induction_lines with
  | last k hk =>
    rcases eq_or_ne k [] with rfl | hne
    · cases hl
    · rw [trimmedLines_last hk hne, List.mem_singleton] at hl
      subst hl
      obtain ⟨u, v, rfl, -, -⟩ := (mem_trim_iff (by decide)).1 hmem
      simp at hk
  | line k r hk ih =>
    rw [trimmedLines_line hk] at hl
    rcases List.mem_cons.1 hl with rfl | hl
    · obtain ⟨u, v, rfl, -, -⟩ := (mem_trim_iff (by decide)).1 hmem
      simp at hk
    · exact ih hl

/-! ## Returns within lines -/

/-- A carriage return stands in a text between other characters of one line. -/
def HasInnerReturn (s : List Char) : Prop :=
  ∃ u v, u ++ '\r' :: v <:+: s ∧ '\n' ∉ u ++ '\r' :: v ∧
    (∃ c ∈ u, isBlank c = false) ∧ ∃ c ∈ v, isBlank c = false

/-- What has no line feed stands in one of the lines of a text. -/
theorem infix_line_iff (hw : '\n' ∉ w) :
    w <:+: l ++ '\n' :: r ↔ w <:+: l ∨ w <:+: r := by
  constructor
  · rintro ⟨x, y, h⟩
    rcases List.append_eq_append_iff.1 h with ⟨z, hl, -⟩ | ⟨z, hxw, hr⟩
    · exact Or.inl ⟨x, z, hl.symm⟩
    cases z with
    | nil => exact Or.inl ⟨x, [], by rw [hxw]; simp⟩
    | cons d z =>
      obtain ⟨rfl, rfl⟩ := List.cons.inj hr
      rcases List.append_eq_append_iff.1 hxw with ⟨t, -, hwt⟩ | ⟨t, rfl, ht⟩
      · exact absurd (hwt ▸ by simp) hw
      cases t with
      | nil => exact absurd (by rw [← List.nil_append w, ← ht]; simp) hw
      | cons d t =>
        obtain ⟨-, rfl⟩ := List.cons.inj ht
        exact Or.inr ⟨t, y, rfl⟩
  · rintro (⟨x, y, rfl⟩ | ⟨x, y, rfl⟩)
    · exact ⟨x, y ++ '\n' :: r, by simp⟩
    · exact ⟨l ++ '\n' :: x, y, by simp⟩

/-- A text has returns within lines where its lines have. -/
theorem hasInnerReturn_line (l r : List Char) :
    HasInnerReturn (l ++ '\n' :: r) ↔ HasInnerReturn l ∨ HasInnerReturn r := by
  unfold HasInnerReturn
  rw [← exists_or]
  refine exists_congr fun u => ?_
  rw [← exists_or]
  refine exists_congr fun v => ?_
  rw [← or_and_right]
  exact and_congr_left fun h => infix_line_iff h.1

/-- Within a line the returns are those that trimming leaves. -/
theorem hasInnerReturn_of_one_line (hl : '\n' ∉ l) : HasInnerReturn l ↔ '\r' ∈ trim l := by
  rw [mem_trim_iff (by decide)]
  constructor
  · rintro ⟨u, v, ⟨x, y, rfl⟩, -, ⟨c, hc, hcblank⟩, d, hd, hdblank⟩
    exact ⟨x ++ u, v ++ y, by simp, ⟨c, by simp [hc], hcblank⟩, d, by simp [hd], hdblank⟩
  · rintro ⟨u, v, rfl, hu, hv⟩
    exact ⟨u, v, List.infix_rfl, hl, hu, hv⟩

/-- **The returns that are left** when lines are joined are those within lines. -/
theorem return_mem_flatten_iff : '\r' ∈ flatten s ↔ HasInnerReturn s := by
  rw [mem_flatten_iff (by decide)]
  induction s using induction_lines with
  | last l hl =>
    rcases eq_or_ne l [] with rfl | hne
    · rw [hasInnerReturn_of_one_line hl]
      simp [trimmedLines, lines, linesFrom, trim, trimLeft, trimRight]
    · rw [trimmedLines_last hl hne, hasInnerReturn_of_one_line hl]
      simp
  | line l r hl ih =>
    rw [trimmedLines_line hl, hasInnerReturn_line, hasInnerReturn_of_one_line hl, ← ih]
    simp

end Text

namespace Sql.Query

/-! ## The comment of a query -/

/-- The query under a comment, or without any. -/
def withComment (comment : Option String) (q : Query) : Query := { q with comment }

/-- A comment stays on one line in front of the query. -/
def StaysOnLine (d : Dialect) (q : Query) (comment : String) : Prop :=
  ∃ line, (q.withComment (some comment)).write d =
      "-- ".toList ++ line ++ '\n' :: (q.withComment none).write d ∧ '\n' ∉ line ∧ '\r' ∉ line

/-- A query under a comment is the joined lines of the comment, then the query without it. -/
theorem write_withComment (d : Dialect) (q : Query) (comment : String) :
    (q.withComment (some comment)).write d =
      "-- ".toList ++ flatten comment.toList ++ '\n' :: (q.withComment none).write d := by
  have hparts := fragments_eq_comment_append (q.withComment (some comment))
  rw [write, hparts, Sql.write_append]
  simp [withComment, commentFragments, write, Sql.write, Fragment.write]

/-- **A comment keeps its line**, ended by a line feed and followed by the query as it is without
the comment, and on the line all but blanks of the text.  It stays on one line unless a carriage
return stands between other characters of a line of its text. -/
theorem staysOnLine_iff (d : Dialect) (q : Query) (comment : String) :
    (∃ line, (q.withComment (some comment)).write d =
        "-- ".toList ++ line ++ '\n' :: (q.withComment none).write d ∧ '\n' ∉ line ∧
        line.filter (!isBlank ·) = comment.toList.filter (!isBlank ·)) ∧
    (q.StaysOnLine d comment ↔ ¬ HasInnerReturn comment.toList) := by
  have hwrite := write_withComment d q comment
  refine ⟨⟨_, hwrite, lineFeed_not_mem_flatten _, filter_flatten _⟩, ?_⟩
  rw [← return_mem_flatten_iff]
  constructor
  · rintro ⟨line, hline, -, hreturn⟩
    rw [hwrite, List.append_cancel_right_eq, List.append_cancel_left_eq] at hline
    exact hline ▸ hreturn
  · intro hreturn
    exact ⟨_, hwrite, lineFeed_not_mem_flatten _, hreturn⟩

/-- The numbers of all deals. -/
def numberQuery : Query :=
  { empty with items := [⟨.column (some "deal") "dl_nbr", none⟩], table := some "deal" }

/-- A carriage return parts a comment, and the second part begins a line. -/
theorem innerReturn_parts :
    (numberQuery.withComment (some "first\rsecond")).write .postgres =
      "-- first\rsecond\nSELECT\n  \"deal\".\"dl_nbr\"\nFROM \"deal\"".toList ∧
    ¬ numberQuery.StaysOnLine .postgres "first\rsecond" := by
  refine ⟨by decide, ?_⟩
  rintro ⟨line, hline, -, hreturn⟩
  rw [write_withComment, List.append_cancel_right_eq, List.append_cancel_left_eq] at hline
  rw [← hline] at hreturn
  exact hreturn (by decide)

end Sql.Query

end DealSql
