import DealSql.Proofs.Numerals
import DealSql.Proofs.Templates

/-!
# The grammar of placeholders

A scan finds nothing wrong with a statement exactly when the masked
statement is made of texts without braces and of names of the vocabulary
between braces, and then the names are what it finds, at the bytes where
they stand.

* `groups_segments` — the groups of such a text are its names.
* `parse?_earlierCycle` — how the names of the earlier cycles are spelled.
* `scan_isClean_iff` — the grammar that the scan accepts.
-/

namespace DealSql

/-! ## First appearances -/

/-- What has been seen is left out, and of the rest the first appearances are kept. -/
theorem distinctFrom_eq_eraseDups {β : Type} [DecidableEq β] (seen xs : List β) :
    distinctFrom id seen xs = (xs.filter (· ∉ seen)).eraseDups := by
  induction xs generalizing seen with
  | nil => rfl
  | cons b r ih =>
    by_cases hb : b ∈ seen
    · have hfilter : (b :: r).filter (· ∉ seen) = r.filter (· ∉ seen) :=
        List.filter_cons_of_neg (by simpa using hb)
      rw [hfilter, ← ih]
      exact if_pos hb
    · have hfilter : (b :: r).filter (· ∉ seen) = b :: r.filter (· ∉ seen) :=
        List.filter_cons_of_pos (by simpa using hb)
      have hrest : (r.filter (· ∉ seen)).filter (fun c => !c == b) =
          r.filter (· ∉ b :: seen) := by
        rw [List.filter_filter]
        refine List.filter_congr fun c _ => ?_
        by_cases hc : c = b <;> simp [hc]
      rw [hfilter, List.eraseDups_cons, hrest, ← ih]
      exact if_neg hb

/-- The distinct elements in the order of first appearance. -/
theorem distinct_eq_eraseDups {β : Type} [DecidableEq β] (xs : List β) :
    distinct xs = xs.eraseDups := by
  have hfilter : xs.filter (· ∉ ([] : List β)) = xs := by simp
  rw [distinct, distinctBy, distinctFrom_eq_eraseDups, hfilter]

namespace Placeholder

open DealSql.Text DealSql.Statement

/-! ## Names -/

/-- The names that may stand between braces. -/
def vocabulary : List (List Char) := all.map name

theorem mem_vocabulary_iff {name : List Char} :
    name ∈ vocabulary ↔ ∃ p : Placeholder, p.name = name := by
  simp [vocabulary, mem_all]

/-- **How the names of the earlier cycles are spelled**: with a numeral from
two to twelve that has no sign and no leading zero. -/
theorem parse?_earlierCycle {name : List Char} {k : Fin 11} :
    parse? name = some (.earlierCycle k) ↔ ∃ digits, name = "cycle_minus_".toList ++ digits ∧
      digits.head? ≠ some '0' ∧ naturalValue? digits = some (k.val + 2) := by
  have hspelled : (Placeholder.earlierCycle k).name =
      "cycle_minus_".toList ++ natural (k.val + 2) := rfl
  have hheads : ∀ j : Fin 11, (natural (j.val + 2)).head? ≠ some '0' := by decide
  rw [parse?_eq_some, hspelled]
  constructor
  · intro hname
    exact ⟨natural (k.val + 2), hname.symm, hheads k, naturalValue?_natural _⟩
  · rintro ⟨digits, hname, hhead, hvalue⟩
    rw [hname, natural_of_naturalValue? hvalue hhead]

/-! ## Segments -/

/-- A part of a text: something without braces, or a name between a pair of them. -/
inductive Segment where
  | text (s : List Char)
  | group (name : List Char)
  deriving Repr, DecidableEq

namespace Segment

/-- A part as it stands in a text. -/
def spell : Segment → List Char
  | .text s => s
  | .group name => '\x7b' :: name ++ ['\x7d']

/-- What the grammar allows: texts without braces, and names of the vocabulary. -/
def Grammatical : Segment → Prop
  | .text s => BraceFree s
  | .group name => name ∈ vocabulary

instance : (s : Segment) → Decidable s.Grammatical
  | .text s => inferInstanceAs (Decidable (BraceFree s))
  | .group name => inferInstanceAs (Decidable (name ∈ vocabulary))

/-- The names between braces, and the bytes at which each group begins and
ends, in a text that begins at a position. -/
def groupsFrom (n : Nat) : List Segment → List (List Char × Nat × Nat)
  | [] => []
  | .text s :: r => groupsFrom (n + byteLength s) r
  | .group name :: r =>
    let stop := n + byteLength name + 2
    (name, n, stop) :: groupsFrom stop r

end Segment

/-- What an occurrence says of the text: its name, and where it begins and ends. -/
def Occurrence.place (o : Occurrence) : List Char × Nat × Nat :=
  (o.placeholder.name, o.start, o.stop)

variable {segs : List Segment} {sql : List Char}

/-- **The groups of a text of the grammar are its names.** -/
theorem groups_segments (h : ∀ s ∈ segs, s.Grammatical) (n : Nat) :
    groupsFrom n .outside (segs.flatMap Segment.spell) =
      (Segment.groupsFrom n segs).map fun g => .simple g.2.1 g.1 := by
  induction segs generalizing n with
  | nil => rfl
  | cons s segs ih =>
    have hs := h s List.mem_cons_self
    have hrest := ih fun t ht => h t (List.mem_cons_of_mem _ ht)
    cases s with
    | text s => rw [List.flatMap_cons, Segment.spell, groupsFrom_outside hs, hrest]; rfl
    | group name =>
      obtain ⟨p, rfl⟩ := mem_vocabulary_iff.1 hs
      rw [List.flatMap_cons, Segment.spell, List.append_assoc, List.singleton_append,
        groupsFrom_simple (name_braceFree p), hrest]
      rfl

/-- A group with a name of the vocabulary is a placeholder. -/
theorem occurrence_of_mem_vocabulary {name : List Char} (h : name ∈ vocabulary) (start : Nat) :
    ∃ o : Occurrence, (BraceGroup.simple start name).occurrence? = some o ∧
      (BraceGroup.simple start name).faults = [] ∧
      o.place = (name, start, start + byteLength name + 2) := by
  obtain ⟨p, rfl⟩ := mem_vocabulary_iff.1 h
  have hclassify : classify start p.name = .ok p := classify_eq_ok.2 rfl
  refine ⟨⟨p, start, start + byteLength p.name + 2⟩, ?_, ?_, rfl⟩
  · simp [BraceGroup.occurrence?, hclassify]
  · simp [BraceGroup.faults, hclassify]

/-- What a scan makes of the groups of a text of the grammar. -/
theorem occurrences_segments (h : ∀ s ∈ segs, s.Grammatical) (n : Nat) :
    let groups := (Segment.groupsFrom n segs).map fun g => BraceGroup.simple g.2.1 g.1
    (groups.filterMap BraceGroup.occurrence?).map Occurrence.place = Segment.groupsFrom n segs ∧
      groups.flatMap BraceGroup.faults = [] := by
  induction segs generalizing n with
  | nil => exact ⟨rfl, rfl⟩
  | cons s segs ih =>
    have hs := h s List.mem_cons_self
    have hrest := ih fun t ht => h t (List.mem_cons_of_mem _ ht)
    cases s with
    | text s => exact hrest _
    | group name =>
      obtain ⟨o, ho, hfaults, hplace⟩ := occurrence_of_mem_vocabulary hs n
      obtain ⟨hfound, hnone⟩ := hrest (n + byteLength name + 2)
      simp only [Segment.groupsFrom, List.map_cons]
      constructor
      · rw [List.filterMap_cons_some ho, List.map_cons, hplace, hfound]
      · rw [List.flatMap_cons, hfaults, hnone, List.nil_append]

/-! ## Templates -/

/-- The parts of a template. -/
def Template.segments : Template → List Segment
  | .last s => [.text s]
  | .piece s p rest => .text s :: .group p.name :: rest.segments

/-- A template is a text of the grammar. -/
theorem Template.segments_spell {t : Template} (ht : t.Plain) :
    (∀ s ∈ t.segments, s.Grammatical) ∧ t.segments.flatMap Segment.spell = t.spell display := by
  induction t with
  | last s =>
    refine ⟨?_, by simp [segments, Segment.spell, spell]⟩
    simp only [segments, List.forall_mem_singleton]
    exact ht
  | piece s p rest ih =>
    obtain ⟨hrest, hspell⟩ := ih ht.2
    have hp : (Segment.group p.name).Grammatical := mem_vocabulary_iff.2 ⟨p, rfl⟩
    refine ⟨?_, ?_⟩
    · simp only [segments, List.forall_mem_cons]
      exact ⟨ht.1, hp, hrest⟩
    · simp [segments, Segment.spell, spell, display, hspell]

/-! ## The scan -/

/-- The parts of a masked statement that the grammar allows. -/
structure Parses (segs : List Segment) (sql : List Char) : Prop where
  grammatical : ∀ s ∈ segs, s.Grammatical
  spells : maskComments sql = segs.flatMap Segment.spell

/-- The groups of a statement of the grammar. -/
theorem Parses.braceGroups_eq (h : Parses segs sql) : braceGroups (maskComments sql) =
    (Segment.groupsFrom 0 segs).map fun g => .simple g.2.1 g.1 := by
  rw [braceGroups, h.spells, groups_segments h.grammatical]

/-- A statement without faults is one of the grammar. -/
theorem exists_parses (h : (scan sql).isClean = true) : ∃ segs, Parses segs sql := by
  have hnil : (braceGroups (maskComments sql)).flatMap BraceGroup.faults = [] := by
    simpa [Scan.isClean, scan] using h
  obtain ⟨t, ht, hmask⟩ := Template.exists_template (maskComments sql) 0
    (List.flatMap_eq_nil_iff.1 hnil)
  obtain ⟨hgrammatical, hspell⟩ := Template.segments_spell ht
  exact ⟨t.segments, hgrammatical, hmask.trans hspell.symm⟩

/-- **A scan accepts exactly its grammar**: nothing is wrong with a statement
when its mask is made of texts without braces and names of the vocabulary
between braces.  However it is cut so, the placeholders found are the names,
in order, at their bytes; so many groups are counted; and they are listed
once, in the order of first appearance.  A name is recognised when it is
that of a placeholder and in the vocabulary; the numeral of an earlier cycle
has no sign and no leading zero. -/
theorem scan_isClean_iff (sql : List Char) :
    ((scan sql).isClean = true ↔ ∃ segs, Parses segs sql) ∧
    (∀ segs, Parses segs sql →
      (scan sql).occurrences.map Occurrence.place = Segment.groupsFrom 0 segs ∧
      (scan sql).groups = (Segment.groupsFrom 0 segs).length ∧
      (scan sql).placeholders = ((scan sql).occurrences.map Occurrence.placeholder).eraseDups) ∧
    (∀ name p, parse? name = some p ↔ p.name = name ∧ name ∈ vocabulary) ∧
    (∀ name k, parse? name = some (.earlierCycle k) ↔
      ∃ digits, name = "cycle_minus_".toList ++ digits ∧ digits.head? ≠ some '0' ∧
        naturalValue? digits = some (k.val + 2)) := by
  refine ⟨⟨exists_parses, ?_⟩, ?_, ?_, fun _ _ => parse?_earlierCycle⟩
  · rintro ⟨segs, h⟩
    have hfaults := (occurrences_segments h.grammatical 0).2
    simp only [← h.braceGroups_eq] at hfaults
    simp [Scan.isClean, scan, hfaults]
  · intro segs h
    have hfound := (occurrences_segments h.grammatical 0).1
    refine ⟨?_, ?_, distinct_eq_eraseDups _⟩
    · rwa [← h.braceGroups_eq] at hfound
    · simp [scan, h.braceGroups_eq, List.countP_map, Function.comp_def, BraceGroup.opens]
  · intro name p
    rw [parse?_eq_some]
    exact ⟨fun h => ⟨h, mem_vocabulary_iff.2 ⟨p, h⟩⟩, fun h => h.1⟩

/-- Two placeholders, and a brace in the comment between them. -/
def braceInComment : List Char :=
  "\x7bcurrent_cycle\x7d--\x7b\n\x7bdeal_filter\x7d".toList

/-- The placeholders are found at their bytes, and the comment does no harm. -/
theorem braceInComment_parsed :
    (scan braceInComment).isClean = true ∧
      (scan braceInComment).occurrences.map Occurrence.place =
        [("current_cycle".toList, 0, 15), ("deal_filter".toList, 19, 32)] := by
  have hparses : Parses [.group "current_cycle".toList, .text "   \n".toList,
      .group "deal_filter".toList] braceInComment := ⟨by decide, by decide⟩
  obtain ⟨hiff, hfound, -⟩ := scan_isClean_iff braceInComment
  exact ⟨hiff.2 ⟨_, hparses⟩, (hfound _ hparses).1⟩

end Placeholder

end DealSql
