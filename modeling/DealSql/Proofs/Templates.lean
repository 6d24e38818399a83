import DealSql.Placeholder.Scan
import DealSql.Proofs.Characters

/-!
# Texts cut at their placeholders

A masked statement in whose placeholders nothing is wrong is a template:
texts without braces, and a placeholder between any two of them.  The
placeholders that the scan finds are those of the template, at the
positions where it spells them, and filling it spells their values instead.

* `groups_spell` — the groups of a template are its placeholders.
* `exists_template` — a text whose groups are without fault is one.
* `fillFrom_spell` — filling a text spells the values.
-/

namespace DealSql.Placeholder

open DealSql.Text

/-- A text cut at its placeholders. -/
inductive Template where
  | last (s : List Char)
  | piece (s : List Char) (p : Placeholder) (rest : Template)
  deriving Repr, DecidableEq

/-- A text without braces. -/
def BraceFree (s : List Char) : Prop := ∀ c ∈ s, c ≠ '\x7b' ∧ c ≠ '\x7d'

instance (s : List Char) : Decidable (BraceFree s) := by unfold BraceFree; infer_instance

theorem braceFree_cons {c : Char} {r : List Char} :
    BraceFree (c :: r) ↔ (c ≠ '\x7b' ∧ c ≠ '\x7d') ∧ BraceFree r := by
  simp [BraceFree]

theorem braceFree_append {a b : List Char} :
    BraceFree (a ++ b) ↔ BraceFree a ∧ BraceFree b := List.forall_mem_append

namespace Template

/-- The text with something in the place of every placeholder. -/
def spell (f : Placeholder → List Char) : Template → List Char
  | .last s => s
  | .piece s p rest => s ++ f p ++ rest.spell f

/-- The placeholders of a template that begins at a position. -/
def occurrencesFrom (n : Nat) : Template → List Occurrence
  | .last _ => []
  | .piece s p rest =>
    let start := n + byteLength s
    let stop := start + byteLength p.display
    ⟨p, start, stop⟩ :: rest.occurrencesFrom stop

/-- The texts between the placeholders are without braces. -/
def Plain : Template → Prop
  | .last s => BraceFree s
  | .piece s _ rest => BraceFree s ∧ rest.Plain

end Template

/-! ## Names -/

/-- The names of the placeholders are words of ASCII. -/
theorem name_letters (p : Placeholder) : (trim p.name).isEmpty = false ∧
    p.name.any isBlank = false ∧ p.name.all isNameChar = true := by
  have hall : ∀ q ∈ all, (trim q.name).isEmpty = false ∧ q.name.any isBlank = false ∧
      q.name.all isNameChar = true := by decide
  exact hall p (mem_all p)

/-- Names hold no braces. -/
theorem name_braceFree (p : Placeholder) : BraceFree p.name := by
  intro c hc
  have hname := List.all_eq_true.1 (name_letters p).2.2 c hc
  exact ⟨ne_of_test hname (by decide), ne_of_test hname (by decide)⟩

/-- A content is a placeholder exactly when it is the name of one. -/
theorem classify_eq_ok {start : Nat} {content : List Char} {p : Placeholder} :
    classify start content = .ok p ↔ p.name = content := by
  unfold classify
  constructor
  · intro h
    split at h
    · cases h
    · split at h
      · cases h
      · split at h
        · cases h
        · split at h
          · next q hq =>
            cases h
            exact parse?_eq_some.1 hq
          · cases h
  · rintro rfl
    obtain ⟨hempty, hblank, hletters⟩ := name_letters p
    simp [hempty, hblank, hletters, parse?_eq_some.2 rfl]

/-! ## Groups -/

/-- Nothing happens outside the braces. -/
theorem groupsFrom_outside {s : List Char} (hs : BraceFree s) (n : Nat) (r : List Char) :
    groupsFrom n .outside (s ++ r) = groupsFrom (n + byteLength s) .outside r := by
  induction s generalizing n with
  | nil => rfl
  | cons c s ih =>
    obtain ⟨hc, hs⟩ := braceFree_cons.1 hs
    rw [List.cons_append, groupsFrom, if_neg hc.1, if_neg hc.2, ih hs]
    simp only [byteLength, Nat.add_assoc]

/-- Between braces the content is gathered. -/
theorem groupsFrom_inside {s : List Char} (hs : BraceFree s) (n start : Nat)
    (content r : List Char) :
    groupsFrom n (.inside start content) (s ++ r) =
      groupsFrom (n + byteLength s) (.inside start (s.reverse ++ content)) r := by
  induction s generalizing n content with
  | nil => rfl
  | cons c s ih =>
    obtain ⟨hc, hs⟩ := braceFree_cons.1 hs
    rw [List.cons_append, groupsFrom, if_neg hc.1, if_neg hc.2, ih hs]
    simp only [byteLength, Nat.add_assoc, List.reverse_cons, List.append_assoc,
      List.singleton_append]

/-- A pair of braces without others between them is a group. -/
theorem groupsFrom_simple {s : List Char} (hs : BraceFree s) (n : Nat) (r : List Char) :
    groupsFrom n .outside ('\x7b' :: s ++ '\x7d' :: r) =
      .simple n s :: groupsFrom (n + byteLength s + 2) .outside r := by
  have hclose : '\x7d' ≠ '\x7b' := by decide
  rw [List.cons_append, groupsFrom, if_pos rfl, groupsFrom_inside hs, groupsFrom, if_neg hclose,
    if_pos rfl]
  simp only [List.append_nil, List.reverse_reverse]
  congr 2
  omega

/-- Braces within braces are a fault. -/
theorem nested_mem_groupsFrom (n start opened : Nat) (r : List Char) :
    ∃ closed, .nested start closed ∈ groupsFrom n (.nested start opened) r := by
  induction r generalizing n opened with
  | nil => exact ⟨false, List.mem_cons_self⟩
  | cons c r ih =>
    rw [groupsFrom]
    split
    · exact ih _ _
    · split
      · split
        · exact ⟨true, List.mem_cons_self⟩
        · exact ih _ _
      · exact ih _ _

/-- A text is without braces or has a first one. -/
theorem braceFree_or_split (s : List Char) : BraceFree s ∨
    ∃ a c r, s = a ++ c :: r ∧ BraceFree a ∧ (c = '\x7b' ∨ c = '\x7d') := by
  induction s with
  | nil => exact Or.inl (by simp [BraceFree])
  | cons c s ih =>
    by_cases hc : c = '\x7b' ∨ c = '\x7d'
    · exact Or.inr ⟨[], c, s, rfl, by simp [BraceFree], hc⟩
    · have hne : c ≠ '\x7b' ∧ c ≠ '\x7d' := not_or.1 hc
      rcases ih with hs | ⟨a, d, r, rfl, ha, hd⟩
      · exact Or.inl (braceFree_cons.2 ⟨hne, hs⟩)
      · exact Or.inr ⟨c :: a, d, r, rfl, braceFree_cons.2 ⟨hne, ha⟩, hd⟩

theorem byteLength_display (p : Placeholder) :
    byteLength p.display = byteLength p.name + 2 := by
  have hopen : '\x7b'.utf8Size = 1 := rfl
  have hclose : '\x7d'.utf8Size = 1 := rfl
  simp only [display, List.cons_append, byteLength, byteLength_append, hopen, hclose]
  omega

namespace Template

/-- The group of a placeholder that is found. -/
def group (o : Occurrence) : BraceGroup := .simple o.start o.placeholder.name

/-- **The groups of a template are its placeholders.** -/
theorem groups_spell {t : Template} (ht : t.Plain) (n : Nat) :
    groupsFrom n .outside (t.spell display) = (t.occurrencesFrom n).map group := by
  induction t generalizing n with
  | last s =>
    have h := groupsFrom_outside ht n []
    rw [List.append_nil] at h
    rw [spell, h]
    rfl
  | piece s p rest ih =>
    have hdisplay : display p ++ rest.spell display =
        '\x7b' :: p.name ++ '\x7d' :: rest.spell display := by
      simp [display]
    rw [spell, List.append_assoc, groupsFrom_outside ht.1, hdisplay,
      groupsFrom_simple (name_braceFree p), Nat.add_assoc, ← byteLength_display, ih ht.2]
    rfl

/-- The group of a placeholder is one. -/
theorem group_occurrence (p : Placeholder) (n : Nat) :
    (group ⟨p, n, n + byteLength p.display⟩).occurrence? =
        some ⟨p, n, n + byteLength p.display⟩ ∧
      (group ⟨p, n, n + byteLength p.display⟩).faults = [] := by
  have hclassify : classify n p.name = .ok p := classify_eq_ok.2 rfl
  simp [group, BraceGroup.occurrence?, BraceGroup.faults, hclassify, byteLength_display,
    Nat.add_assoc]

/-- What a scan makes of the groups of a template. -/
theorem occurrences_groups (t : Template) (n : Nat) :
    ((t.occurrencesFrom n).map group).filterMap BraceGroup.occurrence? = t.occurrencesFrom n ∧
      ((t.occurrencesFrom n).map group).flatMap BraceGroup.faults = [] := by
  induction t generalizing n with
  | last s => exact ⟨rfl, rfl⟩
  | piece s p rest ih =>
    obtain ⟨hfound, hfaults⟩ := group_occurrence p (n + byteLength s)
    obtain ⟨ihfound, ihfaults⟩ := ih (n + byteLength s + byteLength p.display)
    rw [occurrencesFrom, List.map_cons]
    constructor
    · rw [List.filterMap_cons_some hfound, ihfound]
    · rw [List.flatMap_cons, hfaults, ihfaults, List.nil_append]

/-- **A text whose groups are without fault is a template.** -/
theorem exists_template (s : List Char) (n : Nat)
    (h : ∀ g ∈ groupsFrom n .outside s, g.faults = []) :
    ∃ t : Template, t.Plain ∧ s = t.spell display := by
  rcases braceFree_or_split s with hs | ⟨a, c, r, rfl, ha, hc⟩
  · exact ⟨.last s, hs, rfl⟩
  rw [groupsFrom_outside ha] at h
  rcases hc with rfl | rfl
  · -- the group ends at the next brace, which must close it
    rcases braceFree_or_split r with hr | ⟨b, d, r, rfl, hb, hd⟩
    · have hinside := groupsFrom_inside hr (n + byteLength a + 1) (n + byteLength a) [] []
      rw [List.append_nil] at hinside
      rw [groupsFrom, if_pos rfl, hinside] at h
      have hfault := h _ List.mem_cons_self
      simp [BraceGroup.faults] at hfault
    · rcases hd with rfl | rfl
      · obtain ⟨closed, hmem⟩ := nested_mem_groupsFrom
          (n + byteLength a + 1 + byteLength b + 1) (n + byteLength a) 2 r
        rw [groupsFrom, if_pos rfl, groupsFrom_inside hb, groupsFrom, if_pos rfl] at h
        have hfault := h _ hmem
        simp [BraceGroup.faults] at hfault
      · have hsimple := groupsFrom_simple hb (n + byteLength a) r
        rw [List.cons_append] at hsimple
        rw [hsimple] at h
        obtain ⟨p, hp⟩ : ∃ p, classify (n + byteLength a) b = .ok p := by
          have hfault := h _ List.mem_cons_self
          simp only [BraceGroup.faults] at hfault
          split at hfault
          · next p hp => exact ⟨p, hp⟩
          · cases hfault
        obtain ⟨t, ht, rfl⟩ := exists_template r _ fun g hg => h g (List.mem_cons_of_mem _ hg)
        refine ⟨.piece a p t, ⟨ha, ht⟩, ?_⟩
        rw [spell, display, classify_eq_ok.1 hp]
        simp
  · have hopen : '\x7d' ≠ '\x7b' := by decide
    rw [groupsFrom, if_neg hopen, if_pos rfl] at h
    have hfault := h _ List.mem_cons_self
    simp [BraceGroup.faults] at hfault
termination_by s.length
decreasing_by
  subst_vars
  simp only [List.length_append, List.length_cons]
  omega

/-! ## Filling -/

/-- The part of a text from its end on. -/
theorem sliceBytes_append (a b c : List Char) :
    sliceBytes (byteLength a) (byteLength a + byteLength b) (a ++ (b ++ c)) = b := by
  rw [sliceBytes, dropBytes_of_append, Nat.add_sub_cancel_left, takeBytes_of_append]

/-- **Filling a text spells the values.** -/
theorem fillFrom_spell (f : Placeholder → List Char) (t : Template) (a : List Char) :
    fillFrom f (a ++ t.spell display) (byteLength a) (t.occurrencesFrom (byteLength a)) =
      t.spell f := by
  induction t generalizing a with
  | last s => exact dropBytes_of_append a s
  | piece s p rest ih =>
    have hih := ih (a ++ s ++ display p)
    simp only [byteLength_append] at hih
    rw [occurrencesFrom, fillFrom, spell, spell]
    simp only [List.append_assoc] at hih ⊢
    rw [sliceBytes_append, hih]

end Template

end DealSql.Placeholder
