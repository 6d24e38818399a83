import DealSql.Proofs.SubstitutionMask
import DealSql.Proofs.ValidStatements

/-!
# Outcomes of substitution

What becomes of a statement is settled by three things, in this order: what is
wrong with its braces, the first of its placeholders that has no value, and
the values.  The execution has no say in the first, and the text between the
placeholders none in the second.

* `firstError?_eq_some_iff` — the placeholder whose error is reported.
* `substitution_outcome` — what becomes of any statement.
-/

namespace DealSql.Placeholder

open DealSql.Text

variable {d : Dialect} {x : Execution} {sql : List Char} {u : Template}
  {f f' : Placeholder → List Char} {ps : List Placeholder} {e : SubstitutionError}

/-- Whether an execution has what a placeholder asks for: a selected deal, or so many
months before the anchor. -/
def Provides (x : Execution) (p : Placeholder) : Prop :=
  (p ∈ dealPlaceholders → x.deals ≠ []) ∧ ∀ k, p.cycleOffset? = some k → k ≤ x.anchor.index

/-- A placeholder of a statement for which an execution does not provide, though it does
for all that appear before. -/
structure FirstLacking (x : Execution) (sql : List Char) (p : Placeholder) : Prop where
  clean : (scan sql).isClean = true
  first : ∃ before after, (scan sql).placeholders = before ++ p :: after ∧
    ∀ q ∈ before, Provides x q

/-- What becomes of a statement: the faults of its placeholders are reported, all of
them, or else what the first placeholder without a value lacks, or else every placeholder is
replaced by its value and nothing is changed between them. -/
inductive Substitutes (d : Dialect) (x : Execution) (sql : List Char) :
    Except SubstitutionError (List Char) → Prop
  | faulty (h : (scan sql).isClean = false) :
      Substitutes d x sql (.error (.grammar (scan sql).faults))
  | unselected (p : Placeholder) (first : FirstLacking x sql p) (deal : p ∈ dealPlaceholders)
      (empty : x.deals = []) : Substitutes d x sql (.error (.emptySelection p))
  | early (p : Placeholder) (k : Nat) (first : FirstLacking x sql p)
      (cycle : p.cycleOffset? = some k) (before : x.anchor.index < k) :
      Substitutes d x sql (.error (.cycle (.underflow x.anchor.code k)))
  | filled (u : Template) (f : Placeholder → List Char) (clean : (scan sql).isClean = true)
      (provided : ∀ p ∈ (scan sql).placeholders, Provides x p)
      (values : ∀ p ∈ (scan sql).placeholders, value d x p = .ok (f p))
      (spells : sql = u.spell display) (places : (scan sql).occurrences = u.occurrencesFrom 0) :
      Substitutes d x sql (.ok (u.spell f))

/-- What is spelled depends on the placeholders that there are. -/
theorem Template.spell_congr (h : ∀ p ∈ u.holes, f p = f' p) : u.spell f = u.spell f' := by
  induction u with
  | last s => rfl
  | piece s p rest ih =>
    rw [spell, spell, h p List.mem_cons_self, ih fun q hq => h q (List.mem_cons_of_mem _ hq)]

/-- **The error that is reported** is that of the first placeholder without a value. -/
theorem firstError?_eq_some_iff : firstError? d x ps = some e ↔ ∃ before p after,
    ps = before ++ p :: after ∧ (∀ q ∈ before, Provides x q) ∧ value d x p = .error e := by
  rw [firstError?, List.findSome?_eq_some_iff]
  refine exists_congr fun before => exists_congr fun p => exists_congr fun after => ?_
  refine and_congr_right fun _ => and_comm.trans (and_congr (forall₂_congr fun q _ => ?_) ?_)
  · rw [Provides, ← exists_value_iff (d := d)]
    cases value d x q <;> simp
  · cases value d x p <;> simp

/-- What becomes of a statement is one of the outcomes. -/
theorem substitutes_substitute (d : Dialect) (x : Execution) (sql : List Char) :
    Substitutes d x sql (substitute d x sql) := by
  cases hclean : (scan sql).isClean with
  | false =>
    have hfaulty : substitute d x sql = .error (.grammar (scan sql).faults) := by
      simp [substitute, hclean]
    rw [hfaulty]
    exact .faulty hclean
  | true =>
    rw [substitute_of_isClean hclean]
    cases hfirst : firstError? d x (scan sql).placeholders with
    | some e =>
      obtain ⟨before, p, after, hps, hbefore, hp⟩ := firstError?_eq_some_iff.1 hfirst
      have hlacking : FirstLacking x sql p := ⟨hclean, before, after, hps, hbefore⟩
      rcases value_eq_error_iff.1 hp with ⟨hdeal, hempty, rfl⟩ | ⟨k, hk, hearly, rfl⟩
      · exact .unselected p hlacking hdeal hempty
      · exact .early p k hlacking hk hearly
    | none =>
      obtain ⟨u, hu⟩ := exists_template_of_clean hclean
      have hvalues := firstError?_eq_none_iff.1 hfirst
      have hwritten : fill (fun p => (value d x p).toOption.getD []) sql =
          u.spell (written d x) := hu.fill_eq _
      simp only [hwritten]
      refine .filled u _ hclean (fun p hp => exists_value_iff.1 (hvalues p hp)) (fun p hp => ?_)
        hu.spells hu.occurrences
      obtain ⟨v, hv⟩ := hvalues p hp
      simp [written, hv, Except.toOption]

/-- The first placeholder for which an execution does not provide is reported. -/
theorem FirstLacking.substitute_eq {p : Placeholder} (h : FirstLacking x sql p)
    (hp : value d x p = .error e) : substitute d x sql = .error e := by
  obtain ⟨before, after, hps, hbefore⟩ := h.first
  have hfirst := firstError?_eq_some_iff.2 ⟨before, p, after, hps, hbefore, hp⟩
  rw [substitute_of_isClean h.clean, hfirst]

/-- There is no other outcome. -/
theorem Substitutes.substitute_eq {r : Except SubstitutionError (List Char)}
    (h : Substitutes d x sql r) : substitute d x sql = r := by
  cases h with
  | faulty hclean => simp [substitute, hclean]
  | unselected p hfirst hdeal hempty =>
    exact hfirst.substitute_eq (value_eq_error_iff.2 (Or.inl ⟨hdeal, hempty, rfl⟩))
  | early p k hfirst hcycle hbefore =>
    exact hfirst.substitute_eq (value_eq_error_iff.2 (Or.inr ⟨k, hcycle, hbefore, rfl⟩))
  | filled u f hclean hprovided hvalues hspells hplaces =>
    have hnone : firstError? d x (scan sql).placeholders = none :=
      firstError?_eq_none_iff.2 fun p hp => ⟨f p, hvalues p hp⟩
    rw [substitute_of_isClean hclean, hnone]
    have hfill := Template.fillFrom_spell (fun p => (value d x p).toOption.getD []) u []
    rw [List.nil_append, ← hspells, byteLength, ← hplaces] at hfill
    simp only [fill, hfill]
    congr 1
    refine Template.spell_congr fun p hp => ?_
    rw [← Template.map_placeholder_occurrencesFrom 0 u, ← hplaces, ← mem_placeholders_iff] at hp
    simp [hvalues p hp, Except.toOption]

theorem substitute_eq_iff {r : Except SubstitutionError (List Char)} :
    substitute d x sql = r ↔ Substitutes d x sql r :=
  ⟨fun h => h ▸ substitutes_substitute d x sql, Substitutes.substitute_eq⟩

/-- **What becomes of a statement**, whatever the execution: one of the outcomes and no
other.  So its faults are reported just when it has some, and it is filled just when it
has none and the execution provides for all of its placeholders. -/
theorem substitution_outcome (d : Dialect) (x : Execution) (sql : List Char) :
    (∀ r, substitute d x sql = r ↔ Substitutes d x sql r) ∧
      ((∃ faults, substitute d x sql = .error (.grammar faults)) ↔
        (scan sql).isClean = false) ∧
      ((∃ out, substitute d x sql = .ok out) ↔
        (scan sql).isClean = true ∧ ∀ p ∈ (scan sql).placeholders, Provides x p) := by
  refine ⟨fun r => substitute_eq_iff, ?_, ?_⟩
  · constructor
    · rintro ⟨faults, hfaults⟩
      cases hclean : (scan sql).isClean with
      | false => rfl
      | true => exact absurd hfaults (substitute_ne_grammar hclean faults)
    · exact fun hclean => ⟨_, substitute_eq_iff.2 (.faulty hclean)⟩
  · constructor
    · rintro ⟨out, hout⟩
      cases substitute_eq_iff.1 hout with
      | filled u f hclean hprovided => exact ⟨hclean, hprovided⟩
    · rintro ⟨hclean, hprovided⟩
      exact (exists_substitute_iff hclean).2 fun p hp => exists_value_iff.2 (hprovided p hp)

/-- The first placeholder without a value is reported, whatever lacks the second. -/
example : substitute .postgres ⟨⟨1, 1, by decide, by decide, by decide, by decide⟩, []⟩
    "\x7bcurrent_cycle\x7d\x7bprevious_cycle\x7d\x7bdeal_filter\x7d".toList =
      .error (.cycle (.underflow 101 1)) := by decide +kernel

end DealSql.Placeholder
