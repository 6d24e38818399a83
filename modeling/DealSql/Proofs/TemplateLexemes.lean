import DealSql.Proofs.AlikeTexts
import DealSql.Proofs.StatementTemplates

/-!
# The lexemes of a filled template

A template that is filled in two ways is masked text by text and value by
value.  If the values are alike at their places, so are the masked texts.
If the values at every place weigh no less the second time, neither does the
whole, and it weighs the same only when all of them do.

* `Template.alike_shown` — alike values.
* `Template.weight_shown` — values that weigh no less.
-/

namespace DealSql.Placeholder

open DealSql.Text DealSql.Statement

variable {u : Template} {a : Place} {f f' : Placeholder → List Char} {n n' : Nesting}

/-- What is shown of a text that stands at a place. -/
def Place.shown (a : Place) (v : List Char) : List Char :=
  maskFrom .commentsAndLiterals a.region v

/-- Values of which the second weighs no less than the first at a place, and
neither of which opens or closes a name. -/
structure Place.Heavier (a : Place) (v v' : List Char) : Prop where
  returns : (a.nesting.after true (a.shown v)).name = a.nesting.name
  returns' : (a.nesting.after true (a.shown v')).name = a.nesting.name
  weight : a.nesting.weight (a.shown v) ≤ a.nesting.weight (a.shown v')

namespace Template

/-- What is shown of a filled template, its literals masked. -/
def shown (f : Placeholder → List Char) (g : Region) (u : Template) : List Char :=
  (u.marks f g).flatMap Mask.commentsAndLiterals.show

/-- A filled template is shown text by text and value by value. -/
theorem shown_piece (f : Placeholder → List Char) (a : Place) (s : List Char) (p : Placeholder)
    (rest : Template) : (piece s p rest).shown f a.region =
      (marksUpTo opening a.region s).flatMap Mask.commentsAndLiterals.show ++
        ((a.after s).shown (f p) ++ rest.shown f (a.after s).region) := by
  rw [← List.append_assoc]
  simp only [shown, marks, List.flatMap_append]
  rfl

/-- **Alike values** leave alike texts. -/
theorem alike_shown
    (h : u.Within (fun a p => Alike a.nesting (a.shown (f p)) (a.shown (f' p)) ∧
      a.nesting.after true (a.shown (f p)) = a.nesting) a) :
    Alike a.nesting (u.shown f a.region) (u.shown f' a.region) := by
  induction u generalizing a with
  | last s => exact .same _ _
  | piece s p rest ih =>
    obtain ⟨⟨halike, hreturns⟩, hrest⟩ := h
    rw [shown_piece, shown_piece]
    refine Alike.append_same _ (Alike.append halike ?_)
    have hnesting : ((a.nesting.after true ((marksUpTo opening a.region s).flatMap
        Mask.commentsAndLiterals.show)).after true ((a.after s).shown (f p))) =
          (a.after s).nesting := hreturns
    rw [hnesting]
    exact ih hrest

/-- **Values that weigh no less** leave texts that weigh no less, and the same
only if all values do. -/
theorem weight_shown (h : u.Within (fun a p => a.Heavier (f p) (f' p)) a)
    (hn : n.name = a.nesting.name) (hn' : n'.name = a.nesting.name) :
    n.weight (u.shown f a.region) ≤ n'.weight (u.shown f' a.region) ∧
      (n.weight (u.shown f a.region) = n'.weight (u.shown f' a.region) →
        u.Within (fun a p =>
          a.nesting.weight (a.shown (f p)) = a.nesting.weight (a.shown (f' p))) a) := by
  induction u generalizing a n n' with
  | last s =>
    have hweight := Nesting.weight_eq (hn.trans hn'.symm) (maskFrom .commentsAndLiterals a.region s)
    exact ⟨Nat.le_of_eq hweight, fun _ => trivial⟩
  | piece s p rest ih =>
    obtain ⟨hhere, hrest⟩ := h
    -- the names that are open before and after the value are those of its place
    have hparts : ∀ {m : Nesting} (g : Placeholder → List Char), m.name = a.nesting.name →
        ((a.after s).nesting.after true ((a.after s).shown (g p))).name =
          (a.after s).nesting.name →
        ∃ m' : Nesting, m'.name = (a.after s).nesting.name ∧
          m.weight ((piece s p rest).shown g a.region) =
            a.nesting.weight ((marksUpTo opening a.region s).flatMap
              Mask.commentsAndLiterals.show) +
            ((a.after s).nesting.weight ((a.after s).shown (g p)) +
              m'.weight (rest.shown g (a.after s).region)) := by
      intro m g hm hreturns
      have hbefore := Nesting.after_name_eq hm
        ((marksUpTo opening a.region s).flatMap Mask.commentsAndLiterals.show)
      have hvalue := Nesting.after_name_eq (m := (a.after s).nesting) hbefore
        ((a.after s).shown (g p))
      refine ⟨_, hvalue.trans hreturns, ?_⟩
      rw [shown_piece, Nesting.weight_append, Nesting.weight_append, Nesting.weight_eq hm,
        Nesting.weight_eq (m := (a.after s).nesting) hbefore]
    obtain ⟨m, hm, hweight⟩ := hparts f hn hhere.returns
    obtain ⟨m', hm', hweight'⟩ := hparts f' hn' hhere.returns'
    obtain ⟨hle, heq⟩ := ih hrest hm hm'
    have hvalue := hhere.weight
    rw [hweight, hweight']
    refine ⟨by omega, fun hsame => ⟨by omega, heq (by omega)⟩⟩

end Template

end DealSql.Placeholder
