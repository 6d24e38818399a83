import DealSql.Proofs.Characters
import DealSql.Statement.Mask

/-!
# Reading a text in front of another

A statement is read from the left with one character of foresight, so the
roles in a front part depend on the rest only through the rest's first
character, and the rest is read from the region in which the front part
ends.  `marksFrom_append` says so.

The foresight matters only between two characters that can make a pair:
dashes, a slash, a star and a single quote.  A text that neither begins nor
ends with one of them and leaves the region as it found it (`Region.Keeps`)
can therefore take the place of any other such text without a trace.

* `marksFrom_append` — a front part is read up to the rest.
* `Region.Keeps.marksFrom_append` — a text that keeps the region.
-/

namespace DealSql.Statement

open DealSql.Text

/-- Whether a character can be part of a pair that is read as one mark. -/
def isPairing (c : Char) : Bool := c == '-' || c == '/' || c == '*' || c == '\''

/-- The region after a text that is followed by a character. -/
def Region.after (ahead : Option Char) (g : Region) : List Char → Region
  | [] => g
  | c :: r => (g.read c (r.head?.or ahead)).2.after ahead r

/-- The characters of a text with their roles, when a character follows it. -/
def marksUpTo (ahead : Option Char) (g : Region) : List Char → List (Char × Role)
  | [] => []
  | c :: r =>
    (c, (g.read c (r.head?.or ahead)).1) ::
      marksUpTo ahead (g.read c (r.head?.or ahead)).2 r

variable {ahead ahead' : Option Char} {g : Region} {a b v : List Char}

@[simp] theorem Region.after_nil : g.after ahead [] = g := rfl

@[simp] theorem marksUpTo_nil : marksUpTo ahead g [] = [] := rfl

/-- Nothing follows a whole text. -/
theorem marksUpTo_none (g : Region) (s : List Char) : marksUpTo none g s = marksFrom g s := by
  induction s generalizing g with
  | nil => rfl
  | cons c r ih => simp [marksUpTo, marksFrom, ih]

/-- The marks of a front part spell it. -/
theorem marksUpTo_text (ahead : Option Char) (g : Region) (s : List Char) :
    (marksUpTo ahead g s).map Prod.fst = s := by
  induction s generalizing g with
  | nil => rfl
  | cons c r ih => simp [marksUpTo, ih]

/-- The first character of two texts together. -/
theorem head?_append_or (a b : List Char) (ahead : Option Char) :
    (a ++ b).head?.or ahead = a.head?.or (b.head?.or ahead) := by
  cases a <;> rfl

/-- The region after two texts is the region after the second, read from the
region after the first. -/
theorem Region.after_append (ahead : Option Char) (g : Region) (a b : List Char) :
    g.after ahead (a ++ b) = (g.after (b.head?.or ahead) a).after ahead b := by
  induction a generalizing g with
  | nil => rfl
  | cons c r ih =>
    rw [List.cons_append, Region.after, ih, head?_append_or]
    rfl

/-- The marks of two texts are those of the first, read up to the second,
and those of the second. -/
theorem marksUpTo_append (ahead : Option Char) (g : Region) (a b : List Char) :
    marksUpTo ahead g (a ++ b) = marksUpTo (b.head?.or ahead) g a ++
      marksUpTo ahead (g.after (b.head?.or ahead) a) b := by
  induction a generalizing g with
  | nil => rfl
  | cons c r ih =>
    rw [List.cons_append, marksUpTo, ih, head?_append_or]
    rfl

/-- **A front part is read up to the rest**, and the rest from where the
front part ends. -/
theorem marksFrom_append (g : Region) (a b : List Char) :
    marksFrom g (a ++ b) = marksUpTo b.head? g a ++ marksFrom (g.after b.head? a) b := by
  rw [← marksUpTo_none, marksUpTo_append, marksUpTo_none]
  simp

/-! ## Foresight -/

/-- Foresight matters only within a pair. -/
theorem Region.read_congr {c : Char} (g : Region)
    (h : isPairing c = false ∨ ahead.any isPairing = false ∧ ahead'.any isPairing = false) :
    g.read c ahead = g.read c ahead' := by
  rcases h with h | ⟨h, h'⟩
  · simp only [isPairing, Bool.or_eq_false_iff, beq_eq_false_iff_ne] at h
    obtain ⟨⟨⟨hdash, hslash⟩, hstar⟩, hquote⟩ := h
    cases g <;> simp [Region.read, hdash, hslash, hstar, hquote]
  · have hne : ∀ {x : Option Char} {c : Char}, x.any isPairing = false → isPairing c = true →
        x ≠ some c := by
      rintro x c hx hc rfl
      simp [hc] at hx
    have hdash : isPairing '-' = true := rfl
    have hslash : isPairing '/' = true := rfl
    have hstar : isPairing '*' = true := rfl
    have hquote : isPairing '\'' = true := rfl
    cases g <;> simp [Region.read, hne h hdash, hne h hslash, hne h hstar, hne h hquote,
      hne h' hdash, hne h' hslash, hne h' hstar, hne h' hquote]

/-- A text is read alike before two characters that make no pair with its end. -/
theorem read_alike (g : Region) (a : List Char)
    (h : a.getLast?.any isPairing = false ∨
      ahead.any isPairing = false ∧ ahead'.any isPairing = false) :
    marksUpTo ahead g a = marksUpTo ahead' g a ∧ g.after ahead a = g.after ahead' a := by
  induction a generalizing g with
  | nil => exact ⟨rfl, rfl⟩
  | cons c r ih =>
    have hread : g.read c (r.head?.or ahead) = g.read c (r.head?.or ahead') := by
      cases r with
      | nil => exact g.read_congr (by simpa using h)
      | cons d r => rfl
    have hrest : r.getLast?.any isPairing = false ∨
        ahead.any isPairing = false ∧ ahead'.any isPairing = false := by
      refine h.imp_left fun hlast => ?_
      cases r with
      | nil => rfl
      | cons d r => simpa [List.getLast?_cons] using hlast
    obtain ⟨hmarks, hafter⟩ := ih (g.read c (r.head?.or ahead)).2 hrest
    rw [marksUpTo, marksUpTo, Region.after, Region.after, ← hread, hmarks, hafter]
    exact ⟨rfl, rfl⟩

/-! ## Texts that keep the region -/

/-- A text that makes no pair with what stands before or after it and leaves
the region as it was. -/
structure Region.Keeps (g : Region) (v : List Char) : Prop where
  nonempty : v ≠ []
  begins : v.head?.any isPairing = false
  ends : v.getLast?.any isPairing = false
  returns : g.after none v = g

namespace Region.Keeps

/-- What follows is read as if the text were not there. -/
theorem after_eq (h : g.Keeps v) (ahead : Option Char) : g.after ahead v = g := by
  rw [← (read_alike g v (Or.inl h.ends)).2]
  exact h.returns

/-- The text is read alike before anything. -/
theorem marksUpTo_eq (h : g.Keeps v) (ahead : Option Char) :
    marksUpTo ahead g v = marksFrom g v := by
  rw [← (read_alike g v (Or.inl h.ends)).1, marksUpTo_none]

/-- **A text that keeps the region** is read by itself, and the rest as if it
stood in its place. -/
theorem marksFrom_append (h : g.Keeps v) (b : List Char) :
    marksFrom g (v ++ b) = marksFrom g v ++ marksFrom g b := by
  rw [Statement.marksFrom_append, h.marksUpTo_eq, h.after_eq]

/-- What stands before such a text is read as before any other. -/
theorem before_eq (h : g.Keeps v) (g' : Region) (a : List Char) (b : List Char)
    (hahead : ahead.any isPairing = false) :
    marksUpTo (v ++ b).head? g' a = marksUpTo ahead g' a ∧
      g'.after (v ++ b).head? a = g'.after ahead a := by
  refine read_alike g' a (Or.inr ⟨?_, hahead⟩)
  obtain ⟨c, r, rfl⟩ := List.exists_cons_of_ne_nil h.nonempty
  simpa using h.begins

end Region.Keeps

/-! ## Steady regions -/

/-- The region of a character of code or of the inside of a literal or a
name, one that does not stand in the middle of a mark. -/
def Region.Steady (g : Region) : Prop := g = .code ∨ g = .literal ∨ g = .name

/-- The role of ordinary characters. -/
def Region.role : Region → Role
  | .code => .code
  | .literal => .literal
  | .quoteSecond => .literal
  | .name => .name
  | _ => .comment

/-- **A text whose characters leave the region as it is** has the role of the
region and keeps it. -/
theorem Region.read_staying (hv : ∀ c ∈ v, ∀ ahead, g.read c ahead = (g.role, g)) :
    marksFrom g v = v.map (·, g.role) ∧ g.after none v = g := by
  induction v with
  | nil => exact ⟨rfl, rfl⟩
  | cons c r ih =>
    obtain ⟨hmarks, hafter⟩ := ih fun d hd => hv d (List.mem_cons_of_mem _ hd)
    have hc := hv c List.mem_cons_self
    constructor
    · rw [marksFrom, hc]
      simp [hmarks]
    · rw [Region.after, hc]
      exact hafter

/-- Of the steady regions only the code has its role. -/
theorem Region.Steady.eq_code (hg : g.Steady) (h : g.role = .code) : g = .code := by
  rcases hg with rfl | rfl | rfl
  · rfl
  · cases h
  · cases h

/-- A steady region is no comment. -/
theorem Region.Steady.role_ne_comment (hg : g.Steady) : g.role ≠ .comment := by
  rcases hg with rfl | rfl | rfl <;> decide

/-- Whether a character has no meaning of its own anywhere. -/
def isOrdinary (c : Char) : Bool := !isPairing c && c != '"'

/-- Ordinary characters leave a steady region as it is. -/
theorem Region.read_ordinary (hg : g.Steady) {c : Char} (hc : isOrdinary c = true) :
    g.read c ahead = (g.role, g) := by
  simp only [isOrdinary, isPairing, Bool.and_eq_true, Bool.not_eq_true', Bool.or_eq_false_iff,
    beq_eq_false_iff_ne, bne_iff_ne, ne_eq] at hc
  obtain ⟨⟨⟨⟨hdash, hslash⟩, hstar⟩, hquote⟩, hname⟩ := hc
  rcases hg with rfl | rfl | rfl
  · simp [Region.read, Region.role, hdash, hslash, hquote, hname]
  · simp [Region.read, Region.role, hquote]
  · simp [Region.read, Region.role, hname]

/-- A text of ordinary characters has one role and keeps the region. -/
theorem read_ordinary_text (hg : g.Steady) (hv : ∀ c ∈ v, isOrdinary c = true) :
    marksFrom g v = v.map (·, g.role) ∧ g.after none v = g :=
  Region.read_staying fun c hc _ => Region.read_ordinary hg (hv c hc)

/-- Ordinary characters begin no comment. -/
theorem not_comment_of_ordinary (hg : g.Steady) (hv : ∀ c ∈ v, isOrdinary c = true) :
    ∀ x ∈ marksFrom g v, x.2 ≠ .comment := by
  intro x hx
  rw [(read_ordinary_text hg hv).1] at hx
  obtain ⟨c, -, rfl⟩ := List.mem_map.1 hx
  exact hg.role_ne_comment

/-- A text of ordinary characters keeps the region. -/
theorem Region.keeps_of_ordinary (hg : g.Steady) (hne : v ≠ [])
    (hv : ∀ c ∈ v, isOrdinary c = true) : g.Keeps v := by
  have hpairing : ∀ c ∈ v, isPairing c = false := by
    intro c hc
    have hordinary := hv c hc
    simp only [isOrdinary, Bool.and_eq_true, Bool.not_eq_true'] at hordinary
    exact hordinary.1
  refine ⟨hne, ?_, ?_, (read_ordinary_text hg hv).2⟩
  · cases hl : v.head? with
    | none => rfl
    | some c => exact hpairing c (List.mem_of_head? hl)
  · cases hl : v.getLast? with
    | none => rfl
    | some c => exact hpairing c (List.mem_of_getLast? hl)

/-- The second quote of a doubled one is never anything but a quote. -/
theorem Region.after_ne_quoteSecond (hahead : ahead ≠ some '\'')
    (hg : g = .quoteSecond → a.head? = some '\'') : g.after ahead a ≠ .quoteSecond := by
  induction a generalizing g with
  | nil =>
    rintro rfl
    simpa using hg rfl
  | cons c r ih =>
    refine ih fun hsecond => ?_
    have hnext : r.head?.or ahead = some '\'' := by
      cases g <;> simp only [Region.read] at hsecond <;> grind
    cases r with
    | nil => exact absurd hnext hahead
    | cons d r => exact hnext

/-- A region in which a brace is visible is steady. -/
theorem Region.steady_of_visible {c : Char} (hc : c ≠ '\n') (hg : g ≠ .quoteSecond)
    (h : (g.read c ahead).1 ≠ .comment) : g.Steady := by
  cases g <;> simp_all [Region.read, Region.Steady, apply_ite Prod.fst]

/-! ## Shown marks -/

/-- Marks that a mask does not hide are shown as they are. -/
theorem flatMap_show_of_visible {m : Mask} (ms : List (Char × Role))
    (h : ∀ x ∈ ms, m.hides x.2 = false) : ms.flatMap m.show = ms.map Prod.fst := by
  induction ms with
  | nil => rfl
  | cons x r ih =>
    rw [List.flatMap_cons, List.map_cons, ih fun y hy => h y (List.mem_cons_of_mem _ hy)]
    rw [Mask.show_of_visible (h x List.mem_cons_self), List.singleton_append]

/-- Marks outside the comments are shown as they are. -/
theorem flatMap_show_of_not_comment (ms : List (Char × Role)) (h : ∀ x ∈ ms, x.2 ≠ .comment) :
    ms.flatMap Mask.comments.show = ms.map Prod.fst := by
  refine flatMap_show_of_visible ms fun x hx => ?_
  have hrole := h x hx
  cases hr : x.2 with
  | comment => exact absurd hr hrole
  | _ => rfl

/-! ## Positions -/

/-- The role of the character that begins at a byte position. -/
def roleAt : Nat → List (Char × Role) → Option Role
  | _, [] => none
  | n, x :: r => if n = 0 then some x.2 else roleAt (n - x.1.utf8Size) r

/-- Positions behind a front part are counted from its end. -/
theorem roleAt_append (n : Nat) (ms r : List (Char × Role)) :
    roleAt (byteLength (ms.map Prod.fst) + n) (ms ++ r) = roleAt n r := by
  induction ms with
  | nil => simp [byteLength]
  | cons x ms ih =>
    have hx := x.1.utf8Size_pos
    have hne : ¬ byteLength ((x :: ms).map Prod.fst) + n = 0 := by
      simp only [List.map_cons, byteLength]
      omega
    have hsub : byteLength ((x :: ms).map Prod.fst) + n - x.1.utf8Size =
        byteLength (ms.map Prod.fst) + n := by
      simp only [List.map_cons, byteLength]
      omega
    rw [List.cons_append, roleAt, if_neg hne, hsub, ih]

end DealSql.Statement
