import DealSql.Proofs.LeftCuts
import DealSql.Proofs.PlaceholderGrammar
import DealSql.Proofs.StatementTemplates
import Mathlib.Data.List.Basic

/-!
# The parts that braces cut out

Whatever the braces of a text, from the left there is one way to match them: a
closing brace belongs to the last opening brace that is still without one, and
to none when all of them have theirs.  The outermost pairs and an opening brace
that is never closed cut groups out of the text; between the groups stand
characters that are no braces and closing braces that belong to none.

A scan accounts for all of them.  Each group is a placeholder or has faults of its
own, and a closing brace between the groups is a fault.  What is found in the
mask stands at the same bytes of the statement, since a comment within a
group would leave a blank there.

* `existsUnique_isBraceCut` — a text has one cut.
* `groupsFrom_part` — the groups that the reading finds are those of the cut.
* `StandsAt.of_maskComments` — what the mask shows stands in the statement.
* `scan_accounts` — what a scan makes of any statement.
-/

namespace DealSql.Placeholder

open DealSql.Text DealSql.Statement

/-- A part that the braces of a text cut out: a character or a closing brace between
the groups, or a group, given by what stands behind its opening brace. -/
inductive BracePart where
  | plain (c : Char)
  | stray
  | group (content : List Char) (closed : Bool)
  deriving Repr, DecidableEq

/-- No brace is closed in a text but those that it opens, and so many that
are open in front of it. -/
def StaysOpen (opened : Nat) (s : List Char) : Prop :=
  ∀ t, t <+: s → t.count '\x7d' ≤ t.count '\x7b' + opened

namespace BracePart

/-- A part as it stands in the text. -/
def text : BracePart → List Char
  | plain c => [c]
  | stray => ['\x7d']
  | group content closed => '\x7b' :: content ++ if closed then ['\x7d'] else []

/-- Whether a part, which stands in front of a text, ends where one does: a group
at the brace that closes its first or, when there is none, with the text. -/
def StandsBefore (rest : List Char) : BracePart → Prop
  | plain c => c ≠ '\x7b' ∧ c ≠ '\x7d'
  | stray => True
  | group content true => StaysOpen 0 content ∧ content.count '\x7d' = content.count '\x7b'
  | group content false => StaysOpen 0 content ∧ rest = []

/-- Whether a part is a group. -/
def isGroup : BracePart → Bool
  | group .. => true
  | _ => false

/-- The placeholder that a part is, when it begins at a position. -/
def occurrence? (start : Nat) : BracePart → Option Occurrence
  | group content true =>
    (parse? content).map fun p => ⟨p, start, start + byteLength content + 2⟩
  | _ => none

/-- What is wrong with a part that begins at a position. -/
def faults (start : Nat) : BracePart → List Fault
  | plain _ => []
  | stray => [.unmatchedClose start]
  | group content closed =>
    if BraceFree content then
      if closed then
        match classify start content with
        | .ok _ => []
        | .error e => [e]
      else [.unclosed start]
    else .nested start :: if closed then [] else [.unclosed start]

/-- The groups that the reading finds in a part that begins at a position. -/
def groups (start : Nat) : BracePart → List BraceGroup
  | plain _ => []
  | stray => [.stray start]
  | group content true =>
    [if BraceFree content then .simple start content else .nested start true]
  | group content false =>
    [if BraceFree content then .unclosed start else .nested start false]

end BracePart

/-- The parts of a text, in order. -/
inductive IsBraceCut : List Char → List BracePart → Prop
  | nil : IsBraceCut [] []
  | cons {part : BracePart} {rest : List Char} {parts : List BracePart}
      (h : part.StandsBefore rest) (hrest : IsBraceCut rest parts) :
      IsBraceCut (part.text ++ rest) (part :: parts)

/-- Parts with the positions at which they begin, in a text that begins at one. -/
def placed (n : Nat) : List BracePart → List (Nat × BracePart)
  | [] => []
  | part :: parts => (n, part) :: placed (n + byteLength part.text) parts

/-- A text stands at a byte position of another, between two of its characters. -/
def StandsAt (n : Nat) (w sql : List Char) : Prop :=
  ∃ a b, sql = a ++ w ++ b ∧ byteLength a = n

variable {k n start : Nat} {c : Char} {s t content rest sql : List Char} {part : BracePart}
  {parts : List BracePart}

/-! ## Open braces -/

theorem staysOpen_nil : StaysOpen k [] := by
  intro t ht
  simp [List.prefix_nil.1 ht]

/-- A text stays open as its first character and what follows do. -/
theorem staysOpen_cons : StaysOpen k (c :: s) ↔
    ∀ t, t <+: s → (c :: t).count '\x7d' ≤ (c :: t).count '\x7b' + k := by
  constructor
  · intro h t ht
    exact h (c :: t) (List.prefix_cons_inj c |>.2 ht)
  · intro h t ht
    rcases List.prefix_cons_iff.1 ht with rfl | ⟨u, rfl, hu⟩
    · simp
    · exact h u hu

theorem staysOpen_cons_open : StaysOpen k ('\x7b' :: s) ↔ StaysOpen (k + 1) s := by
  rw [staysOpen_cons]
  refine forall₂_congr fun t _ => ?_
  simp
  omega

theorem staysOpen_cons_close : StaysOpen (k + 1) ('\x7d' :: s) ↔ StaysOpen k s := by
  rw [staysOpen_cons]
  refine forall₂_congr fun t _ => ?_
  simp
  omega

theorem not_staysOpen_zero : ¬ StaysOpen 0 ('\x7d' :: s) := by
  intro h
  have hfirst := h ['\x7d'] (by simp)
  revert hfirst
  decide

theorem staysOpen_cons_plain (hc : c ≠ '\x7b' ∧ c ≠ '\x7d') :
    StaysOpen k (c :: s) ↔ StaysOpen k s := by
  rw [staysOpen_cons]
  refine forall₂_congr fun t _ => ?_
  simp [hc]

/-- A text stays open or closes the last brace that is open in front of it. -/
theorem staysOpen_or_closes (k : Nat) (s : List Char) : StaysOpen k s ∨
    ∃ a b, s = a ++ '\x7d' :: b ∧ StaysOpen k a ∧ a.count '\x7d' = a.count '\x7b' + k := by
  induction s generalizing k with
  | nil => exact Or.inl staysOpen_nil
  | cons c s ih =>
    by_cases hopen : c = '\x7b'
    · subst hopen
      rw [staysOpen_cons_open]
      refine (ih (k + 1)).imp_right ?_
      rintro ⟨a, b, rfl, ha, hcount⟩
      refine ⟨'\x7b' :: a, b, rfl, staysOpen_cons_open.2 ha, ?_⟩
      simp [hcount]
      omega
    by_cases hclose : c = '\x7d'
    · subst hclose
      cases k with
      | zero => exact Or.inr ⟨[], s, rfl, staysOpen_nil, by simp⟩
      | succ k =>
        rw [staysOpen_cons_close]
        refine (ih k).imp_right ?_
        rintro ⟨a, b, rfl, ha, hcount⟩
        refine ⟨'\x7d' :: a, b, rfl, staysOpen_cons_close.2 ha, ?_⟩
        simp [hcount]
        omega
    · rw [staysOpen_cons_plain ⟨hopen, hclose⟩]
      refine (ih k).imp_right ?_
      rintro ⟨a, b, rfl, ha, hcount⟩
      refine ⟨c :: a, b, rfl, (staysOpen_cons_plain ⟨hopen, hclose⟩).2 ha, ?_⟩
      simp [hopen, hclose, hcount]

/-- What stays open ends before the brace that closes a group. -/
theorem StaysOpen.prefix_of_closes {a a' b b' : List Char} (ha' : StaysOpen 0 a')
    (hcount : a.count '\x7d' = a.count '\x7b') (h : a ++ '\x7d' :: b = a' ++ b') :
    ∃ x, a = a' ++ x ∧ b' = x ++ '\x7d' :: b := by
  rcases List.append_eq_append_iff.1 h with ⟨x, rfl, hx⟩ | hprefix
  · cases x with
    | nil => exact ⟨[], by simp, by simpa using hx.symm⟩
    | cons d x =>
      obtain ⟨rfl, -⟩ := List.cons.inj hx
      have hclosed := ha' (a ++ ['\x7d']) (by simp)
      have hone : ['\x7d'].count '\x7d' = 1 := rfl
      have hzero : ['\x7d'].count '\x7b' = 0 := rfl
      rw [List.count_append, List.count_append, hone, hzero, hcount] at hclosed
      omega
  · exact hprefix

/-- What stays open is no text in which a group is closed. -/
theorem StaysOpen.ne_closes {a : List Char} (h : StaysOpen 0 s)
    (hcount : a.count '\x7d' = a.count '\x7b') (b : List Char) : a ++ '\x7d' :: b ≠ s := by
  intro heq
  have happend : a ++ '\x7d' :: b = s ++ [] := by rw [heq, List.append_nil]
  obtain ⟨x, -, hx⟩ := h.prefix_of_closes hcount happend
  simp at hx

/-! ## Cuts -/

namespace BracePart

/-- No part is empty. -/
theorem text_ne_nil (part : BracePart) : part.text ≠ [] := by
  cases part <;> simp [text]

/-- Groups that may stand in front of texts are the same when they spell the same with
them: neither ends inside the other. -/
theorem group_of_standsBefore {content' : List Char} {closed closed' : Bool} {rest' : List Char}
    (h : (group content closed).StandsBefore rest)
    (h' : (group content' closed').StandsBefore rest')
    (heq : (group content closed).text ++ rest = (group content' closed').text ++ rest') :
    group content closed = group content' closed' := by
  cases closed with
  | true =>
    cases closed' with
    | true =>
      have hcontents : content ++ '\x7d' :: rest = content' ++ '\x7d' :: rest' := by
        simpa [text] using heq
      obtain ⟨x, hx, -⟩ := h'.1.prefix_of_closes h.2 hcontents
      obtain ⟨y, hy, -⟩ := h.1.prefix_of_closes h'.2 hcontents.symm
      have hlengths := congrArg List.length hx
      have hlengths' := congrArg List.length hy
      simp only [List.length_append] at hlengths hlengths'
      obtain rfl : x = [] := List.length_eq_zero_iff.1 (by omega)
      rw [hx, List.append_nil]
    | false => exact absurd (by simpa [text, h'.2] using heq) (h'.1.ne_closes h.2 rest)
  | false =>
    cases closed' with
    | true => exact absurd (by simpa [text, h.2] using heq.symm) (h.1.ne_closes h'.2 rest')
    | false =>
      obtain rfl : content = content' := by simpa [text, h.2, h'.2] using heq
      rfl

/-- Parts that may stand in front of texts are the same when they spell the same
with them. -/
theorem eq_of_standsBefore {part' : BracePart} {rest' : List Char} (h : part.StandsBefore rest)
    (h' : part'.StandsBefore rest') (heq : part.text ++ rest = part'.text ++ rest') :
    part = part' ∧ rest = rest' := by
  have hpart : part = part' := by
    cases part with
    | plain c =>
      cases part' with
      | plain d => rw [(List.cons.inj heq).1]
      | stray => exact absurd (List.cons.inj heq).1 h.2
      | group content' closed' => exact absurd (List.cons.inj heq).1 h.1
    | stray =>
      cases part' with
      | plain d => exact absurd (List.cons.inj heq).1.symm h'.2
      | stray => rfl
      | group content' closed' => simp [text] at heq
    | group content closed =>
      cases part' with
      | plain d => exact absurd (List.cons.inj heq).1.symm h'.1
      | stray => simp [text] at heq
      | group content' closed' => exact group_of_standsBefore h h' heq
  subst hpart
  exact ⟨rfl, List.append_cancel_left heq⟩

/-- A text that is not empty begins with a part. -/
theorem exists_standsBefore (c : Char) (s : List Char) :
    ∃ (part : BracePart) (rest : List Char), part.StandsBefore rest ∧ c :: s = part.text ++ rest := by
  by_cases hopen : c = '\x7b'
  · subst hopen
    rcases staysOpen_or_closes 0 s with hs | ⟨a, b, rfl, ha, hcount⟩
    · exact ⟨group s false, [], ⟨hs, rfl⟩, by simp [text]⟩
    · exact ⟨group a true, b, ⟨ha, hcount⟩, by simp [text]⟩
  by_cases hclose : c = '\x7d'
  · subst hclose
    exact ⟨stray, s, trivial, rfl⟩
  · exact ⟨plain c, s, ⟨hopen, hclose⟩, rfl⟩

end BracePart

/-- **A text has one cut**, from the left. -/
theorem existsUnique_isBraceCut (s : List Char) : ∃! parts, IsBraceCut s parts := by
  have hcut : LeftCut BracePart.text BracePart.StandsBefore IsBraceCut :=
    { nil := .nil
      cons := .cons
      inv := fun h => by
        cases h with
        | nil => exact Or.inl ⟨rfl, rfl⟩
        | cons h hrest => exact Or.inr ⟨_, _, _, h, hrest, rfl, rfl⟩
      ne_nil := BracePart.text_ne_nil
      exists_first := BracePart.exists_standsBefore
      first_unique := BracePart.eq_of_standsBefore }
  exact hcut.existsUnique s

/-! ## The groups of a cut -/

/-- Inside a group that has braces of its own they are counted. -/
theorem groupsFrom_nested {k' : Nat} (h : StaysOpen k s)
    (hcount : s.count '\x7b' + k = s.count '\x7d' + k') (n start : Nat) (r : List Char) :
    groupsFrom n (.nested start (k + 1)) (s ++ r) =
      groupsFrom (n + byteLength s) (.nested start (k' + 1)) r := by
  induction s generalizing k n with
  | nil =>
    obtain rfl : k = k' := by simpa using hcount
    rfl
  | cons c s ih =>
    rw [List.cons_append, groupsFrom, byteLength, ← Nat.add_assoc]
    by_cases hopen : c = '\x7b'
    · subst hopen
      simp at hcount
      rw [if_pos rfl, ih (staysOpen_cons_open.1 h) (by omega)]
      rfl
    rw [if_neg hopen]
    by_cases hclose : c = '\x7d'
    · subst hclose
      simp at hcount
      cases k with
      | zero => exact absurd h not_staysOpen_zero
      | succ k =>
        rw [if_pos rfl, if_neg (by omega), Nat.add_sub_cancel,
          ih (staysOpen_cons_close.1 h) (by omega)]
        rfl
    · simp [hopen, hclose] at hcount
      rw [if_neg hclose, ih ((staysOpen_cons_plain ⟨hopen, hclose⟩).1 h) hcount]

/-- A text without braces neither opens nor closes anything. -/
theorem BraceFree.count_eq_zero (h : BraceFree s) : s.count '\x7b' = 0 ∧ s.count '\x7d' = 0 :=
  ⟨List.count_eq_zero.2 fun hc => (h _ hc).1 rfl, List.count_eq_zero.2 fun hc => (h _ hc).2 rfl⟩

/-- A group with braces of its own is read up to where it ends. -/
theorem groupsFrom_group {k' : Nat} (h : StaysOpen 0 content)
    (hcount : content.count '\x7b' = content.count '\x7d' + k') (hbraces : ¬ BraceFree content)
    (n : Nat) (r : List Char) :
    groupsFrom n .outside ('\x7b' :: content ++ r) =
      groupsFrom (n + 1 + byteLength content) (.nested n (k' + 1)) r := by
  obtain hfree | ⟨a, c, b, rfl, ha, hc⟩ := braceFree_or_split content
  · exact absurd hfree hbraces
  obtain ⟨hopens, hcloses⟩ := ha.count_eq_zero
  have hprefix := h (a ++ [c]) (by simp)
  have hrest : StaysOpen 1 b := by
    intro t ht
    have hwhole := h (a ++ c :: t) (by simpa using ht)
    rcases hc with rfl | rfl
    · simp [hopens, hcloses] at hwhole ⊢
      omega
    · simp [hopens, hcloses] at hprefix
  rcases hc with rfl | rfl
  · simp [hopens, hcloses] at hcount
    have hlevel : b.count '\x7b' + 1 = b.count '\x7d' + k' := by omega
    have hnested := groupsFrom_nested hrest hlevel (n + 1 + byteLength a + 1) n r
    rw [List.cons_append, groupsFrom, if_pos rfl, List.append_assoc, groupsFrom_inside ha,
      List.cons_append, groupsFrom, if_pos rfl, hnested]
    have hsize : '\x7b'.utf8Size = 1 := rfl
    simp [byteLength, hsize, Nat.add_assoc]
  · simp [hopens, hcloses] at hprefix

theorem byteLength_group (content : List Char) (closed : Bool) :
    byteLength (BracePart.group content closed).text =
      byteLength content + if closed then 2 else 1 := by
  have hopen : '\x7b'.utf8Size = 1 := rfl
  have hclose : '\x7d'.utf8Size = 1 := rfl
  cases closed <;> simp [BracePart.text, byteLength, hopen, hclose] <;> omega

/-- **The groups that the reading finds** in a part are those of the part. -/
theorem groupsFrom_part (h : part.StandsBefore rest) (n : Nat) :
    groupsFrom n .outside (part.text ++ rest) =
      part.groups n ++ groupsFrom (n + byteLength part.text) .outside rest := by
  cases part with
  | plain c =>
    have hplain : BraceFree [c] := braceFree_cons.2 ⟨h, by simp [BraceFree]⟩
    exact groupsFrom_outside hplain n rest
  | stray => rfl
  | group content closed =>
    rw [byteLength_group]
    cases closed with
    | true =>
      have htext : (BracePart.group content true).text ++ rest =
          '\x7b' :: content ++ '\x7d' :: rest := by simp [BracePart.text]
      rw [htext]
      by_cases hfree : BraceFree content
      · rw [groupsFrom_simple hfree]
        simp [BracePart.groups, hfree, Nat.add_assoc]
      · have hclose : '\x7d' ≠ '\x7b' := by decide
        have hcount : content.count '\x7b' = content.count '\x7d' + 0 := h.2.symm
        rw [groupsFrom_group h.1 hcount hfree, groupsFrom, if_neg hclose, if_pos rfl, if_pos rfl]
        simp only [BracePart.groups, if_neg hfree, List.singleton_append, if_true]
        congr 2
        omega
    | false =>
      obtain ⟨hopen, rfl⟩ := h
      have htext : (BracePart.group content false).text ++ [] = '\x7b' :: content ++ [] := by
        simp [BracePart.text]
      rw [htext]
      by_cases hfree : BraceFree content
      · have hinside := groupsFrom_inside hfree (n + 1) n [] []
        simp only [List.cons_append, groupsFrom, if_true, hinside]
        simp [BracePart.groups, hfree]
      · have hle : content.count '\x7d' ≤ content.count '\x7b' := hopen content List.prefix_rfl
        have hcount : content.count '\x7b' =
            content.count '\x7d' + (content.count '\x7b' - content.count '\x7d') := by omega
        rw [groupsFrom_group hopen hcount hfree]
        simp [BracePart.groups, hfree, groupsFrom]

/-- The groups of a text are those of its parts. -/
theorem IsBraceCut.groupsFrom_eq (h : IsBraceCut s parts) (n : Nat) :
    groupsFrom n .outside s = (placed n parts).flatMap fun x => x.2.groups x.1 := by
  induction h generalizing n with
  | nil => rfl
  | cons hpart _ ih =>
    rw [groupsFrom_part hpart, ih, placed, List.flatMap_cons]

/-! ## What is found -/

/-- The brace at which a fault is: a closing one outside any group, or else the one
with which a group opens. -/
def Fault.brace : Fault → Char
  | .unmatchedClose _ => '\x7d'
  | _ => '\x7b'

/-- What names no placeholder is wrong at the brace in front of it. -/
theorem classify_error {e : Fault} (h : classify start content = .error e) :
    e.offset = start ∧ e.brace = '\x7b' := by
  unfold classify at h
  split_ifs at h
  · cases h
    exact ⟨rfl, rfl⟩
  · cases h
    exact ⟨rfl, rfl⟩
  · cases h
    exact ⟨rfl, rfl⟩
  · split at h
    · cases h
    · cases h
      exact ⟨rfl, rfl⟩

namespace BracePart

/-- The placeholder that a part is, is that of its groups. -/
theorem occurrence?_groups (part : BracePart) (start : Nat) :
    (part.groups start).filterMap BraceGroup.occurrence? = (part.occurrence? start).toList := by
  cases part with
  | plain c => rfl
  | stray => rfl
  | group content closed =>
    cases closed with
    | true =>
      have hname : ∀ p, parse? content = some p → BraceFree content := by
        rintro p hp
        rw [← parse?_eq_some.1 hp]
        exact name_braceFree p
      cases hparse : parse? content with
      | some p =>
        have hclassify : classify start content = .ok p := classify_eq_ok.2 (parse?_eq_some.1 hparse)
        simp [groups, occurrence?, hname p hparse, BraceGroup.occurrence?, hclassify, hparse]
      | none =>
        have hclassify : ∀ p, classify start content ≠ .ok p := by
          intro p hp
          rw [parse?_eq_some.2 (classify_eq_ok.1 hp)] at hparse
          cases hparse
        simp only [groups, occurrence?, hparse, Option.map_none, Option.toList_none]
        split_ifs
        · cases hc : classify start content with
          | ok p => exact absurd hc (hclassify p)
          | error e => simp [BraceGroup.occurrence?, hc]
        · rfl
    | false =>
      simp only [groups, occurrence?]
      split_ifs <;> rfl

/-- What is wrong with a part is what is wrong with its groups. -/
theorem faults_groups (part : BracePart) (start : Nat) :
    (part.groups start).flatMap BraceGroup.faults = part.faults start := by
  cases part with
  | plain c => rfl
  | stray => rfl
  | group content closed =>
    by_cases hfree : BraceFree content
    · cases closed with
      | true =>
        cases hclassify : classify start content <;>
          simp [groups, faults, hfree, BraceGroup.faults, hclassify]
      | false => simp [groups, faults, hfree, BraceGroup.faults]
    · cases closed <;> simp [groups, faults, hfree, BraceGroup.faults]

/-- What becomes of a group: it is a placeholder without faults, or else it has one fault for
its name, or it has braces of its own, is not closed, or both. -/
inductive Outcome (start : Nat) (part : BracePart) : Prop
  | placeholder (o : Occurrence) (found : part.occurrence? start = some o)
      (right : part.faults start = [])
  | misnamed (content : List Char) (e : Fault) (spelled : part = group content true)
      (named : classify start content = .error e) (none : part.occurrence? start = none)
      (wrong : part.faults start = [e])
  | malformed (none : part.occurrence? start = none)
      (wrong : part.faults start = [.nested start] ∨ part.faults start = [.unclosed start] ∨
        part.faults start = [.nested start, .unclosed start])

/-- A group is a placeholder or has faults, never both. -/
theorem outcome_of_isGroup (h : part.isGroup = true) (start : Nat) : part.Outcome start := by
  cases part with
  | plain c => cases h
  | stray => cases h
  | group content closed =>
    by_cases hfree : BraceFree content
    · cases closed with
      | true =>
        cases hclassify : classify start content with
        | ok p =>
          have hparse : parse? content = some p := parse?_eq_some.2 (classify_eq_ok.1 hclassify)
          refine .placeholder ⟨p, start, start + byteLength content + 2⟩ ?_ ?_
          · simp [occurrence?, hparse]
          · simp [faults, hfree, hclassify]
        | error e =>
          refine .misnamed content e rfl hclassify ?_ (by simp [faults, hfree, hclassify])
          cases hparse : parse? content with
          | none => simp [occurrence?, hparse]
          | some p =>
            rw [classify_eq_ok.2 (parse?_eq_some.1 hparse)] at hclassify
            cases hclassify
      | false => exact .malformed rfl (by simp [faults, hfree])
    · have hnone : (group content closed).occurrence? start = none := by
        cases closed with
        | false => rfl
        | true =>
          rw [occurrence?, Option.map_eq_none_iff, Option.eq_none_iff_forall_ne_some]
          rintro p hp
          rw [← parse?_eq_some.1 hp] at hfree
          exact hfree (name_braceFree p)
      cases closed <;> exact .malformed hnone (by simp [faults, hfree])

/-- The placeholder that a part is stands where the part does. -/
theorem occurrence?_eq_some {o : Occurrence} (h : part.occurrence? start = some o) :
    o.start = start ∧ part.text = o.placeholder.display ∧
      o.stop = start + byteLength o.placeholder.display := by
  cases part with
  | plain c => cases h
  | stray => cases h
  | group content closed =>
    cases closed with
    | false => cases h
    | true =>
      obtain ⟨p, hp, rfl⟩ := Option.map_eq_some_iff.1 h
      rw [← parse?_eq_some.1 hp]
      exact ⟨rfl, by simp [text, display], by rw [byteLength_display, Nat.add_assoc]⟩

/-- What is wrong with a part is wrong at the brace with which it begins. -/
theorem begins_of_mem_faults {f : Fault} (h : f ∈ part.faults start) :
    f.offset = start ∧ ∃ t, part.text = f.brace :: t := by
  cases part with
  | plain c => cases h
  | stray =>
    obtain rfl := List.mem_singleton.1 h
    exact ⟨rfl, [], rfl⟩
  | group content closed =>
    have hbegins : ∀ f : Fault, f.offset = start ∧ f.brace = '\x7b' →
        f.offset = start ∧ ∃ t, (group content closed).text = f.brace :: t := by
      rintro f ⟨hoffset, hbrace⟩
      exact ⟨hoffset, _, by rw [hbrace, text, List.cons_append]⟩
    refine hbegins f ?_
    have hgroup : (group content closed).isGroup = true := rfl
    cases outcome_of_isGroup hgroup start with
    | placeholder o _ hright => rw [hright] at h; cases h
    | misnamed name e _ hname _ hwrong =>
      rw [hwrong, List.mem_singleton] at h
      exact h ▸ classify_error hname
    | malformed _ hwrong =>
      have hstart : ∀ f' ∈ [Fault.nested start, .unclosed start],
          f'.offset = start ∧ f'.brace = '\x7b' := by simp [Fault.offset, Fault.brace]
      refine hstart f ?_
      rcases hwrong with hwrong | hwrong | hwrong <;> rw [hwrong] at h
      · exact List.mem_of_mem_take (i := 1) h
      · exact List.mem_cons_of_mem _ h
      · exact h

end BracePart

/-! ## Positions -/

/-- A part stands at its position. -/
theorem IsBraceCut.standsAt (h : IsBraceCut s parts) {x : Nat × BracePart}
    (hx : x ∈ placed n parts) : n ≤ x.1 ∧ StandsAt (x.1 - n) x.2.text s := by
  induction h generalizing n with
  | nil => cases hx
  | @cons part rest parts _ _ ih =>
    rcases List.mem_cons.1 hx with rfl | hx
    · exact ⟨Nat.le_refl n, [], rest, rfl, by simp [byteLength]⟩
    · obtain ⟨hle, a, b, rfl, hlength⟩ := ih hx
      refine ⟨by omega, part.text ++ a, b, by simp, ?_⟩
      rw [byteLength_append]
      omega

/-- Each part ends before the next begins. -/
theorem pairwise_placed (n : Nat) (parts : List BracePart) :
    (placed n parts).Pairwise fun x y => x.1 + byteLength x.2.text ≤ y.1 := by
  have hle : ∀ (m : Nat) (ps : List BracePart), ∀ x ∈ placed m ps, m ≤ x.1 := by
    intro m ps
    induction ps generalizing m with
    | nil => simp [placed]
    | cons p ps ih =>
      intro x hx
      rcases List.mem_cons.1 hx with rfl | hx
      · exact Nat.le_refl m
      · exact Nat.le_trans (Nat.le_add_right m _) (ih _ x hx)
  induction parts generalizing n with
  | nil => exact List.Pairwise.nil
  | cons part parts ih => exact List.pairwise_cons.2 ⟨fun x hx => hle _ parts x hx, ih _⟩

/-- **What the mask shows stands in the statement**, at the same bytes. -/
theorem StandsAt.of_maskComments {w : List Char} (hw : ∀ c ∈ w, c ≠ ' ' ∧ c ≠ '\n')
    (hne : w ≠ []) (h : StandsAt n w (maskComments sql)) : StandsAt n w sql := by
  obtain ⟨a, b, hmask, hlength⟩ := h
  obtain ⟨c, w, rfl⟩ := List.exists_cons_of_ne_nil hne
  have hfirst : maskFrom .comments .code sql = a ++ c :: (w ++ b) := by
    rw [← List.cons_append, ← List.append_assoc]
    exact hmask
  obtain ⟨x, r, rfl, hshown, hrun⟩ := maskFrom_split (hw c List.mem_cons_self) hfirst
  obtain ⟨r', hr, -⟩ := maskFrom_run (w := c :: w) (b := b) hw hrun
  refine ⟨x, r', by rw [hr, List.append_assoc], ?_⟩
  rw [← hlength, ← hshown, byteLength_shown, marksUpTo_text]

/-- The part of a text that stands at a position is the slice of its bytes. -/
theorem StandsAt.slice {w : List Char} (h : StandsAt n w sql) :
    sliceBytes n (n + byteLength w) sql = w := by
  obtain ⟨a, b, rfl, rfl⟩ := h
  rw [List.append_assoc]
  exact Template.sliceBytes_append a w b

/-! ## The scan -/

/-- How a scan accounts for the parts of a statement, given with their positions. -/
structure Accounts (sql : List Char) (parts : List (Nat × BracePart)) (s : Scan) : Prop where
  occurrences : s.occurrences = parts.flatMap fun x => (x.2.occurrence? x.1).toList
  faults : s.faults = parts.flatMap fun x => x.2.faults x.1
  /-- A group is a placeholder or has faults. -/
  groups : s.groups = s.occurrences.length +
    parts.countP fun x => x.2.isGroup && !(x.2.faults x.1).isEmpty
  outcome : ∀ x ∈ parts, x.2.isGroup = true → x.2.Outcome x.1
  /-- A placeholder stands in the statement where it is found. -/
  stands : ∀ o ∈ s.occurrences, StandsAt o.start o.placeholder.display sql ∧
    sliceBytes o.start o.stop sql = o.placeholder.display
  apart : s.occurrences.Pairwise fun o o' => o.stop ≤ o'.start
  inOrder : s.faults.Pairwise fun f f' => f.offset ≤ f'.offset
  /-- A fault is at a brace of the statement. -/
  atBrace : ∀ f ∈ s.faults, StandsAt f.offset [f.brace] sql
  placeholders : s.placeholders.Nodup ∧
    s.placeholders = (s.occurrences.map Occurrence.placeholder).eraseDups

/-- How many groups there are: those that are placeholders and those that have faults. -/
theorem countP_opens (parts : List (Nat × BracePart)) :
    (parts.flatMap fun x => x.2.groups x.1).countP BraceGroup.opens =
      (parts.flatMap fun x => (x.2.occurrence? x.1).toList).length +
        parts.countP fun x => x.2.isGroup && !(x.2.faults x.1).isEmpty := by
  induction parts with
  | nil => rfl
  | cons x parts ih =>
    have hone : (x.2.groups x.1).countP BraceGroup.opens = (x.2.occurrence? x.1).toList.length +
        if x.2.isGroup && !(x.2.faults x.1).isEmpty then 1 else 0 := by
      obtain ⟨start, part⟩ := x
      cases part with
      | plain c => rfl
      | stray => rfl
      | group content closed =>
        have hgroup : ((BracePart.group content closed).groups start).countP BraceGroup.opens = 1 := by
          cases closed <;> simp only [BracePart.groups] <;> split_ifs <;> rfl
        rw [hgroup]
        have hisGroup : (BracePart.group content closed).isGroup = true := rfl
        cases BracePart.outcome_of_isGroup hisGroup start with
        | placeholder o hfound hright => simp [hfound, hright]
        | misnamed name e _ _ hnone hwrong => simp [hnone, hwrong, BracePart.isGroup]
        | malformed hnone hwrong =>
          rcases hwrong with hwrong | hwrong | hwrong <;> simp [hnone, hwrong, BracePart.isGroup]
    rw [List.flatMap_cons, List.countP_append, ih, hone, List.flatMap_cons, List.length_append,
      List.countP_cons]
    omega

/-- The placeholders among parts do not overlap. -/
theorem pairwise_occurrences (n : Nat) (parts : List BracePart) :
    ((placed n parts).flatMap fun x => (x.2.occurrence? x.1).toList).Pairwise
      fun o o' => o.stop ≤ o'.start := by
  rw [List.pairwise_flatMap]
  refine ⟨fun x _ => ?_, (pairwise_placed n parts).imp fun {x y} hxy o ho o' ho' => ?_⟩
  · cases x.2.occurrence? x.1 <;> simp
  · obtain ⟨-, htext, hstop⟩ := BracePart.occurrence?_eq_some (Option.mem_toList.1 ho)
    obtain ⟨hstart, -, -⟩ := BracePart.occurrence?_eq_some (Option.mem_toList.1 ho')
    rwa [hstop, hstart, ← htext]

/-- The faults of parts are in order. -/
theorem pairwise_faults (n : Nat) (parts : List BracePart) :
    ((placed n parts).flatMap fun x => x.2.faults x.1).Pairwise
      fun f f' => f.offset ≤ f'.offset := by
  rw [List.pairwise_flatMap]
  refine ⟨fun x _ => ?_, (pairwise_placed n parts).imp fun {x y} hxy f hf f' hf' => ?_⟩
  · refine List.pairwise_of_forall_mem_list fun f hf f' hf' => ?_
    rw [(BracePart.begins_of_mem_faults hf).1, (BracePart.begins_of_mem_faults hf').1]
  · rw [(BracePart.begins_of_mem_faults hf).1, (BracePart.begins_of_mem_faults hf').1]
    exact Nat.le_trans (Nat.le_add_right _ _) hxy

/-- The placeholder that a part of the mask is stands in the statement. -/
theorem StandsAt.placeholder {o : Occurrence} (h : StandsAt start part.text (maskComments sql))
    (ho : part.occurrence? start = some o) : StandsAt o.start o.placeholder.display sql ∧
      sliceBytes o.start o.stop sql = o.placeholder.display := by
  obtain ⟨hstart, htext, hstop⟩ := BracePart.occurrence?_eq_some ho
  rw [htext, ← hstart] at h
  have hat : StandsAt o.start o.placeholder.display sql :=
    h.of_maskComments (display_not_blank _) (by simp [display])
  refine ⟨hat, ?_⟩
  rw [hstop, ← hstart]
  exact hat.slice

/-- A fault of a part of the mask is at a brace of the statement. -/
theorem StandsAt.brace {f : Fault} (h : StandsAt start part.text (maskComments sql))
    (hf : f ∈ part.faults start) : StandsAt f.offset [f.brace] sql := by
  obtain ⟨hoffset, t, htext⟩ := BracePart.begins_of_mem_faults hf
  have hbrace : StandsAt f.offset [f.brace] (maskComments sql) := by
    obtain ⟨a, b, hmask, hlength⟩ := h
    exact ⟨a, t ++ b, by simp [hmask, htext], by rw [hoffset, hlength]⟩
  refine hbrace.of_maskComments ?_ (List.cons_ne_nil _ _)
  cases f <;> simp [Fault.brace]

/-- **A scan accounts for every brace** of a statement.  Its comments masked, the
statement has one cut into groups, closing braces outside any group and other
characters.  The scan has the placeholders and the faults of the parts in order, with their
bytes in the statement itself. -/
theorem scan_accounts (sql : List Char) : ∃ parts,
    (∀ t, IsBraceCut (maskComments sql) t ↔ t = parts) ∧
      Accounts sql (placed 0 parts) (scan sql) := by
  obtain ⟨parts, hparts, hunique⟩ := existsUnique_isBraceCut (maskComments sql)
  have hgroups : braceGroups (maskComments sql) =
      (placed 0 parts).flatMap fun x => x.2.groups x.1 := hparts.groupsFrom_eq 0
  have hstands : ∀ x ∈ placed 0 parts, StandsAt x.1 x.2.text (maskComments sql) :=
    fun x hx => (hparts.standsAt hx).2
  have hoccurrences : (scan sql).occurrences =
      (placed 0 parts).flatMap fun x => (x.2.occurrence? x.1).toList := by
    simp only [scan, hgroups, List.filterMap_flatMap, BracePart.occurrence?_groups]
  have hfaults : (scan sql).faults = (placed 0 parts).flatMap fun x => x.2.faults x.1 := by
    simp only [scan, hgroups, List.flatMap_assoc, BracePart.faults_groups]
  have hnodup := nodup_distinctBy (id : Placeholder → Placeholder)
    ((scan sql).occurrences.map Occurrence.placeholder)
  rw [List.map_id] at hnodup
  refine ⟨parts, fun t => ⟨hunique t, fun h => h ▸ hparts⟩, ?_⟩
  exact {
    occurrences := hoccurrences
    faults := hfaults
    groups := by
      rw [hoccurrences, ← countP_opens, ← hgroups]
      rfl
    outcome := fun x _ h => BracePart.outcome_of_isGroup h x.1
    stands := fun o ho => by
      rw [hoccurrences] at ho
      obtain ⟨x, hx, hmem⟩ := List.mem_flatMap.1 ho
      exact (hstands x hx).placeholder (Option.mem_toList.1 hmem)
    apart := by
      rw [hoccurrences]
      exact pairwise_occurrences 0 parts
    inOrder := by
      rw [hfaults]
      exact pairwise_faults 0 parts
    atBrace := fun f hf => by
      rw [hfaults] at hf
      obtain ⟨x, hx, hmem⟩ := List.mem_flatMap.1 hf
      exact (hstands x hx).brace hmem
    placeholders := ⟨hnodup, distinct_eq_eraseDups _⟩ }

/-- Groups of every kind, with a comment in one of them, are accounted for. -/
example : scan "\x7bdeal_filter\x7d\x7ba--\n\x7d\x7d\x7bb\x7b\x7d".toList =
    ⟨[⟨.dealFilter, 0, 13⟩], [.whitespace "a" 13, .unmatchedClose 19, .nested 20, .unclosed 20], 3⟩ := by
  decide +kernel

end DealSql.Placeholder
