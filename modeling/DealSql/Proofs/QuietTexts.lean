import DealSql.Proofs.GateWords

/-!
# Quiet texts

A view raises no issue when it is quiet: no blocked keyword stands in it as
a word of its own, and nothing visible stands behind a semicolon.  Both can
be told part by part wherever the view is cut between words.

* `gateIssues_eq_nil_iff` — a gate without issues is one with quiet views.
* `quiet_append_iff` — the parts of a view.
-/

namespace DealSql.Statement

open DealSql.Text

variable {a b s t w : List Char}

/-! ## Words and marks of two texts -/

/-- The words of two texts that meet between words are those of each. -/
theorem standsAlone_append_iff (hw : IsWord w) (h : Parted a b) :
    StandsAlone w (a ++ b) ↔ StandsAlone w a ∨ StandsAlone w b := by
  have hsplit : plainLexemes (a ++ b) = plainLexemes a ++ lexFrom false (0 + byteLength a)
      (Nesting.after false ⟨0, none⟩ a).depth b :=
    lexFrom_append (Nesting.after_plain_name _ rfl a) h
  constructor
  · intro halone
    obtain ⟨l, hl, hkind⟩ := word_mem_plainLexemes_iff.2 ⟨hw, halone⟩
    rw [hsplit] at hl
    rcases List.mem_append.1 hl with hl | hl
    · exact Or.inl (standsAlone_of_mem_lexFrom hl hkind).2
    · exact Or.inr (standsAlone_of_mem_lexFrom hl hkind).2
  · rintro (halone | halone)
    · obtain ⟨l, hl, hkind⟩ := word_mem_plainLexemes_iff.2 ⟨hw, halone⟩
      refine (word_mem_plainLexemes_iff.1 ⟨l, ?_, hkind⟩).2
      rw [hsplit]
      exact List.mem_append_left _ hl
    · exact halone.append_left hw h

/-- A word is the only one in it. -/
theorem eq_of_standsAlone (hw : IsWord w) (hs : IsWord s) (h : StandsAlone w s) : w = s := by
  obtain ⟨l, hl, hkind⟩ := word_mem_plainLexemes_iff.2 ⟨hw, h⟩
  rw [plainLexemes, lexFrom_word hs, List.mem_singleton] at hl
  subst hl
  simpa using hkind.symm

/-- A punctuation mark among the lexemes stands where they say. -/
theorem exists_of_punct_mem_lexFrom {offset depth : Nat} {c : Char} {l : Lexeme}
    (hl : l ∈ lexFrom false offset depth t) (hk : l.kind = .punct c) :
    ∃ a b, t = a ++ c :: b ∧ l.offset = offset + byteLength a := by
  fun_induction lexFrom false offset depth t with
  | case1 => simp at hl
  | case2 offset depth e r hc ih =>
    obtain ⟨a, b, rfl, hoffset⟩ := ih hl
    exact ⟨e :: a, b, rfl, by simp only [hoffset, byteLength]; omega⟩
  | case3 offset depth e r hb hc run ih =>
    have hcut : e :: r = run ++ r.dropWhile isWordChar := by simp [run]
    rcases List.mem_cons.1 hl with rfl | hl
    · simp at hk
    · obtain ⟨a, b, hab, hoffset⟩ := ih hl
      refine ⟨run ++ a, b, by rw [hcut, hab, List.append_assoc], ?_⟩
      rw [hoffset, byteLength_append]
      omega
  | case4 offset depth e r hb hc stop hs => simp at hs
  | case5 offset depth e r hb hc hs outside ih =>
    rcases List.mem_cons.1 hl with rfl | hl
    · obtain rfl : e = c := by simpa using hk
      exact ⟨[], r, rfl, rfl⟩
    · obtain ⟨a, b, rfl, hoffset⟩ := ih hl
      exact ⟨e :: a, b, rfl, by simp only [hoffset, byteLength]; omega⟩

end DealSql.Statement

namespace DealSql.Review

open DealSql.Text DealSql.Statement

variable {a b s w view : List Char}

/-! ## Quiet views -/

/-- No blocked keyword stands in a text as a word of its own. -/
def Quiet (s : List Char) : Prop := ∀ k ∈ blockedKeywords, ¬ ShowsAlone k s

/-- Nothing visible stands behind a semicolon. -/
def Single (s : List Char) : Prop := ∀ a b, s = a ++ ';' :: b → ∀ c ∈ b, isBlank c = true

theorem signal?_blocked {l : Lexeme} {i : Issue} (h : signal? view l = some i) :
    i = .multipleStatements ∨ ∃ k ∈ blockedKeywords, i = .blockedKeyword k := by
  unfold signal? at h
  split at h
  · split at h
    · cases h
    · exact Or.inl (Option.some.inj h).symm
  · cases h
  · obtain ⟨k, hk, rfl⟩ := Option.map_eq_some_iff.1 h
    exact Or.inr ⟨k, (blockedKeyword?_eq_some_iff.1 hk).1, rfl⟩

/-- A view signals two statements exactly when it shows more than one. -/
theorem multipleStatements_mem_signals_iff :
    .multipleStatements ∈ signals view ↔ ¬ Single view := by
  constructor
  · intro hsignal hsingle
    obtain ⟨l, hl, hs⟩ := List.mem_filterMap.1 hsignal
    unfold signal? at hs
    split at hs
    · next hkind =>
      obtain ⟨a, b, rfl, hoffset⟩ := exists_of_punct_mem_lexFrom hl hkind
      have hrest : dropBytes (l.offset + 1) (a ++ ';' :: b) = b := by
        rw [hoffset, Nat.zero_add, dropBytes_semicolon]
      have hblank : trim b = [] := trim_eq_nil_iff.2 (hsingle a b rfl)
      simp [hrest, hblank] at hs
    · cases hs
    · simp at hs
  · intro hsingle
    simp only [Single, not_forall] at hsingle
    obtain ⟨a, b, rfl, c, hc, hblank⟩ := hsingle
    exact multipleStatements_mem_signals ⟨c, hc, by simpa using hblank⟩

/-- **A view without signals** is quiet and shows one statement. -/
theorem signals_eq_nil_iff : signals view = [] ↔ Quiet view ∧ Single view := by
  constructor
  · intro hnil
    refine ⟨fun k hk hshown => ?_, ?_⟩
    · have hmem := (blockedKeyword_mem_signals_iff hk).2 hshown
      simp [hnil] at hmem
    · by_contra hsingle
      have hmem := multipleStatements_mem_signals_iff.2 hsingle
      simp [hnil] at hmem
  · rintro ⟨hquiet, hsingle⟩
    refine List.eq_nil_iff_forall_not_mem.2 fun i hi => ?_
    obtain ⟨l, hl, hs⟩ := List.mem_filterMap.1 hi
    rcases signal?_blocked hs with rfl | ⟨k, hk, rfl⟩
    · exact multipleStatements_mem_signals_iff.1 hi hsingle
    · exact hquiet k hk ((blockedKeyword_mem_signals_iff hk).1 hi)

/-- **A gate without issues** is one with quiet views. -/
theorem gateIssues_eq_nil_iff {parser : Parser} {sql : List Char} :
    gateIssuesWith parser sql = [] ↔ ∀ v ∈ codeViewsWith parser sql, Quiet v ∧ Single v := by
  rw [List.eq_nil_iff_forall_not_mem]
  constructor
  · intro hnone v hv
    refine signals_eq_nil_iff.1 (List.eq_nil_iff_forall_not_mem.2 fun i hi => ?_)
    exact hnone i (mem_gateIssuesWith.2 ⟨v, hv, hi⟩)
  · intro hviews i hi
    obtain ⟨v, hv, hsignal⟩ := mem_gateIssuesWith.1 hi
    rw [signals_eq_nil_iff.2 (hviews v hv)] at hsignal
    cases hsignal

/-! ## The parts of a view -/

/-- A keyword is shown by one of the parts. -/
theorem showsAlone_append_iff {k : String} (hk : InLetters k) (h : Parted a b) :
    ShowsAlone k (a ++ b) ↔ ShowsAlone k a ∨ ShowsAlone k b := by
  constructor
  · rintro ⟨w, hw, halone⟩
    rcases (standsAlone_append_iff (isWord_of_sameWord hk hw) h).1 halone with halone | halone
    · exact Or.inl ⟨w, hw, halone⟩
    · exact Or.inr ⟨w, hw, halone⟩
  · rintro (⟨w, hw, halone⟩ | ⟨w, hw, halone⟩)
    · exact ⟨w, hw, (standsAlone_append_iff (isWord_of_sameWord hk hw) h).2 (Or.inl halone)⟩
    · exact ⟨w, hw, (standsAlone_append_iff (isWord_of_sameWord hk hw) h).2 (Or.inr halone)⟩

/-- A view is quiet when its parts are. -/
theorem quiet_append_iff (h : Parted a b) : Quiet (a ++ b) ↔ Quiet a ∧ Quiet b := by
  have hparts : ∀ k ∈ blockedKeywords,
      (ShowsAlone k (a ++ b) ↔ ShowsAlone k a ∨ ShowsAlone k b) :=
    fun k hk => showsAlone_append_iff (blockedKeywords_letters k hk) h
  constructor
  · intro hquiet
    exact ⟨fun k hk hshown => hquiet k hk ((hparts k hk).2 (Or.inl hshown)),
      fun k hk hshown => hquiet k hk ((hparts k hk).2 (Or.inr hshown))⟩
  · rintro ⟨ha, hb⟩ k hk hshown
    exact ((hparts k hk).1 hshown).elim (ha k hk) (hb k hk)

/-- A word is quiet unless it is a blocked keyword. -/
theorem quiet_word_iff (hw : IsWord w) : Quiet w ↔ blockedKeyword? w = none := by
  constructor
  · intro hquiet
    cases hk : blockedKeyword? w with
    | none => rfl
    | some k =>
      obtain ⟨hmem, hsame⟩ := blockedKeyword?_eq_some_iff.1 hk
      exact absurd ⟨w, hsame, [], [], by simp, rfl, rfl⟩ (hquiet k hmem)
  · rintro hnone k hk ⟨v, hsame, halone⟩
    have hv : IsWord v := isWord_of_sameWord (blockedKeywords_letters k hk) hsame
    obtain rfl := eq_of_standsAlone hv hw halone
    simp [blockedKeyword?_eq_some_iff.2 ⟨hk, hsame⟩] at hnone

/-- Where there is no word there is no keyword. -/
theorem quiet_of_forall (h : ∀ c ∈ s, isWordChar c = false) : Quiet s := by
  rintro k hk ⟨w, hsame, a, b, rfl, -, -⟩
  obtain ⟨hne, hall⟩ := isWord_of_sameWord (blockedKeywords_letters k hk) hsame
  obtain ⟨c, r, rfl⟩ := List.exists_cons_of_ne_nil hne
  have hc := h c (by simp)
  rw [hall c List.mem_cons_self] at hc
  cases hc

/-- Where there is no semicolon there is one statement. -/
theorem single_of_forall (h : ∀ c ∈ s, c ≠ ';') : Single s := by
  rintro a b rfl
  exact absurd rfl (h ';' (by simp))

end DealSql.Review
