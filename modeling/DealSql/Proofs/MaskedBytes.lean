import DealSql.Proofs.Segments
import DealSql.Proofs.TemplateMarks

/-!
# Masks of bytes

A statement may as well be read byte by byte.  The marks that begin and end
something are characters of ASCII, of one byte each, and the bytes of all other
characters are none of these; so the bytes of a character have the role of
the character, and what the reading of the bytes leaves is the masked text,
of which no byte was cut off from its character.

A byte is hidden just when its segment says so.

* `byteMarksFrom_utf8` — the reading of bytes.
* `maskBytes_utf8` — the mask of bytes.
* `mask_eq_segmentation` — a mask hides the parts of the segments.
-/

namespace DealSql.Statement

open DealSql.Text

/-- The bytes of a text. -/
def utf8 (s : List Char) : List UInt8 := s.flatMap String.utf8EncodeChar

/-- A byte taken for a character. -/
def ofByte (b : UInt8) : Char := Char.ofNat b.toNat

/-- The bytes of a statement with their roles, read byte by byte from a region. -/
def byteMarksFrom (g : Region) : List UInt8 → List (UInt8 × Role)
  | [] => []
  | b :: r =>
    let (role, next) := g.read (ofByte b) (r.head?.map ofByte)
    (b, role) :: byteMarksFrom next r

/-- What a mask shows for a marked byte: a space when it is hidden and no line feed. -/
def Mask.showByte (m : Mask) (x : UInt8 × Role) : UInt8 :=
  if m.hides x.2 = true ∧ x.1 ≠ 10 then 32 else x.1

/-- The masked form of the bytes of a statement. -/
def maskBytes (m : Mask) (bytes : List UInt8) : List UInt8 :=
  (byteMarksFrom .code bytes).map m.showByte

/-- The bytes of a marked character, with its role. -/
def byteMarks (x : Char × Role) : List (UInt8 × Role) :=
  (String.utf8EncodeChar x.1).map (·, x.2)

/-- The bytes of a segment with their roles. -/
def Segment.bytes (s : Segment) : List (UInt8 × Role) := s.marks.flatMap byteMarks

/-- The marks of bytes spell them, in order. -/
theorem byteMarksFrom_text (g : Region) (bytes : List UInt8) :
    (byteMarksFrom g bytes).map Prod.fst = bytes := by
  induction bytes generalizing g with
  | nil => rfl
  | cons b r ih => simp [byteMarksFrom, ih]

variable {c : Char} {b : UInt8} {g : Region} {s : List Char} {ahead : Option Char}

/-! ## The bytes of a character -/

@[simp] theorem utf8_nil : utf8 [] = [] := rfl

theorem utf8_cons (c : Char) (s : List Char) :
    utf8 (c :: s) = String.utf8EncodeChar c ++ utf8 s := List.flatMap_cons

/-- Positions are counted in bytes. -/
theorem length_utf8 (s : List Char) : (utf8 s).length = byteLength s := by
  induction s with
  | nil => rfl
  | cons c r ih => rw [utf8_cons, List.length_append, String.length_utf8EncodeChar, ih, byteLength]

theorem toNat_ofByte (b : UInt8) : (ofByte b).toNat = b.toNat := by
  have hvalid : b.toNat.isValidChar := Or.inl (by have := b.toNat_lt; omega)
  rw [ofByte, Char.ofNat, dif_pos hvalid]
  rfl

/-- A character of ASCII is one byte. -/
theorem encode_ascii (h : c.toNat < 128) : ∃ b, String.utf8EncodeChar c = [b] ∧ ofByte b = c := by
  have hle : c.val.toNat ≤ 127 := Nat.le_of_lt_succ h
  refine ⟨UInt8.ofNat c.toNat, ?_, ?_⟩
  · simp only [String.utf8EncodeChar, if_pos hle]
    rfl
  · have hbyte : (UInt8.ofNat c.toNat).toNat = c.toNat :=
      UInt8.toNat_ofNat_of_lt' (by simp only [UInt8.size]; omega)
    rw [ofByte, hbyte, Char.ofNat_toNat]

/-- The bytes of any other character are none of ASCII. -/
theorem le_of_mem_encode (h : 128 ≤ c.toNat) (hb : b ∈ String.utf8EncodeChar c) :
    128 ≤ b.toNat := by
  have hgt : ¬ c.val.toNat ≤ 127 := Nat.not_le.2 h
  simp only [String.utf8EncodeChar, hgt, if_false] at hb
  split_ifs at hb <;> simp only [List.mem_cons, List.not_mem_nil, or_false] at hb <;>
    rcases hb with rfl | rfl | rfl | rfl <;> simp only [UInt8.toNat_ofNat'] <;> omega

/-- What is no ASCII has no meaning of its own. -/
theorem isOrdinary_of_le (h : 128 ≤ c.toNat) : isOrdinary c = true ∧ c ≠ '\n' := by
  have hne : ∀ d : Char, d.toNat < 128 → c ≠ d := by
    rintro d hd rfl
    omega
  refine ⟨?_, hne _ (by decide)⟩
  have hdash := hne '-' (by decide)
  have hslash := hne '/' (by decide)
  have hstar := hne '*' (by decide)
  have hquote := hne '\'' (by decide)
  have hname := hne '"' (by decide)
  simp [isOrdinary, isPairing, hdash, hslash, hstar, hquote, hname]

/-! ## Reading bytes -/

/-- The region after a character that has no meaning of its own. -/
def Region.settled : Region → Region
  | .lineSecond => .line
  | .blockSecond => .block
  | .quoteSecond => .literal
  | g => g

/-- A character that has no meaning of its own is read alike whatever follows. -/
theorem Region.read_settled (hc : isOrdinary c = true) (hline : c ≠ '\n')
    (hg : g ≠ .closeSecond) : g.read c ahead = (g.role, g.settled) := by
  simp only [isOrdinary, isPairing, Bool.and_eq_true, Bool.not_eq_true', Bool.or_eq_false_iff,
    beq_eq_false_iff_ne, bne_iff_ne, ne_eq] at hc
  obtain ⟨⟨⟨⟨hdash, hslash⟩, hstar⟩, hquote⟩, hname⟩ := hc
  cases g <;> simp_all [Region.read, Region.role, Region.settled]

/-- The bytes of such a character have its role. -/
theorem byteMarksFrom_append {bytes : List UInt8} (hg : g ≠ .closeSecond) (hne : bytes ≠ [])
    (hbytes : ∀ b ∈ bytes, 128 ≤ b.toNat) (rest : List UInt8) :
    byteMarksFrom g (bytes ++ rest) =
      bytes.map (·, g.role) ++ byteMarksFrom g.settled rest := by
  induction bytes generalizing g with
  | nil => exact absurd rfl hne
  | cons b r ih =>
    have hb : 128 ≤ (ofByte b).toNat := by
      rw [toNat_ofByte]
      exact hbytes b List.mem_cons_self
    obtain ⟨hordinary, hline⟩ := isOrdinary_of_le hb
    rw [List.cons_append, byteMarksFrom, Region.read_settled hordinary hline hg]
    cases r with
    | nil => rfl
    | cons d r =>
      have hsettled : g.settled ≠ .closeSecond ∧ g.settled.role = g.role ∧
          g.settled.settled = g.settled := by
        cases g <;> simp_all [Region.settled, Region.role]
      obtain ⟨hnot, hrole, hstays⟩ := hsettled
      have hr := ih hnot (List.cons_ne_nil d r) fun e he => hbytes e (List.mem_cons_of_mem _ he)
      rw [hrole, hstays, List.cons_append] at hr
      simp [hr]

/-- What follows is seen alike by its character and by its first byte. -/
theorem head?_utf8 (s : List Char) : (utf8 s).head?.map ofByte = s.head? ∨
    ((utf8 s).head?.map ofByte).any isPairing = false ∧ s.head?.any isPairing = false := by
  cases s with
  | nil => exact Or.inl rfl
  | cons c r =>
    rw [utf8_cons]
    by_cases hc : c.toNat < 128
    · obtain ⟨b, hencode, hb⟩ := encode_ascii hc
      simp [hencode, hb]
    · have hordinary : ∀ d : Char, 128 ≤ d.toNat → isPairing d = false := by
        intro d hd
        have := (isOrdinary_of_le hd).1
        simp only [isOrdinary, Bool.and_eq_true, Bool.not_eq_true'] at this
        exact this.1
      have hne : String.utf8EncodeChar c ≠ [] := String.utf8EncodeChar_ne_nil
      obtain ⟨b, bytes, hencode⟩ := List.exists_cons_of_ne_nil hne
      have hb : 128 ≤ b.toNat := le_of_mem_encode (Nat.not_lt.1 hc) (by simp [hencode])
      refine Or.inr ⟨?_, ?_⟩
      · have hbyte := hordinary (ofByte b) (by rwa [toNat_ofByte])
        simp [hencode, hbyte]
      · simp [hordinary c (Nat.not_lt.1 hc)]

/-- Between a star and a slash that close a comment stands nothing. -/
theorem Region.ahead_of_closeSecond (h : (g.read c ahead).2 = .closeSecond) :
    ahead = some '/' := by
  revert h
  cases g <;> simp only [Region.read] <;> (try split_ifs) <;> simp_all

/-- **The bytes of a text** have the roles of its characters. -/
theorem byteMarksFrom_utf8 (hg : g = .closeSecond → s.head? = some '/') :
    byteMarksFrom g (utf8 s) = (marksFrom g s).flatMap byteMarks := by
  -- In front of the slash that closes a comment the reading takes any character for
  -- that slash, so it must be known that no longer character stands there.
  induction s generalizing g with
  | nil => rfl
  | cons c r ih =>
    have hnext : byteMarksFrom (g.read c r.head?).2 (utf8 r) = _ := ih Region.ahead_of_closeSecond
    rw [utf8_cons, marksFrom, List.flatMap_cons, ← hnext, byteMarks]
    by_cases hc : c.toNat < 128
    · obtain ⟨b, hencode, hb⟩ := encode_ascii hc
      have hread : g.read c ((utf8 r).head?.map ofByte) = g.read c r.head? := by
        rcases head?_utf8 r with heq | hpairing
        · rw [heq]
        · exact g.read_congr (Or.inr hpairing)
      rw [hencode, List.singleton_append, byteMarksFrom, hb, hread]
      rfl
    · have hle : 128 ≤ c.toNat := Nat.not_lt.1 hc
      have hnot : g ≠ .closeSecond := by
        intro hclose
        cases hg hclose
        exact hc (by decide)
      obtain ⟨hordinary, hline⟩ := isOrdinary_of_le hle
      rw [Region.read_settled hordinary hline hnot]
      exact byteMarksFrom_append hnot String.utf8EncodeChar_ne_nil
        (fun b => le_of_mem_encode hle) _

/-! ## Masking bytes -/

/-- Line feeds apart, no character has a line feed among its bytes. -/
theorem ne_lineFeed (hc : c ≠ '\n') (hb : b ∈ String.utf8EncodeChar c) : b ≠ 10 := by
  rintro rfl
  by_cases hlt : c.toNat < 128
  · obtain ⟨d, hencode, hd⟩ := encode_ascii hlt
    rw [hencode, List.mem_singleton] at hb
    exact hc (by rw [← hd, ← hb]; rfl)
  · have hle := le_of_mem_encode (Nat.not_lt.1 hlt) hb
    exact absurd hle (by decide)

/-- The bytes of a character are masked as the character is. -/
theorem map_showByte (m : Mask) (x : Char × Role) :
    (byteMarks x).map m.showByte = utf8 (m.show x) := by
  obtain ⟨c, r⟩ := x
  rw [byteMarks, List.map_map, Mask.show]
  by_cases hidden : m.hides r = true
  · rw [if_pos hidden, blanks]
    split_ifs with hc
    · subst hc
      simp [Mask.showByte, utf8, String.utf8EncodeChar]
    · have hspace : ∀ b ∈ String.utf8EncodeChar c, (m.showByte ∘ (·, r)) b = 32 := by
        intro b hb
        exact if_pos ⟨hidden, ne_lineFeed hc hb⟩
      have hutf8 : ∀ n, utf8 (List.replicate n ' ') = List.replicate n 32 := by
        intro n
        induction n with
        | zero => rfl
        | succ n ih =>
          rw [List.replicate_succ, utf8_cons, ih]
          rfl
      rw [hutf8, List.map_congr_left hspace, List.map_const', String.length_utf8EncodeChar]
  · have hshown : ∀ b ∈ String.utf8EncodeChar c, (m.showByte ∘ (·, r)) b = b := by
      intro b _
      exact if_neg fun h => hidden h.1
    rw [if_neg hidden, List.map_congr_left hshown, List.map_id', utf8, List.flatMap_singleton]

/-- **A mask of bytes** leaves the bytes of the masked text. -/
theorem maskBytes_utf8 (m : Mask) (sql : List Char) :
    maskBytes m (utf8 sql) = utf8 (mask m sql) := by
  have hbytes : byteMarksFrom .code (utf8 sql) = _ := byteMarksFrom_utf8 (by simp)
  rw [maskBytes, hbytes, List.map_flatMap, mask, maskFrom, utf8, List.flatMap_assoc]
  exact List.flatMap_congr fun x _ => map_showByte m x

/-- **A mask hides the parts of the segments.**  A text has one segmentation, from
the left, whose bytes with their roles spell the text.  Masking the bytes of the text
leaves the bytes of a text, as many as there were, and each of them is a space
just when it is no line feed and stands in a comment or, if literals are masked,
inside of a literal; else it is what it was. -/
theorem mask_eq_segmentation (sql : List Char) : ∃ segs, (∀ t, IsSegmentation sql t ↔ t = segs) ∧
    (segs.flatMap Segment.bytes).map Prod.fst = utf8 sql ∧
    ∀ m : Mask, maskBytes m (utf8 sql) = utf8 (mask m sql) ∧
      (utf8 (mask m sql)).length = (utf8 sql).length ∧
      utf8 (mask m sql) = (segs.flatMap Segment.bytes).map fun x =>
        if (x.2 = .comment ∨ m = .commentsAndLiterals ∧ x.2 = .literal) ∧ x.1 ≠ 10 then 32
        else x.1 := by
  obtain ⟨segs, hsegs, hunique⟩ := existsUnique_segmentation sql
  have hbytes : byteMarksFrom .code (utf8 sql) = segs.flatMap Segment.bytes := by
    rw [byteMarksFrom_utf8 (by simp), ← marks, hsegs.marks_eq, List.flatMap_assoc]
    rfl
  have htext : (segs.flatMap Segment.bytes).map Prod.fst = utf8 sql := by
    rw [← hbytes, byteMarksFrom_text]
  refine ⟨segs, fun t => ⟨hunique t, fun h => h ▸ hsegs⟩, htext, fun m =>
    ⟨maskBytes_utf8 m sql, ?_, ?_⟩⟩
  · rw [length_utf8, length_utf8, byteLength_mask]
  · have hhides : ∀ r : Role,
        m.hides r = true ↔ r = .comment ∨ m = .commentsAndLiterals ∧ r = .literal := by
      intro r
      cases m <;> cases r <;> decide
    rw [← maskBytes_utf8, maskBytes, hbytes]
    refine List.map_congr_left fun x _ => ?_
    rw [Mask.showByte]
    simp only [hhides]

end DealSql.Statement
