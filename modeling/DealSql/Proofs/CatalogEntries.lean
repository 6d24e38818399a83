import DealSql.Schema.Catalog.Document
import Mathlib.Control.Monad.Basic
import Mathlib.Data.List.Nodup

/-!
# Entries of catalogs

Every look-up in a catalog takes the first entry with a key.  Whether it would
find the same in another order depends on the entries that share their keys:
it does exactly when they show the same.  A catalog that repeats nothing has
one entry for each source, and one for each field of a source; what is found
for them is what is listed.

* `find?_of_perm`, `find?_eq_of_perm`, `find?_perm_iff` — look-ups in lists of any order.
* `repetition?_eq_none_iff` — the catalogs that repeat nothing.
* `field?_eq_some_iff` — what is found is what is listed.
-/

namespace DealSql

/-! ## Look-ups by key -/

section Keys

variable {α β γ : Type} {key : α → β} {view : α → γ} {xs ys : List α} {a : α}

/-- Entries with the same key show the same. -/
def AgreeByKey (key : α → β) (view : α → γ) (xs : List α) : Prop :=
  ∀ a ∈ xs, ∀ b ∈ xs, key a = key b → view a = view b

/-- Entries whose keys are distinct agree. -/
theorem agreeByKey_of_nodup (h : (xs.map key).Nodup) : AgreeByKey key id xs :=
  fun _ ha _ hb hkey => List.inj_on_of_nodup_map h ha hb hkey

variable [BEq β] [LawfulBEq β]

/-- What is found for a key is an entry that has it. -/
theorem mem_and_key_of_find? {k : β} (h : xs.find? (fun x => key x == k) = some a) :
    a ∈ xs ∧ key a = k :=
  ⟨List.mem_of_find?_eq_some h, by simpa using List.find?_some h⟩

/-- Where entries of one key agree, a look-up shows the same in any order. -/
theorem find?_of_perm (h : xs.Perm ys) (hagree : AgreeByKey key view xs) (k : β) :
    (xs.find? fun x => key x == k).map view = (ys.find? fun x => key x == k).map view := by
  cases hx : xs.find? fun x => key x == k with
  | none =>
    have hnone : (ys.find? fun x => key x == k) = none := by
      rw [List.find?_eq_none] at hx ⊢
      exact fun y hy => hx y (h.mem_iff.2 hy)
    rw [hnone]
  | some a =>
    obtain ⟨ha, hak⟩ := mem_and_key_of_find? hx
    obtain ⟨b, hb⟩ : ∃ b, (ys.find? fun x => key x == k) = some b :=
      Option.isSome_iff_exists.1 (List.find?_isSome.2 ⟨a, h.mem_iff.1 ha, by simp [hak]⟩)
    obtain ⟨hb', hbk⟩ := mem_and_key_of_find? hb
    rw [hb, Option.map_some, Option.map_some,
      hagree a ha b (h.mem_iff.2 hb') (hak.trans hbk.symm)]

/-- Where entries of one key are equal, a look-up finds the same in any order. -/
theorem find?_eq_of_perm (h : xs.Perm ys) (hagree : AgreeByKey key id xs) (k : β) :
    (xs.find? fun x => key x == k) = ys.find? fun x => key x == k := by
  have hfound := find?_of_perm h hagree k
  rwa [Option.map_id, id_eq, id_eq] at hfound

/-- Every entry is found in some order. -/
theorem exists_perm_find? (key : α → β) (ha : a ∈ xs) :
    ∃ ys, xs.Perm ys ∧ (ys.find? fun x => key x == key a) = some a := by
  obtain ⟨l, r, rfl⟩ := List.append_of_mem ha
  exact ⟨a :: (l ++ r), List.perm_middle, by simp⟩

/-- **Look-ups in any order** show the same exactly when the entries of each
key agree. -/
theorem find?_perm_iff (key : α → β) (view : α → γ) (xs : List α) :
    (∀ ys, xs.Perm ys → ∀ k,
      (xs.find? fun x => key x == k).map view = (ys.find? fun x => key x == k).map view) ↔
      AgreeByKey key view xs := by
  constructor
  · intro h a ha b hb hkey
    obtain ⟨ys, hys, hfinda⟩ := exists_perm_find? key ha
    obtain ⟨zs, hzs, hfindb⟩ := exists_perm_find? key hb
    have hsame := (h ys hys (key a)).symm.trans (h zs hzs (key a))
    rw [hfinda, hkey, hfindb] at hsame
    exact Option.some.inj hsame
  · intro hagree ys hys k
    exact find?_of_perm hys hagree k

/-- Where keys are distinct, the entry that has a key is found. -/
theorem find?_eq_some_iff_of_nodup (h : (xs.map key).Nodup) {k : β} :
    (xs.find? fun x => key x == k) = some a ↔ a ∈ xs ∧ key a = k := by
  constructor
  · exact mem_and_key_of_find?
  · rintro ⟨ha, rfl⟩
    obtain ⟨ys, hys, hfind⟩ := exists_perm_find? key ha
    rw [find?_eq_of_perm hys (agreeByKey_of_nodup h), hfind]

end Keys

/-! ## Catalogs that repeat nothing -/

namespace Catalog

variable {c : Catalog} {s : Source} {e : FieldEntry} {name : String}

/-- The catalog lists an entry as a field of a source. -/
def HasField (c : Catalog) (s : Source) (e : FieldEntry) : Prop :=
  ∃ m ∈ c.sources, m.source = s ∧ e ∈ m.fields

/-- Nothing is repeated when no source is listed twice or has been seen, and
no field is listed twice in its source. -/
theorem repetitionAfter?_eq_none_iff {seen : List Source} {es : List SourceEntry} :
    repetitionAfter? seen es = none ↔
      (es.map SourceEntry.source).Nodup ∧ (∀ m ∈ es, m.source ∉ seen) ∧
        ∀ m ∈ es, (m.fields.map FieldEntry.name).Nodup := by
  induction es generalizing seen with
  | nil => simp [repetitionAfter?]
  | cons m es ih =>
    by_cases hseen : m.source ∈ seen
    · simp [repetitionAfter?, hseen]
    · cases hrepeat : firstRepeat? (m.fields.map FieldEntry.name) with
      | some name =>
        have htwice : ¬ (m.fields.map FieldEntry.name).Nodup := by
          rw [← firstRepeat?_eq_none_iff, hrepeat]
          simp
        simp [repetitionAfter?, hseen, hrepeat, htwice]
      | none =>
        have honce := (firstRepeat?_eq_none_iff _).1 hrepeat
        simp only [repetitionAfter?, hseen, if_false, hrepeat, ih, List.map_cons,
          List.nodup_cons, List.mem_cons]
        grind

/-- **The catalogs that repeat nothing** have one entry for each source, and
one for each field of a source. -/
theorem repetition?_eq_none_iff : c.repetition? = none ↔
    (c.sources.map SourceEntry.source).Nodup ∧
      ∀ m ∈ c.sources, (m.fields.map FieldEntry.name).Nodup := by
  simp [repetition?, repetitionAfter?_eq_none_iff]

/-- A catalog that is read repeats nothing. -/
theorem repetition?_of_read {text : List Char} (h : read text = .ok c) : c.repetition? = none := by
  unfold read at h
  split at h
  · cases h
  · split at h
    · cases h
    · next hnone =>
      cases h
      exact hnone

/-- The fields that are found for a source are those that are listed. -/
theorem mem_fields_iff (h : c.repetition? = none) : e ∈ c.fields s ↔ c.HasField s e := by
  have hsources := (repetition?_eq_none_iff.1 h).1
  constructor
  · intro he
    cases hfound : c.source? s with
    | none => simp [fields, hfound] at he
    | some m =>
      obtain ⟨hm, hkey⟩ := mem_and_key_of_find? hfound
      exact ⟨m, hm, hkey, by simpa [fields, hfound] using he⟩
  · rintro ⟨m, hm, hkey, he⟩
    have hfound : c.source? s = some m := (find?_eq_some_iff_of_nodup hsources).2 ⟨hm, hkey⟩
    simpa [fields, hfound] using he

/-- The fields that are found for a source have different names. -/
theorem nodup_fields (h : c.repetition? = none) (s : Source) :
    ((c.fields s).map FieldEntry.name).Nodup := by
  cases hfound : c.source? s with
  | none => simp [fields, hfound]
  | some m =>
    have hnames := (repetition?_eq_none_iff.1 h).2 m (mem_and_key_of_find? hfound).1
    simpa [fields, hfound] using hnames

/-- **What is found is what is listed**: the one field with a name. -/
theorem field?_eq_some_iff (h : c.repetition? = none) :
    c.field? s name = some e ↔ c.HasField s e ∧ e.name = name := by
  rw [← mem_fields_iff h]
  exact find?_eq_some_iff_of_nodup (nodup_fields h s)

end Catalog

end DealSql
