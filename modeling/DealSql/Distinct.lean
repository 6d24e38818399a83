/-!
# First appearances

A list with every later repetition left out, and the first repetition in a
list.  Two elements repeat each other when their keys are equal.

* `keys_distinctBy` — every key that occurs is kept.
* `nodup_distinctBy` — and none is kept twice.
* `firstRepeat?_eq_none_iff` — without duplicates there is no repetition.
-/

namespace DealSql

variable {α β : Type} [DecidableEq β]

/-- The elements whose keys have neither been seen nor occur earlier. -/
def distinctFrom (key : α → β) (seen : List β) : List α → List α
  | [] => []
  | a :: r =>
    if key a ∈ seen then distinctFrom key seen r
    else a :: distinctFrom key (key a :: seen) r

/-- The first element with each key. -/
def distinctBy (key : α → β) (xs : List α) : List α := distinctFrom key [] xs

/-- The first appearance of each element. -/
def distinct (xs : List β) : List β := distinctBy id xs

/-- A key is kept exactly when it occurs and has not been seen. -/
theorem mem_keys_distinctFrom (key : α → β) (seen : List β) (xs : List α) (k : β) :
    k ∈ (distinctFrom key seen xs).map key ↔ k ∈ xs.map key ∧ k ∉ seen := by
  induction xs generalizing seen with
  | nil => simp [distinctFrom]
  | cons a r ih =>
    by_cases h : key a ∈ seen
    · simp only [distinctFrom, h, if_true, ih, List.map_cons, List.mem_cons]
      grind
    · simp only [distinctFrom, h, if_false, List.map_cons, List.mem_cons, ih]
      grind

/-- Every key that occurs is kept. -/
theorem keys_distinctBy (key : α → β) (xs : List α) (k : β) :
    k ∈ (distinctBy key xs).map key ↔ k ∈ xs.map key := by
  simp [distinctBy, mem_keys_distinctFrom]

/-- No key is kept twice. -/
theorem nodup_distinctFrom (key : α → β) (seen : List β) (xs : List α) :
    ((distinctFrom key seen xs).map key).Nodup := by
  induction xs generalizing seen with
  | nil => simp [distinctFrom]
  | cons a r ih =>
    by_cases h : key a ∈ seen
    · simpa only [distinctFrom, h, if_true] using ih seen
    · simp only [distinctFrom, h, if_false, List.map_cons, List.nodup_cons]
      refine ⟨fun hm => ?_, ih _⟩
      have := (mem_keys_distinctFrom key (key a :: seen) r (key a)).1 hm
      simp at this

/-- No key is kept twice. -/
theorem nodup_distinctBy (key : α → β) (xs : List α) :
    ((distinctBy key xs).map key).Nodup := nodup_distinctFrom key [] xs

/-- Of elements that are mapped, those are kept whose images have a new key. -/
theorem distinctFrom_map {γ : Type} (key : γ → β) (f : α → γ) (seen : List β) (xs : List α) :
    distinctFrom key seen (xs.map f) = (distinctFrom (key ∘ f) seen xs).map f := by
  induction xs generalizing seen with
  | nil => rfl
  | cons a r ih =>
    by_cases h : key (f a) ∈ seen
    · simp [distinctFrom, h, ih]
    · simp [distinctFrom, h, ih]

theorem distinctBy_map {γ : Type} (key : γ → β) (f : α → γ) (xs : List α) :
    distinctBy key (xs.map f) = (distinctBy (key ∘ f) xs).map f :=
  distinctFrom_map key f [] xs

/-- The first element that has been seen or occurs earlier. -/
def firstRepeatAfter? (seen : List β) : List β → Option β
  | [] => none
  | b :: r => if b ∈ seen then some b else firstRepeatAfter? (b :: seen) r

/-- The first element that occurs earlier. -/
def firstRepeat? (xs : List β) : Option β := firstRepeatAfter? [] xs

/-- There is no repetition exactly when no element occurs twice or has been seen. -/
theorem firstRepeatAfter?_eq_none_iff (seen xs : List β) :
    firstRepeatAfter? seen xs = none ↔ xs.Nodup ∧ ∀ b ∈ xs, b ∉ seen := by
  induction xs generalizing seen with
  | nil => simp [firstRepeatAfter?]
  | cons b r ih =>
    by_cases h : b ∈ seen
    · simp [firstRepeatAfter?, h]
    · simp only [firstRepeatAfter?, h, if_false, ih, List.nodup_cons, List.mem_cons]
      grind

/-- There is no repetition exactly when no element occurs twice. -/
theorem firstRepeat?_eq_none_iff (xs : List β) : firstRepeat? xs = none ↔ xs.Nodup := by
  simp [firstRepeat?, firstRepeatAfter?_eq_none_iff]

end DealSql
