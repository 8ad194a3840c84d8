import BuildPipeline.Yaml.Value

/-!
# Equality of YAML values

Equality of values is decidable.  It is finer than being the same: the order of the entries of a
mapping counts, and the two zeros differ.
-/

namespace BuildPipeline.Yaml.Value

mutual

def identical : Value → Value → Bool
  | .null, .null => true
  | .bool a, .bool b => a == b
  | .int a, .int b => a == b
  | .float a, .float b => a == b
  | .string a, .string b => a == b
  | .sequence a, .sequence b => identicalItems a b
  | .mapping a, .mapping b => identicalEntries a b
  | .tagged s a, .tagged t b => s == t && identical a b
  | _, _ => false

def identicalItems : List Value → List Value → Bool
  | [], [] => true
  | a :: as, b :: bs => identical a b && identicalItems as bs
  | _, _ => false

def identicalEntries : List (Value × Value) → List (Value × Value) → Bool
  | [], [] => true
  | (k, v) :: as, (l, w) :: bs => identical k l && identical v w && identicalEntries as bs
  | _, _ => false

end

mutual

theorem eq_of_identical : ∀ {a b : Value}, identical a b = true → a = b
  | .null, b, h => by cases b <;> simp_all [identical]
  | .bool _, b, h => by cases b <;> simp_all [identical]
  | .int _, b, h => by cases b <;> simp_all [identical]
  | .float _, b, h => by cases b <;> simp_all [identical]
  | .string _, b, h => by cases b <;> simp_all [identical]
  | .sequence items, b, h => by
    cases b <;> simp only [identical, Bool.false_eq_true] at h
    rw [eq_of_identicalItems h]
  | .mapping entries, b, h => by
    cases b <;> simp only [identical, Bool.false_eq_true] at h
    rw [eq_of_identicalEntries h]
  | .tagged tag content, b, h => by
    cases b <;> simp only [identical, Bool.false_eq_true, Bool.and_eq_true, beq_iff_eq] at h
    rw [h.1, eq_of_identical h.2]

theorem eq_of_identicalItems : ∀ {a b : List Value}, identicalItems a b = true → a = b
  | [], b, h => by cases b <;> simp_all [identicalItems]
  | x :: xs, b, h => by
    cases b <;> simp only [identicalItems, Bool.false_eq_true, Bool.and_eq_true] at h
    rw [eq_of_identical h.1, eq_of_identicalItems h.2]

theorem eq_of_identicalEntries :
    ∀ {a b : List (Value × Value)}, identicalEntries a b = true → a = b
  | [], b, h => by cases b <;> simp_all [identicalEntries]
  | (k, v) :: xs, b, h => by
    cases b <;> simp only [identicalEntries, Bool.false_eq_true, Bool.and_eq_true] at h
    rename_i head tail
    obtain ⟨l, w⟩ := head
    rw [eq_of_identical h.1.1, eq_of_identical h.1.2, eq_of_identicalEntries h.2]

end

mutual

theorem identical_self : ∀ a : Value, identical a a = true
  | .null => by simp [identical]
  | .bool _ => by simp [identical]
  | .int _ => by simp [identical]
  | .float _ => by simp [identical]
  | .string _ => by simp [identical]
  | .sequence items => by simp [identical, identicalItems_self items]
  | .mapping entries => by simp [identical, identicalEntries_self entries]
  | .tagged _ content => by simp [identical, identical_self content]

theorem identicalItems_self : ∀ items : List Value, identicalItems items items = true
  | [] => by simp [identicalItems]
  | item :: items => by simp [identicalItems, identical_self item, identicalItems_self items]

theorem identicalEntries_self :
    ∀ entries : List (Value × Value), identicalEntries entries entries = true
  | [] => by simp [identicalEntries]
  | (k, v) :: entries => by
    simp [identicalEntries, identical_self k, identical_self v, identicalEntries_self entries]

end

theorem identical_iff (a b : Value) : identical a b = true ↔ a = b :=
  ⟨eq_of_identical, fun h => h ▸ identical_self a⟩

instance : DecidableEq Value := fun a b => decidable_of_iff _ (identical_iff a b)

end BuildPipeline.Yaml.Value
