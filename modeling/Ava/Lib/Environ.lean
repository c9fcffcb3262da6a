import Mathlib.Data.List.TakeWhile

/-!
# Texts in the environment of a process

A variable of the environment is a C string `NAME=value`: it ends at the first NUL. `getenv` finds
the value of the first string that begins with the name and an equals sign. A list of values is
written with commas, and read by `std::getline` with the comma as delimiter.
-/

set_option autoImplicit false

namespace Ava.Lib

/-- The characters of a `std::string`. -/
abbrev Text := List Char

/-- `std::string::c_str`, as a C string: what is before the first NUL. -/
def cStr (s : Text) : Text := s.takeWhile (· ≠ '\x00')

theorem cStr_eq_self {s : Text} (h : '\x00' ∉ s) : cStr s = s := by
  rw [cStr, List.takeWhile_eq_self_iff]
  intro c hc
  rw [decide_eq_true_iff]
  rintro rfl
  exact h hc

/-- `getenv`. -/
def getenv (environ : List Text) (name : Text) : Option Text :=
  (environ.find? fun entry => (name ++ ['=']).isPrefixOf entry).map fun entry =>
    entry.drop (name.length + 1)

theorem getenv_first {name : Text} (value : Text) (environ : List Text) :
    getenv ((name ++ ['='] ++ value) :: environ) name = some value := by
  have hname : (name ++ ['=']).isPrefixOf (name ++ ['='] ++ value) = true := by
    rw [List.isPrefixOf_iff_prefix]
    exact List.prefix_append _ _
  rw [getenv, List.find?_cons_of_pos hname]
  simp

theorem getenv_skip {name entry : Text} (hlen : name.length < entry.length)
    (h : (name ++ ['=']).isPrefixOf entry = false) (value : Text) (environ : List Text) :
    getenv ((entry ++ value) :: environ) name = getenv environ name := by
  have hlong : (name ++ ['=']).length ≤ entry.length := by
    rw [List.length_append]
    exact hlen
  have hskip : ¬ (name ++ ['=']).isPrefixOf (entry ++ value) = true := by
    intro hmatch
    have hentry := List.prefix_of_prefix_length_le (List.isPrefixOf_iff_prefix.1 hmatch)
      (List.prefix_append entry value) hlong
    rw [List.isPrefixOf_iff_prefix.2 hentry] at h
    exact absurd h (by decide)
  rw [getenv, List.find?_cons_of_neg hskip, getenv]

/-- A loop that appends a comma and the next value. -/
def appendAll (s : Text) (values : List Text) : Text :=
  values.foldl (fun s value => s ++ ',' :: value) s

theorem appendAll_eq_intercalate (s : Text) (values : List Text) :
    appendAll s values = [','].intercalate (s :: values) := by
  induction values generalizing s with
  | nil => simp [appendAll]
  | cons value values ih =>
    have hnext : appendAll s (value :: values) = appendAll (s ++ ',' :: value) values := rfl
    rw [hnext, ih]
    cases values with
    | nil => simp
    | cons value' values => simp

/-- The fields that `std::getline` reads from a text until its end, without the empty ones. -/
def getFields (s : Text) : List Text := (s.splitOn ',').filter (· ≠ [])

/-- Values without commas that are not empty are read as they were written. -/
theorem getFields_intercalate {values : List Text} (hne : values ≠ [])
    (hvalues : ∀ value ∈ values, value ≠ [] ∧ ',' ∉ value) :
    getFields ([','].intercalate values) = values := by
  rw [getFields, List.splitOn_intercalate _ (fun value h => (hvalues value h).2) hne,
    List.filter_eq_self]
  intro value hmem
  simpa using (hvalues value hmem).1

/-- A list of values has the characters of the values, and commas. -/
theorem mem_intercalate {c : Char} {values : List Text}
    (h : c ∈ [','].intercalate values) : c = ',' ∨ ∃ value ∈ values, c ∈ value := by
  induction values with
  | nil => simp at h
  | cons value values ih =>
    cases values with
    | nil => exact Or.inr ⟨value, by simp, by simpa using h⟩
    | cons value' values =>
      rw [List.intercalate_cons_cons, List.mem_append, List.mem_append,
        List.mem_singleton] at h
      rcases h with (hmem | hcomma) | hrest
      · exact Or.inr ⟨value, by simp, hmem⟩
      · exact Or.inl hcomma
      · rcases ih hrest with hcomma | ⟨v, hv, hmem⟩
        · exact Or.inl hcomma
        · exact Or.inr ⟨v, List.mem_cons_of_mem _ hv, hmem⟩

end Ava.Lib
