import Mathlib.Tactic.Common
import NotebookProject.Schema.Codec

/-!
# Readings without issues

When a combined reading gives a value and no issue, so do its parts. `Reading.Honest` says that a
reading without issues has a value: then no value is lost in silence where a reading may go on
without one.
-/

namespace NotebookProject.Schema.Reading

variable {α β : Type}

theorem eq_ok_iff {r : Reading α} {a : α} : r = .ok a ↔ r.value = some a ∧ r.issues = [] := by
  cases r
  simp [ok]

@[simp] theorem fail_ne_ok (path : Path) (problem : Problem) (a : α) :
    (fail path problem : Reading α) ≠ .ok a := by
  simp [fail, ok]

@[simp] theorem wrongKind_ne_ok (path : Path) (expected : String) (t : Tree) (a : α) :
    (wrongKind path expected t : Reading α) ≠ .ok a :=
  fail_ne_ok path (.wrongKind expected t.kindName) a

@[simp] theorem ok_inj {a b : α} : (ok a : Reading α) = ok b ↔ a = b := by
  simp [ok]

@[simp] theorem map_ok (f : α → β) (a : α) : (ok a).map f = ok (f a) := rfl

theorem map_eq_ok_iff {r : Reading α} {f : α → β} {b : β} :
    r.map f = .ok b ↔ ∃ a, r = .ok a ∧ f a = b := by
  simp only [eq_ok_iff, map, Option.map_eq_some_iff]
  grind

theorem both_eq_ok_iff {r : Reading α} {s : Reading β} {p : α × β} :
    r.both s = .ok p ↔ r = .ok p.1 ∧ s = .ok p.2 := by
  obtain ⟨a, b⟩ := p
  simp only [eq_ok_iff, both, List.append_eq_nil_iff]
  grind

theorem andThen_eq_ok_iff {r : Reading α} {f : α → Reading β} {b : β} :
    r.andThen f = .ok b ↔ ∃ a, r = .ok a ∧ f a = .ok b := by
  cases hr : r.value with
  | none => simp [eq_ok_iff, andThen, hr]
  | some a => simp [eq_ok_iff, andThen, hr]; tauto

/-! ## Values beside issues -/

theorem value_map {r : Reading α} {f : α → β} {b : β} :
    (r.map f).value = some b ↔ ∃ a, r.value = some a ∧ f a = b := by
  simp [map]

theorem value_both {r : Reading α} {s : Reading β} {p : α × β} :
    (r.both s).value = some p ↔ r.value = some p.1 ∧ s.value = some p.2 := by
  simp only [both]
  grind

theorem value_andThen {r : Reading α} {f : α → Reading β} {b : β} :
    (r.andThen f).value = some b ↔ ∃ a, r.value = some a ∧ (f a).value = some b := by
  cases hr : r.value <;> simp [andThen, hr]

/-! ## Honest readings -/

/-- Without issues there is a value. -/
def Honest (r : Reading α) : Prop := r.issues = [] → ∃ a, r = .ok a

@[simp] theorem honest_ok (a : α) : (ok a).Honest := fun _ => ⟨a, rfl⟩

@[simp] theorem honest_fail (path : Path) (problem : Problem) :
    (fail path problem : Reading α).Honest :=
  fun h => by simp [fail] at h

@[simp] theorem honest_wrongKind (path : Path) (expected : String) (t : Tree) :
    (wrongKind path expected t : Reading α).Honest :=
  honest_fail path (.wrongKind expected t.kindName)

theorem Honest.map {r : Reading α} (h : r.Honest) (f : α → β) : (r.map f).Honest := by
  intro hi
  obtain ⟨a, rfl⟩ := h hi
  exact ⟨f a, rfl⟩

theorem Honest.both {r : Reading α} {s : Reading β} (hr : r.Honest) (hs : s.Honest) :
    (r.both s).Honest := by
  intro hi
  obtain ⟨hi₁, hi₂⟩ := List.append_eq_nil_iff.mp hi
  obtain ⟨a, rfl⟩ := hr hi₁
  obtain ⟨b, rfl⟩ := hs hi₂
  exact ⟨(a, b), rfl⟩

theorem Honest.andThen {r : Reading α} {f : α → Reading β} (hr : r.Honest)
    (hf : ∀ a, (f a).Honest) : (r.andThen f).Honest := by
  intro hi
  cases hv : r.value with
  | none =>
    have hissues : r.issues = [] := by simpa [Reading.andThen, hv] using hi
    obtain ⟨a, rfl⟩ := hr hissues
    simp [ok] at hv
  | some a =>
    have hissues : r.issues = [] ∧ (f a).issues = [] := by simpa [Reading.andThen, hv] using hi
    obtain ⟨b, hb⟩ := hf a hissues.2
    exact ⟨b, andThen_eq_ok_iff.mpr ⟨a, eq_ok_iff.mpr ⟨hv, hissues.1⟩, hb⟩⟩

theorem honest_attempt (r : Reading α) : r.attempt.Honest :=
  fun hi => ⟨r.value, eq_ok_iff.mpr ⟨rfl, hi⟩⟩

theorem honest_withDefault (d : α) (r : Reading α) : (r.withDefault d).Honest :=
  fun hi => ⟨r.value.getD d, eq_ok_iff.mpr ⟨rfl, hi⟩⟩

/-- An honest reading that goes on without a value has reported why. -/
theorem Honest.attempt_eq_ok_iff {r : Reading α} (h : r.Honest) {o : Option α} :
    r.attempt = .ok o ↔ ∃ a, r = .ok a ∧ o = some a := by
  constructor
  · intro hr
    obtain ⟨hv, hi⟩ := eq_ok_iff.mp hr
    obtain ⟨a, rfl⟩ := h hi
    exact ⟨a, rfl, (Option.some.inj hv).symm⟩
  · rintro ⟨a, rfl, rfl⟩
    rfl

theorem Honest.withDefault_eq_ok_iff {r : Reading α} (h : r.Honest) {d a : α} :
    r.withDefault d = .ok a ↔ r = .ok a := by
  constructor
  · intro hr
    obtain ⟨hv, hi⟩ := eq_ok_iff.mp hr
    obtain ⟨b, rfl⟩ := h hi
    exact congrArg ok (Option.some.inj hv)
  · rintro rfl
    rfl

end NotebookProject.Schema.Reading
