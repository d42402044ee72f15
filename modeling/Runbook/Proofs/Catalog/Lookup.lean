import Mathlib.Data.List.Nodup
import Runbook.Catalog

/-!
# Looking up commands

A name that is looked up in a catalog gives the command of this name, and the commands that a
catalog holds can all be looked up (`find?_eq_some_iff`). A command that is added comes behind the
others, so what was found before is found after (`find?_add`, `find?_addAll`).
-/

namespace Runbook

namespace Catalog

variable {c added : Catalog} {name : String} {command : Command}

theorem name_of_find? (h : c.find? name = some command) : command.name = name := by
  unfold find? at h
  simpa using List.find?_some h

/-- Commands of one catalog with the same name are the same. -/
theorem eq_of_name_eq {other : Command} (h : command ∈ c.commands) (hother : other ∈ c.commands)
    (hname : command.name = other.name) : command = other :=
  List.inj_on_of_nodup_map c.nodup h hother hname

theorem find?_eq_some_iff :
    c.find? name = some command ↔ command ∈ c.commands ∧ command.name = name := by
  constructor
  · intro h
    exact ⟨List.mem_of_find?_eq_some h, name_of_find? h⟩
  · rintro ⟨hmem, rfl⟩
    cases hfind : c.find? command.name with
    | none =>
      unfold find? at hfind
      have := List.find?_eq_none.1 hfind command hmem
      simp at this
    | some found =>
      have hfound := List.mem_of_find?_eq_some hfind
      rw [eq_of_name_eq hfound hmem (name_of_find? hfind)]

theorem contains_iff_mem : c.contains name = true ↔ name ∈ c.commands.map (·.name) := by
  simp [contains]

theorem contains_eq_isSome (c : Catalog) (name : String) :
    c.contains name = (c.find? name).isSome := by
  unfold contains find?
  rw [Bool.eq_iff_iff, List.any_eq_true, List.find?_isSome]

/-! ## Adding -/

theorem add_of_contains (h : c.contains command.name = true) :
    c.add command = .error (.duplicate command.name) :=
  dif_pos h

theorem exists_add (h : c.contains command.name = false) :
    ∃ added, c.add command = .ok added ∧ added.commands = c.commands ++ [command] := by
  unfold add
  rw [dif_neg (by simp [h])]
  exact ⟨_, rfl, rfl⟩

theorem find?_of_append (h : added.commands = c.commands ++ [command]) (name : String) :
    added.find? name = (c.find? name).or (if command.name = name then some command else none) := by
  unfold find?
  rw [h, List.find?_append, List.find?_singleton]
  simp

theorem find?_add (h : c.add command = .ok added) {found : Command}
    (hfind : c.find? name = some found) : added.find? name = some found := by
  unfold add at h
  split at h
  · nomatch h
  · obtain rfl := Except.ok.inj h
    unfold find? at hfind ⊢
    rw [List.find?_append, hfind]
    rfl

theorem find?_addAll {found : Command} (hfind : c.find? name = some found)
    (commands : List Command) : (c.addAll commands).1.find? name = some found := by
  induction commands generalizing c with
  | nil => exact hfind
  | cons command commands ih =>
    unfold addAll
    split
    · rename_i added hadd
      exact ih (find?_add hadd hfind)
    · exact hfind

end Catalog

end Runbook
