import Runbook.Value
import Std.Data.TreeMap

/-!
# The store of variables

A store holds named values in the order in which the names were first set. It keeps the pairs in an
array and, beside it, the slot of each name; that the two agree is part of the type. `toList` is the
view in which the operations are described: `set` replaces in place or appends, and `unset` removes
a pair and keeps the order of the others.
-/

namespace Runbook

/-- Variables with their values, in the order of their first setting. -/
structure Store where
  entries : Array (String × Value)
  /-- The slot of each name among the entries. -/
  slots : Std.TreeMap String Nat
  slots_iff : ∀ (name : String) (i : Nat),
    slots[name]? = some i ↔ ∃ value, entries[i]? = some (name, value)

namespace Store

/-! ## Slots -/

theorem slot_lt {s : Store} {name : String} {i : Nat} (h : s.slots[name]? = some i) :
    i < s.entries.size := by
  obtain ⟨value, hv⟩ := (s.slots_iff name i).1 h
  exact (Array.getElem?_eq_some_iff.1 hv).1

/-- The array without its element `i`. -/
def dropAt {α : Type} (xs : Array α) (i : Nat) : Array α := xs.extract 0 i ++ xs.extract (i + 1)

theorem getElem?_dropAt {α : Type} {xs : Array α} {i : Nat} (h : i < xs.size) (j : Nat) :
    (dropAt xs i)[j]? = if j < i then xs[j]? else xs[j + 1]? := by
  simp only [dropAt, Array.getElem?_append, Array.size_extract, Array.getElem?_extract]
  split <;> split <;> first | omega | grind

/-! ## Views -/

/-- A store without variables. -/
def empty : Store := ⟨#[], ∅, by simp⟩

instance : EmptyCollection Store := ⟨empty⟩

instance : Inhabited Store := ⟨empty⟩

/-- The pairs of name and value, in order. -/
def toList (s : Store) : List (String × Value) := s.entries.toList

/-- The names of the variables, in order. -/
def names (s : Store) : List String := s.toList.map (·.1)

/-- The number of variables. -/
def size (s : Store) : Nat := s.entries.size

/-- There are no variables. -/
def isEmpty (s : Store) : Bool := s.entries.isEmpty

/-- The value of a variable, if it is set. -/
def get? (s : Store) (name : String) : Option Value :=
  match h : s.slots[name]? with
  | some i =>
    have := slot_lt h
    some s.entries[i].2
  | none => none

/-- The variable is set. -/
def contains (s : Store) (name : String) : Bool := s.slots.contains name

/-! ## Changes -/

/-- Gives a variable a value: in its place if it is set, else at the end. -/
def set (s : Store) (name : String) (value : Value) : Store :=
  match h : s.slots[name]? with
  | some i =>
    { entries := s.entries.set i (name, value) (slot_lt h)
      slots := s.slots
      slots_iff := by
        intro n j
        rw [s.slots_iff, Array.getElem?_set]
        split
        · rename_i hij
          subst hij
          obtain ⟨v, hv⟩ := (s.slots_iff _ _).1 h
          simp [hv]
        · rfl }
  | none =>
    { entries := s.entries.push (name, value)
      slots := s.slots.insert name s.entries.size
      slots_iff := by
        intro n j
        rw [Std.TreeMap.getElem?_insert, Array.getElem?_push]
        by_cases hn : name = n
        · subst hn
          have hnone : ∀ (k : Nat) (v : Value), s.entries[k]? ≠ some (name, v) := by
            intro k v hk
            have := (s.slots_iff name k).2 ⟨v, hk⟩
            simp [h] at this
          simp only [Std.ReflCmp.compare_self, if_true, Option.some.injEq]
          split <;> simp_all [eq_comm]
        · have hc : compare name n ≠ .eq := by simpa using hn
          rw [if_neg hc, s.slots_iff]
          split
          · rename_i hj
            simp [hj, hn]
          · rfl }

/-- Takes a variable away, and tells whether it was set. -/
def unset (s : Store) (name : String) : Bool × Store :=
  match h : s.slots[name]? with
  | none => (false, s)
  | some i =>
    (true,
      { entries := dropAt s.entries i
        slots := (s.slots.erase name).map fun _ j => if i < j then j - 1 else j
        slots_iff := by
          intro n j
          have hi := slot_lt h
          obtain ⟨v, hv⟩ := (s.slots_iff _ _).1 h
          rw [Std.TreeMap.getElem?_map, Std.TreeMap.getElem?_erase, getElem?_dropAt hi]
          by_cases hn : name = n
          · subst hn
            have hone : ∀ (k : Nat) (v : Value), s.entries[k]? = some (name, v) → k = i := by
              intro k v hk
              have := (s.slots_iff name k).2 ⟨v, hk⟩
              simp_all
            simp only [Std.ReflCmp.compare_self, if_true, Option.map_none, reduceCtorEq, false_iff]
            rintro ⟨w, hw⟩
            split at hw
            · have := hone _ _ hw; omega
            · have := hone _ _ hw; omega
          · have hc : compare name n ≠ .eq := by simpa using hn
            rw [if_neg hc, Option.map_eq_some_iff]
            have hne : ∀ (k : Nat) (w : Value), s.entries[k]? = some (n, w) → k ≠ i := by
              rintro k w hk rfl
              simp_all
            constructor
            · rintro ⟨k, hk, rfl⟩
              obtain ⟨w, hw⟩ := (s.slots_iff n k).1 hk
              have := hne _ _ hw
              refine ⟨w, ?_⟩
              split
              · rw [if_neg (by omega), show k - 1 + 1 = k by omega, hw]
              · rw [if_pos (by omega), hw]
            · rintro ⟨w, hw⟩
              split at hw
              · exact ⟨j, (s.slots_iff n j).2 ⟨w, hw⟩, by rw [if_neg (by omega)]⟩
              · refine ⟨j + 1, (s.slots_iff n _).2 ⟨w, hw⟩, ?_⟩
                have := hne _ _ hw
                rw [if_pos (by omega)]
                omega })

/-- Removes a variable if it is set. -/
def erase (s : Store) (name : String) : Store := (s.unset name).2

/-- Sets several variables, one after the other. -/
def setAll (s : Store) (pairs : List (String × Value)) : Store :=
  pairs.foldl (fun s p => s.set p.1 p.2) s

/-- The store made by setting several variables one after the other. -/
def ofList (pairs : List (String × Value)) : Store := empty.setAll pairs

/-! ## Reading -/

/-- The text of a variable, or the default if it is not set. -/
def readText (s : Store) (name default : String) : String :=
  match s.get? name with
  | some value => value.toText
  | none => default

/-- The text of a variable, if it is set. -/
def text? (s : Store) (name : String) : Option String := (s.get? name).map Value.toText

/-- A variable read as another kind, or the default if it is not set or does not stand for one. -/
def read {α : Type} (s : Store) (as? : Value → Option α) (name : String) (default : α) : α :=
  ((s.get? name).bind as?).getD default

end Store

end Runbook
