import Runbook.Store

/-!
# Looking up variables

A variable is looked up by its slot; the value there is the one that the entries pair with its name
(`get?_eq_some_iff`). Setting a variable gives it the value (`get?_set_self`) and leaves the others
as they were (`get?_set_ne`).
-/

namespace Runbook

namespace Store

theorem get?_eq_some_iff {s : Store} {name : String} {value : Value} :
    s.get? name = some value ↔ ∃ i : Nat, s.entries[i]? = some (name, value) := by
  unfold get?
  split
  · rename_i i hslot
    obtain ⟨v, hv⟩ := (s.slots_iff name i).1 hslot
    have hentry := (Array.getElem?_eq_some_iff.1 hv).2
    rw [Option.some.injEq, hentry]
    constructor
    · rintro rfl
      exact ⟨i, hv⟩
    · rintro ⟨j, hj⟩
      have hsame := (s.slots_iff name j).2 ⟨value, hj⟩
      obtain rfl := Option.some.inj (hslot.symm.trans hsame)
      exact congrArg Prod.snd (Option.some.inj (hv.symm.trans hj))
  · rename_i hslot
    refine iff_of_false nofun ?_
    rintro ⟨i, hi⟩
    have hsome := (s.slots_iff name i).2 ⟨value, hi⟩
    rw [hslot] at hsome
    nomatch hsome

theorem name_eq_of_slot {s : Store} {name : String} {i : Nat} (h : s.slots[name]? = some i)
    {other : String} {value : Value} (hi : s.entries[i]? = some (other, value)) : other = name := by
  obtain ⟨v, hv⟩ := (s.slots_iff name i).1 h
  exact congrArg Prod.fst (Option.some.inj (hi.symm.trans hv))

theorem get?_set_self (s : Store) (name : String) (value : Value) :
    (s.set name value).get? name = some value := by
  rw [get?_eq_some_iff]
  unfold set
  split
  · rename_i i hslot
    exact ⟨i, by rw [Array.getElem?_set_self (slot_lt hslot)]⟩
  · exact ⟨s.entries.size, Array.getElem?_push_size⟩

theorem get?_set_ne (s : Store) {name other : String} (value : Value) (h : other ≠ name) :
    (s.set name value).get? other = s.get? other := by
  refine Option.ext fun v => ?_
  rw [get?_eq_some_iff, get?_eq_some_iff]
  have hne : ∀ w, (name, value) ≠ (other, w) := fun w heq => h (congrArg Prod.fst heq).symm
  unfold set
  split
  · rename_i i hslot
    refine exists_congr fun j => ?_
    rw [Array.getElem?_set (slot_lt hslot)]
    split
    · rename_i hij
      subst hij
      refine iff_of_false (fun heq => hne v (Option.some.inj heq)) ?_
      exact fun hi => h (name_eq_of_slot hslot hi)
    · rfl
  · constructor
    · rintro ⟨j, hj⟩
      rw [Array.getElem?_push] at hj
      split at hj
      · exact absurd (Option.some.inj hj) (hne v)
      · exact ⟨j, hj⟩
    · rintro ⟨j, hj⟩
      have hlt := (Array.getElem?_eq_some_iff.1 hj).1
      exact ⟨j, by rw [Array.getElem?_push, if_neg (Nat.ne_of_lt hlt), hj]⟩

theorem get?_setAll_of_ne {pairs : List (String × Value)} {name : String}
    (h : ∀ p ∈ pairs, p.1 ≠ name) (s : Store) : (s.setAll pairs).get? name = s.get? name := by
  induction pairs generalizing s with
  | nil => rfl
  | cons p pairs ih =>
    obtain ⟨hp, hpairs⟩ := List.forall_mem_cons.1 h
    show ((s.set p.1 p.2).setAll pairs).get? name = s.get? name
    rw [ih hpairs, s.get?_set_ne p.2 hp.symm]

theorem get?_setAll_of_mem {pairs : List (String × Value)} (hnodup : (pairs.map (·.1)).Nodup)
    {p : String × Value} (hp : p ∈ pairs) (s : Store) : (s.setAll pairs).get? p.1 = some p.2 := by
  induction pairs generalizing s with
  | nil => simp at hp
  | cons q pairs ih =>
    rw [List.map_cons, List.nodup_cons] at hnodup
    show ((s.set q.1 q.2).setAll pairs).get? p.1 = some p.2
    rcases List.mem_cons.1 hp with rfl | hp
    · have hothers : ∀ q ∈ pairs, q.1 ≠ p.1 :=
        fun q hq heq => hnodup.1 (heq ▸ List.mem_map_of_mem hq)
      rw [get?_setAll_of_ne hothers, get?_set_self]
    · exact ih hnodup.2 hp _

end Store

end Runbook
