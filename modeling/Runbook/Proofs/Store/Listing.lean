import Runbook.Proofs.Store.Lookup

/-!
# The store as a list of pairs

A listing is what a store is to its user: a list of pairs of name and value, without slots. `put`
replaces the value of a name in place or appends the pair, and `remove` takes the pair of a name
away and keeps the order of the others. The operations of the store do to its entries what these do
to a listing (`toList_set`, `toList_unset`, `toList_setAll`), and the slot of a name is its place in
the listing (`slots_eq_findIdx?`). After any changes from the empty store the two cannot be told
apart (`changes_refine_listing`).
-/

namespace Runbook

/-- Pairs of name and value, in the order in which the names were first set. -/
abbrev Listing := List (String × Value)

namespace Listing

variable {l : Listing} {name : String} {value : Value} {i : Nat}

/-- Gives a name a value: in its place if it is listed, else at the end. -/
def put (name : String) (value : Value) : Listing → Listing
  | [] => [(name, value)]
  | p :: l => if p.1 = name then (name, value) :: l else p :: put name value l

/-- Takes a name away. -/
def remove (name : String) (l : Listing) : Listing := l.filter (·.1 ≠ name)

/-- Puts several names, one after the other. -/
def putAll (pairs : List (String × Value)) (l : Listing) : Listing :=
  pairs.foldl (fun l p => put p.1 p.2 l) l

theorem put_of_not_mem (h : name ∉ l.map (·.1)) : put name value l = l ++ [(name, value)] := by
  induction l with
  | nil => rfl
  | cons p l ih =>
    simp only [List.map_cons, List.mem_cons, not_or] at h
    rw [put, if_neg (Ne.symm h.1), ih h.2, List.cons_append]

theorem put_of_getElem? (hnodup : (l.map (·.1)).Nodup) {old : Value}
    (hi : l[i]? = some (name, old)) : put name value l = l.set i (name, value) := by
  induction l generalizing i with
  | nil => simp at hi
  | cons p l ih =>
    rw [List.map_cons, List.nodup_cons] at hnodup
    cases i with
    | zero =>
      obtain rfl : p = (name, old) := by simpa using hi
      simp [put]
    | succ i =>
      rw [List.getElem?_cons_succ] at hi
      -- the name stands further down, so it is not the first one
      have hp : p.1 ≠ name := by
        intro hp
        exact hnodup.1 (hp ▸ List.mem_map_of_mem (List.mem_of_getElem? hi))
      rw [put, if_neg hp, ih hnodup.2 hi, List.set_cons_succ]

/-- Names that are all new are listed in the order in which they are put. -/
theorem putAll_of_nodup {pairs : Listing} (h : ((l ++ pairs).map (·.1)).Nodup) :
    putAll pairs l = l ++ pairs := by
  induction pairs generalizing l with
  | nil => exact (List.append_nil l).symm
  | cons p pairs ih =>
    have hsplit : l ++ p :: pairs = l ++ [p] ++ pairs := by simp
    have hnew : p.1 ∉ l.map (·.1) := by
      intro hmem
      rw [List.map_append, List.map_cons, List.nodup_append] at h
      exact h.2.2 _ hmem _ List.mem_cons_self rfl
    show putAll pairs (put p.1 p.2 l) = _
    rw [put_of_not_mem hnew, ih (hsplit ▸ h), hsplit]

theorem remove_of_not_mem (h : name ∉ l.map (·.1)) : remove name l = l := by
  refine List.filter_eq_self.2 fun p hp => ?_
  have hne : p.1 ≠ name := fun e => h (e ▸ List.mem_map_of_mem hp)
  simpa using hne

theorem remove_of_getElem? (hnodup : (l.map (·.1)).Nodup) (hi : l[i]? = some (name, value)) :
    remove name l = l.eraseIdx i := by
  induction l generalizing i with
  | nil => simp at hi
  | cons p l ih =>
    rw [List.map_cons, List.nodup_cons] at hnodup
    cases i with
    | zero =>
      obtain rfl : p = (name, value) := by simpa using hi
      simpa [remove] using remove_of_not_mem hnodup.1
    | succ i =>
      rw [List.getElem?_cons_succ] at hi
      have hp : p.1 ≠ name := by
        intro hp
        exact hnodup.1 (hp ▸ List.mem_map_of_mem (List.mem_of_getElem? hi))
      simpa [remove, hp] using ih hnodup.2 hi

theorem lookup_eq_some_iff_mem (hnodup : (l.map (·.1)).Nodup) :
    l.lookup name = some value ↔ (name, value) ∈ l := by
  induction l with
  | nil => simp
  | cons p l ih =>
    obtain ⟨n, v⟩ := p
    rw [List.map_cons, List.nodup_cons] at hnodup
    by_cases hn : name = n
    · subst hn
      have hnot : (name, value) ∉ l := fun hmem => hnodup.1 (List.mem_map.2 ⟨_, hmem, rfl⟩)
      simp [hnot, eq_comm]
    · have hb : (name == n) = false := beq_eq_false_iff_ne.2 hn
      simp [List.lookup_cons, hb, ih hnodup.2, hn]

theorem lookup_remove_self (name : String) (l : Listing) : (remove name l).lookup name = none := by
  rw [List.lookup_eq_none_iff]
  intro p hp
  have hne : p.1 ≠ name := by simpa using (List.mem_filter.1 hp).2
  simpa using hne.symm

theorem lookup_remove_ne {other : String} (h : other ≠ name) (l : Listing) :
    (remove name l).lookup other = l.lookup other := by
  induction l with
  | nil => rfl
  | cons p l ih =>
    obtain ⟨n, v⟩ := p
    unfold remove at ih ⊢
    by_cases hn : n = name
    · have hb : (other == n) = false := beq_eq_false_iff_ne.2 (hn ▸ h)
      rw [List.filter_cons_of_neg (by simp [hn]), ih, List.lookup_cons, hb]
    · rw [List.filter_cons_of_pos (by simp [hn]), List.lookup_cons, List.lookup_cons, ih]

theorem findIdx?_eq_some_iff (hnodup : (l.map (·.1)).Nodup) :
    l.findIdx? (·.1 = name) = some i ↔ ∃ value, l[i]? = some (name, value) := by
  rw [List.findIdx?_eq_some_iff_getElem]
  constructor
  · rintro ⟨hi, hname, -⟩
    obtain rfl : l[i].1 = name := by simpa using hname
    exact ⟨l[i].2, List.getElem?_eq_getElem hi⟩
  · rintro ⟨value, hvalue⟩
    obtain ⟨hi, hget⟩ := List.getElem?_eq_some_iff.1 hvalue
    refine ⟨hi, by simp [hget], fun j hji => ?_⟩
    have hne := List.pairwise_iff_getElem.1 hnodup j i (by simp; omega) (by simpa using hi) hji
    simpa [hget] using hne

/-! ### Names of a class -/

section Among

variable (among : String → Bool)

/-- Putting a name changes nothing about the pairs of a class of names to which it does not
belong. -/
theorem filter_put (h : among name = false) (value : Value) (l : Listing) :
    (put name value l).filter (fun p => among p.1) = l.filter (fun p => among p.1) := by
  induction l with
  | nil => simp [put, h]
  | cons p l ih =>
    by_cases hp : p.1 = name
    · simp [put, hp, h]
    · rw [put, if_neg hp, List.filter_cons, List.filter_cons, ih]

theorem filter_remove (h : among name = false) (l : Listing) :
    (remove name l).filter (fun p => among p.1) = l.filter (fun p => among p.1) := by
  unfold remove
  rw [List.filter_filter]
  refine List.filter_congr fun p _ => ?_
  by_cases hp : p.1 = name <;> simp [hp, h]

theorem lookup_filter (h : among name = true) (l : Listing) :
    (l.filter fun p => among p.1).lookup name = l.lookup name := by
  induction l with
  | nil => rfl
  | cons p l ih =>
    obtain ⟨n, v⟩ := p
    by_cases hn : among n = true
    · rw [List.filter_cons, if_pos hn, List.lookup_cons, List.lookup_cons, ih]
    · have hne : (name == n) = false := beq_eq_false_iff_ne.2 fun heq => hn (heq ▸ h)
      rw [List.filter_cons, if_neg hn, ih, List.lookup_cons, hne]

end Among

end Listing

/-! ## Entries of a store -/

namespace Store

variable (s : Store)

theorem getElem?_toList (i : Nat) : s.toList[i]? = s.entries[i]? := Array.getElem?_toList

/-- No name has two entries, for it has one slot. -/
theorem nodup_names : s.names.Nodup := by
  unfold names
  rw [List.Nodup, List.pairwise_iff_getElem]
  intro i j hi hj hij heq
  simp only [List.length_map] at hi hj
  simp only [List.getElem_map] at heq
  have hslot : ∀ k (hk : k < s.toList.length), s.slots[(s.toList[k]).1]? = some k := by
    intro k hk
    rw [s.slots_iff, ← getElem?_toList, List.getElem?_eq_getElem hk]
    exact ⟨_, rfl⟩
  have hi' := hslot i hi
  rw [heq, hslot j hj, Option.some.injEq] at hi'
  omega

/-- The slot of a name is its place among the entries, and no other name has a slot. -/
theorem slots_eq_findIdx? (name : String) :
    s.slots[name]? = s.toList.findIdx? (·.1 = name) := by
  refine Option.ext fun i => ?_
  rw [s.slots_iff, Listing.findIdx?_eq_some_iff s.nodup_names, getElem?_toList]

theorem slots_eq_none_iff (name : String) : s.slots[name]? = none ↔ name ∉ s.names := by
  rw [slots_eq_findIdx?, List.findIdx?_eq_none_iff]
  simp only [names, List.mem_map, not_exists, not_and, decide_eq_false_iff_not]

theorem get?_eq_lookup (name : String) : s.get? name = s.toList.lookup name := by
  refine Option.ext fun value => ?_
  rw [get?_eq_some_iff, Listing.lookup_eq_some_iff_mem s.nodup_names, List.mem_iff_getElem?]
  simp only [getElem?_toList]

theorem contains_iff_mem (name : String) : s.contains name = true ↔ name ∈ s.names := by
  have hnone := s.slots_eq_none_iff name
  rw [contains, Std.TreeMap.contains_eq_isSome_getElem?, Option.isSome_iff_ne_none, ne_eq, hnone,
    Decidable.not_not]

theorem toList_set (name : String) (value : Value) :
    (s.set name value).toList = Listing.put name value s.toList := by
  unfold set
  split
  · rename_i i hslot
    obtain ⟨old, hold⟩ := (s.slots_iff name i).1 hslot
    rw [← getElem?_toList] at hold
    rw [Listing.put_of_getElem? s.nodup_names hold]
    simp [toList]
  · rename_i hslot
    rw [Listing.put_of_not_mem ((s.slots_eq_none_iff name).1 hslot)]
    simp [toList]

theorem toList_dropAt {α : Type} (xs : Array α) (i : Nat) :
    (dropAt xs i).toList = xs.toList.eraseIdx i := by
  have hrest : (xs.toList.drop (i + 1)).take (xs.size - (i + 1)) = xs.toList.drop (i + 1) :=
    List.take_of_length_le (by simp)
  simp [dropAt, List.eraseIdx_eq_take_drop_succ, hrest]

/-- Taking a name away tells whether it was listed and removes it from the listing. -/
theorem unset_eq (name : String) :
    (s.unset name).1 = decide (name ∈ s.names) ∧
      (s.unset name).2.toList = Listing.remove name s.toList := by
  unfold unset
  split
  · rename_i hslot
    have hnot := (s.slots_eq_none_iff name).1 hslot
    exact ⟨by simp [hnot], (Listing.remove_of_not_mem hnot).symm⟩
  · rename_i i hslot
    obtain ⟨value, hvalue⟩ := (s.slots_iff name i).1 hslot
    rw [← getElem?_toList] at hvalue
    have hmem : name ∈ s.names := List.mem_map_of_mem (List.mem_of_getElem? hvalue)
    refine ⟨by simp [hmem], ?_⟩
    rw [Listing.remove_of_getElem? s.nodup_names hvalue]
    exact toList_dropAt s.entries i

theorem toList_erase (name : String) : (s.erase name).toList = Listing.remove name s.toList :=
  (s.unset_eq name).2

theorem get?_erase_self (name : String) : (s.erase name).get? name = none := by
  rw [get?_eq_lookup, toList_erase, Listing.lookup_remove_self]

theorem get?_erase_ne {name other : String} (h : other ≠ name) :
    (s.erase name).get? other = s.get? other := by
  rw [get?_eq_lookup, get?_eq_lookup, toList_erase, Listing.lookup_remove_ne h]

theorem get?_foldl_erase_of_not_mem {names : List String} {name : String} (h : name ∉ names) :
    (names.foldl erase s).get? name = s.get? name := by
  induction names generalizing s with
  | nil => rfl
  | cons other names ih =>
    simp only [List.mem_cons, not_or] at h
    rw [List.foldl_cons, ih _ h.2, get?_erase_ne _ h.1]

theorem get?_foldl_erase_of_mem {names : List String} {name : String} (h : name ∈ names) :
    (names.foldl erase s).get? name = none := by
  induction names generalizing s with
  | nil => simp at h
  | cons other names ih =>
    rw [List.foldl_cons]
    by_cases hmem : name ∈ names
    · exact ih _ hmem
    · obtain rfl : name = other := (List.mem_cons.1 h).resolve_right hmem
      rw [get?_foldl_erase_of_not_mem _ hmem, get?_erase_self]

theorem contains_eq_isSome (name : String) : s.contains name = (s.get? name).isSome := by
  rw [Bool.eq_iff_iff, contains_iff_mem, get?_eq_lookup, Option.isSome_iff_ne_none, ne_eq,
    List.lookup_eq_none_iff]
  simp [names]

theorem toList_setAll (pairs : List (String × Value)) :
    (s.setAll pairs).toList = Listing.putAll pairs s.toList := by
  induction pairs generalizing s with
  | nil => rfl
  | cons p pairs ih =>
    show ((s.set p.1 p.2).setAll pairs).toList = _
    rw [ih, toList_set]
    rfl

section Among

variable (among : String → Bool)

theorem filter_setAll {pairs : List (String × Value)} (h : ∀ p ∈ pairs, among p.1 = false) :
    (s.setAll pairs).toList.filter (fun p => among p.1) =
      s.toList.filter fun p => among p.1 := by
  induction pairs generalizing s with
  | nil => rfl
  | cons p pairs ih =>
    obtain ⟨hp, hpairs⟩ := List.forall_mem_cons.1 h
    show ((s.set p.1 p.2).setAll pairs).toList.filter _ = _
    rw [ih _ hpairs, toList_set, Listing.filter_put among hp]

theorem filter_foldl_erase {names : List String} (h : ∀ name ∈ names, among name = false) :
    (names.foldl erase s).toList.filter (fun p => among p.1) =
      s.toList.filter fun p => among p.1 := by
  induction names generalizing s with
  | nil => rfl
  | cons name names ih =>
    obtain ⟨hname, hnames⟩ := List.forall_mem_cons.1 h
    rw [List.foldl_cons, ih _ hnames, toList_erase, Listing.filter_remove among hname]

/-- Stores that agree on the pairs of a class of names agree on the values of these. -/
theorem get?_eq_of_filter_eq {t : Store} {name : String} (hname : among name = true)
    (h : s.toList.filter (fun p => among p.1) = t.toList.filter fun p => among p.1) :
    s.get? name = t.get? name := by
  rw [get?_eq_lookup, ← Listing.lookup_filter among hname, h, Listing.lookup_filter among hname,
    ← get?_eq_lookup]

end Among

/-! ### Setting again

Whether the pairs that another store has come to are set, or all that was set in it is set again,
the same store is reached: its entries and its slots. -/

section Again

variable {s} {name other : String}

theorem eq_of_entries {t : Store} (hentries : s.entries = t.entries) (hslots : s.slots = t.slots) :
    s = t := by
  cases s
  cases t
  rw [mk.injEq]
  exact ⟨hentries, hslots⟩

/-- A variable that is set keeps its slot when it is set again. -/
theorem set_of_slot {i : Nat} (h : s.slots[name]? = some i) (value : Value) :
    (s.set name value).entries = s.entries.set i (name, value) (slot_lt h) ∧
      (s.set name value).slots = s.slots := by
  unfold set
  split
  · rename_i j hj
    obtain rfl := Option.some.inj (hj.symm.trans h)
    exact ⟨rfl, rfl⟩
  · rename_i hnone
    nomatch hnone.symm.trans h

theorem set_of_new (h : s.slots[name]? = none) (value : Value) :
    (s.set name value).entries = s.entries.push (name, value) ∧
      (s.set name value).slots = s.slots.insert name s.entries.size := by
  unfold set
  split
  · rename_i hslot
    nomatch hslot.symm.trans h
  · exact ⟨rfl, rfl⟩

variable (s) in
theorem slots_set_ne (h : other ≠ name) (value : Value) :
    (s.set other value).slots[name]? = s.slots[name]? := by
  cases hslot : s.slots[other]? with
  | some i => rw [(set_of_slot hslot value).2]
  | none => rw [(set_of_new hslot value).2, Std.TreeMap.getElem?_insert, if_neg (by simpa using h)]

theorem exists_slot (h : name ∈ s.names) : ∃ i, s.slots[name]? = some i := by
  rw [← Option.ne_none_iff_exists', ne_eq, slots_eq_none_iff, Decidable.not_not]
  exact h

theorem mem_names_set (h : name ∈ s.names) (other : String) (value : Value) :
    name ∈ (s.set other value).names := by
  rw [← contains_iff_mem, contains_eq_isSome] at h ⊢
  by_cases hne : name = other
  · rw [hne, get?_set_self]
    rfl
  · rwa [get?_set_ne _ value hne]

variable (s) in
/-- Of two values that a variable is given one after the other the second holds. -/
theorem set_set_self (name : String) (first second : Value) :
    (s.set name first).set name second = s.set name second := by
  cases h : s.slots[name]? with
  | some i =>
    obtain ⟨hfirst, hfirstSlots⟩ := set_of_slot h first
    obtain ⟨hdirect, hdirectSlots⟩ := set_of_slot h second
    obtain ⟨hagain, hagainSlots⟩ := set_of_slot (hfirstSlots ▸ h) second
    refine eq_of_entries ?_ ?_
    · simp only [hagain, hdirect, hfirst, Array.set_set]
    · rw [hagainSlots, hdirectSlots, hfirstSlots]
  | none =>
    obtain ⟨hfirst, hfirstSlots⟩ := set_of_new h first
    obtain ⟨hdirect, hdirectSlots⟩ := set_of_new h second
    have hslot : (s.set name first).slots[name]? = some s.entries.size := by
      rw [hfirstSlots, Std.TreeMap.getElem?_insert_self]
    obtain ⟨hagain, hagainSlots⟩ := set_of_slot hslot second
    refine eq_of_entries ?_ ?_
    · simp only [hagain, hdirect, hfirst]
      rw [Array.set_push, dif_neg (Nat.lt_irrefl _)]
    · rw [hagainSlots, hdirectSlots, hfirstSlots]

/-- A variable that is set may be given its value before or after another variable is set. -/
theorem set_comm (h : name ∈ s.names) (hne : other ≠ name) (value otherValue : Value) :
    (s.set other otherValue).set name value = (s.set name value).set other otherValue := by
  obtain ⟨i, hi⟩ := exists_slot h
  obtain ⟨hset, hsetSlots⟩ := set_of_slot hi value
  obtain ⟨hlast, hlastSlots⟩ := set_of_slot ((s.slots_set_ne hne otherValue).trans hi) value
  have hkept : (s.set name value).slots[other]? = s.slots[other]? := s.slots_set_ne hne.symm value
  cases hj : s.slots[other]? with
  | some j =>
    obtain ⟨hother, hotherSlots⟩ := set_of_slot hj otherValue
    obtain ⟨hother', hotherSlots'⟩ := set_of_slot (hkept.trans hj) otherValue
    have hij : j ≠ i := by
      rintro rfl
      obtain ⟨v, hv⟩ := (s.slots_iff other j).1 hj
      exact hne (name_eq_of_slot hi hv)
    refine eq_of_entries ?_ ?_
    · simp only [hlast, hother', hother, hset]
      exact Array.set_comm _ _ hij
    · rw [hlastSlots, hotherSlots', hotherSlots, hsetSlots]
  | none =>
    obtain ⟨hother, hotherSlots⟩ := set_of_new hj otherValue
    obtain ⟨hother', hotherSlots'⟩ := set_of_new (hkept.trans hj) otherValue
    refine eq_of_entries ?_ ?_
    · simp only [hlast, hother', hother, hset]
      rw [Array.set_push, dif_pos (slot_lt hi)]
    · rw [hlastSlots, hotherSlots', hotherSlots, hsetSlots, hset, Array.size_set]

/-- A variable that is set may be given its value before or after others are set. -/
theorem set_setAll_comm {l : Listing} (h : name ∈ s.names) (hl : name ∉ l.map (·.1))
    (value : Value) : (s.setAll l).set name value = (s.set name value).setAll l := by
  induction l generalizing s with
  | nil => rfl
  | cons p l ih =>
    rw [List.map_cons, List.mem_cons, not_or] at hl
    show ((s.set p.1 p.2).setAll l).set name value = ((s.set name value).set p.1 p.2).setAll l
    rw [ih (mem_names_set h p.1 p.2) hl.2, set_comm h (Ne.symm hl.1)]

theorem setAll_put {l : Listing} (hnodup : (l.map (·.1)).Nodup) (value : Value) :
    s.setAll (Listing.put name value l) = (s.setAll l).set name value := by
  induction l generalizing s with
  | nil => rfl
  | cons p l ih =>
    rw [List.map_cons, List.nodup_cons] at hnodup
    unfold Listing.put
    split
    · rename_i hp
      subst hp
      have hset : p.1 ∈ (s.set p.1 p.2).names := by
        rw [← contains_iff_mem, contains_eq_isSome, get?_set_self]
        rfl
      show (s.set p.1 value).setAll l = ((s.set p.1 p.2).setAll l).set p.1 value
      rw [set_setAll_comm hset hnodup.1, set_set_self]
    · exact ih hnodup.2

variable (s) in
/-- To set in another store before its pairs are set here is to set here afterwards. -/
theorem setAll_toList_set (t : Store) (name : String) (value : Value) :
    s.setAll (t.set name value).toList = (s.setAll t.toList).set name value := by
  rw [toList_set, setAll_put t.nodup_names]

end Again

end Store

/-! ## Changes one after the other -/

/-- What an owner of a store may do to its variables. -/
inductive Change where
  | set (name : String) (value : Value)
  | unset (name : String)
  | setAll (pairs : List (String × Value))
  /-- Starts anew with these variables. -/
  | ofList (pairs : List (String × Value))

namespace Change

/-- The store after a change, and whether an unset variable had been set. -/
def onStore (s : Store) : Change → Option Bool × Store
  | .set name value => (none, s.set name value)
  | .unset name => ((s.unset name).1, (s.unset name).2)
  | .setAll pairs => (none, s.setAll pairs)
  | .ofList pairs => (none, .ofList pairs)

/-- The listing after a change, and whether an unset name had been listed. -/
def onListing (l : Listing) : Change → Option Bool × Listing
  | .set name value => (none, Listing.put name value l)
  | .unset name => (decide (name ∈ l.map (·.1)), Listing.remove name l)
  | .setAll pairs => (none, Listing.putAll pairs l)
  | .ofList pairs => (none, Listing.putAll pairs [])

/-- Makes changes one after the other, and keeps their answers. -/
def run {σ : Type} (apply : σ → Change → Option Bool × σ) (s : σ) :
    List Change → List (Option Bool) × σ
  | [] => ([], s)
  | change :: changes =>
    let (answer, next) := apply s change
    let (answers, last) := run apply next changes
    (answer :: answers, last)

theorem onStore_eq (s : Store) (change : Change) :
    (onStore s change).1 = (onListing s.toList change).1 ∧
      (onStore s change).2.toList = (onListing s.toList change).2 := by
  cases change with
  | set name value => exact ⟨rfl, s.toList_set name value⟩
  | unset name =>
    obtain ⟨hfound, hlist⟩ := s.unset_eq name
    exact ⟨congrArg some hfound, hlist⟩
  | setAll pairs => exact ⟨rfl, s.toList_setAll pairs⟩
  | ofList pairs => exact ⟨rfl, Store.empty.toList_setAll pairs⟩

theorem run_onStore (s : Store) (changes : List Change) :
    (run onStore s changes).1 = (run onListing s.toList changes).1 ∧
      (run onStore s changes).2.toList = (run onListing s.toList changes).2 := by
  induction changes generalizing s with
  | nil => exact ⟨rfl, rfl⟩
  | cons change changes ih =>
    obtain ⟨hanswer, hnext⟩ := onStore_eq s change
    obtain ⟨hanswers, hlast⟩ := ih (onStore s change).2
    simp only [run]
    rw [hanswer, hanswers, hlast, hnext]
    exact ⟨rfl, rfl⟩

end Change

/-- After any changes from the empty store, the store and the listing have given the same answers
and hold the same pairs in the same order, with every name once; a name has its place in the listing
for its slot, which is within the entries, and a name that is not listed has none; and whatever is
asked of the store is answered from the listing. -/
theorem changes_refine_listing (changes : List Change) :
    let s := (Change.run Change.onStore ∅ changes).2
    let l := (Change.run Change.onListing [] changes).2
    (Change.run Change.onStore ∅ changes).1 = (Change.run Change.onListing [] changes).1 ∧
    s.toList = l ∧
    (l.map (·.1)).Nodup ∧
    (∀ name, s.slots[name]? = l.findIdx? (·.1 = name)) ∧
    (∀ (name : String) (i : Nat), s.slots[name]? = some i → i < s.entries.size) ∧
    (∀ name, s.get? name = l.lookup name) ∧
    (∀ name, s.contains name = decide (name ∈ l.map (·.1))) ∧
    s.size = l.length ∧
    s.isEmpty = l.isEmpty := by
  intro s l
  obtain ⟨hanswers, hlist⟩ := Change.run_onStore ∅ changes
  have hl : s.toList = l := hlist
  refine ⟨hanswers, hl, hl ▸ s.nodup_names, ?_, fun name i h => Store.slot_lt h, ?_, ?_, ?_, ?_⟩
  · intro name
    rw [s.slots_eq_findIdx?, hl]
  · intro name
    rw [s.get?_eq_lookup, hl]
  · intro name
    rw [Bool.eq_iff_iff, s.contains_iff_mem, decide_eq_true_iff, ← hl]
    rfl
  · rw [← hl]
    rfl
  · rw [← hl]
    simp [Store.isEmpty, Store.toList]

end Runbook
