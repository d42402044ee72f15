import Runbook.Catalog.Table
import Runbook.Proofs.Catalog.Lookup
import Runbook.Proofs.Text.ByteOrder

/-!
# Offers to catalogs

Commands are offered to a catalog one at a time or in batches. What becomes of an offer depends only
on the names that are held already (`Takes`): a command is entered just if its name is new, and of a
batch the commands before the first one whose name is taken are, be it taken from before or by the
batch itself.

Whatever is offered in whatever order, a catalog that was empty holds what was entered and serves
just that (`first_offer_wins`), and so does a table. The table has no order of its own: its list is
in order since no two names are the same.
-/

namespace Runbook

/-- What is offered to a catalog at once. -/
inductive Offer where
  | one (command : Command)
  | batch (commands : List Command)

namespace Offer

variable {σ τ : Type}

/-- The state that offers leave, made one after the other, and the answers to them. -/
def run (take : σ → Offer → σ × Option CatalogError) (s : σ) :
    List Offer → σ × List (Option CatalogError)
  | [] => (s, [])
  | offer :: offers =>
    let (s, answer) := take s offer
    let (s, answers) := run take s offers
    (s, answer :: answers)

/-- What one offer preserves, with the same answer on both sides, a row of offers does. -/
theorem run_rel {take : σ → Offer → σ × Option CatalogError}
    {take' : τ → Offer → τ × Option CatalogError} {R : σ → τ → Prop}
    (hstep : ∀ {s t}, R s t → ∀ offer,
      (take s offer).2 = (take' t offer).2 ∧ R (take s offer).1 (take' t offer).1)
    {s : σ} {t : τ} (h : R s t) (offers : List Offer) :
    (run take s offers).2 = (run take' t offers).2 ∧
      R (run take s offers).1 (run take' t offers).1 := by
  induction offers generalizing s t with
  | nil => exact ⟨rfl, h⟩
  | cons offer offers ih =>
    obtain ⟨hanswer, hnext⟩ := hstep h offer
    obtain ⟨hanswers, hlast⟩ := ih hnext
    exact ⟨by simp only [run, hanswer, hanswers], hlast⟩

end Offer

namespace Catalog

variable {c : Catalog} {name : String} {command : Command} {held next : List Command}

/-! ## What becomes of an offer -/

/-- The answer to an offer where some commands are held, and the commands that are held then. -/
inductive Takes (held : List Command) : Offer → Option CatalogError → List Command → Prop
  | entered {command : Command} (h : command.name ∉ held.map (·.name)) :
    Takes held (.one command) none (held ++ [command])
  | refused {command : Command} (h : command.name ∈ held.map (·.name)) :
    Takes held (.one command) (some (.duplicate command.name)) held
  | whole {commands : List Command} (h : ((held ++ commands).map (·.name)).Nodup) :
    Takes held (.batch commands) none (held ++ commands)
  | before {front rest : List Command} {command : Command}
      (h : ((held ++ front).map (·.name)).Nodup)
      (htaken : command.name ∈ (held ++ front).map (·.name)) :
    Takes held (.batch (front ++ command :: rest)) (some (.duplicate command.name)) (held ++ front)

/-- The answers to a row of offers where some commands are held, and the commands that are held
after it. -/
inductive TakesAll :
    List Command → List Offer → List (Option CatalogError) → List Command → Prop
  | nil {held : List Command} : TakesAll held [] [] held
  | cons {held next last : List Command} {offer : Offer} {offers : List Offer}
      {answer : Option CatalogError} {answers : List (Option CatalogError)}
      (h : Takes held offer answer next) (hrest : TakesAll next offers answers last) :
    TakesAll held (offer :: offers) (answer :: answers) last

/-- Takes an offer, as far as the names allow. -/
def take (c : Catalog) : Offer → Catalog × Option CatalogError
  | .one command =>
    match c.add command with
    | .ok added => (added, none)
    | .error e => (c, some e)
  | .batch commands => c.addAll commands

/-- A batch is entered as long as the names are new. -/
theorem addAll_append {front : List Command}
    (h : ((c.commands ++ front).map (·.name)).Nodup) (rest : List Command) :
    ∃ added : Catalog, added.commands = c.commands ++ front ∧
      c.addAll (front ++ rest) = added.addAll rest := by
  induction front generalizing c with
  | nil => exact ⟨c, by simp, rfl⟩
  | cons command front ih =>
    have hnew : c.contains command.name = false := by
      rw [← Bool.not_eq_true, contains_iff_mem]
      intro hmem
      rw [List.map_append, List.nodup_append] at h
      exact h.2.2 _ hmem _ (by simp) rfl
    obtain ⟨one, hadd, hone⟩ := exists_add hnew
    have hcommands : one.commands ++ front = c.commands ++ command :: front := by simp [hone]
    obtain ⟨added, hadded, hrest⟩ := ih (c := one) (hcommands ▸ h)
    refine ⟨added, hadded.trans hcommands, ?_⟩
    rw [List.cons_append, addAll, hadd]
    exact hrest

theorem addAll_of_contains (h : c.contains command.name = true) (rest : List Command) :
    c.addAll (command :: rest) = (c, some (.duplicate command.name)) := by
  rw [addAll, add_of_contains h]

/-- What a catalog makes of an offer is the only thing that can be made of it. -/
theorem Takes.take_eq {offer : Offer} {answer : Option CatalogError}
    (h : Takes c.commands offer answer next) :
    (c.take offer).2 = answer ∧ (c.take offer).1.commands = next := by
  cases h with
  | @entered command hnew =>
    rw [← contains_iff_mem, Bool.not_eq_true] at hnew
    obtain ⟨added, hadd, hadded⟩ := exists_add hnew
    simp only [take, hadd, hadded, and_self]
  | @refused command htaken =>
    simp only [take, add_of_contains (contains_iff_mem.2 htaken), and_self]
  | @whole commands hnodup =>
    obtain ⟨added, hadded, hall⟩ := addAll_append hnodup []
    rw [List.append_nil] at hall
    simp only [take, hall, addAll, hadded, and_self]
  | @before front rest command hnodup htaken =>
    obtain ⟨added, hadded, hall⟩ := addAll_append hnodup (command :: rest)
    rw [← hadded, ← contains_iff_mem] at htaken
    simp only [take, hall, addAll_of_contains htaken, hadded, and_self]

/-- A batch is entered up to an end that the names give. -/
theorem takes_batch (c : Catalog) (commands : List Command) :
    ∃ answer next, Takes c.commands (.batch commands) answer next := by
  -- The longest front whose names are new, from the end of the batch.
  suffices ∀ front rest : List Command, ((c.commands ++ front).map (·.name)).Nodup →
      ∃ answer next, Takes c.commands (.batch (front ++ rest)) answer next from
    this [] commands (by simpa using c.nodup)
  intro front rest hnodup
  induction rest generalizing front with
  | nil =>
    rw [List.append_nil]
    exact ⟨_, _, .whole hnodup⟩
  | cons command rest ih =>
    by_cases htaken : command.name ∈ (c.commands ++ front).map (·.name)
    · exact ⟨_, _, .before hnodup htaken⟩
    · have hmore : ((c.commands ++ (front ++ [command])).map (·.name)).Nodup := by
        rw [← List.append_assoc, List.map_append, List.nodup_append]
        refine ⟨hnodup, by simp, ?_⟩
        rintro _ hmem _ hlast rfl
        obtain rfl : _ = command.name := by simpa using hlast
        exact htaken hmem
      simpa using ih _ hmore

theorem exists_takes (c : Catalog) (offer : Offer) :
    ∃ answer next, Takes c.commands offer answer next := by
  cases offer with
  | one command =>
    by_cases h : command.name ∈ c.commands.map (·.name)
    · exact ⟨_, _, .refused h⟩
    · exact ⟨_, _, .entered h⟩
  | batch commands => exact takes_batch c commands

theorem takes_take (c : Catalog) (offer : Offer) :
    Takes c.commands offer (c.take offer).2 (c.take offer).1.commands := by
  obtain ⟨answer, next, h⟩ := exists_takes c offer
  obtain ⟨rfl, rfl⟩ := h.take_eq
  exact h

theorem takesAll_iff {offers : List Offer} {answers : List (Option CatalogError)} :
    TakesAll c.commands offers answers held ↔
      answers = (Offer.run take c offers).2 ∧ held = (Offer.run take c offers).1.commands := by
  induction offers generalizing c answers with
  | nil =>
    constructor
    · rintro ⟨⟩
      exact ⟨rfl, rfl⟩
    · rintro ⟨rfl, rfl⟩
      exact .nil
  | cons offer offers ih =>
    constructor
    · rintro (_ | ⟨hone, hrest⟩)
      obtain ⟨rfl, rfl⟩ := hone.take_eq
      obtain ⟨rfl, rfl⟩ := ih.1 hrest
      exact ⟨rfl, rfl⟩
    · rintro ⟨rfl, rfl⟩
      exact .cons (takes_take c offer) (ih.2 ⟨rfl, rfl⟩)

/-! ## What is served -/

/-- Those who look into a catalog find just the commands that were accepted. -/
structure Serves (accepted : List Command) (resolve : String → Except CatalogError Command)
    (contains : String → Bool) (size : Nat) (listed : List Command) : Prop where
  nodup : (accepted.map (·.name)).Nodup
  resolve_ok : ∀ name command,
    resolve name = .ok command ↔ command ∈ accepted ∧ command.name = name
  resolve_error : ∀ name e,
    resolve name = .error e ↔ name ∉ accepted.map (·.name) ∧ e = .unknown name
  contains_iff : ∀ name, contains name = true ↔ name ∈ accepted.map (·.name)
  size_eq : size = accepted.length
  perm : listed.Perm accepted
  ascending : listed.Pairwise fun a b => Text.utf8 a.name < Text.utf8 b.name

theorem pairwise_mergeSort (commands : List Command) :
    (commands.mergeSort fun a b => a.name ≤ b.name).Pairwise fun a b => a.name ≤ b.name := by
  refine (List.pairwise_mergeSort ?_ ?_ commands).imp of_decide_eq_true
  · intro a b d hab hbd
    exact decide_eq_true (String.le_trans (of_decide_eq_true hab) (of_decide_eq_true hbd))
  · intro a b
    rw [Bool.or_eq_true, decide_eq_true_eq, decide_eq_true_eq]
    exact String.le_total a.name b.name

theorem ascending_sorted (c : Catalog) :
    c.sorted.Pairwise fun a b => Text.utf8 a.name < Text.utf8 b.name := by
  have hperm : c.sorted.Perm c.commands := List.mergeSort_perm ..
  have hnodup : c.sorted.Pairwise fun a b => a.name ≠ b.name :=
    List.pairwise_map.1 ((hperm.map _).nodup_iff.2 c.nodup)
  refine ((pairwise_mergeSort c.commands).and hnodup).imp fun {a b} h => ?_
  rw [Text.utf8_lt_iff, ← String.not_le]
  exact fun hle => h.2 (String.le_antisymm h.1 hle)

/-- Whatever the order in which they come, the commands of a catalog make one list in the order of
their names. -/
theorem mergeSort_eq_sorted {commands : List Command} (h : commands.Perm c.commands) :
    commands.mergeSort (fun a b => a.name ≤ b.name) = c.sorted := by
  have hperm : (commands.mergeSort fun a b => a.name ≤ b.name).Perm c.sorted :=
    (List.mergeSort_perm ..).trans (h.trans (List.mergeSort_perm ..).symm)
  refine hperm.eq_of_pairwise ?_ (pairwise_mergeSort _) (pairwise_mergeSort _)
  intro a b ha hb hab hba
  have hmem := List.mem_mergeSort.1 hb
  exact eq_of_name_eq (h.mem_iff.1 (List.mem_mergeSort.1 ha)) hmem (String.le_antisymm hab hba)

theorem find?_eq_none_iff : c.find? name = none ↔ name ∉ c.commands.map (·.name) := by
  rw [← contains_iff_mem, contains_eq_isSome, Option.not_isSome_iff_eq_none]

theorem resolve_eq_ok_iff : c.resolve name = .ok command ↔ c.find? name = some command := by
  unfold resolve
  cases c.find? name <;> simp

theorem resolve_eq_error_iff {e : CatalogError} :
    c.resolve name = .error e ↔ c.find? name = none ∧ e = .unknown name := by
  unfold resolve
  cases c.find? name <;> simp [eq_comm]

theorem serves (c : Catalog) : Serves c.commands c.resolve c.contains c.size c.sorted where
  nodup := c.nodup
  resolve_ok _ _ := resolve_eq_ok_iff.trans find?_eq_some_iff
  resolve_error _ _ := by rw [resolve_eq_error_iff, find?_eq_none_iff]
  contains_iff _ := contains_iff_mem
  size_eq := rfl
  perm := List.mergeSort_perm ..
  ascending := c.ascending_sorted

/-! ## Tables -/

namespace Table

variable {t : Table}

/-- Takes an offer, as far as the names allow. -/
def take (t : Table) : Offer → Table × Option CatalogError
  | .one command => t.add command
  | .batch commands => t.addAll commands

/-- A table has the commands of a catalog under their names. -/
def Mirrors (t : Table) (c : Catalog) : Prop := ∀ name, t.commands[name]? = c.find? name

theorem mirrors_empty : Mirrors ∅ ∅ := fun _ => Std.HashMap.getElem?_empty

namespace Mirrors

theorem contains_eq (h : Mirrors t c) : t.contains = c.contains := by
  funext name
  rw [contains, Std.HashMap.contains_eq_isSome_getElem?, h, contains_eq_isSome]

theorem resolve_eq (h : Mirrors t c) : t.resolve = c.resolve := by
  funext name
  cases hfind : c.find? name <;> simp [resolve, Catalog.resolve, h name, hfind]

/-- Both refuse a command, or both enter it. -/
theorem add (h : Mirrors t c) (command : Command) :
    (t.add command = (t, some (.duplicate command.name)) ∧
      c.add command = .error (.duplicate command.name)) ∨
    ∃ (t' : Table) (c' : Catalog), t.add command = (t', none) ∧ c.add command = .ok c' ∧
      Mirrors t' c' := by
  by_cases htaken : c.contains command.name = true
  · exact .inl ⟨by rw [Table.add, h.contains_eq, if_pos htaken], add_of_contains htaken⟩
  · have hnew : c.contains command.name = false := by simpa using htaken
    have hnone : c.find? command.name = none := by
      rwa [contains_eq_isSome, Option.isSome_eq_false_iff, Option.isNone_iff_eq_none] at hnew
    obtain ⟨added, hadd, hadded⟩ := exists_add hnew
    refine .inr ⟨⟨t.commands.insert command.name command⟩, added, ?_, hadd, fun name => ?_⟩
    · rw [Table.add, h.contains_eq, if_neg htaken]
    · rw [Std.HashMap.getElem?_insert, h, find?_of_append hadded]
      by_cases hname : command.name = name
      · subst hname
        simp [hnone]
      · simp [hname]

theorem addAll (h : Mirrors t c) (commands : List Command) :
    (t.addAll commands).2 = (c.addAll commands).2 ∧
      Mirrors (t.addAll commands).1 (c.addAll commands).1 := by
  induction commands generalizing t c with
  | nil => exact ⟨rfl, h⟩
  | cons command commands ih =>
    rw [Table.addAll, Catalog.addAll]
    obtain ⟨ht, hc⟩ | ⟨t', c', ht, hc, hnext⟩ := h.add command
    · rw [ht, hc]
      exact ⟨rfl, h⟩
    · rw [ht, hc]
      exact ih hnext

theorem take (h : Mirrors t c) (offer : Offer) :
    (t.take offer).2 = (c.take offer).2 ∧ Mirrors (t.take offer).1 (c.take offer).1 := by
  cases offer with
  | one command =>
    simp only [Table.take, Catalog.take]
    obtain ⟨ht, hc⟩ | ⟨t', c', ht, hc, hnext⟩ := h.add command
    · rw [ht, hc]
      exact ⟨rfl, h⟩
    · rw [ht, hc]
      exact ⟨rfl, hnext⟩
  | batch commands => exact h.addAll commands

theorem mem_values_iff (h : Mirrors t c) : command ∈ t.values ↔ command ∈ c.commands := by
  unfold values
  rw [List.mem_map]
  constructor
  · rintro ⟨⟨name, found⟩, hmem, rfl⟩
    rw [Std.HashMap.mem_toList_iff_getElem?_eq_some, h] at hmem
    exact (find?_eq_some_iff.1 hmem).1
  · intro hmem
    refine ⟨(command.name, command), ?_, rfl⟩
    rw [Std.HashMap.mem_toList_iff_getElem?_eq_some, h]
    exact find?_eq_some_iff.2 ⟨hmem, rfl⟩

/-- The values of a table are named as their keys are, so no two have the same name. -/
theorem nodup_values (h : Mirrors t c) : t.values.Nodup := by
  have hkeys : t.values.map (·.name) = t.commands.keys := by
    unfold values
    rw [List.map_map, ← Std.HashMap.map_fst_toList_eq_keys]
    refine List.map_congr_left fun ⟨name, found⟩ hmem => ?_
    rw [Std.HashMap.mem_toList_iff_getElem?_eq_some, h] at hmem
    exact name_of_find? hmem
  exact .of_map (·.name) (hkeys ▸ Std.HashMap.nodup_keys)

theorem values_perm (h : Mirrors t c) : t.values.Perm c.commands :=
  (List.perm_ext_iff_of_nodup h.nodup_values (.of_map _ c.nodup)).2 fun _ => h.mem_values_iff

theorem size_eq (h : Mirrors t c) : t.size = c.size := by
  have hlength := h.values_perm.length_eq
  unfold values at hlength
  rwa [List.length_map, Std.HashMap.length_toList] at hlength

theorem sorted_eq (h : Mirrors t c) : t.sorted = c.sorted := mergeSort_eq_sorted h.values_perm

end Mirrors

end Table

/-! ## Rows of offers -/

/-- From rows of offers a catalog and a table that were empty hold the same commands, those that the
names allow, and they serve just these. The list of the table is the same in whatever order the
table hands its commands out. -/
theorem first_offer_wins (offers : List Offer) :
    let (c, answers) := Offer.run take ∅ offers
    let (t, tableAnswers) := Offer.run Table.take ∅ offers
    ∃ accepted,
      (∀ due held, TakesAll [] offers due held ↔ due = answers ∧ held = accepted) ∧
      tableAnswers = answers ∧
      Serves accepted c.resolve c.contains c.size c.sorted ∧
      Serves accepted t.resolve t.contains t.size t.sorted ∧
      ∀ values : List Command, values.Perm t.values →
        values.mergeSort (fun a b => a.name ≤ b.name) = t.sorted := by
  obtain ⟨hanswers, hmirrors⟩ := Offer.run_rel Table.Mirrors.take Table.mirrors_empty offers
  have hserves := serves (Offer.run take ∅ offers).1
  refine ⟨(Offer.run take ∅ offers).1.commands, fun _ _ => takesAll_iff (c := ∅), hanswers,
    hserves, ?_, fun values hvalues => ?_⟩
  · rwa [hmirrors.resolve_eq, hmirrors.contains_eq, hmirrors.size_eq, hmirrors.sorted_eq]
  · rw [hmirrors.sorted_eq]
    exact mergeSort_eq_sorted (hvalues.trans hmirrors.values_perm)

example : (Offer.run take ∅ [.batch Command.standard, .batch Command.standard]).2 =
    [none, some (.duplicate "UpdateStatus")] := by
  decide

end Catalog

end Runbook
