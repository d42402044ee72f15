import Runbook.Proofs.Run.Binding
import Runbook.Proofs.Store.Listing

/-!
# Arguments as variables

A command is handed its arguments in variables with reserved names, `Argument0`, `Argument1` and so
on, and their number in `ArgumentCount`. `Store.bind` writes them: it sets the arguments of the step
(`get?_bind_argument`), takes those of an earlier step away that had more of them
(`get?_bind_beyond`), and leaves the variables of every other name as they were
(`unreserved_bind`).

`HoldsArguments s n` says that the arguments which `s` holds are exactly the first `n`. Binding
makes this so for the arguments of the step, if it was so for those of the step before
(`holdsArguments_bind`); then a command reads its own arguments and no others (`argument_bound`,
`arguments_bound`).
-/

namespace Runbook

/-! ## Reserved names -/

theorem digits_argumentName (i : Nat) : (argumentName i).toList.drop 8 = Nat.toDigits 10 i := by
  unfold argumentName
  rw [String.toList_append]
  exact Nat.toList_repr

theorem argumentName_inj {i j : Nat} : argumentName i = argumentName j ↔ i = j := by
  refine ⟨fun h => ?_, congrArg argumentName⟩
  have hdigits : Nat.toDigits 10 i = Nat.toDigits 10 j := by
    rw [← digits_argumentName, h, digits_argumentName]
  rw [← Nat.ofDigitChars_ten_toDigits (n := i), hdigits, Nat.ofDigitChars_ten_toDigits]

/-- The names under which arguments and their number are handed over. -/
def Reserved (name : String) : Prop := name = argumentCountName ∨ ∃ i, name = argumentName i

theorem reserved_iff (name : String) :
    Reserved name ↔ name = argumentCountName ∨
      name = argumentName (Nat.ofDigitChars 10 (name.toList.drop 8) 0) := by
  refine or_congr_right ⟨?_, fun h => ⟨_, h⟩⟩
  rintro ⟨i, rfl⟩
  rw [digits_argumentName, Nat.ofDigitChars_ten_toDigits]

instance : DecidablePred Reserved := fun name => decidable_of_iff _ (reserved_iff name).symm

theorem reserved_argumentName (i : Nat) : Reserved (argumentName i) := .inr ⟨i, rfl⟩

theorem reserved_argumentCountName : Reserved argumentCountName := .inl rfl

/-! ## Variables of other names -/

namespace Listing

variable {l : Listing} {name : String}

/-- The pairs whose names are not reserved. -/
def unreserved (l : Listing) : Listing := l.filter fun p => ¬ Reserved p.1

theorem unreserved_cons (p : String × Value) (l : Listing) :
    unreserved (p :: l) = if Reserved p.1 then unreserved l else p :: unreserved l := by
  unfold unreserved
  by_cases h : Reserved p.1 <;> simp [h]

theorem unreserved_put (h : ¬ Reserved name) (value : Value) (l : Listing) :
    unreserved (put name value l) = put name value (unreserved l) := by
  induction l with
  | nil => simp [put, unreserved, h]
  | cons p l ih =>
    by_cases hp : p.1 = name
    · simp [put, unreserved_cons, hp, h]
    · by_cases hr : Reserved p.1
      · simp [put, unreserved_cons, hp, hr, ih]
      · simp [put, unreserved_cons, hp, hr, ih]

theorem unreserved_remove (name : String) (l : Listing) :
    unreserved (remove name l) = remove name (unreserved l) := by
  unfold unreserved remove
  rw [List.filter_filter, List.filter_filter]
  exact List.filter_congr fun p _ => Bool.and_comm _ _

theorem lookup_unreserved (h : ¬ Reserved name) (l : Listing) :
    (unreserved l).lookup name = l.lookup name :=
  lookup_filter (fun n => ¬ Reserved n) (decide_eq_true h) l

theorem mem_names_unreserved (h : ¬ Reserved name) (l : Listing) :
    name ∈ (unreserved l).map (·.1) ↔ name ∈ l.map (·.1) := by
  unfold unreserved
  simp only [List.mem_map, List.mem_filter, decide_eq_true_eq]
  constructor
  · rintro ⟨p, ⟨hp, -⟩, rfl⟩
    exact ⟨p, hp, rfl⟩
  · rintro ⟨p, hp, rfl⟩
    exact ⟨p, ⟨hp, h⟩, rfl⟩

end Listing

/-! ## Binding -/

theorem Invocation.length_texts (inv : Invocation) (lookup : String → Option String) :
    (inv.texts lookup).length = inv.arguments.length :=
  List.length_map _

namespace Store

variable (s : Store)

/-- The variables whose names are not reserved, in order. -/
def unreserved : Listing := Listing.unreserved s.toList

theorem unreserved_set {name : String} (h : ¬ Reserved name) (value : Value) :
    (s.set name value).unreserved = Listing.put name value s.unreserved := by
  unfold unreserved
  rw [toList_set, Listing.unreserved_put h]

theorem unreserved_erase (name : String) :
    (s.erase name).unreserved = Listing.remove name s.unreserved := by
  unfold unreserved
  rw [toList_erase, Listing.unreserved_remove]

/-- Binding changes nothing about the variables of a class of names that holds neither the name of
the number of arguments nor any of the arguments, new or old. -/
theorem filter_bind (among : String → Bool) (hcount : among argumentCountName = false)
    {bound : Nat} {inv : Invocation}
    (harguments : ∀ i < max inv.arguments.length bound, among (argumentName i) = false) :
    (s.bind bound inv).toList.filter (fun p => among p.1) =
      s.toList.filter fun p => among p.1 := by
  unfold bind
  dsimp only
  rw [filter_setAll, toList_set, Listing.filter_put among hcount, filter_foldl_erase]
  · intro name hname
    obtain ⟨i, hi, rfl⟩ := List.mem_map.1 hname
    rw [List.mem_range'_1] at hi
    exact harguments i (by omega)
  · intro p hp
    obtain ⟨b, hb, rfl⟩ := List.mem_map.1 hp
    obtain ⟨⟨text, i⟩, hi, rfl⟩ := List.mem_map.1 hb
    have hlt := (List.mem_zipIdx' hi).1
    rw [inv.length_texts] at hlt
    exact harguments i (by omega)

/-- Binding changes no variable of another name, nor the order of these. -/
theorem unreserved_bind (bound : Nat) (inv : Invocation) :
    (s.bind bound inv).unreserved = s.unreserved := by
  have hnot {name : String} (h : Reserved name) : decide (¬ Reserved name) = false :=
    decide_eq_false (not_not_intro h)
  exact s.filter_bind (fun n => ¬ Reserved n) (hnot reserved_argumentCountName)
    fun i _ => hnot (reserved_argumentName i)

theorem get?_unreserved {name : String} (h : ¬ Reserved name) :
    s.unreserved.lookup name = s.get? name := by
  unfold unreserved
  rw [Listing.lookup_unreserved h, get?_eq_lookup]

variable (bound : Nat) (inv : Invocation)

/-- The names under which binding hands the arguments over, with their values. -/
theorem bind_eq :
    s.bind bound inv =
      ((((List.range' inv.arguments.length (bound - inv.arguments.length)).map argumentName).foldl
          erase s).set argumentCountName (.int inv.arguments.length)).setAll
        ((inv.texts s.text?).zipIdx.map fun p => (argumentName p.2, .text p.1)) := by
  unfold bind Invocation.bindings
  rw [List.map_map]
  rfl

theorem names_zipIdx (texts : List String) :
    (texts.zipIdx.map fun p => (argumentName p.2, Value.text p.1)).map (·.1) =
      (List.range' 0 texts.length).map argumentName := by
  rw [List.map_map, ← List.zipIdx_map_snd 0 texts, List.map_map]
  rfl

theorem get?_bind_argument {i : Nat} {text : String} (h : (inv.texts s.text?)[i]? = some text) :
    (s.bind bound inv).get? (argumentName i) = some (.text text) := by
  have hnodup : (((inv.texts s.text?).zipIdx.map fun p =>
      (argumentName p.2, Value.text p.1)).map (·.1)).Nodup := by
    rw [names_zipIdx]
    refine List.Pairwise.map _ (fun i j hij heq => hij (argumentName_inj.1 heq)) List.nodup_range'
  have hmem : (argumentName i, Value.text text) ∈ (inv.texts s.text?).zipIdx.map fun p =>
      (argumentName p.2, Value.text p.1) :=
    List.mem_map.2 ⟨(text, i), List.mk_mem_zipIdx_iff_getElem?.2 h, rfl⟩
  rw [bind_eq]
  exact get?_setAll_of_mem hnodup hmem _

/-- Behind the arguments of the step, those of an earlier step are gone. -/
theorem get?_bind_beyond {i : Nat} (h : inv.arguments.length ≤ i) :
    (s.bind bound inv).get? (argumentName i) =
      if i < bound then none else s.get? (argumentName i) := by
  have hothers : ∀ p ∈ (inv.texts s.text?).zipIdx.map fun p => (argumentName p.2, Value.text p.1),
      p.1 ≠ argumentName i := by
    intro p hp heq
    have hname : p.1 ∈ (List.range' 0 (inv.texts s.text?).length).map argumentName := by
      rw [← names_zipIdx]
      exact List.mem_map_of_mem hp
    obtain ⟨j, hj, hji⟩ := List.mem_map.1 hname
    rw [heq, argumentName_inj] at hji
    rw [inv.length_texts, List.mem_range'_1] at hj
    omega
  rw [bind_eq, get?_setAll_of_ne hothers,
    get?_set_ne _ _ (argumentName_ne_argumentCountName i)]
  have hmem : argumentName i ∈ (List.range' inv.arguments.length
      (bound - inv.arguments.length)).map argumentName ↔ i < bound := by
    simp only [List.mem_map, argumentName_inj, exists_eq_right, List.mem_range'_1]
    omega
  by_cases hi : i < bound
  · rw [if_pos hi, get?_foldl_erase_of_mem _ (hmem.2 hi)]
  · rw [if_neg hi, get?_foldl_erase_of_not_mem _ fun hm => hi (hmem.1 hm)]

end Store

/-! ## What a command reads -/

namespace Store

/-- The arguments held are exactly the first `n`. -/
def HoldsArguments (s : Store) (n : Nat) : Prop := ∀ i, s.contains (argumentName i) = true ↔ i < n

/-- The arguments held are as many as the variable of their number says. -/
def Accounted (s : Store) : Prop := s.HoldsArguments (s.read Value.toNat? argumentCountName 0)

theorem HoldsArguments.congr {s t : Store} {n : Nat} (h : s.HoldsArguments n)
    (heq : ∀ i, t.get? (argumentName i) = s.get? (argumentName i)) : t.HoldsArguments n := by
  intro i
  rw [contains_eq_isSome, heq, ← contains_eq_isSome]
  exact h i

theorem HoldsArguments.get?_eq_none {s : Store} {n i : Nat} (h : s.HoldsArguments n) (hi : n ≤ i) :
    s.get? (argumentName i) = none := by
  have hnot : ¬ s.contains (argumentName i) = true := by
    rw [h i]
    omega
  rw [contains_eq_isSome] at hnot
  simpa using hnot

/-- If the arguments held were those of the step before, they are now those of the step. -/
theorem holdsArguments_bind {s : Store} {bound : Nat} (h : s.HoldsArguments bound)
    (inv : Invocation) : (s.bind bound inv).HoldsArguments inv.arguments.length := by
  intro i
  rw [contains_eq_isSome]
  by_cases hi : i < inv.arguments.length
  · have htext : i < (inv.texts s.text?).length := by rwa [inv.length_texts]
    rw [s.get?_bind_argument bound inv (List.getElem?_eq_getElem htext)]
    simp [hi]
  · rw [s.get?_bind_beyond bound inv (Nat.le_of_not_lt hi)]
    by_cases hb : i < bound
    · simp [hb, hi]
    · rw [if_neg hb, h.get?_eq_none (Nat.le_of_not_lt hb)]
      simp [hi]

/-- A store without reserved variables holds no arguments and says so. -/
theorem accounted_of_fresh {s : Store} (h : ∀ name, Reserved name → s.get? name = none) :
    s.Accounted := by
  unfold Accounted read
  rw [h _ reserved_argumentCountName]
  intro i
  rw [contains_eq_isSome, h _ (reserved_argumentName i)]
  simp

theorem accounted_bind {s : Store} {bound : Nat} (h : s.HoldsArguments bound) (inv : Invocation) :
    (s.bind bound inv).Accounted := by
  unfold Accounted
  rw [read_bind]
  exact holdsArguments_bind h inv

end Store

namespace Env

/-- An argument that is not held is read as the default. -/
theorem argument_eq_default {env : Env} {i : Nat} (h : env.store.get? (argumentName i) = none)
    (default : String) : env.argument i default = default := by
  unfold argument Store.readText
  rw [h]

variable {env : Env} {s : Store} {bound : Nat} {inv : Invocation}

theorem argument_eq_text (hstore : env.store = s.bind bound inv) {i : Nat} {text : String}
    (h : (inv.texts s.text?)[i]? = some text) (default : String) :
    env.argument i default = text := by
  unfold argument Store.readText
  rw [hstore, Store.get?_bind_argument _ _ _ h]
  rfl

/-- A command reads an argument as the text that it had before it was bound, or as the default. -/
theorem argument_bound (hstore : env.store = s.bind bound inv) (h : s.HoldsArguments bound)
    (i : Nat) (default : String) :
    env.argument i default = (inv.texts s.text?)[i]?.getD default := by
  cases htext : (inv.texts s.text?)[i]? with
  | some text => exact argument_eq_text hstore htext default
  | none =>
    rw [List.getElem?_eq_none_iff, inv.length_texts] at htext
    have hholds := Store.holdsArguments_bind h inv
    rw [← hstore] at hholds
    exact argument_eq_default (hholds.get?_eq_none htext) default

theorem argumentCount_bound (hstore : env.store = s.bind bound inv) :
    env.argumentCount = inv.arguments.length := by
  unfold argumentCount
  rw [hstore, Store.read_bind]

/-- A command reads the texts that its arguments had before they were bound. -/
theorem arguments_bound (hstore : env.store = s.bind bound inv) :
    env.arguments = inv.texts s.text? := by
  unfold arguments
  rw [argumentCount_bound hstore, ← inv.length_texts s.text?]
  refine List.ext_getElem (by simp) fun i hi hi' => ?_
  rw [List.getElem_map, List.getElem_range]
  exact argument_eq_text hstore (List.getElem?_eq_getElem hi') ""

end Env

end Runbook
