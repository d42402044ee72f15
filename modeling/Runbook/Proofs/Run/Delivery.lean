import Mathlib.Data.List.Forall2
import Runbook.Proofs.Run.Arguments

/-!
# What binding hands over

The arguments of a step may refer to the very variables that binding writes. All their texts are
those under the store as it was (`Part.Yields`); only then are the variables of an earlier step
taken away, the number of arguments set and the new ones written. So a command reads exactly its
arguments, none of an earlier step is left behind them, and every variable that is not one of these
(`Invocation.Rebinds`) keeps its value and its place among the others (`bind_hands_over`).
-/

namespace Runbook

/-! ## Texts of arguments -/

/-- The text that parts stand for while the variables are as in the store: a variable contributes
its text, and its name if it is not set. -/
inductive Part.Yields (s : Store) : List Part → String → Prop
  | nil : Yields s [] ""
  | literal {parts : List Part} {rest : String} (text : String) (h : Yields s parts rest) :
      Yields s (.literal text :: parts) (text ++ rest)
  | variable {parts : List Part} {rest name : String} {value : Value}
      (hvalue : s.get? name = some value) (h : Yields s parts rest) :
      Yields s (.variable name :: parts) (value.toText ++ rest)
  | unset {parts : List Part} {rest name : String} (hnone : s.get? name = none)
      (h : Yields s parts rest) : Yields s (.variable name :: parts) (name ++ rest)

theorem Argument.yields_resolve (s : Store) (a : Argument) :
    Part.Yields s a.parts (a.resolve s.text?) := by
  obtain ⟨parts⟩ := a
  induction parts with
  | nil => exact .nil
  | cons part parts ih =>
    rw [resolve_cons]
    cases part with
    | literal text => exact .literal text ih
    | «variable» name =>
      cases hvalue : s.get? name with
      | some value =>
        have htext : (Part.variable name).resolve s.text? = value.toText := by
          simp [Part.resolve, Store.text?, hvalue]
        rw [htext]
        exact .variable hvalue ih
      | none =>
        have htext : (Part.variable name).resolve s.text? = name := by
          simp [Part.resolve, Store.text?, hvalue]
        rw [htext]
        exact .unset hvalue ih

/-- Parts stand for one text only. -/
theorem Part.Yields.unique {s : Store} {parts : List Part} {text other : String}
    (h : Yields s parts text) (h' : Yields s parts other) : text = other := by
  induction h generalizing other with
  | nil =>
    cases h'
    rfl
  | literal text _ ih =>
    cases h' with
    | literal _ h' => rw [ih h']
  | «variable» hvalue _ ih =>
    cases h' with
    | «variable» hother h' =>
      rw [hvalue] at hother
      rw [Option.some.inj hother, ih h']
    | unset hnone h' =>
      rw [hvalue] at hnone
      exact nomatch hnone
  | unset hnone _ ih =>
    cases h' with
    | «variable» hother h' =>
      rw [hnone] at hother
      exact nomatch hother
    | unset _ h' => rw [ih h']

theorem Argument.resolve_eq_iff {s : Store} {a : Argument} {text : String} :
    a.resolve s.text? = text ↔ Part.Yields s a.parts text :=
  ⟨fun h => h ▸ a.yields_resolve s, fun h => (a.yields_resolve s).unique h⟩

theorem Invocation.texts_eq_iff {s : Store} {inv : Invocation} {texts : List String} :
    inv.texts s.text? = texts ↔
      List.Forall₂ (fun a text => Part.Yields s a.parts text) inv.arguments texts := by
  unfold Invocation.texts
  rw [← List.forall₂_eq_eq_eq, List.forall₂_map_left_iff]
  simp only [Argument.resolve_eq_iff]

/-! ## The names that binding touches -/

/-- Binding an invocation after `bound` arguments writes or takes away the variable of the name. -/
def Invocation.Rebinds (inv : Invocation) (bound : Nat) (name : String) : Prop :=
  name = argumentCountName ∨ ∃ k < max inv.arguments.length bound, name = argumentName k

instance (inv : Invocation) (bound : Nat) (name : String) : Decidable (inv.Rebinds bound name) :=
  inferInstanceAs (Decidable (_ ∨ ∃ k < max inv.arguments.length bound, name = argumentName k))

namespace Store

section

variable (s : Store) (bound : Nat) (inv : Invocation)

theorem filter_rebinds_bind :
    (s.bind bound inv).toList.filter (fun p => ¬ inv.Rebinds bound p.1) =
      s.toList.filter fun p => ¬ inv.Rebinds bound p.1 := by
  refine s.filter_bind (fun name => ¬ inv.Rebinds bound name) ?_ fun k hk => ?_
  · exact decide_eq_false (not_not_intro (.inl rfl))
  · exact decide_eq_false (not_not_intro (.inr ⟨k, hk, rfl⟩))

theorem get?_bind_of_not_rebinds {name : String} (h : ¬ inv.Rebinds bound name) :
    (s.bind bound inv).get? name = s.get? name :=
  get?_eq_of_filter_eq _ (fun name => ¬ inv.Rebinds bound name) (decide_eq_true h)
    (s.filter_rebinds_bind bound inv)

theorem contains_bind_stale {k : Nat} (hk : inv.arguments.length ≤ k) (hbound : k < bound) :
    (s.bind bound inv).contains (argumentName k) = false := by
  rw [contains_eq_isSome, s.get?_bind_beyond bound inv hk, if_pos hbound]
  rfl

end

/-- Whatever the store holds, and whatever was bound before, a command finds the number of its
arguments and their texts under the store as it was; no argument of an earlier step is left behind
them, and all other variables keep their values and their order. In a run this store is what the
body of the command finds, and the number of arguments is what the next step finds bound. -/
theorem bind_hands_over (s : Store) (bound : Nat) (inv : Invocation) :
    let n := inv.arguments.length
    let after := s.bind bound inv
    (∀ env : Env,
      let found := { env with store := after }
      found.argumentCount = n ∧
      ∀ texts, found.arguments = texts ↔
        List.Forall₂ (fun a text => Part.Yields s a.parts text) inv.arguments texts) ∧
    (∀ k, n ≤ k → k < bound → after.contains (argumentName k) = false) ∧
    (∀ name, ¬ inv.Rebinds bound name → after.get? name = s.get? name) ∧
    after.toList.filter (fun p => ¬ inv.Rebinds bound p.1) =
      s.toList.filter (fun p => ¬ inv.Rebinds bound p.1) ∧
    ∀ (engine : Engine) (env : Env) (stopped : Bool) (taken : Nat) (command : Command),
      engine.catalog.find? inv.name = some command → command.minArguments ≤ n →
      ∃ found : Env, found.store = after ∧
        engine.attempt ⟨{ env with store := s }, bound, stopped, taken⟩ inv =
          (.ran command found (command.body found), (command.body found).env found, n) := by
  intro n after
  refine ⟨fun env => ?_, fun k hk hbound => s.contains_bind_stale bound inv hk hbound,
    fun name hname => s.get?_bind_of_not_rebinds bound inv hname, s.filter_rebinds_bind bound inv,
    fun engine env stopped taken command hfind hn => ?_⟩
  · intro found
    have hfound : found.store = s.bind bound inv := rfl
    refine ⟨Env.argumentCount_bound hfound, fun texts => ?_⟩
    rw [Env.arguments_bound hfound]
    exact inv.texts_eq_iff
  · let p : Progress := ⟨{ env with store := s }, bound, stopped, taken⟩
    exact ⟨engine.entry p inv, Env.store_elapse _ _, engine.attempt_of_find? hfind hn p⟩

end Store

end Runbook
