import Runbook.Proofs.Run.Steps
import Runbook.Proofs.Store.Lookup

/-!
# The number of bound arguments

Within a run the number of arguments that the last step bound is kept beside the store; at the start
of a run it is read from the variable that holds it. The two agree all along a run as long as no
body changes what that variable is read as (`Progress.Counted`, `counted_steps`), because binding
sets it (`Store.read_bind`) and a step that binds nothing touches neither.
-/

namespace Runbook

/-! ## Binding sets the count -/

theorem argumentName_ne_argumentCountName (i : Nat) : argumentName i ≠ argumentCountName := by
  intro h
  have hdigits : toString i = "Count" := (String.append_right_inj "Argument").1 h
  have hmem : 'C' ∈ Nat.toDigits 10 i := by
    rw [← Nat.toList_repr]
    show 'C' ∈ (toString i).toList
    rw [hdigits]
    decide
  exact absurd (Nat.isDigit_of_mem_toDigits (by decide) (by decide) hmem) (by decide)

namespace Invocation

theorem ne_argumentCountName_of_mem_bindings {inv : Invocation} {lookup : String → Option String}
    {p : String × String} (h : p ∈ inv.bindings lookup) : p.1 ≠ argumentCountName := by
  obtain ⟨⟨text, i⟩, -, rfl⟩ := List.mem_map.1 h
  exact argumentName_ne_argumentCountName i

end Invocation

theorem Value.toNat?_ofNat (n : Nat) : (Value.int n).toNat? = some n := by
  simp [Value.toNat?, Value.toInt?]

/-- After its arguments are bound, a command reads their number. -/
theorem Store.read_bind (s : Store) (bound : Nat) (inv : Invocation) :
    (s.bind bound inv).read Value.toNat? argumentCountName 0 = inv.arguments.length := by
  unfold Store.bind Store.read
  dsimp only
  rw [Store.get?_setAll_of_ne, Store.get?_set_self, Option.bind_some, Value.toNat?_ofNat,
    Option.getD_some]
  intro p hp
  obtain ⟨b, hb, rfl⟩ := List.mem_map.1 hp
  exact Invocation.ne_argumentCountName_of_mem_bindings hb

/-! ## Runs that keep the count -/

/-- The body, if one was run, leaves the number of arguments as it is read. -/
def Conduct.KeepsCount : Conduct → Prop
  | .ran _ found effect => (effect.env found).argumentCount = found.argumentCount
  | _ => True

/-- No body of the run changes the number of arguments as it is read. -/
def Run.KeepsCount (run : Run) : Prop := ∀ r ∈ run.records, r.conduct.KeepsCount

/-- What is kept beside the store is what the variable says. -/
def Progress.Counted (p : Progress) : Prop := p.bound = p.env.argumentCount

theorem Env.argumentCount_elapse (env : Env) (n : Nat) :
    (env.elapse n).argumentCount = env.argumentCount := by
  unfold argumentCount
  rw [store_elapse]

namespace Engine

variable (engine : Engine)

theorem argumentCount_entry (p : Progress) (inv : Invocation) :
    (engine.entry p inv).argumentCount = inv.arguments.length := by
  unfold entry
  rw [Env.argumentCount_elapse]
  exact p.env.store.read_bind p.bound inv

variable {engine}

theorem counted_attempt {p : Progress} (h : p.Counted) {inv : Invocation}
    (hkeeps : (engine.attempt p inv).1.KeepsCount) :
    (engine.attempt p inv).2.2 = (engine.attempt p inv).2.1.argumentCount := by
  rcases engine.attempt_cases p inv with ⟨-, hdid⟩ | ⟨command, -, ⟨-, hdid⟩ | ⟨-, hdid⟩⟩
  · rw [hdid]
    exact h
  · rw [hdid]
    exact h
  · rw [hdid] at hkeeps ⊢
    exact (hkeeps.trans (engine.argumentCount_entry p inv)).symm

theorem counted_step {p : Progress} (h : p.Counted) {inv : Invocation}
    (hkeeps : (engine.step p inv).1.conduct.KeepsCount) : (engine.step p inv).2.Counted := by
  have harrival : p.bound = (engine.arrival p).argumentCount := by
    unfold arrival
    rw [Env.argumentCount_elapse]
    exact h
  rcases engine.step_cases p inv with ⟨-, hstep⟩ | ⟨-, -, hstep⟩ | ⟨-, -, hstep⟩
  · rw [hstep]
    exact h
  · rw [hstep]
    exact harrival
  · rw [hstep] at hkeeps ⊢
    have hdid := counted_attempt (p := { p with env := engine.arrival p }) harrival hkeeps
    unfold Progress.Counted settle
    dsimp only
    rw [Env.argumentCount_elapse]
    exact hdid

/-- Along a run whose bodies keep the count, what is kept beside the store is what the variable
says. -/
theorem counted_steps {p : Progress} (h : p.Counted) {invs : List Invocation}
    (hkeeps : ∀ r ∈ (engine.steps p invs).1, r.conduct.KeepsCount) :
    (engine.steps p invs).2.Counted := by
  induction invs generalizing p with
  | nil => exact h
  | cons inv invs ih =>
    rw [steps_cons] at hkeeps ⊢
    obtain ⟨hfirst, hothers⟩ := List.forall_mem_cons.1 hkeeps
    exact ih (counted_step h hfirst) hothers

end Engine

end Runbook
