import Runbook.Proofs.Run.Shape
import Runbook.Session

/-!
# The changes of phase in a run

A run goes from phase to phase along one path: each change starts where the one before has led. It
begins idle, each invocation that is attempted adds its group of phases, and the phase in which the
run ends comes last (`transitions_form_one_chain`). Skipped invocations add nothing, and only the
last one that is attempted can stop the run, so the groups lie side by side with the stop behind
them (`Attempts.targets_eq`).
-/

namespace Runbook

/-! ## Changes and paths -/

namespace Event

/-- The change of phase that an event is, if it is one. -/
def move? : Event → Option (Phase × Phase)
  | .moved source target => some (source, target)
  | _ => none

/-- The event is the entry of a step that has been recorded. -/
def isFinished : Event → Bool
  | .finished _ _ _ => true
  | _ => false

end Event

namespace Phase

/-- The changes that lead from a phase through others, each from where the one before has led. -/
def path (first : Phase) (targets : List Phase) : List (Phase × Phase) :=
  (first :: targets).zip targets

@[simp] theorem path_nil (first : Phase) : path first [] = [] := rfl

@[simp] theorem path_cons (first target : Phase) (targets : List Phase) :
    path first (target :: targets) = (first, target) :: path target targets := rfl

theorem path_append (first : Phase) (xs ys : List Phase) :
    path first (xs ++ ys) = path first xs ++ path (xs.getLastD first) ys := by
  induction xs generalizing first with
  | nil => rfl
  | cons x xs ih =>
    rw [List.cons_append, path_cons, path_cons, ih, List.getLastD_cons, List.cons_append]

theorem getLastD_append (first : Phase) (xs ys : List Phase) :
    (xs ++ ys).getLastD first = ys.getLastD (xs.getLastD first) := by
  induction xs generalizing first with
  | nil => rfl
  | cons x xs ih => rw [List.cons_append, List.getLastD_cons, List.getLastD_cons, ih]

theorem map_snd_path (first : Phase) (targets : List Phase) :
    (path first targets).map (·.2) = targets :=
  List.map_snd_zip (by simp)

/-- The phase before the last of a path is the one that the path has reached before it. -/
theorem eq_of_mem_path {first source target : Phase} {targets : List Phase}
    (h : (source, target) ∈ path first (targets ++ [target])) (hnot : target ∉ targets) :
    source = targets.getLastD first := by
  rw [path_append, List.mem_append] at h
  rcases h with h | h
  · exact absurd (List.of_mem_zip h).2 hnot
  · obtain ⟨rfl, -⟩ := Prod.mk.inj (List.mem_singleton.1 h)
    rfl

theorem moves_eq (first : Phase) (targets : List Phase) :
    (first.moves targets).filterMap Event.move? = path first targets := by
  induction targets generalizing first with
  | nil => rfl
  | cons target targets ih =>
    rw [moves, path_cons, ← ih]
    rfl

theorem countP_moves (first : Phase) (targets : List Phase) :
    (first.moves targets).countP Event.isFinished = 0 := by
  induction targets generalizing first with
  | nil => rfl
  | cons target targets ih => exact (List.countP_cons_of_neg Bool.false_ne_true).trans (ih target)

end Phase

/-! ## The changes of a step -/

namespace Conduct

/-- What else happens in a step is no change of phase and no entry of a recorded step. -/
theorem incidents_plain {inv : Invocation} {conduct : Conduct} {event : Event}
    (h : event ∈ conduct.incidents inv) : event.move? = none ∧ event.isFinished = false := by
  cases conduct with
  | skipped | cancelled | short => nomatch h
  | unknown =>
    obtain rfl := List.mem_singleton.1 h
    exact ⟨rfl, rfl⟩
  | ran command found effect =>
    rcases List.mem_append.1 h with h | h
    · obtain ⟨output, -, houtput⟩ := List.mem_filterMap.1 h
      cases output with
      | report | line =>
        obtain rfl := Option.some.inj houtput
        exact ⟨rfl, rfl⟩
      | wait => nomatch houtput
    · cases hending : effect.ending with
      | finished | cancelled =>
        rw [hending] at h
        nomatch h
      | failed | crashed =>
        rw [hending] at h
        obtain rfl := List.mem_singleton.1 h
        exact ⟨rfl, rfl⟩

theorem moves_incidents (inv : Invocation) (conduct : Conduct) :
    (conduct.incidents inv).filterMap Event.move? = [] :=
  List.filterMap_eq_nil_iff.2 fun _ h => (incidents_plain h).1

theorem countP_incidents (inv : Invocation) (conduct : Conduct) :
    (conduct.incidents inv).countP Event.isFinished = 0 :=
  List.countP_eq_zero.2 fun _ h => by simp [(incidents_plain h).2]

end Conduct

namespace Record

/-- The phases of a step that is attempted, up to its recording. -/
def group (r : Record) : List Phase := r.conduct.phases ++ [.recording]

/-- The phases that a step leads to; a skipped one leads nowhere. -/
def targets (r : Record) : List Phase :=
  match r.conduct with
  | .skipped => []
  | _ => r.group ++ if r.stops then [.aborted] else []

theorem targets_of_attempted {r : Record} (h : r.conduct ≠ .skipped) :
    r.targets = r.group ++ if r.stops then [.aborted] else [] := by
  unfold targets
  split
  · contradiction
  · rfl

theorem group_mem (r : Record) :
    r.group ∈ [[.recording], [.resolving, .recording], [.resolving, .executing, .recording]] := by
  unfold group
  cases r.conduct <;> simp [Conduct.phases]

theorem getLastD_groups {rs : List Record} (h : rs ≠ []) (first : Phase) :
    (rs.flatMap group).getLastD first = .recording := by
  rcases List.eq_nil_or_concat rs with rfl | ⟨init, r, rfl⟩
  · contradiction
  · rw [List.concat_eq_append, List.flatMap_append, List.flatMap_singleton, group,
      ← List.append_assoc, Phase.getLastD_append]
    rfl

theorem aborted_not_mem_group (r : Record) : .aborted ∉ r.group := by
  unfold group
  cases r.conduct <;> simp [Conduct.phases]

theorem resolving_mem_group {r : Record} (h : r.conduct ≠ .skipped) :
    .resolving ∈ r.group ↔ r.conduct ≠ .cancelled := by
  unfold group
  cases hr : r.conduct <;> simp_all [Conduct.phases]

theorem executing_mem_group (r : Record) :
    .executing ∈ r.group ↔ ∃ command found effect, r.conduct = .ran command found effect := by
  unfold group
  cases r.conduct <;> simp [Conduct.phases]

/-- The events of a step that is attempted, up to its recording. -/
def preliminaries (source : Phase) (r : Record) : List Event :=
  source.moves r.conduct.phases ++ r.conduct.incidents r.invocation

theorem events_of_attempted {r : Record} (h : r.conduct ≠ .skipped) (source : Phase) :
    r.events source =
      r.preliminaries source ++
        .moved (r.conduct.phases.getLastD source) .recording ::
          .finished r.invocation.line r.name r.status ::
            if r.stops then [.moved .recording .aborted] else [] := by
  unfold events
  split
  · contradiction
  · simp [preliminaries]

theorem moves_preliminaries (source : Phase) (r : Record) :
    (r.preliminaries source).filterMap Event.move? = Phase.path source r.conduct.phases := by
  unfold preliminaries
  rw [List.filterMap_append, Phase.moves_eq, Conduct.moves_incidents, List.append_nil]

theorem countP_preliminaries (source : Phase) (r : Record) :
    (r.preliminaries source).countP Event.isFinished = 0 := by
  unfold preliminaries
  rw [List.countP_append, Phase.countP_moves, Conduct.countP_incidents]

theorem moves_events (source : Phase) (r : Record) :
    (r.events source).filterMap Event.move? = Phase.path source r.targets := by
  by_cases h : r.conduct = .skipped
  · unfold events targets
    rw [h]
    rfl
  · rw [events_of_attempted h, targets_of_attempted h, List.filterMap_append, moves_preliminaries,
      group, List.append_assoc, Phase.path_append]
    cases r.stops <;> rfl

theorem phaseAfter_of_attempted {r : Record} (h : r.conduct ≠ .skipped) (source : Phase) :
    r.phaseAfter source = if r.stops then .aborted else .recording := by
  unfold phaseAfter
  split
  · contradiction
  · rfl

theorem phaseAfter_eq (source : Phase) (r : Record) :
    r.phaseAfter source = r.targets.getLastD source := by
  by_cases h : r.conduct = .skipped
  · unfold phaseAfter targets
    rw [h]
    rfl
  · rw [phaseAfter_of_attempted h, targets_of_attempted h, group]
    cases r.stops <;> simp

theorem countP_events_of_attempted {r : Record} (h : r.conduct ≠ .skipped) (source : Phase) :
    (r.events source).countP Event.isFinished = 1 := by
  rw [events_of_attempted h, List.countP_append, countP_preliminaries]
  cases r.stops <;> rfl

theorem events_of_skipped {r : Record} (h : r.conduct = .skipped) (source : Phase) :
    r.events source = [] ∧ r.phaseAfter source = source ∧ r.targets = [] := by
  unfold events phaseAfter targets
  rw [h]
  exact ⟨rfl, rfl, rfl⟩

/-! ## The changes of many steps -/

theorem allEvents_cons (source : Phase) (r : Record) (rs : List Record) :
    allEvents source (r :: rs) =
      (r.events source ++ (allEvents (r.phaseAfter source) rs).1,
        (allEvents (r.phaseAfter source) rs).2) := rfl

theorem allEvents_append (source : Phase) (xs ys : List Record) :
    allEvents source (xs ++ ys) =
      ((allEvents source xs).1 ++ (allEvents (allEvents source xs).2 ys).1,
        (allEvents (allEvents source xs).2 ys).2) := by
  induction xs generalizing source with
  | nil => rfl
  | cons r xs ih => rw [List.cons_append, allEvents_cons, ih, allEvents_cons, List.append_assoc]

/-- The changes of steps make one path through all that they lead to. -/
theorem moves_allEvents (source : Phase) (rs : List Record) :
    (allEvents source rs).1.filterMap Event.move? = Phase.path source (rs.flatMap targets) ∧
      (allEvents source rs).2 = (rs.flatMap targets).getLastD source := by
  induction rs generalizing source with
  | nil => exact ⟨rfl, rfl⟩
  | cons r rs ih =>
    obtain ⟨hmoves, hlast⟩ := ih (r.phaseAfter source)
    rw [phaseAfter_eq] at hmoves hlast
    rw [allEvents_cons, List.flatMap_cons, phaseAfter_eq]
    constructor
    · rw [List.filterMap_append, moves_events, hmoves, Phase.path_append]
    · rw [hlast, Phase.getLastD_append]

/-- Each step that is attempted is entered once. -/
theorem countP_allEvents {source : Phase} {rs : List Record} (h : ∀ r ∈ rs, r.conduct ≠ .skipped) :
    (allEvents source rs).1.countP Event.isFinished = rs.length := by
  induction rs generalizing source with
  | nil => rfl
  | cons r rs ih =>
    obtain ⟨hr, hrs⟩ := List.forall_mem_cons.1 h
    rw [allEvents_cons, List.countP_append, countP_events_of_attempted hr, ih hrs, List.length_cons,
      Nat.add_comm]

theorem allEvents_of_skipped {source : Phase} {rs : List Record}
    (h : ∀ r ∈ rs, r.conduct = .skipped) :
    allEvents source rs = ([], source) ∧ rs.flatMap targets = [] := by
  induction rs with
  | nil => exact ⟨rfl, rfl⟩
  | cons r rs ih =>
    obtain ⟨hr, hrs⟩ := List.forall_mem_cons.1 h
    obtain ⟨hevents, hafter, htargets⟩ := events_of_skipped hr source
    obtain ⟨hall, hflat⟩ := ih hrs
    rw [allEvents_cons, hevents, hafter, hall, List.flatMap_cons, htargets, hflat]
    exact ⟨rfl, rfl⟩

end Record

/-- The changes of a run whose invocations were read in a phase. -/
theorem Run.moves_events (source : Phase) (run : Run) :
    (run.events source).filterMap Event.move? =
      Phase.path source
        (run.records.flatMap Record.targets ++ if run.aborted then [] else [.completed]) := by
  obtain ⟨hmoves, hlast⟩ := Record.moves_allEvents source run.records
  unfold Run.events
  dsimp only
  rw [List.filterMap_append, hmoves, hlast, Phase.path_append]
  cases run.aborted <;> rfl

namespace Run

/-- The groups of phases of the first `k` steps. -/
def groups (run : Run) (k : Nat) : List (List Phase) := (run.records.take k).map Record.group

theorem take_groups (run : Run) {i k : Nat} (h : i ≤ k) : (run.groups k).take i = run.groups i := by
  unfold groups
  rw [← List.map_take, List.take_take, Nat.min_eq_left h]

theorem flatten_groups (run : Run) (k : Nat) :
    (run.groups k).flatten = (run.records.take k).flatMap Record.group :=
  List.flatMap_def.symm

/-- The events of a run that goes through some phases before its first step. -/
def eventsAfter (opening : List Phase) (run : Run) : List Event :=
  Phase.idle.moves opening ++ run.events (opening.getLastD .idle)

/-- A step that is attempted is recorded and entered behind all events before it. -/
theorem exists_eventsAfter_eq {run : Run} {xs ys : List Record} {r : Record}
    (hrecords : run.records = xs ++ r :: ys) (hr : r.conduct ≠ .skipped) (opening : List Phase) :
    ∃ source after, run.eventsAfter opening =
      (Phase.idle.moves opening ++ ((Record.allEvents (opening.getLastD .idle) xs).1 ++
        r.preliminaries (Record.allEvents (opening.getLastD .idle) xs).2)) ++
      .moved source .recording :: .finished r.invocation.line r.name r.status :: after := by
  unfold eventsAfter events
  dsimp only
  rw [hrecords, Record.allEvents_append, Record.allEvents_cons, Record.events_of_attempted hr]
  simp only [List.append_assoc, List.cons_append, List.append_cancel_left_eq]
  exact ⟨_, _, rfl⟩

theorem countP_eventsAfter (run : Run) (opening : List Phase) :
    (run.eventsAfter opening).countP Event.isFinished =
      (Record.allEvents (opening.getLastD .idle) run.records).1.countP Event.isFinished := by
  unfold eventsAfter events
  dsimp only
  rw [List.countP_append, List.countP_append, Phase.countP_moves]
  cases run.aborted <;> simp [Event.isFinished]

end Run

namespace Engine

variable {engine : Engine} {env : Env} {invs : List Invocation}

/-! ## Groups of a run -/

/-- The groups of phases that the events of a run of invocations have, one for each invocation that
is attempted. `opening` are the phases before the first of them. -/
structure Traced (engine : Engine) (env : Env) (invs : List Invocation) (opening : List Phase)
    (events : List Event) (groups : List (List Phase)) : Prop where
  attempts : engine.Attempts env invs groups.length
  /-- The changes of phase are one path from idleness through the groups to the end of the run. -/
  moves : events.filterMap Event.move? =
    Phase.path .idle (opening ++ groups.flatten ++ [(engine.execute env invs).state])
  shape : ∀ group ∈ groups,
    group ∈ [[.recording], [.resolving, .recording], [.resolving, .executing, .recording]]
  aborted : ∀ source, .moved source .aborted ∈ events → source = .recording
  /-- A step is executed just if the body of its command was run. -/
  executing_iff : ∀ (i : Nat) (group : List Phase) (record : Record), groups[i]? = some group →
    (engine.execute env invs).records[i]? = some record →
    (.executing ∈ group ↔ ∃ command found,
      engine.catalog.find? record.invocation.name = some command ∧
        record.conduct = .ran command found (command.body found))
  /-- A step is resolved unless the run was cancelled before it. -/
  resolving_iff : ∀ i group, groups[i]? = some group →
    (.resolving ∈ group ↔ ¬ engine.CancelledBefore env invs i)
  /-- Right behind the change to its recording a step is entered with its line and its result. -/
  finished : ∀ i group inv result, groups[i]? = some group → invs[i]? = some inv →
    (engine.execute env invs).results[i]? = some result →
    ∃ before source after,
      events = before ++ .moved source .recording ::
        .finished inv.line result.name result.outcome.status :: after ∧
      (before.filterMap Event.move?).map (·.2) =
        opening ++ (groups.take i).flatten ++ group.dropLast ∧
      before.countP Event.isFinished = i
  countP_finished : events.countP Event.isFinished = groups.length
  skipped : ∀ i record, groups.length ≤ i → (engine.execute env invs).records[i]? = some record →
    record.conduct = .skipped

namespace Attempts

variable {k : Nat}

/-- The step at which a run aborts is the last one that it attempts. -/
theorem stops_eq_aborted {j : Nat} (h : engine.Attempts env invs (j + 1)) {r : Record}
    (hr : (engine.execute env invs).records[j]? = some r) :
    r.stops = (engine.execute env invs).aborted := by
  rw [Bool.eq_iff_iff, (h.attempted (Nat.lt_succ_self j) hr).2, execute_aborted, h.stopped_iff]
  constructor
  · intro hstops
    exact ⟨j, h.le_length, hstops⟩
  · rintro ⟨i, hi, hstops⟩
    rcases Nat.lt_trichotomy i j with hlt | rfl | hgt
    · exact absurd hstops (h.not_stopsAt (by omega))
    · exact hstops
    · obtain ⟨j', hj', hlast⟩ := h.exists_stopsAt (h.stopped_of_lt (by omega))
      obtain rfl : j = j' := by omega
      exact hlast

theorem length_take_records (h : engine.Attempts env invs k) :
    ((engine.execute env invs).records.take k).length = k := by
  rw [List.length_take, execute_records, length_steps, Nat.min_eq_left h.le_length]

/-- Before the last attempted step the run does not stop. -/
theorem targets_take (h : engine.Attempts env invs k) {i : Nat} (hi : i < k) :
    ((engine.execute env invs).records.take i).flatMap Record.targets =
      ((engine.execute env invs).records.take i).flatMap Record.group := by
  rw [List.flatMap_def, List.flatMap_def]
  refine congrArg List.flatten (List.map_congr_left fun r hr => ?_)
  obtain ⟨m, hm⟩ := List.mem_iff_getElem?.1 hr
  rw [List.getElem?_take] at hm
  split at hm
  · rename_i hmi
    obtain ⟨hattempted, hstops⟩ := h.attempted (Nat.lt_trans hmi hi) hm
    have hgoing : ¬ r.stops = true := fun hs => h.not_stopsAt (by omega) (hstops.1 hs)
    rw [Record.targets_of_attempted hattempted, if_neg hgoing, List.append_nil]
  · nomatch hm

/-- The groups of the attempted steps lie side by side, and the phase in which the run ends follows
them. -/
theorem targets_eq (h : engine.Attempts env invs k) :
    (engine.execute env invs).records.flatMap Record.targets ++
        (if (engine.execute env invs).aborted then [] else [.completed]) =
      ((engine.execute env invs).groups k).flatten ++ [(engine.execute env invs).state] := by
  have hskipped : ((engine.execute env invs).records.drop k).flatMap Record.targets = [] :=
    (@Record.allEvents_of_skipped .idle _ fun r hr => (h.skipped_of_mem_drop hr).1).2
  rw [Run.flatten_groups, ← List.take_append_drop k (engine.execute env invs).records,
    List.flatMap_append, hskipped, List.append_nil, List.take_append_drop]
  cases k with
  | zero =>
    have hn : ¬ 0 < invs.length := fun hn => absurd (h.stopped_of_lt hn) Bool.false_ne_true
    have haborted : (engine.execute env invs).aborted = false := by
      rw [execute_aborted, Nat.eq_zero_of_not_pos hn]
      rfl
    unfold Run.state
    rw [haborted]
    rfl
  | succ j =>
    have hj : j < (engine.execute env invs).records.length := by
      rw [execute_records, length_steps]
      exact h.le_length
    have hr := List.getElem?_eq_getElem hj
    obtain ⟨hattempted, -⟩ := h.attempted (Nat.lt_succ_self j) hr
    rw [List.take_succ_eq_append_getElem hj, List.flatMap_append,
      h.targets_take (Nat.lt_succ_self j), List.flatMap_singleton,
      Record.targets_of_attempted hattempted, h.stops_eq_aborted hr,
      List.flatMap_append, List.flatMap_singleton, List.append_assoc, List.append_assoc,
      List.append_assoc]
    unfold Run.state
    cases (engine.execute env invs).aborted <;> rfl

theorem pos_of_aborted (h : engine.Attempts env invs k)
    (haborted : (engine.execute env invs).aborted = true) : 0 < k := by
  rw [execute_aborted, h.stopped_iff] at haborted
  obtain ⟨j, hj, -⟩ := haborted
  rcases Nat.eq_zero_or_pos k with rfl | hk
  · exact absurd (h.stopped_of_lt (by omega)) Bool.false_ne_true
  · exact hk

theorem ne_skipped_of_mem_take (h : engine.Attempts env invs k) {r : Record}
    (hr : r ∈ (engine.execute env invs).records.take k) : r.conduct ≠ .skipped := by
  obtain ⟨m, hm⟩ := List.mem_iff_getElem?.1 hr
  rw [List.getElem?_take] at hm
  split at hm
  · rename_i hmk
    exact (h.attempted hmk hm).1
  · nomatch hm

end Attempts

theorem invocation_step (p : Progress) (inv : Invocation) :
    (engine.step p inv).1.invocation = inv := by
  rcases engine.step_cases p inv with ⟨-, h⟩ | ⟨-, -, h⟩ | ⟨-, -, h⟩ <;>
    exact congrArg (·.1.invocation) h

/-- A step is recorded as cancelled just if the run was cancelled before it. -/
theorem conduct_step_eq_cancelled {p : Progress} (hs : p.stopped = false) (inv : Invocation) :
    (engine.step p inv).1.conduct = .cancelled ↔ (engine.arrival p).cancelled = true := by
  rcases engine.step_cases p inv with ⟨hs', -⟩ | ⟨-, hc, h⟩ | ⟨-, hc, h⟩
  · rw [hs] at hs'
    nomatch hs'
  · rw [h]
    exact iff_of_true rfl hc
  · rw [h]
    refine iff_of_false ?_ (by simp [hc])
    rcases engine.attempt_cases { p with env := engine.arrival p } inv with
      ⟨-, hdid⟩ | ⟨command, -, ⟨-, hdid⟩ | ⟨-, hdid⟩⟩ <;>
    · simp only [hdid]
      exact fun h => nomatch h

/-! ## The chain -/

namespace Attempts

variable {k : Nat} {opening : List Phase}

theorem length_groups (h : engine.Attempts env invs k) :
    ((engine.execute env invs).groups k).length = k := by
  unfold Run.groups
  rw [List.length_map, h.length_take_records]

theorem exists_of_group {i : Nat} {group : List Phase}
    (hgroup : ((engine.execute env invs).groups k)[i]? = some group) :
    i < k ∧ ∃ r, (engine.execute env invs).records[i]? = some r ∧ group = r.group := by
  unfold Run.groups at hgroup
  rw [List.getElem?_map, List.getElem?_take] at hgroup
  split at hgroup
  · rename_i hi
    obtain ⟨r, hr, rfl⟩ := Option.map_eq_some_iff.1 hgroup
    exact ⟨hi, r, hr, rfl⟩
  · nomatch hgroup

theorem moves_eventsAfter (h : engine.Attempts env invs k) :
    ((engine.execute env invs).eventsAfter opening).filterMap Event.move? =
      Phase.path .idle (opening ++ ((engine.execute env invs).groups k).flatten ++
        [(engine.execute env invs).state]) := by
  unfold Run.eventsAfter
  rw [List.filterMap_append, Phase.moves_eq, Run.moves_events, h.targets_eq, ← Phase.path_append,
    List.append_assoc]

theorem recording_of_aborted (h : engine.Attempts env invs k) (hopening : .aborted ∉ opening)
    {source : Phase}
    (hmem : .moved source .aborted ∈ (engine.execute env invs).eventsAfter opening) :
    source = .recording := by
  have hpath : (source, Phase.aborted) ∈
      ((engine.execute env invs).eventsAfter opening).filterMap Event.move? :=
    List.mem_filterMap.2 ⟨_, hmem, rfl⟩
  have hgroups : .aborted ∉ opening ++ ((engine.execute env invs).groups k).flatten := by
    rw [Run.flatten_groups, List.mem_append, List.mem_flatMap]
    rintro (hmem | ⟨r, -, hr⟩)
    · exact hopening hmem
    · exact r.aborted_not_mem_group hr
  rw [h.moves_eventsAfter] at hpath
  cases haborted : (engine.execute env invs).aborted with
  | false =>
    unfold Run.state at hpath
    rw [haborted] at hpath
    rcases List.mem_append.1 (List.of_mem_zip hpath).2 with hmem | hmem
    · exact absurd hmem hgroups
    · nomatch List.mem_singleton.1 hmem
  | true =>
    unfold Run.state at hpath
    rw [haborted] at hpath
    have hne : (engine.execute env invs).records.take k ≠ [] := by
      rw [← List.length_pos_iff, h.length_take_records]
      exact h.pos_of_aborted haborted
    rw [Phase.eq_of_mem_path hpath hgroups, Phase.getLastD_append, Run.flatten_groups,
      Record.getLastD_groups hne]

theorem executing_iff {i : Nat} {group : List Phase} {record : Record}
    (hgroup : ((engine.execute env invs).groups k)[i]? = some group)
    (hrecord : (engine.execute env invs).records[i]? = some record) :
    .executing ∈ group ↔ ∃ command found,
      engine.catalog.find? record.invocation.name = some command ∧
        record.conduct = .ran command found (command.body found) := by
  obtain ⟨-, r, hr, rfl⟩ := exists_of_group hgroup
  obtain rfl : record = r := Option.some.inj (hrecord.symm.trans hr)
  rw [Record.executing_mem_group]
  constructor
  · rintro ⟨command, found, effect, hran⟩
    obtain ⟨hfind, rfl⟩ := engine.ran_of_mem_steps (List.mem_of_getElem? hrecord) hran
    exact ⟨command, found, hfind, hran⟩
  · rintro ⟨command, found, -, hran⟩
    exact ⟨command, found, _, hran⟩

theorem exists_step {i : Nat} {record : Record}
    (hrecord : (engine.execute env invs).records[i]? = some record) :
    ∃ inv, invs[i]? = some inv ∧ record = (engine.step (engine.progress env invs i) inv).1 := by
  rw [getElem?_records] at hrecord
  obtain ⟨inv, hinv, rfl⟩ := Option.map_eq_some_iff.1 hrecord
  exact ⟨inv, hinv, rfl⟩

theorem resolving_iff (h : engine.Attempts env invs k) {i : Nat} {group : List Phase}
    (hgroup : ((engine.execute env invs).groups k)[i]? = some group) :
    .resolving ∈ group ↔ ¬ engine.CancelledBefore env invs i := by
  obtain ⟨hi, r, hr, rfl⟩ := exists_of_group hgroup
  rw [Record.resolving_mem_group (h.attempted hi hr).1]
  obtain ⟨inv, -, rfl⟩ := exists_step hr
  exact not_congr (conduct_step_eq_cancelled (h.going i hi) inv)

/-- Where the entry of an attempted step stands among the events. -/
theorem finished (h : engine.Attempts env invs k) {i : Nat} {group : List Phase}
    {inv : Invocation} {result : Result}
    (hgroup : ((engine.execute env invs).groups k)[i]? = some group) (hinv : invs[i]? = some inv)
    (hresult : (engine.execute env invs).results[i]? = some result) :
    ∃ before source after,
      (engine.execute env invs).eventsAfter opening =
        before ++ .moved source .recording ::
          .finished inv.line result.name result.outcome.status :: after ∧
      (before.filterMap Event.move?).map (·.2) =
        opening ++ (((engine.execute env invs).groups k).take i).flatten ++ group.dropLast ∧
      before.countP Event.isFinished = i := by
  obtain ⟨hi, r, hr, rfl⟩ := exists_of_group hgroup
  have hinvocation : r.invocation = inv := by
    obtain ⟨inv', hinv', rfl⟩ := exists_step hr
    rw [invocation_step]
    exact Option.some.inj (hinv'.symm.trans hinv)
  have hresult' : r.result = result := by
    unfold Run.results at hresult
    rw [List.getElem?_map, hr] at hresult
    exact Option.some.inj hresult
  subst hinvocation hresult'
  obtain ⟨hlt, hget⟩ := List.getElem?_eq_some_iff.1 hr
  have hrecords : (engine.execute env invs).records =
      (engine.execute env invs).records.take i ++
        r :: (engine.execute env invs).records.drop (i + 1) := by
    rw [← hget, ← List.drop_eq_getElem_cons hlt, List.take_append_drop]
  obtain ⟨source, after, hevents⟩ :=
    Run.exists_eventsAfter_eq hrecords (h.attempted hi hr).1 opening
  refine ⟨_, source, after, hevents, ?_, ?_⟩
  · obtain ⟨hmoves, hlast⟩ := Record.moves_allEvents (opening.getLastD .idle)
      ((engine.execute env invs).records.take i)
    rw [List.filterMap_append, List.filterMap_append, Phase.moves_eq, hmoves, hlast,
      Record.moves_preliminaries, ← Phase.path_append, ← Phase.path_append, Phase.map_snd_path,
      h.targets_take hi, Run.take_groups _ (Nat.le_of_lt hi), Run.flatten_groups, Record.group,
      List.dropLast_concat, List.append_assoc]
  · have htake : ∀ s ∈ (engine.execute env invs).records.take i, s.conduct ≠ .skipped :=
      fun s hs => h.ne_skipped_of_mem_take (List.take_subset_take_left _ (Nat.le_of_lt hi) hs)
    rw [List.countP_append, List.countP_append, Phase.countP_moves, Record.countP_preliminaries,
      Record.countP_allEvents htake, List.length_take, Nat.min_eq_left (Nat.le_of_lt hlt)]
    omega

theorem countP_finished (h : engine.Attempts env invs k) :
    ((engine.execute env invs).eventsAfter opening).countP Event.isFinished = k := by
  rw [Run.countP_eventsAfter, ← List.take_append_drop k (engine.execute env invs).records,
    Record.allEvents_append,
    (Record.allEvents_of_skipped fun r hr => (h.skipped_of_mem_drop hr).1).1, List.append_nil,
    Record.countP_allEvents fun r hr => h.ne_skipped_of_mem_take hr, h.length_take_records]

end Attempts

variable (engine env invs) in
theorem exists_traced {opening : List Phase} (hopening : .aborted ∉ opening) :
    ∃ groups, engine.Traced env invs opening
      ((engine.execute env invs).eventsAfter opening) groups := by
  obtain ⟨k, hk⟩ := engine.exists_attempts env invs
  have hlength := hk.length_groups
  refine ⟨(engine.execute env invs).groups k, ?_⟩
  exact {
    attempts := by rwa [hlength]
    moves := hk.moves_eventsAfter
    shape := by
      intro group hgroup
      obtain ⟨r, -, rfl⟩ := List.mem_map.1 hgroup
      exact r.group_mem
    aborted := fun _ => hk.recording_of_aborted hopening
    executing_iff := fun _ _ _ => Attempts.executing_iff
    resolving_iff := fun _ _ => hk.resolving_iff
    finished := fun _ _ _ _ => hk.finished
    countP_finished := by rw [hlength, hk.countP_finished]
    skipped := by
      intro i record hi hrecord
      rw [hlength] at hi
      have hmem : record ∈ (engine.execute env invs).records.drop k := by
        apply List.mem_of_getElem? (i := i - k)
        rw [List.getElem?_drop, Nat.add_sub_cancel' hi, hrecord]
      exact (hk.skipped_of_mem_drop hmem).1 }

end Engine

/-- In every run of invocations that were read elsewhere the phases make one chain, which begins
idle and goes through the groups of the attempted steps to the end of the run; the run of a script
parses it first. A text that is no script is parsed and no more, and it leaves the session as it
was. -/
theorem transitions_form_one_chain (engine : Engine) (s : Session) (limit : Option Nat) :
    (∀ invs, ∃ groups,
      engine.Traced (s.env limit) invs [] (engine.runInvocations (s.env limit) invs).events
        groups) ∧
    ∀ source,
      let e := engine.run (s.env limit) source
      match parse source with
      | .ok invs =>
        e.outcome = .ok (engine.execute (s.env limit) invs) ∧
          ∃ groups, engine.Traced (s.env limit) invs [.parsing] e.events groups
      | .error error =>
        e.outcome = .error error ∧
          e.events.filterMap Event.move? = Phase.path .idle [.parsing] ∧
          e.events.countP Event.isFinished = 0 ∧ s.after e = s := by
  constructor
  · intro invs
    exact engine.exists_traced _ invs List.not_mem_nil
  · intro source
    unfold Engine.run
    cases parse source with
    | error error => exact ⟨rfl, rfl, rfl, rfl⟩
    | ok invs => exact ⟨rfl, engine.exists_traced _ invs (by decide)⟩

end Runbook
