import Runbook.Proofs.Run.Cancellation
import Runbook.Proofs.Session.Consecutive
import Runbook.Session.Tokens

/-!
# Cancellation does not cross a renewal

A handle reaches the runs of a session just as long as its token is the present one, and a token
that is cancelled refuses every run until it is reset or another takes its place
(`Workspace.cancellation_stays_with_token`). What an act answers and leaves of the session depends on the
session as its runs find it and on the numbers of the handles, not on the flags of other tokens
(`Workspace.serve_eq`). So serial numbers are enough to tell one's own token from a former one
(`Workspace.serve_desk`).
-/

namespace Runbook

/-! ## What a session shows of its tokens -/

namespace Session

/-- The session with another flag of its token. -/
def flag (s : Session) (cancelled : Bool) : Session :=
  { s with token := { s.token with cancelled } }

/-- The session after the token with the serial number, if there is one, was cancelled. -/
def cancelToken (s : Session) : Option Nat → Session
  | some token => { s with token := s.token.cancelSerial token }
  | none => s

/-- What an act comes to in a session, given the tokens on which handles were taken. -/
def act (s : Session) (handles : List Nat) : Act → Option Execution × Session
  | .run engine source =>
    let (e, s) := s.run engine source
    (some e, s)
  | .runWithin engine nanoseconds source =>
    let (e, s) := s.runWithin engine nanoseconds source
    (some e, s)
  | .cancel => (none, s.flag true)
  | .reset => (none, s.flag false)
  | .renew => (none, { s with token := s.token.renew })
  | .hold => (none, s)
  | .cancelHandle i => (none, s.cancelToken handles[i]?)
  | .change f => (none, { s with store := f s.store })

end Session

namespace Workspace

variable (w : Workspace)

theorem session_write (token : Nat) (flag : Bool) : (w.write token flag).session =
    if token = w.present then w.session.flag flag else w.session := by
  have hflag : (w.write token flag).cancelled =
      if token = w.present then flag else w.cancelled := by
    unfold cancelled write
    simp only [List.get_eq_getElem, List.getElem_set]
  unfold session
  rw [hflag]
  by_cases htoken : token = w.present
  · rw [if_pos htoken, if_pos htoken]
    rfl
  · rw [if_neg htoken, if_neg htoken]
    rfl

theorem session_renew : w.renew.session = { w.session with token := w.session.token.renew } := by
  have hlive : w.renew.cancelled = false := by
    unfold cancelled renew
    simp
  have hserial : w.renew.present = w.present + 1 := w.last.symm
  unfold session
  rw [hlive, hserial]
  rfl

theorem session_after (e : Execution) : (w.after e).session = w.session.after e := by
  unfold after
  rw [session_write, if_pos rfl]
  rfl

theorem session_cancelHandle (i : Nat) :
    (w.cancelHandle i).session = w.session.cancelToken w.handles[i]? := by
  unfold cancelHandle
  cases w.handles[i]? with
  | none => rfl
  | some token =>
    dsimp only
    rw [session_write]
    unfold Session.cancelToken Cancellation.cancelSerial
    by_cases htoken : token = w.present
    · rw [if_pos htoken]
      dsimp only
      rw [if_pos (show w.session.token.serial = token from htoken.symm)]
      rfl
    · rw [if_neg htoken]
      dsimp only
      rw [if_neg (show ¬ w.session.token.serial = token from Ne.symm htoken)]

theorem session_run (engine : Engine) (source : String) :
    (w.run engine none source).2.session = (w.session.run engine source).2 :=
  w.session_after _

theorem serve_runWithin (engine : Engine) (nanoseconds : Nat) (source : String) :
    (w.serve (.runWithin engine nanoseconds source)).1 =
        some (w.session.runWithin engine nanoseconds source).1 ∧
      (w.serve (.runWithin engine nanoseconds source)).2.session =
        (w.session.runWithin engine nanoseconds source).2 := by
  unfold serve run Session.runWithin
  dsimp only
  rw [session_renew]
  refine ⟨rfl, ?_⟩
  split
  · exact (session_write _ _ _).trans ((if_pos rfl).trans
      (congrArg (Session.flag · false) ((session_after _ _).trans (by rw [session_renew]))))
  · exact (session_after _ _).trans (by rw [session_renew])

theorem handles_cancelHandle (i : Nat) : (w.cancelHandle i).handles = w.handles := by
  unfold cancelHandle
  split <;> rfl

/-- An act keeps the handles, and may take one more. -/
theorem handles_serve (act : Act) :
    (w.serve act).2.handles = match act with
      | .hold => w.handles ++ [w.present]
      | _ => w.handles := by
  cases act with
  | runWithin engine nanoseconds source =>
    unfold serve run
    dsimp only
    split <;> rfl
  | cancelHandle i => exact w.handles_cancelHandle i
  | _ => rfl

/-- An act answers and leaves what it comes to in the session that is seen, whatever the flags of
other tokens are. -/
theorem serve_eq (act : Act) :
    (w.serve act).1 = (w.session.act w.handles act).1 ∧
      (w.serve act).2.session = (w.session.act w.handles act).2 := by
  cases act with
  | run engine source => exact ⟨rfl, w.session_run engine source⟩
  | runWithin engine nanoseconds source => exact w.serve_runWithin engine nanoseconds source
  | cancel => exact ⟨rfl, (w.session_write w.present true).trans (if_pos rfl)⟩
  | reset => exact ⟨rfl, (w.session_write w.present false).trans (if_pos rfl)⟩
  | renew => exact ⟨rfl, w.session_renew⟩
  | hold => exact ⟨rfl, rfl⟩
  | cancelHandle i => exact ⟨rfl, w.session_cancelHandle i⟩
  | change f => exact ⟨rfl, rfl⟩

/-! ## Serial numbers are enough -/

/-- The session as its owner deals with it who knows the handle that was taken last. -/
def desk : Desk := ⟨w.session, w.handles.getLast?⟩

/-- The act of an owner who knows the handle that was taken last. -/
def act (catalog : Catalog) : Request → Act
  | .run policy source => .run { catalog, policy } source
  | .runWithin policy nanoseconds source => .runWithin { catalog, policy } nanoseconds source
  | .cancel => .cancel
  | .reset => .reset
  | .renew => .renew
  | .hold => .hold
  | .cancelHeld => .cancelHandle (w.handles.length - 1)
  | .set name value => .change fun s => s.set name value
  | .unset name => .change fun s => s.erase name
  | .setAll pairs => .change fun s => s.setAll pairs

/-- Serial numbers in the place of cells make no difference to such an owner. -/
theorem serve_desk (catalog : Catalog) (r : Request) :
    w.desk.serve catalog r =
      ((w.serve (w.act catalog r)).1, (w.serve (w.act catalog r)).2.desk) := by
  obtain ⟨hanswer, hsession⟩ := w.serve_eq (w.act catalog r)
  have hhandles := w.handles_serve (w.act catalog r)
  unfold desk at *
  rw [hanswer, hsession, hhandles]
  cases r with
  | hold => simp [Desk.serve, act, Session.act, session]
  | cancelHeld =>
    simp only [Desk.serve, act, Session.act, List.getLast?_eq_getElem?]
    cases w.handles[w.handles.length - 1]? <;> rfl
  | _ => rfl

/-! ## Where the present token stands -/

end Workspace

/-- Another token becomes the present one. -/
def Act.Renews : Act → Prop
  | .renew | .runWithin _ _ _ => True
  | _ => False

/-- The flag of the present token may be cleared. -/
def Act.Clears : Act → Prop
  | .reset | .renew | .runWithin _ _ _ => True
  | _ => False

namespace Session

variable (s : Session) (handles : List Nat) {a : Act}

theorem serial_cancelToken (token : Option Nat) :
    (s.cancelToken token).token.serial = s.token.serial := by
  cases token with
  | none => rfl
  | some token =>
    show (s.token.cancelSerial token).serial = _
    unfold Cancellation.cancelSerial
    split <;> rfl

theorem serial_act_of_renews (h : a.Renews) :
    (s.act handles a).2.token.serial = s.token.serial + 1 := by
  cases a with
  | renew => rfl
  | runWithin engine nanoseconds source =>
    unfold act runWithin
    dsimp only
    split <;> rfl
  | run | cancel | reset | hold | cancelHandle | change => exact h.elim

theorem serial_act_of_not_renews (h : ¬ a.Renews) :
    (s.act handles a).2.token.serial = s.token.serial := by
  cases a with
  | renew | runWithin => exact absurd trivial h
  | cancelHandle i => exact s.serial_cancelToken _
  | run | cancel | reset | hold | change => rfl

end Session

namespace Workspace

variable {w : Workspace} {a : Act} {acts : List Act}

theorem present_serve (w : Workspace) (a : Act) :
    (w.serve a).2.present = (w.session.act w.handles a).2.token.serial :=
  congrArg (fun s : Session => s.token.serial) (w.serve_eq a).2

theorem present_le_serve (w : Workspace) (a : Act) : w.present ≤ (w.serve a).2.present := by
  rw [present_serve]
  by_cases h : a.Renews
  · rw [w.session.serial_act_of_renews _ h]
    exact Nat.le_succ _
  · rw [w.session.serial_act_of_not_renews _ h]
    exact Nat.le_refl _

theorem serveAll_cons (w : Workspace) (a : Act) (acts : List Act) :
    w.serveAll (a :: acts) =
      ((w.serve a).1 :: ((w.serve a).2.serveAll acts).1, ((w.serve a).2.serveAll acts).2) := rfl

theorem present_le_serveAll (w : Workspace) (acts : List Act) :
    w.present ≤ (w.serveAll acts).2.present := by
  induction acts generalizing w with
  | nil => exact Nat.le_refl _
  | cons a acts ih => exact Nat.le_trans (w.present_le_serve a) (ih _)

/-- Without a renewal the present token stays. -/
theorem present_serveAll_of_forall (h : ∀ a ∈ acts, ¬ a.Renews) :
    (w.serveAll acts).2.present = w.present := by
  induction acts generalizing w with
  | nil => rfl
  | cons a acts ih =>
    obtain ⟨ha, hacts⟩ := List.forall_mem_cons.1 h
    rw [serveAll_cons, ih hacts, present_serve, w.session.serial_act_of_not_renews _ ha]
    rfl

/-- A token that has been replaced is never the present one again. -/
theorem present_lt_serveAll_of_exists (h : ∃ a ∈ acts, a.Renews) :
    w.present < (w.serveAll acts).2.present := by
  induction acts generalizing w with
  | nil => simp at h
  | cons a acts ih =>
    by_cases ha : a.Renews
    · have hnext : (w.serve a).2.present = w.present + 1 := by
        rw [present_serve, w.session.serial_act_of_renews _ ha]
        rfl
      exact Nat.lt_of_lt_of_le (hnext ▸ Nat.lt_succ_self _) (present_le_serveAll _ acts)
    · obtain ⟨b, hb, hrenews⟩ := h
      rcases List.mem_cons.1 hb with rfl | hb
      · exact absurd hrenews ha
      · exact Nat.lt_of_le_of_lt (w.present_le_serve a) (ih ⟨b, hb, hrenews⟩)

/-- A handle stays on the token on which it was taken. -/
theorem getElem?_handles_serveAll {i token : Nat} (h : w.handles[i]? = some token)
    (acts : List Act) : (w.serveAll acts).2.handles[i]? = some token := by
  induction acts generalizing w with
  | nil => exact h
  | cons a acts ih =>
    rw [serveAll_cons]
    refine ih (w := (w.serve a).2) ?_
    rw [handles_serve]
    split
    · rw [List.getElem?_append_left (List.getElem?_eq_some_iff.1 h).1, h]
    · exact h

/-! ## Tokens that are no longer present -/

/-- The flags of all tokens but one are the same. -/
def SameBut (token : Nat) (xs ys : List Bool) : Prop :=
  xs.length = ys.length ∧ ∀ i, i ≠ token → xs[i]? = ys[i]?

theorem SameBut.set {token : Nat} {xs ys : List Bool} (h : SameBut token xs ys) (i : Nat)
    (flag : Bool) : SameBut token (xs.set i flag) (ys.set i flag) := by
  refine ⟨by rw [List.length_set, List.length_set, h.1], fun j hj => ?_⟩
  rw [List.getElem?_set, List.getElem?_set, h.1, h.2 j hj]

theorem SameBut.append {token : Nat} {xs ys : List Bool} (h : SameBut token xs ys)
    (zs : List Bool) : SameBut token (xs ++ zs) (ys ++ zs) := by
  refine ⟨by rw [List.length_append, List.length_append, h.1], fun j hj => ?_⟩
  rw [List.getElem?_append, List.getElem?_append, h.1, h.2 j hj]

/-- The two cannot be told apart but by the flag of a token, which is not the present one. -/
structure Agree (token : Nat) (w v : Workspace) : Prop where
  session : w.session = v.session
  handles : w.handles = v.handles
  flags : SameBut token w.flags v.flags

variable {v : Workspace} {token : Nat}

theorem Agree.present (h : w.Agree token v) : w.present = v.present :=
  congrArg (fun s : Session => s.token.serial) h.session

theorem Agree.write (h : w.Agree token v) (i : Nat) (flag : Bool) :
    (w.write i flag).Agree token (v.write i flag) := by
  refine ⟨?_, h.handles, h.flags.set i flag⟩
  rw [session_write, session_write, h.present, h.session]

theorem Agree.write_present (h : w.Agree token v) (flag : Bool) :
    (w.write w.present flag).Agree token (v.write v.present flag) :=
  h.present ▸ h.write w.present flag

theorem Agree.renew (h : w.Agree token v) : w.renew.Agree token v.renew := by
  refine ⟨?_, h.handles, h.flags.append [false]⟩
  rw [session_renew, session_renew, h.session]

theorem Agree.after (h : w.Agree token v) (e : Execution) :
    (w.after e).Agree token (v.after e) := by
  refine ⟨?_, h.handles, ?_⟩
  · rw [session_after, session_after, h.session]
  · show SameBut token (w.flags.set w.present _) (v.flags.set v.present _)
    rw [h.present]
    exact h.flags.set _ _

theorem Agree.run (h : w.Agree token v) (engine : Engine) (limit : Option Nat) (source : String) :
    (w.run engine limit source).1 = (v.run engine limit source).1 ∧
      (w.run engine limit source).2.Agree token (v.run engine limit source).2 := by
  unfold Workspace.run
  rw [h.session]
  exact ⟨rfl, h.after _⟩

theorem Agree.cancelHandle (h : w.Agree token v) (i : Nat) :
    (w.cancelHandle i).Agree token (v.cancelHandle i) := by
  unfold Workspace.cancelHandle
  rw [h.handles]
  cases v.handles[i]? with
  | none => exact h
  | some other => exact h.write other true

theorem Agree.serve (h : w.Agree token v) (a : Act) :
    (w.serve a).1 = (v.serve a).1 ∧ (w.serve a).2.Agree token (v.serve a).2 := by
  cases a with
  | run engine source =>
    obtain ⟨he, hafter⟩ := h.run engine none source
    exact ⟨congrArg some he, hafter⟩
  | runWithin engine nanoseconds source =>
    obtain ⟨he, hafter⟩ := h.renew.run engine (some nanoseconds) source
    unfold Workspace.serve
    dsimp only
    rw [he, h.renew.present]
    refine ⟨rfl, ?_⟩
    split
    · exact hafter.write _ _
    · exact hafter
  | cancel => exact ⟨rfl, h.write_present true⟩
  | reset => exact ⟨rfl, h.write_present false⟩
  | renew => exact ⟨rfl, h.renew⟩
  | hold =>
    refine ⟨rfl, h.session, ?_, h.flags⟩
    show w.handles ++ [w.present] = v.handles ++ [v.present]
    rw [h.handles, h.present]
  | cancelHandle i => exact ⟨rfl, h.cancelHandle i⟩
  | change f =>
    exact ⟨rfl, congrArg (fun s : Session => { s with store := f s.store }) h.session, h.handles,
      h.flags⟩

theorem Agree.serveAll (h : w.Agree token v) (acts : List Act) :
    (w.serveAll acts).1 = (v.serveAll acts).1 ∧
      (w.serveAll acts).2.Agree token (v.serveAll acts).2 := by
  induction acts generalizing w v with
  | nil => exact ⟨rfl, h⟩
  | cons a acts ih =>
    obtain ⟨hanswer, hafter⟩ := h.serve a
    obtain ⟨hanswers, hlast⟩ := ih hafter
    rw [serveAll_cons, serveAll_cons, hanswer, hanswers]
    exact ⟨rfl, hlast⟩

/-- Cancelling a token that is not present shows in no other. -/
theorem agree_cancelHandle {i : Nat} (h : w.handles[i]? = some token)
    (hformer : token ≠ w.present) : (w.cancelHandle i).Agree token w := by
  have hcancel : w.cancelHandle i = w.write token true := by
    unfold cancelHandle
    rw [h]
  refine ⟨?_, w.handles_cancelHandle i, ?_⟩
  · rw [hcancel, session_write, if_neg hformer]
  · rw [hcancel]
    refine ⟨List.length_set, fun j hj => ?_⟩
    exact List.getElem?_set_ne (Ne.symm hj)

theorem cancelHandle_of_present {i : Nat} (h : w.handles[i]? = some w.present) :
    w.cancelHandle i = w.write w.present true := by
  unfold cancelHandle
  rw [h]

end Workspace

/-! ## Cancelled runs -/

namespace Engine

variable (engine : Engine) {env : Env}

/-- A run that is cancelled from the start refuses its first invocation and skips the others. -/
theorem execute_of_cancelled (hcancelled : env.cancelled = true) (hlimit : env.remaining = none)
    (inv : Invocation) (invs : List Invocation) :
    engine.execute env (inv :: invs) =
      ⟨⟨inv, engine.description inv.name, .cancelled, true⟩ :: invs.map engine.skipped, true,
        env⟩ := by
  have harrival : engine.arrival (.start env) = env := Env.elapse_of_unlimited hlimit _
  have hstep := engine.step_of_cancelled (p := .start env) rfl (by rw [harrival, hcancelled]) inv
  unfold execute
  rw [steps_cons, hstep, engine.steps_of_stopped rfl, harrival]
  dsimp only
  rw [Env.elapse_of_unlimited hlimit]

/-- Such a run leaves everything as it is. -/
theorem run_of_cancelled (hcancelled : env.cancelled = true) (hlimit : env.remaining = none)
    (source : String) :
    (engine.run env source).env = env ∧ (engine.run env source).reports = [] := by
  unfold run
  cases parse source with
  | error e => exact ⟨rfl, rfl⟩
  | ok invs =>
    cases invs with
    | nil => exact ⟨Env.elapse_of_unlimited hlimit _, rfl⟩
    | cons inv invs =>
      dsimp only
      rw [engine.execute_of_cancelled hcancelled hlimit]
      refine ⟨rfl, List.flatMap_eq_nil_iff.2 fun r hr => ?_⟩
      rcases List.mem_cons.1 hr with rfl | hr
      · rfl
      · obtain ⟨other, -, rfl⟩ := List.mem_map.1 hr
        rfl

end Engine

namespace Session

variable {s : Session} (handles : List Nat) {a : Act}

theorem run_of_cancelled (h : s.token.cancelled = true) (engine : Engine) (source : String) :
    (s.run engine source).2 = s := by
  have hcancelled : (s.env none).cancelled = true := h
  obtain ⟨henv, hreports⟩ := engine.run_of_cancelled hcancelled rfl source
  show s.after _ = s
  unfold after
  rw [henv, hreports]
  rfl

/-- A cancelled token stays so until it is reset or another takes its place. -/
theorem cancelled_act (h : s.token.cancelled = true) (ha : ¬ a.Clears) :
    (s.act handles a).2.token.cancelled = true := by
  cases a with
  | run engine source =>
    show (s.run engine source).2.token.cancelled = true
    rw [run_of_cancelled h, h]
  | runWithin | reset | renew => exact absurd trivial ha
  | cancel => rfl
  | cancelHandle i =>
    show (s.cancelToken handles[i]?).token.cancelled = true
    cases handles[i]? with
    | none => exact h
    | some token =>
      show (s.token.cancelSerial token).cancelled = true
      unfold Cancellation.cancelSerial
      split
      · rfl
      · exact h
  | hold | change => exact h

end Session

namespace Workspace

variable {w : Workspace} {acts : List Act}

theorem cancelled_serveAll (h : w.cancelled = true) (hacts : ∀ a ∈ acts, ¬ a.Clears) :
    (w.serveAll acts).2.cancelled = true := by
  induction acts generalizing w with
  | nil => exact h
  | cons a acts ih =>
    obtain ⟨ha, hrest⟩ := List.forall_mem_cons.1 hacts
    have hnext : (w.serve a).2.session.token.cancelled = true := by
      rw [(w.serve_eq a).2]
      exact Session.cancelled_act w.handles h ha
    exact ih (w := (w.serve a).2) hnext hrest

/-- What a run comes to if its token is cancelled: no body is run, the first result is that of a
refused invocation and the others are those of skipped ones, and the session is as it was. -/
structure Refuses (w : Workspace) (engine : Engine) (source : String) : Prop where
  results : ∀ inv invs, parse source = .ok (inv :: invs) →
    ∃ e run, (w.serve (.run engine source)).1 = some e ∧ e.outcome = .ok run ∧
      (∀ r ∈ run.records, r.conduct = .cancelled ∨ r.conduct = .skipped) ∧
      run.results = ⟨inv.name, engine.description inv.name, .error "cancelled"⟩ ::
        invs.map fun inv => ⟨inv.name, engine.description inv.name, ⟨.skipped, none⟩⟩
  session : (w.serve (.run engine source)).2.session = w.session

theorem refuses_of_cancelled (h : w.cancelled = true) (engine : Engine) (source : String) :
    w.Refuses engine source := by
  have hfound : (w.session.env none).cancelled = true := h
  refine ⟨fun inv invs hparse => ?_, ?_⟩
  · obtain ⟨houtcome, -⟩ := w.session.run_of_parse engine hparse
    refine ⟨_, _, (w.serve_eq (.run engine source)).1, houtcome, fun r hr => ?_, ?_⟩
    · exact Engine.conduct_of_cancelled hfound hr
    · rw [engine.execute_of_cancelled hfound rfl]
      unfold Run.results
      rw [List.map_cons, List.map_map]
      rfl
  · exact (w.session_run engine source).trans (Session.run_of_cancelled h engine source)

/-- A handle cancels the present token as long as that is the one on which it was taken. After a
renewal its use shows in no answer, in nothing that the session has, and in the flag of no other
token. A present token that is cancelled, by whatever means, stays so until it is reset or replaced,
and every run refuses its script. Whoever deals with a session by serial numbers, with one handle at
a time, gets the same answers. -/
theorem cancellation_stays_with_token (w : Workspace) (between later : List Act) :
    let handle := w.handles.length
    let held := (w.serveAll (.hold :: between)).2
    let used := (held.serve (.cancelHandle handle)).2
    ((∀ a ∈ between, ¬ a.Renews) → held.serve (.cancelHandle handle) = held.serve .cancel) ∧
    ((∃ a ∈ between, a.Renews) →
      (used.serveAll later).1 = (held.serveAll later).1 ∧
      (used.serveAll later).2.session = (held.serveAll later).2.session ∧
      ∀ i, i ≠ w.present → (used.serveAll later).2.flags[i]? = (held.serveAll later).2.flags[i]?) ∧
    (w.serve .cancel).2.cancelled = true ∧
    (w.cancelled = true → (∀ a ∈ later, ¬ a.Clears) →
      let v := (w.serveAll later).2
      v.cancelled = true ∧ ∀ engine source, v.Refuses engine source) ∧
    ∀ catalog r, w.desk.serve catalog r =
      ((w.serve (w.act catalog r)).1, (w.serve (w.act catalog r)).2.desk) := by
  intro handle held used
  have htaken : (w.serve .hold).2.handles[handle]? = some w.present := by
    rw [handles_serve]
    exact List.getElem?_concat_length
  have hheld : held.handles[handle]? = some w.present := getElem?_handles_serveAll htaken between
  refine ⟨fun hbetween => ?_, fun hbetween => ?_, ?_, fun hcancelled hlater => ?_, w.serve_desk⟩
  · have hpresent : held.present = w.present :=
      present_serveAll_of_forall (w := (w.serve .hold).2) hbetween
    rw [← hpresent] at hheld
    exact congrArg (Prod.mk none) (cancelHandle_of_present hheld)
  · have hpresent : w.present < held.present :=
      present_lt_serveAll_of_exists (w := (w.serve .hold).2) hbetween
    have hagree : used.Agree w.present held := agree_cancelHandle hheld (Nat.ne_of_lt hpresent)
    obtain ⟨hanswers, hlast⟩ := hagree.serveAll later
    exact ⟨hanswers, hlast.session, hlast.flags.2⟩
  · have hsession := (w.session_write w.present true).trans (if_pos rfl)
    exact congrArg (fun s : Session => s.token.cancelled) hsession
  · have hstays := cancelled_serveAll hcancelled hlater
    exact ⟨hstays, fun engine source => refuses_of_cancelled hstays engine source⟩

/-- A command cancels its run, before and after the renewal that makes a handle a former one. -/
theorem cancellation_stays_with_token_renewed :
    let engine : Engine := { catalog := ⟨[Probe.cancelPass.command "Stop" "" 0], by decide⟩ }
    let w := ((start "default" .recorder).serveAll [.run engine "Stop"]).2
    let later : List Act := [.run engine "Stop", .cancelHandle 0]
    let kept := (w.serveAll [.hold, .cancel]).2
    let former := (w.serveAll [.hold, .renew]).2
    kept.serve (.cancelHandle 0) = kept.serve .cancel ∧
      (((former.serve (.cancelHandle 0)).2).serveAll later).2.session =
        (former.serveAll later).2.session ∧
      w.cancelled = true ∧ (w.serveAll [.hold]).2.Refuses engine "Stop" := by
  intro engine w later kept former
  have hcancelled : w.cancelled = true := by decide +kernel
  have hhandle : w.handles.length = 0 := rfl
  obtain ⟨hkept, -, -, hrefuses, -⟩ := cancellation_stays_with_token w [.cancel] [.hold]
  obtain ⟨-, hformer, -, -, -⟩ := cancellation_stays_with_token w [.renew] later
  rw [hhandle] at hkept hformer
  exact ⟨hkept (by simp [Act.Renews]), (hformer (by simp [Act.Renews])).2.1, hcancelled,
    (hrefuses hcancelled (by simp [Act.Clears])).2 engine "Stop"⟩

end Workspace

end Runbook
