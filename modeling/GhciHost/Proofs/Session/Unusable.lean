import GhciHost.Proofs.Session.Parked
import GhciHost.Proofs.Session.Scratch

/-!
# Sessions that are not used any longer

A session that gave up or was destroyed refuses commands and queries before anything is done.  A file
is refused with them, but its scratch copy is written first: if it was checked with contents, the
copy stays, and with it the directories that were made for it and its entry in the staging map.

* `refusal?`   what a session refuses everything with;
* `refuses_of_refusal?`   it does, and the host is left as it was;
* `checkFile_saved_refused`   so is a file that was saved;
* `checkFile_unsaved_refused`   what stays of a file that was not.
-/

namespace GhciHost.Host

open Loop

variable {h : Host} {s t : Nat} {x : Failure} {below : List Frame}

/-! ## Refusals -/

/-- What a session is refused with that is not used any longer. -/
def refusal? (s : Nat) (h : Host) : Option Failure :=
  let session := h.sessionOf s
  let refuse (text : String) : Failure :=
    .session { kind := .processNotRunning, text, key := some session.key }
  match session.phase with
  | .givenUp reason .. =>
    some (refuse ("Session gave up (" ++ reason ++ "); restart it to try again"))
  | _ => if session.destroyed then some (refuse "Session was destroyed") else none

/-- A session that gave up or was destroyed is refused, and no other. -/
theorem refusal?_isSome : (refusal? s h).isSome = true ↔
    (∃ reason transcript kind, (h.sessionOf s).phase = .givenUp reason transcript kind) ∨
      (h.sessionOf s).destroyed = true := by
  unfold refusal?
  dsimp only
  split
  · next reason transcript kind hphase => simp [hphase]
  · next hphase =>
    have hno : ¬ ∃ reason transcript kind,
        (h.sessionOf s).phase = .givenUp reason transcript kind := by
      rintro ⟨reason, transcript, kind, hp⟩
      exact hphase _ _ _ hp
    rw [or_iff_right hno]
    split
    · next hd => exact iff_of_true rfl hd
    · next hd => exact iff_of_false (by simp) hd

/-- The refusal says that no process is running, and of which session. -/
theorem eq_of_refusal? (hx : refusal? s h = some x) : ∃ text,
    x = .session { kind := .processNotRunning, text, key := some (h.sessionOf s).key } := by
  unfold refusal? at hx
  dsimp only at hx
  split at hx
  · cases hx
    exact ⟨_, rfl⟩
  · split at hx
    · cases hx
      exact ⟨_, rfl⟩
    · cases hx

/-- A session that is refused is there. -/
theorem lt_of_refusal? (hx : refusal? s h = some x) : s < h.sessions.size := by
  by_contra hge
  have hnone : h.sessionOf s = noSession := by
    rw [sessionOf, Table.get?_eq_none (Nat.le_of_not_lt hge)]
    rfl
  rw [refusal?, hnone] at hx
  cases hx

theorem run_checkUsable_of_refusal? (hx : refusal? s h = some x) :
    (checkUsable s).run h = .error x h := by
  unfold refusal? at hx
  unfold checkUsable
  rw [run_bind_ok (run_session s h)]
  dsimp only at hx ⊢
  cases hphase : (h.sessionOf s).phase with
  | givenUp reason transcript kind =>
    rw [hphase] at hx
    cases hx
    exact run_throw _ h
  | _ =>
    rw [hphase] at hx
    dsimp only at hx ⊢
    split at hx
    · next hd =>
      cases hx
      rw [if_pos hd]
      exact run_throw _ h
    · cases hx

/-- Commands and queries are refused, and nothing happens. -/
theorem refuses_of_refusal? (hx : refusal? s h = some x) :
    (∀ command state reaction, (submitSession s command state reaction).run h = .error x h) ∧
    (∀ command state reaction, (queryOn s command state reaction).run h = .error x h) ∧
    (∀ command timeout, (callSession s command timeout).run h = .error x h) ∧
    ∀ command, (querySession s command).run h = .error x h := by
  have hcheck := run_checkUsable_of_refusal? hx
  exact ⟨fun _ _ _ => run_bind_error hcheck, fun _ _ _ => run_bind_error hcheck,
    fun _ _ => run_bind_error hcheck, fun _ => run_bind_error hcheck⟩

/-- Where its copies are has no part in whether a session is refused. -/
theorem refusal?_withCopy (hs : s < h.sessions.size) (path written : String) (u : FileTree) :
    refusal? s (withCopy s path written u h) = refusal? s h := by
  unfold refusal?
  rw [sessionOf_withCopy hs]

/-- Nor has the loop. -/
theorem LoopOnly.refusal? {h' : Host} (hl : LoopOnly h h') : refusal? s h' = refusal? s h := by
  obtain ⟨l, rfl⟩ := hl
  rfl

/-! ## Files that are checked -/

/-- A task that is about to load a file in such a session fails, and nothing else happens. -/
theorem load_refused {command : String} {v : Value} (hx : refusal? s h = some x)
    (hr : Runs h t (.callSession s command none :: .diagnose s :: below) (.value v)) :
    Runs h.tick.tick t below (.failed x) ∧ LoopOnly h h.tick.tick := by
  obtain ⟨hcall, hcalled⟩ := hr.fail ((refuses_of_refusal? hx).2.2.1 command none) rfl
  -- no output is there to be looked at
  obtain ⟨hover, hpassed⟩ : Runs h.tick.tick t below (.failed x) ∧ LoopOnly h.tick h.tick.tick :=
    hcall.advance rfl rfl
  exact ⟨hover, hcalled.trans hpassed⟩

/-- A file that was saved is refused, and nothing else happens. -/
theorem checkFile_saved_refused {path : String} {v : Value} (hx : refusal? s h = some x)
    (hr : Runs h t (.checkFile s path none :: below) (.value v)) :
    Runs h.tick.tick.tick t below (.failed x) ∧ LoopOnly h h.tick.tick.tick := by
  obtain ⟨hload, hstill⟩ : Runs h.tick t
      (.callSession s (Command.load path) none :: .diagnose s :: below) (.value .unit) ∧
      LoopOnly h h.tick := hr.advance rfl rfl
  obtain ⟨hruns, hover⟩ := load_refused (hstill.refusal?.trans hx) hload
  exact ⟨hruns, hstill.trans hover⟩

/-- A file that was not saved is refused when its copy was written: the copy stays where it is, and
    the session's staging map holds it.  Where no copy can be written, only directories are made. -/
theorem checkFile_unsaved_refused {path contents : String} {v : Value} (hx : refusal? s h = some x)
    (hr : Runs h t (.checkFile s path (some contents) :: below) (.value v)) :
    (∃ copy u u', scratchPath h.disk (h.sessionOf s) path = .ok copy ∧ h.disk.tree.Spares u ∧
      u.write copy contents = .ok u' ∧ Runs h.tick.tick.tick t below (.failed x) ∧
      LoopOnly (withCopy s path (Pathname.renderAbsolute copy) u' h) h.tick.tick.tick) ∨
    ∃ y u, h.disk.tree.Spares u ∧ Runs h.tick t below (.failed y) ∧
      LoopOnly (withTree u h) h.tick := by
  obtain ⟨copy, u, u', hcopy, hspares, hwrite, hstage⟩ | ⟨y, u, hspares, hstage⟩ :=
    stage_spec s path contents h
  · -- the copy is written before anybody asks whether the session can be used
    obtain ⟨hload, hcopied⟩ : Runs h.tick t
        (.callSession s (Command.load (Pathname.renderAbsolute copy)) none :: .diagnose s :: below)
        (.value .unit) ∧ LoopOnly (withCopy s path (Pathname.renderAbsolute copy) u' h) h.tick :=
      hr.advance (run_bind_ok hstage) rfl
    have hx' : refusal? s h.tick = some x :=
      hcopied.refusal?.trans ((refusal?_withCopy (lt_of_refusal? hx) path _ u').trans hx)
    obtain ⟨hruns, hover⟩ := load_refused hx' hload
    exact .inl ⟨copy, u, u', hcopy, hspares, hwrite, hruns, hcopied.trans hover⟩
  · obtain ⟨hfail, hmade⟩ := hr.fail (run_bind_error hstage) rfl
    exact .inr ⟨y, u, hspares, hfail, hmade⟩

end GhciHost.Host
