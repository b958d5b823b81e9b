import GhciHost.Proofs.Session.Cores
import GhciHost.Proofs.Session.Dealings

/-!
# Which sessions are in use

The registry tells which session of a project is in use.  A session that is put there stays until a
step drops it, and whoever looks for a session is given the one that is there.

* `registry_resume`   most steps leave the registry alone;
* `find?_resume`   a session stays in use unless it is dropped;
* `find?_of_find`   whoever is given a session is given one in use.
-/

namespace GhciHost.Host

instance : Bound (Same Host.registry) := ⟨fun _ _ e => e⟩

namespace SameRegistry

instance changeSession (s : Nat) (f : Session → Session) :
    Within (Same Host.registry) (Host.changeSession s f) := ⟨fun _ => rfl⟩

instance publish (e : Event) : Within (Same Host.registry) (Host.publish e) := ⟨fun _ => rfl⟩

instance newSession (kind root : String) (targets : List String) :
    Within (Same Host.registry) (Host.newSession kind root targets) :=
  ⟨fun h => by
    rcases newSession_spec kind root targets h with ⟨x, h', e, rfl⟩ | ⟨key, h', e, hv⟩
    · rw [after_of_error e]
      exact Std.Refl.refl _
    · rw [after_of_ok e]
      exact congrArg View.registry hv⟩

instance becomeReady (s p : Nat) (mode : StartMode) (body : String) :
    Within (Same Host.registry) (Host.becomeReady s p mode body) := inferInstance

end SameRegistry

/-- The frames that put a session into the registry or take it from there. -/
def isRegistrar : Frame → Bool
  | .getOrCreate .. | .destroy .. | .cleanup => true
  | _ => false

theorem registry_resumeWith {f : Frame} (hf : isRegistrar f = false) (v : Value) :
    Within (Same Host.registry) (resumeWith f v) := by
  unfold resumeWith
  split <;> first | infer_instance | cases hf

theorem registry_resume {f : Frame} (hf : isRegistrar f = false) (e : Ending) :
    Within (Same Host.registry) (resume f e) := by
  unfold resume
  split
  case h_17 => split <;> infer_instance
  case h_18 =>
    split
    · exact registry_resumeWith hf _
    · infer_instance
  all_goals infer_instance

variable {h : Host}

/-- Whoever looks for a session of a project is given the one in use, or one that is put there if
    there was none. -/
theorem getOrCreate_finds (root kind : String) (targets : Option (List String)) :
    Ends (getOrCreate root kind targets) h
      (fun n h' => (∀ project s, h.registry.find? project = some s →
        h'.registry.find? project = some s) ∧ ∃ s path, n = .done (.session s) ∧
          h.disk.checkRoot h.settings.projectWhitelist h.settings.projectBlacklist root =
            .ok (.ok path) ∧
          h'.registry.find? (kind, Pathname.renderAbsolute path) = some s)
      fun _ h' => h'.registry = h.registry := by
  unfold getOrCreate
  refine Ends.bind (Ends.of_run (run_get h) ?_)
  split
  · exact Ends.of_error rfl rfl
  · exact Ends.of_error rfl rfl
  · next path hroot =>
    dsimp only
    split
    · next s hs => exact Ends.of_run rfl ⟨fun _ _ hp => hp, s, path, rfl, hroot, hs⟩
    · next hnone =>
      have hnew (k : Host) (a : Action Nat) [Within (Same Host.registry) a] :
          Ends a k (fun _ k' => k'.registry = k.registry) fun _ k' => k'.registry = k.registry := by
        rw [Ends]
        cases e : a.run k with
        | ok v k' => exact Within.of_ok (R := Same Host.registry) e
        | error x k' => exact Within.of_error (R := Same Host.registry) e
      refine Ends.bind ((hnew h _).mono fun s h₁ e₁ => ?_)
      refine Ends.bind (Ends.of_run (run_session s h₁) ?_)
      refine Ends.bind (Ends.of_run (Succeeds.run_unit ..) ?_)
      refine Ends.bind (Ends.of_run (Succeeds.run_unit ..) (Ends.of_run rfl ?_))
      refine ⟨fun project i hi => ?_, s, path, rfl, hroot, ?_⟩
      · show (h₁.registry.put _ s).find? project = some i
        rw [Keyed.find?_put_of_ne, e₁, hi]
        rintro rfl
        rw [hnone] at hi
        cases hi
      · exact Keyed.find?_put_self ..

/-- The session of a project is taken out of the registry, and no other. -/
theorem destroy_drops (root kind : String) {project : String × String} {s : Nat}
    (hs : h.registry.find? project = some s) :
    (after (destroy root kind) h).registry.find? project = some s ∨
      ∃ path, h.disk.resolveWritten root = .ok path ∧
        project = (kind, Pathname.renderAbsolute path) := by
  unfold destroy resolveRoot
  rw [bind_assoc, after_bind_ok (run_get h)]
  cases hroot : h.disk.resolveWritten root with
  | error x => exact .inl hs
  | ok path =>
    by_cases hp : project = (kind, Pathname.renderAbsolute path)
    · exact .inr ⟨path, rfl, hp⟩
    · refine .inl ?_
      dsimp only
      rw [pure_bind, after_bind_ok (run_get h)]
      split
      · exact hs
      · show (h.registry.erase _).find? project = some s
        rwa [Keyed.find?_erase_of_ne hp]

/-- A session stays in use until a step drops it. -/
theorem find?_resume (f : Frame) (below : List Frame) (e : Ending) {project : String × String}
    {s : Nat} (hs : h.registry.find? project = some s) :
    (after (resume f e) h).registry.find? project = some s ∨
      .drop project ∈ told h f below e := by
  cases hf : isRegistrar f with
  | false =>
    have : (after (resume f e) h).registry = h.registry := (registry_resume hf e).rel_after h
    exact .inl (by rwa [this])
  | true =>
    cases e with
    | value v =>
      cases f with
      | getOrCreate root kind targets =>
        refine .inl ?_
        show (after (getOrCreate root kind targets) h).registry.find? project = some s
        have hfinds := getOrCreate_finds (h := h) root kind targets
        rw [Ends] at hfinds
        cases hr : (getOrCreate root kind targets).run h with
        | ok n h' =>
          rw [hr] at hfinds
          rw [after_of_ok hr]
          exact hfinds.1 project s hs
        | error x h' =>
          rw [hr] at hfinds
          rwa [after_of_error hr, hfinds]
      | destroy root kind =>
        refine (destroy_drops root kind hs).imp_right fun hdrops => ?_
        obtain ⟨path, hpath, hp⟩ := hdrops
        unfold told
        dsimp only
        rw [hpath, hp]
        exact List.mem_singleton.2 rfl
      | cleanup =>
        exact .inr (List.mem_map.2 ⟨project, Keyed.mem_keys_of_find? hs, rfl⟩)
      | _ => cases hf
    | _ => cases f <;> first | exact .inl hs | cases hf

/-- Whoever is given a session is given the one in use, and nobody else's is dropped. -/
theorem find?_of_find {f : Frame} {below : List Frame} {e : Ending} {project : String × String}
    {s : Nat} (hs : .find project s ∈ told h f below e) :
    (after (resume f e) h).registry.find? project = some s ∧ ∀ q i,
      h.registry.find? q = some i → (after (resume f e) h).registry.find? q = some i := by
  unfold told at hs
  split at hs
  case h_1 root kind targets v =>
    split at hs
    · next path push s' hroot hnext =>
      cases List.mem_singleton.1 hs
      show (after (getOrCreate root kind targets) h).registry.find? _ = some s ∧ ∀ q i,
        _ → (after (getOrCreate root kind targets) h).registry.find? q = some i
      have hfinds := getOrCreate_finds (h := h) root kind targets
      rw [Ends] at hfinds
      unfold nextOf at hnext
      cases hr : (getOrCreate root kind targets).run h with
      | ok n h' =>
        rw [hr] at hfinds hnext
        rw [after_of_ok hr]
        obtain ⟨hold, i, path', rfl, hroot', hi⟩ := hfinds
        cases hnext
        cases hroot.symm.trans hroot'
        exact ⟨hi, hold⟩
      | error x h' =>
        rw [hr] at hnext
        cases hnext
    · cases hs
  case h_2 =>
    split at hs
    · cases List.mem_singleton.1 hs
    · cases hs
  case h_3 =>
    obtain ⟨q, -, hq⟩ := List.mem_map.1 hs
    cases hq
  case h_6 =>
    split at hs
    · cases List.mem_singleton.1 hs
    · cases hs
  case h_8 => cases hs
  all_goals cases List.mem_singleton.1 hs

end GhciHost.Host
