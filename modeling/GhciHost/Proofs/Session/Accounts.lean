import GhciHost.Proofs.Host.Exits
import GhciHost.Proofs.Session.Agreement
import GhciHost.Proofs.Session.Registry

/-!
# Accounts of sessions

The log of a run accounts for what is found on the host: how often the launcher was called for a
session is told by its phase, a frame that waits for a call to end is there because of that call,
and the session of a project that was given last is in use.

* `Accounts`   a log accounts for a host;
* `told_cases`, `mem_calls`   what a step adds to the log;
* `Due.akin`, `Due.before`   what was done for a session is what its phase tells.
-/

namespace GhciHost

/-- The modes in which the launcher was called for a session that is in a phase.  A session may give
    up at any time. -/
def Phase.spawned? : Phase → Option (List StartMode)
  | absent | installing => some []
  | starting m | ready m _ => some (m.before ++ [m])
  | restarting .. => some [.fast]
  | givenUp .. => none

/-- A session as before, or one that has become ready with the worker that it started. -/
structure Session.Core.Akin (a b : Session.Core) : Prop where
  process : b.process = a.process
  destroyed : b.destroyed = a.destroyed
  phase : b.phase = a.phase ∨ ∃ m port, a.phase = .starting m ∧ b.phase = .ready m port

theorem Phase.spawned?_of_fast {p : Phase} (h : p.mode? = some .fast) :
    p.spawned? = some [.fast] := by
  cases p with
  | starting | ready =>
    cases h
    rfl
  | restarting => rfl
  | _ => cases h

namespace Host

open Loop

/-- What was done for a session is what its phase tells. -/
structure Due (log : List Dealing) (s : Nat) (a : Session.Core) : Prop where
  spawns : ∀ ms, a.phase.spawned? = some ms → spawns s log = ms
  installs : a.phase = .absent → installs s log = []
  process : ∀ m p, a.phase.mode? = some m → a.process = some p → .start s m p ∈ log

/-- A frame that waits for the end of a call, or is about to make one, is there because of what was
    done. -/
def Backed (log : List Dealing) : Frame → Prop
  | .gotInstall s => .install s true ∈ log
  | .launch s m _ => Warrant log s m
  | .launched s m _ => m ∈ spawns s log
  | _ => True

/-- What a frame is told by the one above it is so. -/
def Informed (log : List Dealing) (h : Host) (f : Frame) (e : Ending) : Prop :=
  match f, e with
  | .pumpEnd _ p, .value (.code _) => (h.exitOf p).isSome
  | .launched s m _, .value (.process p) => .start s m p ∈ log
  | _, _ => True

/-- The log accounts for what is found on the host. -/
structure Accounts (log : List Dealing) (h : Host) : Prop where
  proper : Proper log
  stands : ∀ project s, Stands log project s → h.registry.find? project = some s
  unborn : ∀ s, h.core? s = none → spawns s log = [] ∧ installs s log = []
  due : ∀ s a, h.core? s = some a → a.destroyed = false → Due log s a
  backed : ∀ t fs f, h.loop.stack? t = some fs → f ∈ fs → Backed log f
  exits : ∀ s p missing, .exit s p missing ∈ log → (h.exitOf p).isSome
  heralded : ∀ t f below, h.loop.stack? t = some (f :: below) → Heralded f.heralds? below ∧
    (f.expects?.isSome → ∃ e, h.loop.running = some (t, e) ∧ Informed log h f e)
  unstarted : ∀ t fs s m replay q, h.loop.stack? t = some fs → .launched s m replay ∈ fs.tail →
    .start s m q ∉ log

/-! ## What is told, and what is called -/

section Told

variable {h : Host} {f : Frame} {below push : List Frame} {e : Ending}

/-- What a frame does with what it is told can be done at any time, but for two things. -/
theorem told_cases (h : Host) (f : Frame) (below : List Frame) (e : Ending) :
    (∀ d ∈ told h f below e, d.isFree = true) ∨
      (∃ project s, told h f below e = [.find project s]) ∨
        ∃ script s m replay rest, f = .spawnEnd script ∧ below = .launched s m replay :: rest ∧
          told h f below e = [.start s m h.processes.size] := by
  have hfree (d : Dealing) (hd : d.isFree = true) : ∀ d' ∈ [d], d'.isFree = true := fun d' hd' => by
    rwa [List.mem_singleton.1 hd']
  have hnil : ∀ d ∈ ([] : List Dealing), d.isFree = true := fun d hd => absurd hd List.not_mem_nil
  unfold told
  split
  case h_1 =>
    split
    · exact .inr (.inl ⟨_, _, rfl⟩)
    · exact .inl hnil
  case h_2 =>
    split
    · exact .inl (hfree _ rfl)
    · exact .inl hnil
  case h_3 =>
    refine .inl fun d hd => ?_
    obtain ⟨q, -, rfl⟩ := List.mem_map.1 hd
    rfl
  case h_6 script _ =>
    split
    · exact .inr (.inr ⟨script, _, _, _, _, rfl, rfl, rfl⟩)
    · exact .inl hnil
  case h_8 => exact .inl hnil
  all_goals exact .inl (hfree _ rfl)

/-- Nobody is called by a frame that is told something. -/
theorem uncalled_told {d : Dealing} (hd : d ∈ told h f below e) (s : Nat) :
    d.spawnOf? s = none ∧ d.installOf? s = none := by
  rcases told_cases h f below e with hfree | ⟨project, i, e'⟩ | ⟨_, i, m, _, _, -, -, e'⟩
  · have := hfree d hd
    cases d <;> first | exact ⟨rfl, rfl⟩ | cases this
  · rw [e'] at hd
    rw [List.mem_singleton.1 hd]
    exact ⟨rfl, rfl⟩
  · rw [e'] at hd
    rw [List.mem_singleton.1 hd]
    exact ⟨rfl, rfl⟩

theorem spawns_told (s : Nat) : spawns s (told h f below e) = [] :=
  List.filterMap_eq_nil_iff.2 fun _ hd => (uncalled_told hd s).1

theorem installs_told (s : Nat) : installs s (told h f below e) = [] :=
  List.filterMap_eq_nil_iff.2 fun _ hd => (uncalled_told hd s).2

theorem start_of_told {s q : Nat} {m : StartMode} (hd : .start s m q ∈ told h f below e) :
    ∃ script replay rest, f = .spawnEnd script ∧ below = .launched s m replay :: rest := by
  rcases told_cases h f below e with hfree | ⟨project, i, e'⟩ |
    ⟨script, i, m', replay, rest, hf, hb, e'⟩
  · cases hfree _ hd
  · rw [e'] at hd
    cases List.mem_singleton.1 hd
  · rw [e'] at hd
    cases List.mem_singleton.1 hd
    exact ⟨script, replay, rest, hf, hb⟩

theorem exit_of_told {s p : Nat} {missing : Bool} (hd : .exit s p missing ∈ told h f below e) :
    f = .pumpEnd s p ∧ ∃ code, e = .value (.code code) := by
  unfold told at hd
  split at hd
  case h_1 =>
    split at hd
    · cases List.mem_singleton.1 hd
    · cases hd
  case h_2 =>
    split at hd
    · cases List.mem_singleton.1 hd
    · cases hd
  case h_3 =>
    obtain ⟨q, -, hq⟩ := List.mem_map.1 hd
    cases hq
  case h_6 =>
    split at hd
    · cases List.mem_singleton.1 hd
    · cases hd
  case h_7 code =>
    cases List.mem_singleton.1 hd
    exact ⟨rfl, code, rfl⟩
  case h_8 => cases hd
  all_goals cases List.mem_singleton.1 hd

/-- A call is one that a frame waits for. -/
theorem mem_calls {d : Dealing} (hd : d ∈ calls h push) :
    (∃ s, .gotInstall s ∈ push ∧ d = .install s h.settings.autoInstall) ∨
      ∃ s m replay, .launched s m replay ∈ push ∧ d = .spawn s m := by
  obtain ⟨g, hg, e⟩ := List.mem_filterMap.1 hd
  cases g with
  | gotInstall s =>
    cases e
    exact .inl ⟨s, hg, rfl⟩
  | launched s m replay =>
    cases e
    exact .inr ⟨s, m, replay, hg, rfl⟩
  | _ => cases e

theorem calls_eq_nil (hpush : ∀ g ∈ push, g.isCall = false) : calls h push = [] :=
  List.filterMap_eq_nil_iff.2 fun g hg => by
    have := hpush g hg
    cases g <;> first | rfl | cases this

end Told

/-! ## What was done for a session -/

namespace Due

variable {log : List Dealing} {s : Nat} {a b : Session.Core}

/-- Nobody is called for the session. -/
theorem append (h : Due log s a) {ds : List Dealing} (hs : GhciHost.spawns s ds = [])
    (hi : GhciHost.installs s ds = []) : Due (log ++ ds) s a where
  spawns ms hms := by rw [spawns_append, hs, List.append_nil, h.spawns ms hms]
  installs ha := by rw [installs_append, hi, List.append_nil, h.installs ha]
  process m p hm hp := List.mem_append_left _ (h.process m p hm hp)

/-- Nothing was done for a session that is made. -/
theorem new (key : String) (hs : GhciHost.spawns s log = []) (hi : GhciHost.installs s log = []) :
    Due log s (.new key) where
  spawns ms hms := by
    cases hms
    exact hs
  installs _ := hi
  process m p hm := by cases hm

/-- Of a session that gave up nothing is told. -/
theorem givenUp {reason transcript : String} {kind : GiveUpKind}
    (hb : b.phase = .givenUp reason transcript kind) : Due log s b where
  spawns ms hms := by
    rw [hb] at hms
    cases hms
  installs h := by
    rw [hb] at h
    cases h
  process m p hm := by
    rw [hb] at hm
    cases hm

/-- It does not count whether the worker that was started is ready. -/
theorem akin (h : Due log s a) (hab : a.Akin b) : Due log s b where
  spawns ms hms := by
    rcases hab.phase with e | ⟨m, port, ha, hb⟩
    · exact h.spawns ms (e ▸ hms)
    · rw [hb] at hms
      exact h.spawns ms (by rw [ha]; exact hms)
  installs hb := by
    rcases hab.phase with e | ⟨m, port, -, hb'⟩
    · exact h.installs (e.symm.trans hb)
    · rw [hb'] at hb
      cases hb
  process m p hm hp := by
    rw [hab.process] at hp
    rcases hab.phase with e | ⟨m', port, ha, hb⟩
    · exact h.process m p (e ▸ hm) hp
    · rw [hb] at hm
      exact h.process m p (by rw [ha]; exact hm) hp

/-- The launcher was called in the modes before the one in which it can be called now. -/
theorem before (h : Due log s a) {m : StartMode} (hl : a.Launchable m) :
    GhciHost.spawns s log = m.before := by
  obtain ⟨-, -, hallows, hmode⟩ := hl
  refine h.spawns _ ?_
  cases hp : a.phase with
  | absent | installing =>
    cases m with
    | fast => rfl
    | withBuild =>
      rw [hp] at hmode
      cases hmode.1 rfl
  | restarting m' reason =>
    rw [hp] at hmode
    rw [hmode.2 rfl]
    rfl
  | starting | ready | givenUp =>
    rw [hp] at hallows
    cases hallows

end Due

end Host

end GhciHost
