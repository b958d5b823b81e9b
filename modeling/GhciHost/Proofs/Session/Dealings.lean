import GhciHost.Proofs.Host.Ends
import GhciHost.Proofs.Loop.Growth

/-!
# What a run does about workers

Each step of the loop may do something that tells of a session's worker: somebody is given the
session, the installer or the launcher is called, or it gets known what came of such a call.
`dealings` reads off a host what its next step does, so a run has a log of dealings.  A log is `Proper` if
each dealing in it is one that the dealings before it allow.

* `Dealing`, `dealings`   what a step does;
* `Proper`   each dealing is allowed by those before it;
* `Proper.spawns`, `Proper.installs`, `Proper.start_unique`, `Proper.exit_between`, `Proper.shared`
  what this says of one session, and of one project.
-/

namespace GhciHost

/-- Something that is done about the worker of a session. -/
inductive Dealing
  /-- A caller is given the session of a project, told by its kind and its root. -/
  | find (project : String × String) (session : Nat)
  /-- The session of a project is no longer in use. -/
  | drop (project : String × String)
  /-- The status of the worker was asked for, and is known. -/
  | check (session : Nat) (status : InstallStatus)
  /-- The installer is called, and this is allowed or not. -/
  | install (session : Nat) (allowed : Bool)
  /-- The installer has done its work. -/
  | installed (session : Nat)
  /-- The launcher is called. -/
  | spawn (session : Nat) (mode : StartMode)
  /-- The launcher has started a process. -/
  | start (session : Nat) (mode : StartMode) (process : Nat)
  /-- A process has ended, having missed a dependency or not. -/
  | exit (session process : Nat) (missing : Bool)

namespace Dealing

/-- The start mode in which the launcher is called for a session. -/
def spawnOf? (s : Nat) : Dealing → Option StartMode
  | spawn i m => if i = s then some m else none
  | _ => none

/-- Whether the installer may be called, where it is called for a session. -/
def installOf? (s : Nat) : Dealing → Option Bool
  | install i allowed => if i = s then some allowed else none
  | _ => none

theorem spawnOf?_eq_some {s : Nat} {d : Dealing} {m : StartMode} :
    d.spawnOf? s = some m ↔ d = .spawn s m := by
  cases d <;> simp [spawnOf?]

theorem installOf?_eq_some {s : Nat} {d : Dealing} {allowed : Bool} :
    d.installOf? s = some allowed ↔ d = .install s allowed := by
  cases d <;> simp [installOf?]

/-- The dealing can be done at any time. -/
def isFree : Dealing → Bool
  | drop _ | check .. | installed _ | exit .. => true
  | _ => false

end Dealing

/-- The modes in which the launcher was called for a session, in order. -/
def spawns (s : Nat) (log : List Dealing) : List StartMode := log.filterMap (Dealing.spawnOf? s)

/-- The calls of the installer for a session, in order. -/
def installs (s : Nat) (log : List Dealing) : List Bool := log.filterMap (Dealing.installOf? s)

/-- The session was the last that anybody was given for a project that is in use since. -/
def Stands (log : List Dealing) (project : String × String) (s : Nat) : Prop :=
  ∃ pre mid, log = pre ++ .find project s :: mid ∧ .drop project ∉ mid

/-- The modes in which a worker was started before it is started in a mode. -/
def StartMode.before : StartMode → List StartMode
  | fast => []
  | withBuild => [fast]

/-- What has to be known before the worker of a session is started in a mode: it is installed, or
    the one that did not build dependencies has ended and missed one. -/
def Warrant (log : List Dealing) (s : Nat) : StartMode → Prop
  | .fast => .check s .installed ∈ log ∨ .install s true ∈ log ∧ .installed s ∈ log
  | .withBuild => ∃ p pre post, log = pre ++ .exit s p true :: post ∧ .start s .fast p ∈ pre

/-- The dealing may follow those that were done. -/
def Dealing.Allowed (log : List Dealing) : Dealing → Prop
  | find project s => ∀ s', Stands log project s' → s' = s
  | install s allowed => installs s log = [] ∧ allowed = true
  | spawn s m => spawns s log = m.before ∧ Warrant log s m
  | start s m _ => m ∈ spawns s log ∧ ∀ q, .start s m q ∉ log
  | _ => True

/-- Each dealing is allowed by those before it. -/
inductive Proper : List Dealing → Prop
  | nil : Proper []
  | concat {log : List Dealing} {d : Dealing} : Proper log → d.Allowed log → Proper (log ++ [d])

/-! ## Logs that grow -/

theorem Warrant.append {log : List Dealing} {s : Nat} {m : StartMode} (h : Warrant log s m)
    (ds : List Dealing) : Warrant (log ++ ds) s m := by
  cases m with
  | fast =>
    exact h.imp (List.mem_append_left _)
      fun h => ⟨List.mem_append_left _ h.1, List.mem_append_left _ h.2⟩
  | withBuild =>
    obtain ⟨p, pre, post, rfl, hs⟩ := h
    exact ⟨p, pre, post ++ ds, by rw [List.append_assoc]; rfl, hs⟩

theorem spawns_append (s : Nat) (log ds : List Dealing) :
    spawns s (log ++ ds) = spawns s log ++ spawns s ds := List.filterMap_append

theorem installs_append (s : Nat) (log ds : List Dealing) :
    installs s (log ++ ds) = installs s log ++ installs s ds := List.filterMap_append

theorem spawns_concat (s : Nat) (log : List Dealing) (d : Dealing) :
    spawns s (log ++ [d]) = spawns s log ++ (d.spawnOf? s).toList := by
  rw [spawns_append]
  cases h : d.spawnOf? s <;> simp [spawns, h]

theorem installs_concat (s : Nat) (log : List Dealing) (d : Dealing) :
    installs s (log ++ [d]) = installs s log ++ (d.installOf? s).toList := by
  rw [installs_append]
  cases h : d.installOf? s <;> simp [installs, h]

theorem mem_spawns_iff {s : Nat} {log : List Dealing} {m : StartMode} :
    m ∈ spawns s log ↔ .spawn s m ∈ log := by
  simp [spawns, Dealing.spawnOf?_eq_some]

/-- Who stood for a project still does, unless the project was dropped; else it is who was given
    last. -/
theorem Stands.of_append {log ds : List Dealing} {project : String × String} {s : Nat}
    (h : Stands (log ++ ds) project s) :
    Stands log project s ∧ .drop project ∉ ds ∨ Stands ds project s := by
  obtain ⟨pre, mid, e, hmid⟩ := h
  rcases List.append_eq_append_iff.1 e with ⟨as, -, rfl⟩ | ⟨bs, hlog, hbs⟩
  · exact .inr ⟨as, mid, rfl, hmid⟩
  · cases bs with
    | nil => exact .inr ⟨[], mid, hbs.symm, hmid⟩
    | cons b bs =>
      obtain ⟨rfl, rfl⟩ := List.cons.inj hbs
      exact .inl ⟨⟨pre, bs, hlog, fun hb => hmid (List.mem_append_left _ hb)⟩,
        fun hd => hmid (List.mem_append_right _ hd)⟩

namespace Proper

variable {log : List Dealing} {s : Nat}

/-- Dealings that can be done at any time are done. -/
theorem append_free (h : Proper log) {ds : List Dealing} (hds : ∀ d ∈ ds, d.isFree = true) :
    Proper (log ++ ds) := by
  induction ds generalizing log with
  | nil => rwa [List.append_nil]
  | cons d ds ih =>
    rw [← List.singleton_append, ← List.append_assoc]
    refine ih (h.concat ?_) fun d hd => hds d (List.mem_cons_of_mem _ hd)
    have hd := hds d List.mem_cons_self
    cases d with
    | find | install | spawn | start => cases hd
    | _ => trivial

/-- Each dealing was allowed when it was done. -/
theorem allowed (h : Proper log) {pre post : List Dealing} {d : Dealing}
    (e : log = pre ++ d :: post) : d.Allowed pre := by
  induction h generalizing post with
  | nil => simp at e
  | @concat log d' _ hd ih =>
    rcases List.eq_nil_or_concat post with rfl | ⟨post, d'', rfl⟩
    · obtain ⟨hlog, hd'⟩ := List.append_inj' e rfl
      cases hd'
      exact hlog ▸ hd
    · rw [List.concat_eq_append, ← List.cons_append, ← List.append_assoc] at e
      exact ih (List.append_inj' e rfl).1

/-- The launcher is called at most twice for a session: first for a worker that does not build
    dependencies, and then for one that does. -/
theorem spawns (h : Proper log) (s : Nat) : spawns s log <+: [.fast, .withBuild] := by
  induction h with
  | nil => exact List.nil_prefix
  | @concat log d _ hd ih =>
    rw [spawns_concat]
    cases hs : d.spawnOf? s with
    | none => rwa [Option.toList_none, List.append_nil]
    | some m =>
      rw [Dealing.spawnOf?_eq_some.1 hs] at hd
      rw [hd.1]
      cases m
      · exact ⟨[.withBuild], rfl⟩
      · exact ⟨[], rfl⟩

/-- The installer is called at most once for a session, and only if it may be. -/
theorem installs (h : Proper log) (s : Nat) : installs s log <+: [true] := by
  induction h with
  | nil => exact List.nil_prefix
  | @concat log d _ hd ih =>
    rw [installs_concat]
    cases hs : d.installOf? s with
    | none => rwa [Option.toList_none, List.append_nil]
    | some allowed =>
      rw [Dealing.installOf?_eq_some.1 hs] at hd
      rw [hd.1, hd.2]
      exact ⟨[], rfl⟩

/-- A process is started only where the launcher was called. -/
theorem mem_spawns (h : Proper log) {m : StartMode} {p : Nat} (hp : .start s m p ∈ log) :
    m ∈ GhciHost.spawns s log := by
  obtain ⟨pre, post, rfl⟩ := List.append_of_mem hp
  rw [spawns_append]
  exact List.mem_append_left _ (h.allowed rfl).1

/-- A call of the launcher starts one process at most. -/
theorem start_unique (h : Proper log) {m : StartMode} {p q : Nat} (hp : .start s m p ∈ log)
    (hq : .start s m q ∈ log) : p = q := by
  induction h with
  | nil => cases hp
  | @concat log d _ hd ih =>
    rcases List.mem_append.1 hp with hp | hp <;> rcases List.mem_append.1 hq with hq | hq
    · exact ih hp hq
    · rw [← List.mem_singleton.1 hq] at hd
      exact absurd hp (hd.2 p)
    · rw [← List.mem_singleton.1 hp] at hd
      exact absurd hq (hd.2 q)
    · cases (List.mem_singleton.1 hp).trans (List.mem_singleton.1 hq).symm
      rfl

/-- Before a worker is started that builds dependencies, the one that does not has ended. -/
theorem exit_between (h : Proper log) {p q : Nat} (hp : .start s .fast p ∈ log)
    (hq : .start s .withBuild q ∈ log) : .exit s p true ∈ log := by
  obtain ⟨pre, post, e⟩ := List.append_of_mem (mem_spawns_iff.1 (h.mem_spawns hq))
  obtain ⟨-, p', pre', post', rfl, hp'⟩ := h.allowed e
  have hpre {x : Dealing} (hx : x ∈ pre' ++ .exit s p' true :: post') : x ∈ log :=
    e ▸ List.mem_append_left _ hx
  rw [h.start_unique hp (hpre (List.mem_append_left _ hp'))]
  exact hpre (List.mem_append_right _ List.mem_cons_self)

/-- All who are given the session of a project are given the same one, until it is dropped. -/
theorem shared (h : Proper log) {project : String × String} {s' : Nat}
    {pre mid post : List Dealing}
    (e : log = pre ++ .find project s :: mid ++ .find project s' :: post)
    (hmid : .drop project ∉ mid) : s = s' :=
  h.allowed e s ⟨pre, mid, rfl, hmid⟩

end Proper

namespace Host

/-! ## What a step does -/

/-- What is done by a frame with what it is told. -/
def told (h : Host) (f : Frame) (below : List Frame) (e : Ending) : List Dealing :=
  match f, e with
  | .getOrCreate root kind targets, .value _ =>
    match h.disk.checkRoot h.settings.projectWhitelist h.settings.projectBlacklist root,
        nextOf (getOrCreate root kind targets) h with
    | .ok (.ok path), .go _ (.value (.session s)) => [.find (kind, Pathname.renderAbsolute path) s]
    | _, _ => []
  | .destroy root kind, .value _ =>
    match h.disk.resolveWritten root with
    | .ok path => [.drop (kind, Pathname.renderAbsolute path)]
    | .error _ => []
  | .cleanup, .value _ => h.registry.keys.map .drop
  | .gotStatus s, .value (.status status) => [.check s status]
  | .gotInstall s, .value (.text _) => [.installed s]
  | .spawnEnd script, .value _ =>
    match script.fault, below with
    | none, .launched s m _ :: _ => [.start s m h.processes.size]
    | _, _ => []
  | .pumpEnd s p, .value (.code _) => [.exit s p (h.sessionOf s).dependencyMissing]
  | _, _ => []

/-- The call that a frame waits for to end. -/
def callOf? (allowed : Bool) : Frame → Option Dealing
  | .gotInstall s => some (.install s allowed)
  | .launched s m _ => some (.spawn s m)
  | _ => none

/-- The calls that a step makes, told by the frames that it leaves to wait for their ends. -/
def calls (h : Host) (push : List Frame) : List Dealing :=
  push.filterMap (callOf? h.settings.autoInstall)

/-- What the next step of the loop does. -/
def dealings (h : Host) : List Dealing :=
  match h.loop.running with
  | none => []
  | some (t, e) =>
    match h.loop.stack? t with
    | some (f :: below) => told h f below e ++ calls h (nextOf (resume f e) h).push
    | _ => []

end Host

end GhciHost
