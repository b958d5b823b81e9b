import GhciHost.Host.Session
import GhciHost.Proofs.File.Written
import GhciHost.Proofs.Host.Effect

/-!
# Scratch copies

A file below the project's root keeps its place there in its scratch copy, so different files have
different copies: what was staged stays, and what the compiler tells of the copy is told of the
file, until the file is staged again.  A file elsewhere shares its copy with all of its name.

* `scratchPath_inj`, `scratchPath_outside`   which files share a copy;
* `stage_spec`   what staging does, whether it succeeds or fails;
* `Staged.other`   another file is staged;
* `staged_kept`   so are any number of others.
-/

namespace GhciHost.Host

open FileTree

/-! ## Where copies are -/

/-- The place of a file below the root of a session, links followed. -/
def BelowRoot (d : Disk) (session : Session) (path : String) (rest : List String) : Prop :=
  ∃ real, d.resolve (Pathname.parse path) = .ok real ∧
    Pathname.below? real (Pathname.parse session.root) = some rest

section

variable {d : Disk} {session : Session} {path other : String} {rest rest' : List String}

theorem scratchPath_below (hp : BelowRoot d session path rest) :
    scratchPath d session path = .ok (session.workDir ++ "staging" :: rest) := by
  obtain ⟨real, hreal, hbelow⟩ := hp
  rw [scratchPath, hreal]
  dsimp only
  rw [hbelow]
  rfl

/-- Files below the root that share a copy are one file. -/
theorem scratchPath_inj (hp : BelowRoot d session path rest) (hq : BelowRoot d session other rest')
    (e : scratchPath d session path = scratchPath d session other) :
    d.resolve (Pathname.parse path) = d.resolve (Pathname.parse other) := by
  rw [scratchPath_below hp, scratchPath_below hq] at e
  obtain rfl : rest = rest' := by simpa using e
  obtain ⟨real, hreal, hbelow⟩ := hp
  obtain ⟨real', hreal', hbelow'⟩ := hq
  rw [hreal, hreal', Pathname.below?_eq_some hbelow, Pathname.below?_eq_some hbelow']

/-- A file that is not below the root has the copy of all files of its name. -/
theorem scratchPath_outside {real : List String}
    (hreal : d.resolve (Pathname.parse path) = .ok real)
    (hp : Pathname.below? real (Pathname.parse session.root) = none)
    (hname : (Pathname.parse path).name ≠ "") :
    scratchPath d session path =
      .ok (session.workDir ++ ["staging", (Pathname.parse path).name]) := by
  simp only [scratchPath, hreal, hp, String.isEmpty_iff, if_neg hname, Option.getD_none]

theorem isName_of_belowRoot (hcwd : ∀ c ∈ d.cwd, IsName c) (hp : BelowRoot d session path rest) :
    ∀ c ∈ rest, IsName c := by
  obtain ⟨real, hreal, hbelow⟩ := hp
  have hnames : ∀ c ∈ real, IsName c := by
    unfold Disk.resolve at hreal
    split at hreal
    · cases hreal
    · dsimp only at hreal
      split at hreal
      · cases hreal
      · cases hreal
        exact Disk.isName_realPath hcwd fun _ => Pathname.slash_not_mem_parse
  intro c hc
  rw [Pathname.below?_eq_some hbelow] at hnames
  exact hnames c (List.mem_append_right _ hc)

end

/-! ## Staging -/

/-- The host with another file tree. -/
def withTree (t : FileTree) (h : Host) : Host := { h with disk := { h.disk with tree := t } }

/-- The host when a copy was written. -/
def withCopy (s : Nat) (path written : String) (t : FileTree) (h : Host) : Host :=
  { withTree t h with sessions := h.sessions.modify s fun session =>
      { session with staging := Json.insertMember written path session.staging } }

/-- A copy is written in directories that are made for it, or some of them are made and no more. -/
theorem stage_spec (s : Nat) (path contents : String) (h : Host) :
    (∃ copy t t', scratchPath h.disk (h.sessionOf s) path = .ok copy ∧ h.disk.tree.Spares t ∧
        t.write copy contents = .ok t' ∧
        (stage s path contents).run h = .ok (Pathname.renderAbsolute copy)
          (withCopy s path (Pathname.renderAbsolute copy) t' h)) ∨
      ∃ e t, h.disk.tree.Spares t ∧ (stage s path contents).run h = .error e (withTree t h) := by
  rw [stage, run_bind_ok (run_session s h), run_bind_ok (run_get h)]
  dsimp only
  cases hcopy : scratchPath h.disk (h.sessionOf s) path with
  | error e => exact .inr ⟨_, h.disk.tree, .refl _, rfl⟩
  | ok copy =>
    dsimp only
    cases hmade : h.disk.tree.makeDirectories copy.dropLast with
    | error e => exact .inr ⟨_, h.disk.tree, .refl _, rfl⟩
    | ok t =>
      have hspares := spares_makeDirectories hmade
      dsimp only
      rw [run_bind_ok (run_modify _ h)]
      split
      · exact .inr ⟨_, t, hspares, rfl⟩
      · cases hwrite : t.write copy contents with
        | error f => exact .inr ⟨_, t, hspares, rfl⟩
        | ok t' => exact .inl ⟨copy, t, t', rfl, hspares, hwrite, rfl⟩

/-! ## What stays -/

/-- No link stands on the way to the directory of a session, or in it. -/
structure Unlinked (s : Nat) (h : Host) : Prop where
  lt : s < h.sessions.size
  workDir : ∀ c ∈ (h.sessionOf s).workDir, IsName c
  cwd : ∀ c ∈ h.disk.cwd, IsName c
  node? : ∀ path target, path <+: (h.sessionOf s).workDir ∨ (h.sessionOf s).workDir <+: path →
    h.disk.tree.node? path ≠ some (.link target)

/-- The copy of a file holds some contents, and stands for the file. -/
structure Staged (s : Nat) (copy : List String) (path contents : String) (h : Host) : Prop where
  file : h.disk.tree.node? copy = some (.file contents)
  entry : (h.sessionOf s).staging.lookup (Pathname.renderAbsolute copy) = some path

section

variable {s : Nat} {h k : Host} {path contents : String} {rest : List String}

theorem sessionOf_withCopy (hs : s < h.sessions.size) (path written : String) (t : FileTree) :
    (withCopy s path written t h).sessionOf s =
      { h.sessionOf s with staging := Json.insertMember written path (h.sessionOf s).staging } := by
  obtain ⟨session, hsession⟩ := Table.exists_get? hs
  simp [withCopy, sessionOf, Table.get?_modify, hsession]

namespace Unlinked

theorem isName_copy (hu : Unlinked s h) (hrest : ∀ c ∈ rest, IsName c) :
    ∀ c ∈ (h.sessionOf s).workDir ++ "staging" :: rest, IsName c := by
  intro c hc
  obtain hc | hc := List.mem_append.1 hc
  · exact hu.workDir c hc
  · obtain rfl | hc := List.mem_cons.1 hc
    · exact ⟨by decide, by decide, by decide, by decide⟩
    · exact hrest c hc

theorem straight (hu : Unlinked s h) (hrest : ∀ c ∈ rest, IsName c) :
    h.disk.tree.Straight [] ((h.sessionOf s).workDir ++ "staging" :: rest) :=
  straight_of_node? (hu.isName_copy hrest) fun p target hp =>
    hu.node? p target (List.prefix_or_prefix_of_prefix hp (List.prefix_append _ _))

/-- The copy of a file below the root is written where it is looked for. -/
theorem stage_below (hu : Unlinked s h) (hp : BelowRoot h.disk (h.sessionOf s) path rest)
    (contents : String) :
    let copy := (h.sessionOf s).workDir ++ "staging" :: rest
    (∃ t, h.disk.tree.Spares t ∧ (stage s path contents).run h =
        .ok (Pathname.renderAbsolute copy)
          (withCopy s path (Pathname.renderAbsolute copy) (t.put copy (.file contents)) h)) ∨
      ∃ e t, h.disk.tree.Spares t ∧ (stage s path contents).run h = .error e (withTree t h) := by
  intro copy
  obtain ⟨copy', t, t', hcopy, hspares, hwrite, hrun⟩ | hfail := stage_spec s path contents h
  · rw [scratchPath_below hp] at hcopy
    cases hcopy
    have hs := hspares.straight (hu.straight (isName_of_belowRoot hu.cwd hp))
    obtain rfl := write_straight hs hwrite
    exact .inl ⟨t, hspares, hrun⟩
  · exact .inr hfail

theorem withTree (hu : Unlinked s h) {t : FileTree} (hspares : h.disk.tree.Spares t) :
    Unlinked s (withTree t h) :=
  ⟨hu.lt, hu.workDir, hu.cwd, fun p target hp => hspares.not_link (hu.node? p target hp)⟩

theorem withCopy (hu : Unlinked s h) {t : FileTree} (hspares : h.disk.tree.Spares t)
    (path written contents : String) (copy : List String) (hne : copy ≠ []) :
    Unlinked s (withCopy s path written (t.put copy (.file contents)) h) := by
  have hsession := sessionOf_withCopy hu.lt path written (t.put copy (.file contents))
  refine ⟨?_, ?_, hu.cwd, ?_⟩
  · exact Nat.lt_of_lt_of_eq hu.lt (Table.size_modify ..).symm
  · rw [hsession]
    exact hu.workDir
  · rw [hsession]
    intro p target hp
    by_cases e : p = copy
    · show (t.put copy (.file contents)).node? p ≠ _
      rw [e, node?_put_self hne]
      exact nofun
    · show (t.put copy (.file contents)).node? p ≠ _
      rw [node?_put_of_ne e]
      exact hspares.not_link (hu.node? p target hp)

/-- Whatever becomes of the staging of a file below the root, no link is made. -/
theorem stage (hu : Unlinked s h) (hp : BelowRoot h.disk (h.sessionOf s) path rest)
    (contents : String) :
    Unlinked s (after (stage s path contents) h) ∧
      ((after (stage s path contents) h).sessionOf s).workDir = (h.sessionOf s).workDir := by
  obtain ⟨t, hspares, hrun⟩ | ⟨e, t, hspares, hrun⟩ := hu.stage_below hp contents
  · rw [after_of_ok hrun, sessionOf_withCopy hu.lt]
    exact ⟨hu.withCopy hspares _ _ _ _ (by simp), rfl⟩
  · rw [after_of_error hrun]
    exact ⟨hu.withTree hspares, rfl⟩

end Unlinked

/-- What is staged is in the copy. -/
theorem staged_of_run (hu : Unlinked s h) (hp : BelowRoot h.disk (h.sessionOf s) path rest)
    {written : String} (hrun : (stage s path contents).run h = .ok written k) :
    let copy := (h.sessionOf s).workDir ++ "staging" :: rest
    written = Pathname.renderAbsolute copy ∧ Staged s copy path contents k := by
  intro copy
  obtain ⟨t, hspares, hrun'⟩ | ⟨e, t, hspares, hrun'⟩ := hu.stage_below hp contents
  · rw [hrun] at hrun'
    cases hrun'
    refine ⟨rfl, node?_put_self (by simp) _ _, ?_⟩
    rw [sessionOf_withCopy hu.lt]
    exact Json.lookup_insertMember_self _ path _
  · rw [hrun] at hrun'
    cases hrun'

/-- A file at another place of the project is staged, or fails to be. -/
theorem Staged.other {path' contents' : String} {rest' : List String}
    (k : Staged s ((h.sessionOf s).workDir ++ "staging" :: rest) path contents h)
    (hu : Unlinked s h) (hrest : ∀ c ∈ rest, IsName c)
    (hp : BelowRoot h.disk (h.sessionOf s) path' rest') (hne : rest' ≠ rest) :
    Staged s ((h.sessionOf s).workDir ++ "staging" :: rest) path contents
      (after (stage s path' contents') h) := by
  obtain ⟨t, hspares, hrun⟩ | ⟨e, t, hspares, hrun⟩ := hu.stage_below hp contents'
  · have hother : (h.sessionOf s).workDir ++ "staging" :: rest ≠
        (h.sessionOf s).workDir ++ "staging" :: rest' := by
      simpa using Ne.symm hne
    rw [after_of_ok hrun]
    refine ⟨(node?_put_of_ne hother _ _).trans (hspares.node? k.file), ?_⟩
    rw [sessionOf_withCopy hu.lt]
    refine (Json.lookup_insertMember_of_ne (fun e => hother ?_) _ _).trans k.entry
    have hnames := hu.isName_copy (isName_of_belowRoot hu.cwd hp)
    exact Pathname.renderAbsolute_inj (hu.isName_copy hrest) hnames e
  · rw [after_of_error hrun]
    exact ⟨hspares.node? k.file, k.entry⟩

/-- Files at other places of the project are staged, one after the other. -/
inductive Others (s : Nat) (rest : List String) (h : Host) : Host → Prop
  | refl : Others s rest h h
  | stage {k : Host} {path : String} {rest' : List String} (hk : Others s rest h k)
      (hp : BelowRoot k.disk (k.sessionOf s) path rest') (hne : rest' ≠ rest) (contents : String) :
      Others s rest h (after (Host.stage s path contents) k)

/-- What was staged of a file below the root stays in its copy, and what is told of the copy is told
    of the file, as long as only other files below the root are staged. -/
theorem staged_kept (hu : Unlinked s h) (hp : BelowRoot h.disk (h.sessionOf s) path rest)
    {written : String} (hrun : (stage s path contents).run h = .ok written k) {k' : Host}
    (hothers : Others s rest k k') :
    k'.disk.tree.node? ((h.sessionOf s).workDir ++ "staging" :: rest) = some (.file contents) ∧
      Diagnostic.logicalFile (k'.sessionOf s).staging written = path := by
  obtain ⟨rfl, hstaged⟩ := staged_of_run hu hp hrun
  obtain ⟨hu', hdir⟩ := hu.stage hp contents
  rw [after_of_ok hrun] at hu' hdir
  have hkept : (Unlinked s k' ∧ (k'.sessionOf s).workDir = (h.sessionOf s).workDir) ∧
      Staged s ((h.sessionOf s).workDir ++ "staging" :: rest) path contents k' := by
    induction hothers with
    | refl => exact ⟨⟨hu', hdir⟩, hstaged⟩
    | stage _ hp' hne contents' ih =>
      obtain ⟨⟨hu', hdir⟩, hstaged⟩ := ih
      obtain ⟨hu'', hdir'⟩ := hu'.stage hp' contents'
      refine ⟨⟨hu'', hdir'.trans hdir⟩, ?_⟩
      rw [← hdir] at hstaged ⊢
      exact hstaged.other hu' (isName_of_belowRoot hu.cwd hp) hp' hne
  refine ⟨hkept.2.file, ?_⟩
  rw [Diagnostic.logicalFile, hkept.2.entry]

end

end GhciHost.Host
