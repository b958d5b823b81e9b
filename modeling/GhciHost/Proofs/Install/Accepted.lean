import GhciHost.Proofs.Session.Course
import GhciHost.Proofs.Suggestion.Released

/-!
# Workers that are accepted

A worker tells its version somewhere in a text.  It is read there if it has two groups of digits or
more, and such a worker is accepted exactly if this is the version that was asked for.  A version of
one group is not read, so a worker of such a version is installed again whenever it is checked.

* `version?_report`   what is read of a text that holds one version;
* `readStatus_report`   which worker is accepted;
* `readStatus_undotted`   a version without a full stop is never found, whatever a worker prints;
* `gotStatus_installs`   what a session does that was told so.
-/

namespace GhciHost

open Text

variable {c : Char} {s t : List Char}

namespace Install

/-! ## Versions -/

/-- A version: groups of digits, one or more. -/
structure Version where
  major : List Char
  /-- The other groups. -/
  minors : List (List Char)
  isNumeral : ∀ ds ∈ major :: minors, Location.IsNumeral ds

/-- The groups that follow, each behind a full stop. -/
def groups (minors : List (List Char)) : List Char := minors.flatMap ('.' :: ·)

/-- A version as it is written. -/
def Version.text (v : Version) : List Char := v.major ++ groups v.minors

/-- A text without digits. -/
def NoDigits (s : List Char) : Prop := ∀ c ∈ s, isDecimal c = false

theorem NoDigits.takeWhile (hs : NoDigits s) : s.takeWhile isDecimal = [] := by
  cases s with
  | nil => rfl
  | cons c s => exact List.takeWhile_cons_of_neg (by simp [hs c List.mem_cons_self])

theorem NoDigits.tail (hs : NoDigits (c :: s)) : NoDigits s := fun d hd =>
  hs d (List.mem_cons_of_mem c hd)

/-- No further part stands where no digits do. -/
theorem versionParts_noDigits (hs : NoDigits s) (fuel : Nat) : versionParts fuel s = [] := by
  cases fuel with
  | zero => rfl
  | succ fuel =>
    unfold versionParts
    split
    · rw [hs.tail.takeWhile]
    · rfl

theorem head_groups (minors : List (List Char)) (ht : NoDigits t) :
    ∀ c ∈ (groups minors ++ t).head?, isDecimal c = false := by
  intro c hc
  cases minors with
  | nil => exact ht c (List.mem_of_mem_head? hc)
  | cons ds minors =>
    cases hc
    decide

/-- The groups behind full stops are read, up to what is none. -/
theorem versionParts_groups {minors : List (List Char)}
    (hminors : ∀ ds ∈ minors, Location.IsNumeral ds) (ht : NoDigits t) {fuel : Nat}
    (hfuel : minors.length ≤ fuel) : versionParts fuel (groups minors ++ t) = groups minors := by
  induction minors generalizing fuel with
  | nil => exact versionParts_noDigits ht fuel
  | cons ds minors ih =>
    obtain ⟨⟨hne, hds⟩, hminors⟩ := List.forall_mem_cons.1 hminors
    obtain ⟨fuel, rfl⟩ := Nat.exists_eq_add_one_of_ne_zero (Nat.ne_zero_of_lt hfuel)
    obtain ⟨htake, hdrop⟩ := takeWhile_dropWhile_append hds (head_groups minors ht)
    have hrest := ih hminors (by simpa using hfuel)
    have hcons : groups (ds :: minors) ++ t = '.' :: (ds ++ (groups minors ++ t)) := by
      simp [groups]
    obtain ⟨d, ds', rfl⟩ := List.exists_cons_of_ne_nil hne
    rw [hcons, versionParts, htake, hdrop]
    dsimp only
    rw [hrest]
    rfl

/-- Behind a group of digits no version goes on but with a full stop. -/
theorem versionHere?_numeral {ds : List Char} (hds : Location.IsNumeral ds) (ht : NoDigits t) :
    versionHere? (ds ++ t) = none := by
  obtain ⟨htake, hdrop⟩ := takeWhile_dropWhile_append hds.2 fun c hc =>
    ht c (List.mem_of_mem_head? hc)
  rw [versionHere?, htake, hdrop, versionParts_noDigits ht]
  split <;> rfl

theorem versionHere?_version (v : Version) (hminors : v.minors ≠ []) (ht : NoDigits t) :
    versionHere? (v.text ++ t) = some v.text := by
  obtain ⟨⟨hne, hmajor⟩, hgroups⟩ := List.forall_mem_cons.1 v.isNumeral
  obtain ⟨htake, hdrop⟩ := takeWhile_dropWhile_append hmajor (head_groups v.minors ht)
  have hlength : v.minors.length ≤ (v.text ++ t).length := by
    have hle := Suggestion.length_groups_le v.minors
    rw [Version.text, groups, List.length_append, List.length_append]
    omega
  have hparts := versionParts_groups hgroups ht hlength
  rw [Version.text, List.append_assoc] at hparts ⊢
  rw [versionHere?, htake, hdrop, hparts]
  obtain ⟨d, ds, hd⟩ := List.exists_cons_of_ne_nil hne
  obtain ⟨e, es, he⟩ : ∃ e es, groups v.minors = e :: es := by
    obtain ⟨ds, minors, hm⟩ := List.exists_cons_of_ne_nil hminors
    exact ⟨_, _, by rw [hm]; rfl⟩
  rw [hd, he]

/-- In front of digits nothing is found. -/
theorem version?_behind {b : List Char} (hb : NoDigits b) (s : List Char) :
    version? (b ++ s) = version? s :=
  search?_append fun u c v hu => by
    have hc : isDecimal c = false := hb c (hu ▸ List.mem_append_right u List.mem_cons_self)
    rw [versionHere?, List.takeWhile_cons_of_neg (by simp [hc])]

theorem version?_noDigits (hs : NoDigits s) : version? s = none := by
  have h := version?_behind hs []
  rwa [List.append_nil] at h

/-- What is read of a text that holds one version. -/
theorem version?_report {before behind : List Char} (v : Version) (hbefore : NoDigits before)
    (hbehind : NoDigits behind) :
    version? (before ++ (v.text ++ behind)) = if v.minors = [] then none else some v.text := by
  rw [version?_behind hbefore]
  split
  · next hm =>
    have hmajor := (List.forall_mem_cons.1 v.isNumeral).1
    have htext : v.text = v.major := by rw [Version.text, hm, groups, List.flatMap_nil, List.append_nil]
    rw [htext, ← version?_noDigits hbehind]
    refine search?_append fun u c w hu => ?_
    -- the digits from some place on are a group as well
    have hds : Location.IsNumeral (c :: w) :=
      ⟨List.cons_ne_nil c w, fun d hd => hmajor.2 d (hu ▸ List.mem_append_right u hd)⟩
    exact versionHere?_numeral hds hbehind
  · next hm => exact search?_of_some (versionHere?_version v hm hbehind)

/-- Further parts begin with a full stop. -/
theorem versionParts_eq (fuel : Nat) (s : List Char) :
    versionParts fuel s = [] ∨ ∃ r, versionParts fuel s = '.' :: r := by
  cases fuel with
  | zero => exact .inl rfl
  | succ fuel =>
    unfold versionParts
    split
    · split
      · exact .inl rfl
      · exact .inr ⟨_, rfl⟩
    · exact .inl rfl

/-- A version that is read has a full stop. -/
theorem mem_of_versionHere? {w : List Char} (h : versionHere? s = some w) : '.' ∈ w := by
  unfold versionHere? at h
  split at h
  · cases h
  · split at h
    · cases h
    · next hparts =>
      cases h
      obtain ⟨r, hr⟩ := (versionParts_eq _ _).resolve_left hparts
      rw [hr]
      exact List.mem_append_right _ List.mem_cons_self

theorem mem_of_version? {w : List Char} (h : version? s = some w) : '.' ∈ w := by
  unfold version? at h
  induction s with
  | nil => exact mem_of_versionHere? h
  | cons c s ih =>
    rw [search?] at h
    cases hc : versionHere? (c :: s) with
    | none =>
      rw [hc] at h
      exact ih h
    | some u =>
      rw [hc] at h
      cases h
      exact mem_of_versionHere? hc

end Install

namespace Host

open Install

variable {r : RunResult} {pinned : String}

/-- What a run says that printed one version: a worker is accepted if this is the pinned version and
    has two groups or more. -/
theorem readStatus_report {before behind : List Char} (v : Version) (hbefore : NoDigits before)
    (hbehind : NoDigits behind) (hr : r.output.toList = before ++ (v.text ++ behind)) :
    readStatus pinned (some r) =
      .status (if v.minors ≠ [] ∧ pinned.toList = v.text then .installed else .wrongVersion) := by
  have hfound : (version? r.output.toList).map String.ofList = some pinned ↔
      v.minors ≠ [] ∧ pinned.toList = v.text := by
    rw [hr, version?_report v hbefore hbehind]
    split
    · next hm => simp [hm]
    · next hm =>
      rw [Option.map_some, Option.some_inj, and_iff_right hm]
      exact ⟨fun h => by rw [← h, String.toList_ofList], fun h => by rw [← h, String.ofList_toList]⟩
  simp only [readStatus, hfound]

/-- A version without a full stop is never found. -/
theorem readStatus_undotted (hpinned : '.' ∉ pinned.toList) (r : RunResult) :
    readStatus pinned (some r) = .status .wrongVersion := by
  have hnone : (version? r.output.toList).map String.ofList ≠ some pinned := fun h => by
    obtain ⟨w, hw, rfl⟩ := Option.map_eq_some_iff.1 h
    exact hpinned (by rw [String.toList_ofList]; exact mem_of_version? hw)
  simp only [readStatus, if_neg hnone]

/-- A worker that prints just the pinned version is refused if this is a single number. -/
theorem readStatus_astray :
    readStatus "5" (some { output := "Intero 5\n" }) = .status .wrongVersion ∧
      readStatus "5.0" (some { output := "Intero 5.0\n" }) = .status .installed :=
  ⟨rfl, rfl⟩

/-! ## What a session does -/

/-- What is said of a run that went well. -/
theorem resume_status (hr : r.succeeded = true) (h : Host) :
    (resume .status (.value (.run r))).run h =
      .ok (.done (readStatus h.installer.workerVersion (some r))) h := by
  unfold resume
  dsimp only
  rw [run_bind_ok (run_get h), readRun, ranWell?, if_pos hr]
  rfl

theorem installer_transition (s : Nat) (phase : Phase) (h : Host) :
    (after (transition s phase) h).installer = h.installer := by
  have (f : Session → Session) : Within (Same Host.installer) (changeSession s f) := ⟨fun _ => rfl⟩
  have (cells : List Nat) : Within (Same Host.installer) (releaseAll cells) := ⟨fun _ => rfl⟩
  have (e : Event) : Within (Same Host.installer) (publish e) := ⟨fun _ => rfl⟩
  exact Within.rel_after (R := Same Host.installer) h

/-- A session that has no worker yet installs one unless one was accepted. -/
theorem gotStatus_installs {h : Host} {s : Nat} {a : Session.Core} {status : InstallStatus}
    (ha : h.core? s = some a) (hd : a.destroyed = false) (hphase : a.phase = .absent)
    (hauto : h.settings.autoInstall = true) (hstatus : status ≠ .installed) :
    ∃ h' root version, (gotStatus s status).run h =
      .ok (.call (install h.installer root version ++ [.gotInstall s])) h' := by
  obtain ⟨h₁, hrun, -⟩ := run_transition (s := s) .installing (h := h)
    (by rw [phase_eq ha, hphase]; rfl)
  have hsettings : h₁.settings = h.settings := by
    rw [← after_of_ok hrun]
    exact settings_transition s _ h
  have hinstaller : h₁.installer = h.installer := by
    rw [← after_of_ok hrun]
    exact installer_transition s _ h
  unfold gotStatus
  rw [run_bind_ok (run_session s h), if_neg (by rw [destroyed_eq ha, hd]; decide), if_neg hstatus]
  unfold beginInstall
  rw [run_bind_ok hrun, run_bind_ok (run_get h₁), run_bind_ok (run_session s h₁)]
  rw [if_neg (by rw [hsettings, hauto]; decide), run_bind_ok (Succeeds.run_unit ..), hinstaller]
  exact ⟨_, _, _, rfl⟩

/-- So a session whose version is a single number installs its worker at every start, whatever the
    worker says that was installed before. -/
theorem status_reinstalls {h : Host} {s : Nat} {a : Session.Core} (ha : h.core? s = some a)
    (hd : a.destroyed = false) (hphase : a.phase = .absent) (hauto : h.settings.autoInstall = true)
    (hpinned : '.' ∉ h.installer.workerVersion.toList) (hr : r.succeeded = true) :
    ∃ v, (resume .status (.value (.run r))).run h = .ok (.done v) h ∧
      ∃ h' root version, (resume (.gotStatus s) (.value v)).run h =
        .ok (.call (install h.installer root version ++ [.gotInstall s])) h' := by
  refine ⟨_, resume_status hr h, ?_⟩
  rw [readStatus_undotted hpinned]
  exact gotStatus_installs ha hd hphase hauto (by decide)

end Host

end GhciHost
