import Mathlib
import GhciHost.Project.Root
import GhciHost.Proofs.File.Followed

/-!
# Project roots that are accepted

A root is resolved, and its real path is held against the real paths of what the lists name.  What
is accepted lies below no entry of the blacklist and below some entry of the whitelist, however
the root and the entries are written.  If the links of the root do not run in a circle, what is
accepted is where it leads, a directory without links on the way, and it is accepted again.

A circle is passed found only if the path leaves it by a double dot.  No operating system finds
anything there, but a real path is made up of the components, and it may end at a link.

* `checkRoot_judged`   how a real path is judged;
* `checkRoot_lists`   what is accepted respects both lists;
* `Real.checkRoot_leadsTo`   what is accepted is where the root leads, and is accepted again;
* `Real.not_accepted`   no spelling of a directory on the blacklist is accepted;
* `checkRoot_eq_error`   when there is no verdict;
* `Real.checkRoot_verdict`   a root and entries that lead somewhere have one.
-/

namespace GhciHost

/-- There is something to read for each fault. -/
theorem RootFault.message_ne (fault : RootFault) : fault.message ≠ "" := by
  cases fault with
  | empty => decide
  | nullByte => decide
  | blacklisted | notWhitelisted | notDirectory =>
    intro h
    exact absurd (String.append_eq_empty_iff.1 h).1 (by decide)

namespace Disk

variable {d : Disk} {whitelist blacklist entries : List String} {root entry : String}
  {path base : List String} {e : PathError}

/-! ## Lists -/

theorem liesUnder_eq_true :
    d.liesUnder path entry = .ok true ↔
      ∃ base, d.resolveWritten entry = .ok base ∧ base <+: path := by
  unfold liesUnder
  cases hentry : d.resolveWritten entry with
  | ok base => simp [List.isPrefixOf_iff_prefix]
  | error e => cases e <;> simp

/-- An entry that no real path is known of is an error, unless there is a null byte in it. -/
theorem liesUnder_eq_error :
    d.liesUnder path entry = .error e ↔ d.resolveWritten entry = .error e ∧ e ≠ .nullByte := by
  unfold liesUnder
  cases hentry : d.resolveWritten entry with
  | ok base => simp
  | error e' =>
    obtain rfl | rfl | ⟨place, rfl⟩ := resolveWritten_error hentry
    · constructor
      · exact nofun
      · rintro ⟨he, hne⟩
        cases he
        exact absurd rfl hne
    · simp only [Except.error.injEq, iff_self_and]
      rintro rfl
      exact nofun
    · simp only [Except.error.injEq, iff_self_and]
      rintro rfl
      exact nofun

theorem firstOver?_eq_none :
    d.firstOver? path entries = .ok none ↔ ∀ entry ∈ entries, d.liesUnder path entry = .ok false := by
  induction entries with
  | nil => simp [firstOver?]
  | cons entry entries ih =>
    rw [firstOver?, List.forall_mem_cons]
    cases hlies : d.liesUnder path entry with
    | error e => simp
    | ok b => cases b <;> simp [ih]

theorem liesUnder_of_firstOver? (h : d.firstOver? path entries = .ok (some entry)) :
    entry ∈ entries ∧ d.liesUnder path entry = .ok true := by
  induction entries with
  | nil => cases h
  | cons first entries ih =>
    rw [firstOver?] at h
    split at h
    · cases h
    · next hlies =>
      cases h
      exact ⟨List.mem_cons_self, hlies⟩
    · obtain ⟨hmem, hlies⟩ := ih h
      exact ⟨List.mem_cons_of_mem first hmem, hlies⟩

/-- A list is read up to the first entry that the path lies under, or that is an error. -/
theorem firstOver?_eq_error :
    d.firstOver? path entries = .error e ↔
      ∃ before entry after, entries = before ++ entry :: after ∧
        (∀ x ∈ before, d.liesUnder path x = .ok false) ∧ d.liesUnder path entry = .error e := by
  constructor
  · intro h
    induction entries with
    | nil => cases h
    | cons first entries ih =>
      rw [firstOver?] at h
      split at h
      · next hlies =>
        cases h
        exact ⟨[], first, entries, rfl, nofun, hlies⟩
      · cases h
      · next hlies =>
        obtain ⟨before, entry, after, rfl, hbefore, hentry⟩ := ih h
        exact ⟨first :: before, entry, after, rfl, List.forall_mem_cons.2 ⟨hlies, hbefore⟩, hentry⟩
  · rintro ⟨before, entry, after, rfl, hbefore, hentry⟩
    induction before with
    | nil =>
      rw [List.nil_append, firstOver?, hentry]
    | cons first before ih =>
      obtain ⟨hfirst, hbefore⟩ := List.forall_mem_cons.1 hbefore
      rw [List.cons_append, firstOver?, hfirst]
      exact ih hbefore

/-! ## Directories -/

theorem isDirectory_eq_true :
    d.isDirectory path = .ok true ↔
      d.tree.stat [] (Pathname.renderAbsolute path) = .ok .directory := by
  unfold isDirectory
  dsimp only
  split
  · next n hstat => simp [hstat]
  · next hstat => simp [hstat]
  · next hstat => simp [hstat]

/-- Only a name that is too long keeps a real path from being looked at. -/
theorem isDirectory_eq_error :
    d.isDirectory path = .error e ↔
      d.tree.stat [] (Pathname.renderAbsolute path) = .error .nameTooLong ∧
        e = .file .nameTooLong (Pathname.renderAbsolute path) := by
  unfold isDirectory
  dsimp only
  split
  · next n hstat => simp [hstat]
  · next hstat => simp [hstat, eq_comm]
  · next fault hlong hstat => simp [hstat, show fault ≠ .nameTooLong from hlong]

/-! ## Verdicts -/

/-- Whether the whitelist lets a path pass; an empty one does. -/
def Whitelisted (d : Disk) (whitelist : List String) (path : List String) : Prop :=
  ∃ found, d.firstOver? path whitelist = .ok found ∧ (whitelist = [] ∨ found ≠ none)

theorem Whitelisted.ne_error (h : d.Whitelisted whitelist path) (e : PathError) :
    d.firstOver? path whitelist ≠ .error e := by
  obtain ⟨found, hfound, -⟩ := h
  rw [hfound]
  exact nofun

/-- What comes of a root with a real path, or that there is no verdict. -/
inductive Judged (d : Disk) (whitelist blacklist : List String) (path : List String) :
    Except PathError (Except RootFault (List String)) → Prop
  | blacklistError {e : PathError} : d.firstOver? path blacklist = .error e →
      Judged d whitelist blacklist path (.error e)
  | blacklisted {entry : String} : d.firstOver? path blacklist = .ok (some entry) →
      Judged d whitelist blacklist path (.ok (.error (.blacklisted entry)))
  | whitelistError {e : PathError} : d.firstOver? path blacklist = .ok none →
      d.firstOver? path whitelist = .error e →
      Judged d whitelist blacklist path (.error e)
  | notWhitelisted : d.firstOver? path blacklist = .ok none → whitelist ≠ [] →
      d.firstOver? path whitelist = .ok none →
      Judged d whitelist blacklist path
        (.ok (.error (.notWhitelisted (Pathname.renderAbsolute path))))
  | unknown {e : PathError} : d.firstOver? path blacklist = .ok none →
      d.Whitelisted whitelist path → d.isDirectory path = .error e →
      Judged d whitelist blacklist path (.error e)
  | notDirectory : d.firstOver? path blacklist = .ok none → d.Whitelisted whitelist path →
      d.isDirectory path = .ok false →
      Judged d whitelist blacklist path
        (.ok (.error (.notDirectory (Pathname.renderAbsolute path))))
  | accepted : d.firstOver? path blacklist = .ok none → d.Whitelisted whitelist path →
      d.isDirectory path = .ok true → Judged d whitelist blacklist path (.ok (.ok path))

/-- A root that is resolved is judged by its real path. -/
theorem checkRoot_judged (whitelist blacklist : List String) (hroot : root ≠ "")
    (hpath : d.resolveWritten root = .ok path) :
    d.Judged whitelist blacklist path (d.checkRoot whitelist blacklist root) := by
  unfold checkRoot
  rw [if_neg (by simpa using hroot), hpath]
  dsimp only
  cases hblack : d.firstOver? path blacklist with
  | error e => exact .blacklistError hblack
  | ok found =>
    cases found with
    | some entry => exact .blacklisted hblack
    | none =>
      show d.Judged whitelist blacklist path (do
        if !whitelist.isEmpty && (← d.firstOver? path whitelist).isNone then
          .ok (.error (.notWhitelisted (Pathname.renderAbsolute path)))
        else if ← d.isDirectory path then .ok (.ok path)
        else .ok (.error (.notDirectory (Pathname.renderAbsolute path))))
      cases hwhite : d.firstOver? path whitelist with
      | error e => exact .whitelistError hblack hwhite
      | ok found =>
        show d.Judged whitelist blacklist path (if !whitelist.isEmpty && found.isNone then _ else _)
        by_cases hpass : whitelist ≠ [] ∧ found = none
        · obtain ⟨hne, rfl⟩ := hpass
          rw [if_pos (by simpa using hne)]
          exact .notWhitelisted hblack hne hwhite
        · rw [if_neg (by simpa using hpass)]
          have hlisted : d.Whitelisted whitelist path :=
            ⟨found, hwhite, Decidable.or_iff_not_imp_left.2 fun hne hfound => hpass ⟨hne, hfound⟩⟩
          cases hdir : d.isDirectory path with
          | error e => exact .unknown hblack hlisted hdir
          | ok b =>
            cases b with
            | false => exact .notDirectory hblack hlisted hdir
            | true => exact .accepted hblack hlisted hdir

/-- A root that is not resolved has no verdict, unless there is a null byte in it. -/
theorem checkRoot_unresolved (hroot : root ≠ "") (he : d.resolveWritten root = .error e) :
    d.checkRoot whitelist blacklist root =
      if e = .nullByte then .ok (.error .nullByte) else .error e := by
  unfold checkRoot
  rw [if_neg (by simpa using hroot), he]
  cases e <;> simp

/-- The verdict depends on the real path alone. -/
theorem checkRoot_congr {other : String} (hroot : root ≠ "") (hother : other ≠ "")
    (h : d.resolveWritten root = d.resolveWritten other) :
    d.checkRoot whitelist blacklist root = d.checkRoot whitelist blacklist other := by
  unfold checkRoot
  rw [if_neg (by simpa using hroot), if_neg (by simpa using hother), h]

/-! ## Roots that are accepted -/

/-- What is accepted is the real path of the root, passes both lists, and is a directory. -/
theorem checkRoot_accepted (h : d.checkRoot whitelist blacklist root = .ok (.ok path)) :
    root ≠ "" ∧ d.resolveWritten root = .ok path ∧ d.firstOver? path blacklist = .ok none ∧
      d.Whitelisted whitelist path ∧ d.isDirectory path = .ok true := by
  have hroot : root ≠ "" := by
    rintro rfl
    cases h
  refine ⟨hroot, ?_⟩
  cases hresolve : d.resolveWritten root with
  | error e =>
    rw [checkRoot_unresolved hroot hresolve] at h
    split at h <;> cases h
  | ok place =>
    have hjudged := checkRoot_judged whitelist blacklist hroot hresolve
    rw [h] at hjudged
    cases hjudged with
    | accepted hblack hwhite hdir => exact ⟨rfl, hblack, hwhite, hdir⟩

/-- What is accepted lies below no entry of the blacklist, and below one of the whitelist if there
    are any. -/
theorem checkRoot_lists (h : d.checkRoot whitelist blacklist root = .ok (.ok path)) :
    (∀ entry ∈ blacklist, ∀ base, d.resolveWritten entry = .ok base → ¬ base <+: path) ∧
      (whitelist ≠ [] → ∃ entry ∈ whitelist, ∃ base,
        d.resolveWritten entry = .ok base ∧ base <+: path) := by
  obtain ⟨-, -, hblack, hwhite, -⟩ := checkRoot_accepted h
  constructor
  · intro entry hentry base hbase hprefix
    have hlies := firstOver?_eq_none.1 hblack entry hentry
    rw [liesUnder_eq_true.2 ⟨base, hbase, hprefix⟩] at hlies
    cases hlies
  · intro hne
    obtain ⟨found, hfound, hsome⟩ := hwhite
    obtain ⟨entry, rfl⟩ := Option.ne_none_iff_exists'.1 (hsome.resolve_left hne)
    obtain ⟨hmem, hlies⟩ := liesUnder_of_firstOver? hfound
    exact ⟨entry, hmem, liesUnder_eq_true.1 hlies⟩

/-- A directory stands at its real path. -/
theorem node?_of_isDirectory (hfree : d.tree.LinkFree path) (hnames : ∀ c ∈ path, IsName c)
    (h : d.isDirectory path = .ok true) : d.tree.node? path = some .directory := by
  obtain ⟨place, hlocate⟩ := FileTree.locate_of_stat (isDirectory_eq_true.1 h)
  rw [FileTree.locate_renderAbsolute hnames] at hlocate
  split at hlocate
  · cases hlocate
  · have hpath : place = path := FileTree.walk_straight (hfree.straight hnames) hlocate
    rw [← hpath]
    exact FileTree.node?_of_walk hlocate

namespace Real

variable (hreal : d.Real)
include hreal

/-- If the root leads somewhere, what is accepted is where it leads.  There is a directory, no link
    is on the way, and the path that is given back is accepted again. -/
theorem checkRoot_leadsTo {place : List String} (hleads : d.LeadsTo root place)
    (h : d.checkRoot whitelist blacklist root = .ok (.ok path)) :
    path = place ∧ d.tree.LinkFree path ∧ d.tree.node? path = some .directory ∧
      d.checkRoot whitelist blacklist (Pathname.renderAbsolute path) = .ok (.ok path) := by
  obtain ⟨hroot, hpath, -, -, hdir⟩ := checkRoot_accepted h
  have hplace := hreal.resolveWritten_leadsTo hleads
  rw [hpath] at hplace
  cases hplace
  obtain ⟨hfree, hnames⟩ := hreal.leadsTo_linkFree hleads
  have hnode := node?_of_isDirectory hfree hnames hdir
  -- the path leads to itself, so it is judged as the root was
  have hself : d.LeadsTo (Pathname.renderAbsolute path) path := by
    refine ⟨⟨true, path⟩, 0, ?_, fun c hc => (hreal.names path _ hnode c hc).2, ?_⟩
    · rw [Pathname.parse_renderAbsolute hnames]
      rfl
    · exact (hfree.straight hnames).leads
  refine ⟨rfl, hfree, hnode, ?_⟩
  rw [checkRoot_congr _ hroot, h]
  · rw [hpath, hreal.resolveWritten_leadsTo hself]
  · simp [Pathname.renderAbsolute]

/-- No spelling of a directory on the blacklist is accepted, nor of one below it. -/
theorem not_accepted {rest : List String} (hentry : entry ∈ blacklist)
    (hbase : d.LeadsTo entry base) (hroot : d.LeadsTo root (base ++ rest)) :
    d.checkRoot whitelist blacklist root ≠ .ok (.ok path) := by
  intro h
  obtain ⟨rfl, -⟩ := hreal.checkRoot_leadsTo hroot h
  exact (checkRoot_lists h).1 entry hentry base (hreal.resolveWritten_leadsTo hbase)
    (List.prefix_append base rest)

end Real

/-- A directory, a link to it, and a link that runs in a circle. -/
def circled : Disk :=
  { tree := ⟨⟨[(["a"], .directory), (["b"], .link "a"), (["o"], .link "o")]⟩⟩ }

theorem real_circled : circled.Real := by
  refine ⟨fun path node hnode c hc => ?_, rfl, FileTree.linkFree_nil _⟩
  have hpath : path ≠ [] := List.ne_nil_of_mem hc
  have hentry := FileTree.mem_entries_of_node? hpath hnode
  simp only [circled, List.mem_cons, Prod.mk.injEq, List.not_mem_nil, or_false] at hentry
  unfold IsName
  obtain ⟨rfl, -⟩ | ⟨rfl, -⟩ | ⟨rfl, -⟩ := hentry
  all_goals
    rw [List.mem_singleton.1 hc]
    decide

/-- A path that leaves a circle by a double dot is taken for real where it ends at a link.  So a
    directory on the blacklist is accepted, under a name that is not accepted itself. -/
theorem checkRoot_leaving_circle :
    circled.checkRoot [] ["/a"] "/o/../b" = .ok (.ok ["b"]) ∧
      circled.checkRoot [] ["/a"] "/b" = .ok (.error (.blacklisted "/a")) := by
  constructor
  · cbv
  · cbv

/-- What has a verdict and is not resolved to a directory is refused, for a reason. -/
theorem checkRoot_refused {verdict : Except RootFault (List String)}
    (h : d.checkRoot whitelist blacklist root = .ok verdict)
    (hnot : ∀ path, d.resolveWritten root = .ok path → d.isDirectory path ≠ .ok true) :
    ∃ fault, verdict = .error fault ∧ fault.message ≠ "" := by
  cases verdict with
  | error fault => exact ⟨fault, rfl, fault.message_ne⟩
  | ok path =>
    obtain ⟨-, hpath, -, -, hdir⟩ := checkRoot_accepted h
    exact absurd hdir (hnot path hpath)

/-! ## Roots without a verdict -/

/-- There is no verdict if the root or an entry that has to be looked at is not resolved, or if
    the real path is too long. -/
theorem checkRoot_eq_error :
    d.checkRoot whitelist blacklist root = .error e ↔
      root ≠ "" ∧ (d.resolveWritten root = .error e ∧ e ≠ .nullByte ∨
        ∃ path, d.resolveWritten root = .ok path ∧ (d.firstOver? path blacklist = .error e ∨
          d.firstOver? path blacklist = .ok none ∧ (d.firstOver? path whitelist = .error e ∨
            d.Whitelisted whitelist path ∧ d.isDirectory path = .error e))) := by
  by_cases hroot : root = ""
  · subst hroot
    simp [checkRoot]
  cases hresolve : d.resolveWritten root with
  | error e' =>
    rw [checkRoot_unresolved hroot hresolve]
    split
    · next hnull =>
      subst hnull
      simp [eq_comm]
    · next hnull =>
      simp only [Except.error.injEq]
      constructor
      · rintro rfl
        exact ⟨hroot, .inl ⟨rfl, hnull⟩⟩
      · rintro ⟨-, ⟨he, -⟩ | ⟨path, hpath, -⟩⟩
        · exact he
        · cases hpath
  | ok path =>
    have hjudged := checkRoot_judged whitelist blacklist hroot hresolve
    generalize d.checkRoot whitelist blacklist root = verdict at hjudged
    cases hjudged with
    | blacklistError hblack => simp [hroot, hblack]
    | blacklisted hblack => simp [hblack]
    | whitelistError hblack hwhite => simp [hroot, hblack, Whitelisted, hwhite]
    | notWhitelisted hblack hne hwhite => simp [hblack, Whitelisted, hwhite, hne]
    | unknown hblack hwhite hdir => simp [hroot, hblack, hwhite, hwhite.ne_error, hdir]
    | notDirectory hblack hwhite hdir => simp [hblack, hwhite.ne_error, hdir]
    | accepted hblack hwhite hdir => simp [hblack, hwhite.ne_error, hdir]

/-- A root that leads somewhere, or has a null byte in it, has a verdict if that holds for all
    entries of the lists as well and its real path is short enough.  It is accepted only where it
    leads to a directory. -/
theorem Real.checkRoot_verdict (hreal : d.Real)
    (hleads : ∀ written ∈ root :: (blacklist ++ whitelist),
      d.resolveWritten written = .error .nullByte ∨ ∃ path, d.LeadsTo written path)
    (hlong : ∀ path, d.LeadsTo root path →
      d.tree.stat [] (Pathname.renderAbsolute path) ≠ .error .nameTooLong) :
    (∃ path, d.checkRoot whitelist blacklist root = .ok (.ok path) ∧ d.LeadsTo root path ∧
      d.tree.node? path = some .directory) ∨
    ∃ fault, d.checkRoot whitelist blacklist root = .ok (.error fault) ∧ fault.message ≠ "" := by
  obtain ⟨hroot, hentries⟩ := List.forall_mem_cons.1 hleads
  -- an entry that is an error is neither resolved, nor is there a null byte in it
  have hlist (entries : List String) (hsub : entries ⊆ blacklist ++ whitelist)
      (path : List String) (e : PathError) : d.firstOver? path entries ≠ .error e := by
    intro hfound
    obtain ⟨before, entry, after, rfl, -, hlies⟩ := firstOver?_eq_error.1 hfound
    obtain ⟨he, hne⟩ := liesUnder_eq_error.1 hlies
    obtain hnull | ⟨base, hbase⟩ := hentries entry (hsub (by simp))
    · rw [he] at hnull
      cases hnull
      exact hne rfl
    · rw [hreal.resolveWritten_leadsTo hbase] at he
      cases he
  cases hverdict : d.checkRoot whitelist blacklist root with
  | error e =>
    obtain ⟨-, ⟨he, hne⟩ | ⟨path, hpath, hblack | ⟨-, hwhite | ⟨-, hdir⟩⟩⟩⟩ :=
      checkRoot_eq_error.1 hverdict
    · obtain hnull | ⟨path, hpath⟩ := hroot
      · rw [he] at hnull
        cases hnull
        exact absurd rfl hne
      · rw [hreal.resolveWritten_leadsTo hpath] at he
        cases he
    · exact absurd hblack (hlist _ (List.subset_append_left _ _) path e)
    · exact absurd hwhite (hlist _ (List.subset_append_right _ _) path e)
    · obtain hnull | ⟨place, hplace⟩ := hroot
      · rw [hpath] at hnull
        cases hnull
      · rw [hreal.resolveWritten_leadsTo hplace] at hpath
        cases hpath
        exact absurd (isDirectory_eq_error.1 hdir).1 (hlong _ hplace)
  | ok verdict =>
    cases verdict with
    | error fault => exact .inr ⟨fault, rfl, fault.message_ne⟩
    | ok path =>
      obtain ⟨-, hpath, -⟩ := checkRoot_accepted hverdict
      obtain hnull | ⟨place, hplace⟩ := hroot
      · rw [hpath] at hnull
        cases hnull
      · obtain ⟨rfl, -, hnode, -⟩ := hreal.checkRoot_leadsTo hplace hverdict
        exact .inl ⟨path, rfl, hplace, hnode⟩

/-- There is no verdict on a root in a circle or in the home of nobody, nor on any other root while
    such an entry is on a list. -/
theorem checkRoot_circled :
    circled.checkRoot [] [] "/o" = .error (.linkLoop "/o") ∧
      circled.checkRoot [] [] "~nobody" = .error .noHome ∧
      circled.checkRoot [] ["/o"] "/a" = .error (.linkLoop "/o") ∧
      circled.checkRoot ["~nobody"] [] "/a" = .error .noHome := by
  refine ⟨?_, ?_, ?_, ?_⟩
  · cbv
  · cbv
  · cbv
  · cbv

/-- Nor is there one on a name that no file can have. -/
theorem Real.checkRoot_long (hreal : d.Real) {c : String} (hname : IsName c)
    (hnull : '\x00' ∉ c.toList) (hfree : d.tree.node? [c] = none)
    (hlong : FileTree.maxName < Text.Utf8.size c.toList) :
    d.checkRoot [] [] (Pathname.renderAbsolute [c]) =
      .error (.file .nameTooLong (Pathname.renderAbsolute [c])) := by
  have hnames : ∀ x ∈ [c], IsName x := List.forall_mem_singleton.2 hname
  have hleads : d.LeadsTo (Pathname.renderAbsolute [c]) [c] := by
    refine ⟨⟨true, [c]⟩, 0, ?_, List.forall_mem_singleton.2 hnull, ?_⟩
    · rw [Pathname.parse_renderAbsolute hnames]
      rfl
    · exact .down (FileTree.descends_of_isName hname) (by simp [hfree]) .nil
  have hstat : d.tree.stat [] (Pathname.renderAbsolute [c]) = .error .nameTooLong := by
    unfold FileTree.stat
    rw [FileTree.locate_renderAbsolute hnames]
    have hwalk : d.tree.walk true FileTree.maxLinks [] [c] = .error .nameTooLong := by
      simp [FileTree.walk, FileTree.node?, hname.1, hname.2.1, hname.2.2.1, hlong]
    rw [hwalk, ite_self]
  refine checkRoot_eq_error.2 ⟨by simp [Pathname.renderAbsolute], .inr
    ⟨[c], hreal.resolveWritten_leadsTo hleads, .inr ⟨rfl, .inr ⟨⟨none, rfl, .inl rfl⟩, ?_⟩⟩⟩⟩
  exact isDirectory_eq_error.2 ⟨hstat, rfl⟩

end Disk

end GhciHost
