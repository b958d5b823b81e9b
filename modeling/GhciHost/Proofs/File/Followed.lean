import GhciHost.Proofs.File.Written

/-!
# Links that are followed

A path is followed name by name.  A link stands for the path that is its target, seen from the
directory that holds it or from the root, and where that leads the rest of the path begins.  Names
that nothing stands under are passed as if they were directories, so a path leads somewhere unless
its links run in a circle.

The number of links that are met on the way is a function of the path.  A link that is met again
while it is followed would have to be met more often than it is, so no path that leads somewhere
comes to a circle, and the links that are known to lead somewhere need not be followed again.

* `Leads`, `Leads.unique`   where a path leads, and over how many links;
* `Leads.linkFree`   the path that it leads to holds no link;
* `leads_of_walk`   where an operating system finds something, the path leads there;
* `follow_leads`   following links finds where a path leads;
* `Disk.LeadsTo`, `Disk.Real.resolveWritten_leadsTo`   a path as a person writes it;
* `Disk.leadsTo_of_locate`   a path at which something is found.
-/

namespace GhciHost

namespace FileTree

/-! ## Where a path leads -/

/-- The directory from which the target of a link is seen that stands in `here`. -/
def startOf (target : String) (here : List String) : List String :=
  if target.toList.head? = some '/' then [] else here

/-- A component that leads down, or over a link. -/
def Descends (c : String) : Prop := ¬(c = "" ∨ c = ".") ∧ c ≠ ".."

/-- Names that are followed from a place lead to a path, with so many links on the way. -/
inductive Leads (t : FileTree) : Nat → List String → List String → List String → Prop
  | nil : Leads t 0 here [] here
  | stay : c = "" ∨ c = "." → Leads t n here rest path → Leads t n here (c :: rest) path
  | up : Leads t n here.dropLast rest path → Leads t n here (".." :: rest) path
  | down : Descends c → (∀ target, t.node? (here ++ [c]) ≠ some (.link target)) →
      Leads t n (here ++ [c]) rest path → Leads t n here (c :: rest) path
  /-- The target leads to a place, and the rest leads on from there. -/
  | link : Descends c →
      t.node? (here ++ [c]) = some (.link target) →
      Leads t m (startOf target here) (Pathname.pieces target) place →
      Leads t n place rest path → Leads t (m + n + 1) here (c :: rest) path

variable {t : FileTree} {n m links : Nat} {here names path other : List String} {c target : String}

theorem not_descends_dots : ¬ Descends ".." := fun h => h.2 rfl

/-- A path leads to one place only, over one number of links. -/
theorem Leads.unique (h : t.Leads n here names path) (h' : t.Leads m here names other) :
    n = m ∧ path = other := by
  induction h generalizing m other with
  | nil =>
    cases h'
    exact ⟨rfl, rfl⟩
  | stay hc _ ih =>
    cases h' with
    | stay _ h' => exact ih h'
    | up _ => simp at hc
    | down hdown _ _ => exact absurd hc hdown.1
    | link hdown _ _ _ => exact absurd hc hdown.1
  | up _ ih =>
    cases h' with
    | stay hc _ => simp at hc
    | up h' => exact ih h'
    | down hdown _ _ => exact absurd hdown not_descends_dots
    | link hdown _ _ _ => exact absurd hdown not_descends_dots
  | down hdown hlink _ ih =>
    cases h' with
    | stay hc _ => exact absurd hc hdown.1
    | up _ => exact absurd hdown not_descends_dots
    | down _ _ h' => exact ih h'
    | link _ hlink' _ _ => exact absurd hlink' (hlink _)
  | link hdown hlink _ _ ihTarget ihRest =>
    cases h' with
    | stay hc _ => exact absurd hc hdown.1
    | up _ => exact absurd hdown not_descends_dots
    | down _ hnone _ => exact absurd hlink (hnone _)
    | link _ hlink' hTarget hRest =>
      -- it is the same link, so its target leads to the same place
      rw [hlink] at hlink'
      cases hlink'
      obtain ⟨rfl, rfl⟩ := ihTarget hTarget
      obtain ⟨rfl, rfl⟩ := ihRest hRest
      exact ⟨rfl, rfl⟩

/-- A path in two parts leads to a place over the links of both. -/
theorem Leads.split {more : List String} (h : t.Leads n here (names ++ more) path) :
    ∃ k m place, k + m = n ∧ t.Leads k here names place ∧ t.Leads m place more path := by
  induction names generalizing n here with
  | nil => exact ⟨0, n, here, Nat.zero_add n, .nil, h⟩
  | cons c names ih =>
    cases h with
    | stay hc h =>
      obtain ⟨k, m, place, hsum, h₁, h₂⟩ := ih h
      exact ⟨k, m, place, hsum, .stay hc h₁, h₂⟩
    | up h =>
      obtain ⟨k, m, place, hsum, h₁, h₂⟩ := ih h
      exact ⟨k, m, place, hsum, .up h₁, h₂⟩
    | down hdown hlink h =>
      obtain ⟨k, m, place, hsum, h₁, h₂⟩ := ih h
      exact ⟨k, m, place, hsum, .down hdown hlink h₁, h₂⟩
    | link hdown hlink hTarget h =>
      obtain ⟨k, m, place, hsum, h₁, h₂⟩ := ih h
      refine ⟨_, m, place, ?_, .link hdown hlink hTarget h₁, h₂⟩
      omega

/-- Empty and dot components make no difference. -/
theorem leads_filter (h : t.Leads n here names path) :
    t.Leads n here (names.filter Pathname.isPart) path := by
  induction h with
  | nil => exact .nil
  | stay hc _ ih =>
    rw [List.filter_cons_of_neg]
    · exact ih
    · rcases hc with rfl | rfl <;> decide
  | up _ ih =>
    rw [List.filter_cons_of_pos (by decide)]
    exact .up ih
  | down hdown hlink _ ih =>
    rw [List.filter_cons_of_pos (by simpa [Pathname.isPart, not_or] using hdown.1)]
    exact .down hdown hlink ih
  | link hdown hlink hTarget _ _ ih =>
    rw [List.filter_cons_of_pos (by simpa [Pathname.isPart, not_or] using hdown.1)]
    exact .link hdown hlink hTarget ih

/-! ## Paths without links -/

/-- No link stands on the way to a path, nor at its end. -/
def LinkFree (t : FileTree) (path : List String) : Prop :=
  ∀ p target, p <+: path → t.node? p ≠ some (.link target)

theorem linkFree_nil (t : FileTree) : t.LinkFree [] := by
  intro p target hp
  rw [List.prefix_nil.1 hp]
  exact nofun

theorem LinkFree.of_prefix (h : t.LinkFree path) (hp : other <+: path) : t.LinkFree other :=
  fun p target hp' => h p target (hp'.trans hp)

theorem LinkFree.concat (h : t.LinkFree here)
    (hlink : ∀ target, t.node? (here ++ [c]) ≠ some (.link target)) : t.LinkFree (here ++ [c]) := by
  intro p target hp
  obtain rfl | hp := List.prefix_concat_iff.1 hp
  · exact hlink target
  · exact h p target hp

theorem LinkFree.startOf (h : t.LinkFree here) (target : String) :
    t.LinkFree (startOf target here) := by
  unfold FileTree.startOf
  split
  · exact linkFree_nil t
  · exact h

/-- From a place that holds no link, a path leads to one that holds none. -/
theorem Leads.linkFree (h : t.Leads n here names path) (hhere : t.LinkFree here) :
    t.LinkFree path := by
  induction h with
  | nil => exact hhere
  | stay _ _ ih => exact ih hhere
  | up _ ih => exact ih (hhere.of_prefix (List.dropLast_prefix _))
  | down _ hlink _ ih => exact ih (hhere.concat hlink)
  | link _ _ _ _ ihTarget ihRest => exact ihRest (ihTarget (hhere.startOf _))

theorem descends_of_isName (h : IsName c) : Descends c := ⟨not_or.2 ⟨h.1, h.2.1⟩, h.2.2.1⟩

/-- Names without links lead straight down. -/
theorem Straight.leads (h : t.Straight here names) : t.Leads 0 here names (here ++ names) := by
  induction names generalizing here with
  | nil =>
    rw [List.append_nil]
    exact .nil
  | cons c rest ih =>
    obtain ⟨hname, hlink, hrest⟩ := h
    have hdown := ih hrest
    rw [List.append_assoc, List.singleton_append] at hdown
    exact .down (descends_of_isName hname) hlink hdown

/-! ## Where an operating system finds something -/

/-- A path that something is found at leads there, over no more links than were allowed. -/
theorem leads_of_walk {node : FileNode} (h : t.walk true links here names = .ok (.taken path node)) :
    ∃ n ≤ links, t.Leads n here names path := by
  generalize hfollow : true = follow at h
  fun_induction FileTree.walk t follow links here names with
  | case1 links here n hn =>
    cases h
    exact ⟨0, Nat.zero_le links, .nil⟩
  | case4 links here c rest hn hc ih =>
    obtain ⟨n, hle, hleads⟩ := ih h
    exact ⟨n, hle, .stay hc hleads⟩
  | case5 links here rest hn hc ih =>
    obtain ⟨n, hle, hleads⟩ := ih h
    exact ⟨n, hle, .up hleads⟩
  | case9 links here c rest hn hc hdots hsize target hlink hrest =>
    rw [← hfollow] at hrest
    simp at hrest
  | case11 here c rest hn hc hdots hsize target hlink hrest links ih =>
    -- the target and the rest are walked as one path
    obtain ⟨n, hle, hleads⟩ := ih h
    obtain ⟨k, m, place, hsum, hTarget, hRest⟩ := hleads.split
    exact ⟨k + m + 1, by omega, .link ⟨hc, hdots⟩ hlink hTarget hRest⟩
  | case12 links here c rest hn hc hdots hsize node hlink hnode ih =>
    obtain ⟨n, hle, hleads⟩ := ih h
    refine ⟨n, hle, .down ⟨hc, hdots⟩ (fun target htarget => ?_) hleads⟩
    rw [hnode] at htarget
    exact hlink target (Option.some.inj htarget)
  | _ => cases h

/-! ## Following links -/

/-- What is noted of the links met so far: where a link leads, or that it is being followed. -/
abbrev Notes := List (List String × Option (List String))

variable {seen : Notes}

/-- Where links are noted to lead, their targets lead. -/
def Known (t : FileTree) (seen : Notes) : Prop :=
  ∀ link place, seen.lookup link = some (some place) → ∃ target m,
    t.node? link = some (.link target) ∧
      t.Leads m (startOf target link.dropLast) (Pathname.pieces target) place

/-- At least `n` links are met behind each link that is being followed. -/
def Within (t : FileTree) (n : Nat) (seen : Notes) : Prop :=
  ∀ link, seen.lookup link = some none → ∀ target m place, t.node? link = some (.link target) →
    t.Leads m (startOf target link.dropLast) (Pathname.pieces target) place → n ≤ m

theorem Within.mono (h : t.Within n seen) (hmn : m ≤ n) : t.Within m seen :=
  fun link hlink target k place htarget hleads =>
    Nat.le_trans hmn (h link hlink target k place htarget hleads)

/-- Whether something is a link. -/
def isLink : FileNode → Bool
  | .link _ => true
  | _ => false

/-- The number of links in a tree that nothing is noted of. -/
def unmet (t : FileTree) (seen : Notes) : Nat :=
  t.entries.entries.countP fun e => isLink e.2 && (seen.lookup e.1).isNone

theorem unmet_nil (t : FileTree) : t.unmet [] = t.linkCount := by
  refine List.countP_congr fun e _ => ?_
  obtain ⟨path, node⟩ := e
  cases node <;> rfl

theorem lookup_cons (link other : List String) (note : Option (List String)) (seen : Notes) :
    ((link, note) :: seen).lookup other = if other = link then some note else seen.lookup other := by
  rw [List.lookup_cons]
  by_cases h : other = link
  · simp [h]
  · rw [if_neg h, beq_eq_false_iff_ne.2 h]

/-- A note is of one link at most. -/
theorem unmet_cons_le (t : FileTree) (link : List String) (note : Option (List String))
    (seen : Notes) : t.unmet ((link, note) :: seen) ≤ t.unmet seen := by
  refine List.countP_mono_left fun e _ he => ?_
  rw [Bool.and_eq_true, lookup_cons] at he
  rw [Bool.and_eq_true]
  refine ⟨he.1, ?_⟩
  by_cases h : e.1 = link
  · simp [h] at he
  · rw [if_neg h] at he
    exact he.2

theorem mem_entries_of_node? {node : FileNode} (hpath : path ≠ []) (h : t.node? path = some node) :
    (path, node) ∈ t.entries.entries := by
  obtain ⟨c, cs, rfl⟩ := List.exists_cons_of_ne_nil hpath
  have hfind : t.entries.find? (c :: cs) = some node := h
  generalize c :: cs = key at hfind
  unfold Keyed.find? at hfind
  generalize t.entries.entries = es at hfind ⊢
  induction es with
  | nil => cases hfind
  | cons e es ih =>
    obtain ⟨key', node'⟩ := e
    rw [Keyed.findIn_cons] at hfind
    by_cases hkey : key' = key
    · rw [if_pos hkey] at hfind
      cases hfind
      rw [hkey]
      exact List.mem_cons_self
    · rw [if_neg hkey] at hfind
      exact List.mem_cons_of_mem _ (ih hfind)

/-- A link that is met for the first time is one less to meet. -/
theorem unmet_cons_lt (hlink : t.node? path = some (.link target)) (hpath : path ≠ [])
    (hnew : seen.lookup path = none) (note : Option (List String)) :
    t.unmet ((path, note) :: seen) < t.unmet seen := by
  obtain ⟨before, after, hentries⟩ := List.append_of_mem (mem_entries_of_node? hpath hlink)
  have hle (es : List (List String × FileNode)) :
      es.countP (fun e => isLink e.2 && (((path, note) :: seen).lookup e.1).isNone) ≤
        es.countP (fun e => isLink e.2 && (seen.lookup e.1).isNone) :=
    unmet_cons_le ⟨⟨es⟩⟩ path note seen
  have hbefore := hle before
  have hafter := hle after
  unfold unmet
  rw [hentries, List.countP_append, List.countP_append, List.countP_cons_of_neg,
    List.countP_cons_of_pos]
  · omega
  · simp [isLink, hnew]
  · simp

/-- It is not known yet where a link leads that is being followed. -/
theorem Known.pending (h : t.Known seen) (link : List String) : t.Known ((link, none) :: seen) := by
  intro other place hnote
  rw [lookup_cons] at hnote
  split at hnote
  · cases hnote
  · exact h other place hnote

theorem Known.followed (h : t.Known seen) {link : List String}
    (hlink : t.node? link = some (.link target))
    (hTarget : t.Leads m (startOf target link.dropLast) (Pathname.pieces target) path) :
    t.Known ((link, some path) :: seen) := by
  intro other place hnote
  rw [lookup_cons] at hnote
  split at hnote
  · next heq =>
    cases hnote
    exact ⟨target, m, heq ▸ hlink, heq ▸ hTarget⟩
  · exact h other place hnote

theorem Within.pending (h : t.Within n seen) (hmn : m ≤ n) {link : List String}
    (hlink : t.node? link = some (.link target))
    (hTarget : t.Leads m (startOf target link.dropLast) (Pathname.pieces target) path) :
    t.Within m ((link, none) :: seen) := by
  intro other hnote target' k place hlink' hTarget'
  rw [lookup_cons] at hnote
  split at hnote
  · next heq =>
    subst heq
    rw [hlink] at hlink'
    cases hlink'
    exact Nat.le_of_eq (hTarget.unique hTarget').1
  · exact h.mono hmn other hnote target' k place hlink' hTarget'

/-- Following links finds where a path leads.  What is noted on the way is true, no link is left
    that is being followed, and the links that may still be met are enough. -/
theorem follow_leads (h : t.Leads n here names path) (errands : List Errand)
    (hknown : t.Known seen) (hwithin : t.Within n seen) (hlinks : t.unmet seen ≤ links) :
    ∃ links' seen', t.follow links seen here (names.map .part ++ errands) =
        t.follow links' seen' path errands ∧
      t.Known seen' ∧ (∀ link, seen'.lookup link = some none → seen.lookup link = some none) ∧
      t.unmet seen' ≤ links' := by
  induction h generalizing links seen errands with
  | nil => exact ⟨links, seen, rfl, hknown, fun _ => id, hlinks⟩
  | stay hc _ ih =>
    obtain ⟨links', seen', heq, hrest⟩ := ih errands hknown hwithin hlinks
    refine ⟨links', seen', ?_, hrest⟩
    rw [List.map_cons, List.cons_append, follow, if_pos hc, heq]
  | up _ ih =>
    obtain ⟨links', seen', heq, hrest⟩ := ih errands hknown hwithin hlinks
    refine ⟨links', seen', ?_, hrest⟩
    rw [List.map_cons, List.cons_append, follow, if_neg (by decide), if_pos rfl, heq]
  | down hdown hlink _ ih =>
    obtain ⟨links', seen', heq, hrest⟩ := ih errands hknown hwithin hlinks
    refine ⟨links', seen', ?_, hrest⟩
    rw [List.map_cons, List.cons_append, follow, if_neg hdown.1, if_neg hdown.2]
    dsimp only
    split
    · next target htarget => exact absurd htarget (hlink target)
    · exact heq
  | @link c here target m place n rest path hdown hlink hTarget hRest ihTarget ihRest =>
    have hpath : here ++ [c] ≠ [] := by simp
    have hhere : (here ++ [c]).dropLast = here := List.dropLast_concat
    have hTarget' := hTarget
    rw [← hhere] at hTarget'
    rw [List.map_cons, List.cons_append, follow, if_neg hdown.1, if_neg hdown.2]
    simp only [hlink]
    cases hlookup : seen.lookup (here ++ [c]) with
    | some note =>
      cases note with
      | none =>
        -- the target would be met again behind itself, over fewer links than it is
        have hle := hwithin _ hlookup target m place hlink hTarget'
        omega
      | some known =>
        -- what is noted is where the target leads
        obtain ⟨target', k, hlink', hknown'⟩ := hknown _ _ hlookup
        rw [hlink] at hlink'
        cases hlink'
        obtain ⟨-, rfl⟩ := hTarget'.unique hknown'
        exact ihRest errands hknown (hwithin.mono (by omega)) hlinks
    | none =>
      have hlt := unmet_cons_lt hlink hpath hlookup none
      obtain ⟨links, rfl⟩ : ∃ k, links = k + 1 := ⟨links - 1, by omega⟩
      have hle₀ : t.unmet ((here ++ [c], none) :: seen) ≤ links := by omega
      obtain ⟨links₁, seen₁, heq₁, hknown₁, hopen₁, hlinks₁⟩ :=
        ihTarget (.followed (here ++ [c]) :: (rest.map .part ++ errands))
          (hknown.pending _) (hwithin.pending (by omega) hlink hTarget') hle₀
      -- nothing is open that was not, since where this link leads is noted now
      have hopen : ∀ link, ((here ++ [c], some place) :: seen₁).lookup link = some none →
          seen.lookup link = some none := by
        intro link hnote
        rw [lookup_cons] at hnote
        split at hnote
        · cases hnote
        · next hne =>
          have hseen := hopen₁ link hnote
          rwa [lookup_cons, if_neg hne] at hseen
      have hle := t.unmet_cons_le (here ++ [c]) (some place) seen₁
      obtain ⟨links₂, seen₂, heq₂, hknown₂, hopen₂, hlinks₂⟩ :=
        ihRest errands (hknown₁.followed hlink hTarget')
          (fun link hnote => hwithin.mono (by omega) link (hopen link hnote)) (Nat.le_trans hle hlinks₁)
      refine ⟨links₂, seen₂, ?_, hknown₂, fun link hnote => hopen link (hopen₂ link hnote), hlinks₂⟩
      rw [List.append_assoc, List.singleton_append]
      refine heq₁.trans ?_
      rw [follow]
      exact heq₂

theorem follow_eq (h : t.Leads n here names path) :
    t.follow t.linkCount [] here (names.map .part) = path := by
  have hknown : t.Known [] := nofun
  have hwithin : t.Within n [] := nofun
  obtain ⟨links, seen, heq, -⟩ :=
    follow_leads h [] hknown hwithin (Nat.le_of_eq t.unmet_nil)
  rw [List.append_nil] at heq
  rw [heq, follow]

/-! ## Real paths are found -/

/-- A path without links is not given up for the number of its links. -/
theorem walk_straight_ne {follow : Bool} (hs : t.Straight here path) :
    t.walk follow links here path ≠ .error .tooManyLinks := by
  intro h
  fun_induction FileTree.walk t follow links here path with
  -- names lead nowhere but down
  | case4 _ _ _ _ _ hc => exact absurd hc (not_or.2 ⟨hs.1.1, hs.1.2.1⟩)
  | case5 => exact absurd rfl hs.1.2.2.1
  -- there is no link
  | case10 _ _ _ _ _ _ _ target hlink | case11 _ _ _ _ _ _ _ target hlink =>
    exact absurd hlink (hs.2.1 target)
  | case12 _ _ _ _ _ _ _ _ _ _ _ ih => exact ih hs.2.2 h
  | _ => cases h

theorem LinkFree.straight (h : t.LinkFree path) (hnames : ∀ c ∈ path, IsName c) :
    t.Straight [] path :=
  straight_of_node? hnames fun p target hp => h p target hp

/-- An empty component leads nowhere else from the root. -/
theorem walk_empty {follow : Bool} (rest : List String) :
    t.walk follow links [] ("" :: rest) = t.walk follow links [] rest := by
  rw [walk]
  exact if_pos (.inl rfl)

theorem locate_of_stat {cwd : List String} {written : String} {node : FileNode}
    (h : t.stat cwd written = .ok node) :
    ∃ place, t.locate true cwd written = .ok (.taken place node) := by
  unfold stat at h
  split at h
  · next place n hlocate =>
    cases h
    exact ⟨place, hlocate⟩
  · cases h
  · cases h

/-- A real path is looked up name by name. -/
theorem locate_renderAbsolute {follow : Bool} (hnames : ∀ c ∈ path, IsName c) :
    t.locate follow [] (Pathname.renderAbsolute path) =
      if maxPath < Text.Utf8.size (Pathname.renderAbsolute path).toList then .error .nameTooLong
      else t.walk follow maxLinks [] path := by
  have hempty : (Pathname.renderAbsolute path).isEmpty ≠ true := by
    simp [Pathname.renderAbsolute]
  unfold locate
  rw [if_neg hempty, ite_self, Pathname.pieces_renderAbsolute]
  congr 1
  rw [walk_empty]
  cases path with
  | nil => exact walk_empty []
  | cons c path => rw [Pathname.pieces_joined (by simp) hnames]

end FileTree

namespace Disk

variable {d : Disk} {written : String} {path : List String}

/-- A disk as there are such: nothing stands under a name with a null byte or a slash in it, and
    the current directory is one, without links on the way. -/
structure Real (d : Disk) : Prop where
  names : ∀ path node, d.tree.node? path = some node → ∀ c ∈ path, IsName c ∧ '\x00' ∉ c.toList
  cwd : d.tree.node? d.cwd = some .directory
  cwd_linkFree : d.tree.LinkFree d.cwd

/-- Where a path leads that a person wrote. -/
def LeadsTo (d : Disk) (written : String) (path : List String) : Prop :=
  ∃ p n, d.expandHome (Pathname.parse written) = .ok p ∧ (∀ c ∈ p.parts, '\x00' ∉ c.toList) ∧
    d.tree.Leads n (if p.absolute then [] else d.cwd) p.parts path

/-- No component has a slash in it, also where a home directory is put in front. -/
theorem slash_not_mem_expandHome {p : Pathname}
    (h : d.expandHome (Pathname.parse written) = .ok p) : ∀ c ∈ p.parts, '/' ∉ c.toList := by
  have hwritten : ∀ c ∈ (Pathname.parse written).parts, '/' ∉ c.toList := fun _ =>
    Pathname.slash_not_mem_parse
  generalize Pathname.parse written = q at h hwritten
  unfold expandHome at h
  split at h
  · next first rest =>
    split at h
    · dsimp only at h
      split at h
      · cases h
      · split at h
        · cases h
        · next home hhome =>
          cases h
          intro c hc
          obtain hc | hc := List.mem_append.1 hc
          · exact Pathname.slash_not_mem_parse hc
          · exact hwritten c (List.mem_cons_of_mem first hc)
    · cases h
      exact hwritten
  · cases h
    exact hwritten

/-- A path that is not resolved has a null byte in it, needs a home directory that is not known, or
    runs in a circle. -/
theorem resolveWritten_error {e : PathError} (h : d.resolveWritten written = .error e) :
    e = .nullByte ∨ e = .noHome ∨ ∃ path, e = .linkLoop path := by
  unfold resolveWritten at h
  cases hexpand : d.expandHome (Pathname.parse written) with
  | error e' =>
    rw [hexpand] at h
    cases h
    unfold expandHome at hexpand
    split at hexpand
    · split at hexpand
      · dsimp only at hexpand
        split at hexpand
        · cases hexpand
          exact .inl rfl
        · split at hexpand
          · cases hexpand
            exact .inr (.inl rfl)
          · cases hexpand
      · cases hexpand
    · cases hexpand
  | ok p =>
    rw [hexpand] at h
    replace h : d.resolve p = .error e := h
    unfold resolve at h
    split at h
    · cases h
      exact .inl rfl
    · dsimp only at h
      split at h
      · cases h
        exact .inr (.inr ⟨_, rfl⟩)
      · cases h

namespace Real

variable (hreal : d.Real)
include hreal

theorem cwd_names : ∀ c ∈ d.cwd, IsName c := fun c hc => (hreal.names d.cwd _ hreal.cwd c hc).1

/-- A path leads to a path of names without links. -/
theorem leadsTo_linkFree (h : d.LeadsTo written path) :
    d.tree.LinkFree path ∧ ∀ c ∈ path, IsName c := by
  obtain ⟨p, n, hexpand, -, hleads⟩ := h
  constructor
  · apply hleads.linkFree
    split
    · exact FileTree.linkFree_nil d.tree
    · exact hreal.cwd_linkFree
  · have hpath : d.realPath p = path := FileTree.follow_eq hleads
    rw [← hpath]
    exact isName_realPath hreal.cwd_names (slash_not_mem_expandHome hexpand)

/-- The real path of a path that a person wrote is where it leads. -/
theorem resolveWritten_leadsTo (h : d.LeadsTo written path) :
    d.resolveWritten written = .ok path := by
  obtain ⟨hfree, hnames⟩ := hreal.leadsTo_linkFree h
  obtain ⟨p, n, hexpand, hnull, hleads⟩ := h
  have hpath : d.realPath p = path := FileTree.follow_eq hleads
  have hstat : d.tree.stat [] (Pathname.renderAbsolute path) ≠ .error .tooManyLinks := by
    intro hstat
    unfold FileTree.stat at hstat
    rw [FileTree.locate_renderAbsolute hnames] at hstat
    split at hstat
    · cases hstat
    · cases hstat
    · next e hlocate =>
      cases hstat
      split at hlocate
      · cases hlocate
      · exact FileTree.walk_straight_ne (hfree.straight hnames) hlocate
  unfold resolveWritten
  rw [hexpand]
  show d.resolve p = _
  unfold resolve
  rw [if_neg (by simpa using hnull)]
  dsimp only
  rw [hpath]
  split
  · next heq => exact absurd heq hstat
  · rfl

end Real

/-- Where an operating system finds something, the path leads there. -/
theorem leadsTo_of_locate {node : FileNode}
    (hexpand : d.expandHome (Pathname.parse written) = .ok (Pathname.parse written))
    (hnull : '\x00' ∉ written.toList)
    (h : d.tree.locate true d.cwd written = .ok (.taken path node)) : d.LeadsTo written path := by
  unfold FileTree.locate at h
  split at h
  · cases h
  · split at h
    · cases h
    · obtain ⟨n, -, hleads⟩ := FileTree.leads_of_walk h
      refine ⟨Pathname.parse written, n, hexpand, ?_, ?_⟩
      · intro c hc hmem
        obtain ⟨piece, hpiece, rfl⟩ := List.mem_map.1 (List.mem_filter.1 hc).1
        rw [String.toList_ofList] at hmem
        exact hnull (Text.mem_of_mem_segments hpiece hmem)
      · have hparts := FileTree.leads_filter hleads
        simpa [Pathname.parse] using hparts

end Disk

end GhciHost
