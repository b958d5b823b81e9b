import GhciHost.File.Resolve

/-!
# Files that are written

A file is written where its path leads, which is the path itself as long as no link stands on the
way.  Directories that are made for it leave everything else as it is.

* `walk_straight`   where a path without links leads;
* `Spares`, `spares_makeDirectories`   making directories;
* `write_straight`   writing a file;
* `isName_realPath`   what a real path is made of.
-/

namespace GhciHost

/-! ## Names -/

/-- A component that leads down. -/
def IsName (c : String) : Prop := c ≠ "" ∧ c ≠ "." ∧ c ≠ ".." ∧ '/' ∉ c.toList

theorem Pathname.not_mem_of_mem_pieces {s c : String} (h : c ∈ pieces s) : '/' ∉ c.toList := by
  obtain ⟨p, hp, rfl⟩ := List.mem_map.1 h
  rw [String.toList_ofList]
  exact Text.not_mem_of_mem_segments hp

theorem Pathname.slash_not_mem_parse {s c : String} (h : c ∈ (parse s).parts) : '/' ∉ c.toList :=
  not_mem_of_mem_pieces (List.mem_filter.1 h).1

theorem Pathname.pieces_renderAbsolute (path : List String) :
    pieces (renderAbsolute path) = "" :: pieces (joined path) := by
  rw [pieces, renderAbsolute, String.toList_append]
  rfl

/-- Names that are joined come apart again. -/
theorem Pathname.pieces_joined {path : List String} (hne : path ≠ [])
    (h : ∀ c ∈ path, IsName c) : pieces (joined path) = path := by
  have hslash : ∀ x ∈ path.map String.toList, '/' ∉ x := by
    intro x hx
    obtain ⟨d, hd, rfl⟩ := List.mem_map.1 hx
    exact (h d hd).2.2.2
  rw [pieces, joined, String.toList_ofList, Text.segments_intercalate (by simpa using hne) hslash,
    List.map_map]
  exact List.map_id'' (fun _ => String.ofList_toList) _

/-- A path of names is read as it was written. -/
theorem Pathname.parse_renderAbsolute {path : List String} (h : ∀ c ∈ path, IsName c) :
    parse (renderAbsolute path) = ⟨true, path⟩ := by
  have hparts : (pieces (joined path)).filter isPart = path := by
    cases path with
    | nil => rfl
    | cons c path =>
      rw [pieces_joined (by simp) h, List.filter_eq_self]
      intro d hd
      simp [isPart, (h d hd).1, (h d hd).2.1]
  rw [parse, pieces_renderAbsolute, List.filter_cons_of_neg (by decide), hparts]
  simp [renderAbsolute]

/-- Different paths of names are written differently. -/
theorem Pathname.renderAbsolute_inj {path other : List String} (h : ∀ c ∈ path, IsName c)
    (h' : ∀ c ∈ other, IsName c) (e : renderAbsolute path = renderAbsolute other) :
    path = other := by
  have hparse := parse_renderAbsolute h
  rw [e, parse_renderAbsolute h'] at hparse
  exact (Pathname.mk.inj hparse).2.symm

namespace FileTree

/-! ## Walking down -/

/-- Where a place is. -/
def Place.path : Place → List String
  | taken path _ | free path => path

/-- What stands at a place. -/
def Place.node? : Place → Option FileNode
  | taken _ n => some n
  | free _ => none

/-- What a path leads to stands there. -/
theorem node?_of_walk {t : FileTree} {follow : Bool} {links : Nat} {here path : List String}
    {place : Place} (h : t.walk follow links here path = .ok place) :
    t.node? place.path = place.node? := by
  fun_induction FileTree.walk t follow links here path with
  -- The way ends: where it has come to, at a free name, or at a link that is not followed.
  | case1 | case7 | case9 =>
    cases h
    assumption
  -- It goes on, from here or from where a link leads.
  | case4 _ _ _ _ _ _ ih | case5 _ _ _ _ _ ih => exact ih h
  | case11 _ _ _ _ _ _ _ _ _ _ _ ih | case12 _ _ _ _ _ _ _ _ _ _ _ ih => exact ih h
  | _ => cases h

/-- All the way down a path there are names, and no link. -/
def Straight (t : FileTree) (here : List String) : List String → Prop
  | [] => True
  | c :: rest => IsName c ∧ (∀ target, t.node? (here ++ [c]) ≠ some (.link target)) ∧
      t.Straight (here ++ [c]) rest

theorem straight_of_node? {t : FileTree} {here path : List String} (hnames : ∀ c ∈ path, IsName c)
    (hlink : ∀ p target, p <+: here ++ path → t.node? p ≠ some (.link target)) :
    t.Straight here path := by
  induction path generalizing here with
  | nil => trivial
  | cons c rest ih =>
    have happend : here ++ c :: rest = here ++ [c] ++ rest := by simp
    rw [happend] at hlink
    refine ⟨hnames c List.mem_cons_self, fun target => hlink _ target (List.prefix_append _ _), ?_⟩
    exact ih (fun x hx => hnames x (List.mem_cons_of_mem c hx)) hlink

/-- Such a path leads to itself. -/
theorem walk_straight {t : FileTree} {follow : Bool} {links : Nat} {here path : List String}
    {place : Place} (hs : t.Straight here path) (h : t.walk follow links here path = .ok place) :
    place.path = here ++ path := by
  fun_induction FileTree.walk t follow links here path with
  | case1 =>
    cases h
    exact (List.append_nil _).symm
  -- Names lead nowhere but down.
  | case4 _ _ _ _ _ hc => exact absurd hc (not_or.2 ⟨hs.1.1, hs.1.2.1⟩)
  | case5 => exact absurd rfl hs.1.2.2.1
  | case7 links here c rest _ _ _ _ _ hrest =>
    cases h
    rw [List.isEmpty_iff.1 hrest]
    rfl
  -- There is no link.
  | case9 _ _ _ _ _ _ _ _ target hlink | case11 _ _ _ _ _ _ _ target hlink =>
    exact absurd hlink (hs.2.1 target)
  | case12 links here c rest _ _ _ _ _ _ _ ih =>
    rw [ih hs.2.2 h, List.append_assoc]
    rfl
  | _ => cases h

/-! ## Making directories -/

/-- What stands in a tree stands there later, and all that is new are directories. -/
def Spares (t t' : FileTree) : Prop :=
  ∀ path, t'.node? path = t.node? path ∨ t.node? path = none ∧ t'.node? path = some .directory

variable {t t' t'' : FileTree}

theorem Spares.refl (t : FileTree) : Spares t t := fun _ => .inl rfl

theorem Spares.trans (h : Spares t t') (h' : Spares t' t'') : Spares t t'' := by
  intro path
  obtain e' | ⟨hnone, hdir⟩ := h' path
  · rw [e']
    exact h path
  · obtain e | ⟨-, e⟩ := h path
    · exact .inr ⟨e ▸ hnone, hdir⟩
    · rw [hnone] at e
      cases e

theorem Spares.node? (h : Spares t t') {path : List String} {n : FileNode}
    (hn : t.node? path = some n) : t'.node? path = some n := by
  obtain e | ⟨hnone, -⟩ := h path
  · rw [e, hn]
  · rw [hn] at hnone
    cases hnone

theorem Spares.not_link (h : Spares t t') {path : List String} {target : String}
    (hn : t.node? path ≠ some (.link target)) : t'.node? path ≠ some (.link target) := by
  obtain e | ⟨-, e⟩ := h path
  · rwa [e]
  · rw [e]
    exact nofun

theorem Spares.straight (h : Spares t t') {here path : List String} (hs : t.Straight here path) :
    t'.Straight here path := by
  induction path generalizing here with
  | nil => trivial
  | cons c rest ih =>
    obtain ⟨hname, hlink, hrest⟩ := hs
    exact ⟨hname, fun target => h.not_link (hlink target), ih hrest⟩

theorem spares_makeDirectory {path : List String} (h : t.makeDirectory path = .ok t') :
    Spares t t' := by
  unfold makeDirectory at h
  split at h
  · next p hwalk =>
    cases h
    have hfree : t.node? p = none := node?_of_walk hwalk
    have hp : p ≠ [] := by
      rintro rfl
      cases hfree
    intro other
    by_cases e : other = p
    · rw [e]
      exact .inr ⟨hfree, node?_put_self hp t .directory⟩
    · exact .inl (node?_put_of_ne e t .directory)
  · cases h
  · cases h

theorem spares_makeDirectories {path : List String} (h : t.makeDirectories path = .ok t') :
    Spares t t' := by
  fun_induction FileTree.makeDirectories t path generalizing t' with
  | case1 | case6 =>
    cases h
    exact .refl _
  | case2 _ _ _ hmade =>
    cases h
    exact spares_makeDirectory hmade
  | case4 _ _ _ _ habove _ hmade ih =>
    cases h
    exact (ih habove).trans (spares_makeDirectory hmade)
  | _ => cases h

/-! ## Writing -/

/-- A file is written where its path says. -/
theorem write_straight {path : List String} {contents : String} (hs : t.Straight [] path)
    (h : t.write path contents = .ok t') : t' = t.put path (.file contents) := by
  unfold write at h
  split at h
  · next p hwalk =>
    cases h
    obtain rfl : p = path := walk_straight hs hwalk
    rfl
  · next p old hwalk =>
    cases h
    obtain rfl : p = path := walk_straight hs hwalk
    rfl
  · cases h
  · cases h

/-! ## Real paths -/

theorem isName_lexical {path : List String} (h : ∀ c ∈ path, '/' ∉ c.toList) :
    ∀ c ∈ lexical path, IsName c := by
  unfold lexical
  refine List.foldlRecOn (motive := fun acc => ∀ c ∈ acc, IsName c) path _ ?_ ?_
  · intro x hx
    cases hx
  intro acc hacc c hc x hx
  by_cases hdots : c = ".."
  · rw [if_pos hdots] at hx
    exact hacc x (List.dropLast_subset acc hx)
  · rw [if_neg hdots] at hx
    by_cases hpart : Pathname.isPart c = true
    · rw [if_pos hpart] at hx
      obtain hx | hx := List.mem_append.1 hx
      · exact hacc x hx
      · rw [List.mem_singleton.1 hx]
        simp only [Pathname.isPart, Bool.and_eq_true, bne_iff_ne, ne_eq] at hpart
        exact ⟨hpart.1, hpart.2, hdots, h c hc⟩
    · rw [if_neg hpart] at hx
      exact hacc x hx

theorem filterMap_part (names : List String) :
    (names.map Errand.part).filterMap Errand.name? = names := by
  rw [List.filterMap_map]
  exact List.filterMap_some

/-- What is left of errands is made of their components. -/
theorem mem_unfollowed {here : List String} {fresh : Bool} {errands : List Errand} {c : String}
    (h : c ∈ unfollowed here fresh errands) : c ∈ here ∨ c ∈ errands.filterMap Errand.name? := by
  fun_induction unfollowed here fresh errands with
  | case1 here fresh => exact .inl h
  | case2 here fresh link rest ih => exact ih h
  | case3 here fresh x rest rooted ih =>
    obtain h | h := ih h
    · split at h
      · cases h
      · rcases List.mem_append.1 h with h | h
        · exact .inl h
        · rw [List.mem_singleton.1 h]
          exact .inr List.mem_cons_self
    · exact .inr (List.mem_cons_of_mem x h)

/-- What errands lead to is made of names, whatever links are followed. -/
theorem isName_follow {links : Nat} {seen : List (List String × Option (List String))}
    {here : List String} {errands : List Errand} (hhere : ∀ c ∈ here, IsName c)
    (herrands : ∀ c ∈ errands.filterMap Errand.name?, '/' ∉ c.toList)
    (hseen : ∀ link p, (link, some p) ∈ seen → ∀ c ∈ p, IsName c) :
    ∀ c ∈ t.follow links seen here errands, IsName c := by
  have hdown {here : List String} {c : String} {rest : List Errand} (hhere : ∀ c ∈ here, IsName c)
      (herrands : ∀ x ∈ (Errand.part c :: rest).filterMap Errand.name?, '/' ∉ x.toList)
      (hc : ¬(c = "" ∨ c = ".")) (hdots : c ≠ "..") : ∀ x ∈ here ++ [c], IsName x := by
    intro x hx
    obtain hx | hx := List.mem_append.1 hx
    · exact hhere x hx
    · rw [List.mem_singleton.1 hx]
      obtain ⟨hempty, hdot⟩ := not_or.1 hc
      exact ⟨hempty, hdot, hdots, herrands c List.mem_cons_self⟩
  have hrest {e : Errand} {rest : List Errand}
      (herrands : ∀ x ∈ (e :: rest).filterMap Errand.name?, '/' ∉ x.toList) :
      ∀ x ∈ rest.filterMap Errand.name?, '/' ∉ x.toList := fun x hx =>
    herrands x ((List.sublist_cons_self e rest).filterMap _ |>.subset hx)
  fun_induction FileTree.follow t links seen here errands with
  | case1 => exact hhere
  | case2 links seen here link rest ih =>
    refine ih hhere (hrest herrands) fun link' p hp => ?_
    obtain e | hp := List.mem_cons.1 hp
    · cases e
      exact hhere
    · exact hseen link' p hp
  | case3 _ _ _ _ _ _ ih => exact ih hhere (hrest herrands) hseen
  | case4 _ _ _ _ _ ih =>
    exact ih (fun c hc => hhere c (List.dropLast_subset _ hc)) (hrest herrands) hseen
  | case5 _ seen _ _ _ _ _ path _ _ p hp ih =>
    obtain ⟨before, later, e, -⟩ := List.lookup_eq_some_iff.1 hp
    exact ih (hseen path p (by simp [e])) (hrest herrands) hseen
  | case6 links seen here c rest hc hdots | case7 seen here c rest hc hdots =>
    refine isName_lexical fun x hx => ?_
    obtain hx | hx := mem_unfollowed hx
    · exact (hdown hhere herrands hc hdots x hx).2.2.2
    · exact hrest herrands x hx
  | case8 seen here c rest hc hdots path target _ _ links ih =>
    refine ih ?_ ?_ fun link p hp => ?_
    · split
      · exact nofun
      · exact hhere
    · intro x hx
      rw [List.append_assoc, List.filterMap_append, filterMap_part] at hx
      obtain hx | hx := List.mem_append.1 hx
      · exact Pathname.not_mem_of_mem_pieces hx
      · exact hrest herrands x hx
    · obtain e | hp := List.mem_cons.1 hp
      · cases e
      · exact hseen link p hp
  | case9 links seen here c rest hc hdots _ _ ih =>
    exact ih (hdown hhere herrands hc hdots) (hrest herrands) hseen

end FileTree

/-- So is a real path. -/
theorem Disk.isName_realPath {d : Disk} {p : Pathname} (hcwd : ∀ c ∈ d.cwd, IsName c)
    (hparts : ∀ c ∈ p.parts, '/' ∉ c.toList) : ∀ c ∈ d.realPath p, IsName c := by
  refine FileTree.isName_follow ?_ ?_ nofun
  · split
    · exact nofun
    · exact hcwd
  · intro c hc
    rw [FileTree.filterMap_part] at hc
    exact hparts c hc

end GhciHost
