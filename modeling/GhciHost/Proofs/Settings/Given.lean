import Mathlib.Data.List.Nodup
import GhciHost.Proofs.Json.Values
import GhciHost.Settings.Reader

/-!
# List settings from the environment

The text of a variable is read as JSON where it can be, the text of an argument only where it begins
as a list.  So a list setting has the same items from both if the text is a list, or is not JSON.  Of
other JSON the argument has items.  The variable has none for a number, a truth value or an object, and
counts as absent for `null`, so that a whitelist or blacklist of such a text is empty.

* `read_congr`   list settings are read by their items;
* `read_variable`   a variable is read as an argument with the same text;
* `read_variable_json`, `read_variable_null`   it is read as an argument that is the JSON of its text;
* `read_argument_json`, `read_variable_lost`   what the two make of JSON that is neither a list nor a
  text.
-/

namespace GhciHost.Settings

open Record Text

variable {arguments arguments' : Members} {env env' : List (String × String)} {text : String}
  {j : Json}

/-! ## What is read of list settings -/

/-- A setting that is a list. -/
structure ListSetting where
  name : String
  /-- The list that the settings have. -/
  items : Settings → List String

/-- The settings that are lists. -/
def listSettings : List ListSetting :=
  [⟨"install_extra_packages", installExtraPackages⟩, ⟨"ghci_options", ghciOptions⟩,
    ⟨"setup_commands", setupCommands⟩,
    ⟨"unsatisfied_dependency_markers", unsatisfiedDependencyMarkers⟩,
    ⟨"project_whitelist", projectWhitelist⟩, ⟨"project_blacklist", projectBlacklist⟩]

variable {l : ListSetting}

/-- What gives a list setting its items, if anything does. -/
def ListSetting.given? (l : ListSetting) (arguments : Members) (env : List (String × String)) :
    Option Json :=
  (arguments.lookup l.name).or (listVariable? env l.name)

/-- The items of a list setting. -/
def ListSetting.read (l : ListSetting) (arguments : Members) (env : List (String × String)) :
    Check (List String) :=
  match l.given? arguments env with
  | some j => readItems j
  | none => .ok (l.items {})

theorem ListSetting.read_under (l : ListSetting) (arguments : Members)
    (env : List (String × String)) :
    (match
        match arguments.lookup l.name with
        | some j => some j
        | none => listVariable? env l.name with
      | some j => (readItems j).under (.member l.name)
      | none => .ok (l.items {})) = (l.read arguments env).under (.member l.name) := by
  unfold ListSetting.read ListSetting.given?
  cases arguments.lookup l.name <;> cases listVariable? env l.name <;> rfl

theorem seq_congr {α β : Type} {f g : Check (α → β)} {x y : Check α} (hf : f = g) (hx : x = y) :
    f <*> x = g <*> y := by rw [hf, hx]

/-- What is read of the arguments and the environment are the items of the list settings, and the
    values of the others. -/
theorem read_congr
    (harguments : ∀ s ∉ listSettings.map (·.name), arguments.lookup s = arguments'.lookup s)
    (henv : ∀ s ∉ listSettings.map (·.name), lastValue? env s = lastValue? env' s)
    (hlists : ∀ l ∈ listSettings, l.read arguments env = l.read arguments' env') :
    read arguments env = read arguments' env' := by
  have hitems (l : ListSetting) (hl : l ∈ listSettings) :=
    (l.read_under arguments env).trans (hlists l hl ▸ (l.read_under arguments' env').symm)
  simp only [listSettings, List.forall_mem_cons] at hitems
  obtain ⟨h₁, h₂, h₃, h₄, h₅, h₆, -⟩ := hitems
  unfold read
  simp (disch := decide) only [tableVariable?, plainVariable?, harguments, henv]
  refine bind_congr fun table => congrArg pure ?_
  repeat' refine seq_congr ?_ ?_
  all_goals first | rfl | assumption

theorem lookup_cons_of_ne {s t : String} (h : s ≠ t) :
    List.lookup s ((t, j) :: arguments) = arguments.lookup s := by
  rw [List.lookup_cons, beq_eq_false_iff_ne.2 h]

/-- Other list settings are read as before. -/
theorem ListSetting.read_congr {s : String} (h : l.name ≠ s)
    (harguments : ∀ t ≠ s, arguments.lookup t = arguments'.lookup t)
    (henv : ∀ t ≠ s, lastValue? env t = lastValue? env' t) :
    l.read arguments env = l.read arguments' env' := by
  rw [ListSetting.read, ListSetting.read, ListSetting.given?, ListSetting.given?,
    harguments _ h, listVariable?, listVariable?, henv _ h]

theorem name_injective {k : ListSetting} (hk : k ∈ listSettings) (hl : l ∈ listSettings)
    (h : k.name = l.name) : k = l := by
  have hnodup : (listSettings.map (·.name)).Nodup := by decide
  exact List.inj_on_of_nodup_map hnodup hk hl h

/-- One list setting may be given in another way. -/
theorem read_congr_list (hl : l ∈ listSettings)
    (harguments : ∀ s ≠ l.name, arguments.lookup s = arguments'.lookup s)
    (henv : ∀ s ≠ l.name, lastValue? env s = lastValue? env' s)
    (hread : l.read arguments env = l.read arguments' env') :
    read arguments env = read arguments' env' := by
  have hne {s : String} (hs : s ∉ listSettings.map (·.name)) : s ≠ l.name := fun h =>
    hs (h ▸ List.mem_map_of_mem hl)
  refine read_congr (fun s hs => harguments s (hne hs)) (fun s hs => henv s (hne hs)) fun k hk => ?_
  by_cases heq : k.name = l.name
  · rw [name_injective hk hl heq, hread]
  · exact ListSetting.read_congr heq harguments henv

theorem ListSetting.read_argument (l : ListSetting) (j : Json) (arguments : Members)
    (env : List (String × String)) : l.read ((l.name, j) :: arguments) env = readItems j := by
  rw [ListSetting.read, ListSetting.given?, List.lookup_cons_self]
  rfl

/-! ## What a text is read as -/

theorem commaItems_ne_nil {s : List Char} {c : Char} (hc : c ∈ s) (hcomma : c ≠ ',')
    (hblank : isBlank c = false) : commaItems s ≠ [] := by
  intro h
  obtain ⟨p, hp, hcp⟩ := exists_mem_segments hc hcomma
  have hempty := List.filterMap_eq_nil_iff.1 h (trim p) (List.mem_map_of_mem hp)
  have htrim : trim p = [] := by
    by_contra hne
    rw [if_neg (by simpa using hne)] at hempty
    cases hempty
  rw [words_eq_nil.1 (trim_eq_nil.1 htrim) c hcp] at hblank
  cases hblank

/-- A JSON list in a text has the items of the list. -/
theorem readItems_of_list {xs : List Json} (hread : Json.read text = .ok (.arr xs)) :
    readItems (.str text) = readItems (.arr xs) := by
  obtain ⟨s, htrim, hs⟩ := Json.read_trim hread
  simp only [readItems, listOfText, htrim, hs]

/-- JSON that is no list has items as a text. -/
theorem readItems_of_json (hread : Json.read text = .ok j) (hlist : ∀ xs, j ≠ .arr xs) :
    ∃ item items, readItems (.str text) = .ok (item :: items) := by
  obtain ⟨c, s, htrim, hopens, hiff⟩ := Json.trim_of_read hread
  have hcomma : c ≠ ',' := by
    rintro rfl
    exact absurd hopens (by decide)
  obtain ⟨item, items, hitems⟩ := List.exists_cons_of_ne_nil
    (commaItems_ne_nil (List.mem_cons_self (l := s)) hcomma (Json.isBlank_of_opens hopens))
  refine ⟨item, items, ?_⟩
  rw [readItems]
  unfold listOfText
  dsimp only
  rw [htrim]
  split
  · next heq =>
    obtain ⟨xs, hxs⟩ := hiff.2 (List.cons.inj heq).1
    exact absurd hxs (hlist xs)
  · rw [hitems]

/-- What is neither a list nor a text has no items. -/
theorem readItems_eq_nil (hlist : ∀ xs, j ≠ .arr xs) (htext : ∀ s, j ≠ .str s) :
    readItems j = .ok [] := by
  cases j with
  | arr xs => exact absurd rfl (hlist xs)
  | str s => exact absurd rfl (htext s)
  | _ => rfl

theorem readItems_texts (items : List String) : readItems (.arr (items.map .str)) = .ok items := by
  have hitem (item : String) : Json.itemText (.str item) = item := rfl
  rw [readItems, List.map_map]
  simp [Function.comp_def, hitem]

/-! ## Variables and arguments -/

theorem listVariable?_eq_some {s : String} (hvalue : lastValue? env s = some text)
    (hread : Json.read text = .ok j) (hnull : j ≠ .null) : listVariable? env s = some j := by
  rw [listVariable?, hvalue, Option.bind_some, hread]
  cases j with
  | null => exact absurd rfl hnull
  | _ => rfl

section Given

-- a list setting that a variable gives and no argument does
variable (hl : l ∈ listSettings) (hnone : arguments.lookup l.name = none)
  (hvalue : lastValue? env l.name = some text)
  -- the environment without that variable
  (henv : ∀ s ≠ l.name, lastValue? env s = lastValue? env' s)

include hl hnone henv in
/-- An argument in place of a variable. -/
theorem read_eq_argument (hitems : (listVariable? env l.name).map readItems = some (readItems j)) :
    read arguments env = read ((l.name, j) :: arguments) env' := by
  refine read_congr_list hl (fun s hs => (lookup_cons_of_ne hs).symm) henv ?_
  rw [ListSetting.read_argument, ListSetting.read, ListSetting.given?, hnone, Option.none_or]
  obtain ⟨i, hi, heq⟩ := Option.map_eq_some_iff.1 hitems
  simp only [hi, heq]

include hl hnone hvalue henv in
/-- A variable is read as an argument with the same text if this is a list or is not JSON. -/
theorem read_variable (hread : ∀ j, Json.read text = .ok j → ∃ xs, j = .arr xs) :
    read arguments env = read ((l.name, .str text) :: arguments) env' := by
  refine read_eq_argument hl hnone henv ?_
  cases hjson : Json.read text with
  | ok j =>
    obtain ⟨xs, rfl⟩ := hread j hjson
    rw [listVariable?_eq_some hvalue hjson nofun, readItems_of_list hjson]
    rfl
  | error e =>
    rw [listVariable?, hvalue, Option.bind_some, hjson]
    rfl

include hl hnone hvalue henv in
/-- A variable is read as an argument that is the JSON of its text. -/
theorem read_variable_json (hread : Json.read text = .ok j) (hnull : j ≠ .null) :
    read arguments env = read ((l.name, j) :: arguments) env' :=
  read_eq_argument hl hnone henv (by rw [listVariable?_eq_some hvalue hread hnull]; rfl)

include hl hvalue henv in
/-- A variable that is `null` is none. -/
theorem read_variable_null (hnone : lastValue? env' l.name = none)
    (hread : Json.read text = .ok .null) : read arguments env = read arguments env' := by
  refine read_congr_list hl (fun _ _ => rfl) henv ?_
  rw [ListSetting.read, ListSetting.read, ListSetting.given?, ListSetting.given?, listVariable?,
    listVariable?, hvalue, hnone, Option.bind_some, hread]
  rfl

include hl in
/-- An argument that is JSON but no list gives a list setting at least one item. -/
theorem read_argument_json (hread : Json.read text = .ok j) (hlist : ∀ xs, j ≠ .arr xs) :
    ∃ item items, read ((l.name, .str text) :: arguments) env =
      read ((l.name, .arr ((item :: items).map .str)) :: arguments) env := by
  obtain ⟨item, items, hitems⟩ := readItems_of_json hread hlist
  refine ⟨item, items, read_congr_list hl (fun s hs => ?_) (fun _ _ => rfl) ?_⟩
  · rw [lookup_cons_of_ne hs, lookup_cons_of_ne hs]
  · rw [ListSetting.read_argument, ListSetting.read_argument, hitems, readItems_texts]

include hl hnone hvalue henv in
/-- A variable that is JSON, but neither a list nor a text, leaves a list setting empty that is empty
    when it is not given. -/
theorem read_variable_lost (hdefault : l.items {} = []) (hvalue' : lastValue? env' l.name = none)
    (hread : Json.read text = .ok j) (hlist : ∀ xs, j ≠ .arr xs) (htext : ∀ s, j ≠ .str s) :
    read arguments env = read ((l.name, .arr []) :: arguments) env' := by
  by_cases hnull : j = .null
  · subst hnull
    rw [read_variable_null hl hvalue henv hvalue' hread]
    refine read_congr_list hl (fun s hs => (lookup_cons_of_ne hs).symm) (fun _ _ => rfl) ?_
    rw [ListSetting.read_argument, ListSetting.read, ListSetting.given?, hnone, listVariable?,
      hvalue', Option.bind_none, Option.none_or, hdefault]
    rfl
  · refine read_eq_argument hl hnone henv ?_
    rw [listVariable?_eq_some hvalue hread hnull, Option.map_some, readItems_eq_nil hlist htext]
    rfl

end Given

/-- A number is lost as a whitelist when a variable gives it, and kept when an argument does. -/
theorem read_whitelist_number :
    read [] [("GHCWORKER_PROJECT_WHITELIST", "123")] = .ok (.ok {}) ∧
      read [("project_whitelist", .str "123")] [] = .ok (.ok { projectWhitelist := ["123"] }) :=
  ⟨rfl, rfl⟩

end GhciHost.Settings
