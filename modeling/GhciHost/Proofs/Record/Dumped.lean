import GhciHost.Record.Diagnostic
import GhciHost.Record.Snapshot

/-!
# Records that are written and read back

Records are read loosely: a number may be written in a text, a member may be missing if it has a
default, and members that nobody asks for are dropped.  What is written of a record is read as that
record whatever it was read from, so one reading settles everything.

* `Recovers`, `items_recovers`, `nullable_recovers`   what holds of parts holds of what is made of
  them;
* `Suggestion.readFix_fixMembers`   a change is read back under its kind, one case for each;
* `Span.recovers`, `Suggestion.recovers`, `Diagnostic.recovers`, `Snapshot.recovers`   the records;
* `records_kept`   what is accepted is kept.
-/

namespace GhciHost

namespace Record

/-! ## Parts -/

/-- What is written of a value is read as that value. -/
def Recovers (read : Json → Check α) (write : α → Json) : Prop := ∀ a, read (write a) = .ok a

section Parts

variable {read : Json → Check α} {write : α → Json}

theorem text_recovers : Recovers readText .str := fun _ => rfl

theorem integer_recovers : Recovers readInteger .int := fun _ => rfl

theorem natural_recovers : Recovers readNatural (fun n => .int n) := fun n => by
  have hnonneg : ¬ (n : Int) < 0 := Int.not_lt.2 (Int.natCast_nonneg n)
  rw [readNatural, integer_recovers, Check.andThen, if_neg hnonneg, Int.toNat_natCast]

theorem truth_recovers : Recovers readTruth .bool := fun _ => rfl

theorem choice_recovers {name : α → String} {ofName? : String → Option α}
    (h : ∀ a, ofName? (name a) = some a) :
    Recovers (readChoice ofName?) (fun a => .str (name a)) := fun a => by
  rw [readChoice, h]

/-- A value that may be `null` is recovered if nothing else is written as `null`. -/
theorem nullable_recovers (h : Recovers read write) (hnull : ∀ a, write a ≠ .null) :
    Recovers (nullable read) (Json.orNull write)
  | none => rfl
  | some a => by
    show nullable read (write a) = .ok (some a)
    rw [nullable.eq_2 read (write a) (hnull a), h a]
    rfl

/-- Items are read one by one, whatever number the first of them has. -/
theorem items_go_recovers (h : Recovers read write) (as : List α) (i : Nat) :
    Check.items.go read i (as.map write) = .ok as := by
  induction as generalizing i with
  | nil => rfl
  | cons a as ih =>
    rw [List.map_cons, Check.items.go, h a, ih]
    rfl

theorem items_recovers (h : Recovers read write) (as : List α) :
    Check.items read (as.map write) = .ok as := items_go_recovers h as 0

theorem tuple_recovers (h : Recovers read write) :
    Recovers (readTuple read) (fun as => .arr (as.map write)) := items_recovers h

theorem list_recovers (h : Recovers read write) :
    Recovers (readList read) (fun as => .arr (as.map write)) := items_recovers h

/-- A member that is there is what is read of it. -/
theorem required_eq_ok {ms : Members} {name : String} {j : Json} {a : α}
    (hmember : ms.lookup name = some j) (hread : read j = .ok a) :
    required ms name read = .ok a := by
  rw [required, hmember]
  exact Check.under_eq_ok.2 hread

theorem optional_eq_ok {ms : Members} {name : String} {j : Json} {a default : α}
    (hmember : ms.lookup name = some j) (hread : read j = .ok a) :
    optional ms name default read = .ok a := by
  rw [optional, hmember]
  exact Check.under_eq_ok.2 hread

end Parts

/-- Some members are found by their names, in any order and among any others. -/
def Holds (ms written : Members) : Prop := ∀ m ∈ written, ms.lookup m.1 = some m.2

end Record

open Record

/-! ## Spans -/

namespace Span

variable {s : Span} {ms : Members}

theorem ofJson_of_holds (h : Holds ms s.members) : ofJson (.obj ms) = .ok s := by
  obtain ⟨hfile, hline, hcolumn, hendLine, hendColumn⟩ : ms.lookup "file" = some (.str s.file) ∧
      ms.lookup "line" = some (.int s.line) ∧ ms.lookup "column" = some (.int s.column) ∧
      ms.lookup "end_line" = some (.int s.endLine) ∧
      ms.lookup "end_column" = some (.int s.endColumn) := by simpa [Holds, members] using h
  rw [ofJson, readMembers, Check.andThen, required_eq_ok hfile (text_recovers s.file),
    required_eq_ok hline (natural_recovers s.line),
    required_eq_ok hcolumn (natural_recovers s.column),
    required_eq_ok hendLine (natural_recovers s.endLine),
    required_eq_ok hendColumn (natural_recovers s.endColumn)]
  rfl

theorem holds_members (s : Span) : Holds s.members s.members := by
  simp [Holds, members, List.lookup_cons]

theorem recovers : Recovers ofJson toJson := fun s => ofJson_of_holds s.holds_members

end Span

/-! ## Suggestions -/

namespace Suggestion

theorem texts_recovers : Recovers (readTuple readText) Json.ofTexts := tuple_recovers text_recovers

/-- A change is read back under its own kind. -/
theorem readFix_of_holds {ms : Members} (f : Fix) (h : Holds ms (fixMembers f)) :
    readFix ms f.kind = .ok f := by
  unfold Holds at h
  cases f with
  | addImportItem m i =>
    obtain ⟨hmodule, hitem⟩ : ms.lookup "module" = some (.str m) ∧
      ms.lookup "item" = some (.str i) := by simpa [fixMembers] using h
    rw [Fix.kind, readFix, required_eq_ok hmodule (text_recovers m),
      required_eq_ok hitem (text_recovers i)]
    rfl
  | removeImportItem m is q =>
    obtain ⟨hmodule, hitems, hqualified⟩ : ms.lookup "module" = some (.str m) ∧
      ms.lookup "items" = some (.ofTexts is) ∧ ms.lookup "qualified" = some (.bool q) := by
        simpa [fixMembers] using h
    rw [Fix.kind, readFix, required_eq_ok hmodule (text_recovers m),
      optional_eq_ok hitems (texts_recovers is), optional_eq_ok hqualified (truth_recovers q)]
    rfl
  | addExtension e =>
    have hextension : ms.lookup "extension" = some (.str e) := by simpa [fixMembers] using h
    rw [Fix.kind, readFix, required_eq_ok hextension (text_recovers e)]
    rfl
  | addGhcOption o =>
    have hoption : ms.lookup "option" = some (.str o) := by simpa [fixMembers] using h
    rw [Fix.kind, readFix, required_eq_ok hoption (text_recovers o)]
    rfl
  | addMissingRecordFields c fs =>
    obtain ⟨hconstructor, hfields⟩ : ms.lookup "constructor" = some (.str c) ∧
      ms.lookup "fields" = some (.ofTexts fs) := by simpa [fixMembers] using h
    rw [Fix.kind, readFix, required_eq_ok hconstructor (text_recovers c),
      required_eq_ok hfields (texts_recovers fs)]
    rfl
  | fixTypo o r =>
    obtain ⟨horiginal, hreplacement⟩ : ms.lookup "original" = some (.str o) ∧
      ms.lookup "replacement" = some (.str r) := by simpa [fixMembers] using h
    rw [Fix.kind, readFix, required_eq_ok horiginal (text_recovers o),
      required_eq_ok hreplacement (text_recovers r)]
    rfl
  | addTypeSignature s =>
    have hsignature : ms.lookup "signature" = some (.str s) := by simpa [fixMembers] using h
    rw [Fix.kind, readFix, required_eq_ok hsignature (text_recovers s)]
    rfl
  | removeRedundantConstraint cs =>
    have hconstraints : ms.lookup "constraints" = some (.ofTexts cs) := by
      simpa [fixMembers] using h
    rw [Fix.kind, readFix, required_eq_ok hconstraints (texts_recovers cs)]
    rfl
  | enablePackage p =>
    have hpackage : ms.lookup "package" = some (.str p) := by simpa [fixMembers] using h
    rw [Fix.kind, readFix, required_eq_ok hpackage (text_recovers p)]
    rfl

/-- The members of a suggestion. -/
def members (s : Suggestion) : Members :=
  [("location", s.location.toJson), ("kind", .str s.fix.kind.name)] ++ fixMembers s.fix

variable {s : Suggestion} {ms : Members}

theorem ofJson_of_holds (h : Holds ms s.members) : ofJson (.obj ms) = .ok s := by
  have hlocation : ms.lookup "location" = some s.location.toJson :=
    h ("location", s.location.toJson) (by simp [members])
  have hkind : ms.lookup "kind" = some (.str s.fix.kind.name) :=
    h ("kind", .str s.fix.kind.name) (by simp [members])
  have hfix : readFix ms s.fix.kind = .ok s.fix :=
    readFix_of_holds s.fix fun m hm => h m (List.mem_append_right _ hm)
  simp only [ofJson, hkind, Fix.Kind.ofName?_name, hfix,
    required_eq_ok hlocation (Span.recovers s.location)]
  rfl

/-- No two members share a name, whatever the change. -/
theorem holds_members (s : Suggestion) : Holds s.members s.members := by
  obtain ⟨location, f⟩ := s
  cases f <;> simp [Holds, members, fixMembers, List.lookup_cons]

theorem recovers : Recovers ofJson toJson := fun s => ofJson_of_holds s.holds_members

end Suggestion

/-! ## Diagnostics -/

namespace Diagnostic

variable {d : Diagnostic} {ms : Members}

/-- The members of a diagnostic. -/
def members (d : Diagnostic) : Members :=
  [("severity", .str d.severity.name), ("file", .str d.file), ("line", .int d.line),
    ("column", .int d.column), ("end_line", .int d.endLine), ("end_column", .int d.endColumn),
    ("message", .str d.message), ("suggestions", .arr (d.suggestions.map Suggestion.toJson))]

theorem ofJson_of_holds (h : Holds ms d.members) : ofJson (.obj ms) = .ok d := by
  obtain ⟨hseverity, hfile, hline, hcolumn, hendLine, hendColumn, hmessage, hsuggestions⟩ :
      ms.lookup "severity" = some (.str d.severity.name) ∧ ms.lookup "file" = some (.str d.file) ∧
      ms.lookup "line" = some (.int d.line) ∧ ms.lookup "column" = some (.int d.column) ∧
      ms.lookup "end_line" = some (.int d.endLine) ∧
      ms.lookup "end_column" = some (.int d.endColumn) ∧
      ms.lookup "message" = some (.str d.message) ∧
      ms.lookup "suggestions" = some (.arr (d.suggestions.map Suggestion.toJson)) := by
    simpa [Holds, members] using h
  rw [ofJson, readMembers, Check.andThen,
    required_eq_ok hseverity (choice_recovers Severity.ofName?_name d.severity),
    required_eq_ok hfile (text_recovers d.file), required_eq_ok hline (integer_recovers d.line),
    required_eq_ok hcolumn (integer_recovers d.column),
    required_eq_ok hendLine (integer_recovers d.endLine),
    required_eq_ok hendColumn (integer_recovers d.endColumn),
    required_eq_ok hmessage (text_recovers d.message),
    optional_eq_ok hsuggestions (tuple_recovers Suggestion.recovers d.suggestions)]
  rfl

theorem holds_members (d : Diagnostic) : Holds d.members d.members := by
  simp [Holds, members, List.lookup_cons]

theorem recovers : Recovers ofJson toJson := fun d => ofJson_of_holds d.holds_members

end Diagnostic

/-! ## Snapshots -/

namespace Snapshot

variable {s : Snapshot} {ms : Members}

/-- The members of a snapshot. -/
def members (s : Snapshot) : Members :=
  [("key", .str s.key), ("kind", .str s.kind), ("root", .str s.root),
    ("state", .str s.state.name), ("start_mode", .orNull (.str ·.name) s.startMode),
    ("service_port", .orNull .int s.servicePort), ("pending_requests", .int s.pendingRequests),
    ("ghc_version", .orNull .str s.ghcVersion), ("targets", .ofTexts s.targets),
    ("given_up_reason", .orNull .str s.givenUpReason)]

theorem mode_recovers : Recovers (nullable (readChoice StartMode.ofName?))
    (Json.orNull (.str ·.name)) :=
  nullable_recovers (choice_recovers StartMode.ofName?_name) nofun

theorem port_recovers : Recovers (nullable readInteger) (Json.orNull .int) :=
  nullable_recovers integer_recovers nofun

theorem note_recovers : Recovers (nullable readText) (Json.orNull .str) :=
  nullable_recovers text_recovers nofun

theorem ofJson_of_holds (h : Holds ms s.members) : ofJson (.obj ms) = .ok s := by
  obtain ⟨hkey, hkind, hroot, hstate, hmode, hport, hpending, hversion, htargets, hreason⟩ :
      ms.lookup "key" = some (.str s.key) ∧ ms.lookup "kind" = some (.str s.kind) ∧
      ms.lookup "root" = some (.str s.root) ∧ ms.lookup "state" = some (.str s.state.name) ∧
      ms.lookup "start_mode" = some (.orNull (.str ·.name) s.startMode) ∧
      ms.lookup "service_port" = some (.orNull .int s.servicePort) ∧
      ms.lookup "pending_requests" = some (.int s.pendingRequests) ∧
      ms.lookup "ghc_version" = some (.orNull .str s.ghcVersion) ∧
      ms.lookup "targets" = some (.ofTexts s.targets) ∧
      ms.lookup "given_up_reason" = some (.orNull .str s.givenUpReason) := by
    simpa [Holds, members] using h
  rw [ofJson, readMembers, Check.andThen, required_eq_ok hkey (text_recovers s.key),
    required_eq_ok hkind (text_recovers s.kind), required_eq_ok hroot (text_recovers s.root),
    required_eq_ok hstate (choice_recovers State.ofName?_name s.state),
    optional_eq_ok hmode (mode_recovers s.startMode),
    optional_eq_ok hport (port_recovers s.servicePort),
    optional_eq_ok hpending (integer_recovers s.pendingRequests),
    optional_eq_ok hversion (note_recovers s.ghcVersion),
    optional_eq_ok htargets (list_recovers text_recovers s.targets),
    optional_eq_ok hreason (note_recovers s.givenUpReason)]
  rfl

theorem holds_members (s : Snapshot) : Holds s.members s.members := by
  simp [Holds, members, List.lookup_cons]

theorem recovers : Recovers ofJson toJson := fun s => ofJson_of_holds s.holds_members

end Snapshot

/-! ## What is accepted is kept -/

/-- How a value is kept by being written. -/
structure Record.Kept (read : Json → Check α) (write : α → Json) (a : α) : Prop where
  /-- What is written is accepted, as the same value. -/
  accepted : read (write a) = .ok a
  /-- That is written as before. -/
  again : (read (write a)).map write = .ok (write a)
  /-- No other value is written alike. -/
  alone : ∀ b, b ≠ a → write b ≠ write a

theorem Record.Recovers.kept {read : Json → Check α} {write : α → Json} (h : Recovers read write)
    (a : α) : Kept read write a where
  accepted := h a
  again := by
    rw [h a]
    rfl
  alone b hne hsame := by
    have hread := h b
    rw [hsame, h a] at hread
    exact hne (Check.ok.inj hread).symm

/-- Whatever was accepted as a span, a suggestion of any kind, a diagnostic or a snapshot is
    accepted again when it is written, as the same value, which is written as before; a diagnostic
    stays the same to whoever compares diagnostics; and two values are never written alike. -/
theorem records_kept :
    (∀ j s, Span.ofJson j = .ok s → Kept Span.ofJson Span.toJson s) ∧
      (∀ j s, Suggestion.ofJson j = .ok s → Kept Suggestion.ofJson Suggestion.toJson s) ∧
      (∀ j d, Diagnostic.ofJson j = .ok d → Kept Diagnostic.ofJson Diagnostic.toJson d ∧
        (Diagnostic.ofJson d.toJson).map Diagnostic.identity = .ok d.identity) ∧
      ∀ j s, Snapshot.ofJson j = .ok s → Kept Snapshot.ofJson Snapshot.toJson s := by
  refine ⟨fun _ s _ => Span.recovers.kept s, fun _ s _ => Suggestion.recovers.kept s,
    fun _ d _ => ⟨Diagnostic.recovers.kept d, ?_⟩, fun _ s _ => Snapshot.recovers.kept s⟩
  rw [Diagnostic.recovers d]
  rfl

namespace Record

deriving instance DecidableEq for Check

/-- A span with numbers in a text, with a fraction, and as a truth value. -/
def looseSpan : Json :=
  .obj [("file", .str "src/Foo.hs"), ("line", .str " +1_0.0 "), ("column", .float (.ofInt 3)),
    ("end_line", .int 10), ("end_column", .bool true), ("unknown", .null)]

/-- A suggestion with its kind behind a member that nobody asks for, and without its defaults. -/
def looseSuggestion : Json :=
  .obj [("items_", .arr []), ("kind", .str "remove-import-item"), ("qualified", .str "YES"),
    ("module", .str "Data.List"), ("location", looseSpan)]

/-- A diagnostic with such a suggestion, and with a negative line. -/
def looseDiagnostic : Json :=
  .obj [("message", .str "unused"), ("severity", .str "warning"), ("file", .str "src/Foo.hs"),
    ("line", .str "-07"), ("column", .bool false), ("end_line", .int 10), ("end_column", .int 1),
    ("suggestions", .arr [looseSuggestion])]

/-- A snapshot without most of its members. -/
def looseSnapshot : Json :=
  .obj [("state", .str "given-up"), ("key", .str "backend:/src/app"), ("kind", .str "backend"),
    ("root", .str "/src/app"), ("service_port", .str "4000"), ("start_mode", .null)]

end Record

/-- Loose values of all four sorts, with what they are read as. -/
theorem records_kept_loose :
    let span : Span := ⟨⟨10, 3, 10, 1⟩, "src/Foo.hs"⟩
    let suggestion : Suggestion := ⟨span, .removeImportItem "Data.List" [] true⟩
    let diagnostic : Diagnostic := ⟨.warning, "src/Foo.hs", -7, 0, 10, 1, "unused", [suggestion]⟩
    let snapshot : Snapshot :=
      { key := "backend:/src/app", kind := "backend", root := "/src/app", state := .givenUp
        servicePort := some 4000 }
    (Span.ofJson looseSpan = .ok span ∧ Kept Span.ofJson Span.toJson span) ∧
      (Suggestion.ofJson looseSuggestion = .ok suggestion ∧
        Kept Suggestion.ofJson Suggestion.toJson suggestion) ∧
      (Diagnostic.ofJson looseDiagnostic = .ok diagnostic ∧
        Kept Diagnostic.ofJson Diagnostic.toJson diagnostic ∧
        (Diagnostic.ofJson diagnostic.toJson).map Diagnostic.identity = .ok diagnostic.identity) ∧
      Snapshot.ofJson looseSnapshot = .ok snapshot ∧
        Kept Snapshot.ofJson Snapshot.toJson snapshot := by
  intro span suggestion diagnostic snapshot
  have hspan : Span.ofJson looseSpan = .ok span := by decide +kernel
  have hsuggestion : Suggestion.ofJson looseSuggestion = .ok suggestion := by decide +kernel
  have hdiagnostic : Diagnostic.ofJson looseDiagnostic = .ok diagnostic := by decide +kernel
  have hsnapshot : Snapshot.ofJson looseSnapshot = .ok snapshot := by decide +kernel
  exact ⟨⟨hspan, records_kept.1 _ _ hspan⟩, ⟨hsuggestion, records_kept.2.1 _ _ hsuggestion⟩,
    ⟨hdiagnostic, records_kept.2.2.1 _ _ hdiagnostic⟩, hsnapshot, records_kept.2.2.2 _ _ hsnapshot⟩

end GhciHost
