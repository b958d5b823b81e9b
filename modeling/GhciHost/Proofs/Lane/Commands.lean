import GhciHost.Proofs.Lane.Intake
import GhciHost.Proofs.Text.Tail
import Mathlib.Data.List.Infix

/-!
# Commands as they are written

A text that a lane accepts as a command holds no line end, and none of its bytes is the marker.  So
what a process reads, cut at the line feeds, is the commands that were written to it.

* `Accepts`, `not_mem_line`   what is accepted, and what its line cannot hold;
* `commandsTo`, `bytesTo`   what was written to a process, as commands and as bytes;
* `accepted_op`, `accepted_history`   whatever happens, only accepted commands are written;
* `written_lines`   each of them is one line.
-/

namespace GhciHost

open Host Text

/-! ## What is accepted -/

/-- A text is a command for lanes with a marker. -/
def Accepts (marker : UInt8) (command : String) : Prop :=
  Command.fault? [Char.ofNat marker.toNat] command.toList = none

instance (marker : UInt8) (command : String) : Decidable (Accepts marker command) :=
  inferInstanceAs (Decidable (_ = _))

theorem accepts_iff {marker : UInt8} {command : String} : Accepts marker command ↔
    allBlank command.toList = false ∧ '\n' ∉ command.toList ∧ '\r' ∉ command.toList ∧
      '\x00' ∉ command.toList ∧ Char.ofNat marker.toNat ∉ command.toList := by
  rw [Accepts, Command.fault?_eq_none_iff, contains_iff, List.singleton_infix_iff]
  simp

theorem Entry.line_eq (command : String) : line command = Utf8.encode command.toList ++ [10] := by
  rw [line, Utf8.encode, List.flatMap_append]
  rfl

/-- A byte below `0x80` is in the line of a command only if its character is in the command, or it
    is the line feed at the end. -/
theorem Entry.not_mem_line {b : UInt8} {command : String} (hb : b < 0x80) (hlf : b ≠ 10)
    (h : Char.ofNat b.toNat ∉ command.toList) : b ∉ line command := by
  rw [line_eq, List.mem_append, List.mem_singleton, not_or]
  exact ⟨fun hmem => h (Utf8.mem_of_mem_encode hmem hb), hlf⟩

/-! ## What is written -/

/-- The command that an entry tells of, and the process that it was written to. -/
def Entry.written? : Entry → Option (Nat × String)
  | wrote p command => some (p, command)
  | sent p r => some (p, r.command)
  | _ => none

/-- The commands that were written to a process. -/
def commandsTo (p : Nat) (es : List Entry) : List String :=
  ((es.filterMap Entry.written?).filter (·.1 = p)).map (·.2)

/-- The bytes that were written to a process. -/
def bytesTo (p : Nat) (writes : List (Nat × List UInt8)) : List UInt8 :=
  (writes.filter (·.1 = p)).flatMap (·.2)

theorem lines_eq_map (es : List Entry) :
    es.flatMap Entry.lines = (es.filterMap Entry.written?).map fun w => (w.1, Entry.line w.2) := by
  induction es with
  | nil => rfl
  | cons e es ih =>
    rw [List.flatMap_cons, ih]
    cases e <;> rfl

theorem bytesTo_lines (p : Nat) (es : List Entry) :
    bytesTo p (es.flatMap Entry.lines) = (commandsTo p es).flatMap Entry.line := by
  rw [lines_eq_map, bytesTo, List.filter_map, List.flatMap_map, commandsTo, List.flatMap_map]
  rfl

theorem commandsTo_append (p : Nat) (es fs : List Entry) :
    commandsTo p (es ++ fs) = commandsTo p es ++ commandsTo p fs := by
  simp [commandsTo]

/-- Who writes attaches no process. -/
theorem Ledger.Run.process_eq {s t : Ledger} {es : List Entry} (h : Run s es t)
    (hes : ∀ e ∈ es, e.written? ≠ none) : t.process = s.process := by
  induction h with
  | nil => rfl
  | cons he _ ih =>
    rw [ih fun e hmem => hes e (List.mem_cons_of_mem _ hmem)]
    have hwritten := hes _ List.mem_cons_self
    cases he with
    | wrote | sent => rfl
    | _ => exact absurd rfl hwritten

/-- Whatever was written is a command for lanes with a marker. -/
def AllAccepted (marker : UInt8) (es : List Entry) : Prop :=
  ∀ e ∈ es, ∀ w, e.written? = some w → Accepts marker w.2

section

variable {marker : UInt8} {es fs : List Entry}

theorem AllAccepted.nil : AllAccepted marker [] := by
  intro e he
  cases he

theorem AllAccepted.append (hes : AllAccepted marker es) (hfs : AllAccepted marker fs) :
    AllAccepted marker (es ++ fs) := by
  intro e he
  obtain he | he := List.mem_append.1 he
  · exact hes e he
  · exact hfs e he

theorem AllAccepted.of_written {e : Entry} {p : Nat} {command : String}
    (he : e.written? = some (p, command)) (h : Accepts marker command) :
    AllAccepted marker [e] := by
  intro x hx w hw
  rw [List.mem_singleton.1 hx, he] at hw
  exact Option.some.inj hw ▸ h

theorem AllAccepted.of_unwritten {e : Entry} (he : e.written? = none) : AllAccepted marker [e] := by
  intro x hx w hw
  rw [List.mem_singleton.1 hx, he] at hw
  cases hw

theorem AllAccepted.commandsTo (hes : AllAccepted marker es) {p : Nat} {command : String}
    (h : command ∈ commandsTo p es) : Accepts marker command := by
  obtain ⟨w, hw, rfl⟩ := List.mem_map.1 h
  obtain ⟨e, he, hew⟩ := List.mem_filterMap.1 (List.mem_of_mem_filter hw)
  exact hes e he w hew

end

/-! ## Only commands are written -/

/-- What is written again without being looked at has a property. -/
def Deed.Repeats (P : String → Prop) : Deed → Prop
  | requeue r => P r.command
  | _ => True

/-- So has what a plan writes again, whatever it sees and learns. -/
def Plan.Repeats (P : String → Prop) : Plan → Prop
  | done => True
  | fail _ => True
  | look next => ∀ s, (next s).Repeats P
  | first d next => d.Repeats P ∧ ∀ e, (next e).Repeats P

def Policy.Repeats (P : String → Prop) (p : Policy) : Prop :=
  ∀ state body r, (p state body r).Repeats P

def LaneOp.Repeats (P : String → Prop) : LaneOp → Prop
  | deed d => d.Repeats P
  | feed p _ => p.Repeats P
  | _ => True

/-- The host's own reactions write nothing again. -/
theorem Policy.repeats_usual (P : String → Prop) : Policy.usual.Repeats P := by
  intro state body r
  cases r with
  | note => exact ⟨trivial, fun _ => trivial⟩
  | fail => exact ⟨trivial, fun _ => trivial⟩
  | attach p => exact ⟨trivial, fun _ => ⟨trivial, fun _ => trivial⟩⟩
  | submit command state' =>
    refine ⟨trivial, fun _ => ⟨trivial, fun e => ?_⟩⟩
    cases e <;> trivial
  | ready s p mode =>
    refine ⟨trivial, fun e => ?_⟩
    cases e <;> trivial

namespace Host

section

variable {l : Nat} {h : Host} {marker : UInt8}

theorem marker_changeLane (f : Lane → Lane) (h : Host)
    (hf : ∀ lane, (f lane).marker = lane.marker := by exact fun _ => rfl) :
    ((after (changeLane l f) h).laneOf l).marker = (h.laneOf l).marker := by
  rw [laneOf_changeLane]
  split
  · exact hf _
  · rfl

theorem accepts_of_writeRaw {command : String} (hok : failure? (writeRaw l command) h = none) :
    Accepts (h.laneOf l).marker command := by
  cases hf : Command.fault? (h.laneOf l).markerText command.toList with
  | none => exact hf
  | some f =>
    have hrun : (writeRaw l command).run h = .error (.badCommand f) h := by
      rw [writeRaw, run_bind_ok (run_lane l h), validate, hf]
      rfl
    rw [failure?, hrun] at hok
    cases hok

theorem accepts_of_submit {command : String} {state : Json} {reaction : Option Reaction}
    {waiter : Option Nat} (hok : failure? (submit l command state reaction waiter) h = none) :
    Accepts (h.laneOf l).marker command := by
  refine accepts_of_writeRaw ?_
  cases hrun : (writeRaw l command).run h with
  | ok v h' => rw [failure?, hrun]
  | error e h' =>
    rw [failure?, submit, run_bind_error hrun] at hok
    cases hok

theorem accepted_writing {a : Action Unit} {e : Nat → Entry} {command : String}
    (he : ∀ p, (e p).written? = some (p, command))
    (ha : failure? a h = none → Accepts marker command) : AllAccepted marker (writing a l h e) := by
  obtain hw | ⟨p, hok, -, hw⟩ := writing_cases a l h e <;> rw [hw]
  · exact .nil
  · exact .of_written (he p) (ha hok)

theorem accepted_deed (hm : (h.laneOf l).marker = marker) {d : Deed}
    (hd : d.Repeats (Accepts marker)) : AllAccepted marker (d.entries l h) := by
  cases d with
  | writeRaw command =>
    exact accepted_writing (fun _ => rfl) fun hok => hm ▸ accepts_of_writeRaw hok
  | submit command state reaction waiter =>
    exact accepted_writing (fun _ => rfl) fun hok => hm ▸ accepts_of_submit hok
  | requeue r => exact accepted_writing (fun _ => rfl) fun _ => hd
  | note state body | ready s p mode body => exact .nil
  | _ => exact .of_unwritten rfl

theorem accepted_plan (hm : (h.laneOf l).marker = marker) {p : Plan}
    (hp : p.Repeats (Accepts marker)) : AllAccepted marker (p.entries l h) := by
  induction p generalizing h with
  | done => exact .nil
  | fail e => exact .nil
  | look next ih => exact ih _ hm (hp _)
  | first d next ih =>
    have hloyal : LoyalHost h (after (d.run l) h) := Within.rel_after h
    exact (accepted_deed hm hp.1).append (ih _ ((hloyal.lane l).marker.trans hm) (hp.2 _))

theorem accepted_delivery (hm : (h.laneOf l).marker = marker) {p : Policy}
    (hp : p.Repeats (Accepts marker)) (body : String) :
    AllAccepted marker (deliveryEntries p l body h) := by
  unfold deliveryEntries
  cases (h.laneOf l).queue with
  | nil => exact .of_unwritten rfl
  | cons r queue =>
    obtain ⟨h', hh'⟩ : ∃ h', after (count (h.laneOf l).key .frame)
      (after (changeLane l fun lane => { lane with queue }) h) = h' := ⟨_, rfl⟩
    have hm' : (h'.laneOf l).marker = marker := by
      rw [← hh', ← hm]
      exact marker_changeLane _ h
    dsimp only
    rw [hh']
    refine AllAccepted.append (.of_unwritten (e := .answered r body) rfl) ?_
    cases r.reaction with
    | none => exact .nil
    | some x => exact accepted_plan hm' (hp _ _ _)

theorem accepted_loop (hm : (h.laneOf l).marker = marker) {p : Policy}
    (hp : p.Repeats (Accepts marker)) {attachments : Nat} {ending : UInt8} {buffer : List UInt8}
    {start scanned : Nat} :
    AllAccepted marker (loopEntries p l attachments ending buffer start scanned h) := by
  induction hd : buffer.length - scanned using Nat.strongRecOn generalizing start scanned h with
  | _ d ih =>
  cases hf : Lane.find? ending buffer scanned with
  | none =>
    rw [loopEntries_none p l attachments start hf]
    exact .nil
  | some i =>
    have hlt := Lane.find?_lt hf
    let body := bodyOf ((buffer.drop start).take (i - start))
    let h₁ := after (changeLane l fun lane => { lane with scanned := i + 1 }) h
    obtain ⟨h', hh'⟩ : ∃ h', deliveredTo p.ask l i body h = h' := ⟨_, rfl⟩
    have hm₁ : (h₁.laneOf l).marker = marker := (marker_changeLane _ h).trans hm
    have hm' : (h'.laneOf l).marker = marker := by
      have hloyal : LoyalHost h₁ h' := hh' ▸ Within.rel_after h₁
      exact (hloyal.lane l).marker.trans hm₁
    rw [loopEntries_some p l attachments start hf hh']
    refine (accepted_delivery hm₁ hp body).append ?_
    split
    · exact ih (buffer.length - (i + 1)) (by omega) hm' rfl
    · exact .nil

/-- Whatever happens to a lane, only accepted commands are written. -/
theorem accepted_op (hm : (h.laneOf l).marker = marker) {op : LaneOp}
    (hop : op.Repeats (Accepts marker)) : AllAccepted marker (op.entries l h) := by
  cases op with
  | deed d => exact accepted_deed hm hop
  | feed p bytes =>
    rw [LaneOp.entries, feedEntries]
    split
    · exact .nil
    · refine accepted_loop ?_ hop
      rw [← hm]
      exact marker_changeLane _ _
  | call command =>
    have hm' : ((after newCell h).laneOf l).marker = marker := hm
    exact accepted_writing (fun _ => rfl) fun hok => hm' ▸ accepts_of_submit hok
  | settle c e => exact .nil
  | world f => exact .nil

theorem accepted_history (hr : Reached l h) (hm : (h.laneOf l).marker = marker) {ops : List LaneOp}
    (hops : ∀ op ∈ ops, op.Repeats (Accepts marker)) : AllAccepted marker (history l ops h) := by
  induction ops generalizing h with
  | nil => exact .nil
  | cons op ops ih =>
    have hm' := (buffer_op hr.tidy op).1.2.trans hm
    exact (accepted_op hm (hops op List.mem_cons_self)).append
      (ih (hr.op op) hm' fun x hx => hops x (List.mem_cons_of_mem op hx))

end

end Host

/-! ## Calls that succeed -/

/-- The command that a deed writes. -/
def Deed.command? : Deed → Option String
  | writeRaw command | submit command .. => some command
  | requeue r => some r.command
  | _ => none

namespace Host

section

variable {l p : Nat} {h k : Host}

/-- A command that is written is one entry. -/
theorem entries_of_command? {d : Deed} {command : String} (hd : d.command? = some command)
    (hp : (h.laneOf l).process = some p) (hrun : (d.run l).run h = .ok () k) :
    ∃ e, d.entries l h = [e] ∧ e.written? = some (p, command) := by
  cases d with
  | writeRaw c | submit c state reaction waiter | requeue r =>
    cases hd
    exact ⟨_, writing_of_ok hrun hp, rfl⟩
  | _ => cases hd

/-- Calls that all succeed write their commands, in order, to the process that is attached. -/
theorem commandsTo_calls (hl : l < h.lanes.size) (hp : (h.laneOf l).process = some p)
    {calls : List Deed} (hc : ∀ d ∈ calls, d.command? ≠ none)
    (hrun : (forM calls (Deed.run l)).run h = .ok () k) :
    k = afterOps l (calls.map .deed) h ∧
      commandsTo p (history l (calls.map .deed) h) = calls.filterMap Deed.command? := by
  induction calls generalizing h with
  | nil =>
    cases hrun
    exact ⟨rfl, rfl⟩
  | cons d calls ih =>
    obtain ⟨command, hd⟩ := Option.ne_none_iff_exists'.1 (hc d List.mem_cons_self)
    rw [List.forM_cons] at hrun
    cases hfirst : (d.run l).run h with
    | error e h' =>
      rw [run_bind_error hfirst] at hrun
      cases hrun
    | ok v h' =>
      rw [run_bind_ok hfirst] at hrun
      obtain ⟨e, hentries, he⟩ := entries_of_command? hd hp hfirst
      have hafter : after (d.run l) h = h' := after_of_ok hfirst
      have hloyal : LoyalHost h h' := hafter ▸ Within.rel_after h
      have hp' : (h'.laneOf l).process = some p := by
        have hstep := ledger_deed hl d
        rw [hentries, hafter] at hstep
        exact (hstep.process_eq fun x hx => by simp_all).trans hp
      obtain ⟨hk, hcommands⟩ :=
        ih (hloyal.size ▸ hl) hp' (fun x hx => hc x (List.mem_cons_of_mem d hx)) hrun
      refine ⟨?_, ?_⟩
      · rw [hk, ← hafter]
        rfl
      · rw [List.map_cons, history, LaneOp.entries, LaneOp.run, hentries, hafter, commandsTo_append,
          hcommands, List.filterMap_cons_some hd, commandsTo, List.filterMap_cons_some he]
        simp

end

/-! ## One command is one line -/

/-- Whatever happens to a lane, what is written to a process is cut at its line feeds into the
    commands that were written to it, in order; none of them is blank, and no byte is a carriage
    return, zero or the marker.  Calls that all succeed are such a run, and its commands are
    theirs. -/
theorem written_lines {l : Nat} {h : Host} {marker : UInt8} (hr : Reached l h)
    (hm : (h.laneOf l).marker = marker) (hascii : marker < 0x80) (hlf : marker ≠ 10)
    {ops : List LaneOp} (hops : ∀ op ∈ ops, op.Repeats (Accepts marker)) (p : Nat) :
    let h' := afterOps l ops h
    let commands := commandsTo p (history l ops h)
    let bytes := bytesTo p (h'.journal.writes.drop h.journal.writes.length)
    h.journal.writes <+: h'.journal.writes ∧
    segments 10 bytes = commands.map (fun c => Utf8.encode c.toList) ++ [[]] ∧
    (∀ c ∈ commands, allBlank c.toList = false) ∧
    (13 ∉ bytes ∧ 0 ∉ bytes ∧ marker ∉ bytes) ∧
    ∀ calls : List Deed, ops = calls.map .deed → (∀ d ∈ calls, d.command? ≠ none) →
      (h.laneOf l).process = some p → ∀ k, (forM calls (Deed.run l)).run h = .ok () k →
        k = h' ∧ commands = calls.filterMap Deed.command? := by
  intro h' commands bytes
  have hwrites : h'.journal.writes = h.journal.writes ++ (history l ops h).flatMap Entry.lines :=
    (ledger_run hr ops).writes_eq
  have hbytes : bytes = commands.flatMap Entry.line := by
    show bytesTo p (h'.journal.writes.drop _) = _
    rw [hwrites, List.drop_left, bytesTo_lines]
  have haccepted (c : String) (hc : c ∈ commands) := accepts_iff.1 <|
    (accepted_history hr hm hops).commandsTo hc
  have hnone {b : UInt8} (hb : b < 0x80) (hne : b ≠ 10)
      (h : ∀ c ∈ commands, Char.ofNat b.toNat ∉ c.toList) : b ∉ bytes := by
    rw [hbytes]
    intro hmem
    obtain ⟨c, hc, hbc⟩ := List.mem_flatMap.1 hmem
    exact Entry.not_mem_line hb hne (h c hc) hbc
  refine ⟨⟨_, hwrites.symm⟩, ?_, fun c hc => (haccepted c hc).1, ⟨?_, ?_, ?_⟩, ?_⟩
  · have hpieces : ∀ x ∈ commands.map fun c => Utf8.encode c.toList, (10 : UInt8) ∉ x := by
      intro x hx hmem
      obtain ⟨c, hc, rfl⟩ := List.mem_map.1 hx
      exact (haccepted c hc).2.1 (Utf8.mem_of_mem_encode hmem (by decide))
    rw [hbytes, ← segments_flatMap hpieces, List.flatMap_map]
    congr 1
    exact List.flatMap_congr fun c _ => Entry.line_eq c
  · exact hnone (by decide) (by decide) fun c hc => (haccepted c hc).2.2.1
  · exact hnone (by decide) (by decide) fun c hc => (haccepted c hc).2.2.2.1
  · exact hnone hascii hlf fun c hc => (haccepted c hc).2.2.2.2
  · rintro calls rfl hcalls hp k hrun
    exact commandsTo_calls hr.tidy.lt hp hcalls hrun

/-- Three ways of writing, one of which does not look at the command again. -/
theorem written_lines_three_ways :
    let h := after ((LaneOp.deed (.attach 0)).run 0) laneAndWorker
    let calls : List Deed :=
      [.submit ":t 'ä'" .null none none, .writeRaw ":set -w", .requeue { command := ":l x" }]
    let ops := calls.map LaneOp.deed
    let bytes := bytesTo 0 ((afterOps 0 ops h).journal.writes.drop h.journal.writes.length)
    (Reached 0 h ∧ (h.laneOf 0).marker = 4 ∧ (∀ op ∈ ops, op.Repeats (Accepts 4)) ∧
      (h.laneOf 0).process = some 0 ∧ (forM calls (Deed.run 0)).run h = .ok () (afterOps 0 ops h)) ∧
    segments 10 bytes =
      [":t 'ä'", ":set -w", ":l x"].map (fun c => Utf8.encode c.toList) ++ [[]] ∧
    4 ∉ bytes := by
  intro h calls ops bytes
  have hr : Reached 0 h := .op (.new "ghci:/p" 4 true rfl) _
  have hops : ∀ op ∈ ops, op.Repeats (Accepts 4) := by
    intro op hop
    obtain ⟨d, hd, rfl⟩ := List.mem_map.1 hop
    simp only [calls, List.mem_cons, List.not_mem_nil, or_false] at hd
    obtain rfl | rfl | rfl := hd
    · trivial
    · trivial
    · exact (by decide : Accepts 4 ":l x")
  have hm : (h.laneOf 0).marker = 4 := rfl
  obtain ⟨-, hcut, -, ⟨-, -, hmarker⟩, hcalls⟩ :=
    written_lines hr hm (by decide) (by decide) hops 0
  obtain ⟨k, hrun⟩ : ∃ k, (forM calls (Deed.run 0)).run h = .ok () k :=
    ⟨_, run_of_failure? (Option.isNone_iff_eq_none.1 (by decide +kernel))⟩
  have hwrite : ∀ d ∈ calls, d.command? ≠ none := by decide
  have hp : (h.laneOf 0).process = some 0 := rfl
  obtain ⟨hk, hcommands⟩ := hcalls calls rfl hwrite hp k hrun
  rw [hk] at hrun
  rw [hcommands] at hcut
  exact ⟨⟨hr, hm, hops, hp, hrun⟩, hcut, hmarker⟩

end Host

end GhciHost
