import GhciHost.Host.Resume

/-!
# Kinds of frames

Most frames can stand anywhere on the stack of a task.  Those of a startup cannot: whoever starts
a session's worker has its turn until the frame `startEnd` goes on, and the frames of the startup
stand directly above it.

* `tame_append`   stacks without such frames can be put on top of each other;
* `Mounted.mem_held`   who takes part in a startup has the turn.
-/

namespace GhciHost

namespace Frame

/-- Frames that have no part in the startup of a session or in its end. -/
def isPlain : Frame → Bool
  | startTurn .. | startBody _ | startEnd _ | gotVersion _ | gotExtensions _ | checkWorker _
  | gotStatus _ | gotInstall _ | launch .. | launched .. | teardown _ | readerGone ..
  | cancelQueries _ | queriesEnd .. | queriesGone _ | cleanupRest _ => false
  | _ => true

/-- The frame that is given a session and starts it. -/
def isStart : Frame → Bool
  | startSession => true
  | _ => false

/-- The frame that gives a session. -/
def isFind : Frame → Bool
  | getOrCreate .. => true
  | _ => false

/-- The frame that starts a process. -/
def isSpawn : Frame → Bool
  | spawnEnd _ => true
  | _ => false

/-- The frames of the calls of the installer and of the launcher. -/
def isCall : Frame → Bool
  | gotInstall _ | launched .. | spawnEnd _ => true
  | _ => false

/-- The frames that queue for the turn to start a session, or end it. -/
def isTurn : Frame → Bool
  | startSession | startTurn .. | startEnd _ => true
  | _ => false

/-- The frames whose steps do nothing to sessions that is not allowed at any time. -/
def isOrdinary : Frame → Bool
  | startSession | getOrCreate .. | pumpEnd .. | destroy .. | cleanup => false
  | f => f.isPlain

/-- The session whose startup a frame is part of, while it goes through the steps that one turn
    allows. -/
def startup? : Frame → Option Nat
  | startBody s | gotVersion s | gotExtensions s | checkWorker s | gotStatus s | gotInstall s
  | launch s .fast _ => some s
  | _ => none

/-- The session of which a frame supposes that it has not begun to start. -/
def early? : Frame → Option Nat
  | gotVersion s | gotExtensions s | checkWorker s | gotStatus s => some s
  | _ => none

/-- The session that a frame takes to its next phase, and the phase that it is in until then. -/
def stage? : Frame → Option (Nat × Phase)
  | gotInstall s => some (s, .installing)
  | launched s mode _ => some (s, .starting mode)
  | _ => none

/-- The session that a frame launches at once. -/
def launches? : Frame → Option (Nat × StartMode)
  | launch s mode _ => some (s, mode)
  | _ => none

/-- The session whose turn ends with a frame. -/
def ends? : Frame → Option Nat
  | startEnd s => some s
  | _ => none

/-- The cell at which a frame waits for its turn. -/
def turn? : Frame → Option (Nat × Nat)
  | startTurn s c => some (s, c)
  | _ => none

/-- The session that a frame takes to a phase or is about to. -/
def staged? : Frame → Option Nat
  | gotInstall s | launch s .. | launched s .. => some s
  | _ => none

/-- Frames that neither take part in a startup, nor begin one, nor come after one. -/
def isAside : Frame → Bool
  | startSession | startTurn .. | startBody _ | startEnd _ | gotVersion _ | gotExtensions _
  | checkWorker _ | gotStatus _ | gotInstall _ | launch .. | launched .. | spawnEnd _ | submitTo ..
  | callOn .. | queryOn .. => false
  | _ => true

/-- The sessions that a frame destroys. -/
def tears : Frame → List Nat
  | teardown s => [s]
  | cleanupRest rest => rest
  | _ => []

/-- Frames that take sessions out of use. -/
def isDrop : Frame → Bool
  | destroy .. | cleanup => true
  | _ => false

/-- The session that is destroyed when a frame goes on. -/
def gone? : Frame → Option Nat
  | readerGone s _ | cancelQueries s | queriesEnd s .. | queriesGone s => some s
  | _ => none

/-- The session and the requests that a frame has to submit again. -/
def replay? : Frame → Option (Nat × List Request)
  | launch s _ replay | launched s _ replay => some (s, replay)
  | _ => none

/-- What a caller wants done with the response to a request that a frame has still to make. -/
def reaction? : Frame → Option Reaction
  | submitTo _ _ reaction | queryOn _ _ reaction => reaction
  | _ => none

/-- The session and the worker that a frame follows. -/
def follows? : Frame → Option (Nat × Nat)
  | pump s p | pumped s p | pumpEnd s p => some (s, p)
  | _ => none

/-- What a frame is told by the one above it, and by nothing else. -/
inductive Herald
  /-- The exit code of a process. -/
  | exit (process : Nat)
  /-- The process that was started. -/
  | start
deriving DecidableEq

/-- What the frame below is told of. -/
def heralds? : Frame → Option Herald
  | waitExit p => some (.exit p)
  | spawnEnd _ => some .start
  | _ => none

/-- What a frame has to be told of by the frame above it. -/
def expects? : Frame → Option Herald
  | pumpEnd _ p => some (.exit p)
  | launched .. => some .start
  | _ => none

end Frame

/-- Where a frame that starts sessions stands on a stack, a frame that gives one is above it.
    `found` tells whether there is one above the stack. -/
def Fed (found : Bool) : List Frame → Prop
  | [] => True
  | f :: fs => (f.isStart → found) ∧ Fed f.isFind fs

/-- Where a frame stands on a stack that has to be told of something, the frame above it tells of
    it.  `told` is what is told of from above the stack. -/
def Heralded (told : Option Frame.Herald) : List Frame → Prop
  | [] => True
  | f :: fs => (∀ x, f.expects? = some x → told = some x) ∧ Heralded f.heralds? fs

/-- Stacks that have no part in the startup of a session yet.  `above` is the frame above the
    stack, if there is one. -/
def tame (above : Option Frame) : List Frame → Bool
  | [] => true
  | f :: fs => f.isPlain && !f.isSpawn && (!f.isStart || above.any (·.isFind)) &&
      f.expects?.all (fun x => above.bind (·.heralds?) = some x) && tame (some f) fs

/-- Stacks of new tasks. -/
def Tame (fs : List Frame) : Prop := tame none fs = true

/-- Stacks of this kind that make no request of a caller. -/
def easy (fs : List Frame) : Bool := tame none fs && fs.all (·.reaction?.isNone)

/-- Stacks of this kind that follow no worker. -/
def gentle (fs : List Frame) : Bool := easy fs && fs.all (·.follows?.isNone)

/-- The frames of a startup stand directly above its end. -/
def Mounted : List Frame → Prop
  | [] => True
  | f :: fs => (∀ s, f.startup? = some s → ∃ rest, fs = .startEnd s :: rest) ∧ Mounted fs

/-- The sessions whose turn a task has. -/
def held (fs : List Frame) : List Nat := fs.filterMap Frame.ends?

/-- The sessions that frames of a stack take to their next phases. -/
def staged (fs : List Frame) : List Nat := fs.filterMap Frame.staged?

theorem Fed.mono {b : Bool} {fs : List Frame} (h : Fed false fs) : Fed b fs := by
  cases fs with
  | nil => trivial
  | cons f fs => exact ⟨fun hf => Bool.noConfusion (h.1 hf), h.2⟩

theorem fed_append {b : Bool} {fs gs : List Frame} (hf : Fed b fs) (hg : Fed false gs) :
    Fed b (fs ++ gs) := by
  induction fs generalizing b with
  | nil => exact hg.mono
  | cons f fs ih => exact ⟨hf.1, ih hf.2⟩

theorem Heralded.mono {told : Option Frame.Herald} {fs : List Frame} (h : Heralded none fs) :
    Heralded told fs := by
  cases fs with
  | nil => trivial
  | cons f fs => exact ⟨fun x hx => (nomatch h.1 x hx), h.2⟩

theorem heralded_append {told : Option Frame.Herald} {fs gs : List Frame} (hf : Heralded told fs)
    (hg : Heralded none gs) : Heralded told (fs ++ gs) := by
  induction fs generalizing told with
  | nil => exact hg.mono
  | cons f fs ih => exact ⟨hf.1, ih hf.2⟩

section Tame

variable {above : Option Frame} {f : Frame} {fs gs : List Frame}

theorem tame_cons : tame above (f :: fs) = true ↔ (f.isPlain = true ∧ f.isSpawn = false) ∧
    (f.isStart = true → above.any (·.isFind) = true) ∧
    (∀ x, f.expects? = some x → above.bind (·.heralds?) = some x) ∧ tame (some f) fs = true := by
  simp only [tame, Bool.and_eq_true, Bool.not_eq_true', Option.all_eq_true, decide_eq_true_eq,
    and_assoc]
  cases f.isStart <;> simp

theorem fed_of_tame (h : tame above fs = true) : Fed (above.any (·.isFind)) fs := by
  induction fs generalizing above with
  | nil => trivial
  | cons f fs ih =>
    obtain ⟨-, hstart, -, hfs⟩ := tame_cons.1 h
    exact ⟨hstart, ih hfs⟩

theorem heralded_of_tame (h : tame above fs = true) : Heralded (above.bind (·.heralds?)) fs := by
  induction fs generalizing above with
  | nil => trivial
  | cons f fs ih =>
    obtain ⟨-, -, hexpects, hfs⟩ := tame_cons.1 h
    exact ⟨hexpects, ih hfs⟩

theorem kind_of_tame (h : tame above fs = true) (hf : f ∈ fs) :
    f.isPlain = true ∧ f.isSpawn = false := by
  induction fs generalizing above with
  | nil => cases hf
  | cons g fs ih =>
    obtain ⟨hg, -, -, hfs⟩ := tame_cons.1 h
    rcases List.mem_cons.1 hf with rfl | hf
    · exact hg
    · exact ih hfs hf

theorem isPlain_of_tame (h : tame above fs = true) (hf : f ∈ fs) : f.isPlain = true :=
  (kind_of_tame h hf).1

theorem isSpawn_of_tame (h : tame above fs = true) (hf : f ∈ fs) : f.isSpawn = false :=
  (kind_of_tame h hf).2

theorem tame_append (hf : tame above fs = true) (hg : Tame gs) : tame above (fs ++ gs) = true := by
  induction fs generalizing above with
  | nil =>
    cases gs with
    | nil => rfl
    | cons g gs =>
      obtain ⟨hplain, hstart, hexpects, hgs⟩ := tame_cons.1 hg
      exact tame_cons.2
        ⟨hplain, fun h => (nomatch hstart h), fun x hx => (nomatch hexpects x hx), hgs⟩
  | cons f fs ih =>
    obtain ⟨hplain, hstart, hexpects, hfs⟩ := tame_cons.1 hf
    exact tame_cons.2 ⟨hplain, hstart, hexpects, ih hfs⟩

end Tame

theorem tame_of_easy {fs : List Frame} (h : easy fs = true) : Tame fs :=
  (Bool.and_eq_true_iff.1 h).1

theorem reaction?_of_easy {fs : List Frame} (h : easy fs = true) {f : Frame} (hf : f ∈ fs) :
    f.reaction? = none :=
  Option.isNone_iff_eq_none.1 (List.all_eq_true.1 (Bool.and_eq_true_iff.1 h).2 f hf)

theorem easy_append {fs gs : List Frame} (hf : easy fs = true) (hg : easy gs = true) :
    easy (fs ++ gs) = true := by
  rw [easy, Bool.and_eq_true_iff] at hf hg ⊢
  exact ⟨tame_append hf.1 hg.1, by rw [List.all_append, hf.2, hg.2]; rfl⟩

theorem easy_of_gentle {fs : List Frame} (h : gentle fs = true) : easy fs = true :=
  (Bool.and_eq_true_iff.1 h).1

theorem tame_of_gentle {fs : List Frame} (h : gentle fs = true) : Tame fs :=
  tame_of_easy (easy_of_gentle h)

theorem follows?_of_gentle {fs : List Frame} (h : gentle fs = true) {f : Frame} (hf : f ∈ fs) :
    f.follows? = none :=
  Option.isNone_iff_eq_none.1 (List.all_eq_true.1 (Bool.and_eq_true_iff.1 h).2 f hf)

theorem gentle_append {fs gs : List Frame} (hf : gentle fs = true) (hg : gentle gs = true) :
    gentle (fs ++ gs) = true := by
  rw [gentle, Bool.and_eq_true_iff] at hf hg ⊢
  exact ⟨easy_append hf.1 hg.1, by rw [List.all_append, hf.2, hg.2]; rfl⟩

section Plain

variable {f : Frame} (hf : f.isPlain = true)
include hf

theorem startup?_of_isPlain : f.startup? = none := by
  cases f <;> first | rfl | cases hf

theorem early?_of_isPlain : f.early? = none := by
  cases f <;> first | rfl | cases hf

theorem stage?_of_isPlain : f.stage? = none := by
  cases f <;> first | rfl | cases hf

theorem staged?_of_isPlain : f.staged? = none := by
  cases f <;> first | rfl | cases hf

theorem launches?_of_isPlain : f.launches? = none := by
  cases f <;> first | rfl | cases hf

theorem ends?_of_isPlain : f.ends? = none := by
  cases f <;> first | rfl | cases hf

theorem turn?_of_isPlain : f.turn? = none := by
  cases f <;> first | rfl | cases hf

theorem tears_of_isPlain : f.tears = [] := by
  cases f <;> first | rfl | cases hf

theorem gone?_of_isPlain : f.gone? = none := by
  cases f <;> first | rfl | cases hf

theorem replay?_of_isPlain : f.replay? = none := by
  cases f <;> first | rfl | cases hf

end Plain

/-! ## Stacks -/

/-- A stack without frames of a startup can be put on a mounted one. -/
theorem mounted_append {fs gs : List Frame} (hf : ∀ f ∈ fs, f.startup? = none) (hg : Mounted gs) :
    Mounted (fs ++ gs) := by
  induction fs with
  | nil => exact hg
  | cons f fs ih =>
    refine ⟨fun s hs => ?_, ih fun g hg => hf g (List.mem_cons_of_mem _ hg)⟩
    rw [hf f List.mem_cons_self] at hs
    cases hs

/-- Who takes part in a startup has the turn. -/
theorem Mounted.mem_held {fs : List Frame} (h : Mounted fs) {f : Frame} {s : Nat} (hf : f ∈ fs)
    (hs : f.startup? = some s) : s ∈ held fs := by
  induction fs with
  | nil => cases hf
  | cons g fs ih =>
    rcases List.mem_cons.1 hf with rfl | hf
    · obtain ⟨rest, rfl⟩ := h.1 s hs
      simp only [held, List.filterMap_cons, Frame.ends?]
      cases f <;> simp
    · have := ih h.2 hf
      simp only [held, List.filterMap_cons] at this ⊢
      split
      · exact this
      · exact List.mem_cons_of_mem _ this

@[simp] theorem held_cons (f : Frame) (fs : List Frame) :
    held (f :: fs) = f.ends?.toList ++ held fs := by
  simp only [held, List.filterMap_cons]
  cases f.ends? <;> rfl

@[simp] theorem held_append (fs gs : List Frame) : held (fs ++ gs) = held fs ++ held gs :=
  List.filterMap_append

@[simp] theorem staged_append (fs gs : List Frame) : staged (fs ++ gs) = staged fs ++ staged gs :=
  List.filterMap_append

@[simp] theorem staged_cons (f : Frame) (fs : List Frame) :
    staged (f :: fs) = f.staged?.toList ++ staged fs := by
  simp only [staged, List.filterMap_cons]
  cases f.staged? <;> rfl

theorem held_of_tame {fs : List Frame} (h : Tame fs) : held fs = [] := by
  rw [held, List.filterMap_eq_nil_iff]
  exact fun f hf => ends?_of_isPlain (isPlain_of_tame h hf)

theorem staged_of_tame {fs : List Frame} (h : Tame fs) : staged fs = [] := by
  rw [staged, List.filterMap_eq_nil_iff]
  exact fun f hf => staged?_of_isPlain (isPlain_of_tame h hf)

end GhciHost
