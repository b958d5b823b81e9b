import GhciHost.Proofs.Session.Accounting

/-!
# What stands above the end of a turn

Whoever has the turn to start a session has its frame `startEnd` on the stack.  Directly above it
stands a frame of the startup, until nothing is left of it and the turn is over.

* `Crowned`   the invariant of a stack;
* `Steps.crowned`   a step keeps it, and a turn ends as soon as it can;
* `Crowned.driven`   what it says of a task that has the turn.
-/

namespace GhciHost

/-- The session whose turn begins with a frame. -/
def Frame.begins? : Frame → Option Nat
  | startBody s => some s
  | _ => none

/-- A frame that takes part in the startup of a session, or takes it to a phase. -/
def Frame.Drives (f : Frame) (s : Nat) : Prop := f.startup? = some s ∨ f.staged? = some s

/-- Frames by which no turn begins or ends. -/
def Frame.Inner (f : Frame) : Prop := f.ends? = none ∧ f.begins? = none

/-- Only frames of its startup stand above the end of a session's turn, and none above its
    beginning.  `above` is the frame above the stack, if there is one. -/
def Crowned (above : Option Frame) : List Frame → Prop
  | [] => True
  | f :: fs => (∀ s, f.ends? = some s → ∀ g ∈ above, g.Drives s) ∧
      (f.begins?.isSome → above = none) ∧ Crowned (some f) fs

namespace Crowned

variable {above : Option Frame} {f g : Frame} {fs below push : List Frame}

/-- The frame above the stack is gone. -/
theorem bare (h : Crowned above fs) : Crowned none fs := by
  cases fs with
  | nil => trivial
  | cons f fs => exact ⟨fun _ _ g hg => absurd hg (by simp), fun _ => rfl, h.2.2⟩

/-- Another frame stands above the stack that drives the same sessions. -/
theorem under (h : Crowned (some f) fs) (hfg : ∀ s, f.Drives s → g.Drives s) :
    Crowned (some g) fs := by
  cases fs with
  | nil => trivial
  | cons f' fs =>
    refine ⟨fun s hs g' hg' => ?_, fun hb => ?_, h.2.2⟩
    · cases hg'
      exact hfg s (h.1 s hs f rfl)
    · cases h.2.1 hb

theorem of_inner (h : ∀ g ∈ fs, g.Inner) : Crowned above fs := by
  induction fs generalizing above with
  | nil => trivial
  | cons f fs ih =>
    obtain ⟨he, hb⟩ := h f List.mem_cons_self
    refine ⟨fun s hs => ?_, fun hs => ?_, ih fun g hg => h g (List.mem_cons_of_mem _ hg)⟩
    · rw [he] at hs
      cases hs
    · rw [hb] at hs
      cases hs

theorem append (h : Crowned above push) (hlast : ∀ g, push.getLast? = some g → Crowned (some g) fs)
    (hnil : push = [] → Crowned above fs) : Crowned above (push ++ fs) := by
  induction push generalizing above with
  | nil => exact hnil rfl
  | cons f push ih =>
    refine ⟨h.1, h.2.1, ih h.2.2 (fun g hg => hlast g ?_) fun e => hlast f ?_⟩
    · rw [List.getLast?_cons, hg]
      rfl
    · rw [e]
      rfl

/-- A turn of the session is on the stack: it begins or ends next, or a frame drives it. -/
theorem driven (h : Crowned none fs) {s : Nat} (hs : s ∈ held fs) :
    (∃ rest, fs = .startEnd s :: rest) ∨ (∃ rest, fs = .startBody s :: rest) ∨
      ∃ g ∈ fs, g.Drives s ∧ g.begins? = none := by
  have hind (above : Option Frame) (fs : List Frame) (h : Crowned above fs) (hs : s ∈ held fs) :
      (∃ rest, fs = .startEnd s :: rest) ∨
        ∃ pre g rest, fs = pre ++ g :: .startEnd s :: rest ∧ g.Drives s ∧
          (g.begins?.isSome → pre = [] ∧ above = none) := by
    induction fs generalizing above with
    | nil => cases hs
    | cons f fs ih =>
      cases hf : f.ends? with
      | none =>
        rw [held_cons, hf] at hs
        rcases ih (some f) h.2.2 hs with ⟨rest, rfl⟩ | ⟨pre, g, rest, rfl, hg, hb⟩
        · exact .inr ⟨[], f, rest, rfl, h.2.2.1 s rfl f rfl, fun hb => ⟨rfl, h.2.1 hb⟩⟩
        · refine .inr ⟨f :: pre, g, rest, rfl, hg, fun hb' => ?_⟩
          cases (hb hb').2
      | some i =>
        have hf' : f = .startEnd i := by cases f <;> cases hf; rfl
        by_cases hi : i = s
        · rw [hf', hi]
          exact .inl ⟨fs, rfl⟩
        · rw [held_cons, hf] at hs
          have hs : s ∈ held fs := (List.mem_cons.1 hs).resolve_left (Ne.symm hi)
          rcases ih (some f) h.2.2 hs with ⟨rest, rfl⟩ | ⟨pre, g, rest, rfl, hg, hb⟩
          · exact .inr ⟨[], f, rest, rfl, h.2.2.1 s rfl f rfl, fun hb => ⟨rfl, h.2.1 hb⟩⟩
          · refine .inr ⟨f :: pre, g, rest, rfl, hg, fun hb' => ?_⟩
            cases (hb hb').2
  rcases hind none fs h hs with ⟨rest, rfl⟩ | ⟨pre, g, rest, rfl, hg, hb⟩
  · exact .inl ⟨rest, rfl⟩
  · cases hbegin : g.begins? with
    | none => exact .inr (.inr ⟨g, by simp, hg, hbegin⟩)
    | some i =>
      obtain ⟨rfl, -⟩ := hb (by rw [hbegin]; rfl)
      have hg' : g = .startBody i := by cases g <;> cases hbegin; rfl
      subst hg'
      rcases hg with hi | hi
      · cases hi
        exact .inr (.inl ⟨_, rfl⟩)
      · cases hi

end Crowned

namespace Host

open Loop

/-! ## Frames that are pushed -/

theorem inner_of_isPlain {f : Frame} (hf : f.isPlain = true) : f.Inner := by
  cases f <;> first | exact ⟨rfl, rfl⟩ | cases hf

theorem inner_of_isAside {f : Frame} (hf : f.isAside = true) : f.Inner := by
  cases f <;> first | exact ⟨rfl, rfl⟩ | cases hf

theorem inner_of_early {f : Frame} {s : Nat} (hf : f.early? = some s) : f.Inner := by
  cases f <;> first | exact ⟨rfl, rfl⟩ | cases hf

/-- A frame drives one session at most. -/
theorem drives_unique {f : Frame} {s i : Nat} (hs : f.startup? = some s) (hi : f.Drives i) :
    i = s := by
  rcases hi with hi | hi
  · exact Option.some.inj (hi.symm.trans hs)
  · cases f <;> cases hi <;> first | cases hs | skip
    · rfl
    · next m _ => cases m <;> cases hs; rfl

theorem not_drives_of_isPlain {f : Frame} (hf : f.isPlain = true) (s : Nat) : ¬ f.Drives s := by
  rintro (h | h)
  · rw [startup?_of_isPlain hf] at h
    cases h
  · rw [staged?_of_isPlain hf] at h
    cases h

/-- How a task goes on with frames by which no turn begins or ends. -/
structure Next.Driven (f : Frame) (n : Next) : Prop where
  inner : ∀ g ∈ n.push, g.Inner
  last : ∀ s, f.Drives s → ∀ g, n.push.getLast? = some g → g.Drives s
  go : ∀ s, f.Drives s → n.push = [] → ∃ e, n = .go [] e

theorem Course.driven {h : Host} {e : Ending} {f : Frame} {n : Next} {cores : Cores}
    (hc : Course h e f n cores) : n.Driven f := by
  have hnone {gs : List Frame} {e' : Ending} (hgs : gs = []) : (Next.go gs e').Driven f := by
    subst hgs
    refine ⟨fun g hg => ?_, fun s _ g hg => ?_, fun _ _ _ => ⟨_, rfl⟩⟩
    · cases hg
    · cases hg
  have hcall (gs : List Frame) {g : Frame} (hgs : ∀ g ∈ gs, g.Inner) (hg : g.Inner)
      (hdrives : ∀ s, f.Drives s → g.Drives s) : (Next.call (gs ++ [g])).Driven f := by
    refine ⟨fun g' hg' => ?_, fun s hs g' hg' => ?_, fun s _ hnil => ?_⟩
    · rcases List.mem_append.1 hg' with hg' | hg'
      · exact hgs g' hg'
      · rw [List.mem_singleton.1 hg']
        exact hg
    · rw [show (Next.call (gs ++ [g])).push = gs ++ [g] from rfl, List.getLast?_concat] at hg'
      cases hg'
      exact hdrives s hs
    · exact absurd hnil (List.append_ne_nil_of_right_ne_nil _ (List.cons_ne_nil _ _))
  have heasy {gs : List Frame} (hgs : gentle gs = true) : ∀ g ∈ gs, g.Inner := fun g hg =>
    inner_of_isPlain (isPlain_of_tame (tame_of_gentle hgs) hg)
  have hno {s : Nat} (h₁ : f.startup? = none) (h₂ : f.staged? = none) : ¬ f.Drives s := by
    rintro (h | h)
    · rw [h₁] at h
      cases h
    · rw [h₂] at h
      cases h
  cases hc with
  | pass | make | giveUp | adopt | die | clear => exact hnone rfl
  | route hf _ hgs =>
    have hno (s : Nat) : ¬ f.Drives s :=
      hno (kinds_of_isAside hf).1 (kinds_of_isAside hf).2.1
    exact ⟨fun g hg => inner_of_isAside (hgs g hg).1, fun s hs => absurd hs (hno s),
      fun s hs => absurd hs (hno s)⟩
  | ask hs _ _ hgs hearly =>
    refine hcall _ (heasy hgs) (inner_of_early hearly) fun i hi => .inl ?_
    rw [drives_unique hs hi]
    exact startup?_of_early hearly
  | install _ _ _ hgs =>
    refine hcall _ (heasy hgs) ⟨rfl, rfl⟩ fun i hi => .inl ?_
    rw [drives_unique rfl hi]
    rfl
  | proceed hpermits =>
    refine hcall [] (List.forall_mem_nil _) ⟨rfl, rfl⟩ fun i hi => .inl ?_
    rw [drives_unique hpermits.kinds.2 hi]
    rfl
  | @launch s m replay _ n hpush =>
    refine ⟨fun g hg => ?_, fun i hi g hg => ?_, fun i _ hnil => ?_⟩
    · rw [hpush] at hg
      simp only [List.mem_cons, List.not_mem_nil, or_false] at hg
      rcases hg with rfl | rfl <;> exact ⟨rfl, rfl⟩
    · rw [hpush] at hg
      cases hg
      rcases hi with hi | hi
      · cases m <;> cases hi
        exact .inr rfl
      · exact .inr hi
    · rw [hpush] at hnil
      cases hnil
  | escalate =>
    exact hcall [] (List.forall_mem_nil _) ⟨rfl, rfl⟩ fun i hi => absurd hi (hno rfl rfl)
  | tear hpush =>
    refine ⟨fun g hg => ?_, fun i hi => absurd hi (hno rfl rfl), fun i hi => absurd hi (hno rfl rfl)⟩
    rw [hpush] at hg
    rw [List.mem_singleton.1 hg]
    exact ⟨rfl, rfl⟩

/-- How a task goes on that queues for a turn, begins one or has ended one. -/
def Next.Turned (n : Next) : Prop :=
  (∃ e, n = .go [] e) ∨
    (∃ s fs, n = .call (.startBody s :: .startEnd s :: fs) ∧ ∀ g ∈ fs, g.Inner) ∨
      ∃ push c, n = .wait push c ∧ push ≠ [] ∧ ∀ g ∈ push, g.Inner

namespace Next.Turned

instance pass (e : Ending) : Orderly Next.Turned (pure (.pass e) : Action Next) :=
  .pure (.inl ⟨e, rfl⟩)

instance done (v : Value) : Orderly Next.Turned (pure (.done v) : Action Next) :=
  .pure (.inl ⟨_, rfl⟩)

instance startSession (s : Nat) : Orderly Next.Turned (Host.startSession s) := by
  have : Orderly Next.Turned
      (pure (.call (Host.startFrames s ++ [.give (.session s)])) : Action Next) := by
    refine .pure (.inr (.inl ⟨s, _, rfl, fun g hg => ?_⟩))
    rw [List.mem_singleton.1 hg]
    exact ⟨rfl, rfl⟩
  have (c : Nat) : Orderly Next.Turned
      (pure (.wait [.startTurn s c, .give (.session s)] c) : Action Next) := by
    refine .pure (.inr (.inr ⟨_, c, rfl, List.cons_ne_nil _ _, fun g hg => ?_⟩))
    obtain rfl | rfl : g = .startTurn s c ∨ g = .give (.session s) := by simpa using hg
    all_goals exact ⟨rfl, rfl⟩
  unfold Host.startSession
  infer_instance

instance startTurn (s c : Nat) (e : Ending) : Orderly Next.Turned (Host.startTurn s c e) := by
  have : Orderly Next.Turned (pure (.call (Host.startFrames s)) : Action Next) :=
    .pure (.inr (.inl ⟨s, [], rfl, List.forall_mem_nil _⟩))
  unfold Host.startTurn
  refine @Orderly.bind _ _ _ _ _ _ fun _ => ?_
  split <;> infer_instance

instance startEnd (s : Nat) (e : Ending) : Orderly Next.Turned (Host.startEnd s e) := by
  unfold Host.startEnd
  infer_instance

end Next.Turned

theorem turned_of_isTurn {f : Frame} (hf : f.isTurn = true) (e : Ending) :
    Orderly Next.Turned (resume f e) := by
  cases f with
  | startSession =>
    have (v : Value) : Orderly Next.Turned (resumeWith .startSession v) := by
      cases v <;> first | exact Next.Turned.startSession _ | exact Next.Turned.done _
    cases e with
    | value v => exact this v
    | _ => exact Next.Turned.pass _
  | startTurn s c => exact Next.Turned.startTurn s c e
  | startEnd s => exact Next.Turned.startEnd s e
  | _ => cases hf

theorem turned_nextOf {f : Frame} (hf : f.isTurn = true) (e : Ending) (h : Host) :
    (nextOf (resume f e) h).Turned := by
  unfold nextOf
  cases hr : (resume f e).run h with
  | ok n h' => exact (turned_of_isTurn hf e).ok hr
  | error x h' => exact .inl ⟨_, rfl⟩

/-! ## Steps -/

variable {h : Host} {t : Nat} {e : Ending} {f : Frame} {below : List Frame}

/-- How a task goes on keeps its stack crowned, and a turn begins or ends at once if its frame is the
    next. -/
structure Next.Crowns (n : Next) (below : List Frame) : Prop where
  crowned : Crowned none (n.push ++ below)
  go : ∀ g rest, n.push ++ below = g :: rest → ¬ g.Inner → ∃ e, n = .go n.push e

theorem Next.Driven.crowns {n : Next} (hn : n.Driven f) (hc : Crowned none (f :: below)) :
    n.Crowns below where
  crowned := .append (.of_inner hn.inner)
    (fun g hg => hc.2.2.under fun s hs => hn.last s hs g hg) fun _ => hc.2.2.bare
  go g rest hg hinner := by
    cases hpush : n.push with
    | cons g' rest' =>
      rw [hpush] at hg
      cases hg
      exact absurd (hn.inner g (by rw [hpush]; exact List.mem_cons_self)) hinner
    | nil =>
      rw [hpush] at hg
      subst hg
      cases he : g.ends? with
      | some s => exact hn.go s (hc.2.2.1 s he f rfl) hpush
      | none =>
        cases hb : g.begins? with
        | none => exact absurd ⟨he, hb⟩ hinner
        | some s => cases hc.2.2.2.1 (by rw [hb]; rfl)

theorem Next.Turned.crowns {n : Next} (hn : n.Turned) (hf : ∀ s, ¬ f.Drives s)
    (hc : Crowned none (f :: below)) : n.Crowns below := by
  have hbelow (g : Frame) : Crowned (some g) below := hc.2.2.under fun s hs => absurd hs (hf s)
  rcases hn with ⟨e, rfl⟩ | ⟨s, fs, rfl, hfs⟩ | ⟨push, c, rfl, hne, hpush⟩
  · exact ⟨hc.2.2.bare, fun _ _ _ _ => ⟨e, rfl⟩⟩
  · refine ⟨.append ⟨fun i hi => ?_, fun _ => rfl, fun i hi g hg => ?_, Bool.noConfusion,
      .of_inner hfs⟩ (fun g _ => hbelow g) fun hnil => ?_, fun _ _ _ _ => ⟨_, rfl⟩⟩
    · cases hi
    · cases hi
      cases hg
      exact .inl rfl
    · cases hnil
  · refine ⟨.append (.of_inner hpush) (fun g _ => hbelow g) fun e => absurd e hne,
      fun g rest hg hinner => ?_⟩
    cases push with
    | nil => exact absurd rfl hne
    | cons g' push =>
      cases hg
      exact absurd (hpush _ List.mem_cons_self) hinner

theorem Steps.crowns (k : Steps h t e f below) (hc : Crowned none (f :: below)) :
    (nextOf (resume f e) h).Crowns below := by
  cases hord : f.isOrdinary with
  | true =>
    have htame : Tame (nextOf (resume f e) h).push := tame_of_easy (easy_nextOf hord e h)
    have hno := not_drives_of_isPlain (isPlain_of_isOrdinary hord)
    exact Next.Driven.crowns ⟨fun g hg => inner_of_isPlain (isPlain_of_tame htame hg),
      fun s hs => absurd hs (hno s), fun s hs => absurd hs (hno s)⟩ hc
  | false =>
    cases hturn : f.isTurn with
    | false => exact (k.course hord hturn).driven.crowns hc
    | true =>
      refine (turned_nextOf hturn e h).crowns (fun s hs => ?_) hc
      cases f <;> first | (cases hturn; done) | (rcases hs with hs | hs <;> cases hs)

/-- All stacks are crowned, and turns begin and end as soon as they can. -/
structure CrownedAll (h : Host) : Prop where
  crowned : ∀ t fs, h.loop.stack? t = some fs → Crowned none fs
  prompt : ∀ t f below, h.loop.stack? t = some (f :: below) → ¬ f.Inner →
    ∃ e, h.loop.running = some (t, e)

namespace CrownedAll

theorem step (k : Steps h t e f below) (hc : h.CrownedAll) : (Host.step t e h).CrownedAll := by
  have hcrowns := k.crowns (hc.crowned t _ k.top)
  refine ⟨fun u gs hu => ?_, fun u g gs hu hg => ?_⟩
  · rcases k.stack_after hu with ⟨-, rfl⟩ | ⟨-, hu | hu⟩
    · exact hcrowns.crowned
    · exact hc.crowned u gs hu
    · exact .of_inner fun g hg => inner_of_isPlain (isPlain_of_tame hu hg)
  · rcases k.stack_after hu with ⟨rfl, hgs⟩ | ⟨hut, hu | hu⟩
    · obtain ⟨e', he⟩ := hcrowns.go g gs hgs.symm hg
      refine ⟨e', ?_⟩
      rw [step_eq k.top, he]
      rfl
    · obtain ⟨e', he⟩ := hc.prompt u g gs hu hg
      rw [k.running] at he
      cases he
      exact absurd rfl hut
    · exact absurd (inner_of_isPlain (isPlain_of_tame hu List.mem_cons_self)) hg

/-- No task is given anything to do. -/
theorem of_stacks {h' : Host} (hc : h.CrownedAll) (hstack : ∀ u gs, h'.loop.stack? u = some gs →
      h.loop.stack? u = some gs ∨ Tame gs)
    (hrun : ∀ u f below e, h.loop.stack? u = some (f :: below) → h.loop.running = some (u, e) →
      h'.loop.running = some (u, e)) : h'.CrownedAll := by
  refine ⟨fun u gs hu => ?_, fun u g gs hu hg => ?_⟩
  · rcases hstack u gs hu with hu | hu
    · exact hc.crowned u gs hu
    · exact .of_inner fun g hg => inner_of_isPlain (isPlain_of_tame hu hg)
  · rcases hstack u _ hu with hu | hu
    · obtain ⟨e, he⟩ := hc.prompt u g gs hu hg
      exact ⟨e, hrun u g gs e hu he⟩
    · exact absurd (inner_of_isPlain (isPlain_of_tame hu List.mem_cons_self)) hg

theorem of_guards {h' : Host} (hc : h.CrownedAll) (hg : Guards {} h h') : h'.CrownedAll :=
  hc.of_stacks hg.grows.fresh fun _ _ _ _ _ he => hg.grows.running.trans he

theorem beginJob (hc : h.CrownedAll) (hidle : h.loop.running = none) (j : Job) (jobs : List Job) :
    (Host.beginJob j { h with loop := { h.loop with jobs } }).CrownedAll := by
  have hquiet (l : Loop Value Failure Frame) (hl : ∀ u, l.stack? u = h.loop.stack? u) :
      CrownedAll { h with loop := l } := by
    refine hc.of_stacks (fun u gs hu => .inl ((hl u).symm.trans hu)) fun u f below e _ he => ?_
    rw [hidle] at he
    cases he
  cases j with
  | start t => exact hquiet _ (resume_spec { h.loop with jobs } t _).1
  | wake t c => exact hquiet _ (resume_spec { h.loop with jobs } t _).1
  | release w => exact hquiet _ (stack?_finish { h.loop with jobs } w _)
  | notify q =>
    rw [beginJob_notify]
    exact (hquiet { h.loop with jobs } fun _ => rfl).of_guards (Within.rel_after _)

theorem tick (k : InOrder h) (hc : h.CrownedAll) : h.tick.CrownedAll := by
  rcases tick_cases h with ⟨t, e, f, below, hrun, hs, e'⟩ | ⟨t, e, hrun, hend, e'⟩ | ⟨-, e'⟩ |
    ⟨j, jobs, hidle, -, e'⟩
  · exact e' ▸ CrownedAll.step ⟨k, hrun, hs⟩ hc
  · rw [e']
    refine hc.of_stacks (fun u gs hu => .inl (stack?_endTask h.loop t e u ▸ hu))
      fun u f below x hu hx => ?_
    rw [hrun] at hx
    cases hx
    cases hend _ hu
  · exact e'.symm ▸ hc
  · exact e' ▸ hc.beginJob hidle j jobs

theorem fire (hc : h.CrownedAll) (t : Timer) : (h.fire t).CrownedAll :=
  hc.of_stacks
    (fun u _ hu => .inl ((stack?_finish
      { h.loop with now := t.due, timers := dropTimer t.cell h.loop.timers } t.cell _ u).symm.trans
        hu))
    fun _ _ _ _ _ he => (running_finish ..).trans he

theorem outside {P : Reaction → Prop} {h' : Host} (hc : h.CrownedAll) (ho : Outside P h h') :
    h'.CrownedAll := by
  cases ho with
  | ask hfs =>
    have := Guards.newTask (W := {}) (tame_of_asked hfs)
    exact hc.of_guards (Within.rel_after _)
  | submit | query | cancel | act => exact hc.of_guards (Within.rel_after _)
  | worker | world | time => exact hc.of_stacks (fun _ _ hu => .inl hu) fun _ _ _ _ _ he => he

end CrownedAll

theorem Fresh.crownedAll (hf : Fresh h) : h.CrownedAll := by
  refine ⟨fun t fs ht => ?_, fun t f below ht => ?_⟩ <;>
  · rw [hf.loop] at ht
    cases ht

/-- Turns are driven in every run. -/
theorem crownedAll_of_reachable {P : Reaction → Prop} (hr : Reachable Fresh (Outside P) h) :
    h.CrownedAll := by
  induction hr with
  | start hf => exact hf.crownedAll
  | tick hr ih => exact ih.tick (inOrder_of_reachable hr)
  | fire _ _ ih => exact ih.fire _
  | act _ _ ho ih => exact ih.outside ho

end Host

end GhciHost
