import GhciHost.Proofs.Session.Turns

/-!
# Frames find their sessions as they left them

A frame of a startup or of a session's end goes on long after it was pushed.  By then its session
is still as the frame supposes, or it was destroyed: only the task that has the turn takes the
session from phase to phase until its worker runs, and whoever starts a worker again is the only
one that is about to.

* `Stages`   the invariant;
* `Fits.bump`, `Fits.calm`   what frames elsewhere suppose still holds after a step;
* `Stages.alone`, `Stages.staged_alone`   nobody else is at the same session;
* `Stages.course`   the steps of all frames that are not ordinary.
-/

namespace GhciHost.Host

open Loop

/-- Frames stand where they may, and suppose what holds. -/
structure View.Stages (v : View) : Prop where
  manned : Manned v.cores
  mounted : ∀ t fs, v.loop.stack? t = some fs → Mounted fs
  fits : ∀ t fs f, v.loop.stack? t = some fs → f ∈ fs → Fits v.cores f
  fed : ∀ t fs, v.loop.stack? t = some fs → Fed false fs ∨
    ∃ e, v.loop.running = some (t, e) ∧
      (∀ s, e = .value (.session s) → (v.cores s).isSome) ∧ Fed true fs
  launching : ∀ t fs f, v.loop.stack? t = some fs → f ∈ fs → f.launches?.isSome →
    (∃ below, fs = f :: below ∧ ∀ g ∈ below, g.launches? = none) ∧
      ∃ x, v.loop.running = some (t, .value x)
  staged_one : ∀ t u fs gs s, v.loop.stack? t = some fs → v.loop.stack? u = some gs →
    s ∈ staged fs → s ∈ staged gs → t = u
  staged_nodup : ∀ t fs, v.loop.stack? t = some fs → (staged fs).Nodup

/-! ## What is supposed of one session -/

namespace Fits

variable {cores cores' : Cores} {g : Frame}

/-- One session changes, and what the frame supposes of it still holds. -/
theorem bump (hg : Fits cores g) {s : Nat} {a : Session.Core} (ha : cores s = some a)
    (F : Session.Core → Session.Core) (hd : a.destroyed = true → (F a).destroyed = true)
    (hearly : g.early? = some s → a.destroyed = false → a.phase = .absent →
      (F a).destroyed = true ∨ (F a).phase = .absent)
    (hstage : ∀ phase, g.stage? = some (s, phase) → a.destroyed = false → a.phase = phase →
      a.process = none → (F a).destroyed = true ∨ (F a).phase = phase ∧ (F a).process = none)
    (hlaunch : g.launches? = none) : Fits (bump s F cores) g where
  startup i hi := by
    rw [isSome_bump]
    exact hg.startup i hi
  early i hi := by
    obtain ⟨b, hb, h⟩ := hg.early i hi
    by_cases his : i = s
    · subst his
      rw [ha] at hb
      cases hb
      refine ⟨F a, bump_self ha, ?_⟩
      cases hda : a.destroyed with
      | true => exact .inl (hd hda)
      | false => exact hearly hi hda (h.resolve_left (by rw [hda]; exact Bool.false_ne_true))
    · exact ⟨b, by rw [bump_of_ne his, hb], h⟩
  stage i phase hi := by
    obtain ⟨b, hb, h⟩ := hg.stage i phase hi
    by_cases his : i = s
    · subst his
      rw [ha] at hb
      cases hb
      refine ⟨F a, bump_self ha, ?_⟩
      cases hda : a.destroyed with
      | true => exact .inl (hd hda)
      | false =>
        obtain ⟨hp, hn⟩ := h.resolve_left (by rw [hda]; exact Bool.false_ne_true)
        exact hstage phase hi hda hp hn
    · exact ⟨b, by rw [bump_of_ne his, hb], h⟩
  launch i m hi := by
    rw [hlaunch] at hi
    cases hi
  tears i hi := by
    rw [isSome_bump]
    exact hg.tears i hi
  gone i hi := by
    obtain ⟨b, hb, h⟩ := hg.gone i hi
    by_cases his : i = s
    · subst his
      rw [ha] at hb
      cases hb
      exact ⟨F a, bump_self ha, hd h⟩
    · exact ⟨b, by rw [bump_of_ne his, hb], h⟩

/-- Sessions are made, and those that were there stay as they are or become ready. -/
theorem calm (hg : Fits cores g)
    (hold : ∀ s a, cores s = some a → ∃ b, cores' s = some b ∧ a.Calm b)
    (hlaunch : g.launches? = none) : Fits cores' g where
  startup i hi := by
    obtain ⟨a, ha⟩ := Option.isSome_iff_exists.1 (hg.startup i hi)
    obtain ⟨b, hb, -⟩ := hold i a ha
    rw [hb]
    rfl
  early i hi := by
    obtain ⟨a, ha, h⟩ := hg.early i hi
    obtain ⟨b, hb, rfl | ⟨m, m', port, p, hm, hp, rfl⟩⟩ := hold i a ha
    · exact ⟨_, hb, h⟩
    · refine ⟨_, hb, h.imp_right fun h => ?_⟩
      rw [hm] at h
      cases h
  stage i phase hi := by
    obtain ⟨a, ha, h⟩ := hg.stage i phase hi
    obtain ⟨b, hb, rfl | ⟨m, m', port, p, hm, hp, rfl⟩⟩ := hold i a ha
    · exact ⟨_, hb, h⟩
    · refine ⟨_, hb, h.imp_right fun h => ?_⟩
      rw [h.2] at hp
      cases hp
  launch i m hi := by
    rw [hlaunch] at hi
    cases hi
  tears i hi := by
    obtain ⟨a, ha⟩ := Option.isSome_iff_exists.1 (hg.tears i hi)
    obtain ⟨b, hb, -⟩ := hold i a ha
    rw [hb]
    rfl
  gone i hi := by
    obtain ⟨a, ha, h⟩ := hg.gone i hi
    obtain ⟨b, hb, rfl | ⟨m, m', port, p, hm, hp, rfl⟩⟩ := hold i a ha
    · exact ⟨_, hb, h⟩
    · exact ⟨_, hb, h⟩

end Fits

theorem Manned.bump {cores : Cores} (h : Manned cores) {s : Nat} {F : Session.Core → Session.Core}
    (hF : ∀ a, cores s = some a → (F a).process.isSome →
      (F a).phase.hasWorker = true ∧ (F a).destroyed = false) : Manned (bump s F cores) := by
  intro i b hb hp
  rcases bump_eq_some hb with ⟨rfl, a, ha, rfl⟩ | ⟨-, hb⟩
  · exact hF a ha hp
  · exact h i b hb hp

theorem Manned.calm {cores cores' : Cores} (h : Manned cores)
    (hold : ∀ s a, cores s = some a → ∃ b, cores' s = some b ∧ a.Calm b)
    (hnew : ∀ s b, cores' s = some b → cores s = none → ∃ key, b = .new key) : Manned cores' := by
  intro s b hb hp
  cases ha : cores s with
  | none =>
    obtain ⟨key, rfl⟩ := hnew s b hb ha
    cases hp
  | some a =>
    obtain ⟨b', hb', hab⟩ := hold s a ha
    rw [hb] at hb'
    cases hb'
    rcases hab with rfl | ⟨m, m', port, p, -, -, rfl⟩
    · exact h s _ ha hp
    · exact ⟨rfl, (h s a ha hp).2⟩

/-! ## Frames by their kinds -/

theorem startup?_of_early {f : Frame} {s : Nat} (h : f.early? = some s) : f.startup? = some s := by
  cases f <;> first | exact h | cases h

theorem staged?_of_stage {f : Frame} {s : Nat} (h : f.stage?.map (·.1) = some s) :
    f.staged? = some s := by
  cases f <;> first | exact h | cases h

theorem not_absent_of_stage {f : Frame} {s : Nat} : f.stage? ≠ some (s, .absent) := by
  cases f <;> exact nofun

/-- What is known of a frame by which a question is followed. -/
theorem kinds_of_early {f : Frame} {s : Nat} (h : f.early? = some s) :
    f.staged? = none ∧ f.launches? = none ∧ f.ends? = none ∧ f.turn? = none ∧ f.isStart = false ∧
      f.isFind = false ∧ f.tears = [] ∧ f.gone? = none ∧ f.stage? = none ∧ f.replay? = none := by
  cases f <;> first | exact ⟨rfl, rfl, rfl, rfl, rfl, rfl, rfl, rfl, rfl, rfl⟩ | cases h

theorem kinds_of_isAside {f : Frame} (h : f.isAside = true) :
    f.startup? = none ∧ f.staged? = none ∧ f.launches? = none ∧ f.ends? = none ∧
      f.turn? = none ∧ f.isStart = false ∧ f.replay? = none := by
  cases f <;> first | exact ⟨rfl, rfl, rfl, rfl, rfl, rfl, rfl⟩ | cases h

theorem fits_of_early {cores : Cores} {f : Frame} {s : Nat} {a : Session.Core}
    (h : f.early? = some s) (ha : cores s = some a)
    (hs : a.destroyed = true ∨ a.phase = .absent) : Fits cores f where
  startup i hi := by
    rw [startup?_of_early h] at hi
    cases hi
    rw [ha]
    rfl
  early i hi := by
    rw [h] at hi
    cases hi
    exact ⟨a, ha, hs⟩
  stage i phase hi := by
    rw [(kinds_of_early h).2.2.2.2.2.2.2.2.1] at hi
    cases hi
  launch i m hi := by
    rw [(kinds_of_early h).2.1] at hi
    cases hi
  tears i hi := by
    rw [(kinds_of_early h).2.2.2.2.2.2.1] at hi
    cases hi
  gone i hi := by
    rw [(kinds_of_early h).2.2.2.2.2.2.2.1] at hi
    cases hi

/-! ## Who is at a session -/

/-- The frame stands below the top of a task's stack, or on that of another task. -/
def Elsewhere (v : View) (t : Nat) (below : List Frame) (g : Frame) : Prop :=
  g ∈ below ∨ ∃ u gs, u ≠ t ∧ v.loop.stack? u = some gs ∧ g ∈ gs

namespace View.Stages

variable {v : View} {t s : Nat} {f g : Frame} {below : List Frame}

/-- Nobody else takes part in a startup. -/
theorem alone (h : v.Stages) (hT : v.Turns) (ht : v.loop.stack? t = some (f :: below))
    (hf : f.startup? = some s) (hg : Elsewhere v t below g) : g.startup? ≠ some s := by
  intro hgs
  have hm := h.mounted t _ ht
  have hs : s ∈ held (f :: below) := hm.mem_held List.mem_cons_self hf
  rcases hg with hg | ⟨u, gs, hut, hu, hg⟩
  -- the frame below would be above an end of the same turn
  · obtain ⟨rest, rfl⟩ := hm.1 s hf
    rcases List.mem_cons.1 hg with rfl | hg
    · cases hgs
    · have hrest : s ∈ held rest := hm.2.2.mem_held hg hgs
      have hn := hT.nodup t _ ht
      rw [held_cons, held_cons] at hn
      have := (List.nodup_append.1 hn).2.1
      exact (List.nodup_cons.1 this).1 hrest
  · exact hut (hT.one u t gs _ s hu ht ((h.mounted u gs hu).mem_held hg hgs) hs)

theorem mem_staged {fs : List Frame} (hg : g ∈ fs) (hs : g.staged? = some s) : s ∈ staged fs :=
  List.mem_filterMap.2 ⟨g, hg, hs⟩

/-- Nobody else takes a session to a phase. -/
theorem staged_alone (h : v.Stages) (ht : v.loop.stack? t = some (f :: below))
    (hf : f.staged? = some s) (hg : Elsewhere v t below g) : g.staged? ≠ some s := by
  intro hgs
  rcases hg with hg | ⟨u, gs, hut, hu, hg⟩
  · have hn := h.staged_nodup t _ ht
    rw [staged_cons, hf] at hn
    exact (List.nodup_cons.1 hn).1 (mem_staged hg hgs)
  · exact hut (h.staged_one u t gs _ s hu ht (mem_staged hg hgs)
      (mem_staged List.mem_cons_self hf))

/-- Only what is on top of the task that runs is about to start a worker. -/
theorem launches_elsewhere (h : v.Stages) {e : Ending} (hrun : v.loop.running = some (t, e))
    (ht : v.loop.stack? t = some (f :: below)) (hg : Elsewhere v t below g) :
    g.launches? = none := by
  cases hs : g.launches? with
  | none => rfl
  | some sm =>
    rcases hg with hg | ⟨u, gs, hut, hu, hg⟩
    · obtain ⟨⟨below', e, hno⟩, -⟩ :=
        h.launching t _ g ht (List.mem_cons_of_mem _ hg) (by rw [hs]; rfl)
      cases e
      rw [hno _ hg] at hs
      cases hs
    · obtain ⟨-, x, hx⟩ := h.launching u gs g hu hg (by rw [hs]; rfl)
      rw [hrun] at hx
      cases hx
      exact absurd rfl hut

end View.Stages

/-! ## A step of the task that runs -/

/-- The task that runs has replaced its top frame. -/
structure Replaced (v v' : View) (t : Nat) (e : Ending) (f : Frame) (below push : List Frame) :
    Prop where
  stages : v.Stages
  turns : v.Turns
  running : v.loop.running = some (t, e)
  top : v.loop.stack? t = some (f :: below)
  stack : ∀ u gs, v'.loop.stack? u = some gs → (u = t ∧ gs = push ++ below) ∨
    u ≠ t ∧ (v.loop.stack? u = some gs ∨ Tame gs)

/-- The frames that were pushed may stand where they do, and suppose what holds. -/
structure Pushed (v v' : View) (t : Nat) (f : Frame) (below push : List Frame) : Prop where
  fits : ∀ g ∈ push, Fits v'.cores g
  mounted : Mounted (push ++ below)
  fed : Fed false (push ++ below) ∨ ∃ e', v'.loop.running = some (t, e') ∧
    (∀ s, e' = .value (.session s) → (v'.cores s).isSome) ∧ Fed true (push ++ below)
  launch : (∀ g ∈ push, g.launches? = none) ∨
    ∃ g x, push = [g] ∧ v'.loop.running = some (t, .value x)
  staged : staged push = [] ∨ ∃ s, staged push = [s] ∧
    (f.staged? = some s ∨ ∀ u gs, v.loop.stack? u = some gs → s ∉ GhciHost.staged gs)

namespace Replaced

variable {v v' : View} {t : Nat} {e : Ending} {f : Frame} {below push : List Frame}

/-- What is supposed elsewhere still holds, and so does the invariant. -/
theorem step (k : Replaced v v' t e f below push) (hp : Pushed v v' t f below push)
    (hmanned : Manned v'.cores)
    (hkeep : ∀ g, Elsewhere v t below g → g.launches? = none → Fits v.cores g → Fits v'.cores g) :
    v'.Stages := by
  obtain ⟨h, -, hrun, ht, hstack⟩ := k
  obtain ⟨hfits, hmounted, hfed, hlaunch, hstaged⟩ := hp
  have hbelow {g} (hg : g ∈ below) : Elsewhere v t below g := .inl hg
  have hother {u gs g} (hut : u ≠ t) (hu : v.loop.stack? u = some gs) (hg : g ∈ gs) :
      Elsewhere v t below g := .inr ⟨u, gs, hut, hu, hg⟩
  -- what is staged then was staged by the same task, or by nobody
  have hmem {s} (hs : s ∈ staged (push ++ below)) :
      s ∈ staged (f :: below) ∨ ∀ u gs, v.loop.stack? u = some gs → s ∉ staged gs := by
    rw [staged_append] at hs
    rw [staged_cons]
    rcases List.mem_append.1 hs with hs | hs
    · rcases hstaged with e | ⟨s', e, hor⟩
      · rw [e] at hs
        cases hs
      · rw [e] at hs
        rw [List.mem_singleton.1 hs]
        exact hor.imp_left fun hf => List.mem_append_left _ (by rw [hf]; exact List.mem_singleton.2 rfl)
    · exact .inl (List.mem_append_right _ hs)
  have hnot {u gs s} (hut : u ≠ t) (hu : v.loop.stack? u = some gs) (hs : s ∈ staged gs) :
      s ∉ staged (push ++ below) := fun hs' => by
    rcases hmem hs' with hs' | hno
    · exact hut (h.staged_one u t gs _ s hu ht hs hs')
    · exact hno u gs hu hs
  refine ⟨hmanned, fun u gs hu => ?_, fun u gs g hu hg => ?_, fun u gs hu => ?_,
    fun u gs g hu hg hl => ?_, fun u u' gs gs' s hu hu' hs hs' => ?_, fun u gs hu => ?_⟩
  · rcases hstack u gs hu with ⟨-, rfl⟩ | ⟨hut, hu | hu⟩
    · exact hmounted
    · exact h.mounted u gs hu
    · rw [← List.append_nil gs]
      exact mounted_append (fun g hg => startup?_of_isPlain (isPlain_of_tame hu hg)) trivial
  · rcases hstack u gs hu with ⟨-, rfl⟩ | ⟨hut, hu | hu⟩
    · rcases List.mem_append.1 hg with hg | hg
      · exact hfits g hg
      · exact hkeep g (hbelow hg) (h.launches_elsewhere hrun ht (hbelow hg))
          (h.fits t _ g ht (List.mem_cons_of_mem _ hg))
    · exact hkeep g (hother hut hu hg) (h.launches_elsewhere hrun ht (hother hut hu hg))
        (h.fits u gs g hu hg)
    · exact .of_isPlain (isPlain_of_tame hu hg)
  · rcases hstack u gs hu with ⟨rfl, rfl⟩ | ⟨hut, hu | hu⟩
    · exact hfed
    · refine .inl ((h.fed u gs hu).resolve_right fun ⟨e', he', _⟩ => ?_)
      rw [hrun] at he'
      cases he'
      exact hut rfl
    · exact .inl (fed_of_tame hu)
  · rcases hstack u gs hu with ⟨rfl, rfl⟩ | ⟨hut, hu | hu⟩
    · rcases List.mem_append.1 hg with hg' | hg'
      · rcases hlaunch with hno | ⟨g', x, rfl, hx⟩
        · rw [hno g hg'] at hl
          cases hl
        · rw [List.mem_singleton.1 hg']
          exact ⟨⟨below, rfl, fun g hg => h.launches_elsewhere hrun ht (hbelow hg)⟩, x, hx⟩
      · rw [h.launches_elsewhere hrun ht (hbelow hg')] at hl
        cases hl
    · rw [h.launches_elsewhere hrun ht (hother hut hu hg)] at hl
      cases hl
    · rw [launches?_of_isPlain (isPlain_of_tame hu hg)] at hl
      cases hl
  · rcases hstack u gs hu with ⟨rfl, rfl⟩ | ⟨hut, hu | hu⟩
    · rcases hstack u' gs' hu' with ⟨rfl, rfl⟩ | ⟨hut', hu' | hu'⟩
      · rfl
      · exact absurd hs (hnot hut' hu' hs')
      · rw [staged_of_tame hu'] at hs'
        cases hs'
    · rcases hstack u' gs' hu' with ⟨rfl, rfl⟩ | ⟨hut', hu' | hu'⟩
      · exact absurd hs' (hnot hut hu hs)
      · exact h.staged_one u u' gs gs' s hu hu' hs hs'
      · rw [staged_of_tame hu'] at hs'
        cases hs'
    · rw [staged_of_tame hu] at hs
      cases hs
  · rcases hstack u gs hu with ⟨-, rfl⟩ | ⟨hut, hu | hu⟩
    · have hn := h.staged_nodup t _ ht
      rw [staged_cons] at hn
      rw [staged_append]
      rcases hstaged with e | ⟨s, e, hor⟩
      · rw [e]
        exact (List.nodup_append.1 hn).2.1
      · rw [e]
        refine List.nodup_cons.2 ⟨?_, (List.nodup_append.1 hn).2.1⟩
        rcases hor with hf | hno
        · rw [hf] at hn
          exact (List.nodup_cons.1 hn).1
        · refine fun hs => hno t _ ht ?_
          rw [staged_cons]
          exact List.mem_append_right _ hs
    · exact h.staged_nodup u gs hu
    · rw [staged_of_tame hu]
      exact List.nodup_nil

end Replaced

namespace View.Stages

variable {v v' : View}

/-- Nothing is pushed, and what is supposed of sessions still holds. -/
theorem still (h : v.Stages)
    (hstack : ∀ u gs, v'.loop.stack? u = some gs → v.loop.stack? u = some gs ∨ Tame gs)
    (hmanned : Manned v'.cores)
    (hkeep : ∀ u gs g, v.loop.stack? u = some gs → g ∈ gs → Fits v'.cores g)
    (hknown : ∀ s, (v.cores s).isSome → (v'.cores s).isSome)
    (hrun : ∀ u gs e, v.loop.stack? u = some gs → gs ≠ [] → v.loop.running = some (u, e) →
      v'.loop.running = some (u, e)) : v'.Stages := by
  refine ⟨hmanned, fun u gs hu => ?_, fun u gs g hu hg => ?_, fun u gs hu => ?_,
    fun u gs g hu hg hl => ?_, fun u u' gs gs' s hu hu' hs hs' => ?_, fun u gs hu => ?_⟩
  · rcases hstack u gs hu with hu | hu
    · exact h.mounted u gs hu
    · rw [← List.append_nil gs]
      exact mounted_append (fun g hg => startup?_of_isPlain (isPlain_of_tame hu hg)) trivial
  · rcases hstack u gs hu with hu | hu
    · exact hkeep u gs g hu hg
    · exact .of_isPlain (isPlain_of_tame hu hg)
  · rcases hstack u gs hu with hu | hu
    · rcases h.fed u gs hu with hfed | ⟨e, he, hvalid, hfed⟩
      · exact .inl hfed
      · cases gs with
        | nil => exact .inl trivial
        | cons g gs =>
          exact .inr ⟨e, hrun u _ e hu (List.cons_ne_nil _ _) he,
            fun s hs => hknown s (hvalid s hs), hfed⟩
    · exact .inl (fed_of_tame hu)
  · rcases hstack u gs hu with hu | hu
    · obtain ⟨htop, x, hx⟩ := h.launching u gs g hu hg hl
      exact ⟨htop, x, hrun u gs _ hu (List.ne_nil_of_mem hg) hx⟩
    · rw [launches?_of_isPlain (isPlain_of_tame hu hg)] at hl
      cases hl
  · rcases hstack u gs hu with hu | hu
    · rcases hstack u' gs' hu' with hu' | hu'
      · exact h.staged_one u u' gs gs' s hu hu' hs hs'
      · rw [staged_of_tame hu'] at hs'
        cases hs'
    · rw [staged_of_tame hu] at hs
      cases hs
  · rcases hstack u gs hu with hu | hu
    · exact h.staged_nodup u gs hu
    · rw [staged_of_tame hu]
      exact List.nodup_nil

/-- While no task runs, no worker is about to be started. -/
theorem launches_rest (h : v.Stages) (hrun : v.loop.running = none) {t : Nat} {g : Frame}
    {gs : List Frame} (ht : v.loop.stack? t = some gs) (hg : g ∈ gs) : g.launches? = none := by
  cases hs : g.launches? with
  | none => rfl
  | some sm =>
    obtain ⟨-, x, hx⟩ := h.launching t gs g ht hg (by rw [hs]; rfl)
    rw [hrun] at hx
    cases hx

end View.Stages

end GhciHost.Host
