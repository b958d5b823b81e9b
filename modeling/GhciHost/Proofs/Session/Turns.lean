import GhciHost.Proofs.Host.Guarding
import GhciHost.Proofs.Host.Proceed
import GhciHost.Proofs.Session.Course

/-!
# One starts a session at a time

Whoever starts a session's worker has the turn until its frame `startEnd` goes on.  Others queue
with a cell each.  When a turn ends the first of the queue is called by its cell, and the turn is
free until that caller goes on; nobody who comes later gets in between, since the called one stays
in the queue until then, and a turn is only taken at once if all who queue were cancelled.

* `Turns`, `Queues`   the invariants: one task has the turn, and whoever was called is the first;
* `Turns.move`, `Queues.move`   steps that have nothing to do with turns;
* `Turns.take`, `Turns.drop`   a turn is taken, and is over;
* `Queues.push`, `Queues.shrink`   a caller waits; callers go on, and the next one is called.
-/

namespace GhciHost.Host

open Loop

/-- The task waits for the cell, or goes on; with a value only if the cell was answered. -/
def View.Awaits (v : View) (t c : Nat) : Prop :=
  v.loop.waiting t = some c ∨
    ∃ e, v.loop.running = some (t, e) ∧ ∀ x, e = .value x → v.loop.Answered c

/-- Who has the turn to start a session. -/
structure View.Turns (v : View) : Prop where
  starting : ∀ t fs s, v.loop.stack? t = some fs → s ∈ held fs →
    ∃ a, v.cores s = some a ∧ a.starting = true
  one : ∀ t u fs gs s, v.loop.stack? t = some fs → v.loop.stack? u = some gs → s ∈ held fs →
    s ∈ held gs → t = u
  nodup : ∀ t fs, v.loop.stack? t = some fs → (held fs).Nodup

/-- Who waits for the turn to start a session.  The cell by which somebody is called is held by
    nobody, so only who ends a turn calls. -/
structure View.Queues (v : View) : Prop where
  turn : ∀ t fs f s c, v.loop.stack? t = some fs → f ∈ fs → f.turn? = some (s, c) →
    (∃ below, fs = f :: below ∧ ∀ g ∈ below, g.turn? = none) ∧
      (∃ a, v.cores s = some a ∧ c ∈ a.startWaiters) ∧ v.Awaits t c
  turn_one : ∀ t u fs gs f g s s' c, v.loop.stack? t = some fs → v.loop.stack? u = some gs →
    f ∈ fs → g ∈ gs → f.turn? = some (s, c) → g.turn? = some (s', c) → t = u
  nodup : ∀ s a, v.cores s = some a → a.startWaiters.Nodup
  own : ∀ s a c, v.cores s = some a → c ∈ a.startWaiters → c < v.size ∧ ∀ p, ¬ v.Holds p c
  apart : ∀ s s' a b c, v.cores s = some a → v.cores s' = some b → c ∈ a.startWaiters →
    c ∈ b.startWaiters → s = s'
  called : ∀ s a c, v.cores s = some a → c ∈ a.startWaiters → v.loop.Answered c →
    a.starting = false ∧ a.startWaiters.head? = some c

/-- Nobody takes a turn, ends one or queues for one. -/
structure SameTurns (cores cores' : Cores) : Prop where
  old : ∀ s a, cores s = some a →
    ∃ b, cores' s = some b ∧ b.starting = a.starting ∧ b.startWaiters = a.startWaiters
  new : ∀ s b, cores' s = some b →
    (∃ a, cores s = some a ∧ b.starting = a.starting ∧ b.startWaiters = a.startWaiters) ∨
      b.starting = false ∧ b.startWaiters = []

namespace SameTurns

theorem refl (cores : Cores) : SameTurns cores cores :=
  ⟨fun _ a ha => ⟨a, ha, rfl, rfl⟩, fun _ b hb => .inl ⟨b, hb, rfl, rfl⟩⟩

theorem bump (s : Nat) {f : Session.Core → Session.Core} (cores : Cores)
    (hs : ∀ a, (f a).starting = a.starting) (hw : ∀ a, (f a).startWaiters = a.startWaiters) :
    SameTurns cores (bump s f cores) where
  old i a ha := by
    by_cases hi : i = s
    · subst hi
      exact ⟨f a, bump_self ha, hs a, hw a⟩
    · exact ⟨a, by rw [bump_of_ne hi, ha], rfl, rfl⟩
  new i b hb := by
    rcases bump_eq_some hb with ⟨rfl, a, ha, rfl⟩ | ⟨-, hb⟩
    · exact .inl ⟨a, ha, hs a, hw a⟩
    · exact .inl ⟨b, hb, rfl, rfl⟩

theorem of_calm {h h' : Host} (hc : Calm h h') : SameTurns h.core? h'.core? where
  old s a ha := by
    obtain ⟨b, hb, hab⟩ := hc.old s a ha
    rcases hab with rfl | ⟨m, m', port, p, -, -, rfl⟩
    · exact ⟨_, hb, rfl, rfl⟩
    · exact ⟨_, hb, rfl, rfl⟩
  new s b hb := by
    cases ha : h.core? s with
    | none =>
      obtain ⟨key, rfl⟩ := hc.new s b hb ha
      exact .inr ⟨rfl, rfl⟩
    | some a =>
      obtain ⟨b', hb', hab⟩ := hc.old s a ha
      rw [hb] at hb'
      cases hb'
      rcases hab with rfl | ⟨m, m', port, p, -, -, rfl⟩
      · exact .inl ⟨_, rfl, rfl, rfl⟩
      · exact .inl ⟨_, rfl, rfl, rfl⟩

/-- Steps of frames that have no part in turns. -/
theorem of_course {h : Host} {e : Ending} {f : Frame} {n : Next} {cores : Cores}
    (hc : Course h e f n cores) : SameTurns h.core? cores := by
  cases hc with
  | make hf hs =>
    next s key =>
    refine ⟨fun i a ha => ⟨a, ?_, rfl, rfl⟩, fun i b hb => ?_⟩
    · rw [if_neg, ha]
      rintro rfl
      rw [hs] at ha
      cases ha
    · split at hb
      · cases hb
        exact .inr ⟨rfl, rfl⟩
      · exact .inl ⟨b, hb, rfl, rfl⟩
  | pass | route | ask | proceed => exact .refl _
  | install | giveUp | launch | adopt | escalate | die | tear | clear => exact .bump _ _ (fun _ => rfl) fun _ => rfl

end SameTurns

/-! ## Having a turn -/

section Turns

variable {v v' : View}

namespace View.Turns

/-- Tasks change, but not the turns that they have. -/
theorem move (h : v.Turns)
    (hcores : ∀ s a, v.cores s = some a → ∃ b, v'.cores s = some b ∧ b.starting = a.starting)
    (hstack : ∀ u gs, v'.loop.stack? u = some gs →
      held gs = [] ∨ ∃ fs, v.loop.stack? u = some fs ∧ held gs = held fs) : v'.Turns := by
  have hheld {u gs s} (hu : v'.loop.stack? u = some gs) (hs : s ∈ held gs) :
      ∃ fs, v.loop.stack? u = some fs ∧ s ∈ held fs := by
    rcases hstack u gs hu with e | ⟨fs, hfs, e⟩
    · rw [e] at hs
      cases hs
    · exact ⟨fs, hfs, e ▸ hs⟩
  refine ⟨fun t fs s ht hs => ?_, fun t u fs gs s ht hu hs hs' => ?_, fun t fs ht => ?_⟩
  · obtain ⟨gs, hgs, hs⟩ := hheld ht hs
    obtain ⟨a, ha, hst⟩ := h.starting t gs s hgs hs
    obtain ⟨b, hb, e⟩ := hcores s a ha
    exact ⟨b, hb, e.trans hst⟩
  · obtain ⟨fs, hfs, hs⟩ := hheld ht hs
    obtain ⟨gs, hgs, hs'⟩ := hheld hu hs'
    exact h.one t u fs gs s hfs hgs hs hs'
  · rcases hstack t fs ht with e | ⟨gs, hgs, e⟩
    · rw [e]
      exact List.nodup_nil
    · rw [e]
      exact h.nodup t gs hgs

/-- A turn that is free is had by nobody. -/
theorem free (h : v.Turns) {s : Nat} {a : Session.Core} (ha : v.cores s = some a)
    (hfree : a.starting = false) {u : Nat} {fs : List Frame} (hu : v.loop.stack? u = some fs) :
    s ∉ held fs := fun hs => by
  obtain ⟨b, hb, hst⟩ := h.starting u fs s hu hs
  rw [ha] at hb
  cases hb
  rw [hfree] at hst
  cases hst

variable {t s : Nat} {fs gs : List Frame} {f : Session.Core → Session.Core}

/-- A turn that nobody has is taken. -/
theorem take (h : v.Turns) {a : Session.Core} (ha : v.cores s = some a)
    (hfree : a.starting = false) (hstart : ∀ a, (f a).starting = true)
    (ht : v.loop.stack? t = some fs) (hheld : held gs = s :: held fs)
    (hstack : ∀ u, v'.loop.stack? u = if u = t then some gs else v.loop.stack? u)
    (hcores : v'.cores = bump s f v.cores) : v'.Turns := by
  have hnone {u fs} (hu : v.loop.stack? u = some fs) : s ∉ held fs := h.free ha hfree hu
  have hmem {u gs i} (hu : v'.loop.stack? u = some gs) (hi : i ∈ held gs) :
      i = s ∧ u = t ∨ i ≠ s ∧ ∃ fs, v.loop.stack? u = some fs ∧ i ∈ held fs := by
    have hold {fs} (hu : v.loop.stack? u = some fs) (hi : i ∈ held fs) :
        i ≠ s ∧ ∃ fs, v.loop.stack? u = some fs ∧ i ∈ held fs :=
      ⟨fun e => hnone hu (e ▸ hi), fs, hu, hi⟩
    rw [hstack] at hu
    split at hu
    · next e =>
      subst e
      cases hu
      rw [hheld] at hi
      exact (List.mem_cons.1 hi).imp (fun e => ⟨e, rfl⟩) (hold ht)
    · exact .inr (hold hu hi)
  refine ⟨fun u gs i hu hi => ?_, fun u u' gs gs' i hu hu' hi hi' => ?_, fun u gs hu => ?_⟩
  · rw [hcores]
    rcases hmem hu hi with ⟨rfl, -⟩ | ⟨his, fs, hfs, hi⟩
    · exact ⟨f a, bump_self ha, hstart a⟩
    · rw [bump_of_ne his]
      exact h.starting u fs i hfs hi
  · rcases hmem hu hi with ⟨rfl, rfl⟩ | ⟨his, fs, hfs, hi⟩
    · rcases hmem hu' hi' with ⟨-, rfl⟩ | ⟨his, -⟩
      · rfl
      · exact absurd rfl his
    · rcases hmem hu' hi' with ⟨rfl, -⟩ | ⟨-, fs', hfs', hi'⟩
      · exact absurd rfl his
      · exact h.one u u' fs fs' i hfs hfs' hi hi'
  · rw [hstack] at hu
    split at hu
    · cases hu
      rw [hheld]
      exact List.nodup_cons.2 ⟨hnone ht, h.nodup t fs ht⟩
    · exact h.nodup u gs hu

/-- A turn is over, and nobody has it any longer. -/
theorem drop (h : v.Turns) (ht : v.loop.stack? t = some fs) (hheld : held fs = s :: held gs)
    (hstack : ∀ u, v'.loop.stack? u = if u = t then some gs else v.loop.stack? u)
    (hcores : v'.cores = bump s f v.cores) : v'.Turns := by
  have hs : s ∈ held fs := by
    rw [hheld]
    exact List.mem_cons_self
  have hnodup : s ∉ held gs ∧ (held gs).Nodup := by
    have := h.nodup t fs ht
    rw [hheld] at this
    exact List.nodup_cons.1 this
  have hmem {u gs' i} (hu : v'.loop.stack? u = some gs') (hi : i ∈ held gs') :
      i ≠ s ∧ ∃ fs, v.loop.stack? u = some fs ∧ i ∈ held fs := by
    rw [hstack] at hu
    split at hu
    · next e =>
      subst e
      cases hu
      refine ⟨fun e => hnodup.1 (e ▸ hi), fs, ht, ?_⟩
      rw [hheld]
      exact List.mem_cons_of_mem _ hi
    · next hut => exact ⟨fun e => hut (h.one u t gs' fs s hu ht (e ▸ hi) hs), gs', hu, hi⟩
  refine ⟨fun u gs i hu hi => ?_, fun u u' gs gs' i hu hu' hi hi' => ?_, fun u gs' hu => ?_⟩
  · obtain ⟨his, fs, hfs, hi⟩ := hmem hu hi
    rw [hcores, bump_of_ne his]
    exact h.starting u fs i hfs hi
  · obtain ⟨-, fs, hfs, hi⟩ := hmem hu hi
    obtain ⟨-, fs', hfs', hi'⟩ := hmem hu' hi'
    exact h.one u u' fs fs' i hfs hfs' hi hi'
  · rw [hstack] at hu
    split at hu
    · cases hu
      exact hnodup.2
    · exact h.nodup u gs' hu

end View.Turns

/-! ## Waiting for a turn -/

namespace View.Queues

/-- Tasks change, but those that wait for a turn go on waiting.  Whatever is answered is held. -/
theorem move (h : v.Queues) (hcores : SameTurns v.cores v'.cores) {P : Nat → Prop}
    (hP : ∀ c, P c → ∃ p, v.Holds p c) (hhand : Handed { answer := P } v v')
    (hstack : ∀ u gs f, v'.loop.stack? u = some gs → f ∈ gs → f.turn? ≠ none →
      v.loop.stack? u = some gs ∧ ∀ c, v.Awaits u c → v'.Awaits u c) : v'.Queues := by
  have hold {s b c} (hb : v'.cores s = some b) (hc : c ∈ b.startWaiters) :
      ∃ a, v.cores s = some a ∧ b.starting = a.starting ∧ b.startWaiters = a.startWaiters := by
    rcases hcores.new s b hb with h | ⟨-, e⟩
    · exact h
    · rw [e] at hc
      cases hc
  have hturn {u gs f s c} (hu : v'.loop.stack? u = some gs) (hf : f ∈ gs)
      (hs : f.turn? = some (s, c)) :
      v.loop.stack? u = some gs ∧ ∀ c, v.Awaits u c → v'.Awaits u c :=
    hstack u gs f hu hf (by rw [hs]; exact nofun)
  refine ⟨fun t fs f s c ht hf hs => ?_, fun t u fs gs f g s s' c ht hu hf hg hs hs' => ?_,
    fun s b hb => ?_, fun s b c hb hc => ?_, fun s s' b b' c hb hb' hc hc' => ?_,
    fun s b c hb hc hans => ?_⟩
  · obtain ⟨ht, haw⟩ := hturn ht hf hs
    obtain ⟨htop, ⟨a, ha, hc⟩, hw⟩ := h.turn t fs f s c ht hf hs
    obtain ⟨b, hb, -, e⟩ := hcores.old s a ha
    exact ⟨htop, ⟨b, hb, e ▸ hc⟩, haw c hw⟩
  · exact h.turn_one t u fs gs f g s s' c (hturn ht hf hs).1 (hturn hu hg hs').1 hf hg hs hs'
  · rcases hcores.new s b hb with ⟨a, ha, -, e⟩ | ⟨-, e⟩
    · rw [e]
      exact h.nodup s a ha
    · rw [e]
      exact List.nodup_nil
  · obtain ⟨a, ha, -, e⟩ := hold hb hc
    obtain ⟨hlt, hp⟩ := h.own s a c ha (e ▸ hc)
    exact ⟨Nat.lt_of_lt_of_le hlt hhand.size_le, (hhand.private_ hlt hp).1⟩
  · obtain ⟨a, ha, -, e⟩ := hold hb hc
    obtain ⟨a', ha', -, e'⟩ := hold hb' hc'
    exact h.apart s s' a a' c ha ha' (e ▸ hc) (e' ▸ hc')
  · obtain ⟨a, ha, es, e⟩ := hold hb hc
    rw [e] at hc
    rw [es, e]
    obtain ⟨hlt, hp⟩ := h.own s a c ha hc
    refine h.called s a c ha hc (((hhand.private_ hlt hp).2 hans).resolve_right fun hc => ?_)
    obtain ⟨p, hc⟩ := hP c hc
    exact hp p hc

/-- Only what is on top of a stack waits for a turn. -/
theorem turn_below (h : v.Queues) {t : Nat} {f g : Frame} {below : List Frame}
    (ht : v.loop.stack? t = some (f :: below)) (hg : g ∈ below) : g.turn? = none := by
  cases hs : g.turn? with
  | none => rfl
  | some sc =>
    obtain ⟨⟨below', e, hno⟩, -, -⟩ := h.turn t _ g sc.1 sc.2 ht (List.mem_cons_of_mem _ hg) hs
    cases e
    rw [hno _ hg] at hs
    cases hs

variable {t s : Nat} {gs : List Frame} {a : Session.Core} {f : Session.Core → Session.Core}

/-- Some leave a queue, and of those who stay only the first may have been called, or is. -/
theorem shrink (h : v.Queues) (ha : v.cores s = some a) {w : List Nat} {P : Nat → Prop}
    (hw : w.Sublist a.startWaiters) (hf : (f a).startWaiters = w) (hP : ∀ c, P c → c ∈ w)
    (hcalled : ∀ c ∈ w, v.loop.Answered c ∨ P c → (f a).starting = false ∧ w.head? = some c)
    (hrest : ∀ u fs g c, u ≠ t → v.loop.stack? u = some fs → g ∈ fs → g.turn? = some (s, c) →
      c ∈ w) (hgs : ∀ g ∈ gs, g.turn? = none)
    (hstack : ∀ u, v'.loop.stack? u = if u = t then some gs else v.loop.stack? u)
    (hawaits : ∀ u c, u ≠ t → v.Awaits u c → v'.Awaits u c)
    (hhand : Handed { answer := P } v v') (hcores : v'.cores = bump s f v.cores) :
    v'.Queues := by
  have hold {i b} (hb : v'.cores i = some b) :
      ∃ b', v.cores i = some b' ∧ b.startWaiters.Sublist b'.startWaiters := by
    rw [hcores] at hb
    rcases bump_eq_some hb with ⟨rfl, a', ha', rfl⟩ | ⟨-, hb⟩
    · rw [ha] at ha'
      cases ha'
      exact ⟨a, ha, hf ▸ hw⟩
    · exact ⟨b, hb, .refl _⟩
  have hturn {u gs g i c} (hu : v'.loop.stack? u = some gs) (hg : g ∈ gs)
      (hi : g.turn? = some (i, c)) : u ≠ t ∧ v.loop.stack? u = some gs := by
    rw [hstack] at hu
    split at hu
    · cases hu
      rw [hgs g hg] at hi
      cases hi
    · next hut => exact ⟨hut, hu⟩
  refine ⟨fun u gs g i c hu hg hi => ?_, fun u u' gs gs' g g' i i' c hu hu' hg hg' hi hi' => ?_,
    fun i b hb => ?_, fun i b c hb hc => ?_, fun i i' b b' c hb hb' hc hc' => ?_,
    fun i b c hb hc hans => ?_⟩
  · obtain ⟨hut, hu⟩ := hturn hu hg hi
    obtain ⟨htop, ⟨a', ha', hc⟩, haw⟩ := h.turn u gs g i c hu hg hi
    refine ⟨htop, ?_, hawaits u c hut haw⟩
    rw [hcores]
    by_cases his : i = s
    · subst his
      exact ⟨f a, bump_self ha, hf ▸ hrest u gs g c hut hu hg hi⟩
    · exact ⟨a', by rw [bump_of_ne his, ha'], hc⟩
  · exact h.turn_one u u' gs gs' g g' i i' c (hturn hu hg hi).2 (hturn hu' hg' hi').2 hg hg' hi hi'
  · obtain ⟨b', hb', hsub⟩ := hold hb
    exact (h.nodup i b' hb').sublist hsub
  · obtain ⟨b', hb', hsub⟩ := hold hb
    obtain ⟨hlt, hp⟩ := h.own i b' c hb' (hsub.subset hc)
    exact ⟨Nat.lt_of_lt_of_le hlt hhand.size_le, (hhand.private_ hlt hp).1⟩
  · obtain ⟨a₁, ha₁, hsub⟩ := hold hb
    obtain ⟨a₂, ha₂, hsub'⟩ := hold hb'
    exact h.apart i i' a₁ a₂ c ha₁ ha₂ (hsub.subset hc) (hsub'.subset hc')
  · obtain ⟨b', hb', hsub⟩ := hold hb
    obtain ⟨hlt, hp⟩ := h.own i b' c hb' (hsub.subset hc)
    have hans := (hhand.private_ hlt hp).2 hans
    rw [hcores] at hb
    rcases bump_eq_some hb with ⟨rfl, a', ha', rfl⟩ | ⟨his, hb⟩
    · rw [ha] at ha'
      cases ha'
      rw [hf] at hc ⊢
      exact hcalled c hc hans
    -- nobody is called who queues for another session
    · refine h.called i b c hb hc (hans.resolve_right fun hc' => his ?_)
      exact h.apart i s b a c hb ha hc (hw.subset (hP c hc'))

/-- A task queues with a new cell. -/
theorem push (h : v.Queues) {c : Nat} (ha : v.cores s = some a) (hc : v.size ≤ c)
    (hlt : c < v'.size) (hown : ∀ p, ¬ v'.Holds p c) (hans : ¬ v'.loop.Answered c)
    {g : Frame} (hg : g.turn? = some (s, c)) (hgs : ∀ f ∈ gs, f.turn? = none)
    (hstack : ∀ u, v'.loop.stack? u = if u = t then some (g :: gs) else v.loop.stack? u)
    (hself : v'.Awaits t c) (hawaits : ∀ u c, u ≠ t → v.Awaits u c → v'.Awaits u c)
    (hhand : Handed {} v v') (hcores : v'.cores =
      bump s (fun a => { a with startWaiters := a.startWaiters ++ [c] }) v.cores) :
    v'.Queues := by
  -- the cell is new, so nobody who queued before has it
  have hfresh {i b d} (hb : v.cores i = some b) (hd : d ∈ b.startWaiters) : d ≠ c := fun e => by
    have := (h.own i b d hb hd).1
    omega
  have hold {i b d} (hb : v'.cores i = some b) (hd : d ∈ b.startWaiters) :
      i = s ∧ d = c ∨ ∃ b', v.cores i = some b' ∧ d ∈ b'.startWaiters := by
    rw [hcores] at hb
    rcases bump_eq_some hb with ⟨rfl, a', ha', rfl⟩ | ⟨-, hb⟩
    · rcases List.mem_append.1 hd with hd | hd
      · exact .inr ⟨a', ha', hd⟩
      · exact .inl ⟨rfl, List.mem_singleton.1 hd⟩
    · exact .inr ⟨b, hb, hd⟩
  have hturn {u fs f i d} (hu : v'.loop.stack? u = some fs) (hf : f ∈ fs)
      (hi : f.turn? = some (i, d)) :
      (u = t ∧ fs = g :: gs ∧ f = g ∧ i = s ∧ d = c) ∨ u ≠ t ∧ v.loop.stack? u = some fs := by
    rw [hstack] at hu
    split at hu
    · next hut =>
      cases hu
      rcases List.mem_cons.1 hf with rfl | hf
      · rw [hg] at hi
        cases hi
        exact .inl ⟨hut, rfl, rfl, rfl, rfl⟩
      · rw [hgs f hf] at hi
        cases hi
    · next hut => exact .inr ⟨hut, hu⟩
  have hmono {i b d} (hb : v.cores i = some b) (hd : d ∈ b.startWaiters) :
      ∃ b', v'.cores i = some b' ∧ d ∈ b'.startWaiters := by
    rw [hcores]
    by_cases his : i = s
    · subst his
      exact ⟨_, bump_self hb, List.mem_append_left _ hd⟩
    · exact ⟨b, by rw [bump_of_ne his, hb], hd⟩
  refine ⟨fun u fs f i d hu hf hi => ?_, fun u u' fs fs' f f' i i' d hu hu' hf hf' hi hi' => ?_,
    fun i b hb => ?_, fun i b d hb hd => ?_, fun i i' b b' d hb hb' hd hd' => ?_,
    fun i b d hb hd hansd => ?_⟩
  · rcases hturn hu hf hi with ⟨rfl, rfl, rfl, rfl, rfl⟩ | ⟨hut, hu⟩
    · refine ⟨⟨gs, rfl, hgs⟩, ⟨_, by rw [hcores]; exact bump_self ha, ?_⟩, hself⟩
      exact List.mem_append_right _ (List.mem_singleton.2 rfl)
    · obtain ⟨htop, ⟨b, hb, hd⟩, haw⟩ := h.turn u fs f i d hu hf hi
      exact ⟨htop, hmono hb hd, hawaits u d hut haw⟩
  · have hne {u fs f i} (hu : v.loop.stack? u = some fs) (hf : f ∈ fs)
        (hi : f.turn? = some (i, c)) : False := by
      obtain ⟨-, ⟨b, hb, hd⟩, -⟩ := h.turn u fs f i c hu hf hi
      exact hfresh hb hd rfl
    rcases hturn hu hf hi with ⟨rfl, -, -, -, rfl⟩ | ⟨-, hu⟩
    · rcases hturn hu' hf' hi' with ⟨rfl, -⟩ | ⟨-, hu'⟩
      · rfl
      · exact (hne hu' hf' hi').elim
    · rcases hturn hu' hf' hi' with ⟨-, -, -, -, rfl⟩ | ⟨-, hu'⟩
      · exact (hne hu hf hi).elim
      · exact h.turn_one u u' fs fs' f f' i i' d hu hu' hf hf' hi hi'
  · rw [hcores] at hb
    rcases bump_eq_some hb with ⟨rfl, a', ha', rfl⟩ | ⟨-, hb⟩
    · refine List.nodup_append.2 ⟨h.nodup i a' ha', List.nodup_singleton c, fun d hd d' hd' => ?_⟩
      rw [List.mem_singleton.1 hd']
      exact hfresh ha' hd
    · exact h.nodup i b hb
  · rcases hold hb hd with ⟨rfl, rfl⟩ | ⟨b', hb', hd⟩
    · exact ⟨hlt, hown⟩
    · obtain ⟨hlt, hp⟩ := h.own i b' d hb' hd
      exact ⟨Nat.lt_of_lt_of_le hlt hhand.size_le, (hhand.private_ hlt hp).1⟩
  · rcases hold hb hd with ⟨rfl, rfl⟩ | ⟨a₁, ha₁, hd₁⟩
    · rcases hold hb' hd' with ⟨rfl, -⟩ | ⟨a₂, ha₂, hd₂⟩
      · rfl
      · exact absurd rfl (hfresh ha₂ hd₂)
    · rcases hold hb' hd' with ⟨-, rfl⟩ | ⟨a₂, ha₂, hd₂⟩
      · exact absurd rfl (hfresh ha₁ hd₁)
      · exact h.apart i i' a₁ a₂ d ha₁ ha₂ hd₁ hd₂
  · rcases hold hb hd with ⟨-, rfl⟩ | ⟨b', hb', hd'⟩
    · exact absurd hansd hans
    · obtain ⟨hlt, hp⟩ := h.own i b' d hb' hd'
      have hansd := ((hhand.private_ hlt hp).2 hansd).resolve_right nofun
      obtain ⟨hst, hhead⟩ := h.called i b' d hb' hd' hansd
      rw [hcores] at hb
      rcases bump_eq_some hb with ⟨rfl, a', ha', rfl⟩ | ⟨-, hb⟩
      · rw [hb'] at ha'
        cases ha'
        refine ⟨hst, ?_⟩
        dsimp only
        rw [List.head?_append, hhead]
        rfl
      · rw [hb'] at hb
        cases hb
        exact ⟨hst, hhead⟩

end View.Queues

end Turns

end GhciHost.Host
