import GhciHost.Proofs.Json.Taken
import GhciHost.Proofs.Text.Squeezed

/-!
# JSON values in a text

A value is known by the character that it begins with.  It takes what it takes whatever part of the rest
follows, with any fuel that the length of the text allows for, so a list that is all of a text but for
blanks is read alike when these are trimmed.

* `Begins`, `begins_of_value`, `value_of_begins`   one step of the reader, for each form of a value;
* `taken`, `taken_value`   a value is taken;
* `opens_of_value`, `isList_iff`   the character that a value begins with;
* `read_trim`   a list in a trimmed text.
-/

namespace GhciHost.Json

open Text

variable {s t r m q : List Char} {v : Json} {n : Nat}

/-! ## Values -/

/-- What may begin a value. -/
def opens (c : Char) : Bool := c.isDigit || "\"[\x7bntfNI-".toList.contains c

theorem isBlank_of_opens {c : Char} (h : opens c = true) : isBlank c = false :=
  isBlank_eq_false_of (by decide +kernel) h

/-- How a value begins and goes on, with fuel for what it holds. -/
inductive Begins (n : Nat) : List Char → Json → List Char → Prop
  | text {a b : List Char} {x : String} (h : stringTail n [] a = .ok (x, b)) :
      Begins n ('"' :: a) (.str x) b
  | noItems {a b : List Char} (h : skipSpace a = ']' :: b) : Begins n ('[' :: a) (.arr []) b
  | items {a b : List Char} {x : Json} (h : items n [] (skipSpace a) = .ok (x, b)) :
      Begins n ('[' :: a) x b
  | noMembers {a b : List Char} (h : skipSpace a = '}' :: b) : Begins n ('{' :: a) (.obj []) b
  | members {a b : List Char} {x : Json} (h : members n [] (skipSpace a) = .ok (x, b)) :
      Begins n ('{' :: a) x b
  | word {a b : List Char} {x : Json} (h : word? a = some (x, b)) : Begins n a x b
  | negative {a b : List Char} {x : Json} (h : number true a = .ok (x, b)) :
      Begins n ('-' :: a) x b
  | number {a b : List Char} {x : Json} (h : number false a = .ok (x, b)) : Begins n a x b

theorem begins_of_value (h : value (n + 1) s = .ok (v, r)) : Begins n s v r := by
  rw [value.eq_def] at h
  dsimp only at h
  split at h
  · next s =>
    cases hx : stringTail n [] s with
    | error e =>
      rw [hx] at h
      cases h
    | ok p =>
      rw [hx] at h
      cases h
      exact .text hx
  · split at h
    · next hs =>
      cases h
      exact .noItems hs
    · exact .items h
  · split at h
    · next hs =>
      cases h
      exact .noMembers hs
    · exact .members h
  · split at h
    · next p hp =>
      cases h
      exact .word hp
    · split at h
      · exact .negative h
      · exact .number h

theorem isDigit_of_number {negative : Bool} (h : number negative s = .ok (v, r)) :
    ∃ c s', s = c :: s' ∧ c.isDigit = true := by
  have hne : s.takeWhile Char.isDigit ≠ [] := fun hs => by
    refine (number_eq_ok.1 h).1 ?_
    rw [integral, hs]
    rfl
  cases s with
  | nil => exact absurd rfl hne
  | cons c s =>
    refine ⟨c, s, rfl, ?_⟩
    by_contra hc
    exact hne (List.takeWhile_cons_of_neg hc)

theorem opens_of_word? (h : word? s = some (v, r)) : ∃ c s', s = c :: s' ∧ c ∈ "ntfNI-".toList := by
  obtain ⟨w, hw, rfl⟩ := spelling_of_word? h
  simp only [spellings, List.mem_cons, Prod.mk.injEq, List.not_mem_nil, or_false] at hw
  rcases hw with ⟨rfl, -⟩ | ⟨rfl, -⟩ | ⟨rfl, -⟩ | ⟨rfl, -⟩ | ⟨rfl, -⟩ | ⟨rfl, -⟩ <;>
    exact ⟨_, _, rfl, by decide⟩

/-- A value begins with one of the characters that may begin one. -/
theorem opens_of_value (h : value n s = .ok (v, r)) : ∃ c s', s = c :: s' ∧ opens c = true := by
  cases n with
  | zero => cases h
  | succ n =>
    cases begins_of_value h with
    | text | noItems | items | noMembers | members | negative => exact ⟨_, _, rfl, by decide⟩
    | word h =>
      obtain ⟨c, s', rfl, hc⟩ := opens_of_word? h
      have hopens : "ntfNI-".toList.all opens = true := by decide
      exact ⟨c, s', rfl, List.all_eq_true.1 hopens c hc⟩
    | number h =>
      obtain ⟨c, s', rfl, hc⟩ := isDigit_of_number h
      exact ⟨c, s', rfl, by rw [opens, hc]; rfl⟩

theorem items_succ_iff {acc : List Json} : items (n + 1) acc s = .ok (v, r) ↔
    ∃ x m, value n s = .ok (x, m) ∧
      ((∃ u, skipSpace m = ',' :: u ∧ items n (x :: acc) (skipSpace u) = .ok (v, r)) ∨
        skipSpace m = ']' :: r ∧ v = .arr (x :: acc).reverse) := by
  rw [items]
  constructor
  · intro h
    split at h
    · cases h
    · next x m hx =>
      refine ⟨x, m, hx, ?_⟩
      split at h
      · next u hu => exact .inl ⟨u, hu, h⟩
      · next u hu =>
        cases h
        exact .inr ⟨hu, rfl⟩
      · cases h
  · rintro ⟨x, m, hx, ⟨u, hu, h⟩ | ⟨hm, rfl⟩⟩
    · simp only [hx, hu, h]
    · simp only [hx, hm]

theorem members_succ_iff {acc : List (String × Json)} : members (n + 1) acc s = .ok (v, r) ↔
    ∃ u k a b x m, s = '"' :: u ∧ stringTail n [] u = .ok (k, a) ∧ skipSpace a = ':' :: b ∧
      value n (skipSpace b) = .ok (x, m) ∧
      ((∃ u, skipSpace m = ',' :: u ∧ members n ((k, x) :: acc) (skipSpace u) = .ok (v, r)) ∨
        skipSpace m = '}' :: r ∧ v = .obj (ofMembers ((k, x) :: acc).reverse)) := by
  constructor
  · intro h
    rw [members.eq_def] at h
    dsimp only at h
    split at h
    · next u =>
      split at h
      · cases h
      · next k a hk =>
        split at h
        · next b hb =>
          split at h
          · cases h
          · next x m hx =>
            refine ⟨u, k, a, b, x, m, rfl, hk, hb, hx, ?_⟩
            split at h
            · next u hu => exact .inl ⟨u, hu, h⟩
            · next u hu =>
              cases h
              exact .inr ⟨hu, rfl⟩
            · cases h
        · cases h
    · cases h
  · rintro ⟨u, k, a, b, x, m, rfl, hk, hb, hx, ⟨u, hu, h⟩ | ⟨hm, rfl⟩⟩
    · simp only [members, hk, hb, hx, hu, h]
    · simp only [members, hk, hb, hx, hm]

theorem opens_of_items {acc : List Json} (h : items n acc s = .ok (v, r)) :
    ∃ c s', s = c :: s' ∧ opens c = true := by
  cases n with
  | zero => cases h
  | succ n =>
    obtain ⟨x, m, hx, -⟩ := items_succ_iff.1 h
    exact opens_of_value hx

/-- What begins neither a text nor a list nor an object is a word or a number. -/
theorem value_cons {c : Char} (hc : c ≠ '"' ∧ c ≠ '[' ∧ c ≠ '{') (s : List Char) :
    value (n + 1) (c :: s) =
      match word? (c :: s) with
      | some p => .ok p
      | none => if c = '-' then number true s else number false (c :: s) := by
  by_cases hminus : c = '-'
  · subst hminus
    rw [value.eq_def]
    rfl
  · rw [value]
    · cases word? (c :: s) with
      | none => exact (if_neg hminus).symm
      | some p => rfl
    · exact fun r h => hc.1 (List.cons.inj h).1
    · exact fun r h => hc.2.1 (List.cons.inj h).1
    · exact fun r h => hc.2.2 (List.cons.inj h).1
    · exact fun r h => hminus (List.cons.inj h).1

theorem word?_eq_none {c : Char} (hc : c.isDigit = true) (s : List Char) : word? (c :: s) = none := by
  cases h : word? (c :: s) with
  | none => rfl
  | some p =>
    obtain ⟨d, s', hd, hmem⟩ := opens_of_word? (v := p.1) (r := p.2) h
    have hdigits : "ntfNI-".toList.all (!·.isDigit) = true := by decide
    have hd' := List.all_eq_true.1 hdigits d hmem
    rw [← (List.cons.inj hd).1, hc] at hd'
    cases hd'

theorem word?_minus_eq_none {c : Char} (hc : c.isDigit = true) (s : List Char) :
    word? ('-' :: c :: s) = none := by
  cases h : word? ('-' :: c :: s) with
  | none => rfl
  | some p =>
    obtain ⟨w, hw, hs⟩ := spelling_of_word? (v := p.1) (r := p.2) h
    simp only [spellings, List.mem_cons, Prod.mk.injEq, List.not_mem_nil, or_false] at hw
    rcases hw with ⟨rfl, -⟩ | ⟨rfl, -⟩ | ⟨rfl, -⟩ | ⟨rfl, -⟩ | ⟨rfl, -⟩ | ⟨rfl, -⟩ <;>
      cases hs
    exact absurd hc (by decide)

theorem value_of_begins (h : Begins n s v r) : value (n + 1) s = .ok (v, r) := by
  cases h with
  | text h =>
    rw [value, h]
    rfl
  | noItems h => simp only [value, h]
  | items h =>
    rw [value]
    split
    · next hs =>
      obtain ⟨c, s', hc, hopens⟩ := opens_of_items (hs ▸ h)
      cases hc
      exact absurd hopens (by decide)
    · exact h
  | noMembers h => simp only [value, h]
  | members h =>
    rw [value]
    split
    · next hs =>
      rw [hs] at h
      cases n with
      | zero => cases h
      | succ n =>
        obtain ⟨u, k, a, b, x, m, hu, -⟩ := members_succ_iff.1 h
        cases hu
    · exact h
  | word h =>
    obtain ⟨c, s', rfl, hc⟩ := opens_of_word? h
    have hplain : "ntfNI-".toList.all (fun c => c != '"' && (c != '[' && c != '{')) = true := by
      decide
    rw [value_cons (by simpa using List.all_eq_true.1 hplain c hc), h]
  | negative h =>
    obtain ⟨c, s', rfl, hc⟩ := isDigit_of_number h
    rw [value_cons (by decide), word?_minus_eq_none hc]
    exact h
  | number h =>
    obtain ⟨c, s', rfl, hc⟩ := isDigit_of_number h
    have hne {d : Char} (hd : d.isDigit = false) : c ≠ d := by
      rintro rfl
      rw [hc] at hd
      cases hd
    rw [value_cons ⟨hne rfl, hne rfl, hne rfl⟩, word?_eq_none hc]
    exact (if_neg (hne rfl)).trans h

/-- A value that is read, with any fuel that the length of the text allows for. -/
def ReadsValue (v : Json) (t q : List Char) : Prop :=
  ∀ k, 2 * t.length + 2 ≤ k → value k t = .ok (v, q)

/-- Items that are read. -/
def ReadsItems (acc : List Json) (v : Json) (t q : List Char) : Prop :=
  ∀ k, 2 * t.length + 3 ≤ k → items k acc t = .ok (v, q)

/-- Members that are read. -/
def ReadsMembers (acc : List (String × Json)) (v : Json) (t q : List Char) : Prop :=
  ∀ k, 2 * t.length + 3 ≤ k → members k acc t = .ok (v, q)

theorem readsValue_of_begins (h : ∀ k, 2 * t.length + 1 ≤ k → Begins k t v q) :
    ReadsValue v t q := fun k hk => by
  obtain ⟨k, rfl⟩ := Nat.exists_eq_add_one_of_ne_zero (Nat.ne_zero_of_lt hk)
  exact value_of_begins (h k (by omega))

theorem skipSpace_suffix (s : List Char) : skipSpace s <:+ s := List.dropWhile_suffix isSpace

/-- Spaces stand in front of what is read. -/
theorem Taken.behindSpace {P : List Char → List Char → Prop} (h : Taken P (Json.skipSpace s) r) :
    Taken (fun t q => P (Json.skipSpace t) q) s r :=
  (Taken.skipSpace s).trans h fun _ _ _ _ _ ht hu => ht ▸ hu

/-- Spaces are read, and one more character. -/
theorem Taken.skipSpace_cons {c : Char} (h : Json.skipSpace s = c :: r) :
    Taken (fun t q => Json.skipSpace t = c :: q) s r :=
  Taken.behindSpace (P := fun t q => t = c :: q) (h ▸ Taken.single c r)

/-- Behind an item stand more of them, or the list is closed. -/
def BehindItem (acc : List Json) (v : Json) (t q : List Char) : Prop :=
  (∃ u, skipSpace t = ',' :: u ∧ ReadsItems acc v (skipSpace u) q) ∨
    skipSpace t = ']' :: q ∧ v = .arr acc.reverse

/-- Behind a member stand more of them, or the object is closed. -/
def BehindMember (acc : List (String × Json)) (v : Json) (t q : List Char) : Prop :=
  (∃ u, skipSpace t = ',' :: u ∧ ReadsMembers acc v (skipSpace u) q) ∨
    skipSpace t = '}' :: q ∧ v = .obj (ofMembers acc.reverse)

section Steps

-- what holds with less fuel
variable (ihValue : ∀ s v r, value n s = .ok (v, r) → Taken (ReadsValue v) s r)
variable (ihItems : ∀ acc s v r, items n acc s = .ok (v, r) → Taken (ReadsItems acc v) s r)
variable (ihMembers : ∀ acc s v r, members n acc s = .ok (v, r) → Taken (ReadsMembers acc v) s r)

include ihItems ihMembers in
theorem taken_of_begins (h : Begins n s v r) : Taken (ReadsValue v) s r := by
  cases h with
  | text h =>
    refine (taken_stringTail h).cons _ fun t q _ ht => readsValue_of_begins fun k hk =>
      .text (ht k ?_)
    rw [List.length_cons] at hk
    omega
  | noItems h =>
    exact (Taken.skipSpace_cons h).cons _ fun t q _ ht => readsValue_of_begins fun k _ => .noItems ht
  | items h =>
    refine (ihItems _ _ _ _ h).behindSpace.cons _ fun t q _ ht => readsValue_of_begins fun k hk =>
      .items (ht k ?_)
    have hlength := (skipSpace_suffix t).length_le
    rw [List.length_cons] at hk
    omega
  | noMembers h =>
    exact (Taken.skipSpace_cons h).cons _ fun t q _ ht => readsValue_of_begins fun k _ =>
      .noMembers ht
  | members h =>
    refine (ihMembers _ _ _ _ h).behindSpace.cons _ fun t q _ ht => readsValue_of_begins fun k hk =>
      .members (ht k ?_)
    have hlength := (skipSpace_suffix t).length_le
    rw [List.length_cons] at hk
    omega
  | word h => exact (taken_word? h).mono fun t q _ ht => readsValue_of_begins fun k _ => .word ht
  | negative h =>
    exact (taken_number h).cons _ fun t q _ ht => readsValue_of_begins fun k _ => .negative ht
  | number h =>
    exact (taken_number h).mono fun t q _ ht => readsValue_of_begins fun k _ => .number ht

include ihValue ihItems in
theorem taken_items_succ {acc : List Json} (h : items (n + 1) acc s = .ok (v, r)) :
    Taken (ReadsItems acc v) s r := by
  obtain ⟨x, m, hx, h⟩ := items_succ_iff.1 h
  have hbehind : Taken (BehindItem (x :: acc) v) m r := by
    rcases h with ⟨u, hu, h⟩ | ⟨hm, hv⟩
    · exact (Taken.skipSpace_cons hu).trans (ihItems _ _ _ _ h).behindSpace
        fun t u q _ _ ht hu => .inl ⟨u, ht, hu⟩
    · exact (Taken.skipSpace_cons hm).mono fun t q _ ht => .inr ⟨ht, hv⟩
  refine (ihValue _ _ _ hx).trans hbehind fun t m q hmt _ ht hm k hk => ?_
  obtain ⟨k, rfl⟩ := Nat.exists_eq_add_one_of_ne_zero (Nat.ne_zero_of_lt hk)
  refine items_succ_iff.2 ⟨x, m, ht k (by omega), hm.imp_left fun ⟨u, hu, hv⟩ => ⟨u, hu, hv k ?_⟩⟩
  -- the comma makes up for the fuel that was spent
  have hcomma := hu ▸ (skipSpace_suffix m).length_le
  have hspace := (skipSpace_suffix u).length_le
  have hvalue := hmt.length_le
  rw [List.length_cons] at hcomma
  omega

include ihValue ihMembers in
theorem taken_members_succ {acc : List (String × Json)} (h : members (n + 1) acc s = .ok (v, r)) :
    Taken (ReadsMembers acc v) s r := by
  obtain ⟨u, key, a, b, x, m, rfl, hkey, hb, hx, h⟩ := members_succ_iff.1 h
  have hbehind : Taken (BehindMember ((key, x) :: acc) v) m r := by
    rcases h with ⟨u, hu, h⟩ | ⟨hm, hv⟩
    · exact (Taken.skipSpace_cons hu).trans (ihMembers _ _ _ _ h).behindSpace
        fun t u q _ _ ht hu => .inl ⟨u, ht, hu⟩
    · exact (Taken.skipSpace_cons hm).mono fun t q _ ht => .inr ⟨ht, hv⟩
  -- the value, and what stands behind it
  have hvalue : Taken (fun t q => ∃ m, m <:+ t ∧ ReadsValue x (skipSpace t) m ∧
      BehindMember ((key, x) :: acc) v m q) b r :=
    (ihValue _ _ _ hx).behindSpace.trans hbehind fun t m q hmt _ ht hm => ⟨m, hmt, ht, hm⟩
  -- the colon in front of it
  have hcolon : Taken (fun t q => ∃ b m, skipSpace t = ':' :: b ∧ b <:+ t ∧ m <:+ b ∧
      ReadsValue x (skipSpace b) m ∧ BehindMember ((key, x) :: acc) v m q) a r :=
    (Taken.skipSpace_cons hb).trans hvalue
      fun t b q hbt _ ht ⟨m, hmb, hx, hm⟩ => ⟨b, m, ht, hbt, hmb, hx, hm⟩
  refine Taken.cons (P := fun t q => ∀ k, 2 * t.length + 4 ≤ k →
    members (k + 1) acc ('"' :: t) = .ok (v, q)) '"' ?_ fun t q _ ht k hk => ?_
  · refine (taken_stringTail hkey).trans hcolon fun t a q hat _ ht ha k hk => ?_
    obtain ⟨b, m, hb, hba, hmb, hx, hm⟩ := ha
    have hat := hat.length_le
    have hba := hba.length_le
    have hmb := hmb.length_le
    have hspace := (skipSpace_suffix b).length_le
    refine members_succ_iff.2 ⟨t, key, a, b, x, m, rfl, ht k (by omega), hb, hx k (by omega),
      hm.imp_left fun ⟨u, hu, hv⟩ => ⟨u, hu, hv k ?_⟩⟩
    have hcomma := hu ▸ (skipSpace_suffix m).length_le
    have hbehind := (skipSpace_suffix u).length_le
    rw [List.length_cons] at hcomma
    omega
  · obtain ⟨k, rfl⟩ := Nat.exists_eq_add_one_of_ne_zero (Nat.ne_zero_of_lt hk)
    refine ht k ?_
    rw [List.length_cons] at hk
    omega

end Steps

/-- Readers take what they read: by induction on the fuel, all three at once. -/
theorem taken (n : Nat) :
    (∀ s v r, value n s = .ok (v, r) → Taken (ReadsValue v) s r) ∧
    (∀ acc s v r, items n acc s = .ok (v, r) → Taken (ReadsItems acc v) s r) ∧
    (∀ acc s v r, members n acc s = .ok (v, r) → Taken (ReadsMembers acc v) s r) := by
  induction n with
  | zero => exact ⟨nofun, nofun, nofun⟩
  | succ n ih =>
    obtain ⟨ihValue, ihItems, ihMembers⟩ := ih
    exact ⟨fun s v r h => taken_of_begins ihItems ihMembers (begins_of_value h),
      fun acc s v r h => taken_items_succ ihValue ihItems h,
      fun acc s v r h => taken_members_succ ihValue ihMembers h⟩

theorem taken_value (h : value n s = .ok (v, r)) : Taken (ReadsValue v) s r := (taken n).1 s v r h

/-! ## Lists -/

theorem ne_arr_of_number {negative : Bool} (h : number negative s = .ok (v, r)) (xs : List Json) :
    v ≠ .arr xs := by
  obtain ⟨-, frac, m, exp, -, -, hv⟩ := number_eq_ok.1 h
  rintro rfl
  unfold numeral at hv
  split at hv
  · split at hv <;> cases hv
  · cases hv

/-- Items end with the bracket that closes the list. -/
theorem ends_of_items {acc : List Json} (h : items n acc s = .ok (v, r)) :
    ∃ c xs, s = c ++ ']' :: r ∧ v = .arr xs := by
  induction n generalizing acc s with
  | zero => cases h
  | succ n ih =>
    obtain ⟨x, m, hx, hm⟩ := items_succ_iff.1 h
    obtain ⟨c, rfl, -⟩ := taken_value hx
    rcases hm with ⟨u, hu, hitems⟩ | ⟨hm, hv⟩
    · obtain ⟨d, xs, hd, hv⟩ := ih hitems
      obtain ⟨e, he⟩ := hu ▸ skipSpace_suffix m
      obtain ⟨f, hf⟩ := skipSpace_suffix u
      refine ⟨c ++ (e ++ ',' :: (f ++ d)), xs, ?_, hv⟩
      rw [← he, ← hf, hd]
      simp
    · obtain ⟨e, he⟩ := hm ▸ skipSpace_suffix m
      exact ⟨c ++ e, _, by rw [← he, List.append_assoc], hv⟩

theorem exists_obj_of_members {acc : List (String × Json)} (h : members n acc s = .ok (v, r)) :
    ∃ ms, v = .obj ms := by
  induction n generalizing acc s with
  | zero => cases h
  | succ n ih =>
    obtain ⟨u, key, a, b, x, m, -, -, -, -, ⟨u, -, hmembers⟩ | ⟨-, hv⟩⟩ := members_succ_iff.1 h
    · exact ih hmembers
    · exact ⟨_, hv⟩

/-- A value is a list exactly if it begins with the bracket that opens one. -/
theorem isList_iff (h : value n s = .ok (v, r)) : (∃ xs, v = .arr xs) ↔ ∃ s', s = '[' :: s' := by
  have hneither (hv : ∀ xs, v ≠ .arr xs) (hs : ∀ s', s ≠ '[' :: s') :
      (∃ xs, v = .arr xs) ↔ ∃ s', s = '[' :: s' :=
    iff_of_false (not_exists.2 hv) (not_exists.2 hs)
  have hopens {c : Char} {s' : List Char} (hs : s = c :: s') (hc : c ≠ '[') (u : List Char) :
      s ≠ '[' :: u := fun hu => hc (List.cons.inj (hs.symm.trans hu)).1
  cases n with
  | zero => cases h
  | succ n =>
    cases begins_of_value h with
    | text => exact hneither (fun _ => Json.noConfusion) (hopens rfl (by decide))
    | noItems => exact iff_of_true ⟨_, rfl⟩ ⟨_, rfl⟩
    | items h =>
      obtain ⟨c, xs, -, hv⟩ := ends_of_items h
      exact iff_of_true ⟨xs, hv⟩ ⟨_, rfl⟩
    | noMembers => exact hneither (fun _ => Json.noConfusion) (hopens rfl (by decide))
    | members h =>
      obtain ⟨ms, rfl⟩ := exists_obj_of_members h
      exact hneither (fun _ => Json.noConfusion) (hopens rfl (by decide))
    | word h =>
      obtain ⟨w, hw, -⟩ := spelling_of_word? h
      obtain ⟨c, s', hs, hc⟩ := opens_of_word? h
      have hspellings : ∀ p ∈ spellings, ∀ xs, p.2 ≠ .arr xs := by
        simp [spellings]
      refine hneither (hspellings _ hw) (hopens hs ?_)
      rintro rfl
      exact absurd hc (by decide)
    | negative h => exact hneither (ne_arr_of_number h) (hopens rfl (by decide))
    | number h =>
      obtain ⟨c, s', hs, hc⟩ := isDigit_of_number h
      refine hneither (ne_arr_of_number h) (hopens hs ?_)
      rintro rfl
      exact absurd hc (by decide)

/-- A list stands in brackets. -/
theorem brackets_of_value {xs : List Json} (h : value n s = .ok (.arr xs, r)) :
    ∃ c, s = '[' :: (c ++ ']' :: r) := by
  obtain ⟨s, rfl⟩ := (isList_iff h).1 ⟨xs, rfl⟩
  cases n with
  | zero => cases h
  | succ n =>
    cases begins_of_value h with
    | noItems h =>
      obtain ⟨e, he⟩ := h ▸ skipSpace_suffix s
      exact ⟨e, by rw [he]⟩
    | items h =>
      obtain ⟨c, xs, hc, -⟩ := ends_of_items h
      obtain ⟨e, he⟩ := skipSpace_suffix s
      exact ⟨e ++ c, by rw [← he, hc, List.append_assoc]⟩
    | word h =>
      obtain ⟨c, s'', hs, hc⟩ := opens_of_word? h
      cases hs
      exact absurd hc (by decide)
    | number h => exact absurd rfl (ne_arr_of_number h xs)

/-! ## Whole texts -/

theorem isBlank_of_isSpace {c : Char} (h : isSpace c = true) : isBlank c = true := by
  simp only [isSpace, Bool.or_eq_true, beq_iff_eq] at h
  rcases h with ((rfl | rfl) | rfl) | rfl <;> decide

/-- A text that is read begins, behind spaces, with what may begin a value. -/
theorem value_of_read {text : String} (h : read text = .ok v) :
    ∃ g s r n, text.toList = g ++ s ∧ (∀ c ∈ g, isSpace c = true) ∧ (∀ c ∈ r, isSpace c = true) ∧
      value n s = .ok (v, r) := by
  unfold read at h
  dsimp only at h
  split at h
  · cases h
  · next v' r hv =>
    split at h
    · next hr =>
      cases h
      refine ⟨text.toList.takeWhile isSpace, _, r, _, List.takeWhile_append_dropWhile.symm,
        fun c hc => List.mem_takeWhile_imp hc, ?_, hv⟩
      exact List.dropWhile_eq_nil_iff.1 (List.isEmpty_iff.1 hr)
    · cases h

/-- A text that is read begins, when it is trimmed, with what may begin its value. -/
theorem trim_of_read {text : String} (h : read text = .ok v) :
    ∃ c s, trim text.toList = c :: s ∧ opens c = true ∧ ((∃ xs, v = .arr xs) ↔ c = '[') := by
  obtain ⟨g, s, r, n, htext, hg, -, hv⟩ := value_of_read h
  obtain ⟨c, s, rfl, hc⟩ := opens_of_value hv
  obtain ⟨t, ht⟩ := trim_blank_append_cons (fun d hd => isBlank_of_isSpace (hg d hd))
    (isBlank_of_opens hc) s
  exact ⟨c, t, htext ▸ ht, hc, (isList_iff hv).trans (by simp)⟩

/-- A list that is all of a text but for spaces is read when these are trimmed. -/
theorem read_trim {text : String} {xs : List Json} (h : read text = .ok (.arr xs)) :
    ∃ s, trim text.toList = '[' :: s ∧ read (String.ofList ('[' :: s)) = .ok (.arr xs) := by
  obtain ⟨g, s, r, n, htext, hg, hr, hv⟩ := value_of_read h
  obtain ⟨c, hs⟩ := brackets_of_value hv
  have hlist : s = ('[' :: (c ++ [']'])) ++ r := by rw [hs]; simp
  have htrim : trim text.toList = '[' :: (c ++ [']']) := by
    have hpadded : Padded ('[' :: (c ++ [']'])) text.toList :=
      ⟨g, r, fun c hc => isBlank_of_isSpace (hg c hc), fun c hc => isBlank_of_isSpace (hr c hc),
        by rw [htext, hlist]⟩
    rw [hpadded.trim_eq]
    exact Diagnostic.trim_of_starts_ends (Diagnostic.starts_cons.2 (by decide))
      ⟨']', List.getLast?_concat (l := '[' :: c), by decide⟩
  refine ⟨c ++ [']'], htrim, ?_⟩
  have hread : ReadsValue (.arr xs) ('[' :: (c ++ [']'])) [] := by
    obtain ⟨d, hd, htaken⟩ := taken_value hv
    have hlist : d = '[' :: (c ++ [']']) := List.append_cancel_right (hd.symm.trans hlist)
    have hd := htaken [] List.nil_prefix
    rwa [List.append_nil, hlist] at hd
  have hspace : skipSpace ('[' :: (c ++ [']'])) = '[' :: (c ++ [']']) :=
    List.dropWhile_cons_of_neg (by decide)
  rw [read, String.toList_ofList, hspace, hread _ (Nat.le_refl _)]
  rfl

end GhciHost.Json
