import GhciHost.Text.Scan

/-! # Names quoted in messages

The compiler quotes names with ‘…’, or with a grave accent and an apostrophe where the
terminal knows no more than ASCII.  `curled` writes the second form as the first, so that
the rules need to know only one.

* `quoted?_eq_some`   what a quoted name is. -/

namespace GhciHost.Suggestion

/-- The grave accent that opens an ASCII quotation. -/
def grave : Char := '\x60'

/-- A name between curled quotes at the start of a text, and the text after it. -/
def quoted? : List Char → Option (List Char × List Char)
  | '‘' :: s =>
    let name := s.takeWhile (· != '’')
    match name, s.dropWhile (· != '’') with
    | [], _ => none
    | _, '’' :: rest => some (name, rest)
    | _, _ => none
  | _ => none

/-- Whether a character may stand in an ASCII quotation. -/
def isQuotable (c : Char) : Bool := c != grave && c != '\'' && c != '\n'

/-- An ASCII quotation at the start of a text: its curled form and its length. -/
def asciiQuoted? : List Char → Option (List Char × Nat)
  | c :: s =>
    if c ≠ grave then none
    else
      let name := s.takeWhile isQuotable
      match name, s.dropWhile isQuotable with
      | [], _ => none
      | _, '\'' :: _ => some (['‘'] ++ name ++ ['’'], name.length + 2)
      | _, _ => none
  | [] => none

/-- Write every ASCII quotation with curled quotes. -/
def curled (s : List Char) : List Char := Text.replaceAll asciiQuoted? s

/-- All names between curled quotes. -/
def quotedNames (s : List Char) : List (List Char) :=
  (Text.findAll (fun _ s => (quoted? s).map fun (name, _) => (name, name.length + 2)) s).map (·.2)

theorem quoted?_eq_some {s name rest : List Char} :
    quoted? s = some (name, rest) ↔
      s = ['‘'] ++ name ++ ['’'] ++ rest ∧ name ≠ [] ∧ '’' ∉ name := by
  have split : ∀ s : List Char, s = s.takeWhile (· != '’') ++ s.dropWhile (· != '’') :=
    fun s => (List.takeWhile_append_dropWhile (p := (· != '’')) (l := s)).symm
  constructor
  · intro h
    cases s with
    | nil => simp [quoted?] at h
    | cons c s =>
      by_cases hc : c = '‘'
      · subst hc
        rw [quoted?] at h
        have hs := split s
        revert h
        generalize hn : s.takeWhile (· != '’') = n at hs ⊢
        generalize hd : s.dropWhile (· != '’') = d at hs ⊢
        intro h
        -- The name was taken up to the first closing quote.
        have hmem : '’' ∉ n := by
          intro hm
          rw [← hn] at hm
          have := List.all_takeWhile (p := (· != '’')) (l := s)
          rw [List.all_eq_true] at this
          simpa using this _ hm
        split at h
        · exact absurd h (by simp)
        · next hne =>
          simp only [Option.some.injEq, Prod.mk.injEq] at h
          obtain ⟨rfl, rfl⟩ := h
          refine ⟨by simp [hs], ?_, hmem⟩
          intro e
          exact hne e
        · exact absurd h (by simp)
      -- Without an opening quote nothing is read.
      · unfold quoted? at h
        split at h
        · next e => exact absurd (List.cons.inj e).1 hc
        · exact absurd h (by simp)
  · rintro ⟨rfl, hne, hmem⟩
    -- No character of the name closes it, so it is taken whole.
    have hall : ∀ x ∈ name, (x != '’') = true := fun x hx => by
      have : x ≠ '’' := fun e => hmem (e ▸ hx)
      simpa using this
    have ht : (name ++ '’' :: rest).takeWhile (· != '’') = name := by
      rw [List.takeWhile_append_of_pos hall]
      simp
    have hd : (name ++ '’' :: rest).dropWhile (· != '’') = '’' :: rest := by
      rw [List.dropWhile_append_of_pos hall]
      simp
    simp only [List.append_assoc, List.cons_append, List.nil_append, quoted?, ht, hd]

end GhciHost.Suggestion
