import Verdict.Proofs.Json.Text

/-!
# Reading spelled values

A value whose numbers are in range is read back as its draft from every spelling of it. The fuel that
the length of the text gives is enough, because every call of the reader but one takes a character.
-/

namespace Verdict.Json

open Reader (EndsNumber)

mutual
/-- Every number of a value is one that a text can hold. -/
def InRange : Json → Prop
  | .null => True
  | .bool _ => True
  | .num n => n.InRange
  | .str _ => True
  | .arr xs => InRangeItems xs
  | .obj ms => InRangeMembers ms

def InRangeItems : List Json → Prop
  | [] => True
  | x :: xs => InRange x ∧ InRangeItems xs

def InRangeMembers : List (String × Json) → Prop
  | [] => True
  | (_, v) :: ms => InRange v ∧ InRangeMembers ms
end

theorem inRange_arr {xs : List Json} : InRange (.arr xs) ↔ ∀ x ∈ xs, InRange x := by
  rw [InRange]
  induction xs with
  | nil => simp [InRangeItems]
  | cons x xs ih => simp [InRangeItems, ih]

theorem inRange_obj {ms : List (String × Json)} : InRange (.obj ms) ↔ ∀ m ∈ ms, InRange m.2 := by
  rw [InRange]
  induction ms with
  | nil => simp [InRangeMembers]
  | cons m ms ih =>
    obtain ⟨k, v⟩ := m
    rw [InRangeMembers, ih, List.forall_mem_cons]

/-! ## Blanks -/

/-- Nothing but blanks. -/
def Blank (cs : List Char) : Prop := ∀ c ∈ cs, isBlank c = true

theorem blank_nil : Blank [] := by
  intro c hc
  simp at hc

theorem skipBlanks_append {bs : List Char} (h : Blank bs) {c : Char} (hc : isBlank c = false)
    (cs : List Char) : skipBlanks (bs ++ c :: cs) = c :: cs := by
  rw [skipBlanks, List.dropWhile_append_of_pos h, List.dropWhile_cons_of_neg (by simp [hc])]

/-- A number does not go on with what stands behind an item or a member. -/
theorem endsNumber_blank {bs : List Char} (h : Blank bs) {c : Char}
    (hc : c.isDigit = false ∧ c ≠ '.' ∧ c ≠ 'e' ∧ c ≠ 'E') (cs : List Char) :
    EndsNumber (bs ++ c :: cs) := by
  cases bs with
  | nil => exact Reader.endsNumber_cons hc cs
  | cons b bs =>
    have hb := h b List.mem_cons_self
    refine Reader.endsNumber_cons ?_ _
    simp only [isBlank, Bool.or_eq_true, decide_eq_true_eq] at hb
    rcases hb with ((rfl | rfl) | rfl) | rfl <;> decide

/-! ## Values -/

theorem digit_ne {c : Char} (h : c.isDigit = true) :
    isBlank c = false ∧ c ≠ 'n' ∧ c ≠ 't' ∧ c ≠ 'f' ∧ c ≠ '"' ∧ c ≠ '-' ∧ c ≠ ']' := by
  refine ⟨?_, ?_, ?_, ?_, ?_, ?_, ?_⟩
  · rw [← Bool.not_eq_true]
    intro hb
    simp only [isBlank, Bool.or_eq_true, decide_eq_true_eq] at hb
    rcases hb with ((rfl | rfl) | rfl) | rfl <;> exact absurd h (by decide)
  all_goals
    rintro rfl
    exact absurd h (by decide)

/-- No spelling starts with a blank or with a closing bracket. -/
theorem spell_head (sp : Spacing) (level : ℕ) {j : Json} (h : j.InRange) :
    ∃ c cs, spell sp level j = c :: cs ∧ isBlank c = false ∧ c ≠ ']' := by
  cases j with
  | null => exact ⟨'n', _, rfl, by decide, by decide⟩
  | bool b =>
    cases b
    · exact ⟨'f', _, rfl, by decide, by decide⟩
    · exact ⟨'t', _, rfl, by decide, by decide⟩
  | num n =>
    obtain ⟨l, hwf, htext, -⟩ := exists_lexeme (n := n) (by simpa [InRange] using h)
    obtain ⟨c, cs, hcs, hc⟩ := hwf.exists_digit
    rw [spell, ← htext, Reader.Lexeme.text, hcs]
    split_ifs
    · exact ⟨'-', _, rfl, by decide, by decide⟩
    · obtain ⟨hb, -, -, -, -, -, hclose⟩ := digit_ne hc
      exact ⟨c, cs, rfl, hb, hclose⟩
  | str s => exact ⟨'"', _, rfl, by decide, by decide⟩
  | arr xs =>
    cases xs
    · exact ⟨'[', _, rfl, by decide, by decide⟩
    · exact ⟨'[', _, rfl, by decide, by decide⟩
  | obj ms =>
    cases ms
    · exact ⟨'{', _, rfl, by decide, by decide⟩
    · exact ⟨'{', _, rfl, by decide, by decide⟩

theorem value_blank {bs : List Char} (h : Blank bs) {c : Char} (hc : isBlank c = false)
    (fuel : ℕ) (cs : List Char) :
    Reader.value fuel (bs ++ c :: cs) = Reader.value fuel (c :: cs) := by
  cases fuel with
  | zero => rfl
  | succ fuel =>
    rw [Reader.value, Reader.value, skipBlanks_append h hc, skipBlanks,
      List.dropWhile_cons_of_neg (by simp [hc])]

/-- A spelling of a value is read as the draft of the value, up to where it ends. -/
def ReadsBack (sp : Spacing) (level : ℕ) (j : Json) : Prop :=
  ∀ fuel rest, EndsNumber rest → 2 * (spell sp level j).length ≤ fuel →
    Reader.value fuel (spell sp level j ++ rest) = (j.toDraft, .ok rest)

theorem readsBack_of_succ {sp : Spacing} {level : ℕ} {j : Json} (hlen : spell sp level j ≠ [])
    (h : ∀ fuel rest, EndsNumber rest → 2 * (spell sp level j).length ≤ fuel + 1 →
      Reader.value (fuel + 1) (spell sp level j ++ rest) = (j.toDraft, .ok rest)) :
    ReadsBack sp level j := by
  intro fuel rest hrest hfuel
  have hpos := List.length_pos_of_ne_nil hlen
  obtain ⟨fuel, rfl⟩ := Nat.exists_eq_succ_of_ne_zero (show fuel ≠ 0 by omega)
  exact h fuel rest hrest hfuel

theorem readsBack_null (sp : Spacing) (level : ℕ) : ReadsBack sp level .null := by
  refine readsBack_of_succ (by simp [spell]) fun fuel rest _ _ => ?_
  change Reader.value (fuel + 1) ('n' :: 'u' :: 'l' :: 'l' :: rest) = _
  rw [Reader.value]
  simp [skipBlanks, isBlank, Reader.word, toDraft]

theorem readsBack_bool (sp : Spacing) (level : ℕ) (b : Bool) : ReadsBack sp level (.bool b) := by
  cases b with
  | false =>
    refine readsBack_of_succ (by simp [spell]) fun fuel rest _ _ => ?_
    change Reader.value (fuel + 1) ('f' :: 'a' :: 'l' :: 's' :: 'e' :: rest) = _
    rw [Reader.value]
    simp [skipBlanks, isBlank, Reader.word, toDraft]
  | true =>
    refine readsBack_of_succ (by simp [spell]) fun fuel rest _ _ => ?_
    change Reader.value (fuel + 1) ('t' :: 'r' :: 'u' :: 'e' :: rest) = _
    rw [Reader.value]
    simp [skipBlanks, isBlank, Reader.word, toDraft]

theorem readsBack_str (sp : Spacing) (level : ℕ) (s : String) : ReadsBack sp level (.str s) := by
  refine readsBack_of_succ (by simp [spell, writeString]) fun fuel rest _ _ => ?_
  rw [spell, writeString, List.cons_append, List.append_assoc, List.singleton_append, Reader.value]
  simp [skipBlanks, isBlank, stringToken_eq, toDraft]

/-- A well-formed lexeme is read as the number it writes, up to where it ends. -/
theorem value_lexeme {l : Reader.Lexeme} (h : l.WellFormed) {rest : List Char}
    (hrest : EndsNumber rest) (fuel : ℕ) :
    Reader.value (fuel + 1) (l.text ++ rest) = (.number ⟨l.value, .ok ()⟩, .ok rest) := by
  obtain ⟨c, cs, hcs, hc⟩ := h.exists_digit
  obtain ⟨hb, hn, ht, hf, hq, hm, -⟩ := digit_ne hc
  have hread := Reader.unsignedNumber_eq h hrest
  rw [Reader.Lexeme.text, Reader.value]
  split_ifs with hneg
  · rw [hneg] at hread
    simp [skipBlanks, isBlank, hread, Reader.completeNumber]
  · rw [Bool.not_eq_true] at hneg
    rw [hneg, hcs, List.cons_append] at hread
    simp [skipBlanks, hcs, hb, hn, ht, hf, hq, hm, hc, hread, Reader.completeNumber]

theorem readsBack_num (sp : Spacing) (level : ℕ) {n : Number} (h : n.InRange) :
    ReadsBack sp level (.num n) := by
  obtain ⟨l, hwf, htext, hvalue⟩ := exists_lexeme h
  obtain ⟨c, cs, hcs, -⟩ := hwf.exists_digit
  have hspell : spell sp level (.num n) = l.text := by rw [spell, htext]
  refine readsBack_of_succ ?_ fun fuel rest hrest _ => ?_
  · rw [hspell, Reader.Lexeme.text]
    split_ifs <;> simp [hcs]
  · rw [hspell, value_lexeme hwf hrest, hvalue]
    rfl

section Nested

variable {sp : Spacing} {level : ℕ}

theorem items_succ {fuel : ℕ} {cs cs' : List Char} {d : Draft}
    (h : Reader.value fuel cs = (d, .ok cs')) :
    Reader.items (fuel + 1) cs = match skipBlanks cs' with
      | [] => ([d], .error .truncated)
      | c :: rest =>
        if c = ']' then ([d], .ok rest)
        else if c = ',' then (d :: (Reader.items fuel rest).1, (Reader.items fuel rest).2)
        else ([d], .error .malformed) := by
  have step := Reader.items.eq_2 cs fuel
  rw [h] at step
  exact step

/-- The items of an array are read one by one up to its bracket. -/
theorem items_spellItems {xs : List Json} : ∀ {x : Json},
    (∀ y ∈ x :: xs, y.InRange ∧ ReadsBack sp (level + 1) y) → ∀ {bs : List Char}, Blank bs →
      ∀ (fuel : ℕ) (rest : List Char), 2 * (spellItems sp level (x :: xs)).length ≤ fuel →
        Reader.items fuel (bs ++ (spellItems sp level (x :: xs) ++ rest)) =
          (toDraftItems (x :: xs), .ok rest) := by
  induction xs with
  | nil =>
    intro x h bs hbs fuel rest hfuel
    obtain ⟨hin, hx⟩ := h x List.mem_cons_self
    obtain ⟨c, cs, hcs, hc, -⟩ := spell_head sp (level + 1) hin
    simp only [spellItems, List.append_assoc, List.length_append, List.length_singleton] at hfuel ⊢
    obtain ⟨fuel, rfl⟩ := Nat.exists_eq_succ_of_ne_zero (show fuel ≠ 0 by omega)
    have hv := hx fuel (sp.close level ++ (']' :: rest))
      (endsNumber_blank (sp.close_blank level) (by decide) rest) (by omega)
    rw [hcs, List.cons_append, ← value_blank hbs hc, ← List.cons_append, ← hcs] at hv
    rw [Nat.succ_eq_add_one, List.singleton_append, items_succ hv,
      skipBlanks_append (sp.close_blank level) (by decide)]
    rfl
  | cons y xs ih =>
    intro x h bs hbs fuel rest hfuel
    obtain ⟨hin, hx⟩ := h x List.mem_cons_self
    obtain ⟨c, cs, hcs, hc, -⟩ := spell_head sp (level + 1) hin
    rw [spellItems] at hfuel ⊢
    simp only [List.append_assoc, List.length_append, List.length_cons, List.cons_append]
      at hfuel ⊢
    obtain ⟨fuel, rfl⟩ := Nat.exists_eq_succ_of_ne_zero (show fuel ≠ 0 by omega)
    have hv := hx fuel (',' :: (sp.item level ++ (spellItems sp level (y :: xs) ++ rest)))
      (Reader.endsNumber_cons (by decide) _) (by omega)
    have hrest := ih (fun z hz => h z (List.mem_cons_of_mem x hz)) (sp.item_blank level)
      fuel rest (by omega)
    rw [hcs, List.cons_append, ← value_blank hbs hc, ← List.cons_append, ← hcs] at hv
    rw [Nat.succ_eq_add_one, items_succ hv, ← List.nil_append (',' :: _),
      skipBlanks_append blank_nil (by decide)]
    simp [hrest, toDraftItems]

theorem member_succ {fuel : ℕ} {bs cs cs' : List Char} (hbs : Blank bs) (k : String) {d : Draft}
    (h : Reader.value fuel cs = (d, .ok cs')) :
    Reader.member (fuel + 1) (bs ++ (writeString k ++ ':' :: cs)) = ((.sound k, d), .ok cs') := by
  rw [Reader.member, writeString, List.cons_append, skipBlanks_append hbs (by decide)]
  simp [stringToken_eq, skipBlanks, isBlank, h]

theorem members_succ {fuel : ℕ} {cs cs' : List Char} {m : Token String × Draft}
    (h : Reader.member fuel cs = (m, .ok cs')) :
    Reader.members (fuel + 1) cs = match skipBlanks cs' with
      | [] => ([m], .error .truncated)
      | c :: rest =>
        if c = '}' then ([m], .ok rest)
        else if c = ',' then (m :: (Reader.members fuel rest).1, (Reader.members fuel rest).2)
        else ([m], .error .malformed) := by
  have step := Reader.members.eq_2 cs fuel
  rw [h] at step
  exact step

/-- The members of an object are read one by one up to its brace. -/
theorem members_spellMembers {ms : List (String × Json)} : ∀ {k : String} {v : Json},
    (∀ m ∈ (k, v) :: ms, m.2.InRange ∧ ReadsBack sp (level + 1) m.2) → ∀ {bs : List Char},
      Blank bs → ∀ (fuel : ℕ) (rest : List Char),
        2 * (spellMembers sp level ((k, v) :: ms)).length ≤ fuel →
          Reader.members fuel (bs ++ (spellMembers sp level ((k, v) :: ms) ++ rest)) =
            (toDraftMembers ((k, v) :: ms), .ok rest) := by
  induction ms with
  | nil =>
    intro k v h bs hbs fuel rest hfuel
    have hin : v.InRange := (h (k, v) List.mem_cons_self).1
    have hv : ReadsBack sp (level + 1) v := (h (k, v) List.mem_cons_self).2
    obtain ⟨c, cs, hcs, hc, -⟩ := spell_head sp (level + 1) hin
    simp only [spellMembers, List.append_assoc, List.length_append, List.length_cons, List.cons_append] at hfuel ⊢
    obtain ⟨fuel, rfl⟩ := Nat.exists_eq_add_of_le' (show 2 ≤ fuel by omega)
    have hread := hv fuel (sp.close level ++ ('}' :: rest))
      (endsNumber_blank (sp.close_blank level) (by decide) rest) (by omega)
    rw [hcs, List.cons_append, ← value_blank sp.colon_blank hc, ← List.cons_append, ← hcs] at hread
    rw [List.nil_append, members_succ (member_succ hbs k hread),
      skipBlanks_append (sp.close_blank level) (by decide)]
    rfl
  | cons m ms ih =>
    obtain ⟨k', v'⟩ := m
    intro k v h bs hbs fuel rest hfuel
    have hin : v.InRange := (h (k, v) List.mem_cons_self).1
    have hv : ReadsBack sp (level + 1) v := (h (k, v) List.mem_cons_self).2
    obtain ⟨c, cs, hcs, hc, -⟩ := spell_head sp (level + 1) hin
    rw [spellMembers] at hfuel ⊢
    simp only [List.append_assoc, List.length_append, List.length_cons, List.cons_append]
      at hfuel ⊢
    obtain ⟨fuel, rfl⟩ := Nat.exists_eq_add_of_le' (show 2 ≤ fuel by omega)
    have hread := hv fuel (',' :: (sp.item level ++ (spellMembers sp level ((k', v') :: ms) ++ rest)))
      (Reader.endsNumber_cons (by decide) _) (by omega)
    have hrest := ih (fun m' hm' => h m' (List.mem_cons_of_mem (k, v) hm')) (sp.item_blank level)
      (fuel + 1) rest (by omega)
    rw [hcs, List.cons_append, ← value_blank sp.colon_blank hc, ← List.cons_append, ← hcs] at hread
    rw [members_succ (member_succ hbs k hread), ← List.nil_append (',' :: _),
      skipBlanks_append blank_nil (by decide)]
    simp [hrest, toDraftMembers]

/-- An array with an item, read up to its bracket. -/
theorem value_array {fuel : ℕ} {c : Char} {cs cs' rest : List Char} {ds : List Draft}
    (hskip : skipBlanks cs = c :: cs') (hc : c ≠ ']')
    (h : Reader.items fuel (c :: cs') = (ds, .ok rest)) :
    Reader.value (fuel + 1) ('[' :: cs) = (.array ds (.ok ()), .ok rest) := by
  rw [Reader.value, skipBlanks, List.dropWhile_cons_of_neg (by decide)]
  simp only [hskip, show '['.isDigit = false by decide, Char.reduceEq, if_false, if_true,
    Bool.false_eq_true]
  split
  case h_1 heq => cases heq
  case h_2 after heq => exact absurd (List.cons.inj heq).1 hc
  case h_3 =>
    rw [h]
    rfl

/-- An object with a member, read up to its brace. -/
theorem value_object {fuel : ℕ} {c : Char} {cs cs' rest : List Char}
    {ds : List (Token String × Draft)} (hskip : skipBlanks cs = c :: cs') (hc : c ≠ '}')
    (h : Reader.members fuel (c :: cs') = (ds, .ok rest)) :
    Reader.value (fuel + 1) ('{' :: cs) = (.object ds (.ok ()), .ok rest) := by
  rw [Reader.value, skipBlanks, List.dropWhile_cons_of_neg (by decide)]
  simp only [hskip, show '{'.isDigit = false by decide, Char.reduceEq, if_false, if_true,
    Bool.false_eq_true]
  split
  case h_1 heq => cases heq
  case h_2 after heq => exact absurd (List.cons.inj heq).1 hc
  case h_3 =>
    rw [h]
    rfl

theorem readsBack_arr {xs : List Json}
    (h : ∀ x ∈ xs, x.InRange ∧ ReadsBack sp (level + 1) x) : ReadsBack sp level (.arr xs) := by
  cases xs with
  | nil =>
    refine readsBack_of_succ (by simp [spell]) fun fuel rest _ _ => ?_
    change Reader.value (fuel + 1) ('[' :: ']' :: rest) = _
    rw [Reader.value]
    simp [skipBlanks, isBlank, toDraft, toDraftItems]
  | cons x xs =>
    refine readsBack_of_succ (by simp [spell]) fun fuel rest _ hfuel => ?_
    obtain ⟨c, cs, hcs, hc, hclose⟩ := spell_head sp (level + 1) (h x List.mem_cons_self).1
    obtain ⟨tail, htail⟩ : ∃ tail, spellItems sp level (x :: xs) = c :: tail := by
      cases xs <;> rw [spellItems, hcs] <;> exact ⟨_, rfl⟩
    rw [spell, List.length_cons, List.length_append] at hfuel
    have hitems := items_spellItems h blank_nil fuel rest
      (show 2 * (spellItems sp level (x :: xs)).length ≤ fuel by omega)
    rw [List.nil_append, htail, List.cons_append] at hitems
    rw [spell, htail, List.cons_append, List.append_assoc, List.cons_append]
    exact value_array (skipBlanks_append (sp.item_blank level) hc _) hclose hitems

theorem readsBack_obj {ms : List (String × Json)}
    (h : ∀ m ∈ ms, m.2.InRange ∧ ReadsBack sp (level + 1) m.2) :
    ReadsBack sp level (.obj ms) := by
  cases ms with
  | nil =>
    refine readsBack_of_succ (by simp [spell]) fun fuel rest _ _ => ?_
    change Reader.value (fuel + 1) ('{' :: '}' :: rest) = _
    rw [Reader.value]
    simp [skipBlanks, isBlank, toDraft, toDraftMembers]
  | cons m ms =>
    obtain ⟨k, v⟩ := m
    refine readsBack_of_succ (by simp [spell]) fun fuel rest _ hfuel => ?_
    obtain ⟨tail, htail⟩ : ∃ tail, spellMembers sp level ((k, v) :: ms) = '"' :: tail := by
      cases ms <;> rw [spellMembers, writeString] <;> exact ⟨_, rfl⟩
    rw [spell, List.length_cons, List.length_append] at hfuel
    have hmembers := members_spellMembers h blank_nil fuel rest
      (show 2 * (spellMembers sp level ((k, v) :: ms)).length ≤ fuel by omega)
    rw [List.nil_append, htail, List.cons_append] at hmembers
    rw [spell, htail, List.cons_append, List.append_assoc, List.cons_append]
    exact value_object (skipBlanks_append (sp.item_blank level) (by decide) _) (by decide) hmembers

end Nested

/-- Every spelling of a value is read back as its draft. -/
theorem readsBack {j : Json} (h : j.InRange) (sp : Spacing) : ∀ level, ReadsBack sp level j := by
  induction j using induct with
  | null => exact readsBack_null sp
  | bool b => exact fun level => readsBack_bool sp level b
  | num n => exact fun level => readsBack_num sp level (by simpa [InRange] using h)
  | str s => exact fun level => readsBack_str sp level s
  | arr xs ih =>
    intro level
    rw [inRange_arr] at h
    exact readsBack_arr fun x hx => ⟨h x hx, ih x hx (h x hx) (level + 1)⟩
  | obj ms ih =>
    intro level
    rw [inRange_obj] at h
    exact readsBack_obj fun m hm => ⟨h m hm, ih m hm (h m hm) (level + 1)⟩

/-- A text that is read up to its end is read as what it writes. -/
theorem readWith_of_value {α : Type} (reader : Draft → Except Flaw α) {cs : List Char} {d : Draft}
    (h : Reader.value (2 * cs.length + 2) cs = (d, .ok [])) :
    readWith reader (String.ofList cs) = reader d := by
  rw [readWith, Draft.ofText, String.toList_ofList]
  dsimp only
  rw [h]
  cases reader d <;> rfl

/-- A whole text that spells a value is read as the draft of the value. -/
theorem readWith_spell {α : Type} (reader : Draft → Except Flaw α) {j : Json} (h : j.InRange)
    (sp : Spacing) : readWith reader (String.ofList (spell sp 0 j)) = reader j.toDraft := by
  have hread := readsBack h sp 0 (2 * (spell sp 0 j).length + 2) [] Reader.endsNumber_nil (by omega)
  rw [List.append_nil] at hread
  exact readWith_of_value reader hread

/-- A whole text that is a number is read as this number, in range or not. -/
theorem readWith_lexeme {α : Type} (reader : Draft → Except Flaw α) {l : Reader.Lexeme}
    (h : l.WellFormed) :
    readWith reader (String.ofList l.text) = reader (.number ⟨l.value, .ok ()⟩) := by
  have hread := value_lexeme h Reader.endsNumber_nil (2 * l.text.length + 1)
  rw [List.append_nil] at hread
  exact readWith_of_value reader hread

theorem readWith_pretty {α : Type} (reader : Draft → Except Flaw α) {j : Json} (h : j.InRange) :
    readWith reader j.pretty = reader j.toDraft := by
  rw [pretty, ← spell_pretty, readWith_spell reader h]

theorem readWith_compact {α : Type} (reader : Draft → Except Flaw α) {j : Json} (h : j.InRange) :
    readWith reader j.compact = reader j.toDraft := by
  rw [compact, ← spell_compact j 0, readWith_spell reader h]

end Verdict.Json
