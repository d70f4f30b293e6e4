import Verdict.Proofs.Json.Induction
import Verdict.Proofs.Json.Number
import Verdict.Proofs.Table

/-!
# Texts read back

A text is spelled with some choice of blanks; the compact and the pretty form are two of them.
Whatever the choice, reading the text of a value gives the draft of the value and stops where the text
does.
-/

namespace Verdict.Json

open Reader (EndsNumber)

/-! ## Strings -/

theorem hexQuad?_hexPadded : ∀ n < 0x20, (match Text.hexPadded 4 n with
    | [a, b, c, d] => Text.hexQuad? a b c d
    | _ => none) = some n := by decide

theorem shortEscape?_letterEscapes :
    ∀ e ∈ letterEscapes, e.2 ≠ 'u' ∧ Reader.shortEscape? e.2 = some e.1 := by decide

section String

variable (paired : Bool) (soFar : Reader.SoFar) (rest : List Char)

theorem string_quote : Reader.string paired soFar ('"' :: rest) =
    (soFar.map fun cs => String.ofList cs.reverse, .ok rest) := by
  rw [Reader.string.eq_def]
  simp

theorem string_plain {c : Char} (hquote : c ≠ '"') (hslash : c ≠ '\\') (hc : ¬c.toNat < 0x20) :
    Reader.string paired soFar (c :: rest) = Reader.string false (soFar.push c) rest := by
  rw [Reader.string.eq_def]
  simp [hquote, hslash, hc]

theorem string_short {e c : Char} (hu : e ≠ 'u') (h : Reader.shortEscape? e = some c) :
    Reader.string paired soFar ('\\' :: e :: rest) =
      Reader.string false (soFar.push c) rest := by
  rw [Reader.string.eq_def]
  simp [hu, h]

/-- Four digits of a character that is no surrogate are read as the character. -/
theorem string_quad {a b c d : Char} {n : ℕ} (h : Text.hexQuad? a b c d = some n) (hn : n < 0x20) :
    Reader.string false soFar ('\\' :: 'u' :: a :: b :: c :: d :: rest) =
      Reader.string false (soFar.push (Char.ofNat n)) rest := by
  have hlow : Reader.isLowSurrogate n = false := by
    simp [Reader.isLowSurrogate]
    omega
  have hhigh : Reader.isHighSurrogate n = false := by
    simp [Reader.isHighSurrogate]
    omega
  rw [Reader.string.eq_def]
  simp [h, hlow, hhigh]

/-- An escaped character is read as itself. -/
theorem string_escapeChar (c : Char) :
    Reader.string false soFar (escapeChar c ++ rest) = Reader.string false (soFar.push c) rest := by
  unfold escapeChar
  cases hl : letterEscapes.lookup c with
  | some letter =>
    obtain ⟨hu, hshort⟩ := shortEscape?_letterEscapes _ (Table.mem_entries_of_find? (t := ⟨_⟩) hl)
    exact string_short false soFar rest hu hshort
  | none =>
    dsimp only
    split_ifs with hc
    · have hquad := hexQuad?_hexPadded c.toNat hc
      split at hquad
      case h_1 a b c' d heq =>
        rw [heq]
        exact (string_quad soFar rest hquad hc).trans (by rw [Char.ofNat_toNat])
      case h_2 => cases hquad
    · have hquote : c ≠ '"' := by
        rintro rfl
        simp [letterEscapes] at hl
      have hslash : c ≠ '\\' := by
        rintro rfl
        simp [letterEscapes] at hl
      exact string_plain false soFar rest hquote hslash hc

end String

theorem string_flatMap_escapeChar (cs soFar rest : List Char) :
    Reader.string false (.ok soFar) (cs.flatMap escapeChar ++ '"' :: rest) =
      (.ok (String.ofList (soFar.reverse ++ cs)), .ok rest) := by
  induction cs generalizing soFar with
  | nil =>
    rw [List.flatMap_nil, List.nil_append, string_quote, List.append_nil]
    rfl
  | cons c cs ih =>
    rw [List.flatMap_cons, List.append_assoc, string_escapeChar]
    change Reader.string false (.ok (c :: soFar)) _ = _
    rw [ih, List.reverse_cons, List.append_assoc, List.singleton_append]

/-- A string is read back from its text. -/
theorem stringToken_eq (s : String) (rest : List Char) :
    Reader.stringToken (s.toList.flatMap escapeChar ++ '"' :: rest) = (.sound s, .ok rest) := by
  rw [Reader.stringToken, string_flatMap_escapeChar]
  simp [Except.map, Token.sound]

/-! ## Spellings -/

/-- The blanks that a spelling of a value puts between its parts, by level. -/
structure Spacing where
  /-- Before an item or a member. -/
  item : ℕ → List Char
  /-- Before a closing bracket or brace. -/
  close : ℕ → List Char
  /-- Between a colon and its value. -/
  colon : List Char
  item_blank : ∀ level, ∀ c ∈ item level, isBlank c = true
  close_blank : ∀ level, ∀ c ∈ close level, isBlank c = true
  colon_blank : ∀ c ∈ colon, isBlank c = true

/-- No blanks at all. -/
def Spacing.compact : Spacing where
  item _ := []
  close _ := []
  colon := []
  item_blank := by simp
  close_blank := by simp
  colon_blank := by simp

theorem isBlank_of_mem_lineBreak {level : ℕ} {c : Char} (h : c ∈ lineBreak level) :
    isBlank c = true := by
  rcases List.mem_cons.mp h with rfl | h
  · rfl
  · rw [List.eq_of_mem_replicate h]
    rfl

/-- A new line for every item and member, and a blank after every colon. -/
def Spacing.pretty : Spacing where
  item level := lineBreak (level + 1)
  close level := lineBreak level
  colon := [' ']
  item_blank := fun _ _ => isBlank_of_mem_lineBreak
  close_blank := fun _ _ => isBlank_of_mem_lineBreak
  colon_blank := by
    intro c hc
    rw [List.mem_singleton.mp hc]
    rfl

mutual
/-- A value that starts at the given level, spelled with the given blanks. -/
def spell (sp : Spacing) (level : ℕ) : Json → List Char
  | .null => "null".toList
  | .bool true => "true".toList
  | .bool false => "false".toList
  | .num n => writeNumber n
  | .str s => writeString s
  | .arr [] => ['[', ']']
  | .arr (x :: xs) => '[' :: (sp.item level ++ spellItems sp level (x :: xs))
  | .obj [] => ['{', '}']
  | .obj (m :: ms) => '{' :: (sp.item level ++ spellMembers sp level (m :: ms))

/-- One item or more, and the closing bracket. -/
def spellItems (sp : Spacing) (level : ℕ) : List Json → List Char
  | [] => []
  | [x] => spell sp (level + 1) x ++ (sp.close level ++ [']'])
  | x :: y :: xs => spell sp (level + 1) x ++ ',' :: (sp.item level ++ spellItems sp level (y :: xs))

/-- One member or more, and the closing brace. -/
def spellMembers (sp : Spacing) (level : ℕ) : List (String × Json) → List Char
  | [] => []
  | [(k, v)] => writeString k ++ ':' :: (sp.colon ++ (spell sp (level + 1) v ++
      (sp.close level ++ ['}'])))
  | (k, v) :: m :: ms => writeString k ++ ':' :: (sp.colon ++ (spell sp (level + 1) v ++
      ',' :: (sp.item level ++ spellMembers sp level (m :: ms))))
end

theorem spellItems_compact {level : ℕ} {xs : List Json}
    (h : ∀ x ∈ xs, spell .compact (level + 1) x = write x) :
    ∀ x, spell .compact (level + 1) x = write x →
      spellItems .compact level (x :: xs) = write x ++ writeMoreItems xs := by
  induction xs with
  | nil =>
    intro x hx
    rw [spellItems, hx]
    rfl
  | cons y ys ih =>
    intro x hx
    rw [spellItems, hx, ih (fun z hz => h z (List.mem_cons_of_mem y hz)) y
      (h y List.mem_cons_self)]
    rfl

theorem spellMembers_compact {level : ℕ} {ms : List (String × Json)}
    (h : ∀ m ∈ ms, spell .compact (level + 1) m.2 = write m.2) :
    ∀ k v, spell .compact (level + 1) v = write v →
      spellMembers .compact level ((k, v) :: ms) =
        writeString k ++ ':' :: (write v ++ writeMoreMembers ms) := by
  induction ms with
  | nil =>
    intro k v hv
    rw [spellMembers, hv]
    rfl
  | cons m ms ih =>
    obtain ⟨k', v'⟩ := m
    intro k v hv
    rw [spellMembers, hv, ih (fun m hm => h m (List.mem_cons_of_mem _ hm)) k' v'
      (h (k', v') List.mem_cons_self)]
    rfl

/-- The compact form is spelled without blanks. -/
theorem spell_compact (j : Json) : ∀ level, spell .compact level j = write j := by
  induction j using induct with
  | null => exact fun _ => rfl
  | bool b => cases b <;> exact fun _ => rfl
  | num n => exact fun _ => rfl
  | str s => exact fun _ => rfl
  | arr xs ih =>
    intro level
    cases xs with
    | nil => rfl
    | cons x xs =>
      have hx := ih x List.mem_cons_self (level + 1)
      rw [spell, write, writeItems, spellItems_compact (fun y hy =>
        ih y (List.mem_cons_of_mem x hy) (level + 1)) x hx]
      rfl
  | obj ms ih =>
    intro level
    cases ms with
    | nil => rfl
    | cons m ms =>
      have hm := ih m List.mem_cons_self (level + 1)
      rw [spell, spellMembers_compact (fun m' hm' =>
        ih m' (List.mem_cons_of_mem m hm') (level + 1)) m.1 m.2 hm]
      rfl

theorem spellItems_pretty {level : ℕ} {xs : List Json}
    (h : ∀ x ∈ xs, spell .pretty (level + 1) x = writePretty (level + 1) x) :
    ∀ x, spell .pretty (level + 1) x = writePretty (level + 1) x →
      spellItems .pretty level (x :: xs) =
        writePretty (level + 1) x ++ writePrettyItems level xs := by
  induction xs with
  | nil =>
    intro x hx
    rw [spellItems, hx]
    rfl
  | cons y ys ih =>
    intro x hx
    rw [spellItems, hx, ih (fun z hz => h z (List.mem_cons_of_mem y hz)) y
      (h y List.mem_cons_self), writePrettyItems, List.append_assoc]
    rfl

theorem spellMembers_pretty {level : ℕ} {ms : List (String × Json)}
    (h : ∀ m ∈ ms, spell .pretty (level + 1) m.2 = writePretty (level + 1) m.2) :
    ∀ k v, spell .pretty (level + 1) v = writePretty (level + 1) v →
      spellMembers .pretty level ((k, v) :: ms) =
        writeString k ++ ':' :: ' ' :: (writePretty (level + 1) v ++
          writePrettyMembers level ms) := by
  induction ms with
  | nil =>
    intro k v hv
    rw [spellMembers, hv]
    rfl
  | cons m ms ih =>
    obtain ⟨k', v'⟩ := m
    intro k v hv
    rw [spellMembers, hv, ih (fun m hm => h m (List.mem_cons_of_mem _ hm)) k' v'
      (h (k', v') List.mem_cons_self), writePrettyMembers]
    simp [Spacing.pretty]

/-- The pretty form is spelled with lines and indents. -/
theorem spell_pretty (j : Json) : ∀ level, spell .pretty level j = writePretty level j := by
  induction j using induct with
  | null => exact fun _ => rfl
  | bool b => cases b <;> exact fun _ => rfl
  | num n => exact fun _ => rfl
  | str s => exact fun _ => rfl
  | arr xs ih =>
    intro level
    cases xs with
    | nil => rfl
    | cons x xs =>
      have hx := ih x List.mem_cons_self (level + 1)
      rw [spell, writePretty, spellItems_pretty (fun y hy =>
        ih y (List.mem_cons_of_mem x hy) (level + 1)) x hx, List.append_assoc]
      rfl
  | obj ms ih =>
    intro level
    cases ms with
    | nil => rfl
    | cons m ms =>
      have hm := ih m List.mem_cons_self (level + 1)
      rw [spell, spellMembers_pretty (fun m' hm' =>
        ih m' (List.mem_cons_of_mem m hm') (level + 1)) m.1 m.2 hm, writePretty]
      simp [Spacing.pretty]

end Verdict.Json
