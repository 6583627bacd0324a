/-
General: trimming a text of tokens. White space in a variable-length encoding is a code: a few short words, none of
which is a prefix or a suffix of another, and no inner symbol of which can be the first of one.

Results:
- `strip_word`, `stripEnd_word`: words of the code at an end do not matter;
- `trim_words`: nor do they on both sides, whatever is between them;
- `strip_append`, `stripEnd_append`: trimming does not go beyond a symbol that is in no token;
- `count_trim`: and takes none of these away.
-/
import Mathlib.Data.List.Infix

namespace Tokens

/-! ## Codes -/

variable {α : Type*} (code : List (List α))

inductive Word : List α → Prop where
  | nil : Word []
  | cons {t w : List α} (ht : t ∈ code) (hw : Word w) : Word (t ++ w)

/-- tokens are not empty, and none begins with another -/
structure PrefixFree : Prop where
  ne_nil : ∀ t ∈ code, t ≠ []
  prefix_eq : ∀ s ∈ code, ∀ t ∈ code, s <+: t → s = t

/-- tokens can be told from either end, and where one begins -/
structure Lawful : Prop where
  front : PrefixFree code
  back : PrefixFree (code.map List.reverse)
  sync : ∀ t ∈ code, ∀ b ∈ t.tail, ∀ s ∈ code, s.head? ≠ some b

/-- a symbol of no token -/
def Solid (b : α) : Prop := ∀ t ∈ code, b ∉ t

variable {code}

theorem Word.single {t : List α} (ht : t ∈ code) : Word code t := by
  have h := Word.cons ht Word.nil
  rwa [List.append_nil] at h

theorem Word.append {v w : List α} (hv : Word code v) (hw : Word code w) : Word code (v ++ w) := by
  induction hv with
  | nil => exact hw
  | cons ht _ ih =>
    rw [List.append_assoc]
    exact Word.cons ht ih

theorem Word.reverse {w : List α} (hw : Word code w) : Word (code.map List.reverse) w.reverse := by
  induction hw with
  | nil => exact Word.nil
  | cons ht _ ih =>
    rw [List.reverse_append]
    exact ih.append (Word.single (List.mem_map_of_mem ht))

theorem map_reverse_reverse : (code.map List.reverse).map List.reverse = code := by
  rw [List.map_map, List.reverse_involutive.comp_self, List.map_id]

/-- the symbols of a word are those of tokens -/
theorem Word.mem {w : List α} (hw : Word code w) {b : α} (hb : b ∈ w) : ∃ t ∈ code, b ∈ t := by
  induction hw with
  | nil => cases hb
  | cons ht _ ih =>
    rcases List.mem_append.1 hb with hb | hb
    · exact ⟨_, ht, hb⟩
    · exact ih hb

theorem Word.head {w : List α} (hc : PrefixFree code) (hw : Word code w) {b : α} (hb : w.head? = some b) :
    ∃ t ∈ code, t.head? = some b := by
  cases hw with
  | nil => cases hb
  | cons ht hw =>
    obtain ⟨a, as, rfl⟩ := List.exists_cons_of_ne_nil (hc.ne_nil _ ht)
    exact ⟨_, ht, hb⟩

/-- a token at the front of two texts is at the front of the first, or goes into the second -/
theorem prefix_append_cases {t x y : List α} (h : t <+: x ++ y) : t <+: x ∨ ∃ s, s ≠ [] ∧ s <+: y ∧ t = x ++ s := by
  rcases List.prefix_or_prefix_of_prefix h (List.prefix_append x y) with htx | ⟨s, rfl⟩
  · exact Or.inl htx
  · by_cases hs : s = []
    · subst hs
      exact Or.inl (by rw [List.append_nil])
    · exact Or.inr ⟨s, hs, (List.prefix_append_right_inj x).1 h, rfl⟩

/-! ## Stripping and trimming -/

section Strip

variable [DecidableEq α] (code)

/-- the length of the token at the front, or 0 -/
def tokenLength (b : List α) : ℕ := ((code.find? fun t => t.isPrefixOf b).map List.length).getD 0

/-- skips so many symbols, and then the tokens at the front -/
def stripFrom : ℕ → List α → List α
  | _, [] => []
  | k + 1, _ :: rest => stripFrom k rest
  | 0, b :: rest =>
    match tokenLength code (b :: rest) with
    | 0 => b :: rest
    | n + 1 => stripFrom n rest

def strip (b : List α) : List α := stripFrom code 0 b

def stripEnd (b : List α) : List α := (strip (code.map List.reverse) b.reverse).reverse

def trim (b : List α) : List α := stripEnd code (strip code b)

end Strip

variable [DecidableEq α]

/-! ## The front -/

theorem stripFrom_eq (k : ℕ) (b : List α) : stripFrom code k b = strip code (b.drop k) := by
  induction b generalizing k with
  | nil =>
    rw [List.drop_nil]
    cases k <;> rfl
  | cons c b ih =>
    cases k with
    | zero => rfl
    | succ k => exact ih k

theorem strip_eq_self {b : List α} (h : ∀ t ∈ code, ¬ t <+: b) : strip code b = b := by
  cases b with
  | nil => rfl
  | cons c b =>
    have hnone : (code.find? fun t => t.isPrefixOf (c :: b)) = none := by
      rw [List.find?_eq_none]
      intro t ht
      rw [List.isPrefixOf_iff_prefix]
      exact h t ht
    rw [strip, stripFrom, tokenLength, hnone]
    rfl

theorem tokenLength_token (hc : PrefixFree code) {t : List α} (ht : t ∈ code) (x : List α) :
    tokenLength code (t ++ x) = t.length := by
  unfold tokenLength
  cases hfind : code.find? fun s => s.isPrefixOf (t ++ x) with
  | none =>
    have hnot := List.find?_eq_none.1 hfind t ht
    rw [List.isPrefixOf_iff_prefix] at hnot
    exact absurd (List.prefix_append t x) hnot
  | some s =>
    have hs : s <+: t ++ x := by
      have hfound := List.find?_some hfind
      exact List.isPrefixOf_iff_prefix.1 hfound
    have hmem := List.mem_of_find?_eq_some hfind
    have hst : s = t := by
      rcases List.prefix_or_prefix_of_prefix hs (List.prefix_append t x) with h | h
      · exact hc.prefix_eq s hmem t ht h
      · exact (hc.prefix_eq t ht s hmem h).symm
    rw [hst]
    rfl

theorem strip_token (hc : PrefixFree code) {t : List α} (ht : t ∈ code) (x : List α) :
    strip code (t ++ x) = strip code x := by
  have hlen := tokenLength_token hc ht x
  obtain ⟨c, t, rfl⟩ := List.exists_cons_of_ne_nil (hc.ne_nil t ht)
  rw [strip, List.cons_append, stripFrom, ← List.cons_append, hlen]
  change stripFrom code t.length (t ++ x) = _
  rw [stripFrom_eq, List.drop_left]

/-- a word at the front does not matter -/
theorem strip_word (hc : PrefixFree code) {w : List α} (hw : Word code w) (x : List α) :
    strip code (w ++ x) = strip code x := by
  induction hw with
  | nil => rfl
  | cons ht _ ih => rw [List.append_assoc, strip_token hc ht, ih]

/-- a text is a word and what is left of it, which begins with no token -/
theorem strip_spec (hc : PrefixFree code) (b : List α) :
    (∃ w, Word code w ∧ b = w ++ strip code b) ∧ ∀ t ∈ code, ¬ t <+: strip code b := by
  induction hn : b.length using Nat.strong_induction_on generalizing b with
  | _ n ih =>
    by_cases h : ∃ t ∈ code, t <+: b
    · obtain ⟨t, ht, x, rfl⟩ := h
      have hpos := List.length_pos_iff.2 (hc.ne_nil t ht)
      rw [List.length_append] at hn
      obtain ⟨⟨w, hw, hx⟩, hnone⟩ := ih x.length (by omega) x rfl
      rw [strip_token hc ht]
      refine ⟨⟨t ++ w, Word.cons ht hw, ?_⟩, hnone⟩
      rw [List.append_assoc, ← hx]
    · push Not at h
      rw [strip_eq_self h]
      exact ⟨⟨[], Word.nil, rfl⟩, h⟩

theorem strip_of_word (hc : PrefixFree code) {w : List α} (hw : Word code w) : strip code w = [] := by
  have h := strip_word hc hw []
  rwa [List.append_nil] at h

/-- stripping stops before a symbol of no token -/
theorem strip_append (hc : PrefixFree code) {y : List α} (hy : ∀ b ∈ y.head?, Solid code b) (x : List α) :
    strip code (x ++ y) = strip code x ++ y := by
  obtain ⟨⟨w, hw, hx⟩, hnone⟩ := strip_spec hc x
  have hself : strip code (strip code x ++ y) = strip code x ++ y := by
    apply strip_eq_self
    intro t ht hpre
    rcases prefix_append_cases hpre with htx | ⟨s, hs, hsy, rfl⟩
    · exact hnone t ht htx
    · obtain ⟨b, s, rfl⟩ := List.exists_cons_of_ne_nil hs
      obtain ⟨z, rfl⟩ := hsy
      exact hy b rfl _ ht (by simp)
  calc strip code (x ++ y) = strip code (w ++ (strip code x ++ y)) := by rw [← List.append_assoc, ← hx]
    _ = strip code (strip code x ++ y) := strip_word hc hw _
    _ = strip code x ++ y := hself

/-! ## The end -/

theorem stripEnd_word (hc : Lawful code) {w : List α} (hw : Word code w) (x : List α) :
    stripEnd code (x ++ w) = stripEnd code x := by
  rw [stripEnd, List.reverse_append, strip_word hc.back hw.reverse, stripEnd]

theorem stripEnd_spec (hc : Lawful code) (b : List α) : ∃ w, Word code w ∧ b = stripEnd code b ++ w := by
  obtain ⟨⟨w, hw, hb⟩, _⟩ := strip_spec hc.back b.reverse
  refine ⟨w.reverse, ?_, ?_⟩
  · have hword := hw.reverse
    rwa [map_reverse_reverse] at hword
  · have hrev := congrArg List.reverse hb
    rwa [List.reverse_reverse, List.reverse_append] at hrev

/-- stripping the end stops after a symbol of no token -/
theorem stripEnd_append (hc : Lawful code) {x : List α} (hx : ∀ b ∈ x.getLast?, Solid code b) (y : List α) :
    stripEnd code (x ++ y) = x ++ stripEnd code y := by
  have hsolid : ∀ b ∈ x.reverse.head?, Solid (code.map List.reverse) b := by
    intro b hb t ht
    obtain ⟨s, hs, rfl⟩ := List.mem_map.1 ht
    rw [List.mem_reverse]
    rw [List.head?_reverse] at hb
    exact hx b hb s hs
  rw [stripEnd, List.reverse_append, strip_append hc.back hsolid, List.reverse_append, List.reverse_reverse, stripEnd]

/-! ## Both ends -/

theorem trim_spec (hc : Lawful code) (b : List α) :
    ∃ v w, Word code v ∧ Word code w ∧ b = v ++ trim code b ++ w := by
  obtain ⟨⟨v, hv, hb⟩, _⟩ := strip_spec hc.front b
  obtain ⟨w, hw, hend⟩ := stripEnd_spec hc (strip code b)
  refine ⟨v, w, hv, hw, ?_⟩
  rw [trim, List.append_assoc, ← hend, ← hb]

theorem trim_head (hc : Lawful code) (b : List α) : ∀ t ∈ code, ¬ t <+: trim code b := by
  intro t ht hpre
  obtain ⟨w, _, hend⟩ := stripEnd_spec hc (strip code b)
  have hfront : trim code b <+: strip code b := ⟨w, hend.symm⟩
  exact (strip_spec hc.front b).2 t ht (hpre.trans hfront)

/-- a word after a text matters to the front only where nothing else is left -/
theorem strip_append_word (hc : Lawful code) {w : List α} (hw : Word code w) {x : List α} (hx : strip code x ≠ []) :
    strip code (x ++ w) = strip code x ++ w := by
  obtain ⟨⟨v, hv, hvx⟩, hnone⟩ := strip_spec hc.front x
  have hself : strip code (strip code x ++ w) = strip code x ++ w := by
    apply strip_eq_self
    intro t ht hpre
    rcases prefix_append_cases hpre with htx | ⟨s, hs, hsw, rfl⟩
    · exact hnone t ht htx
    · -- the token would go on with the first symbol of another
      obtain ⟨b, s, rfl⟩ := List.exists_cons_of_ne_nil hs
      obtain ⟨z, rfl⟩ := hsw
      obtain ⟨s', hs', hhead⟩ := hw.head hc.front rfl
      obtain ⟨a, as, hcons⟩ := List.exists_cons_of_ne_nil hx
      rw [hcons] at ht
      exact hc.sync _ ht b (by simp) s' hs' hhead
  calc strip code (x ++ w) = strip code (v ++ (strip code x ++ w)) := by rw [← List.append_assoc, ← hvx]
    _ = strip code (strip code x ++ w) := strip_word hc.front hv _
    _ = strip code x ++ w := hself

/-- words around a text do not matter -/
theorem trim_words (hc : Lawful code) {v w : List α} (hv : Word code v) (hw : Word code w) (x : List α) :
    trim code (v ++ x ++ w) = trim code x := by
  rw [trim, List.append_assoc, strip_word hc.front hv]
  by_cases hx : strip code x = []
  · obtain ⟨⟨u, hu, hux⟩, _⟩ := strip_spec hc.front x
    rw [hx, List.append_nil] at hux
    rw [hux, strip_word hc.front hu, strip_of_word hc.front hw, trim, strip_of_word hc.front hu]
  · rw [strip_append_word hc hw hx, stripEnd_word hc hw, trim]

/-- symbols of no token are kept -/
theorem count_trim (hc : Lawful code) {c : α} (h : Solid code c) (b : List α) : (trim code b).count c = b.count c := by
  obtain ⟨v, w, hv, hw, hb⟩ := trim_spec hc b
  have hnone : ∀ u, Word code u → u.count c = 0 := by
    intro u hu
    rw [List.count_eq_zero]
    intro hmem
    obtain ⟨t, ht, hct⟩ := hu.mem hmem
    exact h t ht hct
  have hcount := congrArg (List.count c) hb
  rw [List.count_append, List.count_append, hnone v hv, hnone w hw] at hcount
  omega

end Tokens
