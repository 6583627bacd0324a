/-
Lines of text: trimming, and the pattern of a structured field.

What is white space, what may stand in a key and what ends a value depends on the language; here they are predicates on
characters. The pattern is that of `^(start key*) blank* sep blank* (non-stop+)$`. Its reading is greedy, which is the
only one when keys, blanks and separators are apart.

Results:
- `trim_eq_self_iff`: a text is its own trim when it neither begins nor ends with white space;
- `trim_congr`, `read_congr`: two languages trim and read a text alike when they agree on its characters;
- `read_join`: two lines make a field together exactly when the first is a key and a separator, and the second a value;
  no more than two lines ever do.
-/
import Mathlib.Data.List.Infix
import Mathlib.Data.List.TakeWhile

namespace LineText

/-! ## Trimming -/

section Trim

variable (space : Char → Bool)

def trim (cs : List Char) : List Char := ((cs.dropWhile space).reverse.dropWhile space).reverse

/-- neither the first nor the last character is white space -/
def Trimmed (cs : List Char) : Prop := (∀ c ∈ cs.head?, space c = false) ∧ ∀ c ∈ cs.getLast?, space c = false

variable {space}

theorem dropWhile_eq_self {cs : List Char} (h : ∀ c ∈ cs.head?, space c = false) : cs.dropWhile space = cs := by
  cases cs with
  | nil => rfl
  | cons c cs => exact List.dropWhile_cons_of_neg (by simp [h c rfl])

theorem head_dropWhile (cs : List Char) : ∀ c ∈ (cs.dropWhile space).head?, space c = false := by
  intro c hc
  cases hdrop : cs.dropWhile space with
  | nil =>
    rw [hdrop] at hc
    cases hc
  | cons d ds =>
    rw [hdrop] at hc
    cases hc
    have hne : cs.dropWhile space ≠ [] := by
      rw [hdrop]
      exact List.cons_ne_nil _ _
    have hfirst := List.head_dropWhile_not space hne
    simp only [hdrop, List.head_cons] at hfirst
    exact hfirst

theorem dropWhile_congr {p q : Char → Bool} {cs : List Char} (h : ∀ c ∈ cs, p c = q c) :
    cs.dropWhile p = cs.dropWhile q := by
  induction cs with
  | nil => rfl
  | cons c cs ih =>
    rw [List.dropWhile_cons, List.dropWhile_cons, h c List.mem_cons_self, ih fun d hd => h d (List.mem_cons_of_mem c hd)]

/-- two notions of white space trim alike a text on whose characters they agree -/
theorem trim_congr {p q : Char → Bool} {cs : List Char} (h : ∀ c ∈ cs, p c = q c) : trim p cs = trim q cs := by
  have hrest : ∀ c ∈ (cs.dropWhile q).reverse, p c = q c := fun c hc =>
    h c ((List.dropWhile_sublist q).subset (List.mem_reverse.mp hc))
  rw [trim, dropWhile_congr h, dropWhile_congr hrest, trim]

theorem length_trim_le (cs : List Char) : (trim space cs).length ≤ cs.length := by
  have h1 := (List.dropWhile_sublist space (l := cs)).length_le
  have h2 := (List.dropWhile_sublist space (l := (cs.dropWhile space).reverse)).length_le
  simp only [trim, List.length_reverse] at h2 ⊢
  omega

/-- trimming takes nothing away or makes the text shorter -/
theorem trim_eq_self_of_length {cs : List Char} (h : cs.length ≤ (trim space cs).length) : trim space cs = cs := by
  have h1 := List.dropWhile_suffix space (l := cs)
  have h2 := List.dropWhile_suffix space (l := (cs.dropWhile space).reverse)
  have hlen2 := h2.length_le
  simp only [trim, List.length_reverse] at h hlen2
  have hfirst : cs.dropWhile space = cs := h1.eq_of_length_le (by omega)
  rw [hfirst] at h2 hlen2 h
  have hlast : cs.reverse.dropWhile space = cs.reverse := h2.eq_of_length_le (by rw [List.length_reverse]; omega)
  rw [trim, hfirst, hlast, List.reverse_reverse]

theorem trimmed_trim (cs : List Char) : Trimmed space (trim space cs) := by
  constructor
  · intro c hc
    -- what is left begins as the text without its leading white space does
    have hprefix : trim space cs <+: cs.dropWhile space := by
      have hsuffix := List.dropWhile_suffix space (l := (cs.dropWhile space).reverse)
      have hrev := List.reverse_prefix.mpr hsuffix
      rwa [List.reverse_reverse] at hrev
    obtain ⟨rest, hrest⟩ := hprefix
    refine head_dropWhile cs c ?_
    rw [← hrest]
    cases htrim : trim space cs with
    | nil =>
      rw [htrim] at hc
      cases hc
    | cons d ds =>
      rw [htrim] at hc
      exact hc
  · intro c hc
    rw [trim, List.getLast?_reverse] at hc
    exact head_dropWhile _ c hc

theorem trim_eq_self {cs : List Char} (h : Trimmed space cs) : trim space cs = cs := by
  rw [trim, dropWhile_eq_self h.1, dropWhile_eq_self (by rw [List.head?_reverse]; exact h.2), List.reverse_reverse]

theorem trim_eq_self_iff {cs : List Char} : trim space cs = cs ↔ Trimmed space cs :=
  ⟨fun h => h ▸ trimmed_trim cs, trim_eq_self⟩

theorem trim_eq_nil_iff {cs : List Char} : trim space cs = [] ↔ ∀ c ∈ cs, space c = true := by
  constructor
  · intro h c hc
    rw [trim, List.reverse_eq_nil_iff, List.dropWhile_eq_nil_iff] at h
    by_contra hne
    have hmem : c ∈ cs.dropWhile space := by
      rw [← List.takeWhile_append_dropWhile (p := space) (l := cs)] at hc
      rcases List.mem_append.mp hc with hc | hc
      · exact absurd (List.mem_takeWhile_imp hc) hne
      · exact hc
    exact hne (h c (List.mem_reverse.mpr hmem))
  · intro h
    rw [trim, List.dropWhile_eq_nil_iff.mpr h]
    rfl

/-- texts put together, the outer ends of which are no white space -/
theorem Trimmed.append {a b : List Char} (ha : Trimmed space a) (hb : Trimmed space b) (hane : a ≠ []) (hbne : b ≠ [])
    (mid : List Char) : Trimmed space (a ++ mid ++ b) := by
  obtain ⟨x, xs, rfl⟩ := List.exists_cons_of_ne_nil hane
  refine ⟨ha.1, fun c hc => hb.2 c ?_⟩
  rwa [List.getLast?_append_of_ne_nil _ hbne] at hc

end Trim

/-! ## Structured fields -/

/-- the character classes of the pattern -/
structure Pattern where
  start : Char → Bool
  key : Char → Bool
  blank : Char → Bool
  sep : Char → Bool
  stop : Char → Bool

/-- keys, blanks and separators are apart, and a newline is a blank that ends a value -/
structure Pattern.Lawful (p : Pattern) : Prop where
  start_blank : ∀ c, p.start c = true → p.blank c = false
  start_sep : ∀ c, p.start c = true → p.sep c = false
  newline_key : p.key '\n' = false
  newline_blank : p.blank '\n' = true
  newline_stop : p.stop '\n' = true

namespace Pattern

variable (p : Pattern)

/-- a value: what is left after the blanks, if it holds no stop -/
def value (cs : List Char) : Option (List Char) :=
  let v := cs.dropWhile p.blank
  if v ≠ [] ∧ v.all (fun c => ! p.stop c) then some v else none

/-- what comes after the key and the blanks -/
def afterKey (cs : List Char) : List Char := (cs.dropWhile p.key).dropWhile p.blank

/-- the key and the value of a text -/
def read : List Char → Option (List Char × List Char)
  | [] => none
  | c :: cs =>
    if p.start c then
      match p.afterKey cs with
      | [] => none
      | s :: rest => if p.sep s then (p.value rest).map fun v => (c :: cs.takeWhile p.key, v) else none
    else none

/-- a key and a separator, with nothing but blanks after it -/
def opens : List Char → Bool
  | [] => false
  | c :: cs =>
    p.start c &&
      match p.afterKey cs with
      | [] => false
      | s :: rest => p.sep s && rest.all p.blank

variable {p}

/-- two patterns read alike a text on whose characters they agree -/
theorem read_congr {p q : Pattern} {cs : List Char} (hstart : p.start = q.start) (hkey : p.key = q.key)
    (hsep : p.sep = q.sep) (hblank : ∀ c ∈ cs, p.blank c = q.blank c) (hstop : ∀ c ∈ cs, p.stop c = q.stop c) :
    p.read cs = q.read cs := by
  have hvalue : ∀ ds : List Char, ds ⊆ cs → p.value ds = q.value ds := by
    intro ds hds
    have hdrop : ds.dropWhile p.blank = ds.dropWhile q.blank := dropWhile_congr fun c hc => hblank c (hds hc)
    have hall : (ds.dropWhile q.blank).all (fun c => ! p.stop c) = (ds.dropWhile q.blank).all fun c => ! q.stop c := by
      rw [Bool.eq_iff_iff, List.all_eq_true, List.all_eq_true]
      refine forall₂_congr fun c hc => ?_
      rw [hstop c (hds ((List.dropWhile_sublist _).subset hc))]
    unfold value
    rw [hdrop]
    dsimp only
    rw [hall]
  cases cs with
  | nil => rfl
  | cons c cs =>
    have hafter : p.afterKey cs = q.afterKey cs := by
      unfold afterKey
      rw [hkey]
      exact dropWhile_congr fun d hd => hblank d (List.mem_cons_of_mem c ((List.dropWhile_sublist _).subset hd))
    simp only [read, hstart, hkey, hsep, hafter]
    cases hrest : q.afterKey cs with
    | nil => rfl
    | cons s rest =>
      have hsub : rest ⊆ c :: cs := fun d hd => by
        have hmem : d ∈ q.afterKey cs := hrest ▸ List.mem_cons_of_mem s hd
        exact List.mem_cons_of_mem c (((List.dropWhile_sublist _).trans (List.dropWhile_sublist _)).subset hmem)
      simp only [hvalue rest hsub]

theorem read_isSome {c : Char} {cs : List Char} : (p.read (c :: cs)).isSome = (p.start c &&
    match p.afterKey cs with
    | [] => false
    | s :: rest => p.sep s && (p.value rest).isSome) := by
  unfold read
  dsimp only
  cases hstart : p.start c with
  | false => rw [if_neg Bool.false_ne_true, Bool.false_and, Option.isSome_none]
  | true =>
    rw [if_pos rfl, Bool.true_and]
    cases p.afterKey cs with
    | nil => rfl
    | cons s rest =>
      dsimp only
      cases hsep : p.sep s with
      | false => rw [if_neg Bool.false_ne_true, Bool.false_and, Option.isSome_none]
      | true => rw [if_pos rfl, Bool.true_and, Option.isSome_map]

/-- the value is a part of the text -/
theorem value_subset {cs k v : List Char} (h : p.read cs = some (k, v)) : v ⊆ cs := by
  cases cs with
  | nil => cases h
  | cons c cs =>
    unfold read at h
    dsimp only at h
    split_ifs at h
    cases hrest : p.afterKey cs with
    | nil =>
      rw [hrest] at h
      cases h
    | cons s rest =>
      rw [hrest] at h
      dsimp only at h
      split_ifs at h
      obtain ⟨v', hvalue, heq⟩ := Option.map_eq_some_iff.mp h
      cases heq
      unfold value at hvalue
      dsimp only at hvalue
      split_ifs at hvalue
      cases hvalue
      have hsub : p.afterKey cs ⊆ cs := ((List.dropWhile_sublist _).trans (List.dropWhile_sublist _)).subset
      intro d hd
      have hmem : d ∈ p.afterKey cs := hrest ▸ List.mem_cons_of_mem s ((List.dropWhile_sublist _).subset hd)
      exact List.mem_cons_of_mem c (hsub hmem)

theorem start_of_read {cs : List Char} (h : (p.read cs).isSome = true) : ∃ c rest, cs = c :: rest ∧ p.start c = true := by
  cases cs with
  | nil => cases h
  | cons c rest =>
    rw [read_isSome, Bool.and_eq_true] at h
    exact ⟨c, rest, rfl, h.1⟩

theorem dropWhile_append_newline {q : Char → Bool} (cs rest : List Char) :
    (cs ++ '\n' :: rest).dropWhile q =
      if cs.dropWhile q = [] then ('\n' :: rest).dropWhile q else cs.dropWhile q ++ '\n' :: rest := by
  induction cs with
  | nil => simp
  | cons c cs ih =>
    by_cases hc : q c = true
    · simp only [List.cons_append, List.dropWhile_cons_of_pos hc, ih]
    · simp only [List.cons_append, List.dropWhile_cons_of_neg hc, List.cons_ne_nil, if_false]

/-- what comes after the key, when the text goes on after a newline -/
theorem afterKey_join (hp : p.Lawful) (cs rest : List Char) :
    p.afterKey (cs ++ '\n' :: rest) =
      if p.afterKey cs = [] then rest.dropWhile p.blank else p.afterKey cs ++ '\n' :: rest := by
  have hkey : ('\n' :: rest).dropWhile p.key = '\n' :: rest :=
    List.dropWhile_cons_of_neg (by simp [hp.newline_key])
  have hblank : ('\n' :: rest).dropWhile p.blank = rest.dropWhile p.blank :=
    List.dropWhile_cons_of_pos hp.newline_blank
  unfold afterKey
  rw [dropWhile_append_newline, hkey]
  by_cases hall : cs.dropWhile p.key = []
  · rw [if_pos hall, hall, hblank]
    rfl
  · rw [if_neg hall, dropWhile_append_newline, hblank]

/-- a value that goes on after a newline begins after it -/
theorem value_join (hp : p.Lawful) (cs rest : List Char) :
    p.value (cs ++ '\n' :: rest) = if cs.all p.blank then p.value rest else none := by
  have hblank : ('\n' :: rest).dropWhile p.blank = rest.dropWhile p.blank :=
    List.dropWhile_cons_of_pos hp.newline_blank
  have hall : cs.dropWhile p.blank = [] ↔ cs.all p.blank = true := by
    rw [List.dropWhile_eq_nil_iff, List.all_eq_true]
  unfold value
  rw [dropWhile_append_newline, hblank]
  by_cases hcs : cs.all p.blank = true
  · rw [if_pos (hall.mpr hcs), if_pos hcs]
  · rw [if_neg (mt hall.mp hcs), if_neg hcs]
    simp [hp.newline_stop]

/-- **Joined lines.** Text after a line is read with it when the line opens a field and the text is a value. -/
theorem read_join (hp : p.Lawful) {line rest : List Char} (hline : line ≠ [])
    (hrest : ∀ c ∈ (rest.dropWhile p.blank).head?, p.sep c = false) :
    (p.read (line ++ '\n' :: rest)).isSome = (p.opens line && (p.value rest).isSome) := by
  obtain ⟨c, cs, rfl⟩ := List.exists_cons_of_ne_nil hline
  rw [List.cons_append, read_isSome, afterKey_join hp, opens, Bool.and_assoc]
  congr 1
  cases hafter : p.afterKey cs with
  | nil =>
    -- the key goes up to the end of the line: the next line would have to begin with a separator
    rw [if_pos rfl]
    cases hdrop : rest.dropWhile p.blank with
    | nil => rfl
    | cons s tail =>
      rw [hdrop] at hrest
      simp only [hrest s rfl, Bool.false_and]
  | cons s tail =>
    rw [if_neg (List.cons_ne_nil _ _)]
    simp only [List.cons_append, value_join hp, Bool.and_assoc]
    congr 1
    cases tail.all p.blank with
    | false => rfl
    | true => simp

/-- three lines are never read as one field -/
theorem value_lines (hp : p.Lawful) {line rest : List Char} (hline : line.all p.blank = false) :
    p.value (line ++ '\n' :: rest) = none := by
  rw [value_join hp, hline]
  rfl

end Pattern

end LineText
