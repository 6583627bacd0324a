/-
Grouping a list by its heads.

A list is cut into groups from left to right. The first element of a group is its head; an element joins the open group
exactly when it continues the head (`cont h e`), else it is the head of the next group. So one relation between a head
and an element decides everything, whatever has joined the group in between.

Results:
- `group_eq_iff`: the grouping of a list is the only one whose groups are continued by their elements and not by the
  next head; parts of a grouping are therefore groupings of their elements (`IsGrouping.left`, `.right`);
- `group_snoc`: one more element, as a left fold sees it;
- `close_kind_iff`, `group_kind_iff`: when every group is of one kind;
- `filter_iff`: filtering the elements keeps what filtering the groups does when each is judged as its group is;
- `foldl_foldNext`: folding each element into the last head gives the groups, each folded into its head;
- `foldl_foldNext_eq_self_iff`: such a fold leaves a list as it is when no element continues the one before it;
- `pieces_groups`: a list that is read from its end in rounds, with the first group of what was read held on, comes to
  what its groups come to, each by itself;
- `pieces_eq_singleton_iff`: which groups come out whole.
-/
import Mathlib.Data.List.Chain
import Mathlib.Data.List.Nodup

namespace HeadGroup

variable {α : Type*} (cont : α → α → Prop)

section Def

variable [DecidableRel cont]

/-- the groups of a list that follows the open group h :: body -/
def close (h : α) (body : List α) : List α → List (List α)
  | [] => [h :: body]
  | e :: es => if cont h e then close h (body ++ [e]) es else (h :: body) :: close e [] es

def group : List α → List (List α)
  | [] => []
  | h :: es => close cont h [] es

end Def

/-- the head of `g'` does not continue the head of `g` -/
def Apart (g g' : List α) : Prop := ∀ h ∈ g.head?, ∀ e ∈ g'.head?, ¬ cont h e

/-- what makes a list of groups the grouping of its elements -/
structure IsGrouping (gs : List (List α)) : Prop where
  ne_nil : ∀ g ∈ gs, g ≠ []
  body : ∀ g ∈ gs, ∀ h ∈ g.head?, ∀ e ∈ g.tail, cont h e
  chain : gs.IsChain (Apart cont)

variable {cont}

theorem isGrouping_nil : IsGrouping cont ([] : List (List α)) := ⟨by simp, by simp, .nil⟩

theorem isGrouping_cons {h : α} {b : List α} {gs : List (List α)} :
    IsGrouping cont ((h :: b) :: gs) ↔
      (∀ e ∈ b, cont h e) ∧ (∀ g ∈ gs.head?, ∀ e ∈ g.head?, ¬ cont h e) ∧ IsGrouping cont gs := by
  constructor
  · intro hg
    have hc := List.isChain_cons.1 hg.chain
    refine ⟨hg.body _ List.mem_cons_self h rfl, fun g hgm => hc.1 g hgm h rfl, ?_, ?_, hc.2⟩
    · exact fun g hm => hg.ne_nil g (List.mem_cons_of_mem _ hm)
    · exact fun g hm => hg.body g (List.mem_cons_of_mem _ hm)
  · rintro ⟨hb, ha, hg⟩
    refine ⟨?_, ?_, List.isChain_cons.2 ⟨fun g hgm h' hh' => ?_, hg.chain⟩⟩
    · intro g hm
      rcases List.mem_cons.1 hm with rfl | hm
      · exact List.cons_ne_nil h b
      · exact hg.ne_nil g hm
    · intro g hm h' hh'
      rcases List.mem_cons.1 hm with rfl | hm
      · obtain rfl := Option.some.inj hh'
        exact hb
      · exact hg.body g hm h' hh'
    · obtain rfl := Option.some.inj hh'
      exact ha g hgm

theorem IsGrouping.left {a b : List (List α)} (h : IsGrouping cont (a ++ b)) : IsGrouping cont a :=
  ⟨fun g hg => h.ne_nil g (List.mem_append_left _ hg), fun g hg => h.body g (List.mem_append_left _ hg),
    (List.isChain_append.1 h.chain).1⟩

theorem IsGrouping.right {a b : List (List α)} (h : IsGrouping cont (a ++ b)) : IsGrouping cont b :=
  ⟨fun g hg => h.ne_nil g (List.mem_append_right _ hg), fun g hg => h.body g (List.mem_append_right _ hg),
    (List.isChain_append.1 h.chain).2.1⟩

theorem isGrouping_snoc {gs : List (List α)} {e : α} (h : IsGrouping cont gs)
    (hl : ∀ g ∈ gs.getLast?, ∀ a ∈ g.head?, ¬ cont a e) : IsGrouping cont (gs ++ [[e]]) := by
  refine ⟨?_, ?_, List.isChain_append.2 ⟨h.chain, .singleton _, ?_⟩⟩
  · intro g hg
    rcases List.mem_append.1 hg with hg | hg
    · exact h.ne_nil g hg
    · rw [List.mem_singleton.1 hg]
      exact List.cons_ne_nil e []
  · intro g hg
    rcases List.mem_append.1 hg with hg | hg
    · exact h.body g hg
    · rw [List.mem_singleton.1 hg]
      simp
  · intro g hg g' hg' a ha e' he'
    obtain rfl := Option.some.inj hg'
    obtain rfl := Option.some.inj he'
    exact hl g hg a ha

theorem isGrouping_extend {gs : List (List α)} {a : α} {b : List α} {e : α} (h : IsGrouping cont (gs ++ [a :: b]))
    (he : cont a e) : IsGrouping cont (gs ++ [a :: b ++ [e]]) := by
  have hlast := h.right
  refine ⟨?_, ?_, List.isChain_append.2 ⟨h.left.chain, .singleton _, ?_⟩⟩
  · intro g hg
    rcases List.mem_append.1 hg with hg | hg
    · exact h.left.ne_nil g hg
    · rw [List.mem_singleton.1 hg]
      exact List.cons_ne_nil _ _
  · intro g hg a' ha' e' he'
    rcases List.mem_append.1 hg with hg | hg
    · exact h.left.body g hg a' ha' e' he'
    · rw [List.mem_singleton.1 hg] at ha' he'
      obtain rfl := Option.some.inj ha'
      rcases List.mem_append.1 he' with he' | he'
      · exact hlast.body _ (List.mem_singleton_self _) a rfl e' he'
      · exact List.mem_singleton.1 he' ▸ he
  · intro g hg g' hg' c hc e' he'
    obtain rfl := Option.some.inj hg'
    exact (List.isChain_append.1 h.chain).2.2 g hg (a :: b) rfl c hc e' he'

/-- along a grouping, two relations agree that agree on groups with nothing between them -/
theorem IsGrouping.isChain_iff {P Q : List α → List α → Prop} {gs : List (List α)} (hg : IsGrouping cont gs)
    (h : ∀ g ∈ gs, ∀ g' ∈ gs, Apart cont g g' → (P g g' ↔ Q g g')) : gs.IsChain P ↔ gs.IsChain Q := by
  have hchain := hg.chain
  clear hg
  induction gs with
  | nil => exact ⟨fun _ => .nil, fun _ => .nil⟩
  | cons g gs ih =>
    obtain ⟨hapart, hchain⟩ := List.isChain_cons.1 hchain
    have hrest := ih (fun g₁ h₁ g₂ h₂ => h g₁ (List.mem_cons_of_mem _ h₁) g₂ (List.mem_cons_of_mem _ h₂)) hchain
    have hhead : (∀ g' ∈ gs.head?, P g g') ↔ ∀ g' ∈ gs.head?, Q g g' := by
      refine forall₂_congr fun g' hg' => ?_
      exact h g List.mem_cons_self g' (List.mem_cons_of_mem _ (List.mem_of_mem_head? hg')) (hapart g' hg')
    rw [List.isChain_cons, List.isChain_cons]
    exact and_congr hhead hrest

section Group

variable [DecidableRel cont]

theorem close_flatten (h : α) (body es : List α) : (close cont h body es).flatten = h :: body ++ es := by
  induction es generalizing h body with
  | nil => simp [close]
  | cons e es ih =>
    unfold close
    split_ifs
    · rw [ih]; simp
    · rw [List.flatten_cons, ih]; simp

theorem close_isGrouping (h : α) (body es : List α) (hb : ∀ e ∈ body, cont h e) :
    IsGrouping cont (close cont h body es) ∧ ∃ b gs, close cont h body es = (h :: b) :: gs := by
  induction es generalizing h body with
  | nil =>
    refine ⟨isGrouping_cons.2 ⟨hb, by simp, isGrouping_nil⟩, body, [], rfl⟩
  | cons e es ih =>
    unfold close
    split_ifs with hc
    · refine ih h (body ++ [e]) fun e' he' => ?_
      rcases List.mem_append.1 he' with he' | he'
      · exact hb e' he'
      · exact List.mem_singleton.1 he' ▸ hc
    · obtain ⟨hg, b, gs, e₁⟩ := ih e [] (by simp)
      refine ⟨isGrouping_cons.2 ⟨hb, ?_, hg⟩, body, _, rfl⟩
      rw [e₁]
      intro g hgm e' he'
      obtain rfl := Option.some.inj hgm
      obtain rfl := Option.some.inj he'
      exact hc

theorem close_append (h : α) (body b es : List α) (hb : ∀ e ∈ b, cont h e) :
    close cont h body (b ++ es) = close cont h (body ++ b) es := by
  induction b generalizing body with
  | nil => simp
  | cons e b ih =>
    rw [List.cons_append, close, if_pos (hb e List.mem_cons_self), ih _ fun e' he' => hb e' (List.mem_cons_of_mem e he')]
    simp

theorem group_flatten (l : List α) : (group cont l).flatten = l := by
  cases l with
  | nil => rfl
  | cons h es => exact close_flatten h [] es

theorem mem_of_mem_group {l g : List α} {e : α} (hg : g ∈ group cont l) (he : e ∈ g) : e ∈ l := by
  rw [← @group_flatten α cont _ l]
  exact List.mem_flatten.mpr ⟨g, hg, he⟩

theorem group_isGrouping (l : List α) : IsGrouping cont (group cont l) := by
  cases l with
  | nil => exact isGrouping_nil
  | cons h es => exact (close_isGrouping h [] es (by simp)).1

/-- a grouping is the grouping of its elements -/
theorem IsGrouping.group_flatten {gs : List (List α)} (h : IsGrouping cont gs) : group cont gs.flatten = gs := by
  induction gs with
  | nil => rfl
  | cons g gs ih =>
    cases g with
    | nil => exact absurd rfl (h.ne_nil [] List.mem_cons_self)
    | cons a b =>
      obtain ⟨hb, ha, hg⟩ := isGrouping_cons.1 h
      rw [List.flatten_cons, List.cons_append, group, close_append a [] b gs.flatten hb, List.nil_append]
      cases gs with
      | nil => rfl
      | cons g' gs =>
        cases g' with
        | nil => exact absurd rfl (hg.ne_nil [] List.mem_cons_self)
        | cons a' b' =>
          have hn : ¬ cont a a' := ha _ rfl a' rfl
          have ih' := ih hg
          rw [List.flatten_cons, List.cons_append] at ih' ⊢
          rw [close, if_neg hn, ← ih']
          rfl

/-- **Uniqueness.** -/
theorem group_eq_iff {l : List α} {gs : List (List α)} : group cont l = gs ↔ gs.flatten = l ∧ IsGrouping cont gs := by
  constructor
  · rintro rfl
    exact ⟨HeadGroup.group_flatten l, group_isGrouping l⟩
  · rintro ⟨rfl, h⟩
    exact h.group_flatten

theorem close_map {β : Type*} (f : β → α) [DecidableRel fun a b => cont (f a) (f b)] (h : β) (body es : List β) :
    close cont (f h) (body.map f) (es.map f) =
      (close (fun a b => cont (f a) (f b)) h body es).map (List.map f) := by
  induction es generalizing h body with
  | nil => rfl
  | cons e es ih =>
    rw [List.map_cons, close, close]
    by_cases hc : cont (f h) (f e)
    · rw [if_pos hc, if_pos hc, ← ih]
      simp
    · rw [if_neg hc, if_neg hc, List.map_cons, ← ih]
      rfl

theorem group_congr {cont' : α → α → Prop} [DecidableRel cont'] (h : ∀ a b, cont a b ↔ cont' a b) (l : List α) :
    group cont l = group cont' l := by
  obtain rfl : cont = cont' := funext fun a => funext fun b => propext (h a b)
  congr

/-- a list is grouped as its images are -/
theorem group_map {β : Type*} (f : β → α) [DecidableRel fun a b => cont (f a) (f b)] (l : List β) :
    group cont (l.map f) = (group (fun a b => cont (f a) (f b)) l).map (List.map f) := by
  cases l with
  | nil => rfl
  | cons h es => exact close_map f h [] es

/-- one more element: it joins the last group or starts its own -/
theorem group_snoc (l : List α) (e : α) :
    (∃ gs a b, group cont l = gs ++ [a :: b] ∧ cont a e ∧ group cont (l ++ [e]) = gs ++ [a :: b ++ [e]]) ∨
    ((∀ g ∈ (group cont l).getLast?, ∀ a ∈ g.head?, ¬ cont a e) ∧ group cont (l ++ [e]) = group cont l ++ [[e]]) := by
  have hg : IsGrouping cont (group cont l) := group_isGrouping l
  have hf : (group cont l).flatten = l := HeadGroup.group_flatten l
  by_cases hl : ∀ g ∈ (group cont l).getLast?, ∀ a ∈ g.head?, ¬ cont a e
  · refine Or.inr ⟨hl, group_eq_iff.2 ⟨?_, isGrouping_snoc hg hl⟩⟩
    rw [List.flatten_append, hf]
    rfl
  · simp only [not_forall, not_not] at hl
    obtain ⟨g, hgl, a, ha, hc⟩ := hl
    obtain ⟨b, rfl⟩ : ∃ b, g = a :: b := by
      cases g with
      | nil => cases ha
      | cons a' b =>
        obtain rfl := Option.some.inj ha
        exact ⟨b, rfl⟩
    obtain ⟨gs, hsplit⟩ : ∃ gs, group cont l = gs ++ [a :: b] := ⟨_, (List.dropLast_append_getLast? _ hgl).symm⟩
    rw [hsplit] at hg hf
    refine Or.inl ⟨gs, a, b, hsplit, hc, group_eq_iff.2 ⟨?_, isGrouping_extend hg hc⟩⟩
    rw [← hf]
    simp

end Group

/-! ## Filtering elements or groups -/

section Filter

variable [DecidableRel cont] {l : List α}

/-- no element is in two groups of a list that holds it once -/
theorem eq_of_mem_group (hl : l.Nodup) {g g' : List α} (hg : g ∈ group cont l) (hg' : g' ∈ group cont l) {e : α}
    (he : e ∈ g) (he' : e ∈ g') : g = g' := by
  have hnodup : (group cont l).flatten.Nodup := by rwa [group_flatten]
  have hsymm : Std.Symm (@List.Disjoint α) := ⟨fun _ _ => List.disjoint_symm⟩
  by_contra hne
  exact (List.nodup_flatten.mp hnodup).2.forall hg hg' hne he he'

theorem mem_filter_group {keepGroup : List α → Bool} {e : α} :
    e ∈ ((group cont l).filter keepGroup).flatten ↔ ∃ g ∈ group cont l, keepGroup g = true ∧ e ∈ g := by
  simp only [List.mem_flatten, List.mem_filter, and_assoc]

/-- **Filtering before or after.** The same elements are kept one by one as in whole groups exactly when each element
is judged as its group is. -/
theorem filter_iff (hl : l.Nodup) {keep : α → Bool} {keepGroup : List α → Bool} :
    (∀ e, e ∈ l.filter keep ↔ e ∈ ((group cont l).filter keepGroup).flatten) ↔
      ∀ g ∈ group cont l, ∀ e ∈ g, keep e = keepGroup g := by
  simp only [mem_filter_group, List.mem_filter]
  constructor
  · intro hsame g hg e he
    rw [Bool.eq_iff_iff]
    constructor
    · intro hkeep
      obtain ⟨g', hg', hkeep', he'⟩ := (hsame e).mp ⟨mem_of_mem_group hg he, hkeep⟩
      rwa [eq_of_mem_group hl hg hg' he he']
    · intro hkeep
      exact ((hsame e).mpr ⟨g, hg, hkeep, he⟩).2
  · intro hall e
    constructor
    · intro hkept
      obtain ⟨hmem, hkeep⟩ := hkept
      rw [← @group_flatten α cont _ l] at hmem
      obtain ⟨g, hg, he⟩ := List.mem_flatten.mp hmem
      exact ⟨g, hg, hall g hg e he ▸ hkeep, he⟩
    · intro hkept
      obtain ⟨g, hg, hkeep, he⟩ := hkept
      exact ⟨mem_of_mem_group hg he, (hall g hg e he).symm ▸ hkeep⟩

end Filter

/-! ## Groups of one kind -/

section Kind

variable [DecidableRel cont] {β : Type*} (cont) (kind : α → β)

/-- no element continues a group whose last element, the one just before it, is of another kind. `h` is the head of the
open group, and `p` the last element. -/
def Separate (h p : α) : List α → Prop
  | [] => True
  | e :: es => (cont h e → kind e = kind p) ∧ Separate (if cont h e then h else e) e es

variable {cont kind}

theorem close_head (h : α) (body es : List α) : ∃ b gs, close cont h body es = (h :: body ++ b) :: gs := by
  induction es generalizing h body with
  | nil => exact ⟨[], [], by rw [close, List.append_nil]⟩
  | cons e es ih =>
    unfold close
    split_ifs
    · obtain ⟨b, gs, hclose⟩ := ih h (body ++ [e])
      exact ⟨e :: b, gs, by rw [hclose]; simp⟩
    · exact ⟨[], _, by rw [List.append_nil]⟩

theorem close_kind_iff {h p : α} {body : List α} (hp : ∀ x ∈ h :: body, kind x = kind p) (es : List α) :
    (∀ g ∈ close cont h body es, ∀ x ∈ g, ∀ y ∈ g, kind x = kind y) ↔ Separate cont kind h p es := by
  induction es generalizing h p body with
  | nil =>
    refine iff_of_true (fun g hg x hx y hy => ?_) trivial
    obtain rfl := List.mem_singleton.1 hg
    rw [hp x hx, hp y hy]
  | cons e es ih =>
    unfold close Separate
    by_cases hc : cont h e
    · rw [if_pos hc, if_pos hc]
      by_cases hkind : kind e = kind p
      · rw [ih (p := e)]
        · exact ⟨fun hes => ⟨fun _ => hkind, hes⟩, fun hes => hes.2⟩
        · intro x hx
          rcases List.mem_append.1 (List.cons_append ▸ hx) with hx | hx
          · rw [hp x hx, hkind]
          · rw [List.mem_singleton.1 hx]
      · -- the head and the element are in one group
        refine iff_of_false (fun hall => hkind ?_) fun hes => hkind (hes.1 hc)
        obtain ⟨b, gs, hclose⟩ := @close_head α cont _ h (body ++ [e]) es
        rw [hclose] at hall
        rw [← hp h List.mem_cons_self]
        exact hall _ List.mem_cons_self e (by simp) h (by simp)
    · rw [if_neg hc, if_neg hc, List.forall_mem_cons, ih (p := e) (fun x hx => by rw [List.mem_singleton.1 hx])]
      refine and_congr_left fun _ => iff_of_true (fun x hx y hy => ?_) fun hcont => absurd hcont hc
      rw [hp x hx, hp y hy]

/-- asking for one kind as well changes nothing exactly when every group is of one kind -/
theorem group_kind_iff [DecidableRel fun a b => kind a = kind b ∧ cont a b] {l : List α} :
    group (fun a b => kind a = kind b ∧ cont a b) l = group cont l ↔
      ∀ g ∈ group cont l, ∀ x ∈ g, ∀ y ∈ g, kind x = kind y := by
  have hg : IsGrouping cont (group cont l) := group_isGrouping l
  constructor
  · intro hsame g hmem
    have hg' : IsGrouping (fun a b => kind a = kind b ∧ cont a b) (group cont l) := hsame ▸ group_isGrouping l
    obtain ⟨a, b, rfl⟩ := List.exists_cons_of_ne_nil (hg.ne_nil g hmem)
    have hkind : ∀ x ∈ a :: b, kind a = kind x := by
      intro x hx
      rcases List.mem_cons.1 hx with rfl | hx
      · rfl
      · exact (hg'.body _ hmem a rfl x hx).1
    exact fun x hx y hy => (hkind x hx).symm.trans (hkind y hy)
  · intro hkind
    refine group_eq_iff.2 ⟨group_flatten l, hg.ne_nil, fun g hmem h hh e he => ?_, ?_⟩
    · exact ⟨hkind g hmem h (List.mem_of_mem_head? hh) e (List.mem_of_mem_tail he), hg.body g hmem h hh e he⟩
    · exact hg.chain.imp fun g g' hapart h hh e he hcont => hapart h hh e he hcont.2

end Kind

/-! ## Folding each group into its head -/

section Fold

variable (cont) (append : α → α → α)

/-- folds an element into the last of the groups, or starts a new one -/
def foldNext [DecidableRel cont] (grouped : List α) (e : α) : List α :=
  match grouped.getLast? with
  | none => [e]
  | some last => if cont last e then grouped.dropLast ++ [append last e] else grouped ++ [e]

/-- a group folded into its head -/
def merge : List α → Option α
  | [] => none
  | h :: es => some (es.foldl append h)

variable {cont append}

/-- what has absorbed elements goes on as its head does -/
theorem cont_foldl (habsorb : ∀ a c, cont a c → ∀ e, cont (append a c) e ↔ cont a e) {h : α} {es : List α}
    (hes : ∀ e ∈ es, cont h e) (e : α) : cont (es.foldl append h) e ↔ cont h e := by
  induction es generalizing h with
  | nil => exact Iff.rfl
  | cons c es ih =>
    have hc := habsorb h c (hes c List.mem_cons_self)
    have hes' : ∀ e' ∈ es, cont (append h c) e' := fun e' he' => (hc e').mpr (hes e' (List.mem_cons_of_mem c he'))
    exact (ih hes').trans (hc e)

theorem length_merge {gs : List (List α)} (h : ∀ g ∈ gs, g ≠ []) :
    (gs.filterMap (merge append)).length = gs.length := by
  induction gs with
  | nil => rfl
  | cons g gs ih =>
    obtain ⟨a, b, rfl⟩ := List.exists_cons_of_ne_nil (h g List.mem_cons_self)
    have hmerge : merge append (a :: b) = some (b.foldl append a) := rfl
    rw [List.filterMap_cons_some hmerge, List.length_cons, List.length_cons,
      ih fun g' hg' => h g' (List.mem_cons_of_mem _ hg')]

/-- two ways to make something of each group come to the same list when they do for each group -/
theorem filterMap_eq_iff {β : Type*} {f f' : List α → Option β} {gs : List (List α)} (h : ∀ g ∈ gs, (f g).isSome = true)
    (h' : ∀ g ∈ gs, (f' g).isSome = true) : gs.filterMap f = gs.filterMap f' ↔ ∀ g ∈ gs, f g = f' g := by
  refine ⟨fun heq => ?_, fun hall => List.filterMap_congr hall⟩
  induction gs with
  | nil => exact nofun
  | cons g gs ih =>
    obtain ⟨b, hb⟩ := Option.isSome_iff_exists.mp (h g List.mem_cons_self)
    obtain ⟨b', hb'⟩ := Option.isSome_iff_exists.mp (h' g List.mem_cons_self)
    rw [List.filterMap_cons_some hb, List.filterMap_cons_some hb'] at heq
    obtain ⟨hhead, hrest⟩ := List.cons.inj heq
    intro g₁ hg₁
    rcases List.mem_cons.mp hg₁ with rfl | hg₁
    · rw [hb, hb', hhead]
    · exact ih (fun g hg => h g (List.mem_cons_of_mem _ hg)) (fun g hg => h' g (List.mem_cons_of_mem _ hg)) hrest g₁ hg₁

/-- a relation along the folded groups, as one along the groups -/
theorem isChain_merge {R : α → α → Prop} {gs : List (List α)} (h : ∀ g ∈ gs, g ≠ []) :
    (gs.filterMap (merge append)).IsChain R ↔
      gs.IsChain fun g g' => ∀ m ∈ merge append g, ∀ m' ∈ merge append g', R m m' := by
  induction gs with
  | nil => exact ⟨fun _ => .nil, fun _ => .nil⟩
  | cons g gs ih =>
    obtain ⟨a, b, rfl⟩ := List.exists_cons_of_ne_nil (h g List.mem_cons_self)
    have hne : ∀ g' ∈ gs, g' ≠ [] := fun g' hg' => h g' (List.mem_cons_of_mem _ hg')
    have hmerge : merge append (a :: b) = some (b.foldl append a) := rfl
    rw [List.filterMap_cons_some hmerge, List.isChain_cons, List.isChain_cons, ih hne]
    refine and_congr_left fun _ => ?_
    cases gs with
    | nil => exact ⟨fun _ => nofun, fun _ => nofun⟩
    | cons g' gs =>
      obtain ⟨a', b', rfl⟩ := List.exists_cons_of_ne_nil (hne g' List.mem_cons_self)
      have hmerge' : merge append (a' :: b') = some (b'.foldl append a') := rfl
      rw [List.filterMap_cons_some hmerge']
      simp [hmerge, hmerge']

variable [DecidableRel cont]

/-- **Folding is grouping.** Folding from left to right gives the groups, each folded into its head. -/
theorem foldl_foldNext (habsorb : ∀ a c, cont a c → ∀ e, cont (append a c) e ↔ cont a e) (l : List α) :
    l.foldl (foldNext cont append) [] = (group cont l).filterMap (merge append) := by
  induction l using List.reverseRecOn with
  | nil => rfl
  | append_singleton l e ih =>
    rw [List.foldl_append, List.foldl_cons, List.foldl_nil, ih]
    have hg : IsGrouping cont (group cont l) := group_isGrouping l
    rcases @group_snoc α cont _ l e with ⟨gs, a, b, hgroup, hc, hgroup'⟩ | ⟨hnot, hgroup'⟩
    · rw [hgroup] at hg
      have hb : ∀ e' ∈ b, cont a e' := hg.right.body _ (List.mem_singleton_self _) a rfl
      have hlast : cont (b.foldl append a) e := (cont_foldl habsorb hb e).mpr hc
      have hmerge : merge append (a :: b) = some (b.foldl append a) := rfl
      have hmerge' : merge append (a :: (b ++ [e])) = some (append (b.foldl append a) e) := by
        rw [merge, List.foldl_append, List.foldl_cons, List.foldl_nil]
      rw [hgroup, hgroup']
      simp only [foldNext, List.filterMap_append, List.filterMap_cons_some hmerge, List.cons_append,
        List.filterMap_cons_some hmerge', List.filterMap_nil, List.getLast?_append, List.getLast?_singleton,
        Option.some_or, if_pos hlast, List.dropLast_concat]
    · have hmerge : merge append [e] = some e := rfl
      rw [hgroup', List.filterMap_append, List.filterMap_cons_some hmerge, List.filterMap_nil]
      rcases List.eq_nil_or_concat (group cont l) with hnil | ⟨gs, g, hgroup⟩
      · rw [hnil]
        rfl
      · rw [List.concat_eq_append] at hgroup
        rw [hgroup] at hg hnot ⊢
        obtain ⟨a, b, rfl⟩ :=
          List.exists_cons_of_ne_nil (hg.ne_nil g (List.mem_append_right _ (List.mem_singleton_self g)))
        have hb : ∀ e' ∈ b, cont a e' := hg.right.body _ (List.mem_singleton_self _) a rfl
        have hno : ¬ cont a e := hnot (a :: b) (by simp) a rfl
        have hlast : ¬ cont (b.foldl append a) e := mt (cont_foldl habsorb hb e).mp hno
        have hmerge' : merge append (a :: b) = some (b.foldl append a) := rfl
        simp only [foldNext, List.filterMap_append, List.filterMap_cons_some hmerge', List.filterMap_nil,
          List.getLast?_append, List.getLast?_singleton, Option.some_or, if_neg hlast]

/-- groups that are as many as their elements hold one element each -/
theorem singletons_of_length {gs : List (List α)} (hne : ∀ g ∈ gs, g ≠ []) (hlen : gs.flatten.length ≤ gs.length) :
    gs = gs.flatten.map fun e => [e] := by
  have hcount : ∀ gs : List (List α), (∀ g ∈ gs, g ≠ []) → gs.length ≤ gs.flatten.length := by
    intro gs hne
    induction gs with
    | nil => exact le_rfl
    | cons g gs ih =>
      have hg := List.length_pos_of_ne_nil (hne g List.mem_cons_self)
      have hgs := ih fun g' hg' => hne g' (List.mem_cons_of_mem _ hg')
      rw [List.flatten_cons, List.length_append, List.length_cons]
      omega
  induction gs with
  | nil => rfl
  | cons g gs ih =>
    obtain ⟨a, b, rfl⟩ := List.exists_cons_of_ne_nil (hne g List.mem_cons_self)
    have hne' : ∀ g' ∈ gs, g' ≠ [] := fun g' hg' => hne g' (List.mem_cons_of_mem _ hg')
    have hgs := hcount gs hne'
    simp only [List.flatten_cons, List.length_append, List.length_cons] at hlen
    have hb : b = [] := List.length_eq_zero_iff.mp (by omega)
    subst hb
    rw [List.flatten_cons, List.map_append, ← ih hne' (by omega)]
    rfl

/-- **Folding again.** A list is left as it is exactly when no element continues the one before it. -/
theorem foldl_foldNext_eq_self_iff (habsorb : ∀ a c, cont a c → ∀ e, cont (append a c) e ↔ cont a e) {l : List α} :
    l.foldl (foldNext cont append) [] = l ↔ l.IsChain fun a e => ¬ cont a e := by
  rw [foldl_foldNext habsorb]
  have hsingles : (l.map fun e => [e]).filterMap (merge append) = l := by
    rw [List.filterMap_map]
    exact List.filterMap_some
  have hflat : (l.map fun e => [e]).flatten = l := by rw [← List.flatMap_def, List.flatMap_singleton']
  constructor
  · intro h
    have hg : IsGrouping cont (group cont l) := group_isGrouping l
    have hlen := congrArg List.length h
    rw [length_merge hg.ne_nil] at hlen
    have hgroup := singletons_of_length hg.ne_nil (by rw [group_flatten, hlen])
    rw [group_flatten] at hgroup
    have hchain := hg.chain
    rw [hgroup, List.isChain_map] at hchain
    exact hchain.imp fun a e hapart => hapart a rfl e rfl
  · intro h
    have hgroup : group cont l = l.map fun e => [e] := by
      refine group_eq_iff.mpr ⟨hflat, ?_, ?_, ?_⟩
      · intro g hg
        obtain ⟨e, -, rfl⟩ := List.mem_map.mp hg
        exact List.cons_ne_nil e []
      · intro g hg
        obtain ⟨e, -, rfl⟩ := List.mem_map.mp hg
        exact fun _ _ _ => nofun
      · rw [List.isChain_map]
        refine h.imp fun a e hno => ?_
        intro h' hh' e' he'
        cases hh'
        cases he'
        exact hno
    rw [hgroup, hsingles]

end Fold

/-! ## Reading a list from its end -/

section ReadBack

variable [DecidableRel cont] {c : ℕ}

/-- a list that is read from its end, `c` elements a round. `n` more elements belong to the round, and `held` has been
read but may go on. When a round ends and more elements follow, the first group of what is held is held on, and the
others are done. -/
def readBack (cont : α → α → Prop) [DecidableRel cont] (c : ℕ) : List α → ℕ → List α → List (List α)
  | [], _, held => group cont held
  | x :: xs, 0, held => readBack cont c xs (c - 1) (x :: (group cont held).headD []) ++ (group cont held).tail
  | x :: xs, n + 1, held => readBack cont c xs n (x :: held)

/-- how many elements the round has left after k elements -/
def left (c : ℕ) : ℕ → ℕ → ℕ
  | n, 0 => n
  | 0, k + 1 => left c (c - 1) k
  | n + 1, k + 1 => left c n k

/-- what becomes of a list when `k` elements are read before it -/
def pieces (cont : α → α → Prop) [DecidableRel cont] (c k : ℕ) (l : List α) : List (List α) :=
  readBack cont c l.reverse (left c c k) []

theorem left_add (c n k j : ℕ) : left c n (k + j) = left c (left c n k) j := by
  induction k generalizing n with
  | zero => rw [Nat.zero_add, left]
  | succ k ih =>
    rw [Nat.add_right_comm]
    cases n with
    | zero => exact ih (c - 1)
    | succ n => exact ih n

/-- a round ends after every c elements -/
theorem left_eq_zero_iff (hc : 0 < c) {n k : ℕ} : left c n k = 0 ↔ ∃ j, k = n + j * c := by
  induction k generalizing n with
  | zero =>
    rw [left]
    constructor
    · rintro rfl
      exact ⟨0, by simp⟩
    · rintro ⟨j, hj⟩
      omega
  | succ k ih =>
    cases n with
    | zero =>
      rw [left, ih]
      constructor
      · rintro ⟨j, rfl⟩
        exact ⟨j + 1, by rw [Nat.add_mul]; omega⟩
      · rintro ⟨j, hj⟩
        cases j with
        | zero => omega
        | succ j => exact ⟨j, by rw [Nat.add_mul] at hj; omega⟩
    | succ n =>
      rw [left, ih]
      exact exists_congr fun j => by omega

/-- the first group is a group by itself -/
theorem group_headD (l : List α) : group cont ((group cont l).headD []) ++ (group cont l).tail = group cont l := by
  cases hgroup : group cont l with
  | nil => rfl
  | cons g gs =>
    have hg : IsGrouping cont (group cont l) := group_isGrouping l
    rw [hgroup] at hg
    have hone : group cont [g].flatten = [g] := (IsGrouping.left (b := gs) hg).group_flatten
    rw [List.flatten_singleton] at hone
    rw [List.headD_cons, hone]
    rfl

/-- elements within a round -/
theorem readBack_within (u v : List α) {n : ℕ} (held : List α) (hn : u.length ≤ n) :
    readBack cont c (u ++ v) n held = readBack cont c v (n - u.length) (u.reverse ++ held) := by
  induction u generalizing n held with
  | nil => rfl
  | cons x u ih =>
    cases n with
    | zero => cases hn
    | succ n =>
      rw [List.cons_append, readBack, ih _ (Nat.le_of_succ_le_succ hn), List.length_cons, Nat.add_sub_add_right,
        List.reverse_cons, List.append_assoc]
      rfl

/-- the end of a round -/
theorem readBack_zero (hc : 0 < c) (v held : List α) :
    readBack cont c v 0 held = readBack cont c v c ((group cont held).headD []) ++ (group cont held).tail := by
  cases v with
  | nil => exact (group_headD held).symm
  | cons x v =>
    obtain ⟨c, rfl⟩ := Nat.exists_eq_succ_of_ne_zero hc.ne'
    rfl

theorem readBack_ne_nil {u held : List α} (n : ℕ) (h : u.reverse ++ held ≠ []) : readBack cont c u n held ≠ [] := by
  induction u generalizing n held with
  | nil =>
    intro hnil
    have hflat := @group_flatten α cont _ held
    rw [show group cont held = [] from hnil] at hflat
    exact h hflat.symm
  | cons x u ih =>
    cases n with
    | zero => exact fun hnil => ih (c - 1) (by simp) (List.append_eq_nil_iff.1 hnil).1
    | succ n => exact ih n (by simp)

theorem readBack_flatten (u : List α) (n : ℕ) (held : List α) :
    (readBack cont c u n held).flatten = u.reverse ++ held := by
  induction u generalizing n held with
  | nil => exact group_flatten held
  | cons x u ih =>
    cases n with
    | zero =>
      have hheld := @group_flatten α cont _ held
      rw [readBack, List.flatten_append, ih]
      cases hgroup : group cont held with
      | nil =>
        rw [hgroup] at hheld
        simp [← hheld]
      | cons g gs =>
        rw [hgroup] at hheld
        simp [← hheld]
    | succ n =>
      rw [readBack, ih]
      simp

theorem pieces_flatten (k : ℕ) (l : List α) : (pieces cont c k l).flatten = l := by
  rw [pieces, readBack_flatten, List.reverse_reverse, List.append_nil]

theorem readBack_nonempty {u : List α} {n : ℕ} {held g : List α} (h : g ∈ readBack cont c u n held) : g ≠ [] := by
  induction u generalizing n held with
  | nil => exact (@group_isGrouping α cont _ held).ne_nil g h
  | cons x u ih =>
    cases n with
    | zero =>
      rcases List.mem_append.1 h with h | h
      · exact ih h
      · exact (@group_isGrouping α cont _ held).ne_nil g (List.mem_of_mem_tail h)
    | succ n => exact ih h

theorem pieces_nonempty {k : ℕ} {l g : List α} (h : g ∈ pieces cont c k l) : g ≠ [] := readBack_nonempty h

theorem left_of_le {n k : ℕ} (h : k ≤ n) : left c n k = n - k := by
  induction k generalizing n with
  | zero => rfl
  | succ k ih =>
    obtain ⟨n, rfl⟩ := Nat.exists_eq_succ_of_ne_zero (Nat.ne_of_gt (Nat.lt_of_lt_of_le (Nat.succ_pos k) h))
    rw [left, ih (Nat.le_of_succ_le_succ h), Nat.succ_sub_succ]

/-- what one round reads is grouped at once -/
theorem pieces_of_le {k : ℕ} {l : List α} (h : k + l.length ≤ c) : pieces cont c k l = group cont l := by
  have hread := @readBack_within α cont _ c l.reverse [] (left c c k) []
    (by rw [left_of_le (by omega), List.length_reverse]; omega)
  rw [List.append_nil, List.append_nil, List.reverse_reverse] at hread
  exact hread

/-! ### Groups come apart -/

/-- nothing in `a` goes on with what begins with y -/
theorem group_append_of_apart {a z : List α} {y : α} (hz : z.head? = some y) (ha : ∀ x ∈ a, ¬ cont x y) :
    group cont (a ++ z) = group cont a ++ group cont z := by
  have hga : IsGrouping cont (group cont a) := group_isGrouping a
  have hgz : IsGrouping cont (group cont z) := group_isGrouping z
  refine group_eq_iff.2 ⟨by rw [List.flatten_append, group_flatten, group_flatten], ?_⟩
  refine ⟨?_, ?_, List.isChain_append.2 ⟨hga.chain, hgz.chain, ?_⟩⟩
  · intro g hg
    exact (List.mem_append.1 hg).elim (hga.ne_nil g) (hgz.ne_nil g)
  · intro g hg
    exact (List.mem_append.1 hg).elim (hga.body g) (hgz.body g)
  · intro g hg g' hg' x hx e he
    obtain ⟨zs, rfl⟩ : ∃ zs, z = y :: zs := by
      cases z with
      | nil => cases hz
      | cons z zs => exact ⟨zs, by rw [Option.some.inj hz]⟩
    obtain ⟨b, gs, hclose⟩ := @close_head α cont _ y [] zs
    have hfirst : (group cont (y :: zs)).head? = some (y :: b) := by rw [group, hclose]; rfl
    obtain rfl := Option.some.inj (hfirst.symm.trans hg')
    obtain rfl := Option.some.inj he
    exact ha x (mem_of_mem_group (List.mem_of_mem_getLast? hg) (List.mem_of_mem_head? hx))

/-- what is read after a group has ended leaves the group as it is -/
theorem readBack_apart {u o z : List α} {y : α} (n : ℕ) (hz : z.head? = some y)
    (ha : ∀ x ∈ u.reverse ++ o, ¬ cont x y) : readBack cont c u n (o ++ z) = readBack cont c u n o ++ group cont z := by
  induction u generalizing n o z with
  | nil => exact group_append_of_apart hz fun x hx => ha x hx
  | cons x u ih =>
    have ha' : ∀ x' ∈ u.reverse ++ (x :: o), ¬ cont x' y := fun x' hx' => ha x' (by simpa using hx')
    cases n with
    | succ n => exact ih n hz ha'
    | zero =>
      have hz' : ∃ b gs, group cont z = (y :: b) :: gs := by
        cases z with
        | nil => cases hz
        | cons a z =>
          obtain rfl := Option.some.inj hz
          obtain ⟨b, gs, hclose⟩ := @close_head α cont _ a [] z
          exact ⟨b, gs, hclose⟩
      rw [readBack, readBack]
      cases o with
      | nil =>
        -- the round ends before anything older is read
        obtain ⟨b, gs, hgroup⟩ := hz'
        have hone := @group_headD α cont _ z
        have hrest := ih (o := [x]) (z := y :: b) (c - 1) rfl fun x' hx' => ha x' (by simpa using hx')
        rw [hgroup, List.headD_cons, List.tail_cons] at hone
        rw [List.nil_append, hgroup, List.headD_cons, List.tail_cons, show x :: y :: b = [x] ++ y :: b from rfl, hrest,
          List.append_assoc, hone]
        simp [group]
      | cons a o =>
        obtain ⟨b, gs, hclose⟩ := @close_head α cont _ a [] o
        have hgroup : group cont (a :: o) = (a :: [] ++ b) :: gs := hclose
        rw [group_append_of_apart hz fun x' hx' => ha x' (List.mem_append_right _ hx'), hgroup]
        simp

/-- two lists one after the other, where a group ends between them -/
theorem readBack_append {u a held : List α} {y : α} (n : ℕ) (hy : (u.reverse ++ held).head? = some y)
    (ha : ∀ x ∈ a, ¬ cont x y) : readBack cont c (u ++ a.reverse) n held =
      readBack cont c a.reverse (left c n u.length) [] ++ readBack cont c u n held := by
  induction u generalizing n held with
  | nil => exact readBack_apart (o := []) n hy fun x hx => ha x (by simpa using hx)
  | cons x u ih =>
    have hhead : ∀ h : List α, (u.reverse ++ x :: h).head? = some y := by
      intro h
      rw [List.reverse_cons, List.append_assoc] at hy
      cases hu : u.reverse with
      | nil =>
        rw [hu] at hy
        exact hy
      | cons e es =>
        rw [hu] at hy
        exact hy
    cases n with
    | zero => rw [List.cons_append, readBack, ih (c - 1) (hhead _), readBack, List.append_assoc]; rfl
    | succ n => exact ih n (hhead _)

/-- **Group by group.** A list read in rounds comes to what its groups come to, each by itself. -/
theorem pieces_groups (htrans : ∀ a b c, cont a b → cont b c → cont a c) {E D : List (List α)}
    (h : IsGrouping cont (E ++ D)) (k : ℕ) :
    pieces cont c k (E ++ D).flatten = pieces cont c (k + D.flatten.length) E.flatten ++ pieces cont c k D.flatten := by
  -- one group before others
  have hone : ∀ (k : ℕ) (g : List α) (gs : List (List α)), IsGrouping cont (g :: gs) →
      pieces cont c k (g ++ gs.flatten) = pieces cont c (k + gs.flatten.length) g ++ pieces cont c k gs.flatten := by
    intro k g gs hg
    cases gs with
    | nil => simp [pieces, readBack, group]
    | cons g' gs =>
      obtain ⟨a, b, rfl⟩ := List.exists_cons_of_ne_nil (hg.ne_nil g List.mem_cons_self)
      obtain ⟨a', b', rfl⟩ := List.exists_cons_of_ne_nil (hg.ne_nil g' (List.mem_cons_of_mem _ List.mem_cons_self))
      obtain ⟨hbody, hnext, -⟩ := isGrouping_cons.1 hg
      have hapart : ¬ cont a a' := hnext _ rfl a' rfl
      have hall : ∀ x ∈ a :: b, ¬ cont x a' := by
        intro x hx
        rcases List.mem_cons.1 hx with rfl | hx
        · exact hapart
        · exact fun hcont => hapart (htrans a x a' (hbody x hx) hcont)
      rw [pieces, List.reverse_append, readBack_append (y := a') _ (by simp) hall, List.length_reverse, ← left_add]
      rfl
  induction E with
  | nil => simp [pieces, readBack, group]
  | cons g E ih =>
    have hE : IsGrouping cont (g :: E) := IsGrouping.left (b := D) h
    have hrest : IsGrouping cont (E ++ D) := IsGrouping.right (a := [g]) h
    have hlen : (E ++ D).flatten.length = D.flatten.length + E.flatten.length := by
      rw [List.flatten_append, List.length_append, Nat.add_comm]
    calc pieces cont c k (g ++ (E ++ D).flatten)
        = pieces cont c (k + (E ++ D).flatten.length) g ++ pieces cont c k (E ++ D).flatten := hone k g (E ++ D) h
      _ = pieces cont c (k + D.flatten.length + E.flatten.length) g ++ (pieces cont c (k + D.flatten.length) E.flatten ++
          pieces cont c k D.flatten) := by rw [ih hrest, hlen, Nat.add_assoc]
      _ = pieces cont c (k + D.flatten.length) (g ++ E.flatten) ++ pieces cont c k D.flatten := by
          rw [hone _ g E hE, List.append_assoc]

/-! ### Groups that stay whole -/

theorem group_cons_tail {a : α} {b : List α} : (group cont (a :: b)).tail = [] ↔ ∀ e ∈ b, cont a e := by
  have hg : IsGrouping cont (group cont (a :: b)) := group_isGrouping (a :: b)
  have hflat := @group_flatten α cont _ (a :: b)
  constructor
  · intro htail
    obtain ⟨b', gs, hclose⟩ := @close_head α cont _ a [] b
    have hgroup : group cont (a :: b) = (a :: b') :: gs := hclose
    rw [hgroup, List.tail_cons] at htail
    rw [hgroup, htail, List.flatten_singleton] at hflat
    rw [hgroup] at hg
    exact (List.cons.inj hflat).2 ▸ (isGrouping_cons.1 hg).1
  · intro hb
    have hwhole : IsGrouping cont [a :: b] := isGrouping_cons.2 ⟨hb, by simp, isGrouping_nil⟩
    have hgroup := hwhole.group_flatten
    rw [List.flatten_singleton] at hgroup
    rw [hgroup]
    rfl

theorem readBack_eq_singleton_iff {u held : List α} {n : ℕ}
    (hwhole : group cont (u.reverse ++ held) = [u.reverse ++ held]) :
    readBack cont c u n held = [u.reverse ++ held] ↔
      ∀ v w, u = v ++ w → w ≠ [] → left c n v.length = 0 → (group cont (v.reverse ++ held)).tail = [] := by
  induction u generalizing n held with
  | nil =>
    refine iff_of_true hwhole fun v w huv hw => ?_
    exact absurd (List.append_eq_nil_iff.1 huv.symm).2 hw
  | cons x u ih =>
    rw [List.reverse_cons, List.append_assoc, List.singleton_append] at hwhole ⊢
    cases n with
    | succ n =>
      refine (ih hwhole).trans ⟨fun h v w huv hw hleft => ?_, fun h v w huv hw hleft => ?_⟩
      · cases v with
        | nil => cases hleft
        | cons y v =>
          obtain ⟨rfl, hu⟩ := List.cons.inj huv
          have hcut := h v w hu hw hleft
          rwa [List.reverse_cons, List.append_assoc]
      · have hcut := h (x :: v) w (by rw [huv, List.cons_append]) hw hleft
        rwa [List.reverse_cons, List.append_assoc] at hcut
    | zero =>
      have hheld := @group_flatten α cont _ held
      cases htail : (group cont held).tail with
      | cons g gs =>
        -- something of the group is done while the rest is still to come
        refine iff_of_false (fun hone => ?_) fun h => ?_
        · have hlen := congrArg List.length hone
          have hne := @readBack_ne_nil α cont _ c u (x :: (group cont held).headD []) (c - 1) (by simp)
          have hpos := List.length_pos_of_ne_nil hne
          rw [readBack, htail, List.length_append, List.length_cons, List.length_singleton] at hlen
          omega
        · have hcut := h [] (x :: u) rfl (List.cons_ne_nil x u) rfl
          rw [List.reverse_nil, List.nil_append, htail] at hcut
          cases hcut
      | nil =>
        have hhead : (group cont held).headD [] = held := by
          cases hgroup : group cont held with
          | nil =>
            rw [hgroup] at hheld
            exact hheld
          | cons g gs =>
            rw [hgroup, List.tail_cons] at htail
            rw [hgroup, htail, List.flatten_singleton] at hheld
            exact hheld
        rw [readBack, htail, hhead, List.append_nil]
        refine (ih hwhole).trans ⟨fun h v w huv hw hleft => ?_, fun h v w huv hw hleft => ?_⟩
        · cases v with
          | nil => exact htail
          | cons y v =>
            obtain ⟨rfl, hu⟩ := List.cons.inj huv
            have hcut := h v w hu hw hleft
            rwa [List.reverse_cons, List.append_assoc]
        · have hcut := h (x :: v) w (by rw [huv, List.cons_append]) hw hleft
          rwa [List.reverse_cons, List.append_assoc] at hcut

/-- **Whole groups.** A group comes out whole exactly when, wherever a round ends inside it, what has been read of it goes
on with its own first element. -/
theorem pieces_eq_singleton_iff (hc : 0 < c) {k : ℕ} {g : List α} (hg : IsGrouping cont [g]) :
    pieces cont c k g = [g] ↔
      ∀ p s b, g = p ++ s :: b → p ≠ [] → c ∣ k + (s :: b).length → ∀ e ∈ b, cont s e := by
  have hwhole : group cont (g.reverse.reverse ++ []) = [g.reverse.reverse ++ []] := by
    have hgroup := hg.group_flatten
    rw [List.flatten_singleton] at hgroup
    rw [List.reverse_reverse, List.append_nil, hgroup]
  have hiff := readBack_eq_singleton_iff (c := c) (n := left c c k) hwhole
  rw [List.reverse_reverse, List.append_nil] at hiff
  refine hiff.trans ⟨fun h p s b hsplit hp hdvd => ?_, fun h v w hvw hw hleft => ?_⟩
  · have hleft : left c (left c c k) (s :: b).reverse.length = 0 := by
      rw [← left_add, left_eq_zero_iff hc, List.length_reverse]
      obtain ⟨j, hj⟩ := hdvd
      have hpos : j ≠ 0 := by
        rintro rfl
        simp at hj
      obtain ⟨j, rfl⟩ := Nat.exists_eq_succ_of_ne_zero hpos
      exact ⟨j, by rw [hj, Nat.mul_succ, Nat.mul_comm, Nat.add_comm]⟩
    have hcut := h (s :: b).reverse p.reverse (by rw [hsplit, List.reverse_append]) (by simpa using hp) hleft
    rw [List.reverse_reverse, List.append_nil] at hcut
    exact group_cons_tail.1 hcut
  · rw [List.append_nil]
    cases hv : v.reverse with
    | nil => rfl
    | cons s b =>
      have hlen : v.length = (s :: b).length := by rw [← hv, List.length_reverse]
      rw [← left_add, left_eq_zero_iff hc, hlen] at hleft
      obtain ⟨j, hj⟩ := hleft
      refine group_cons_tail.2 (h w.reverse s b ?_ (by simpa using hw) ⟨j + 1, ?_⟩)
      · rw [← hv, ← List.reverse_append, ← hvw, List.reverse_reverse]
      · rw [hj, Nat.mul_succ, Nat.mul_comm, Nat.add_comm]

end ReadBack

end HeadGroup
