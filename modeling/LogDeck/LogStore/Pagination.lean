/-
Conservation of rows under pagination.

The rows a page has read form one ascending list: `Holds` says that the entries, with the carried rows in front, are
its groups, whatever was folded where. A page keeps a suffix of that list and hands out the position of its first row,
so the next page reads strictly older rows. Rows that are inserted or evicted meanwhile, above or below, change neither.

Results:
- `query_page`: what one page holds of the rows that stay in the store while it is read;
- `follow_conserves`: the same for all pages together;
- `follow_isSome`: the pages come to an end once no rows are added below the cursor;
- `pagination_conserves`: both, for every unfiltered query.
-/
import LogDeck.LogStore.Grouping

namespace LogDeck.LogStore

open LogDeck.Models HeadGroup

/-! ## Positions -/

namespace CursorPos

theorem Before.irrefl (a : CursorPos) : ¬ a.Before a := by
  simp [Before]

theorem Before.trans {a b c : CursorPos} (h₁ : a.Before b) (h₂ : b.Before c) : a.Before c := by
  simp only [Before] at *
  omega

theorem Before.asymm {a b : CursorPos} (h₁ : a.Before b) : ¬ b.Before a := fun h₂ => irrefl a (h₁.trans h₂)

end CursorPos

/-- a database whose integer columns hold 64-bit integers and whose rowids are unique -/
structure Snapshot (db : DB) : Prop where
  rowids : (db.lines.map fun l => l.rowid).Nodup
  int64 : ∀ l ∈ db.lines, Decimal.InInt64 l.line.tsNS ∧ Decimal.InInt64 l.rowid

theorem older_iff {a b : LineRow} : Older a b ↔ a.pos.Before b.pos ∨ a.pos = b.pos := by
  simp only [Older, LineRow.pos, CursorPos.Before, CursorPos.mk.injEq, Nat.cast_lt, Nat.cast_inj]
  omega

instance : Std.Total fun a b : LineRow => Older b a := ⟨fun a b => by simp only [Older]; omega⟩

instance : IsTrans LineRow fun a b => Older b a := ⟨fun a b c => by simp only [Older]; omega⟩

section NewestFirst

variable {db : DB} {p : LineRow → Prop} [DecidablePred p]

theorem mem_newestFirst {l : LineRow} : l ∈ newestFirst db p ↔ l ∈ db.lines ∧ p l := by
  simp [newestFirst]

theorem newestFirst_sorted (h : (db.lines.map fun l => l.rowid).Nodup) :
    (newestFirst db p).Pairwise fun a b => b.pos.Before a.pos := by
  have hsorted : (newestFirst db p).Pairwise fun a b => Older b a :=
    List.pairwise_insertionSort (fun a b : LineRow => Older b a) (db.lines.filter fun l => p l)
  have hnd : ((newestFirst db p).map fun l => l.rowid).Nodup :=
    ((List.perm_insertionSort _ _).map _).nodup_iff.2 (h.sublist (List.filter_sublist.map _))
  have hne : (newestFirst db p).Pairwise fun a b => a.rowid ≠ b.rowid := List.pairwise_map.1 hnd
  refine (hsorted.and hne).imp ?_
  rintro a b ⟨ho, hr⟩
  rcases older_iff.1 ho with h | h
  · exact h
  · simp only [LineRow.pos, CursorPos.mk.injEq, Nat.cast_inj] at h
    exact absurd h.2.symm hr

/-- a row that a chunk does not reach is older than the oldest row of the chunk, and the chunk is full -/
theorem mem_take_or_before {ls : List LineRow} (h : ls.Pairwise fun a b => b.pos.Before a.pos) (n : ℕ) {r : LineRow}
    (hr : r ∈ ls) :
    r ∈ ls.take n ∨ ((ls.take n).length = n ∧ ∀ last ∈ (ls.take n).getLast?, r.pos.Before last.pos) := by
  rw [← List.take_append_drop n ls, List.pairwise_append] at h
  by_cases hn : r ∈ ls.take n
  · exact Or.inl hn
  · rw [← List.take_append_drop n ls, List.mem_append] at hr
    have hd := hr.resolve_left hn
    refine Or.inr ⟨?_, fun last hl => h.2.2 last (List.mem_of_getLast? hl) r hd⟩
    rw [List.length_take]
    have := List.length_pos_of_mem hd
    rw [List.length_drop] at this
    omega

end NewestFirst

/-! ## The rows of entries -/

/-- the stored rows of a page, oldest first -/
def pageRows (page : LogPage) : List LineRow := page.entries.flatMap fun e => e.rows

/-- the stored rows of a sequence of pages, older pages in front -/
def pagesRows (pages : List LogPage) : List LineRow := (pages.reverse.map pageRows).flatten

section Rows

variable (t : Text) (gens : List Generation)

theorem storedRow_rows (l : LineRow) : (storedRow t gens l).entry.rows = [l] ∧
    (storedRow t gens l).entry.raw = l.line.raw := ⟨rfl, rfl⟩

/-- groups of scanned rows, folded into entries, keep their rows -/
theorem flatMap_mergeRows {gs : List (List StoredRow)} {ls : List LineRow} (hne : ∀ g ∈ gs, g ≠ [])
    (h : gs.flatten = ls.map (storedRow t gens)) :
    ((gs.map mergeRows).flatMap fun e => e.rows) = ls ∧
      ∀ e ∈ gs.map mergeRows, e.rows ≠ [] ∧ e.raw = joinRaw (e.rows.map fun l => l.line.raw) := by
  have hscanned : ∀ g ∈ gs, ∀ r ∈ g, ∃ l : LineRow, r.entry.rows = [l] ∧ r.entry.raw = l.line.raw := by
    intro g hg r hr
    have hr' : r ∈ ls.map (storedRow t gens) := h ▸ List.mem_flatten.2 ⟨g, hg, hr⟩
    obtain ⟨l, -, rfl⟩ := List.mem_map.1 hr'
    exact ⟨l, storedRow_rows t gens l⟩
  constructor
  · have hmap : (gs.map mergeRows).flatMap (fun e => e.rows) = gs.flatMap fun g => g.flatMap fun r => r.entry.rows := by
      rw [List.flatMap_map]
      exact List.flatMap_congr fun g hg => (mergeRows_rows (hne g hg) (hscanned g hg)).1
    have hflat : gs.flatMap (fun g => g.flatMap fun r => r.entry.rows) = gs.flatten.flatMap fun r => r.entry.rows := by
      rw [← List.flatMap_id, List.flatMap_assoc]
      rfl
    rw [hmap, hflat, h, List.flatMap_map]
    simp [storedRow_rows]
  · intro e he
    obtain ⟨g, hg, rfl⟩ := List.mem_map.1 he
    obtain ⟨h1, h2⟩ := mergeRows_rows (hne g hg) (hscanned g hg)
    refine ⟨?_, h2⟩
    obtain ⟨r, b, rfl⟩ := List.exists_cons_of_ne_nil (hne g hg)
    obtain ⟨l, e1, -⟩ := hscanned _ hg r List.mem_cons_self
    rw [h1, List.flatMap_cons, e1]
    simp

end Rows

/-! ## Rounds -/

section Rounds

variable {t : Text} {gens : List Generation} {seen : LineRow → Prop} {start : Option CursorPos} {R : List LineRow}
  {s : Scan}

/-- what the page holds after reading the rows R (oldest first), all older than its start; `seen` is what is known of a
row that a scan returns -/
structure Holds (t : Text) (gens : List Generation) (seen : LineRow → Prop) (start : Option CursorPos)
    (R : List LineRow) (s : Scan) : Prop where
  groups : ∃ gs : List (List StoredRow), (∀ g ∈ gs, g ≠ []) ∧ s.entries = gs.map mergeRows ∧
    s.anchors = gs.map firstPos ∧ s.carry.reverse ++ gs.flatten = R.map (storedRow t gens)
  sorted : R.Pairwise fun a b => a.pos.Before b.pos
  below : ∀ r ∈ R, ∀ p ∈ start, r.pos.Before p
  seen : ∀ r ∈ R, seen r

theorem holds_start (start : Option CursorPos) : Holds t gens seen start [] ⟨start, [], [], []⟩ :=
  ⟨⟨[], by simp, rfl, rfl, rfl⟩, .nil, by simp, by simp⟩

/-- the position the scan resumes from: the oldest row read, or the start of the page -/
def ResumesAt (start : Option CursorPos) (R : List LineRow) (s : Scan) : Prop :=
  s.before = (R.head?.map fun r => r.pos).or start

/-- the rows a round groups -/
theorem round_groups {m : Matcher} (hm : m.active = false) (rows : List StoredRow) (exhausted : Bool)
    {gs : List (List StoredRow)} (hne : ∀ g ∈ gs, g ≠ []) (he : s.entries = gs.map mergeRows)
    (ha : s.anchors = gs.map firstPos) :
    ∃ gs' : List (List StoredRow), (∀ g ∈ gs', g ≠ []) ∧
      (s.round t m rows exhausted).entries = gs'.map mergeRows ∧
      (s.round t m rows exhausted).anchors = gs'.map firstPos ∧
      (s.round t m rows exhausted).carry.reverse ++ gs'.flatten = rows.reverse ++ s.carry.reverse ++ gs.flatten ∧
      (exhausted = true → (s.round t m rows exhausted).carry = []) := by
  obtain ⟨h1, h2, h3⟩ := groupRows_eq (s.carry ++ rows)
  have hng : ∀ g ∈ group Continues (s.carry ++ rows).reverse, g ≠ [] := (group_isGrouping _).ne_nil
  have hflat : (group Continues (s.carry ++ rows).reverse).flatten = rows.reverse ++ s.carry.reverse := by
    rw [group_flatten, List.reverse_append]
  have hkeep : ∀ entries anchors, keep t m entries anchors = (entries, anchors) := by
    intro entries anchors
    simp [keep, hm]
  cases hgs : group Continues (s.carry ++ rows).reverse with
  | nil =>
    rw [hgs] at h1 h2 hflat
    refine ⟨gs, hne, ?_, ?_, ?_, ?_⟩
    · simp [Scan.round, h1, hkeep, he]
    · simp [Scan.round, h2, h1, hkeep, ha]
    · rw [← hflat]
      simp [Scan.round, h1]
    · simp [Scan.round, h1]
  | cons g gs₁ =>
    rw [hgs] at h1 h2 hflat hng
    have hopen := h3 g gs₁ hgs
    cases exhausted with
    | true =>
      refine ⟨g :: gs₁ ++ gs, fun g' hg' => ?_, ?_, ?_, ?_, ?_⟩
      · exact (List.mem_append.1 hg').elim (hng g') (hne g')
      · simp [Scan.round, h1, hkeep, he]
      · simp [Scan.round, h2, hkeep, ha]
      · rw [List.flatten_append, hflat]
        simp [Scan.round]
      · simp [Scan.round]
    | false =>
      refine ⟨gs₁ ++ gs, fun g' hg' => ?_, ?_, ?_, ?_, ?_⟩
      · exact (List.mem_append.1 hg').elim (fun h => hng g' (List.mem_cons_of_mem g h)) (hne g')
      · simp [Scan.round, h1, hkeep, he]
      · simp [Scan.round, h1, h2, hkeep, ha]
      · rw [← hflat]
        simp [Scan.round, h1, hopen]
      · simp

/-- the oldest of the rows read -/
theorem head_oldest {R : List LineRow} (h : R.Pairwise fun a b => a.pos.Before b.pos) {r : LineRow} (hr : r ∈ R) :
    ∃ r₀ ∈ R.head?, r₀ ∈ R ∧ (r₀ = r ∨ r₀.pos.Before r.pos) := by
  cases R with
  | nil => cases hr
  | cons r₀ R =>
    refine ⟨r₀, rfl, List.mem_cons_self, ?_⟩
    rcases List.mem_cons.1 hr with rfl | hr
    · exact Or.inl rfl
    · exact Or.inr ((List.pairwise_cons.1 h).1 r hr)

/-- one round over a chunk of rows that are older than what was read -/
theorem round_holds {m : Matcher} (hm : m.active = false) (h : Holds t gens seen start R s) (hat : ResumesAt start R s)
    {ls : List LineRow} (hls : ls.Pairwise fun a b => b.pos.Before a.pos)
    (hold : ∀ r ∈ ls, ∀ p ∈ s.before, r.pos.Before p) (hseen : ∀ r ∈ ls, seen r) (exhausted : Bool) :
    Holds t gens seen start (ls.reverse ++ R) (s.round t m (ls.map (storedRow t gens)) exhausted) ∧
      (exhausted = true → (s.round t m (ls.map (storedRow t gens)) exhausted).carry = []) := by
  obtain ⟨gs, hne, he, ha, hf⟩ := h.groups
  obtain ⟨gs', hne', he', ha', hf', hx⟩ := round_groups hm (ls.map (storedRow t gens)) exhausted hne he ha
  -- a row of the chunk is older than every row read before and than the start of the page
  have hhead : ∀ r ∈ ls, ∀ r₀ ∈ R.head?, r.pos.Before r₀.pos := by
    intro r hr r₀ hr₀
    refine hold r hr r₀.pos ?_
    rw [hat, hr₀]
    rfl
  have hR : ∀ r ∈ ls, ∀ r' ∈ R, r.pos.Before r'.pos := by
    intro r hr r' hr'
    obtain ⟨r₀, hr₀, -, rfl | hlt⟩ := head_oldest h.sorted hr'
    · exact hhead r hr r₀ hr₀
    · exact (hhead r hr r₀ hr₀).trans hlt
  refine ⟨⟨⟨gs', hne', he', ha', ?_⟩, ?_, ?_, ?_⟩, hx⟩
  · rw [hf', List.append_assoc, hf, List.map_append, List.map_reverse]
  · refine List.pairwise_append.2 ⟨List.pairwise_reverse.2 hls, h.sorted, fun r hr r' hr' => ?_⟩
    exact hR r (List.mem_reverse.1 hr) r' hr'
  · intro r hr p hp
    rcases List.mem_append.1 hr with hr | hr
    · rw [List.mem_reverse] at hr
      cases hR₀ : R.head? with
      | none =>
        refine hold r hr p ?_
        rw [hat, hR₀]
        exact hp
      | some r₀ => exact (hhead r hr r₀ hR₀).trans (h.below r₀ (List.mem_of_head? hR₀) p hp)
    · exact h.below r hr p hp
  · intro r hr
    rcases List.mem_append.1 hr with hr | hr
    · exact hseen r (List.mem_reverse.1 hr)
    · exact h.seen r hr

theorem round_resumesAt {m : Matcher} {ls : List LineRow} (hls : ls ≠ []) :
    ResumesAt start (ls.reverse ++ R) (s.round t m (ls.map (storedRow t gens)) false) := by
  obtain ⟨ls₀, l, rfl⟩ : ∃ ls₀ l, ls = ls₀ ++ [l] := by
    rcases List.eq_nil_or_concat ls with h | ⟨ls₀, l, h⟩
    · exact absurd h hls
    · exact ⟨ls₀, l, by rw [h, List.concat_eq_append]⟩
  simp [ResumesAt, Scan.round, storedRow]

end Rounds

/-! ## Cursors -/

theorem takeWhile_colon {a : List Char} (h : ':' ∉ a) (b : List Char) :
    (a ++ ':' :: b).takeWhile (fun c => decide (c ≠ ':')) = a ∧
      (a ++ ':' :: b).dropWhile (fun c => decide (c ≠ ':')) = ':' :: b := by
  induction a with
  | nil => simp
  | cons c a ih =>
    rw [List.mem_cons, not_or] at h
    have hc : c ≠ ':' := fun e => h.1 e.symm
    obtain ⟨h1, h2⟩ := ih h.2
    simp only [List.cons_append, List.takeWhile_cons, List.dropWhile_cons, decide_eq_true hc, if_true, h1, h2, and_self]

/-- **The cursor round trip.** -/
theorem decodeCursor_encodeCursor {tsNS rowid : ℤ} (ht : Decimal.InInt64 tsNS) (hr : Decimal.InInt64 rowid) :
    decodeCursor (encodeCursor tsNS rowid) = .ok ⟨tsNS, rowid⟩ := by
  have hbytes : ((Decimal.render tsNS ++ ':' :: Decimal.render rowid).map fun c => UInt8.ofNat c.toNat).map
      (fun b => Char.ofNat b.toNat) = Decimal.render tsNS ++ ':' :: Decimal.render rowid := by
    rw [List.map_map]
    conv_rhs => rw [← List.map_id (Decimal.render tsNS ++ ':' :: Decimal.render rowid)]
    refine List.map_congr_left fun c hc => ?_
    have hascii : c.toNat < 128 := by
      rcases List.mem_append.1 hc with hc | hc
      · exact Decimal.render_ascii hc
      · rcases List.mem_cons.1 hc with rfl | hc
        · decide
        · exact Decimal.render_ascii hc
    have hbyte : (UInt8.ofNat c.toNat).toNat = c.toNat := by
      rw [UInt8.toNat_ofNat']
      omega
    rw [Function.comp_apply, hbyte, Char.ofNat_toNat, id]
  obtain ⟨h1, h2⟩ := takeWhile_colon (Decimal.colon_notMem_render tsNS) (Decimal.render rowid)
  simp only [decodeCursor, encodeCursor, String.toList_ofList, Base64.decode_encode, hbytes, h1, h2,
    Decimal.parseInt64_render ht, Decimal.parseInt64_render hr]

theorem encodeCursor_ne_empty {tsNS rowid : ℤ} (ht : Decimal.InInt64 tsNS) (hr : Decimal.InInt64 rowid) :
    encodeCursor tsNS rowid ≠ "" := by
  intro e
  have h := decodeCursor_encodeCursor ht hr
  rw [e] at h
  cases h

/-! ## One page -/

/-- the row is stored and in the window of the query at every read from `first` on and before `last` -/
structure Stays (env : ℕ → DB) (q : LogQuery) (first last : ℕ) (r : LineRow) : Prop where
  stored : ∀ i, first ≤ i → i < last → r ∈ (env i).lines
  named : ∀ i, first ≤ i → i < last → r.ref ∈ (generations (env i) q.host q.container).map fun g => g.ref
  since : ∀ ts ∈ q.sinceNS, ts ≤ r.line.tsNS
  till : ∀ ts ∈ q.untilNS, r.line.tsNS ≤ ts

/-- a row that a page started at read `first` may hold: it was stored at some later read, is in the window, and is not
newer than all rows of the first scan -/
structure Seen (env : ℕ → DB) (q : LogQuery) (first : ℕ) (r : LineRow) : Prop where
  stored : ∃ i, first ≤ i ∧ r ∈ (env i).lines
  selected : Selected (generations (env first) q.host q.container) q none r
  bounded : ∃ r₀ ∈ (env (first + 1)).lines, r.pos = r₀.pos ∨ r.pos.Before r₀.pos

/-- what the rounds of a page accumulate: the rows read are in the groups, and a row that was stored at every read so
far was read or is older than where the scan resumes -/
theorem scanLoop_spec {t : Text} {env : ℕ → DB} (henv : ∀ i, Snapshot (env i)) {gens : List Generation} {q : LogQuery}
    {seen : LineRow → Prop} {m : Matcher} (hm : m.active = false) {limit chunk : ℕ} (hchunk : 0 < chunk)
    {start : Option CursorPos} {first fuel now : ℕ} {s : Scan} {R : List LineRow} {page : LogPage} {next : ℕ}
    (h : scanLoop t env gens q m limit chunk fuel now s = some (page, next)) (hI : Holds t gens seen start R s)
    (hat : ResumesAt start R s) (hnow : first ≤ now)
    (hfirst : R = [] → ∀ r ∈ (env now).lines, Selected gens q none r → seen r)
    (hlower : ∀ i, first ≤ i → ∀ r ∈ (env i).lines, Selected gens q none r →
      ∀ r₀, seen r₀ → r.pos.Before r₀.pos → seen r)
    (hacc : ∀ r, (∀ i, first ≤ i → i < now → r ∈ (env i).lines) → Selected gens q start r →
      r ∈ R ∨ ∀ p ∈ s.before, r.pos.Before p) :
    now < next ∧ ∃ R' s', Holds t gens seen start R' s' ∧ page = newPage s'.entries s'.anchors limit ∧
      ((s'.carry = [] ∧ ∀ r, (∀ i, first ≤ i → i < next → r ∈ (env i).lines) → Selected gens q start r → r ∈ R') ∨
        (limit < s'.entries.length ∧ ∀ r, (∀ i, first ≤ i → i < next → r ∈ (env i).lines) → Selected gens q start r →
          r ∈ R' ∨ ∀ r₀ ∈ R'.head?, r.pos.Before r₀.pos)) := by
  induction fuel generalizing now s R with
  | zero => cases h
  | succ fuel ih =>
    have hsorted := newestFirst_sorted (p := Selected gens q s.before) (henv now).rowids
    obtain ⟨ls, hls⟩ : ∃ ls, ls = (newestFirst (env now) (Selected gens q s.before)).take chunk := ⟨_, rfl⟩
    have hdesc : ls.Pairwise fun a b => b.pos.Before a.pos := hls ▸ hsorted.sublist (List.take_sublist _ _)
    have hold : ∀ r ∈ ls, ∀ p ∈ s.before, r.pos.Before p := fun r hr =>
      (mem_newestFirst.1 (List.mem_of_mem_take (hls ▸ hr))).2.2.2.2
    -- a row that was stored until now was read before, is read now, or is older than the chunk
    have hstep : ∀ r, (∀ i, first ≤ i → i < now + 1 → r ∈ (env i).lines) → Selected gens q start r →
        r ∈ ls.reverse ++ R ∨ (ls.length = chunk ∧ ∀ l ∈ ls.getLast?, r.pos.Before l.pos) := by
      intro r hr hsel
      rcases hacc r (fun i h1 h2 => hr i h1 (by omega)) hsel with hm | hb
      · exact Or.inl (List.mem_append_right _ hm)
      · have hmem : r ∈ newestFirst (env now) (Selected gens q s.before) :=
          mem_newestFirst.2 ⟨hr now hnow (Nat.lt_succ_self now), hsel.1, hsel.2.1, hsel.2.2.1, hb⟩
        have := mem_take_or_before hsorted chunk hmem
        rw [← hls] at this
        exact this.imp_left fun hin => List.mem_append_left _ (List.mem_reverse.2 hin)
    have hhead : ls.length = chunk → (ls.reverse ++ R).head? = ls.getLast? ∧ ls ≠ [] := by
      intro hlen
      have hne : ls ≠ [] := List.ne_nil_of_length_pos (hlen ▸ hchunk)
      refine ⟨?_, hne⟩
      rw [List.head?_append, List.head?_reverse, List.getLast?_eq_getLast_of_ne_nil hne, Option.some_or]
    have hfull : ¬ ls.length < chunk → ls.length = chunk := by
      have : ls.length ≤ chunk := hls ▸ List.length_take_le _ _
      omega
    rw [scanLoop, scanRows, ← hls, List.length_map] at h
    have hnew : ∀ r ∈ ls, seen r := by
      intro r hr
      obtain ⟨hl, h1, h2, h3, -⟩ := mem_newestFirst.1 (List.mem_of_mem_take (hls ▸ hr))
      have hsel : Selected gens q none r := ⟨h1, h2, h3, by simp⟩
      cases hR : R.head? with
      | none => exact hfirst (List.head?_eq_none_iff.1 hR) r hl hsel
      | some r₀ =>
        have hb : s.before = some r₀.pos := by rw [hat, hR]; rfl
        exact hlower now hnow r hl hsel r₀ (hI.seen r₀ (List.mem_of_head? hR)) (hold r hr r₀.pos hb)
    obtain ⟨hI', hx⟩ := round_holds hm hI hat hdesc hold hnew (decide (ls.length < chunk))
    split_ifs at h with hstop
    · obtain ⟨rfl, rfl⟩ := Prod.mk.inj (Option.some.inj h)
      refine ⟨Nat.lt_succ_self now, _, _, hI', rfl, ?_⟩
      by_cases hex : ls.length < chunk
      · refine Or.inl ⟨hx (decide_eq_true hex), fun r hr hsel => ?_⟩
        rcases hstep r hr hsel with hm | ⟨hlen, -⟩
        · exact hm
        · omega
      · refine Or.inr ⟨hstop.resolve_right fun h => hex (of_decide_eq_true h), fun r hr hsel => ?_⟩
        refine (hstep r hr hsel).imp_right ?_
        rintro ⟨hlen, hb⟩ r₀ hr₀
        rw [(hhead hlen).1] at hr₀
        exact hb r₀ hr₀
    · rw [not_or, decide_eq_true_eq] at hstop
      have hlen := hfull hstop.2
      rw [decide_eq_false hstop.2] at h hI'
      have hat' : ResumesAt start (ls.reverse ++ R) (s.round t m (ls.map (storedRow t gens)) false) :=
        round_resumesAt (hhead hlen).2
      have hne : ls.reverse ++ R ≠ [] := by simp [(hhead hlen).2]
      obtain ⟨hlt, rest⟩ := ih h hI' hat' (by omega) (fun e => absurd e hne) fun r hr hsel => by
        refine (hstep r hr hsel).imp_right ?_
        rintro ⟨-, hb⟩ p hp
        rw [hat', (hhead hlen).1] at hp
        obtain ⟨l, hl⟩ : ∃ l, ls.getLast? = some l := ⟨_, List.getLast?_eq_getLast_of_ne_nil (hhead hlen).2⟩
        rw [hl] at hp
        obtain rfl := Option.some.inj hp
        exact hb l hl
      exact ⟨by omega, rest⟩

/-- what a page is worth to those who follow its cursor: its rows ascend and are older than its start, its entries are
whole, and the rows of `alive` that are older than its start are on the page or older than its cursor -/
structure PageOk (seen alive : LineRow → Prop) (start : Option CursorPos) (page : LogPage) : Prop where
  sorted : (pageRows page).Pairwise fun a b => a.pos.Before b.pos
  below : ∀ r ∈ pageRows page, ∀ p ∈ start, r.pos.Before p
  seen : ∀ r ∈ pageRows page, seen r
  whole : ∀ e ∈ page.entries, e.rows ≠ [] ∧ e.raw = joinRaw (e.rows.map fun l => l.line.raw)
  last : page.nextCursor = "" → ∀ r, alive r → (∀ p ∈ start, r.pos.Before p) → r ∈ pageRows page
  more : page.nextCursor ≠ "" → ∃ e es r rs, page.entries = e :: es ∧ e.rows = r :: rs ∧
    decodeCursor page.nextCursor = .ok r.pos ∧
    ∀ r', alive r' → (∀ p ∈ start, r'.pos.Before p) → r' ∈ pageRows page ∨ r'.pos.Before r.pos

theorem pageOk_nil {seen alive : LineRow → Prop} {start : Option CursorPos} (h : ∀ r, ¬ alive r) :
    PageOk seen alive start { entries := [] } :=
  ⟨.nil, by simp [pageRows], by simp [pageRows], by simp, fun _ r hr => absurd hr (h r), fun h => absurd rfl h⟩

/-- the page cut from what was read -/
theorem newPage_ok {t : Text} {gens : List Generation} {start : Option CursorPos} {R : List LineRow} {s : Scan}
    {limit : ℕ} (hlimit : 0 < limit) {seen alive : LineRow → Prop} (h : Holds t gens seen start R s)
    (hint : ∀ r, seen r → Decimal.InInt64 r.line.tsNS ∧ Decimal.InInt64 r.rowid)
    (hacc : (s.carry = [] ∧ ∀ r, alive r → (∀ p ∈ start, r.pos.Before p) → r ∈ R) ∨
      (limit < s.entries.length ∧ ∀ r, alive r → (∀ p ∈ start, r.pos.Before p) →
        r ∈ R ∨ ∀ r₀ ∈ R.head?, r.pos.Before r₀.pos)) :
    PageOk seen alive start (newPage s.entries s.anchors limit) := by
  obtain ⟨gs, hne, he, ha, hf⟩ := h.groups
  unfold newPage
  split_ifs with hle
  · -- the scan came to the end of history: everything read is on the page
    obtain ⟨hc, hall⟩ := hacc.resolve_right fun h => absurd h.1 (not_lt.2 hle)
    rw [hc, List.reverse_nil, List.nil_append] at hf
    obtain ⟨hrows, hwhole⟩ := flatMap_mergeRows t gens hne hf
    have hp : pageRows { entries := s.entries } = R := by rw [pageRows, he]; exact hrows
    exact ⟨hp ▸ h.sorted, hp ▸ h.below, hp ▸ h.seen, he ▸ hwhole, fun _ => hp ▸ hall, fun h => absurd rfl h⟩
  · have hlen : s.entries.length = gs.length := by rw [he, List.length_map]
    obtain ⟨cut, hcut⟩ : ∃ cut, cut = s.entries.length - limit := ⟨_, rfl⟩
    have hlt : cut < gs.length := by omega
    rw [← hcut]
    obtain ⟨g, hg⟩ : ∃ g, gs[cut]? = some g := ⟨_, List.getElem?_eq_getElem hlt⟩
    have hdrop : gs.drop cut = g :: gs.drop (cut + 1) := by
      obtain ⟨hlt, rfl⟩ := List.getElem?_eq_some_iff.1 hg
      exact List.drop_eq_getElem_cons hlt
    have hanchor : s.anchors[cut]? = some (firstPos g) := by rw [ha, List.getElem?_map, hg]; rfl
    simp only [hanchor]
    -- the rows of the page are a suffix of the rows read
    have hpre : s.carry.reverse ++ (gs.take cut).flatten ++ (gs.drop cut).flatten = R.map (storedRow t gens) := by
      rw [List.append_assoc, ← List.flatten_append, List.take_append_drop, hf]
    obtain ⟨R₁, R₂, rfl, hR₁, hR₂⟩ := List.map_eq_append_iff.1 hpre.symm
    have hne' : ∀ g' ∈ gs.drop cut, g' ≠ [] := fun g' hg' => hne g' (List.mem_of_mem_drop hg')
    obtain ⟨hrows, hwhole⟩ := flatMap_mergeRows t gens hne' hR₂.symm
    have hentries : s.entries.drop cut = (gs.drop cut).map mergeRows := by rw [he, List.map_drop]
    obtain ⟨hs₁, hs₂, hs⟩ := List.pairwise_append.1 h.sorted
    have hp : ∀ cursor, pageRows { entries := s.entries.drop cut, nextCursor := cursor } = R₂ := by
      intro cursor
      rw [pageRows, hentries]
      exact hrows
    -- the first row of the page
    obtain ⟨a, b, rfl⟩ := List.exists_cons_of_ne_nil (hne g (List.mem_of_getElem? hg))
    rw [hdrop, List.flatten_cons, List.cons_append] at hR₂
    obtain ⟨r, rs, rfl, hra, -⟩ := List.map_eq_cons_iff.1 hR₂
    have hpos : firstPos (a :: b) = r.pos := by rw [firstPos, ← hra]; rfl
    have hin := hint r (h.seen r (List.mem_append_right _ List.mem_cons_self))
    rw [hpos]
    refine ⟨hp _ ▸ hs₂, hp _ ▸ fun r' hr' => h.below r' (List.mem_append_right _ hr'),
      hp _ ▸ fun r' hr' => h.seen r' (List.mem_append_right _ hr'), hentries ▸ hwhole, ?_, ?_⟩
    · exact fun e => absurd e (encodeCursor_ne_empty hin.1 hin.2)
    · intro _
      have hfirst : ∃ rs', (mergeRows (a :: b)).rows = r :: rs' := by
        have := hrows
        rw [hdrop, List.map_cons, List.flatMap_cons] at this
        have hwh := (hwhole (mergeRows (a :: b)) (by rw [hdrop]; exact List.mem_map_of_mem List.mem_cons_self)).1
        obtain ⟨x, xs, hx⟩ := List.exists_cons_of_ne_nil hwh
        rw [hx, List.cons_append] at this
        exact ⟨xs, by rw [hx, (List.cons.inj this).1]⟩
      obtain ⟨rs', hrs'⟩ := hfirst
      refine ⟨mergeRows (a :: b), (gs.drop (cut + 1)).map mergeRows, r, rs', ?_, hrs',
        decodeCursor_encodeCursor hin.1 hin.2, fun r' hr' hb => ?_⟩
      · rw [hentries, hdrop, List.map_cons]
      · rw [hp]
        have hcase : r' ∈ R₁ ++ r :: rs ∨ ∀ r₀ ∈ (R₁ ++ r :: rs).head?, r'.pos.Before r₀.pos := by
          rcases hacc with ⟨-, hall⟩ | ⟨-, hall⟩
          · exact Or.inl (hall r' hr' hb)
          · exact hall r' hr' hb
        rcases hcase with hm | hlt
        · rcases List.mem_append.1 hm with hm | hm
          · exact Or.inr (hs r' hm r List.mem_cons_self)
          · exact Or.inl hm
        · right
          obtain ⟨r₀, hr₀, -, rfl | hlt'⟩ := head_oldest h.sorted (List.mem_append_right R₁ List.mem_cons_self)
          · exact hlt _ hr₀
          · exact (hlt r₀ hr₀).trans hlt'

theorem clampLimit_pos (limit : ℤ) : 0 < clampLimit limit := by
  simp only [clampLimit, defaultQueryLimit, maxQueryLimit]
  split_ifs <;> omega

theorem chunkSize_pos (m : Matcher) (limit : ℕ) : 0 < chunkSize m limit := by
  unfold chunkSize
  split_ifs <;> omega

/-- a query without level and search filters -/
def Unfiltered (t : Text) (q : LogQuery) : Prop := levelSeverities t q.levels = [] ∧ q.search = ""

theorem Unfiltered.matcher {t : Text} {q : LogQuery} (h : Unfiltered t q) :
    newMatcher t q = .ok ⟨[], "", none⟩ := by
  simp [newMatcher, h.1, h.2]

/-- **One page.** -/
theorem query_page {t : Text} {env : ℕ → DB} (henv : ∀ i, Snapshot (env i)) {q : LogQuery} (hq : Unfiltered t q)
    {fuel now : ℕ} {page : LogPage} {next : ℕ} {start : Option CursorPos}
    (hstart : resumeAt q = .ok start) (h : query t env fuel now q = .ok (some (page, next))) :
    now < next ∧ PageOk (Seen env q now) (Stays env q now next) start page := by
  unfold query at h
  rw [hq.matcher, hstart] at h
  simp only [bind, Except.bind, pure, Except.pure] at h
  split_ifs at h with hg
  · obtain ⟨rfl, rfl⟩ := Prod.mk.inj (Option.some.inj (Except.ok.inj h))
    refine ⟨Nat.lt_succ_self now, pageOk_nil fun r hr => ?_⟩
    have := hr.named now le_rfl (Nat.lt_succ_self now)
    rw [hg] at this
    cases this
  · have hm : (⟨[], "", none⟩ : Matcher).active = false := rfl
    have h := Except.ok.inj h
    have hfirst : ([] : List LineRow) = [] → ∀ r ∈ (env (now + 1)).lines,
        Selected (generations (env now) q.host q.container) q none r → Seen env q now r :=
      fun _ r hr hsel => ⟨⟨now + 1, by omega, hr⟩, hsel, r, hr, Or.inl rfl⟩
    have hlower : ∀ i, now + 1 ≤ i → ∀ r ∈ (env i).lines,
        Selected (generations (env now) q.host q.container) q none r →
        ∀ r₀, Seen env q now r₀ → r.pos.Before r₀.pos → Seen env q now r := by
      rintro i hi r hr hsel r₀ h₀ hlt
      obtain ⟨r₁, h₁, hle⟩ := h₀.bounded
      refine ⟨⟨i, by omega, hr⟩, hsel, r₁, h₁, Or.inr ?_⟩
      rcases hle with e | hlt'
      · exact e ▸ hlt
      · exact hlt.trans hlt'
    obtain ⟨hlt, R, s, hI, hp, hacc⟩ := scanLoop_spec henv hm (chunkSize_pos _ _) h (holds_start start)
      (by simp [ResumesAt]) le_rfl hfirst hlower fun r _ hr => Or.inr hr.2.2.2
    have hint : ∀ r, Seen env q now r → Decimal.InInt64 r.line.tsNS ∧ Decimal.InInt64 r.rowid := by
      rintro r ⟨⟨i, -, hr⟩, -, -⟩
      exact (henv i).int64 r hr
    refine ⟨by omega, ?_⟩
    rw [hp]
    have hsel : ∀ r, Stays env q now next r → (∀ p ∈ start, r.pos.Before p) →
        Selected (generations (env now) q.host q.container) q start r :=
      fun r hr hb => ⟨hr.named now le_rfl (by omega), hr.since, hr.till, hb⟩
    have hst : ∀ r, Stays env q now next r → ∀ i, now + 1 ≤ i → i < next → r ∈ (env i).lines :=
      fun r hr i h1 h2 => hr.stored i (by omega) h2
    refine newPage_ok (clampLimit_pos q.limit) hI hint ?_
    rcases hacc with ⟨hc, hall⟩ | ⟨hlen, hall⟩
    · exact Or.inl ⟨hc, fun r hr hb => hall r (hst r hr) (hsel r hr hb)⟩
    · exact Or.inr ⟨hlen, fun r hr hb => hall r (hst r hr) (hsel r hr hb)⟩

/-! ## All pages -/

/-- what the pages hold of the rows that stay in the store from read `first` on and before `last` -/
structure Conserved (env : ℕ → DB) (q : LogQuery) (first last : ℕ) (start : Option CursorPos)
    (pages : List LogPage) : Prop where
  sorted : (pagesRows pages).Pairwise fun a b => a.pos.Before b.pos
  below : ∀ r ∈ pagesRows pages, ∀ p ∈ start, r.pos.Before p
  complete : ∀ r, Stays env q first last r → (∀ p ∈ start, r.pos.Before p) → r ∈ pagesRows pages
  genuine : ∀ r ∈ pagesRows pages, ∃ i, first ≤ i ∧ Seen env q i r
  whole : ∀ page ∈ pages, ∀ e ∈ page.entries, e.rows ≠ [] ∧ e.raw = joinRaw (e.rows.map fun l => l.line.raw)
  cursors : ∀ page ∈ pages, page.nextCursor ≠ "" → ∃ e es r rs, page.entries = e :: es ∧ e.rows = r :: rs ∧
    decodeCursor page.nextCursor = .ok r.pos

theorem pagesRows_cons (page : LogPage) (pages : List LogPage) :
    pagesRows (page :: pages) = pagesRows pages ++ pageRows page := by
  simp [pagesRows]

theorem resumeAt_cursor {q : LogQuery} {cursor : String} {limit : ℤ} {pos : CursorPos} (hc : cursor ≠ "")
    (hd : decodeCursor cursor = .ok pos) : resumeAt { q with limit := limit, cursor := cursor } = .ok (some pos) := by
  simp [resumeAt, hc, hd, Except.map]

theorem resumeAt_empty {q : LogQuery} {limit : ℤ} : resumeAt { q with limit := limit, cursor := "" } = .ok none := rfl

section
variable {env : ℕ → DB} {q : LogQuery} {limit : ℤ} {cursor : String} {first next last : ℕ} {start : Option CursorPos}
  {page : LogPage} {pages : List LogPage}

/-- a page without a cursor is all there is -/
theorem conserved_last (hok : PageOk (Seen env { q with limit := limit, cursor := cursor } first)
      (Stays env { q with limit := limit, cursor := cursor } first next) start page) (hc : page.nextCursor = "") :
    Conserved env q first next start [page] := by
  have hrows : pagesRows [page] = pageRows page := by simp [pagesRows]
  refine ⟨hrows ▸ hok.sorted, hrows ▸ hok.below, fun r hr hb => ?_, fun r hr => ?_, ?_, ?_⟩
  · rw [hrows]
    exact hok.last hc r ⟨hr.stored, hr.named, hr.since, hr.till⟩ hb
  · have hs := hok.seen r (hrows ▸ hr)
    exact ⟨first, le_rfl, hs.stored, hs.selected, hs.bounded⟩
  · rintro p hp
    exact List.mem_singleton.1 hp ▸ hok.whole
  · rintro p hp hne
    exact absurd (List.mem_singleton.1 hp ▸ hc) hne

/-- the rows of the older pages are older than the first row of this one, and so than all of them -/
theorem older_before {seen alive : LineRow → Prop} (hok : PageOk seen alive start page) {r₀ : LineRow}
    (hhead : (pageRows page).head? = some r₀) (hbelow : ∀ r ∈ pagesRows pages, ∀ p ∈ some r₀.pos, r.pos.Before p) :
    ∀ r ∈ pagesRows pages, ∀ r' ∈ pageRows page, r.pos.Before r'.pos := by
  intro r hr r' hr'
  have hfirst := hbelow r hr r₀.pos rfl
  obtain ⟨r₁, hr₁, -, hcase⟩ := head_oldest hok.sorted hr'
  rw [hhead] at hr₁
  obtain rfl := Option.some.inj hr₁
  rcases hcase with rfl | hlt
  · exact hfirst
  · exact hfirst.trans hlt

/-- a page in front of those that its cursor leads to -/
theorem conserved_cons (hok : PageOk (Seen env { q with limit := limit, cursor := cursor } first)
      (Stays env { q with limit := limit, cursor := cursor } first next) start page) (hlt : first < next)
    (hlt' : next < last) {e : LogEntry} {es : List LogEntry} {r₀ : LineRow} {rs : List LineRow}
    (hpe : page.entries = e :: es) (her : e.rows = r₀ :: rs) (hdec : decodeCursor page.nextCursor = .ok r₀.pos)
    (hmore : ∀ r, Stays env { q with limit := limit, cursor := cursor } first next r → (∀ p ∈ start, r.pos.Before p) →
      r ∈ pageRows page ∨ r.pos.Before r₀.pos) (hrest : Conserved env q next last (some r₀.pos) pages) :
    Conserved env q first last start (page :: pages) := by
  have hhead : (pageRows page).head? = some r₀ := by
    rw [pageRows, hpe, List.flatMap_cons, her]
    rfl
  have hr₀ : r₀ ∈ pageRows page := List.mem_of_mem_head? hhead
  have hold := older_before hok hhead hrest.below
  refine ⟨?_, ?_, ?_, ?_, ?_, ?_⟩
  · rw [pagesRows_cons]
    exact List.pairwise_append.2 ⟨hrest.sorted, hok.sorted, hold⟩
  · intro r hr p hp
    rw [pagesRows_cons, List.mem_append] at hr
    rcases hr with hr | hr
    · exact (hold r hr r₀ hr₀).trans (hok.below r₀ hr₀ p hp)
    · exact hok.below r hr p hp
  · intro r hr hb
    rw [pagesRows_cons, List.mem_append]
    have hr₁ : Stays env { q with limit := limit, cursor := cursor } first next r :=
      ⟨fun i h1 h2 => hr.stored i h1 (by omega), fun i h1 h2 => hr.named i h1 (by omega), hr.since, hr.till⟩
    have hr₂ : Stays env q next last r :=
      ⟨fun i h1 h2 => hr.stored i (by omega) h2, fun i h1 h2 => hr.named i (by omega) h2, hr.since, hr.till⟩
    rcases hmore r hr₁ hb with hin | hbefore
    · exact Or.inr hin
    · refine Or.inl (hrest.complete r hr₂ fun p hp => ?_)
      obtain rfl := Option.some.inj hp
      exact hbefore
  · intro r hr
    rw [pagesRows_cons, List.mem_append] at hr
    rcases hr with hr | hr
    · obtain ⟨i, hi, hs⟩ := hrest.genuine r hr
      exact ⟨i, by omega, hs⟩
    · have hs := hok.seen r hr
      exact ⟨first, le_rfl, hs.stored, hs.selected, hs.bounded⟩
  · intro p hp
    rcases List.mem_cons.1 hp with rfl | hp
    · exact hok.whole
    · exact hrest.whole p hp
  · intro p hp
    rcases List.mem_cons.1 hp with rfl | hp
    · exact fun _ => ⟨e, es, r₀, rs, hpe, her, hdec⟩
    · exact hrest.cursors p hp

end

theorem follow_conserves {t : Text} {env : ℕ → DB} (henv : ∀ i, Snapshot (env i)) {q : LogQuery}
    (hq : Unfiltered t q) {fuel : ℕ} {limits : List ℤ} {n first last : ℕ} {cursor : String} {start : Option CursorPos}
    {pages : List LogPage} (hstart : ∀ limit, resumeAt { q with limit := limit, cursor := cursor } = .ok start)
    (h : follow t env q fuel limits n first cursor = some (pages, last)) :
    first < last ∧ Conserved env q first last start pages := by
  induction n generalizing limits first cursor start pages with
  | zero => cases h
  | succ n ih =>
    unfold follow at h
    split at h
    · rename_i page next hpage
      have hq' : Unfiltered t { q with limit := limits.headD 0, cursor := cursor } := hq
      obtain ⟨hlt, hok⟩ := query_page henv hq' (hstart _) hpage
      split_ifs at h with hc
      · obtain ⟨rfl, rfl⟩ := Prod.mk.inj (Option.some.inj h)
        exact ⟨hlt, conserved_last hok hc⟩
      · cases hf : follow t env q fuel limits.tail n next page.nextCursor with
        | none => rw [hf] at h; cases h
        | some res =>
          obtain ⟨pages', last'⟩ := res
          rw [hf] at h
          obtain ⟨rfl, rfl⟩ := Prod.mk.inj (Option.some.inj h)
          obtain ⟨e, es, r₀, rs, hpe, her, hdec, hmore⟩ := hok.more hc
          obtain ⟨hlt', hrest⟩ := ih (fun limit => resumeAt_cursor hc hdec) hf
          exact ⟨hlt.trans hlt', conserved_cons hok hlt hlt' hpe her hdec hmore hrest⟩
    · cases h

/-! ## Termination -/

/-- from read T on no row older than c is added -/
def NoGrowth (env : ℕ → DB) (c : CursorPos) (T : ℕ) : Prop :=
  ∀ i, T ≤ i → ∀ l ∈ (env (i + 1)).lines, l.pos.Before c → l ∈ (env i).lines

theorem NoGrowth.mem {env : ℕ → DB} {c : CursorPos} {T : ℕ} (h : NoGrowth env c T) {i : ℕ} (hi : T ≤ i) {l : LineRow}
    (hl : l ∈ (env i).lines) (hc : l.pos.Before c) : l ∈ (env T).lines := by
  induction i, hi using Nat.le_induction with
  | base => exact hl
  | succ i hi ih => exact ih (h i hi l hl hc)

/-- the reads until T, and the rows of read T that a scan may still return -/
def todo (env : ℕ → DB) (c : CursorPos) (T now : ℕ) (before : Option CursorPos) : ℕ :=
  (T - now) + ((env T).lines.filter fun l => l.pos.Before c ∧ ∀ p ∈ before, l.pos.Before p).length

theorem length_filter_lt {α : Type} {p q : α → Bool} {l : List α} (h : ∀ a, q a → p a) {a : α} (ha : a ∈ l)
    (hp : p a) (hq : ¬ q a) : (l.filter q).length < (l.filter p).length := by
  have hsub : l.filter q = (l.filter p).filter q := by
    rw [List.filter_filter]
    refine List.filter_congr fun b _ => ?_
    cases hqb : q b with
    | false => rfl
    | true => rw [h b hqb]; rfl
  rw [hsub]
  exact List.length_filter_lt_length_iff_exists.2 ⟨a, List.mem_filter.2 ⟨ha, hp⟩, hq⟩

/-- a read that moves the scan to an older row leaves less to do -/
theorem todo_lt {env : ℕ → DB} {c : CursorPos} {T : ℕ} (h : NoGrowth env c T) {now next : ℕ} (hlt : now < next)
    {before : Option CursorPos} {l : LineRow} (hl : ∃ i, now ≤ i ∧ l ∈ (env i).lines) (hc : l.pos.Before c)
    (hb : ∀ p ∈ before, l.pos.Before p) : todo env c T next (some l.pos) < todo env c T now before := by
  have hsub : ∀ a : LineRow, decide (a.pos.Before c ∧ ∀ p ∈ some l.pos, a.pos.Before p) = true →
      decide (a.pos.Before c ∧ ∀ p ∈ before, a.pos.Before p) = true := by
    intro a ha
    simp only [decide_eq_true_eq] at ha ⊢
    exact ⟨ha.1, fun p hp => (ha.2 l.pos rfl).trans (hb p hp)⟩
  unfold todo
  by_cases hT : T ≤ now
  · obtain ⟨i, hi, hli⟩ := hl
    have hmem := h.mem (hT.trans hi) hli hc
    have := length_filter_lt hsub hmem (decide_eq_true ⟨hc, hb⟩) (by simpa using fun _ => CursorPos.Before.irrefl l.pos)
    omega
  · have hle : ((env T).lines.filter fun a => decide (a.pos.Before c ∧ ∀ p ∈ some l.pos, a.pos.Before p)).length ≤
        ((env T).lines.filter fun a => decide (a.pos.Before c ∧ ∀ p ∈ before, a.pos.Before p)).length :=
      (List.monotone_filter_right (env T).lines hsub).length_le
    omega

/-- the scan starts below c: it resumes at or below c, or everything it can read first is below c -/
def StartsBelow (env : ℕ → DB) (c : CursorPos) (now : ℕ) : Option CursorPos → Prop
  | some p => p = c ∨ p.Before c
  | none => ∀ l ∈ (env now).lines, l.pos.Before c

theorem StartsBelow.row {env : ℕ → DB} {c : CursorPos} {now : ℕ} {start : Option CursorPos}
    (h : StartsBelow env c now start) {l : LineRow} (hl : l ∈ (env now).lines) (hb : ∀ p ∈ start, l.pos.Before p) :
    l.pos.Before c := by
  cases start with
  | none => exact h l hl
  | some p =>
    have hp := hb p rfl
    rcases h with rfl | h
    · exact hp
    · exact hp.trans h

theorem scanLoop_isSome {t : Text} {env : ℕ → DB} {c : CursorPos} {T : ℕ} (h : NoGrowth env c T)
    {gens : List Generation} {q : LogQuery} {m : Matcher} {limit chunk : ℕ} (hchunk : 0 < chunk) {fuel now : ℕ} {s : Scan}
    (hs : StartsBelow env c now s.before) (hf : todo env c T now s.before < fuel) :
    (scanLoop t env gens q m limit chunk fuel now s).isSome = true := by
  induction fuel generalizing now s with
  | zero => exact absurd hf (Nat.not_lt_zero _)
  | succ fuel ih =>
    obtain ⟨ls, hls⟩ : ∃ ls, ls = (newestFirst (env now) (Selected gens q s.before)).take chunk := ⟨_, rfl⟩
    rw [scanLoop, scanRows, ← hls, List.length_map]
    split_ifs with hstop
    · rfl
    · rw [not_or, decide_eq_true_eq] at hstop
      rw [decide_eq_false hstop.2]
      have hne : ls ≠ [] := List.ne_nil_of_length_pos (lt_of_lt_of_le hchunk (not_lt.1 hstop.2))
      obtain ⟨l, hlast⟩ : ∃ l, ls.getLast? = some l := ⟨_, List.getLast?_eq_getLast_of_ne_nil hne⟩
      have hl : l ∈ ls := List.mem_of_getLast? hlast
      obtain ⟨hmem, hsel⟩ := mem_newestFirst.1 (List.mem_of_mem_take (hls ▸ hl))
      have hbefore : (s.round t m (ls.map (storedRow t gens)) false).before = some l.pos := by
        simp [Scan.round, storedRow, hlast]
      have hc := hs.row hmem hsel.2.2.2
      refine ih ?_ ?_
      · rw [hbefore]
        exact Or.inr hc
      · have := todo_lt h (Nat.lt_add_one now) ⟨now, le_rfl, hmem⟩ hc hsel.2.2.2
        rw [hbefore]
        omega

theorem query_isSome {t : Text} {env : ℕ → DB} {c : CursorPos} {T : ℕ} (h : NoGrowth env c T) {q : LogQuery}
    (hq : Unfiltered t q) {fuel now : ℕ} {start : Option CursorPos} (hstart : resumeAt q = .ok start)
    (hs : StartsBelow env c (now + 1) start) (hfuel : todo env c T now start < fuel) :
    ∃ page next, query t env fuel now q = .ok (some (page, next)) := by
  unfold query
  rw [hq.matcher, hstart]
  simp only [bind, Except.bind, pure, Except.pure]
  split_ifs with hg
  · exact ⟨_, _, rfl⟩
  · have hle : todo env c T (now + 1) start ≤ todo env c T now start := by
      unfold todo
      omega
    have hsome : (scanLoop t env (generations (env now) q.host q.container) q ⟨[], "", none⟩ (clampLimit q.limit)
        (chunkSize ⟨[], "", none⟩ (clampLimit q.limit)) fuel (now + 1) ⟨start, [], [], []⟩).isSome = true :=
      scanLoop_isSome h (chunkSize_pos _ _) hs (lt_of_le_of_lt hle hfuel)
    obtain ⟨res, hres⟩ := Option.isSome_iff_exists.1 hsome
    exact ⟨res.1, res.2, by rw [hres]⟩

/-- **Following the cursor terminates** once the store stops growing below it. -/
theorem follow_isSome {t : Text} {env : ℕ → DB} (henv : ∀ i, Snapshot (env i)) {q : LogQuery} (hq : Unfiltered t q)
    {c : CursorPos} {T : ℕ} (hgrow : NoGrowth env c T) {fuel n : ℕ} {limits : List ℤ} {now : ℕ} {cursor : String}
    {start : Option CursorPos} (hstart : ∀ limit, resumeAt { q with limit := limit, cursor := cursor } = .ok start)
    (hs : StartsBelow env c (now + 1) start) (hn : todo env c T now start < n)
    (hfuel : todo env c T now start < fuel) : (follow t env q fuel limits n now cursor).isSome = true := by
  induction n generalizing limits now cursor start with
  | zero => exact absurd hn (Nat.not_lt_zero _)
  | succ n ih =>
    have hq' : Unfiltered t { q with limit := limits.headD 0, cursor := cursor } := hq
    obtain ⟨page, next, hpage⟩ := query_isSome hgrow hq' (hstart _) hs hfuel
    obtain ⟨hlt, hok⟩ := query_page henv hq' (hstart _) hpage
    rw [follow, hpage]
    dsimp only
    split_ifs with hc
    · rfl
    · obtain ⟨e, es, r, rs, hpe, her, hdec, -⟩ := hok.more hc
      have hr : r ∈ pageRows page := by
        rw [pageRows, hpe, List.flatMap_cons, her]
        exact List.mem_append_left _ List.mem_cons_self
      have hseen := hok.seen r hr
      have hb := hok.below r hr
      -- the first row of the page is older than c: it is older than the start, or not newer than the first read
      have hc' : r.pos.Before c := by
        cases start with
        | some p => exact hs.elim (fun e => e ▸ hb p rfl) (hb p rfl).trans
        | none =>
          obtain ⟨r₀, h₀, hle⟩ := hseen.bounded
          rcases hle with e | hlt
          · exact e ▸ hs r₀ h₀
          · exact hlt.trans (hs r₀ h₀)
      have hless := todo_lt hgrow hlt hseen.stored hc' hb
      rw [Option.isSome_map]
      exact ih (fun limit => resumeAt_cursor hc hdec) (Or.inr hc') (by omega) (by omega)

theorem pages_older {pages : List LogPage} (h : (pagesRows pages).Pairwise fun a b => a.pos.Before b.pos) :
    pages.Pairwise fun page older => ∀ r ∈ pageRows page, ∀ r' ∈ pageRows older, r'.pos.Before r.pos := by
  rw [pagesRows, List.pairwise_flatten, List.pairwise_map, List.pairwise_reverse] at h
  exact h.2.imp fun hab r hr r' hr' => hab r' hr' r hr

/-- **Pagination conserves rows.** For every unfiltered query, every sequence of limits and every sequence of databases
that its reads may see:
- when the cursors have been followed to the end, the rows of all entries of all pages ascend strictly by (timestamp,
  rowid), older pages in front; each row that was stored and in the window at every read is in exactly one entry of
  exactly one page, and no page holds any other row than one that was stored and in the window; an entry's raw text is
  that of its rows, in order; an empty page carries no cursor, and a cursor decodes to the position of the first row of
  the page's first entry;
- following the cursors comes to an end, from the first page when no rows are added any more below a position above all
  rows of the first scan, and from any cursor when no rows are added any more below that cursor. -/
theorem pagination_conserves (t : Text) {env : ℕ → DB} (henv : ∀ i, Snapshot (env i)) {q : LogQuery}
    (hq : Unfiltered t q) (limits : List ℤ) :
    (∀ fuel n first pages last, follow t env q fuel limits n first "" = some (pages, last) →
      (pagesRows pages).Pairwise (fun a b => a.pos.Before b.pos) ∧
      pages.Pairwise (fun page older => ∀ r ∈ pageRows page, ∀ r' ∈ pageRows older, r'.pos.Before r.pos) ∧
      (∀ r, Stays env q first last r → (pagesRows pages).count r = 1) ∧
      (∀ r ∈ pagesRows pages, ∃ i, first ≤ i ∧ Seen env q i r) ∧
      (∀ page ∈ pages, ∀ e ∈ page.entries, e.rows ≠ [] ∧ e.raw = joinRaw (e.rows.map fun l => l.line.raw)) ∧
      (∀ page ∈ pages, page.entries = [] → page.nextCursor = "") ∧
      ∀ page ∈ pages, page.nextCursor ≠ "" → ∃ e es r rs, page.entries = e :: es ∧ e.rows = r :: rs ∧
        decodeCursor page.nextCursor = .ok r.pos) ∧
    (∀ now c T, (∀ l ∈ (env (now + 1)).lines, l.pos.Before c) → NoGrowth env c T →
      ∃ fuel n, (follow t env q fuel limits n now "").isSome = true) ∧
    ∀ now cursor c T, cursor ≠ "" → decodeCursor cursor = .ok c → NoGrowth env c T →
      ∃ fuel n, (follow t env q fuel limits n now cursor).isSome = true := by
  refine ⟨fun fuel n first pages last h => ?_, fun now c T hc hg => ?_, fun now cursor c T hne hd hg => ?_⟩
  · obtain ⟨-, hC⟩ := follow_conserves henv hq (fun _ => resumeAt_empty) h
    refine ⟨hC.sorted, pages_older hC.sorted, fun r hr => ?_, hC.genuine, hC.whole, fun page hp he => ?_, hC.cursors⟩
    · have hnd : (pagesRows pages).Nodup := by
        refine hC.sorted.imp ?_
        rintro a _ hab rfl
        exact CursorPos.Before.irrefl a.pos hab
      exact List.count_eq_one_of_mem hnd (hC.complete r hr (by simp))
    · by_contra hne
      obtain ⟨e, es, r, rs, he', -⟩ := hC.cursors page hp hne
      rw [he] at he'
      cases he'
  · exact ⟨_, _, follow_isSome henv hq hg (fun _ => resumeAt_empty) hc (Nat.lt_succ_self _) (Nat.lt_succ_self _)⟩
  · exact ⟨_, _, follow_isSome henv hq hg (fun _ => resumeAt_cursor hne hd) (Or.inl rfl) (Nat.lt_succ_self _)
      (Nat.lt_succ_self _)⟩

/-- a parser that classifies no line -/
def plainText : Text := ⟨fun _ _ => (.unknown, ""), id, id, fun _ => none⟩

def webStore (lines : List LineRow) : DB :=
  { containers := [{ id := 1, key := ⟨"local", "aaa"⟩, name := "web", firstSeenMS := 0, lastSeenMS := 0 }]
    lines := lines }

def webRow (rowid : ℕ) (tsNS : ℤ) : LineRow := ⟨rowid, 1, ⟨tsNS, .stdout, 0, [104, 105]⟩, ⟨"local", "aaa"⟩⟩

/-- two rows of one timestamp, one entry a page; a newer row arrives after the first scan -/
def webEnv (i : ℕ) : DB := webStore (if i < 2 then [webRow 1 5, webRow 2 5] else [webRow 1 5, webRow 2 5, webRow 3 9])

theorem webEnv_snapshot (i : ℕ) : Snapshot (webEnv i) := by
  unfold webEnv
  split_ifs
  · exact ⟨by decide, by decide⟩
  · exact ⟨by decide, by decide⟩

/-- the pages of `webEnv` end, and hold the older row once -/
theorem pagination_conserves_web :
    ((follow plainText webEnv { host := "local", container := "web" } 5 [1] 5 0 "").map fun r =>
      (pagesRows r.1).count (webRow 1 5)) = some 1 := by
  cases h : follow plainText webEnv { host := "local", container := "web" } 5 [1] 5 0 "" with
  | none => exact absurd h (by decide)
  | some res =>
    obtain ⟨pages, last⟩ := res
    have hstay : Stays webEnv { host := "local", container := "web" } 0 last (webRow 1 5) := by
      refine ⟨fun i _ _ => ?_, fun i _ _ => ?_, by simp, by simp⟩
      · unfold webEnv
        split_ifs <;> decide
      · unfold webEnv
        split_ifs <;> decide
    have hc := ((pagination_conserves plainText webEnv_snapshot (q := { host := "local", container := "web" })
      ⟨rfl, rfl⟩ [1]).1 5 5 0 pages last h).2.2.1 (webRow 1 5) hstay
    rw [Option.map_some, hc]

end LogDeck.LogStore
